import RpcLearning.LogServer.LogLine.RoundTrip

/-!
# Where log lines are kept

The fields of a `LogLine` as they are, with nothing known about them: every copy is checked against
the array it goes to, the stack's or the heap's, whatever `m_buffer_size` says.  A run of the
operations on them goes as a run on log lines does, so no copy misses its array.
-/

namespace RpcLearning.LogServer

open Json (Bytes)
open LogLine (overwrite length_overwrite raw Header)

/-- `char m_stack_buffer[256]` -/
abbrev StackBuffer := {b : Bytes // b.length = 256}

structure Fields where
  m_buffer_used : Nat
  m_buffer_size : Nat
  m_heap_buffer : Option Bytes
  m_stack_buffer : StackBuffer

namespace Fields

/-- The storage that is active: the stack's while there is none on the heap. -/
def active (f : Fields) : Bytes := f.m_heap_buffer.getD f.m_stack_buffer

/-- `data` copied to the place `pos` of the active storage. -/
def store (pos : Nat) (data : Bytes) (f : Fields) : Run Fields :=
  match f.m_heap_buffer with
  | some block =>
    if pos + data.length ≤ block.length then
      .ok { f with m_heap_buffer := some (overwrite pos data block) }
    else .error .pastEnd
  | none =>
    if h : pos + data.length ≤ f.m_stack_buffer.val.length then
      .ok { f with
        m_stack_buffer := ⟨overwrite pos data f.m_stack_buffer,
          (length_overwrite h).trans f.m_stack_buffer.property⟩ }
    else .error .pastEnd

/-- `m_buffer_used += n` -/
def advance (n : Nat) (f : Fields) : Fields := { f with m_buffer_used := f.m_buffer_used + n }

/-- `resize_if_need`: what is used is copied out of the active storage into the new one, which is
not initialised otherwise. -/
def resize_if_need (need_size : Nat) (f : Fields) : Run Fields :=
  let required_size := f.m_buffer_used + need_size
  if required_size ≤ f.m_buffer_size then .ok f
  else
    let size := if f.m_heap_buffer.isSome then max (2 * f.m_buffer_size) required_size
      else max 512 required_size
    if f.m_buffer_used ≤ f.active.length ∧ f.m_buffer_used ≤ size then
      .ok { f with
        m_buffer_size := size
        m_heap_buffer :=
          some (f.active.take f.m_buffer_used ++ List.replicate (size - f.m_buffer_used) 0) }
    else .error .pastEnd

section Raw

variable {n : Nat}

def encode (arg : BitVec (8 * n)) (f : Fields) : Run Fields := do
  let f ← f.store f.m_buffer_used (raw arg)
  .ok (f.advance n)

def encodeTagged (arg : BitVec (8 * n)) (type_id : UInt8) (f : Fields) : Run Fields := do
  let f ← f.resize_if_need (n + 1)
  let f ← f.encode (n := 1) type_id.toBitVec
  f.encode arg

end Raw

def encode_c_str (str : Bytes) (f : Fields) : Run Fields :=
  if str.length = 0 then .ok f
  else do
    let f ← f.resize_if_need (1 + str.length + 1)
    let ptr := f.m_buffer_used
    let f ← f.store ptr [7]
    let f ← f.store (ptr + 1) (str ++ [0])
    .ok (f.advance (1 + str.length + 1))

def shl (f : Fields) : Arg → Run Fields
  | .char arg => f.encodeTagged (n := 1) arg.toBitVec 0
  | .uint32 arg => f.encodeTagged (n := 4) arg.toBitVec 1
  | .uint64 arg => f.encodeTagged (n := 8) arg.toBitVec 2
  | .int32 arg => f.encodeTagged (n := 4) arg.toBitVec 3
  | .int64 arg => f.encodeTagged (n := 8) arg.toBitVec 4
  | .double arg => f.encodeTagged (n := 8) arg.bits.toBitVec 5
  | .cString none => .ok f
  | .cString (some arg) => f.encode_c_str arg
  | .string arg => f.encode_c_str arg
  | .array arg => do
    let _ ← f.encodeTagged (n := 8) arg 6
    .error .noReturn

def empty : Fields where
  m_buffer_used := 0
  m_buffer_size := 256
  m_heap_buffer := none
  m_stack_buffer := ⟨List.replicate 256 0, LogLine.length_stack⟩

/-- The constructor. -/
def new [LogText] (h : Header) : Run Fields := do
  let f ← empty.encode (n := 8) h.timestamp
  let f ← f.encode (n := 8) h.threadid
  let f ← f.encode (n := 8) h.file
  let f ← f.encode (n := 8) h.function
  let f ← f.encode (n := 4) h.line
  f.encode (n := 1) h.level.code

/-- The constructor, and a sequence of calls of `operator<<`. -/
def log [LogText] (h : Header) (args : List Arg) : Run Fields := do
  let f ← new h
  args.foldlM shl f

/-! ## The simulation -/

/-- The fields are those of the line. -/
structure Of (f : Fields) (l : LogLine) : Prop where
  used : f.m_buffer_used = l.m_buffer_used
  size : f.m_buffer_size = l.m_buffer_size
  heap : f.m_heap_buffer = l.m_heap_buffer
  stack : f.m_stack_buffer = l.m_stack_buffer

/-- A run on fields that goes as one on lines does. -/
def Follows (f : Run Fields) (l : Run LogLine) : Prop :=
  ∀ l', l = .ok l' → ∃ f', f = .ok f' ∧ f'.Of l'

theorem Follows.bind {f : Run Fields} {l : Run LogLine} {g : Fields → Run Fields}
    {k : LogLine → Run LogLine} (h : Follows f l)
    (hk : ∀ f' l', f'.Of l' → Follows (g f') (k l')) : Follows (f >>= g) (l >>= k) := by
  intro l₂ hl₂
  obtain ⟨l₁, hl₁, hl₂⟩ := Exec.bind_eq_ok.mp hl₂
  obtain ⟨f₁, hf₁, h₁⟩ := h l₁ hl₁
  rw [hf₁, Exec.ok_bind]
  exact hk f₁ l₁ h₁ l₂ hl₂

variable {f : Fields} {l : LogLine}

theorem Of.active_eq (h : f.Of l) : f.active = l.memory := by
  rw [active, LogLine.memory, h.heap, h.stack]

/-- What a line is after `put`. -/
theorem put_eq_ok {data : Bytes} {l' : LogLine} (h : l.put data = .ok l') :
    l.m_buffer_used + data.length ≤ l.m_buffer_size ∧
      l'.m_buffer_used = l.m_buffer_used + data.length ∧ l'.m_buffer_size = l.m_buffer_size ∧
      l'.m_heap_buffer = l.m_heap_buffer.map (overwrite l.m_buffer_used data) ∧
      l'.m_stack_buffer = if l.m_heap_buffer.isSome then l.m_stack_buffer
        else overwrite l.m_buffer_used data l.m_stack_buffer := by
  unfold LogLine.put at h
  split at h
  · rename_i hfits
    cases h
    exact ⟨hfits, rfl, rfl, rfl, rfl⟩
  · cases h

/-- What is put behind the rest fits into the active storage, since the line has room for it. -/
theorem Of.store (h : f.Of l) (data : Bytes) :
    Follows (do
      let f ← f.store f.m_buffer_used data
      .ok (f.advance data.length)) (l.put data) := by
  intro l' hl'
  obtain ⟨hfits, hused, hsize, hheap', hstack'⟩ := put_eq_ok hl'
  have hlen := l.size_eq
  cases hheap : l.m_heap_buffer with
  | none =>
      rw [hheap] at hlen hheap' hstack'
      have hf : f.m_heap_buffer = none := h.heap.trans hheap
      have hroom : f.m_buffer_used + data.length ≤ f.m_stack_buffer.val.length := by
        rw [h.used, h.stack]
        exact hfits.trans_eq hlen.symm
      refine ⟨_, by simp only [Fields.store, hf, dif_pos hroom]; rfl, ?_, ?_, ?_, ?_⟩
      · rw [hused, ← h.used]
        rfl
      · rw [hsize, ← h.size]
        rfl
      · rw [hheap']
        rfl
      · rw [hstack', ← h.used, ← h.stack]
        rfl
  | some block =>
      rw [hheap] at hlen hheap' hstack'
      have hf : f.m_heap_buffer = some block := h.heap.trans hheap
      have hroom : f.m_buffer_used + data.length ≤ block.length := by
        rw [h.used]
        exact hfits.trans_eq hlen.symm
      refine ⟨_, by simp only [Fields.store, hf, if_pos hroom]; rfl, ?_, ?_, ?_, ?_⟩
      · rw [hused, ← h.used]
        rfl
      · rw [hsize, ← h.size]
        rfl
      · rw [hheap', ← h.used]
        rfl
      · rw [hstack', ← h.stack]
        rfl

/-- The copy to new storage is within the old and within the new. -/
theorem Of.resize_if_need (h : f.Of l) (n : Nat) :
    ∃ f', f.resize_if_need n = .ok f' ∧ f'.Of (l.resize_if_need n) := by
  have hused := l.used_le_size
  have hlen := l.length_memory
  unfold Fields.resize_if_need LogLine.resize_if_need
  rw [h.used, h.size, h.heap, h.active_eq]
  by_cases hfits : l.m_buffer_used + n ≤ l.m_buffer_size
  · simp only [if_pos hfits]
    exact ⟨f, rfl, h⟩
  · simp only [if_neg hfits]
    have hcopy : l.m_buffer_used ≤ l.memory.length ∧ l.m_buffer_used ≤
        if l.m_heap_buffer.isSome then max (2 * l.m_buffer_size) (l.m_buffer_used + n)
        else max 512 (l.m_buffer_used + n) := by
      refine ⟨by omega, ?_⟩
      split <;> omega
    rw [if_pos hcopy]
    exact ⟨_, rfl, rfl, rfl, rfl, h.stack⟩

theorem raw_byte (b : UInt8) : raw (n := 1) b.toBitVec = [b] := by
  have all : ∀ b : UInt8, raw (n := 1) b.toBitVec = [b] := by decide +kernel
  exact all b

theorem Of.encode (h : f.Of l) {n : Nat} (arg : BitVec (8 * n)) :
    Follows (f.encode arg) (l.encode arg) := by
  have hs := h.store (raw arg)
  rwa [LogLine.length_raw] at hs

theorem Of.encodeTagged (h : f.Of l) {n : Nat} (arg : BitVec (8 * n)) (type_id : UInt8) :
    Follows (f.encodeTagged arg type_id) (l.encodeTagged arg type_id) := by
  obtain ⟨f₁, hf₁, h₁⟩ := h.resize_if_need (n + 1)
  have htag := h₁.encode (n := 1) type_id.toBitVec
  rw [LogLine.encode, raw_byte] at htag
  rw [Fields.encodeTagged, hf₁, Exec.ok_bind]
  exact htag.bind fun f₂ l₂ h₂ ↦ h₂.encode arg

theorem advance_advance (m n : Nat) (f : Fields) : (f.advance m).advance n = f.advance (m + n) := by
  simp [advance, Nat.add_assoc]

/-- Where a copy goes does not depend on how much is used. -/
theorem store_advance (pos n : Nat) (data : Bytes) (f : Fields) :
    (f.advance n).store pos data = (do
      let f ← f.store pos data
      .ok (f.advance n)) := by
  cases hf : f.m_heap_buffer with
  | none =>
      by_cases h : pos + data.length ≤ f.m_stack_buffer.val.length
      · simp [store, advance, hf, h]
      · simp [store, advance, hf, h]
  | some block =>
      by_cases h : pos + data.length ≤ block.length
      · simp [store, advance, hf, h]
      · simp [store, advance, hf, h]

theorem used_store {pos : Nat} {data : Bytes} {f f' : Fields} (h : f.store pos data = .ok f') :
    f'.m_buffer_used = f.m_buffer_used := by
  unfold store at h
  split at h
  · split at h
    · cases h
      rfl
    · cases h
  · split at h
    · cases h
      rfl
    · cases h

theorem Of.encode_c_str (h : f.Of l) (str : Bytes) :
    Follows (f.encode_c_str str) (l.encode_c_str str) := by
  unfold Fields.encode_c_str LogLine.encode_c_str
  by_cases hnil : str.length = 0
  · rw [if_pos hnil, if_pos hnil]
    rintro l' hl'
    cases hl'
    exact ⟨f, rfl, h⟩
  · rw [if_neg hnil, if_neg hnil]
    obtain ⟨f₁, hf₁, h₁⟩ := h.resize_if_need (1 + str.length + 1)
    rw [hf₁, Exec.ok_bind]
    intro l' hl'
    obtain ⟨l₂, hl₂, hl'⟩ := Exec.bind_eq_ok.mp hl'
    obtain ⟨f₂, hf₂, h₂⟩ := h₁.store [7] l₂ hl₂
    obtain ⟨g₂, hg₂, rfl⟩ : ∃ g₂, f₁.store f₁.m_buffer_used [7] = .ok g₂ ∧ g₂.advance 1 = f₂ := by
      obtain ⟨g₂, hg₂, he⟩ := Exec.bind_eq_ok.mp hf₂
      exact ⟨g₂, hg₂, Except.ok.inj he⟩
    obtain ⟨f₃, hf₃, h₃⟩ := h₂.store (str ++ [0]) l' hl'
    have hptr : (g₂.advance 1).m_buffer_used = f₁.m_buffer_used + 1 := by
      rw [advance, used_store hg₂]
    rw [hptr, store_advance] at hf₃
    obtain ⟨g, hg, he⟩ := Exec.bind_eq_ok.mp hf₃
    obtain ⟨g₃, hg₃, hadv⟩ := Exec.bind_eq_ok.mp hg
    obtain rfl : g₃.advance 1 = g := Except.ok.inj hadv
    refine ⟨g₃.advance (1 + str.length + 1), ?_, ?_⟩
    · simp only [hg₂, hg₃, Exec.ok_bind]
    · have hlen : (g₃.advance 1).advance (str ++ [0]).length = f₃ := Except.ok.inj he
      rw [advance_advance, List.length_append, List.length_singleton, ← Nat.add_assoc] at hlen
      rw [hlen]
      exact h₃

theorem Of.shl (h : f.Of l) (arg : Arg) : Follows (f.shl arg) (l.shl arg) := by
  have same : Follows (.ok f) (.ok l) := by
    rintro l' hl'
    cases hl'
    exact ⟨f, rfl, h⟩
  cases arg with
  | char arg => exact h.encodeTagged (n := 1) arg.toBitVec 0
  | uint32 arg => exact h.encodeTagged (n := 4) arg.toBitVec 1
  | uint64 arg => exact h.encodeTagged (n := 8) arg.toBitVec 2
  | int32 arg => exact h.encodeTagged (n := 4) arg.toBitVec 3
  | int64 arg => exact h.encodeTagged (n := 8) arg.toBitVec 4
  | double arg => exact h.encodeTagged (n := 8) arg.bits.toBitVec 5
  | cString arg =>
      cases arg with
      | none => exact same
      | some arg => exact h.encode_c_str arg
  | string arg => exact h.encode_c_str arg
  | array arg =>
      rintro l' hl'
      obtain ⟨l₁, -, hl'⟩ := Exec.bind_eq_ok.mp hl'
      cases hl'

theorem returns_of_shl {f' : Fields} {arg : Arg} (h : f.shl arg = .ok f') : arg.Returns := by
  cases arg with
  | array arg =>
      obtain ⟨f₁, -, h⟩ := Exec.bind_eq_ok.mp h
      cases h
  | _ => exact trivial

theorem Of.foldlM_shl (h : f.Of l) (args : List Arg) :
    Follows (args.foldlM Fields.shl f) (args.foldlM LogLine.shl l) := by
  induction args generalizing f l with
  | nil =>
      rintro l' hl'
      cases hl'
      exact ⟨f, rfl, h⟩
  | cons arg args ih =>
      rw [List.foldlM_cons, List.foldlM_cons]
      exact (h.shl arg).bind fun f₁ l₁ h₁ ↦ ih h₁

theorem of_empty : empty.Of LogLine.empty := ⟨rfl, rfl, rfl, rfl⟩

variable [LogText]

theorem follows_log (h : Header) (args : List Arg) : Follows (log h args) (LogLine.log h args) := by
  refine Follows.bind ?_ fun f l hl ↦ hl.foldlM_shl args
  refine (of_empty.encode (n := 8) h.timestamp).bind fun f l hl ↦ ?_
  refine (hl.encode (n := 8) h.threadid).bind fun f l hl ↦ ?_
  refine (hl.encode (n := 8) h.file).bind fun f l hl ↦ ?_
  refine (hl.encode (n := 8) h.function).bind fun f l hl ↦ ?_
  refine (hl.encode (n := 4) h.line).bind fun f l hl ↦ ?_
  exact hl.encode (n := 1) h.level.code

/-- After each of the calls: no copy has missed the storage that is active, that has the room
`m_buffer_size` says, and it holds what the constructor put followed by every value. -/
def Kept (h : Header) (args : List Arg) : Prop :=
  ∀ n, ∃ f, log h (args.take n) = .ok f ∧ f.m_buffer_used ≤ f.m_buffer_size ∧
    f.m_buffer_size ≤ f.active.length ∧
    f.active.take f.m_buffer_used = h.bytes ++ (args.take n).flatMap Arg.bytes

/-- However much is streamed into a line, it is kept, exactly when each operator returns. -/
theorem kept_iff (h : Header) (args : List Arg) : Kept h args ↔ ∀ arg ∈ args, arg.Returns := by
  constructor
  · intro hk
    obtain ⟨f, hf, -⟩ := hk args.length
    rw [List.take_length] at hf
    obtain ⟨f₁, -, hf⟩ := Exec.bind_eq_ok.mp hf
    exact Exec.forall_of_foldlM_eq_ok (g := shl) (fun _ _ _ ↦ returns_of_shl) hf
  · intro hr n
    obtain ⟨l, hl, hc⟩ := LogLine.exists_log h fun arg harg ↦ hr arg (List.mem_of_mem_take harg)
    obtain ⟨f, hf, ho⟩ := follows_log h (args.take n) l hl
    refine ⟨f, hf, ?_, ?_, ?_⟩
    · rw [ho.used, ho.size]
      exact l.used_le_size
    · rw [ho.size, ho.active_eq, LogLine.length_memory]
    · rw [ho.used, ho.active_eq]
      exact hc

omit [LogText] in
/-- An array is streamed into a line. -/
theorem not_kept_array :
    let _ : LogText := ⟨fun _ ↦ [], fun _ ↦ [], fun _ ↦ [], fun _ ↦ some []⟩
    ¬ Kept ⟨0, 0, 0, 0, 0, .INFO, rfl, rfl⟩ [.array 0x1000] := by
  intro _ hk
  obtain ⟨f, hf, -⟩ := hk 1
  obtain ⟨f₁, -, hf⟩ := Exec.bind_eq_ok.mp hf
  exact Exec.forall_of_foldlM_eq_ok (g := shl) (fun _ _ _ ↦ returns_of_shl) hf _ List.mem_cons_self

end Fields

end RpcLearning.LogServer
