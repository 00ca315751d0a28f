import RpcLearning.Lib.Machine
import RpcLearning.Net.Buffer

/-!
# A buffer is a queue of bytes

Every operation of a `Buffer` is an operation on the list of its readable bytes, wherever the
indices stand, and so is every run of operations on any number of buffers.
-/

namespace RpcLearning.Net

/-! ## One operation -/

/-- The operations of a `Buffer`; an integer operation is given its number of bytes. -/
inductive BufferOp where
  | append (data : List UInt8)
  | prepend (data : List UInt8)
  | appendInt (n : Nat) (x : BitVec (8 * n))
  | prependInt (n : Nat) (x : BitVec (8 * n))
  | retrieve (len : Nat)
  | retrieveInt (n : Nat)
  | retrieveAsString (len : Nat)
  | retrieveAllAsString
  | retrieveAll
  | readInt (n : Nat)
  | peekInt (n : Nat)
  | ensureWriteableBytes (len : Nat)
  /-- Bytes copied to `beginWrite()`, then `hasWritten`. -/
  | write (data : List UInt8)

/-- What an operation returns. -/
inductive BufferOut where
  | none
  | bytes (s : List UInt8)
  | word (n : Nat) (x : BitVec (8 * n))

namespace BufferOp

/-- The operation as the code performs it. -/
def apply (b : Buffer) : BufferOp → Run (BufferOut × Buffer)
  | append data => return (.none, ← b.append data)
  | prepend data => return (.none, ← b.prepend data)
  | appendInt n x => return (.none, ← b.appendInt n x)
  | prependInt n x => return (.none, ← b.prependInt n x)
  | retrieve len => return (.none, ← b.retrieve len)
  | retrieveInt n => return (.none, ← b.retrieveInt n)
  | retrieveAsString len => do
    let (s, b) ← b.retrieveAsString len
    return (.bytes s, b)
  | retrieveAllAsString => do
    let (s, b) ← b.retrieveAllAsString
    return (.bytes s, b)
  | retrieveAll => return (.none, b.retrieveAll)
  | readInt n => do
    let (x, b) ← b.readInt n
    return (.word n x, b)
  | peekInt n => do
    let x ← b.peekInt n
    return (.word n x, b)
  | ensureWriteableBytes len => return (.none, ← b.ensureWriteableBytes len)
  | write data => return (.none, ← b.write data)

/-- What the operation itself asserts of its argument. -/
def Asserts (b : Buffer) : BufferOp → Prop
  | prepend data => data.length ≤ b.prependableBytes
  | prependInt n _ => n ≤ b.prependableBytes
  | retrieve len => len ≤ b.readableBytes
  | retrieveInt n => n ≤ b.readableBytes
  | retrieveAsString len => len ≤ b.readableBytes
  | readInt n => n ≤ b.readableBytes
  | peekInt n => n ≤ b.readableBytes
  | write data => data.length ≤ b.writableBytes
  | _ => True

/-- The operation on a queue of bytes, and what it returns there. -/
def onQueue (q : List UInt8) : BufferOp → BufferOut × List UInt8
  | append data => (.none, q ++ data)
  | prepend data => (.none, data ++ q)
  | appendInt _ x => (.none, q ++ BigEndian.ofWord x)
  | prependInt _ x => (.none, BigEndian.ofWord x ++ q)
  | retrieve len => (.none, q.drop len)
  | retrieveInt n => (.none, q.drop n)
  | retrieveAsString len => (.bytes (q.take len), q.drop len)
  | retrieveAllAsString => (.bytes q, [])
  | retrieveAll => (.none, [])
  | readInt n => (.word n (BigEndian.toWord n (q.take n)), q.drop n)
  | peekInt n => (.word n (BigEndian.toWord n (q.take n)), q)
  | ensureWriteableBytes _ => (.none, q)
  | write data => (.none, q ++ data)

/-- An operation whose own assertion holds fails none, and does to the readable bytes what it does
to a queue. -/
theorem exists_apply {b : Buffer} {op : BufferOp} (h : op.Asserts b) :
    ∃ b', op.apply b = .ok ((op.onQueue b.readable).1, b') ∧
      b'.readable = (op.onQueue b.readable).2 := by
  cases op with
  | append data =>
      obtain ⟨b', ha, hr⟩ := b.exists_append data
      exact ⟨b', by rw [apply, ha]; rfl, hr⟩
  | prepend data =>
      obtain ⟨b', ha, hr⟩ := Buffer.exists_prepend h
      exact ⟨b', by rw [apply, ha]; rfl, hr⟩
  | appendInt n x =>
      obtain ⟨b', ha, hr⟩ := b.exists_append (BigEndian.ofWord x)
      exact ⟨b', by rw [apply, Buffer.appendInt, ha]; rfl, hr⟩
  | prependInt n x =>
      have hlen : (BigEndian.ofWord x).length ≤ b.prependableBytes := by
        rw [BigEndian.length_ofWord]
        exact h
      obtain ⟨b', ha, hr⟩ := Buffer.exists_prepend hlen
      exact ⟨b', by rw [apply, Buffer.prependInt, ha]; rfl, hr⟩
  | retrieve len =>
      obtain ⟨b', ha, hr⟩ := Buffer.exists_retrieve h
      exact ⟨b', by rw [apply, ha]; rfl, hr⟩
  | retrieveInt n =>
      obtain ⟨b', ha, hr⟩ := Buffer.exists_retrieve h
      exact ⟨b', by rw [apply, Buffer.retrieveInt, ha]; rfl, hr⟩
  | retrieveAsString len =>
      obtain ⟨b', ha, hr⟩ := Buffer.exists_retrieveAsString h
      exact ⟨b', by rw [apply, ha]; rfl, hr⟩
  | retrieveAllAsString =>
      obtain ⟨b', ha, hr⟩ := b.exists_retrieveAllAsString
      exact ⟨b', by rw [apply, ha]; rfl, hr⟩
  | retrieveAll => exact ⟨b.retrieveAll, rfl, b.readable_retrieveAll⟩
  | readInt n =>
      obtain ⟨b', ha, hr⟩ := Buffer.exists_readInt h
      exact ⟨b', by rw [apply, ha]; rfl, hr⟩
  | peekInt n => exact ⟨b, by rw [apply, Buffer.peekInt_of_le h]; rfl, rfl⟩
  | ensureWriteableBytes len =>
      obtain ⟨b', ha, -, hr⟩ := b.exists_ensureWriteableBytes len
      exact ⟨b', by rw [apply, ha]; rfl, hr⟩
  | write data =>
      obtain ⟨b', ha, hr⟩ := Buffer.exists_write h
      exact ⟨b', by rw [apply, ha]; rfl, hr⟩

end BufferOp

/-! ## Runs -/

/-- A step with buffers: an operation on one of them, or a swap of two. -/
inductive BuffersOp (ι : Type) where
  | on (i : ι) (op : BufferOp)
  | swap (i j : ι)

/-- Contents for every name, and what the operations so far have returned. -/
structure Named (ι : Type) (C : Type) where
  content : ι → C
  outs : List BufferOut

namespace Named

variable {ι C : Type} [DecidableEq ι]

/-- The names exchange their contents. -/
def swap (i j : ι) (s : Named ι C) : Named ι C :=
  { s with content := Function.update (Function.update s.content i (s.content j)) j (s.content i) }

def set (i : ι) (out : BufferOut) (c : C) (s : Named ι C) : Named ι C :=
  ⟨Function.update s.content i c, s.outs ++ [out]⟩

/-- Buffers of the given initial sizes. -/
def buffers (initialSize : ι → Nat) : Named ι Buffer := ⟨fun i ↦ Buffer.new (initialSize i), []⟩

def emptyQueues : Named ι (List UInt8) := ⟨fun _ ↦ [], []⟩

/-- The buffers as queues. -/
def readable (s : Named ι Buffer) : Named ι (List UInt8) :=
  ⟨fun i ↦ (s.content i).readable, s.outs⟩

/-- Operations whose own assertions hold, performed by the code. -/
def machine : Machine (Named ι Buffer) (BuffersOp ι) where
  enabled s
    | .on i op => op.Asserts (s.content i)
    | .swap _ _ => True
  perform s
    | .on i op => do
      let (out, b) ← op.apply (s.content i)
      return s.set i out b
    | .swap i j => return s.swap i j

/-- The same operations on queues. -/
def onQueues (s : Named ι (List UInt8)) : BuffersOp ι → Named ι (List UInt8)
  | .on i op =>
    let (out, q) := op.onQueue (s.content i)
    s.set i out q
  | .swap i j => s.swap i j

theorem readable_set {i : ι} {out : BufferOut} {b : Buffer} {s : Named ι Buffer} :
    (s.set i out b).readable = s.readable.set i out b.readable := by
  simp only [readable, set, Named.mk.injEq, and_true]
  exact Function.comp_update Buffer.readable s.content i b

theorem readable_swap {i j : ι} {s : Named ι Buffer} :
    (s.swap i j).readable = s.readable.swap i j := by
  simp only [readable, swap, Named.mk.injEq, and_true]
  funext k
  by_cases hj : k = j
  · subst hj
    simp
  · by_cases hi : k = i
    · subst hi
      simp [hj]
    · simp [hi, hj]

/-- In every run of operations, whose own assertions hold, on buffers of any initial sizes, no
assertion fails, the indices are in order, the buffers behave as queues of bytes, and an integer
at the front of a buffer is what is read there. -/
theorem readable_of_runs {initialSize : ι → Nat} {ops : List (BuffersOp ι)}
    {r : Run (Named ι Buffer)} (h : machine.Runs (buffers initialSize) ops r) :
    ∃ s, r = .ok s ∧
      (∀ i, (s.content i).readerIndex_ ≤ (s.content i).writerIndex_ ∧
        (s.content i).writerIndex_ ≤ (s.content i).buffer_.length) ∧
      s.readable = ops.foldl onQueues emptyQueues ∧
      ∀ i n, ∀ x : BitVec (8 * n), ∀ rest,
        (s.content i).readable = BigEndian.ofWord x ++ rest →
          ∃ b, (s.content i).readInt n = .ok (x, b) ∧ b.readable = rest := by
  obtain ⟨s, hr, hs⟩ := h.invariant
    (I := fun ops s ↦ s.readable = ops.foldl onQueues emptyQueues)
    (by simp [readable, buffers, emptyQueues])
    fun ops s a hi he ↦ by
      rw [List.foldl_append, ← hi]
      cases a with
      | on i op =>
          obtain ⟨b, hb, hrb⟩ := BufferOp.exists_apply he
          refine ⟨_, by simp only [machine, hb]; rfl, ?_⟩
          rw [readable_set, hrb]
          rfl
      | swap i j => exact ⟨_, rfl, readable_swap⟩
  refine ⟨s, hr, fun i ↦ ⟨(s.content i).reader_le_writer, (s.content i).writer_le_size⟩, hs, ?_⟩
  intro i n x rest hx
  have hlen := BigEndian.length_ofWord x
  have hle : n ≤ (s.content i).readableBytes := by
    rw [← Buffer.length_readable, hx, List.length_append, hlen]
    exact Nat.le_add_right n _
  obtain ⟨b, hb, hrb⟩ := Buffer.exists_readInt hle
  refine ⟨b, ?_, ?_⟩
  · rw [hb, hx, List.take_left' hlen, BigEndian.toWord_ofWord]
  · rw [hrb, hx, List.drop_left' hlen]

/-- A word gets another one before it, which is read from the buffer that took both. -/
theorem readable_of_runs_several :
    ∃ s, machine.Runs (buffers fun _ : Bool ↦ 0)
        [.on true (.appendInt 8 1), .on true (.prependInt 4 5), .swap true false,
          .on false (.readInt 4), .on false (.append [7])] (.ok s) ∧
      (s.content false).readable = [0, 0, 0, 0, 0, 0, 0, 1, 7] ∧
      s.outs = [.none, .none, .word 4 5, .none] := by
  have h₀ : machine.Runs (buffers fun _ : Bool ↦ 0) [] (.ok (buffers fun _ ↦ 0)) := .nil
  have h₁ := h₀.then (a := BuffersOp.on true (.appendInt 8 1)) trivial rfl
  have h₂ := h₁.then (a := BuffersOp.on true (.prependInt 4 5)) (show 4 ≤ 8 by decide) rfl
  have h₃ := h₂.then (a := BuffersOp.swap true false) trivial rfl
  have h₄ := h₃.then (a := BuffersOp.on false (.readInt 4)) (show 4 ≤ 12 by decide) rfl
  have h₅ := h₄.snoc (a := BuffersOp.on false (.append [7])) trivial
  obtain ⟨s, hr, -, hq, -⟩ := readable_of_runs h₅
  rw [hr] at h₅
  exact ⟨s, h₅, congrFun (congrArg content hq) false, congrArg outs hq⟩

end Named

end RpcLearning.Net
