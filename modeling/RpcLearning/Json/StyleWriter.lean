import RpcLearning.Json.RoundTrip

/-!
# The style writer

`StyleWriter` (`JsonServer/StyleWriter.h`) hands every call on to a `FastWriter` and puts newlines
and indentation around it, into the same stream.  What it puts for a value are the value's tokens
with such gaps between them, as long as the two `int`s, for tokens and for depth, do not overflow.
-/

namespace RpcLearning.Json

open Layout (Between Laid Gaps)

/-- The stream is that of `fw_`.  `indentDepth_` is an `int`, which is never negative. -/
structure StyleWriter where
  indentDepth_ : Nat
  indent_ : Bytes
  fw_ : FastWriter

namespace StyleWriter

def new (indent : Bytes) : StyleWriter where
  indentDepth_ := 0
  indent_ := indent
  fw_ := FastWriter.new

def put (t : Bytes) (w : StyleWriter) : StyleWriter := { w with fw_ := w.fw_.put t }

def putNewLine (w : StyleWriter) : StyleWriter := w.put [0x0a]

/-- The loop of `putIndent`, with the number of rounds left. -/
def putIndentLoop : Nat → StyleWriter → StyleWriter
  | 0, w => w
  | i + 1, w => putIndentLoop i (w.put w.indent_)

def putIndent (w : StyleWriter) : StyleWriter := putIndentLoop w.indentDepth_ w

def keepIndent (w : StyleWriter) : StyleWriter :=
  if w.indentDepth_ > 0 then w.putNewLine.putIndent else w

def incrIndent (w : StyleWriter) : Run StyleWriter :=
  if w.indentDepth_ + 1 < 2 ^ 31 then
    .ok (keepIndent { w with indentDepth_ := w.indentDepth_ + 1 })
  else .error .overflow

def decrIndent (w : StyleWriter) : Run StyleWriter :=
  if w.indentDepth_ > 0 then .ok (keepIndent { w with indentDepth_ := w.indentDepth_ - 1 })
  else .error .assertion

/-- A scalar, with indentation behind it. -/
def scalar (call : FastWriter → Run FastWriter) (w : StyleWriter) : Run StyleWriter := do
  let fw_ ← call w.fw_
  .ok (keepIndent { w with fw_ := fw_ })

def null : StyleWriter → Run StyleWriter := scalar FastWriter.null

def bool (b : Bool) : StyleWriter → Run StyleWriter := scalar (FastWriter.bool b)

def int32 (i32 : Int32) : StyleWriter → Run StyleWriter := scalar (FastWriter.int32 i32)

def int64 (i64 : Int64) : StyleWriter → Run StyleWriter := scalar (FastWriter.int64 i64)

def double [DoubleText] (d : Double) : StyleWriter → Run StyleWriter := scalar (FastWriter.double d)

def string (str : Bytes) : StyleWriter → Run StyleWriter := scalar (FastWriter.string str)

def startArray (w : StyleWriter) : Run StyleWriter := do
  let fw_ ← w.fw_.startArray
  incrIndent { w with fw_ := fw_ }

def endArray (w : StyleWriter) : Run StyleWriter := do
  let w ← w.decrIndent
  let fw_ ← w.fw_.endArray
  .ok { w with fw_ := fw_ }

def startObject (w : StyleWriter) : Run StyleWriter := do
  let fw_ ← w.fw_.startObject
  incrIndent { w with fw_ := fw_ }

def endObject (w : StyleWriter) : Run StyleWriter := do
  let w ← w.decrIndent
  let fw_ ← w.fw_.endObject
  .ok { w with fw_ := fw_ }

def key (key : Bytes) (w : StyleWriter) : Run StyleWriter := do
  let w := w.keepIndent
  let fw_ ← w.fw_.key key
  .ok { w with fw_ := fw_ }

instance [DoubleText] : Writer StyleWriter where
  null := null
  bool := bool
  int32 := int32
  int64 := int64
  double := double
  string := string
  startArray := startArray
  endArray := endArray
  startObject := startObject
  endObject := endObject
  key := key

/-! ## Gaps -/

/-- Newlines and copies of the indent. -/
inductive Gap (indent : Bytes) : Bytes → Prop
  | nil : Gap indent []
  | newLine {g : Bytes} (h : Gap indent g) : Gap indent (0x0a :: g)
  | indent {g : Bytes} (h : Gap indent g) : Gap indent (indent ++ g)

theorem gaps (indent : Bytes) : Gaps (Gap indent) where
  nil := .nil
  append h h' := by
    induction h with
    | nil => exact h'
    | newLine _ ih => exact .newLine ih
    | indent _ ih =>
        rw [List.append_assoc]
        exact .indent ih

/-- What `keepIndent` puts. -/
def indentation (indentDepth_ : Nat) (indent_ : Bytes) : Bytes :=
  if indentDepth_ > 0 then 0x0a :: (List.replicate indentDepth_ indent_).flatten else []

theorem gap_indentation (n : Nat) (indent : Bytes) : Gap indent (indentation n indent) := by
  have copies : ∀ n, Gap indent (List.replicate n indent).flatten := by
    intro n
    induction n with
    | zero => exact .nil
    | succ n ih => exact .indent ih
  unfold indentation
  split
  · exact .newLine (copies n)
  · exact .nil

theorem putIndentLoop_eq (n : Nat) (w : StyleWriter) :
    putIndentLoop n w = w.put (List.replicate n w.indent_).flatten := by
  induction n generalizing w with
  | zero => simp [putIndentLoop, put, FastWriter.put]
  | succ n ih =>
      rw [putIndentLoop, ih]
      simp [put, FastWriter.put, List.replicate_succ]

theorem keepIndent_eq (w : StyleWriter) :
    w.keepIndent = w.put (indentation w.indentDepth_ w.indent_) := by
  unfold keepIndent indentation
  split
  · rw [putIndent, putIndentLoop_eq]
    simp [putNewLine, put, FastWriter.put]
  · simp [put, FastWriter.put]

/-- Where the indent is whitespace, gaps are. -/
theorem Gap.ws {indent g : Bytes} (hi : Ws indent) (h : Gap indent g) : Ws g := by
  induction h with
  | nil => exact ws_nil
  | newLine _ ih => exact ws_cons.mpr ⟨rfl, ih⟩
  | indent _ ih =>
      intro c hc
      rcases List.mem_append.mp hc with hc | hc
      · exact hi c hc
      · exact ih c hc

/-! ## What is put for a value -/

theorem startArray_eq {w : StyleWriter} (h : w.fw_.Ready .TYPE_ARRAY)
    (hd : w.indentDepth_ + 1 < 2 ^ 31) : w.startArray = .ok ⟨w.indentDepth_ + 1, w.indent_,
      ⟨true, ⟨true, 0⟩ :: w.fw_.counted.stack_,
        w.fw_.counted.ws_ ++ ([0x5b] ++ indentation (w.indentDepth_ + 1) w.indent_)⟩⟩ := by
  rw [startArray, FastWriter.startArray_eq h, Exec.ok_bind, incrIndent, if_pos hd, keepIndent_eq]
  simp [put, FastWriter.put]

theorem startObject_eq {w : StyleWriter} (h : w.fw_.Ready .TYPE_OBJECT)
    (hd : w.indentDepth_ + 1 < 2 ^ 31) : w.startObject = .ok ⟨w.indentDepth_ + 1, w.indent_,
      ⟨true, ⟨false, 0⟩ :: w.fw_.counted.stack_,
        w.fw_.counted.ws_ ++ ([0x7b] ++ indentation (w.indentDepth_ + 1) w.indent_)⟩⟩ := by
  rw [startObject, FastWriter.startObject_eq h, Exec.ok_bind, incrIndent, if_pos hd, keepIndent_eq]
  simp [put, FastWriter.put]

theorem startArray_overflow {w : StyleWriter} (h : w.fw_.Ready .TYPE_ARRAY)
    (hd : 2 ^ 31 ≤ w.indentDepth_ + 1) : w.startArray = .error .overflow := by
  rw [startArray, FastWriter.startArray_eq h, Exec.ok_bind, incrIndent, if_neg (not_lt.mpr hd)]

theorem startObject_overflow {w : StyleWriter} (h : w.fw_.Ready .TYPE_OBJECT)
    (hd : 2 ^ 31 ≤ w.indentDepth_ + 1) : w.startObject = .error .overflow := by
  rw [startObject, FastWriter.startObject_eq h, Exec.ok_bind, incrIndent, if_neg (not_lt.mpr hd)]

/-- Where something is open, the depth is not zero. -/
theorem decrIndent_eq (n : Nat) (indent : Bytes) (fw : FastWriter) :
    decrIndent ⟨n + 1, indent, fw⟩ = .ok ⟨n, indent, fw.put (indentation n indent)⟩ := by
  rw [decrIndent, if_pos (Nat.succ_pos n), keepIndent_eq]
  rfl

theorem endArray_eq (d n : Nat) (indent ws : Bytes) (rest : List Level) :
    endArray ⟨d + 1, indent, ⟨true, ⟨true, n⟩ :: rest, ws⟩⟩ =
      .ok ⟨d, indent, ⟨true, rest, ws ++ indentation d indent ++ [0x5d]⟩⟩ := by
  rw [endArray, decrIndent_eq]
  rfl

theorem endObject_eq (d n : Nat) (indent ws : Bytes) (rest : List Level) :
    endObject ⟨d + 1, indent, ⟨true, ⟨false, n⟩ :: rest, ws⟩⟩ =
      .ok ⟨d, indent, ⟨true, rest, ws ++ indentation d indent ++ [0x7d]⟩⟩ := by
  rw [endObject, decrIndent_eq]
  rfl

/-- The brackets around what is laid out, the second one last. -/
theorem between_brackets {indent s : Bytes} {ts : List Bytes} (d : Nat) (c c' : UInt8)
    (h : Laid (Gap indent) ([[c]] ++ ts) s) :
    Between (Gap indent) ([c] :: (ts ++ [[c']])) (s ++ indentation d indent ++ [c']) :=
  (h.append_gap (gaps indent) (gap_indentation d indent)).append_between (.single [c'])

/-- The comma due behind others is a token of its own. -/
theorem laid_comma (indent : Bytes) (n : Nat) {ts : List Bytes} {s : Bytes}
    (h : Laid (Gap indent) ts s) :
    Laid (Gap indent) ((if 0 < n then [[0x2c]] else []) ++ ts)
      ((if 0 < n then [0x2c] else []) ++ s) := by
  by_cases hn : 0 < n
  · rw [if_pos hn, if_pos hn]
    exact ((Between.single [0x2c]).laid (gaps indent)).append h
  · rw [if_neg hn, if_neg hn]
    exact h

end StyleWriter

namespace Value

/-- No more than `n` containers of the value lie in one another. -/
inductive Nested : Nat → Value → Prop
  | null {n : Nat} : Nested n .null
  | bool {n : Nat} (b : Bool) : Nested n (.bool b)
  | int32 {n : Nat} (i : Int32) : Nested n (.int32 i)
  | int64 {n : Nat} (i : Int64) : Nested n (.int64 i)
  | double {n : Nat} (d : Double) : Nested n (.double d)
  | string {n : Nat} (s : Bytes) : Nested n (.string s)
  | array {n : Nat} {xs : List Value} (h : ∀ x ∈ xs, Nested n x) : Nested (n + 1) (.array xs)
  | object {n : Nat} {ms : List (Bytes × Value)} (h : ∀ m ∈ ms, Nested n m.2) :
      Nested (n + 1) (.object ms)

theorem nested_array {n : Nat} {xs : List Value} :
    Nested n (.array xs) ↔ ∃ m, n = m + 1 ∧ ∀ x ∈ xs, Nested m x := by
  constructor
  · rintro ⟨⟩
    exact ⟨_, rfl, ‹_›⟩
  · rintro ⟨m, rfl, h⟩
    exact .array h

theorem nested_object {n : Nat} {ms : List (Bytes × Value)} :
    Nested n (.object ms) ↔ ∃ m, n = m + 1 ∧ ∀ q ∈ ms, Nested m q.2 := by
  constructor
  · rintro ⟨⟩
    exact ⟨_, rfl, ‹_›⟩
  · rintro ⟨m, rfl, h⟩
    exact .object h

end Value

namespace StyleWriter

/-- The value can be written at depth `d`. -/
def Shallow (d : Nat) (x : Value) : Prop := x.Nested (2 ^ 31 - 1 - d)

theorem shallow_array {d : Nat} {xs : List Value} :
    Shallow d (.array xs) ↔ d + 1 < 2 ^ 31 ∧ ∀ x ∈ xs, Shallow (d + 1) x := by
  rw [Shallow, Value.nested_array]
  constructor
  · rintro ⟨m, hm, h⟩
    obtain rfl : m = 2 ^ 31 - 1 - (d + 1) := by omega
    exact ⟨by omega, h⟩
  · rintro ⟨hd, h⟩
    exact ⟨2 ^ 31 - 1 - (d + 1), by omega, h⟩

theorem shallow_object {d : Nat} {ms : List (Bytes × Value)} :
    Shallow d (.object ms) ↔ d + 1 < 2 ^ 31 ∧ ∀ m ∈ ms, Shallow (d + 1) m.2 := by
  rw [Shallow, Value.nested_object]
  constructor
  · rintro ⟨m, hm, h⟩
    obtain rfl : m = 2 ^ 31 - 1 - (d + 1) := by omega
    exact ⟨by omega, h⟩
  · rintro ⟨hd, h⟩
    exact ⟨2 ^ 31 - 1 - (d + 1), by omega, h⟩

variable [DoubleText]

/-- What is to be shown of a value: at any place for one, its tokens are put behind the separator
due there, with gaps between them, and one behind unless nothing is open. -/
def Writes (x : Value) : Prop :=
  ∀ w : StyleWriter, w.fw_.Ready .TYPE_NULL → Shallow w.indentDepth_ x → ∃ s,
    x.writeTo w = .ok { w with fw_ := w.fw_.counted.put s } ∧
      Laid (Gap w.indent_) (tokens x) s ∧
      (w.indentDepth_ = 0 → Between (Gap w.indent_) (tokens x) s)

theorem writes_scalar {x : Value} {type : ValueType} {t : Bytes} (ht : tokens x = [t])
    (hx : ∀ w : StyleWriter, x.writeTo w = scalar (FastWriter.token type t) w) : Writes x := by
  intro w hr _
  refine ⟨t ++ indentation w.indentDepth_ w.indent_, ?_, ?_, ?_⟩
  · rw [hx, scalar, FastWriter.token_eq (hr.of_null _), Exec.ok_bind, keepIndent_eq]
    simp [put, FastWriter.put]
  · rw [ht]
    have hl := (Between.single t).laid (gaps w.indent_)
    exact hl.append_gap (gaps w.indent_) (gap_indentation _ _)
  · intro hd
    rw [ht, hd]
    simpa [indentation] using Between.single t

/-- A key comes behind the gap. -/
theorem key_eq (key : Bytes) {w : StyleWriter} {n : Nat} {rest : List Level}
    (hs : w.fw_.stack_ = ⟨false, n⟩ :: rest) (hn : n + 1 < 2 ^ 31) :
    Writer.key key w = .ok ⟨w.indentDepth_, w.indent_,
      (w.fw_.put (indentation w.indentDepth_ w.indent_)).counted.put
        (0x22 :: (key ++ [0x22]))⟩ := by
  have hs₁ : (w.fw_.put (indentation w.indentDepth_ w.indent_)).stack_ = ⟨false, n⟩ :: rest := hs
  have hk := FastWriter.token_eq (FastWriter.ready_key hs₁ hn) (0x22 :: (key ++ [0x22]))
  change StyleWriter.key key w = _
  rw [StyleWriter.key, keepIndent_eq]
  exact congrArg (fun r ↦ r >>= fun fw_ ↦ .ok { w with fw_ := fw_ }) hk

/-- The loop over the elements lays out their tokens behind what was put before. -/
theorem writeElements_eq {xs : List Value} (hx : ∀ x ∈ xs, Writes x) {w : StyleWriter} {n : Nat}
    {rest : List Level} (hs : w.fw_.stack_ = ⟨true, n⟩ :: rest) (hsee : w.fw_.seeValue_ = true)
    (hn : n + xs.length < 2 ^ 31) (hd : ∀ x ∈ xs, Shallow w.indentDepth_ x) {base s : Bytes}
    {ts : List Bytes} (hw : w.fw_.ws_ = base ++ s) (hl : Laid (Gap w.indent_) ts s) :
    ∃ s', Value.writeElements xs w =
        .ok { w with fw_ := ⟨true, ⟨true, n + xs.length⟩ :: rest, base ++ s'⟩ } ∧
      Laid (Gap w.indent_) (ts ++ elementsTokens (0 < n) xs) s' := by
  induction xs generalizing w n s ts with
  | nil =>
      obtain ⟨depth, indent, see, stack, ws⟩ := w
      obtain rfl : see = true := hsee
      obtain rfl : stack = _ := hs
      obtain rfl : ws = _ := hw
      exact ⟨s, by simp [Value.writeElements], by simpa [elementsTokens] using hl⟩
  | cons x xs ih =>
      rw [List.length_cons] at hn
      obtain ⟨t, hx', ht, -⟩ := hx x List.mem_cons_self w (FastWriter.ready_element hs (by omega))
        (hd x List.mem_cons_self)
      have hs' : (w.fw_.counted.put t).stack_ = ⟨true, n + 1⟩ :: rest := by
        simp [FastWriter.counted, hs]
      have hw' : (w.fw_.counted.put t).ws_ =
          base ++ (s ++ ((if 0 < n then [0x2c] else []) ++ t)) := by
        simp [FastWriter.counted, FastWriter.separator, hs, hw, lit_comma]
      have hl' := hl.append (laid_comma w.indent_ n ht)
      obtain ⟨s', he, hl'⟩ := ih (w := { w with fw_ := w.fw_.counted.put t })
        (fun y hy ↦ hx y (List.mem_cons_of_mem x hy)) hs' rfl (by omega)
        (fun y hy ↦ hd y (List.mem_cons_of_mem x hy)) hw' hl'
      refine ⟨s', ?_, ?_⟩
      · rw [Value.writeElements, hx', Exec.ok_bind, he]
        simp [Nat.add_right_comm, Nat.add_assoc]
      · simpa [elementsTokens] using hl'

theorem writeMembers_eq {ms : List (Bytes × Value)} (hx : ∀ m ∈ ms, Writes m.2) {w : StyleWriter}
    {n : Nat} {rest : List Level} (hs : w.fw_.stack_ = ⟨false, 2 * n⟩ :: rest)
    (hsee : w.fw_.seeValue_ = true) (hn : 2 * (n + ms.length) < 2 ^ 31)
    (hd : ∀ m ∈ ms, Shallow w.indentDepth_ m.2) {base s : Bytes} {ts : List Bytes}
    (hw : w.fw_.ws_ = base ++ s) (hl : Laid (Gap w.indent_) ts s) :
    ∃ s', Value.writeMembers ms w =
        .ok { w with fw_ := ⟨true, ⟨false, 2 * (n + ms.length)⟩ :: rest, base ++ s'⟩ } ∧
      Laid (Gap w.indent_) (ts ++ membersTokens (0 < n) ms) s' := by
  induction ms generalizing w n s ts with
  | nil =>
      obtain ⟨depth, indent, see, stack, ws⟩ := w
      obtain rfl : see = true := hsee
      obtain rfl : stack = _ := hs
      obtain rfl : ws = _ := hw
      exact ⟨s, by simp [Value.writeMembers], by simpa [membersTokens] using hl⟩
  | cons m ms ih =>
      obtain ⟨key, x⟩ := m
      let g := indentation w.indentDepth_ w.indent_
      let k := 0x22 :: (key ++ [0x22])
      rw [List.length_cons] at hn
      -- the gap in front of the key comes before its comma
      have hl₁ := hl.append_gap (gaps w.indent_) (gap_indentation w.indentDepth_ w.indent_)
      have hkey := key_eq key hs (by omega)
      -- the key has been counted, so a value is due
      have hs₂ : ((w.fw_.put g).counted.put k).stack_ = ⟨false, 2 * n + 1⟩ :: rest := by
        simp [FastWriter.counted, hs]
      obtain ⟨t, hx', ht, -⟩ := hx (key, x) List.mem_cons_self
        { w with fw_ := (w.fw_.put g).counted.put k }
        (FastWriter.ready_member hs₂ (by omega) (by omega)) (hd (key, x) List.mem_cons_self)
      have hs₃ : (((w.fw_.put g).counted.put k).counted.put t).stack_ =
          ⟨false, 2 * (n + 1)⟩ :: rest := by
        simp [FastWriter.counted, hs]
        omega
      have hw₃ : (((w.fw_.put g).counted.put k).counted.put t).ws_ =
          base ++ ((s ++ g) ++ ((if 0 < n then [0x2c] else []) ++ (k ++ ([0x3a] ++ t)))) := by
        simp [FastWriter.counted, FastWriter.separator, hs, hw, lit_comma, lit_colon]
      have hkx : Laid (Gap w.indent_) ([k] ++ ([[0x3a]] ++ tokens x)) (k ++ ([0x3a] ++ t)) :=
        ((Between.single k).laid (gaps w.indent_)).append
          (((Between.single [0x3a]).laid (gaps w.indent_)).append ht)
      obtain ⟨s', he, hl'⟩ := ih
        (w := { w with fw_ := ((w.fw_.put g).counted.put k).counted.put t })
        (fun m hm ↦ hx m (List.mem_cons_of_mem _ hm)) hs₃ rfl (by omega)
        (fun m hm ↦ hd m (List.mem_cons_of_mem _ hm)) hw₃
        (hl₁.append (laid_comma w.indent_ n hkx))
      refine ⟨s', ?_, ?_⟩
      · rw [Value.writeMembers, hkey, Exec.ok_bind, hx', Exec.ok_bind, he]
        simp [Nat.add_right_comm, Nat.add_assoc]
      · simpa [membersTokens] using hl'

/-- At any place for a value, `writeTo` lays its tokens out. -/
theorem writeTo_eq {v : Value} (hv : v.Countable) : Writes v := by
  induction hv with
  | null => exact writes_scalar rfl fun w ↦ rfl
  | bool b => exact writes_scalar rfl fun w ↦ rfl
  | int32 i => exact writes_scalar rfl fun w ↦ rfl
  | int64 i => exact writes_scalar rfl fun w ↦ rfl
  | double d => exact writes_scalar rfl fun w ↦ rfl
  | string s => exact writes_scalar rfl fun w ↦ rfl
  | @array xs hn _ ih =>
      intro w hr hw
      obtain ⟨hdepth, hxs⟩ := shallow_array.mp hw
      let d := w.indentDepth_
      have hstart : Writer.startArray w = .ok ⟨d + 1, w.indent_,
          ⟨true, ⟨true, 0⟩ :: w.fw_.counted.stack_,
            w.fw_.counted.ws_ ++ ([0x5b] ++ indentation (d + 1) w.indent_)⟩⟩ :=
        startArray_eq (hr.of_null _) hdepth
      have hopen : Laid (Gap w.indent_) [[0x5b]] ([0x5b] ++ indentation (d + 1) w.indent_) :=
        ((Between.single [0x5b]).laid (gaps w.indent_)).append_gap (gaps w.indent_)
          (gap_indentation _ _)
      obtain ⟨s, he, hl⟩ := writeElements_eq ih (w := ⟨d + 1, w.indent_,
        ⟨true, ⟨true, 0⟩ :: w.fw_.counted.stack_, _⟩⟩) rfl rfl (by omega) hxs rfl hopen
      have hb := between_brackets d 0x5b 0x5d hl
      refine ⟨s ++ indentation d w.indent_ ++ [0x5d], ?_, ?_, ?_⟩
      · have hend := endArray_eq d (0 + xs.length) w.indent_ (w.fw_.counted.ws_ ++ s)
          w.fw_.counted.stack_
        rw [Value.writeTo, hstart, Exec.ok_bind, he, Exec.ok_bind]
        refine hend.trans ?_
        simp [FastWriter.put, FastWriter.counted, d]
      · exact hb.laid (gaps w.indent_)
      · exact fun _ ↦ hb
  | @object ms hn _ ih =>
      intro w hr hw
      obtain ⟨hdepth, hms⟩ := shallow_object.mp hw
      let d := w.indentDepth_
      have hstart : Writer.startObject w = .ok ⟨d + 1, w.indent_,
          ⟨true, ⟨false, 2 * 0⟩ :: w.fw_.counted.stack_,
            w.fw_.counted.ws_ ++ ([0x7b] ++ indentation (d + 1) w.indent_)⟩⟩ :=
        startObject_eq (hr.of_null _) hdepth
      have hopen : Laid (Gap w.indent_) [[0x7b]] ([0x7b] ++ indentation (d + 1) w.indent_) :=
        ((Between.single [0x7b]).laid (gaps w.indent_)).append_gap (gaps w.indent_)
          (gap_indentation _ _)
      obtain ⟨s, he, hl⟩ := writeMembers_eq ih (w := ⟨d + 1, w.indent_,
        ⟨true, ⟨false, 2 * 0⟩ :: w.fw_.counted.stack_, _⟩⟩) rfl rfl (by omega) hms rfl hopen
      have hb := between_brackets d 0x7b 0x7d hl
      refine ⟨s ++ indentation d w.indent_ ++ [0x7d], ?_, ?_, ?_⟩
      · have hend := endObject_eq d (2 * (0 + ms.length)) w.indent_ (w.fw_.counted.ws_ ++ s)
          w.fw_.counted.stack_
        rw [Value.writeTo, hstart, Exec.ok_bind, he, Exec.ok_bind]
        refine hend.trans ?_
        simp [FastWriter.put, FastWriter.counted, d]
      · exact hb.laid (gaps w.indent_)
      · exact fun _ ↦ hb

/-! ## What is too deep -/

/-- What is to be shown of a value that lies too deep. -/
def TooDeep (x : Value) : Prop :=
  ∀ w : StyleWriter, w.fw_.Ready .TYPE_NULL → ¬ Shallow w.indentDepth_ x →
    x.writeTo w = .error .overflow

theorem writeElements_tooDeep {xs : List Value} (hx : ∀ x ∈ xs, x.Countable)
    (hdeep : ∀ x ∈ xs, TooDeep x) {w : StyleWriter} {n : Nat} {rest : List Level}
    (hs : w.fw_.stack_ = ⟨true, n⟩ :: rest) (hn : n + xs.length < 2 ^ 31)
    (h : ∃ x ∈ xs, ¬ Shallow w.indentDepth_ x) :
    Value.writeElements xs w = .error .overflow := by
  induction xs generalizing w n with
  | nil =>
      obtain ⟨x, hx, -⟩ := h
      cases hx
  | cons x xs ih =>
      rw [List.length_cons] at hn
      have hready := FastWriter.ready_element hs (by omega)
      rw [Value.writeElements]
      by_cases hsh : Shallow w.indentDepth_ x
      · obtain ⟨t, hx', -⟩ := writeTo_eq (hx x List.mem_cons_self) w hready hsh
        have hs' : (w.fw_.counted.put t).stack_ = ⟨true, n + 1⟩ :: rest := by
          simp [FastWriter.counted, hs]
        rw [hx', Exec.ok_bind]
        refine ih (w := { w with fw_ := w.fw_.counted.put t })
          (fun y hy ↦ hx y (List.mem_cons_of_mem x hy))
          (fun y hy ↦ hdeep y (List.mem_cons_of_mem x hy)) hs' (by omega) ?_
        obtain ⟨y, hy, hyd⟩ := h
        rcases List.mem_cons.mp hy with rfl | hy
        · exact absurd hsh hyd
        · exact ⟨y, hy, hyd⟩
      · rw [hdeep x List.mem_cons_self w hready hsh]
        rfl

theorem writeMembers_tooDeep {ms : List (Bytes × Value)} (hx : ∀ m ∈ ms, m.2.Countable)
    (hdeep : ∀ m ∈ ms, TooDeep m.2) {w : StyleWriter} {n : Nat} {rest : List Level}
    (hs : w.fw_.stack_ = ⟨false, 2 * n⟩ :: rest) (hn : 2 * (n + ms.length) < 2 ^ 31)
    (h : ∃ m ∈ ms, ¬ Shallow w.indentDepth_ m.2) :
    Value.writeMembers ms w = .error .overflow := by
  induction ms generalizing w n with
  | nil =>
      obtain ⟨m, hm, -⟩ := h
      cases hm
  | cons m ms ih =>
      obtain ⟨key, x⟩ := m
      rw [List.length_cons] at hn
      let g := indentation w.indentDepth_ w.indent_
      let k := 0x22 :: (key ++ [0x22])
      have hkey := key_eq key hs (by omega)
      let w₁ : StyleWriter := { w with fw_ := (w.fw_.put g).counted.put k }
      have hs₁ : w₁.fw_.stack_ = ⟨false, 2 * n + 1⟩ :: rest := by
        simp [w₁, FastWriter.counted, hs]
      have hready := FastWriter.ready_member hs₁ (by omega) (by omega)
      rw [Value.writeMembers, hkey, Exec.ok_bind]
      by_cases hsh : Shallow w.indentDepth_ x
      · obtain ⟨t, hx', -⟩ := writeTo_eq (hx (key, x) List.mem_cons_self) w₁ hready hsh
        have hs₂ : (w₁.fw_.counted.put t).stack_ = ⟨false, 2 * (n + 1)⟩ :: rest := by
          simp [FastWriter.counted, hs₁]
          omega
        rw [hx', Exec.ok_bind]
        refine ih (w := { w₁ with fw_ := w₁.fw_.counted.put t })
          (fun m hm ↦ hx m (List.mem_cons_of_mem _ hm))
          (fun m hm ↦ hdeep m (List.mem_cons_of_mem _ hm)) hs₂ (by omega) ?_
        obtain ⟨m, hm, hmd⟩ := h
        rcases List.mem_cons.mp hm with rfl | hm
        · exact absurd hsh hmd
        · exact ⟨m, hm, hmd⟩
      · rw [hdeep (key, x) List.mem_cons_self w₁ hready hsh]
        rfl

theorem writeTo_tooDeep {v : Value} (hv : v.Countable) : TooDeep v := by
  induction hv with
  | null => exact fun w _ h ↦ absurd .null h
  | bool b => exact fun w _ h ↦ absurd (.bool b) h
  | int32 i => exact fun w _ h ↦ absurd (.int32 i) h
  | int64 i => exact fun w _ h ↦ absurd (.int64 i) h
  | double d => exact fun w _ h ↦ absurd (.double d) h
  | string s => exact fun w _ h ↦ absurd (.string s) h
  | @array xs hn hxs ih =>
      intro w hr hw
      rw [shallow_array, not_and] at hw
      rw [Value.writeTo]
      by_cases hd : w.indentDepth_ + 1 < 2 ^ 31
      · have hstart : Writer.startArray w = _ := startArray_eq (hr.of_null _) hd
        rw [hstart, Exec.ok_bind, writeElements_tooDeep hxs ih (n := 0) rfl (by omega)
          (by simpa using hw hd)]
        rfl
      · have hstart : Writer.startArray w = _ := startArray_overflow (hr.of_null _) (not_lt.mp hd)
        rw [hstart]
        rfl
  | @object ms hn hms ih =>
      intro w hr hw
      rw [shallow_object, not_and] at hw
      rw [Value.writeTo]
      by_cases hd : w.indentDepth_ + 1 < 2 ^ 31
      · have hstart : Writer.startObject w = _ := startObject_eq (hr.of_null _) hd
        rw [hstart, Exec.ok_bind, writeMembers_tooDeep hms ih (n := 0) rfl (by omega)
          (by simpa using hw hd)]
        rfl
      · have hstart : Writer.startObject w = _ := startObject_overflow (hr.of_null _) (not_lt.mp hd)
        rw [hstart]
        rfl

end StyleWriter

/-- A plain value written with whitespace for an indent, exactly if both writers can count: no
assertion fails, the depth is zero again, the text is the compact one with newlines and indents
between its tokens, and both texts are read as the value. -/
theorem parse_writeTo_style_iff [DoubleText] {v : Value} (hw : v.WellFormed) (hp : Plain v)
    {indent : Bytes} (hi : Ws indent) :
    (∃ (w : StyleWriter) (fw : FastWriter), v.writeTo (StyleWriter.new indent) = .ok w ∧
      v.writeTo FastWriter.new = .ok fw ∧ w.indentDepth_ = 0 ∧
      fw.ws_ = (tokens v).flatten ∧ Between (StyleWriter.Gap indent) (tokens v) w.fw_.ws_ ∧
      Reader.parse w.fw_.ws_ = .ok (.PARSE_OK, some v) ∧
      Reader.parse fw.ws_ = .ok (.PARSE_OK, some v)) ↔ v.Countable ∧ v.Nested (2 ^ 31 - 1) := by
  have hroot := FastWriter.ready_new
  constructor
  · rintro ⟨w, fw, hstyle, hfast, -⟩
    have hv := FastWriter.countable_of_writeTo_new hfast
    refine ⟨hv, by_contra fun hn ↦ ?_⟩
    rw [StyleWriter.writeTo_tooDeep hv (StyleWriter.new indent) hroot hn] at hstyle
    cases hstyle
  · rintro ⟨hv, hn⟩
    obtain ⟨s, he, -, hb⟩ := StyleWriter.writeTo_eq hv (StyleWriter.new indent) hroot hn
    have hb : Between (StyleWriter.Gap indent) (tokens v) s := hb rfl
    have hparse : ∀ {t : Bytes}, Renders (.value v) t →
        Reader.parse t = .ok (.PARSE_OK, some v) := by
      intro t ht
      have h := parse_of_renders ws_nil ht ws_nil
      rwa [List.nil_append, List.append_nil] at h
    refine ⟨_, _, he, FastWriter.writeTo_new hv, rfl, (flatten_tokens v).symm, hb, ?_, ?_⟩
    · exact hparse (spaced hw hp s (hb.mono fun g hg ↦ hg.ws hi))
    · exact hparse (renders_text hw hp)

/-- An array in an object, with two blanks for an indent. -/
theorem parse_writeTo_style_iff_sample :
    let v := Value.object [(lit "k", .array [.int32 7, .string [0x22, 0]])]
    (∃ (w : StyleWriter) (fw : FastWriter),
      @Value.writeTo _ (@StyleWriter.instWriterOfDoubleText noDoubles) v
        (StyleWriter.new (lit "  ")) = .ok w ∧
      @Value.writeTo _ (@FastWriter.instWriterOfDoubleText noDoubles) v FastWriter.new = .ok fw ∧
      w.indentDepth_ = 0 ∧ fw.ws_ = (@tokens noDoubles v).flatten ∧
      Between (StyleWriter.Gap (lit "  ")) (@tokens noDoubles v) w.fw_.ws_ ∧
      @Reader.parse noDoubles w.fw_.ws_ = .ok (.PARSE_OK, some v) ∧
      @Reader.parse noDoubles fw.ws_ = .ok (.PARSE_OK, some v)) ↔
        v.Countable ∧ v.Nested (2 ^ 31 - 1) := by
  refine @parse_writeTo_style_iff noDoubles _ (.object (by decide) ?_) (.object ?_ ?_) (lit "  ") ?_
  · simpa using .array (by simp [Value.WellFormed.int32, Value.WellFormed.string])
  · simp only [List.mem_singleton, forall_eq, show lit "k" = [0x6b] from rfl]
    decide
  · simpa using .array (by simp [Plain.int32, Plain.string])
  · have hblanks : Ws [0x20, 0x20] := by simp [Reader.isWhitespace]
    exact hblanks

/-- An array with one `null` more than an `int` can count, without an indent. -/
theorem not_parse_writeTo_style_nulls :
    let _ := noDoubles
    let v := Value.array (List.replicate (2 ^ 31) .null)
    v.WellFormed ∧ Plain v ∧ Ws [] ∧
      ¬ ∃ (w : StyleWriter) (fw : FastWriter), v.writeTo (StyleWriter.new []) = .ok w ∧
        v.writeTo FastWriter.new = .ok fw ∧ w.indentDepth_ = 0 ∧
        fw.ws_ = (tokens v).flatten ∧ Between (StyleWriter.Gap []) (tokens v) w.fw_.ws_ ∧
        Reader.parse w.fw_.ws_ = .ok (.PARSE_OK, some v) ∧
        Reader.parse fw.ws_ = .ok (.PARSE_OK, some v) := by
  intro _ v
  refine ⟨.array fun x hx ↦ ?_, .array fun x hx ↦ ?_, ws_nil, ?_⟩
  · rw [List.eq_of_mem_replicate hx]
    exact .null
  · rw [List.eq_of_mem_replicate hx]
    exact .null
  · rintro ⟨w, fw, -, hfast, -⟩
    exact Value.not_countable_nulls (FastWriter.countable_of_writeTo_new hfast)

end RpcLearning.Json
