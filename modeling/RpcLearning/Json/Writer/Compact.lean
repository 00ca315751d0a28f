import RpcLearning.Json.Writer

/-!
# Compact text

The text of a value as a function of the value alone, and the fact that `writeTo` puts exactly
that text, whatever the writer has put before, if it is at a place for a value and its `int`s count
the tokens of every container of the value.  If they do not, `writeTo` overflows.
-/

namespace RpcLearning.Json

/-! ## What `prefix` does -/

namespace FastWriter

/-- The separator due before the next token. -/
def separator (w : FastWriter) : Bytes :=
  match w.stack_ with
  | [] => []
  | top :: _ =>
    if ¬ top.inArray_ ∧ top.valueCount % 2 = 1 then lit ":"
    else if top.valueCount > 0 then lit "," else []

/-- The writer after `prefix`. -/
def counted (w : FastWriter) : FastWriter where
  seeValue_ := true
  stack_ := w.stack_.modifyHead fun top ↦ { top with valueCount := top.valueCount + 1 }
  ws_ := w.ws_ ++ w.separator

/-- The writer is at a place for a token of this type, and can count it: at the root if nothing was
put there, and in an object for a string unless a key has just been put. -/
structure Ready (type : ValueType) (w : FastWriter) : Prop where
  root : w.seeValue_ = true → w.stack_ ≠ []
  key : ∀ top ∈ w.stack_.head?, ¬ top.inArray_ → top.valueCount % 2 = 1 ∨ type = .TYPE_STRING
  room : ∀ top ∈ w.stack_.head?, top.valueCount + 1 < 2 ^ 31

theorem count_eq {top : Level} (h : top.valueCount + 1 < 2 ^ 31) :
    top.count = .ok { top with valueCount := top.valueCount + 1 } := if_pos h

theorem count_overflow {top : Level} (h : 2 ^ 31 ≤ top.valueCount + 1) :
    top.count = .error .overflow := if_neg (not_lt.mpr h)

theorem putSeparator_eq {type : ValueType} {w : FastWriter}
    (h : ∀ top ∈ w.stack_.head?, ¬ top.inArray_ → top.valueCount % 2 = 1 ∨ type = .TYPE_STRING)
    (hr : ∀ top ∈ w.stack_.head?, top.valueCount + 1 < 2 ^ 31) (hs : w.seeValue_ = true) :
    putSeparator type w = .ok w.counted := by
  obtain ⟨see, stack, ws⟩ := w
  obtain rfl : see = true := hs
  cases stack with
  | nil => simp [putSeparator, counted, separator]
  | cons top rest =>
      obtain ⟨inArray, count⟩ := top
      have hroom := count_eq (hr ⟨inArray, count⟩ rfl)
      cases inArray with
      | true => by_cases hc : 0 < count <;> simp [putSeparator, counted, separator, put, hc, hroom]
      | false =>
          rcases Nat.mod_two_eq_zero_or_one count with ho | ho
          · have ht : type = .TYPE_STRING :=
              (h ⟨false, count⟩ rfl (by simp)).resolve_left (by simp [ho])
            by_cases hc : 0 < count <;>
              simp [putSeparator, counted, separator, put, ho, hc, ht, hroom]
          · simp [putSeparator, counted, separator, put, ho, hroom]

/-- In a place for it, a token fails no assertion of `prefix`. -/
theorem putPrefix_eq {type : ValueType} {w : FastWriter} (h : Ready type w) :
    w.putPrefix type = .ok w.counted := by
  by_cases hs : w.seeValue_ = true
  · rw [putPrefix, if_pos hs, if_neg (h.root hs), putSeparator_eq h.key h.room hs]
  · rw [putPrefix, if_neg hs]
    exact putSeparator_eq h.key h.room rfl

/-- One token more than an `int` can count. -/
theorem putPrefix_overflow {type : ValueType} {w : FastWriter} {top : Level} {rest : List Level}
    (hs : w.stack_ = top :: rest) (h : top.inArray_ ∨ top.valueCount % 2 = 1)
    (hr : 2 ^ 31 ≤ top.valueCount + 1) : w.putPrefix type = .error .overflow := by
  have hsep : ∀ w : FastWriter, w.stack_ = top :: rest →
      putSeparator type w = .error .overflow := by
    intro w hs
    rw [putSeparator, hs]
    rcases h with h | h
    · simp only [h, if_true, Exec.ok_bind, count_overflow hr]
      rfl
    · by_cases ha : top.inArray_ = true
      · simp only [ha, if_true, Exec.ok_bind, count_overflow hr]
        rfl
      · simp only [ha, h, if_true, Exec.ok_bind, count_overflow hr]
        rfl
  rw [putPrefix]
  split
  · rw [if_neg (by rw [hs]; exact List.cons_ne_nil _ _), hsep w hs]
  · exact hsep _ hs

theorem token_eq {type : ValueType} {w : FastWriter} (h : Ready type w) (t : Bytes) :
    w.token type t = .ok (w.counted.put t) := by
  rw [token, putPrefix_eq h, Exec.ok_bind]

theorem startArray_eq {w : FastWriter} (h : Ready .TYPE_ARRAY w) :
    w.startArray = .ok ⟨true, ⟨true, 0⟩ :: w.counted.stack_, w.counted.ws_ ++ [0x5b]⟩ := by
  rw [startArray, putPrefix_eq h]
  rfl

theorem startObject_eq {w : FastWriter} (h : Ready .TYPE_OBJECT w) :
    w.startObject = .ok ⟨true, ⟨false, 0⟩ :: w.counted.stack_, w.counted.ws_ ++ [0x7b]⟩ := by
  rw [startObject, putPrefix_eq h]
  rfl

/-- A place for a value is a place for every token. -/
theorem Ready.of_null {w : FastWriter} (h : Ready .TYPE_NULL w) (type : ValueType) :
    Ready type w where
  root := h.root
  key top ht ha := .inl ((h.key top ht ha).resolve_right (by simp))
  room := h.room

theorem ready_new : Ready .TYPE_NULL new := ⟨by simp [new], by simp [new], by simp [new]⟩

/-- Inside an array there is always a place for a value. -/
theorem ready_element {w : FastWriter} {n : Nat} {rest : List Level}
    (hs : w.stack_ = ⟨true, n⟩ :: rest) (hr : n + 1 < 2 ^ 31) : Ready .TYPE_NULL w :=
  ⟨by simp [hs], by simp [hs], by simpa [hs] using hr⟩

theorem ready_key {w : FastWriter} {n : Nat} {rest : List Level}
    (hs : w.stack_ = ⟨false, n⟩ :: rest) (hr : n + 1 < 2 ^ 31) : Ready .TYPE_STRING w :=
  ⟨by simp [hs], by simp, by simpa [hs] using hr⟩

theorem ready_member {w : FastWriter} {n : Nat} {rest : List Level}
    (hs : w.stack_ = ⟨false, n⟩ :: rest) (hn : n % 2 = 1) (hr : n + 1 < 2 ^ 31) :
    Ready .TYPE_NULL w :=
  ⟨by simp [hs], by simp [hs, hn], by simpa [hs] using hr⟩

end FastWriter

/-! ## What can be counted -/

namespace Value

/-- No container of the value has more tokens than an `int` can count. -/
inductive Countable : Value → Prop
  | null : Countable .null
  | bool (b : Bool) : Countable (.bool b)
  | int32 (i : Int32) : Countable (.int32 i)
  | int64 (i : Int64) : Countable (.int64 i)
  | double (d : Double) : Countable (.double d)
  | string (s : Bytes) : Countable (.string s)
  | array {xs : List Value} (hn : xs.length < 2 ^ 31) (h : ∀ x ∈ xs, Countable x) :
      Countable (.array xs)
  | object {ms : List (Bytes × Value)} (hn : 2 * ms.length < 2 ^ 31)
      (h : ∀ m ∈ ms, Countable m.2) : Countable (.object ms)

@[simp] theorem countable_array {xs : List Value} :
    Countable (.array xs) ↔ xs.length < 2 ^ 31 ∧ ∀ x ∈ xs, Countable x := by
  constructor
  · rintro ⟨⟩
    exact ⟨‹_›, ‹_›⟩
  · exact fun h ↦ .array h.1 h.2

@[simp] theorem countable_object {ms : List (Bytes × Value)} :
    Countable (.object ms) ↔ 2 * ms.length < 2 ^ 31 ∧ ∀ m ∈ ms, Countable m.2 := by
  constructor
  · rintro ⟨⟩
    exact ⟨‹_›, ‹_›⟩
  · exact fun h ↦ .object h.1 h.2

theorem not_countable_nulls : ¬ (Value.array (List.replicate (2 ^ 31) .null)).Countable := by
  rw [countable_array, List.length_replicate]
  exact fun h ↦ lt_irrefl _ h.1

end Value

/-! ## Text -/

theorem lit_comma : lit "," = [0x2c] := rfl

theorem lit_colon : lit ":" = [0x3a] := rfl

variable [DoubleText]

mutual

/-- The compact text of a value. -/
def text : Value → Bytes
  | .null => lit "null"
  | .bool b => if b then lit "true" else lit "false"
  | .int32 i => Numeral.to_string i.toInt ++ lit "i32"
  | .int64 i => Numeral.to_string i.toInt ++ lit "i64"
  | .double d => DoubleText.to_string d
  | .string s => FastWriter.quoted s
  | .array xs => 0x5b :: (elementsText false xs ++ [0x5d])
  | .object ms => 0x7b :: (membersText false ms ++ [0x7d])

/-- The texts of elements, the first of them after a comma if there were others before. -/
def elementsText : Bool → List Value → Bytes
  | _, [] => []
  | more, x :: xs => (if more then lit "," else []) ++ (text x ++ elementsText true xs)

def membersText : Bool → List (Bytes × Value) → Bytes
  | _, [] => []
  | more, (key, x) :: ms => (if more then lit "," else []) ++
      (0x22 :: (key ++ [0x22]) ++ (lit ":" ++ (text x ++ membersText true ms)))

end

namespace FastWriter

/-- What is to be shown of a value: at any place for one, its text is put. -/
def Writes (x : Value) : Prop :=
  ∀ w : FastWriter, Ready .TYPE_NULL w → x.writeTo w = .ok (w.counted.put (text x))

/-- The loop over the elements puts their texts and counts them. -/
theorem writeElements_eq {xs : List Value} (hx : ∀ x ∈ xs, Writes x) {w : FastWriter} {n : Nat}
    {rest : List Level} (hs : w.stack_ = ⟨true, n⟩ :: rest) (hsee : w.seeValue_ = true)
    (hr : n + xs.length < 2 ^ 31) :
    Value.writeElements xs w =
      .ok ⟨true, ⟨true, n + xs.length⟩ :: rest, w.ws_ ++ elementsText (0 < n) xs⟩ := by
  induction xs generalizing w n with
  | nil =>
      obtain ⟨see, stack, ws⟩ := w
      obtain rfl : see = true := hsee
      obtain rfl : stack = _ := hs
      simp [Value.writeElements, elementsText]
  | cons x xs ih =>
      rw [List.length_cons] at hr
      have hx' := hx x (by simp) w (ready_element hs (by omega))
      have hs' : (w.counted.put (text x)).stack_ = ⟨true, n + 1⟩ :: rest := by
        simp [counted, hs]
      rw [Value.writeElements, hx', Exec.ok_bind,
        ih (fun y hy ↦ hx y (by simp [hy])) hs' rfl (by omega)]
      simp [counted, separator, hs, elementsText, Nat.add_right_comm, Nat.add_assoc]

theorem writeMembers_eq {ms : List (Bytes × Value)} (hx : ∀ m ∈ ms, Writes m.2)
    {w : FastWriter} {n : Nat} {rest : List Level} (hs : w.stack_ = ⟨false, 2 * n⟩ :: rest)
    (hsee : w.seeValue_ = true) (hr : 2 * (n + ms.length) < 2 ^ 31) :
    Value.writeMembers ms w =
      .ok ⟨true, ⟨false, 2 * (n + ms.length)⟩ :: rest, w.ws_ ++ membersText (0 < n) ms⟩ := by
  induction ms generalizing w n with
  | nil =>
      obtain ⟨see, stack, ws⟩ := w
      obtain rfl : see = true := hsee
      obtain rfl : stack = _ := hs
      simp [Value.writeMembers, membersText]
  | cons m ms ih =>
      obtain ⟨key, x⟩ := m
      rw [List.length_cons] at hr
      have hkey : Writer.key key w = .ok (w.counted.put (0x22 :: (key ++ [0x22]))) :=
        token_eq (ready_key hs (by omega)) _
      -- the key has been counted, so a value is due
      have hs₁ : (w.counted.put (0x22 :: (key ++ [0x22]))).stack_ = ⟨false, 2 * n + 1⟩ :: rest := by
        simp [counted, hs]
      have hx' := hx (key, x) (by simp) _ (ready_member hs₁ (by omega) (by omega))
      have hs₂ : ((w.counted.put (0x22 :: (key ++ [0x22]))).counted.put (text x)).stack_ =
          ⟨false, 2 * (n + 1)⟩ :: rest := by
        simp [counted, hs]
        omega
      rw [Value.writeMembers, hkey, Exec.ok_bind, hx', Exec.ok_bind,
        ih (fun y hy ↦ hx y (by simp [hy])) hs₂ rfl (by omega)]
      simp [counted, separator, hs, membersText, Nat.add_right_comm, Nat.add_assoc]

/-- At any place for a value, `writeTo` puts the separator due there and the value's text. -/
theorem writeTo_eq {v : Value} (hv : v.Countable) : Writes v := by
  induction hv with
  | null => exact fun w h ↦ token_eq h _
  | bool b => exact fun w h ↦ token_eq (h.of_null _) _
  | int32 i => exact fun w h ↦ token_eq (h.of_null _) _
  | int64 i => exact fun w h ↦ token_eq (h.of_null _) _
  | double d => exact fun w h ↦ token_eq (h.of_null _) _
  | string s => exact fun w h ↦ token_eq (h.of_null _) _
  | @array xs hn _ ih =>
      intro w h
      have hstart : Writer.startArray w =
          .ok ⟨true, ⟨true, 0⟩ :: w.counted.stack_, w.counted.ws_ ++ [0x5b]⟩ :=
        startArray_eq (h.of_null _)
      rw [Value.writeTo, hstart, Exec.ok_bind, writeElements_eq ih rfl rfl (by omega), Exec.ok_bind]
      simp [Writer.endArray, endArray, text, put, counted]
  | @object ms hn _ ih =>
      intro w h
      have hstart : Writer.startObject w =
          .ok ⟨true, ⟨false, 2 * 0⟩ :: w.counted.stack_, w.counted.ws_ ++ [0x7b]⟩ :=
        startObject_eq (h.of_null _)
      rw [Value.writeTo, hstart, Exec.ok_bind, writeMembers_eq ih rfl rfl (by omega), Exec.ok_bind]
      simp [Writer.endObject, endObject, text, put, counted]

/-- Written into a fresh writer, a value fails no assertion and leaves its text. -/
theorem writeTo_new {v : Value} (hv : v.Countable) : v.writeTo new = .ok ⟨true, [], text v⟩ :=
  writeTo_eq hv new ready_new

/-! ## What overflows -/

/-- Behind `2 ^ 31 - 1` tokens there is no room for a value. -/
theorem writeTo_full (x : Value) {w : FastWriter} {top : Level} {rest : List Level}
    (hs : w.stack_ = top :: rest) (h : top.inArray_ ∨ top.valueCount % 2 = 1)
    (hr : 2 ^ 31 ≤ top.valueCount + 1) : x.writeTo w = .error .overflow := by
  have htoken : ∀ type t, w.token type t = .error .overflow := by
    intro type t
    rw [token, putPrefix_overflow hs h hr]
    rfl
  cases x with
  | null => exact htoken _ _
  | bool b => exact htoken _ _
  | int32 i => exact htoken _ _
  | int64 i => exact htoken _ _
  | double d => exact htoken _ _
  | string s => exact htoken _ _
  | array xs =>
      have hstart : Writer.startArray w = .error .overflow := by
        show w.startArray = _
        rw [startArray, putPrefix_overflow hs h hr]
        rfl
      rw [Value.writeTo, hstart]
      rfl
  | object ms =>
      have hstart : Writer.startObject w = .error .overflow := by
        show w.startObject = _
        rw [startObject, putPrefix_overflow hs h hr]
        rfl
      rw [Value.writeTo, hstart]
      rfl

/-- What is to be shown of a value that cannot be counted. -/
def Overflows (x : Value) : Prop :=
  ∀ w : FastWriter, Ready .TYPE_NULL w → x.writeTo w = .error .overflow

theorem writeElements_overflow {xs : List Value} (hx : ∀ x ∈ xs, ¬ x.Countable → Overflows x)
    {w : FastWriter} {n : Nat} {rest : List Level} (hs : w.stack_ = ⟨true, n⟩ :: rest)
    (hsee : w.seeValue_ = true) (hn : n < 2 ^ 31)
    (h : 2 ^ 31 ≤ n + xs.length ∨ ∃ x ∈ xs, ¬ x.Countable) :
    Value.writeElements xs w = .error .overflow := by
  induction xs generalizing w n with
  | nil =>
      rcases h with h | ⟨x, hx, -⟩
      · exact absurd hn (not_lt.mpr h)
      · cases hx
  | cons x xs ih =>
      rw [Value.writeElements]
      by_cases hr : n + 1 < 2 ^ 31
      · have hready := ready_element hs hr
        by_cases hc : x.Countable
        · have hs' : (w.counted.put (text x)).stack_ = ⟨true, n + 1⟩ :: rest := by
            simp [counted, hs]
          rw [writeTo_eq hc w hready, Exec.ok_bind]
          refine ih (fun y hy ↦ hx y (List.mem_cons_of_mem x hy)) hs' rfl hr ?_
          rcases h with h | ⟨y, hy, hyc⟩
          · rw [List.length_cons] at h
            exact .inl (by omega)
          · rcases List.mem_cons.mp hy with rfl | hy
            · exact absurd hc hyc
            · exact .inr ⟨y, hy, hyc⟩
        · rw [hx x List.mem_cons_self hc w hready]
          rfl
      · rw [writeTo_full x hs (.inl rfl) (not_lt.mp hr)]
        rfl

theorem writeMembers_overflow {ms : List (Bytes × Value)}
    (hx : ∀ m ∈ ms, ¬ m.2.Countable → Overflows m.2) {w : FastWriter} {n : Nat}
    {rest : List Level} (hs : w.stack_ = ⟨false, 2 * n⟩ :: rest) (hsee : w.seeValue_ = true)
    (hn : 2 * n < 2 ^ 31) (h : 2 ^ 31 ≤ 2 * (n + ms.length) ∨ ∃ m ∈ ms, ¬ m.2.Countable) :
    Value.writeMembers ms w = .error .overflow := by
  induction ms generalizing w n with
  | nil =>
      rcases h with h | ⟨m, hm, -⟩
      · exact absurd hn (not_lt.mpr h)
      · cases hm
  | cons m ms ih =>
      obtain ⟨key, x⟩ := m
      have hkey : Writer.key key w = .ok (w.counted.put (0x22 :: (key ++ [0x22]))) :=
        token_eq (ready_key hs (by omega)) _
      have hs₁ : (w.counted.put (0x22 :: (key ++ [0x22]))).stack_ = ⟨false, 2 * n + 1⟩ :: rest := by
        simp [counted, hs]
      rw [Value.writeMembers, hkey, Exec.ok_bind]
      by_cases hr : 2 * n + 1 + 1 < 2 ^ 31
      · have hready := ready_member hs₁ (by omega) hr
        by_cases hc : x.Countable
        · have hs₂ : ((w.counted.put (0x22 :: (key ++ [0x22]))).counted.put (text x)).stack_ =
              ⟨false, 2 * (n + 1)⟩ :: rest := by
            simp [counted, hs]
            omega
          rw [writeTo_eq hc _ hready, Exec.ok_bind]
          refine ih (fun m hm ↦ hx m (List.mem_cons_of_mem _ hm)) hs₂ rfl (by omega) ?_
          rcases h with h | ⟨m, hm, hmc⟩
          · rw [List.length_cons] at h
            exact .inl (by omega)
          · rcases List.mem_cons.mp hm with rfl | hm
            · exact absurd hc hmc
            · exact .inr ⟨m, hm, hmc⟩
        · rw [hx (key, x) List.mem_cons_self hc _ hready]
          rfl
      · rw [writeTo_full x hs₁ (.inr (show (2 * n + 1) % 2 = 1 by omega)) (not_lt.mp hr)]
        rfl

theorem writeTo_overflow (v : Value) : ¬ v.Countable → Overflows v := by
  induction v using Value.induction with
  | null => exact fun h ↦ absurd .null h
  | bool b => exact fun h ↦ absurd (.bool b) h
  | int32 i => exact fun h ↦ absurd (.int32 i) h
  | int64 i => exact fun h ↦ absurd (.int64 i) h
  | double d => exact fun h ↦ absurd (.double d) h
  | string s => exact fun h ↦ absurd (.string s) h
  | array xs ih =>
      intro hv w hw
      have h : 2 ^ 31 ≤ 0 + xs.length ∨ ∃ x ∈ xs, ¬ x.Countable := by
        by_contra hno
        rw [not_or, not_exists] at hno
        exact hv (.array (by omega) fun x hx ↦ by_contra fun hc ↦ hno.2 x ⟨hx, hc⟩)
      have hstart : Writer.startArray w =
          .ok ⟨true, ⟨true, 0⟩ :: w.counted.stack_, w.counted.ws_ ++ [0x5b]⟩ :=
        startArray_eq (hw.of_null _)
      rw [Value.writeTo, hstart, Exec.ok_bind,
        writeElements_overflow ih rfl rfl (Nat.two_pow_pos 31) h]
      rfl
  | object ms ih =>
      intro hv w hw
      have h : 2 ^ 31 ≤ 2 * (0 + ms.length) ∨ ∃ m ∈ ms, ¬ m.2.Countable := by
        by_contra hno
        rw [not_or, not_exists] at hno
        exact hv (.object (by omega) fun m hm ↦ by_contra fun hc ↦ hno.2 m ⟨hm, hc⟩)
      have hstart : Writer.startObject w =
          .ok ⟨true, ⟨false, 2 * 0⟩ :: w.counted.stack_, w.counted.ws_ ++ [0x7b]⟩ :=
        startObject_eq (hw.of_null _)
      rw [Value.writeTo, hstart, Exec.ok_bind,
        writeMembers_overflow ih rfl rfl (Nat.two_pow_pos 31) h]
      rfl

/-- A value is written exactly if its containers can be counted. -/
theorem countable_of_writeTo_new {v : Value} {w : FastWriter} (h : v.writeTo new = .ok w) :
    v.Countable := by
  by_contra hv
  rw [writeTo_overflow v hv new ready_new] at h
  cases h

end FastWriter

/-! ## Short texts -/

/-- Between elements there are commas. -/
theorem length_le_elementsText (xs : List Value) :
    ∀ more, xs.length ≤ (elementsText more xs).length + (!more).toNat := by
  induction xs with
  | nil => exact fun more ↦ Nat.zero_le _
  | cons x xs ih =>
      intro more
      have ih := ih true
      cases more <;> simp [elementsText, lit_comma] at ih ⊢ <;> omega

theorem length_text_le_elementsText {xs : List Value} {x : Value} (h : x ∈ xs) (more : Bool) :
    (text x).length ≤ (elementsText more xs).length := by
  induction xs generalizing more with
  | nil => cases h
  | cons y xs ih =>
      simp only [elementsText, List.length_append]
      rcases List.mem_cons.mp h with rfl | h
      · omega
      · have ih := ih h true
        omega

theorem length_le_membersText (ms : List (Bytes × Value)) :
    ∀ more, 2 * ms.length ≤ (membersText more ms).length := by
  induction ms with
  | nil => exact fun more ↦ Nat.zero_le _
  | cons m ms ih =>
      intro more
      have ih := ih true
      simp only [membersText, List.length_append, List.length_cons]
      omega

theorem length_text_le_membersText {ms : List (Bytes × Value)} {m : Bytes × Value} (h : m ∈ ms)
    (more : Bool) : (text m.2).length ≤ (membersText more ms).length := by
  induction ms generalizing more with
  | nil => cases h
  | cons q ms ih =>
      simp only [membersText, List.length_append]
      rcases List.mem_cons.mp h with rfl | h
      · omega
      · have ih := ih h true
        omega

/-- A value with a text that is not too long can be written. -/
theorem countable_of_length_text {v : Value} : (text v).length < 2 ^ 31 → v.Countable := by
  induction v using Value.induction with
  | null => exact fun _ ↦ .null
  | bool b => exact fun _ ↦ .bool b
  | int32 i => exact fun _ ↦ .int32 i
  | int64 i => exact fun _ ↦ .int64 i
  | double d => exact fun _ ↦ .double d
  | string s => exact fun _ ↦ .string s
  | array xs ih =>
      intro h
      simp only [text, List.length_cons, List.length_append] at h
      have hlen := length_le_elementsText xs false
      refine .array (by simp at hlen; omega) fun x hx ↦ ih x hx ?_
      have hx := length_text_le_elementsText hx false
      omega
  | object ms ih =>
      intro h
      simp only [text, List.length_cons, List.length_append] at h
      have hlen := length_le_membersText ms false
      refine .object (by omega) fun m hm ↦ ih m hm ?_
      have hm := length_text_le_membersText hm false
      omega

end RpcLearning.Json
