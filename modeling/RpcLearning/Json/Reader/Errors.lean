import RpcLearning.Json.Reader

/-!
# The error exits of the reader

Every function that leaves through an error code leaves with a code other than `PARSE_OK`, so the
code `parse` returns tells whether a value was read.
-/

namespace RpcLearning.Json.Reader

open Exec (Throws throws_ok throws_throw throws_fault throws_assert throws_ofRun)

/-- A code that stands for an error. -/
def IsError (e : ParseError × Value) : Prop := e.1 ≠ .PARSE_OK

theorem throws_invalidValue {α : Type} : Throws IsError (invalidValue : Parse α) := by
  simp [invalidValue, IsError]

theorem throws_pop (is : Stream) : Throws IsError is.pop := by
  cases is with
  | nil => exact throws_fault _
  | cons c is => exact throws_ok _

theorem throws_expect (c : UInt8) (is : Stream) : Throws IsError (is.expect c) :=
  throws_assert.bind fun _ ↦ throws_pop is

theorem throws_within {α : Type} {x : Parse α} (value : Value) (h : Throws IsError x) :
    Throws IsError (within value x) :=
  h.mapThrown fun _ he ↦ he

theorem throws_matchLiteral (literal : Bytes) (is : Stream) :
    Throws IsError (matchLiteral literal is) := by
  induction literal generalizing is with
  | nil => exact throws_ok _
  | cons l literal ih => exact .ite ((throws_pop is).bind ih) (throws_ok _)

theorem throws_parseLiteral (is : Stream) (literal : Bytes) (type : ValueType) :
    Throws IsError (parseLiteral is literal type) := by
  refine (throws_expect _ _).bind fun is ↦ (throws_matchLiteral _ _).bind fun p ↦ ?_
  refine .ite (by simp [IsError]) ?_
  split <;> exact throws_ok _

/-! ## Numbers -/

theorem throws_scanDigits (is : Stream) : Throws IsError (scanDigits is) :=
  .ite ((throws_pop is).bind fun _ ↦ throws_ok _) throws_invalidValue

theorem throws_scanNatural (is : Stream) : Throws IsError (scanNatural is) :=
  .ite (throws_pop is) (.ite (throws_ok _) throws_invalidValue)

theorem throws_scanInteger (is : Stream) : Throws IsError (scanInteger is) :=
  .ite ((throws_pop is).bind throws_scanNatural) (throws_scanNatural is)

theorem throws_scanFraction (is : Stream) : Throws IsError (scanFraction is) :=
  .ite ((throws_pop is).bind fun is ↦ (throws_scanDigits is).bind fun _ ↦ throws_ok _)
    (throws_ok _)

theorem throws_scanSign (is : Stream) : Throws IsError (scanSign is) :=
  .ite (throws_pop is) (throws_ok _)

theorem throws_scanExponent (is : Stream) : Throws IsError (scanExponent is) :=
  .ite ((throws_pop is).bind fun is ↦ (throws_scanSign is).bind fun is ↦
    (throws_scanDigits is).bind fun _ ↦ throws_ok _) (throws_ok _)

theorem throws_scanSuffix (expectType : ValueType) (is : Stream) :
    Throws IsError (scanSuffix expectType is) := by
  refine .ite ((throws_pop is).bind fun is ↦ .ite throws_invalidValue ?_) (throws_ok _)
  split
  · exact .ite throws_invalidValue (throws_ok _)
  · exact .ite throws_invalidValue (throws_ok _)
  · exact throws_invalidValue

theorem throws_convert [DoubleText] (expectType : ValueType) (start end_ : Stream) :
    Throws IsError (convert expectType start end_) := by
  unfold convert
  split
  · split
    · simp [IsError]
    · exact throws_assert.bind fun _ ↦ throws_ok _
  · split
    · simp [IsError]
    · split
      · exact throws_ok _
      · exact .ite (by simp [IsError]) (throws_ok _)
      · exact throws_invalidValue

theorem throws_parseNumber [DoubleText] (start : Stream) : Throws IsError (parseNumber start) :=
  (throws_scanInteger _).bind fun _ ↦ (throws_scanFraction _).bind fun _ ↦
    (throws_scanExponent _).bind fun _ ↦ (throws_scanSuffix _ _).bind fun _ ↦
      .ite throws_invalidValue ((throws_convert _ _ _).bind fun _ ↦ throws_ok _)

/-! ## Strings -/

theorem throws_encodeUtf8 (u : Nat) : Throws IsError (encodeUtf8 u) :=
  .ite (throws_ok _) (.ite (throws_ok _) (.ite (throws_ok _)
    (throws_assert.bind fun _ ↦ throws_ok _)))

theorem throws_parseCodePoint (is : Stream) : Throws IsError (parseCodePoint is) := by
  unfold parseCodePoint
  split
  · simp [IsError]
  · refine .ite (.ite (by simp [IsError]) (.ite (by simp [IsError]) ?_)) (throws_ok _)
    split
    · simp [IsError]
    · exact .ite (by simp [IsError]) (throws_ok _)

theorem throws_parseEscape (is : Stream) : Throws IsError (parseEscape is) := by
  unfold parseEscape
  split
  · exact throws_ok _
  · exact .ite ((throws_parseCodePoint _).bind fun _ ↦ (throws_encodeUtf8 _).bind fun _ ↦
      throws_ok _) (by simp [IsError])

theorem throws_parseStringLoop (fuel : Nat) (buffer : Bytes) (is : Stream) :
    Throws IsError (parseStringLoop fuel buffer is) := by
  induction fuel generalizing buffer is with
  | zero =>
      cases is with
      | nil => exact throws_ok _
      | cons c is => exact throws_fault _
  | succ fuel ih =>
      cases is with
      | nil => exact throws_ok _
      | cons c is =>
          refine .ite (throws_ok _) (.ite ?_ (.ite (by simp [IsError])
            (.ite (by simp [IsError]) (ih _ _))))
          exact (throws_parseEscape is).bind fun _ ↦ ih _ _

theorem throws_parseString (is : Stream) : Throws IsError (parseString is) :=
  (throws_expect _ is).bind fun _ ↦ throws_parseStringLoop _ _ _

/-! ## Values -/

theorem throws_parseArray {loop : Value → Stream → Parse (Value × Stream)}
    (h : ∀ value is, Throws IsError (loop value is)) (is : Stream) :
    Throws IsError (parseArray loop is) :=
  (throws_expect _ is).bind fun _ ↦ .ite ((throws_pop _).bind fun _ ↦ throws_ok _) (h _ _)

theorem throws_parseObject {loop : Value → Stream → Parse (Value × Stream)}
    (h : ∀ value is, Throws IsError (loop value is)) (is : Stream) :
    Throws IsError (parseObject loop is) :=
  (throws_expect _ is).bind fun _ ↦ .ite ((throws_pop _).bind fun _ ↦ throws_ok _) (h _ _)

variable [DoubleText]

theorem throws_parse (fuel : Nat) :
    (∀ is, Throws IsError (parseValue fuel is)) ∧
      (∀ value is, Throws IsError (parseArrayLoop fuel value is)) ∧
      ∀ object is, Throws IsError (parseObjectLoop fuel object is) := by
  induction fuel with
  | zero => exact ⟨fun _ ↦ throws_fault _, fun _ _ ↦ throws_fault _, fun _ _ ↦ throws_fault _⟩
  | succ fuel ih =>
      obtain ⟨ihv, iha, iho⟩ := ih
      refine ⟨fun is ↦ ?_, fun value is ↦ ?_, fun object is ↦ ?_⟩
      · rw [parseValue]
        split
        · exact throws_parseLiteral _ _ _
        · exact throws_parseLiteral _ _ _
        · exact throws_parseLiteral _ _ _
        · exact throws_parseString _
        · exact throws_parseArray iha _
        · exact throws_parseObject iho _
        · exact throws_parseNumber _
      · rw [parseArrayLoop]
        refine (throws_within value (ihv is)).bind fun p ↦ (throws_ofRun _).bind fun v ↦ ?_
        split
        · exact iha _ _
        · exact throws_ok _
        · exact iha _ _
      · rw [parseObjectLoop]
        refine .ite (by simp [IsError]) ((throws_within _ (throws_parseString is)).bind ?_)
        rintro ⟨key, is⟩
        dsimp only
        split
        · refine (throws_within _ (ihv _)).bind fun q ↦ (throws_ofRun _).bind fun o ↦ ?_
          exact .ite ((throws_pop _).bind fun _ ↦ iho _ _)
            (.ite ((throws_pop _).bind fun _ ↦ throws_ok _) (by simp [IsError]))
        · simp [IsError]

end RpcLearning.Json.Reader
