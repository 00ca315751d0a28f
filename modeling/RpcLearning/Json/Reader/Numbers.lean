import RpcLearning.Json.Reader.Leaves

/-!
# What `parseNumber` accepts

The scanners determine the numeral and what its suffix makes of it; the conversions of the C
library then see exactly that numeral, so the assertion on the end of a double holds.
-/

namespace RpcLearning.Json.Reader

open Numeral (NoDigit IntText FractionText ExponentText DoubleNumeral EndsNumeral strtol)

theorem front_ne_of_head? {r : Stream} {a : UInt8} (ha : a ≠ 0) :
    r.front ≠ a ↔ ∀ c ∈ r.head?, c ≠ a := by
  cases r with
  | nil => simp [Ne.symm ha]
  | cons c t => simp

/-- What the scanners have established when they all return. -/
inductive Scanned : Stream → ValueType → Stream → Prop
  | plain {s r : Bytes} {i : Int} (hs : IntText s i) : Scanned (s ++ r) .TYPE_NULL r
  | int32 {s r : Bytes} {i : Int} (hs : IntText s i) :
      Scanned (s ++ (lit "i32" ++ r)) .TYPE_INT32 r
  | int64 {s r : Bytes} {i : Int} (hs : IntText s i) :
      Scanned (s ++ (lit "i64" ++ r)) .TYPE_INT64 r
  | double {s f e r : Bytes} (h : DoubleNumeral s f e) (hr : EndsNumeral e r)
      (hi : Stream.front r ≠ 0x69) : Scanned (s ++ (f ++ (e ++ r))) .TYPE_DOUBLE r

theorem scanned_of_scan {start is₁ is₂ is₃ r : Stream} {frac exp : Bool} {type : ValueType}
    (h₁ : scanInteger start = .ok is₁) (h₂ : scanFraction is₁ = .ok (frac, is₂))
    (h₃ : scanExponent is₂ = .ok (exp, is₃))
    (h₄ : scanSuffix (if frac ∨ exp then .TYPE_DOUBLE else .TYPE_NULL) is₃ = .ok (type, r)) :
    Scanned start type r := by
  obtain ⟨s, i, hs, rfl⟩ := exists_of_scanInteger h₁
  -- the fraction and the exponent, as texts
  obtain ⟨f, hf, rfl, hfrac⟩ : ∃ f, FractionText f ∧ is₁ = f ++ is₂ ∧
      ((frac = true ∧ f ≠ [] ∧ NoDigit is₂) ∨ (frac = false ∧ f = [])) := by
    rcases scanFraction_eq_ok.mp h₂ with ⟨rfl, rfl, -⟩ | ⟨rfl, hn, ds, hds, rfl⟩
    · exact ⟨[], .absent, rfl, .inr ⟨rfl, rfl⟩⟩
    · exact ⟨0x2e :: ds, .present hds, rfl, .inl ⟨rfl, by simp, hn⟩⟩
  obtain ⟨e, he, rfl, hexp⟩ : ∃ e, ExponentText e ∧ is₂ = e ++ is₃ ∧
      ((exp = true ∧ e ≠ [] ∧ NoDigit is₃) ∨
        (exp = false ∧ e = [] ∧ is₃.front ≠ 0x65 ∧ is₃.front ≠ 0x45)) := by
    rcases scanExponent_eq_ok.mp h₃ with ⟨rfl, rfl, h65, h45⟩ | ⟨rfl, hn, e, he, hne, rfl⟩
    · exact ⟨[], .absent, rfl, .inr ⟨rfl, rfl, h65, h45⟩⟩
    · exact ⟨e, he, rfl, .inl ⟨rfl, hne, hn⟩⟩
  by_cases hb : frac ∨ exp
  · rw [if_pos hb] at h₄
    rcases scanSuffix_eq_ok.mp h₄ with ⟨hi, rfl, rfl⟩ | ⟨hd, -⟩ | ⟨hd, -⟩
    · refine .double (.mk hs hf he ?_) ⟨?_, ?_⟩ hi
      · rcases hfrac with ⟨-, hne, -⟩ | ⟨rfl, -⟩
        · exact .inl hne
        · rcases hexp with ⟨-, hne, -⟩ | ⟨rfl, -⟩
          · exact .inr hne
          · simp at hb
      · rcases hexp with ⟨-, -, hn⟩ | ⟨rfl, rfl, -⟩
        · exact hn
        · rcases hfrac with ⟨-, -, hn⟩ | ⟨rfl, -⟩
          · exact hn
          · simp at hb
      · intro hnil
        rcases hexp with ⟨-, hne, -⟩ | ⟨-, -, h65, h45⟩
        · exact absurd hnil hne
        · rw [front_ne_of_head? (by decide)] at h65 h45
          exact fun c hc ↦ ⟨h65 c hc, h45 c hc⟩
    · exact absurd rfl hd
    · exact absurd rfl hd
  · rw [if_neg hb] at h₄
    rw [not_or, Bool.not_eq_true, Bool.not_eq_true] at hb
    obtain ⟨rfl, rfl⟩ := hb
    simp only [Bool.false_eq_true, false_and, true_and, false_or] at hfrac hexp
    obtain ⟨rfl, -⟩ := hexp
    subst hfrac
    rcases scanSuffix_eq_ok.mp h₄ with ⟨-, rfl, rfl⟩ | ⟨-, rfl, rfl⟩ | ⟨-, rfl, rfl⟩
    · exact .plain hs
    · exact .int32 hs
    · exact .int64 hs

theorem noDigit_suffix (c d : UInt8) (r : Bytes) : NoDigit (0x69 :: c :: d :: r) :=
  Numeral.noDigit_cons.mpr (by decide)

theorem noDigit_i32 (r : Bytes) : NoDigit (lit "i32" ++ r) := noDigit_suffix _ _ r

theorem noDigit_i64 (r : Bytes) : NoDigit (lit "i64" ++ r) := noDigit_suffix _ _ r

/-- What the scanners accept, they scan. -/
theorem Scanned.scan {start r : Stream} {type : ValueType} (h : Scanned start type r)
    (ht : type ≠ .TYPE_NULL) :
    ∃ is₁ is₂ is₃ frac exp, scanInteger start = .ok is₁ ∧ scanFraction is₁ = .ok (frac, is₂) ∧
      scanExponent is₂ = .ok (exp, is₃) ∧
      scanSuffix (if frac ∨ exp then .TYPE_DOUBLE else .TYPE_NULL) is₃ = .ok (type, r) := by
  have suffix : ∀ (c d : UInt8) (type' : ValueType) {s : Bytes} {i : Int}, IntText s i →
      scanSuffix .TYPE_NULL (0x69 :: c :: d :: r) = .ok (type', r) →
      ∃ is₁ is₂ is₃ frac exp, scanInteger (s ++ 0x69 :: c :: d :: r) = .ok is₁ ∧
        scanFraction is₁ = .ok (frac, is₂) ∧ scanExponent is₂ = .ok (exp, is₃) ∧
        scanSuffix (if frac ∨ exp then .TYPE_DOUBLE else .TYPE_NULL) is₃ = .ok (type', r) := by
    intro c d type' s i hs hsuf
    refine ⟨_, _, _, false, false, scanInteger_append hs (noDigit_suffix c d r),
      scanFraction_eq_ok.mpr (.inl ⟨rfl, rfl, by simp⟩),
      scanExponent_eq_ok.mpr (.inl ⟨rfl, rfl, by simp, by simp⟩), by simpa using hsuf⟩
  cases h with
  | plain => exact absurd rfl ht
  | int32 hs => exact suffix _ _ _ hs (scanSuffix_eq_ok.mpr (.inr (.inl ⟨by simp, rfl, rfl⟩)))
  | int64 hs => exact suffix _ _ _ hs (scanSuffix_eq_ok.mpr (.inr (.inr ⟨by simp, rfl, rfl⟩)))
  | @double s f e _ h hr hi =>
      obtain ⟨hs, hf, he, hne⟩ := h
      have hexp : scanExponent (e ++ r) = .ok (!e.isEmpty, r) := by
        rw [scanExponent_eq_ok]
        cases he with
        | absent =>
            refine .inl ⟨rfl, rfl, ?_, ?_⟩
            · exact (front_ne_of_head? (by decide)).mpr fun c hc ↦ (hr.noExponent rfl c hc).1
            · exact (front_ne_of_head? (by decide)).mpr fun c hc ↦ (hr.noExponent rfl c hc).2
        | present hc hs hd =>
            exact .inr ⟨rfl, hr.noDigit, _, .present hc hs hd, by simp, rfl⟩
      have hend : NoDigit (e ++ r) := by
        cases he with
        | absent => exact hr.noDigit
        | present hc _ _ => rcases hc with rfl | rfl <;> exact Numeral.noDigit_cons.mpr (by decide)
      have hdot : Stream.front (e ++ r) ≠ 0x2e ∨ f ≠ [] := by
        cases he with
        | absent => exact .inr (by simpa using hne)
        | present hc _ _ => exact .inl (by rcases hc with rfl | rfl <;> simp)
      have hfrac : scanFraction (f ++ (e ++ r)) = .ok (!f.isEmpty, e ++ r) := by
        rw [scanFraction_eq_ok]
        cases hf with
        | absent => exact .inl ⟨rfl, rfl, hdot.resolve_right (by simp)⟩
        | present hd => exact .inr ⟨rfl, hend, _, hd, rfl⟩
      have hint : NoDigit (f ++ (e ++ r)) := by
        cases hf with
        | absent => exact hend
        | present hd => exact Numeral.noDigit_cons.mpr (by decide)
      have hflag : (!f.isEmpty) = true ∨ (!e.isEmpty) = true := by
        rcases hne with h | h
        · exact .inl (by simpa using h)
        · exact .inr (by simpa using h)
      refine ⟨_, _, _, _, _, scanInteger_append hs hint, hfrac, hexp, ?_⟩
      rw [if_pos hflag]
      exact scanSuffix_eq_ok.mpr (.inl ⟨hi, rfl, rfl⟩)

theorem Scanned.length_lt {start r : Stream} {type : ValueType} (h : Scanned start type r) :
    r.length < start.length := by
  have key : ∀ {s : Bytes} {i : Int}, IntText s i → 0 < s.length := by
    intro s i hs
    obtain ⟨c, ds, rfl, -⟩ := hs.exists_cons
    simp
  cases h with
  | plain hs =>
      have := key hs
      simp only [List.length_append]
      omega
  | int32 hs =>
      have := key hs
      simp only [List.length_append]
      omega
  | int64 hs =>
      have := key hs
      simp only [List.length_append]
      omega
  | double h _ _ =>
      obtain ⟨hs, -, -, -⟩ := h
      have := key hs
      simp only [List.length_append]
      omega

variable [DoubleText]

theorem stod_append {s f e r : Bytes} (h : DoubleNumeral s f e) (hr : EndsNumeral e r) :
    stod (s ++ (f ++ (e ++ r))) =
      (DoubleText.strtod (s ++ f ++ e)).map fun d ↦ (d, (s ++ f ++ e).length) := by
  have hlen : (s ++ (f ++ (e ++ r))).length - r.length = (s ++ f ++ e).length := by
    simp only [List.length_append]
    omega
  have htake : (s ++ (f ++ (e ++ r))).take (s ++ f ++ e).length = s ++ f ++ e := by
    rw [show s ++ (f ++ (e ++ r)) = (s ++ f ++ e) ++ r by simp]
    exact List.take_left
  simp only [stod, Numeral.strtodRest_append h hr, Option.bind_eq_bind, Option.bind_some, hlen,
    htake]
  cases DoubleText.strtod (s ++ f ++ e) <;> rfl

/-- Converting a scanned double cannot fail its assertion. -/
theorem convert_double {s f e r : Bytes} (h : DoubleNumeral s f e) (hr : EndsNumeral e r) :
    convert .TYPE_DOUBLE (s ++ (f ++ (e ++ r))) r =
      match DoubleText.strtod (s ++ f ++ e) with
      | none => .throw (.PARSE_NUMBER_TOO_BIG, .double ⟨0⟩)
      | some d => .ok (.double d) := by
  have hlen : (s ++ f ++ e).length + r.length = (s ++ (f ++ (e ++ r))).length := by
    simp only [List.length_append]
    omega
  cases hd : DoubleText.strtod (s ++ f ++ e) with
  | none => simp only [convert, stod_append h hr, hd, Option.map_none, zeroOf]
  | some d =>
      simp only [convert, stod_append h hr, hd, Option.map_some, Exec.assert_of hlen, Exec.ok_bind]

theorem convert_int32 {s r : Bytes} {i : Int} (hs : IntText s i) (hr : NoDigit r) (e : Stream) :
    convert .TYPE_INT32 (s ++ r) e =
      if -2 ^ 31 ≤ i ∧ i < 2 ^ 31 then .ok (.int32 (Int32.ofInt i))
      else if -2 ^ 63 ≤ i ∧ i < 2 ^ 63 then .throw (.PARSE_NUMBER_TOO_BIG, .null)
      else .throw (.PARSE_NUMBER_TOO_BIG, .int32 0) := by
  simp only [convert, Numeral.strtol_append hs hr]
  by_cases h : -2 ^ 63 ≤ i ∧ i < 2 ^ 63
  · by_cases h' : -2 ^ 31 ≤ i ∧ i < 2 ^ 31
    · rw [if_pos h, if_pos h']
      exact if_neg (by omega)
    · rw [if_pos h, if_neg h', if_pos h]
      exact if_pos (by omega)
  · have h' : ¬ (-2 ^ 31 ≤ i ∧ i < 2 ^ 31) := by omega
    rw [if_neg h, if_neg h', if_neg h]
    rfl

theorem convert_int64 {s r : Bytes} {i : Int} (hs : IntText s i) (hr : NoDigit r) (e : Stream) :
    convert .TYPE_INT64 (s ++ r) e =
      if -2 ^ 63 ≤ i ∧ i < 2 ^ 63 then .ok (.int64 (Int64.ofInt i))
      else .throw (.PARSE_NUMBER_TOO_BIG, .int64 0) := by
  simp only [convert, Numeral.strtol_append hs hr]
  by_cases h : -2 ^ 63 ≤ i ∧ i < 2 ^ 63
  · rw [if_pos h, if_pos h]
  · rw [if_neg h, if_neg h]
    rfl

/-- A numeral without suffix, fraction or exponent is refused. -/
theorem exists_convert_null (start e : Stream) :
    ∃ err, convert .TYPE_NULL start e = .throw err := by
  simp only [convert]
  cases strtol start with
  | none => exact ⟨_, rfl⟩
  | some i => exact ⟨_, rfl⟩

theorem readsNumber_of_convert {start r : Stream} {type : ValueType} {v : Value}
    (h : Scanned start type r) (hc : convert type start r = .ok v) : ReadsNumber start v r := by
  cases h with
  | @plain s _ _ hs =>
      obtain ⟨err, he⟩ := exists_convert_null (s ++ r) r
      simp [he, Exec.throw] at hc
  | @int32 s _ i hs =>
      rw [convert_int32 hs (noDigit_i32 r)] at hc
      by_cases hi : -2 ^ 31 ≤ i ∧ i < 2 ^ 31
      · rw [if_pos hi, Except.ok.injEq] at hc
        subst hc
        exact .int32 hs hi
      · rw [if_neg hi] at hc
        split at hc <;> cases hc
  | @int64 s _ i hs =>
      rw [convert_int64 hs (noDigit_i64 r)] at hc
      by_cases hi : -2 ^ 63 ≤ i ∧ i < 2 ^ 63
      · rw [if_pos hi, Except.ok.injEq] at hc
        subst hc
        exact .int64 hs hi
      · rw [if_neg hi] at hc
        cases hc
  | @double s f e _ h hr hi =>
      rw [convert_double h hr] at hc
      cases hd : DoubleText.strtod (s ++ f ++ e) with
      | none =>
          rw [hd] at hc
          cases hc
      | some d =>
          rw [hd] at hc
          cases hc
          rw [show s ++ (f ++ (e ++ r)) = s ++ f ++ e ++ r by simp]
          exact .double h hr hi hd

/-- The numeral that is read is scanned and converted. -/
theorem exists_scanned {start r : Stream} {v : Value} (h : ReadsNumber start v r) :
    ∃ type, type ≠ .TYPE_NULL ∧ Scanned start type r ∧ convert type start r = .ok v := by
  cases h with
  | int32 hs hi =>
      refine ⟨.TYPE_INT32, by simp, .int32 hs, ?_⟩
      exact (convert_int32 hs (noDigit_i32 r) r).trans (if_pos hi)
  | int64 hs hi =>
      refine ⟨.TYPE_INT64, by simp, .int64 hs, ?_⟩
      exact (convert_int64 hs (noDigit_i64 r) r).trans (if_pos hi)
  | @double s f e _ d h hr hi hd =>
      rw [show s ++ f ++ e ++ r = s ++ (f ++ (e ++ r)) by simp]
      refine ⟨.TYPE_DOUBLE, by simp, .double h hr hi, ?_⟩
      rw [convert_double h hr, hd]

theorem convert_ne_fault {start r : Stream} {type : ValueType} (h : Scanned start type r)
    (f : Fault) : convert type start r ≠ .error (.fault f) := by
  cases h with
  | @plain s _ _ hs =>
      obtain ⟨err, he⟩ := exists_convert_null (s ++ r) r
      simp [he, Exec.throw]
  | int32 hs =>
      rw [convert_int32 hs (noDigit_i32 r)]
      split_ifs <;> simp [Exec.throw]
  | int64 hs =>
      rw [convert_int64 hs (noDigit_i64 r)]
      split_ifs <;> simp [Exec.throw]
  | double h hr hi =>
      rw [convert_double h hr]
      split <;> simp [Exec.throw]

/-- `parseNumber` reads exactly the numerals in range. -/
theorem parseNumber_eq_ok {start r : Stream} {v : Value} :
    parseNumber start = .ok (v, r) ↔ ReadsNumber start v r := by
  constructor
  · intro h
    simp only [parseNumber, Exec.bind_eq_ok, Prod.exists] at h
    obtain ⟨is₁, h₁, frac, is₂, h₂, exp, is₃, h₃, type, is₄, h₄, h⟩ := h
    have hscan := scanned_of_scan h₁ h₂ h₃ h₄
    by_cases hlen : is₄.length = start.length
    · simp [hlen, invalidValue, Exec.throw] at h
    · simp only [hlen, if_false, Exec.bind_eq_ok, Except.ok.injEq, Prod.mk.injEq] at h
      obtain ⟨v', hv, rfl, rfl⟩ := h
      exact readsNumber_of_convert hscan hv
  · intro h
    obtain ⟨type, ht, hscan, hv⟩ := exists_scanned h
    obtain ⟨is₁, is₂, is₃, frac, exp, h₁, h₂, h₃, h₄⟩ := hscan.scan ht
    have hlen : r.length ≠ start.length := ne_of_lt hscan.length_lt
    simp [parseNumber, h₁, h₂, h₃, h₄, hlen, hv]

theorem parseNumber_ne_fault (start : Stream) (f : Fault) :
    parseNumber start ≠ .error (.fault f) := by
  intro h
  simp only [parseNumber, Exec.bind_eq_error, Prod.exists] at h
  rcases h with h | ⟨is₁, h₁, h⟩
  · exact scanInteger_ne_fault _ _ h
  rcases h with h | ⟨frac, is₂, h₂, h⟩
  · exact scanFraction_ne_fault _ _ h
  rcases h with h | ⟨exp, is₃, h₃, h⟩
  · exact scanExponent_ne_fault _ _ h
  rcases h with h | ⟨type, is₄, h₄, h⟩
  · exact scanSuffix_ne_fault _ _ _ h
  have hscan := scanned_of_scan h₁ h₂ h₃ h₄
  split at h
  · simp [invalidValue, Exec.throw] at h
  · rcases Exec.bind_eq_error.mp h with h | ⟨v, -, h⟩
    · exact convert_ne_fault hscan _ h
    · simp at h

/-- A numeral begins with a sign or a digit. -/
theorem ReadsNumber.exists_cons {s r : Stream} {v : Value} (h : ReadsNumber s v r) :
    ∃ c t, s = c :: t ∧ (c = 0x2d ∨ Numeral.isDigit c) := by
  cases h with
  | int32 hs _ =>
      obtain ⟨c, ds, rfl, hc⟩ := hs.exists_cons
      exact ⟨c, _, rfl, hc⟩
  | int64 hs _ =>
      obtain ⟨c, ds, rfl, hc⟩ := hs.exists_cons
      exact ⟨c, _, rfl, hc⟩
  | double h _ _ _ =>
      obtain ⟨hs, -, -, -⟩ := h
      obtain ⟨c, ds, rfl, hc⟩ := hs.exists_cons
      exact ⟨c, _, rfl, hc⟩

end RpcLearning.Json.Reader
