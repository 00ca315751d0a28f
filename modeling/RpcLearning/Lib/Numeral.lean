import Mathlib

/-!
# Numerals as byte strings

Decimal numerals over ASCII bytes, in both directions, and the part of the text that the C
functions `strtol` and `strtod` take for a number.
-/

namespace RpcLearning.Numeral

def isDigit (c : UInt8) : Bool := 0x30 ≤ c && c ≤ 0x39

def isDigit19 (c : UInt8) : Bool := 0x31 ≤ c && c ≤ 0x39

theorem isDigit_of_isDigit19 {c : UInt8} (h : isDigit19 c) : isDigit c := by
  simp only [isDigit19, isDigit, Bool.and_eq_true, decide_eq_true_eq, UInt8.le_iff_toNat_le] at *
  exact ⟨le_trans (by decide) h.1, h.2⟩

theorem isDigit19_of_isDigit {c : UInt8} (h : isDigit c) (h0 : c ≠ 0x30) : isDigit19 c := by
  simp only [isDigit, isDigit19, Bool.and_eq_true, decide_eq_true_eq, UInt8.le_iff_toNat_le] at *
  have hne : c.toNat ≠ (0x30 : UInt8).toNat := fun he ↦ h0 (UInt8.toNat_inj.mp he)
  have h30 : (0x30 : UInt8).toNat = 48 := rfl
  have h31 : (0x31 : UInt8).toNat = 49 := rfl
  omega

/-- Move past the digits at the front. -/
def skipDigits (s : List UInt8) : List UInt8 := s.dropWhile isDigit

/-- No digit comes first. -/
def NoDigit (s : List UInt8) : Prop := ∀ c ∈ s.head?, isDigit c = false

@[simp] theorem noDigit_nil : NoDigit [] := by simp [NoDigit]

@[simp] theorem noDigit_cons {c : UInt8} {s : List UInt8} :
    NoDigit (c :: s) ↔ isDigit c = false := by
  simp [NoDigit]

theorem noDigit_skipDigits (s : List UInt8) : NoDigit (skipDigits s) := by
  intro c hc
  have h := List.head?_dropWhile_not isDigit s
  simp only [skipDigits] at hc
  simpa [Option.mem_def.mp hc] using h

theorem skipDigits_of_noDigit {s : List UInt8} (h : NoDigit s) : skipDigits s = s := by
  cases s with
  | nil => rfl
  | cons c t => simp [skipDigits, noDigit_cons.mp h]

/-- A run of digits is skipped exactly, up to something that is not a digit. -/
theorem skipDigits_append {ds s : List UInt8} (hd : ∀ c ∈ ds, isDigit c) (hs : NoDigit s) :
    skipDigits (ds ++ s) = s := by
  rw [skipDigits, List.dropWhile_append_of_pos hd]
  exact skipDigits_of_noDigit hs

/-- What is skipped is a run of digits. -/
theorem exists_skipDigits (s : List UInt8) :
    ∃ ds, (∀ c ∈ ds, isDigit c) ∧ s = ds ++ skipDigits s :=
  ⟨s.takeWhile isDigit, fun _ hc ↦ List.mem_takeWhile_imp hc,
    List.takeWhile_append_dropWhile.symm⟩

/-! ## Natural numbers -/

def digitValue (c : UInt8) : Nat := c.toNat - 0x30

/-- The number a run of digits denotes. -/
def decimal (s : List UInt8) : Nat := s.foldl (fun n c ↦ 10 * n + digitValue c) 0

def digitByte (d : Nat) : UInt8 := UInt8.ofNat (0x30 + d)

/-- The shortest numeral of a number. -/
def toDecimal (n : Nat) : List UInt8 :=
  if n = 0 then [0x30] else ((Nat.digits 10 n).map digitByte).reverse

theorem toNat_digitByte {d : Nat} (h : d < 10) : (digitByte d).toNat = 0x30 + d := by
  rw [digitByte, UInt8.toNat_ofNat']
  omega

theorem digitByte_facts (d : Nat) (h : d < 10) :
    isDigit (digitByte d) ∧ digitValue (digitByte d) = d ∧
      (d ≠ 0 → isDigit19 (digitByte d)) := by
  have h30 : (0x30 : UInt8).toNat = 48 := rfl
  have h31 : (0x31 : UInt8).toNat = 49 := rfl
  have h39 : (0x39 : UInt8).toNat = 57 := rfl
  simp only [isDigit, isDigit19, digitValue, Bool.and_eq_true, decide_eq_true_eq,
    UInt8.le_iff_toNat_le, toNat_digitByte h]
  omega

/-- A numeral without superfluous zeros. -/
inductive NatText : List UInt8 → Prop
  | zero : NatText [0x30]
  | digits {c : UInt8} {ds : List UInt8} (hc : isDigit19 c) (hd : ∀ d ∈ ds, isDigit d) :
      NatText (c :: ds)

theorem NatText.isDigit {s : List UInt8} (h : NatText s) : ∀ c ∈ s, isDigit c := by
  cases h with
  | zero => simp [Numeral.isDigit]
  | digits hc hd =>
      intro c h
      rcases List.mem_cons.mp h with rfl | h
      · exact isDigit_of_isDigit19 hc
      · exact hd c h

theorem NatText.exists_cons {s : List UInt8} (h : NatText s) :
    ∃ c ds, s = c :: ds ∧ Numeral.isDigit c := by
  cases h with
  | zero => exact ⟨0x30, [], rfl, by decide⟩
  | @digits c ds hc hd => exact ⟨c, ds, rfl, isDigit_of_isDigit19 hc⟩

theorem natText_toDecimal (n : Nat) : NatText (toDecimal n) := by
  unfold toDecimal
  split
  · exact .zero
  · rename_i hn
    have hne : Nat.digits 10 n ≠ [] := Nat.digits_ne_nil_iff_ne_zero.mpr hn
    have hlast := Nat.getLast_digit_ne_zero 10 hn
    obtain ⟨l, d, hl⟩ := List.eq_nil_or_concat (Nat.digits 10 n) |>.resolve_left hne
    have hlt : ∀ e ∈ l.concat d, e < 10 := fun e he ↦
      Nat.digits_lt_base (by decide) (hl ▸ he)
    have hd : d ≠ 0 := by
      simp only [hl, List.getLast_concat, List.concat_eq_append] at hlast
      simpa using hlast
    rw [hl]
    simp only [List.concat_eq_append, List.map_append, List.map_cons, List.map_nil,
      List.reverse_append, List.reverse_cons, List.reverse_nil, List.nil_append, List.cons_append]
    refine .digits ((digitByte_facts d (hlt d (by simp))).2.2 hd) ?_
    intro c hc
    obtain ⟨e, he, rfl⟩ := List.mem_map.mp (List.mem_reverse.mp hc)
    exact (digitByte_facts e (hlt e (by simp [he]))).1

theorem decimal_reverse_map (ds : List Nat) (h : ∀ d ∈ ds, d < 10) :
    decimal (ds.map digitByte).reverse = Nat.ofDigits 10 ds := by
  induction ds with
  | nil => rfl
  | cons d ds ih =>
      have ih' := ih fun e he ↦ h e (List.mem_cons_of_mem _ he)
      simp only [decimal] at ih' ⊢
      simp only [List.map_cons, List.reverse_cons, List.foldl_append, List.foldl_cons,
        List.foldl_nil, Nat.ofDigits_cons, ih', (digitByte_facts d (h d (by simp))).2.1]
      ring

/-- Reading a number's numeral gives the number back. -/
@[simp] theorem decimal_toDecimal (n : Nat) : decimal (toDecimal n) = n := by
  unfold toDecimal
  split
  · rename_i hn
    subst hn
    rfl
  · rw [decimal_reverse_map _ fun d hd ↦ Nat.digits_lt_base (by decide) hd]
    exact Nat.ofDigits_digits 10 n

/-! ## Integers -/

/-- A numeral with an optional minus sign, and the integer it denotes. -/
inductive IntText : List UInt8 → Int → Prop
  | nonneg {s : List UInt8} (h : NatText s) : IntText s (decimal s)
  | neg {s : List UInt8} (h : NatText s) : IntText (0x2d :: s) (-(decimal s))

/-- `std::to_string` of an integer. -/
def to_string (i : Int) : List UInt8 :=
  if i < 0 then 0x2d :: toDecimal i.natAbs else toDecimal i.natAbs

theorem intText_to_string (i : Int) : IntText (to_string i) i := by
  unfold to_string
  split
  · have h := IntText.neg (natText_toDecimal i.natAbs)
    rwa [decimal_toDecimal, show -(i.natAbs : Int) = i by omega] at h
  · have h := IntText.nonneg (natText_toDecimal i.natAbs)
    rwa [decimal_toDecimal, show (i.natAbs : Int) = i by omega] at h

theorem to_string_natCast (n : Nat) : to_string n = toDecimal n := by
  simp [to_string]

/-- A numeral is a sign or a digit, followed by digits. -/
theorem IntText.exists_cons {s : List UInt8} {i : Int} (h : IntText s i) :
    ∃ c ds, s = c :: ds ∧ (c = 0x2d ∨ isDigit c) := by
  cases h with
  | nonneg h =>
      obtain ⟨c, ds, rfl, hc⟩ := h.exists_cons
      exact ⟨c, ds, rfl, .inr hc⟩
  | neg h => exact ⟨_, _, rfl, .inl rfl⟩

/-! ## Numerals with a fraction or an exponent -/

/-- One digit or more. -/
def Digits (ds : List UInt8) : Prop := ds ≠ [] ∧ ∀ c ∈ ds, isDigit c

theorem Digits.exists_cons {ds : List UInt8} (h : Digits ds) :
    ∃ c cs, ds = c :: cs ∧ isDigit c := by
  obtain ⟨hne, hd⟩ := h
  cases ds with
  | nil => exact absurd rfl hne
  | cons c cs => exact ⟨c, cs, rfl, hd c (by simp)⟩

inductive FractionText : List UInt8 → Prop
  | absent : FractionText []
  | present {ds : List UInt8} (h : Digits ds) : FractionText (0x2e :: ds)

inductive SignText : List UInt8 → Prop
  | absent : SignText []
  | plus : SignText [0x2b]
  | minus : SignText [0x2d]

inductive ExponentText : List UInt8 → Prop
  | absent : ExponentText []
  | present {c : UInt8} {s ds : List UInt8} (hc : c = 0x65 ∨ c = 0x45) (hs : SignText s)
      (hd : Digits ds) : ExponentText (c :: (s ++ ds))

/-- An integer numeral with a fraction, an exponent, or both. -/
inductive DoubleNumeral : List UInt8 → List UInt8 → List UInt8 → Prop
  | mk {s f e : List UInt8} {i : Int} (hs : IntText s i) (hf : FractionText f)
      (he : ExponentText e) (h : f ≠ [] ∨ e ≠ []) : DoubleNumeral s f e

/-- What may follow a numeral with exponent `e`: nothing that would continue it. -/
structure EndsNumeral (e r : List UInt8) : Prop where
  noDigit : NoDigit r
  noExponent : e = [] → ∀ c ∈ r.head?, c ≠ 0x65 ∧ c ≠ 0x45

/-! ## The subject sequences of the C library -/

def isspace (c : UInt8) : Bool := c == 0x20 || (0x09 ≤ c && c ≤ 0x0d)

/-- The optional sign, and what follows it. -/
def takeSign : List UInt8 → Bool × List UInt8
  | 0x2d :: s => (true, s)
  | 0x2b :: s => (false, s)
  | s => (false, s)

/-- `strtol` in base 10 for a 64-bit `long`: nothing when no digit is found or the number is out
of range. -/
def strtol (s : List UInt8) : Option Int :=
  let (neg, s) := takeSign (s.dropWhile isspace)
  let ds := s.takeWhile isDigit
  let i : Int := if neg then -(decimal ds) else decimal ds
  if ds = [] then none
  else if -2 ^ 63 ≤ i ∧ i < 2 ^ 63 then some i else none

def isHexDigit (c : UInt8) : Bool :=
  isDigit c || (0x41 ≤ c && c ≤ 0x46) || (0x61 ≤ c && c ≤ 0x66)

/-- An exponent, when a digit follows its optional sign. -/
def skipExponent (isExp : UInt8 → Bool) : List UInt8 → List UInt8
  | [] => []
  | c :: s =>
    let t := (takeSign s).2
    if isExp c ∧ (t.head?.any isDigit) then skipDigits t else c :: s

/-- Digits with an optional point, then an optional exponent: what is left after them, if there
was a digit. -/
def skipFloat (digit isExp : UInt8 → Bool) (s : List UInt8) : Option (List UInt8) :=
  let r := s.dropWhile digit
  match r with
  | 0x2e :: t =>
    if r.length = s.length ∧ (t.dropWhile digit).length = t.length then none
    else some (skipExponent isExp (t.dropWhile digit))
  | r => if r.length = s.length then none else some (skipExponent isExp r)

/-- `s` without `word`, whose letters count in either case; `word` is given in lower case. -/
def skipWord (word s : List UInt8) : Option (List UInt8) :=
  if word.length ≤ s.length ∧ (s.take word.length).map (· ||| 0x20) = word
  then some (s.drop word.length) else none

/-- The characters of `nan(...)`. -/
def skipNanTail (s : List UInt8) : List UInt8 :=
  match s with
  | 0x28 :: t =>
    match t.dropWhile (fun c ↦ isHexDigit c || (0x41 ≤ c && c ≤ 0x5a) || (0x61 ≤ c && c ≤ 0x7a) ||
      c == 0x5f) with
    | 0x29 :: u => u
    | _ => s
  | s => s

/-- What `strtod` leaves unread, if it finds a number at all. -/
def strtodRest (s : List UInt8) : Option (List UInt8) :=
  let s := (takeSign (s.dropWhile isspace)).2
  let hex : Option (List UInt8) :=
    match s with
    | 0x30 :: x :: t =>
      if x = 0x78 ∨ x = 0x58 then skipFloat isHexDigit (fun c ↦ c == 0x70 || c == 0x50) t else none
    | _ => none
  hex <|> skipFloat isDigit (fun c ↦ c == 0x65 || c == 0x45) s
    <|> skipWord [0x69, 0x6e, 0x66, 0x69, 0x6e, 0x69, 0x74, 0x79] s
    <|> skipWord [0x69, 0x6e, 0x66] s
    <|> (skipWord [0x6e, 0x61, 0x6e] s).map skipNanTail

theorem takeSign_of_isDigit {c : UInt8} (hc : isDigit c) (s : List UInt8) :
    takeSign (c :: s) = (false, c :: s) := by
  have h1 : c ≠ 0x2d := by
    rintro rfl
    exact absurd hc (by decide)
  have h2 : c ≠ 0x2b := by
    rintro rfl
    exact absurd hc (by decide)
  simp [takeSign, h1, h2]

theorem isspace_of_isDigit {c : UInt8} (hc : isDigit c) : isspace c = false := by
  simp only [isDigit, isspace, Bool.and_eq_true, decide_eq_true_eq, UInt8.le_iff_toNat_le,
    Bool.or_eq_false_iff, beq_eq_false_iff_ne, ne_eq, Bool.and_eq_false_iff,
    decide_eq_false_iff_not] at *
  have h30 : (0x30 : UInt8).toNat = 48 := rfl
  have h0d : (0x0d : UInt8).toNat = 13 := rfl
  refine ⟨?_, .inr (by omega)⟩
  rintro rfl
  exact absurd hc.1 (by decide)

/-- The sign in front of a natural numeral, as the C functions split it off. -/
theorem IntText.takeSign {s : List UInt8} {i : Int} (hs : IntText s i) (r : List UInt8) :
    ∃ neg t, takeSign ((s ++ r).dropWhile isspace) = (neg, t ++ r) ∧ NatText t ∧
      i = if neg then -(decimal t : Int) else decimal t := by
  cases hs with
  | nonneg h =>
      obtain ⟨c, ds, rfl, hc⟩ := h.exists_cons
      refine ⟨false, c :: ds, ?_, h, rfl⟩
      rw [List.cons_append, List.dropWhile_cons_of_neg (by simp [isspace_of_isDigit hc]),
        takeSign_of_isDigit hc]
  | @neg t h => exact ⟨true, t, rfl, h, rfl⟩

/-- `strtol` converts exactly the numeral it finds, when the number is in range. -/
theorem strtol_append {s : List UInt8} {i : Int} (hs : IntText s i) {r : List UInt8}
    (hr : NoDigit r) :
    strtol (s ++ r) = if -2 ^ 63 ≤ i ∧ i < 2 ^ 63 then some i else none := by
  obtain ⟨neg, t, hsign, ht, rfl⟩ := hs.takeSign r
  have htake : (t ++ r).takeWhile isDigit = t := by
    rw [List.takeWhile_append_of_pos ht.isDigit]
    cases r with
    | nil => simp
    | cons c r => simp [noDigit_cons.mp hr]
  have hne : t ≠ [] := by
    obtain ⟨c, ds, rfl, -⟩ := ht.exists_cons
    simp
  simp only [strtol, hsign, htake, hne, if_false]

theorem skipExponent_absent {isExp : UInt8 → Bool} {r : List UInt8}
    (h : ∀ c ∈ r.head?, isExp c = false) : skipExponent isExp r = r := by
  cases r with
  | nil => rfl
  | cons c r => simp [skipExponent, h c (by simp)]

theorem skipExponent_append {e r : List UInt8} (he : ExponentText e) (hr : EndsNumeral e r) :
    skipExponent (fun c ↦ c == 0x65 || c == 0x45) (e ++ r) = r := by
  cases he with
  | absent =>
      refine skipExponent_absent fun c hc ↦ ?_
      simpa using hr.noExponent rfl c hc
  | @present c s ds hc hs hd =>
      obtain ⟨d, cs, rfl, hdig⟩ := hd.exists_cons
      have ht : (Numeral.takeSign (s ++ (d :: cs ++ r))).2 = d :: cs ++ r := by
        cases hs with
        | absent => simp [takeSign_of_isDigit hdig]
        | plus => rfl
        | minus => rfl
      have hskip := skipDigits_append hd.2 hr.noDigit
      simp only [List.cons_append, List.append_assoc] at ht hskip ⊢
      rcases hc with rfl | rfl <;> simp [skipExponent, ht, hdig, hskip]

theorem skipFloat_append {t f e r : List UInt8} (ht : NatText t) (hf : FractionText f)
    (he : ExponentText e) (h : f ≠ [] ∨ e ≠ []) (hr : EndsNumeral e r) :
    skipFloat isDigit (fun c ↦ c == 0x65 || c == 0x45) (t ++ (f ++ (e ++ r))) = some r := by
  have hexp := skipExponent_append he hr
  have hend : NoDigit (e ++ r) := by
    cases he with
    | absent => exact hr.noDigit
    | present hc _ _ => rcases hc with rfl | rfl <;> exact noDigit_cons.mpr (by decide)
  cases hf with
  | absent =>
      have hskip : (t ++ (e ++ r)).dropWhile isDigit = e ++ r := skipDigits_append ht.isDigit hend
      have hlen : t.length ≠ 0 := by
        obtain ⟨c, ds, rfl, -⟩ := ht.exists_cons
        simp
      simp only [skipFloat, List.nil_append, hskip]
      cases he with
      | absent => simp at h
      | present hc _ _ =>
          split
          · rename_i u hu
            obtain ⟨rfl, -⟩ := List.cons.inj hu
            rcases hc with hc | hc <;> exact absurd hc (by decide)
          · rw [if_neg (by simp [hlen]), hexp]
  | @present ds hd =>
      have hdot : NoDigit (0x2e :: (ds ++ (e ++ r))) := noDigit_cons.mpr (by decide)
      have hskip : (t ++ 0x2e :: (ds ++ (e ++ r))).dropWhile isDigit = 0x2e :: (ds ++ (e ++ r)) :=
        skipDigits_append ht.isDigit hdot
      have hskip' : (ds ++ (e ++ r)).dropWhile isDigit = e ++ r := skipDigits_append hd.2 hend
      have hlen : ds.length ≠ 0 := fun hc ↦ hd.1 (List.length_eq_zero_iff.mp hc)
      simp only [skipFloat, List.cons_append, hskip, hskip']
      rw [if_neg (by simp [hlen]), hexp]

/-- `strtod` stops exactly at the end of a decimal numeral. -/
theorem strtodRest_append {s f e r : List UInt8} (h : DoubleNumeral s f e)
    (hr : EndsNumeral e r) : strtodRest (s ++ (f ++ (e ++ r))) = some r := by
  obtain ⟨hs, hf, he, hne⟩ := h
  obtain ⟨neg, t, hsign, ht, -⟩ := hs.takeSign (f ++ (e ++ r))
  have hfloat := skipFloat_append ht hf he hne hr
  have hx : ∀ x u, f ++ (e ++ r) = x :: u → ¬ (x = 0x78 ∨ x = 0x58) := by
    intro x u hu
    cases hf with
    | present hd =>
        obtain ⟨rfl, -⟩ := List.cons.inj hu
        decide
    | absent =>
        cases he with
        | absent => simp at hne
        | present hc _ _ =>
            obtain ⟨rfl, -⟩ := List.cons.inj hu
            rcases hc with rfl | rfl <;> decide
  simp only [strtodRest, hsign, hfloat]
  cases ht with
  | zero =>
      cases hfe : f ++ (e ++ r) with
      | nil => simp
      | cons x u => simp [hx x u hfe]
  | @digits c ds hc hd =>
      have h0 : c ≠ 0x30 := by
        rintro rfl
        exact absurd hc (by decide)
      cases hfe : ds ++ (f ++ (e ++ r)) with
      | nil => simp [hfe]
      | cons x u => simp [hfe, h0]

end RpcLearning.Numeral
