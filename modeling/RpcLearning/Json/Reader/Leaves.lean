import RpcLearning.Json.Reads

/-!
# What the reader's leaves accept

Whitespace, literals, numbers and strings: for each scanning function, the texts on which it
returns and what it leaves, and the fact that it never faults.
-/

namespace RpcLearning.Json.Reader

open Numeral (isDigit isDigit19 skipDigits NoDigit NatText IntText Digits FractionText SignText
  ExponentText DoubleNumeral EndsNumeral strtol strtodRest)

/-! ## Whitespace -/

/-- No whitespace comes first. -/
def NoWs (is : Stream) : Prop := ∀ c ∈ is.head?, isWhitespace c = false

@[simp] theorem noWs_nil : NoWs [] := by simp [NoWs]

@[simp] theorem noWs_cons {c : UInt8} {is : Stream} :
    NoWs (c :: is) ↔ isWhitespace c = false := by
  simp [NoWs]

theorem noWs_of_front_ne {is : Stream} (h20 : is.front ≠ 0x20) (h09 : is.front ≠ 0x09)
    (h0d : is.front ≠ 0x0d) (h0a : is.front ≠ 0x0a) : NoWs is := by
  cases is with
  | nil => exact noWs_nil
  | cons c t =>
      simp only [Stream.front_cons] at h20 h09 h0d h0a
      simp [isWhitespace, h20, h09, h0d, h0a]

theorem parseWhitespace_of_noWs {is : Stream} (h : NoWs is) : parseWhitespace is = is := by
  cases is with
  | nil => rfl
  | cons c t => simp [parseWhitespace, noWs_cons.mp h]

/-- Whitespace in front of anything is passed over. -/
theorem parseWhitespace_append {w : Bytes} (hw : Ws w) (is : Stream) :
    parseWhitespace (w ++ is) = parseWhitespace is := by
  induction w with
  | nil => rfl
  | cons c w ih =>
      obtain ⟨hc, hw⟩ := ws_cons.mp hw
      simp [parseWhitespace, hc, ih hw]

/-- What is passed over is whitespace, and what is left does not begin with any. -/
theorem exists_parseWhitespace (is : Stream) :
    ∃ w, Ws w ∧ is = w ++ parseWhitespace is ∧ NoWs (parseWhitespace is) := by
  induction is with
  | nil => exact ⟨[], by simp, rfl, by simp [parseWhitespace]⟩
  | cons c is ih =>
      by_cases hc : isWhitespace c
      · obtain ⟨w, hw, he, hn⟩ := ih
        refine ⟨c :: w, ws_cons.mpr ⟨hc, hw⟩, ?_, ?_⟩
        · simp only [parseWhitespace, hc, if_true, List.cons_append]
          exact congrArg (c :: ·) he
        · simpa [parseWhitespace, hc] using hn
      · have hc' : isWhitespace c = false := by simpa using hc
        exact ⟨[], by simp, by simp [parseWhitespace, hc'], by simp [parseWhitespace, hc']⟩

theorem length_parseWhitespace_le (is : Stream) : (parseWhitespace is).length ≤ is.length := by
  obtain ⟨w, -, he, -⟩ := exists_parseWhitespace is
  have h := congrArg List.length he
  rw [List.length_append] at h
  omega

/-! ## Literals -/

theorem matchLiteral_eq_ok {literal : Bytes} (h0 : ∀ l ∈ literal, l ≠ 0) {is r : Stream} :
    matchLiteral literal is = .ok ([], r) ↔ is = literal ++ r := by
  induction literal generalizing is with
  | nil => simp [matchLiteral]
  | cons l literal ih =>
      have hl : l ≠ 0 := h0 l (by simp)
      have ih' : matchLiteral literal is.tail = .ok ([], r) ↔ is.tail = literal ++ r :=
        ih fun x hx ↦ h0 x (by simp [hx])
      cases is with
      | nil => simp [matchLiteral, hl]
      | cons c t =>
          by_cases hc : l = c
          · subst hc
            simpa [matchLiteral] using ih'
          · simp [matchLiteral, hc, Ne.symm hc]

theorem exists_matchLiteral {literal : Bytes} (h0 : ∀ l ∈ literal, l ≠ 0) (is : Stream) :
    ∃ p, matchLiteral literal is = .ok p := by
  induction literal generalizing is with
  | nil => exact ⟨_, rfl⟩
  | cons l literal ih =>
      have hl : l ≠ 0 := h0 l (by simp)
      cases is with
      | nil => exact ⟨(l :: literal, []), by simp [matchLiteral, hl]⟩
      | cons c t =>
          by_cases hc : l = c
          · subst hc
            obtain ⟨p, hp⟩ := ih (fun x hx ↦ h0 x (by simp [hx])) t
            exact ⟨p, by simp [matchLiteral, hp]⟩
          · exact ⟨(l :: literal, c :: t), by simp [matchLiteral, hc]⟩

/-- The value `parseLiteral` stores. -/
def literalValue (c : UInt8) : ValueType → Value
  | .TYPE_BOOL => .bool (c ≠ 0x66)
  | _ => .null

/-- `parseLiteral` accepts its literal and nothing else. -/
theorem parseLiteral_eq_ok {c : UInt8} {literal : Bytes} {type : ValueType} {t r : Stream}
    {v : Value} (h0 : ∀ l ∈ literal, l ≠ 0) :
    parseLiteral (c :: t) (c :: literal) type = .ok (v, r) ↔
      t = literal ++ r ∧ v = literalValue c type := by
  obtain ⟨⟨rest, is⟩, hp⟩ := exists_matchLiteral h0 t
  have hm : matchLiteral literal t = .ok ([], r) ↔ t = literal ++ r := matchLiteral_eq_ok h0
  rw [hp] at hm
  cases rest with
  | nil =>
      simp only [Except.ok.injEq, Prod.mk.injEq, true_and] at hm
      cases type <;>
        simp [parseLiteral, hp, literalValue, hm.symm, and_comm, eq_comm]
  | cons l rest =>
      have hne : t ≠ literal ++ r := fun h ↦ by simpa using hm.mpr h
      simp [parseLiteral, hp, hne, Exec.throw]

theorem parseLiteral_ne_fault {c : UInt8} {literal : Bytes} {type : ValueType} {t : Stream}
    (h0 : ∀ l ∈ literal, l ≠ 0) (f : Fault) :
    parseLiteral (c :: t) (c :: literal) type ≠ .error (.fault f) := by
  obtain ⟨⟨rest, is⟩, hp⟩ := exists_matchLiteral h0 t
  cases rest with
  | nil => cases type <;> simp [parseLiteral, hp]
  | cons l rest => simp [parseLiteral, hp, Exec.throw]

/-! ## Numbers -/

/-- A pure check that either goes on or leaves with an error code. -/
theorem invalidValue_ne_ok {α : Type} {a : α} : (invalidValue : Parse α) ≠ .ok a := by
  simp [invalidValue, Exec.throw]

theorem scanDigits_eq_ok {is r : Stream} :
    scanDigits is = .ok r ↔ ∃ ds, Digits ds ∧ is = ds ++ r ∧ NoDigit r := by
  constructor
  · intro h
    cases is with
    | nil => exact absurd h (by simp [scanDigits, isDigit, invalidValue_ne_ok])
    | cons c t =>
        by_cases hc : isDigit c
        · simp only [scanDigits, Stream.front_cons, hc, if_true, Stream.pop_cons, Exec.ok_bind,
            Except.ok.injEq] at h
          obtain ⟨ds, hds, he⟩ := Numeral.exists_skipDigits t
          rw [h] at he
          refine ⟨c :: ds, ⟨by simp, ?_⟩, by simp [he], h ▸ Numeral.noDigit_skipDigits t⟩
          intro d hd
          rcases List.mem_cons.mp hd with rfl | hd
          · exact hc
          · exact hds d hd
        · exact absurd h (by simp [scanDigits, hc, invalidValue_ne_ok])
  · rintro ⟨ds, ⟨hne, hds⟩, rfl, hr⟩
    cases ds with
    | nil => exact absurd rfl hne
    | cons c ds =>
        have hc : isDigit c := hds c (by simp)
        have hds' : ∀ d ∈ ds, isDigit d := fun d hd ↦ hds d (by simp [hd])
        simp [scanDigits, hc, Numeral.skipDigits_append hds' hr]

theorem scanDigits_ne_fault {is : Stream} (f : Fault) :
    scanDigits is ≠ .error (.fault f) := by
  cases is with
  | nil => simp [scanDigits, isDigit, invalidValue, Exec.throw]
  | cons c t => by_cases hc : isDigit c <;> simp [scanDigits, hc, invalidValue, Exec.throw]

theorem exists_of_scanNatural {is r : Stream} (h : scanNatural is = .ok r) :
    ∃ s, NatText s ∧ is = s ++ r := by
  cases is with
  | nil => exact absurd h (by simp [scanNatural, isDigit19, invalidValue_ne_ok])
  | cons c t =>
      by_cases h0 : c = 0x30
      · subst h0
        simp only [scanNatural, Stream.front_cons, if_true, Stream.pop_cons,
          Except.ok.injEq] at h
        exact ⟨[0x30], .zero, by simp [h]⟩
      · by_cases h19 : isDigit19 c
        · simp only [scanNatural, Stream.front_cons, h0, if_false, h19, if_true,
            Except.ok.injEq] at h
          obtain ⟨ds, hds, he⟩ := Numeral.exists_skipDigits t
          rw [skipDigits, List.dropWhile_cons_of_pos (Numeral.isDigit_of_isDigit19 h19)] at h
          rw [skipDigits, h] at he
          exact ⟨c :: ds, .digits h19 hds, by simp [he]⟩
        · exact absurd h (by simp [scanNatural, h0, h19, invalidValue_ne_ok])

theorem scanNatural_append {s : Bytes} (hs : NatText s) {r : Stream} (hr : NoDigit r) :
    scanNatural (s ++ r) = .ok r := by
  have hskip := Numeral.skipDigits_append hs.isDigit hr
  cases hs with
  | zero => simp [scanNatural]
  | @digits c ds hc hd =>
      have h0 : c ≠ 0x30 := by
        rintro rfl
        exact absurd hc (by decide)
      simp only [List.cons_append] at hskip ⊢
      simp [scanNatural, h0, hc, hskip]

theorem scanNatural_ne_fault (is : Stream) (f : Fault) :
    scanNatural is ≠ .error (.fault f) := by
  cases is with
  | nil => simp [scanNatural, isDigit19, invalidValue, Exec.throw]
  | cons c t =>
      by_cases h0 : c = 0x30 <;> by_cases h19 : isDigit19 c <;>
        simp [scanNatural, h0, h19, invalidValue, Exec.throw]

/-- The sign and digits at the front form an integer numeral. -/
theorem exists_of_scanInteger {is r : Stream} (h : scanInteger is = .ok r) :
    ∃ s i, IntText s i ∧ is = s ++ r := by
  unfold scanInteger at h
  by_cases hneg : is.front = 0x2d
  · obtain ⟨t, rfl⟩ := Stream.eq_cons_of_front hneg (by decide)
    simp only [Stream.front_cons, if_true, Stream.pop_cons, Exec.ok_bind] at h
    obtain ⟨s, hs, rfl⟩ := exists_of_scanNatural h
    exact ⟨0x2d :: s, _, .neg hs, rfl⟩
  · simp only [hneg, if_false, Exec.ok_bind] at h
    obtain ⟨s, hs, rfl⟩ := exists_of_scanNatural h
    exact ⟨s, _, .nonneg hs, rfl⟩

/-- An integer numeral that no digit follows is scanned exactly. -/
theorem scanInteger_append {s : Bytes} {i : Int} (hs : IntText s i) {r : Stream}
    (hr : NoDigit r) : scanInteger (s ++ r) = .ok r := by
  unfold scanInteger
  cases hs with
  | nonneg hs =>
      obtain ⟨c, ds, rfl, hc⟩ := hs.exists_cons
      have hneg : c ≠ 0x2d := by
        rintro rfl
        exact absurd hc (by decide)
      simpa [hneg] using scanNatural_append hs hr
  | neg hs => simpa using scanNatural_append hs hr

theorem scanInteger_ne_fault (is : Stream) (f : Fault) :
    scanInteger is ≠ .error (.fault f) := by
  unfold scanInteger
  cases is with
  | nil => simpa using scanNatural_ne_fault [] f
  | cons c t =>
      by_cases hc : c = 0x2d
      · simpa [hc] using scanNatural_ne_fault t f
      · simpa [hc] using scanNatural_ne_fault (c :: t) f

theorem scanFraction_eq_ok {is r : Stream} {b : Bool} :
    scanFraction is = .ok (b, r) ↔
      (b = false ∧ r = is ∧ is.front ≠ 0x2e) ∨
      (b = true ∧ NoDigit r ∧ ∃ ds, Digits ds ∧ is = 0x2e :: (ds ++ r)) := by
  by_cases h : is.front = 0x2e
  · obtain ⟨t, rfl⟩ := Stream.eq_cons_of_front h (by decide)
    simp only [scanFraction, Stream.front_cons, if_true, Stream.pop_cons, Exec.ok_bind,
      Exec.bind_eq_ok, scanDigits_eq_ok, Except.ok.injEq, Prod.mk.injEq, ne_eq, not_true_eq_false,
      and_false, false_or, List.cons.injEq, true_and]
    constructor
    · rintro ⟨t', ⟨ds, hds, rfl, hr⟩, rfl, rfl⟩
      exact ⟨rfl, hr, ds, hds, rfl⟩
    · rintro ⟨rfl, hr, ds, hds, rfl⟩
      exact ⟨r, ⟨ds, hds, rfl, hr⟩, rfl, rfl⟩
  · simp only [scanFraction, h, if_false, Except.ok.injEq, Prod.mk.injEq, ne_eq,
      not_false_eq_true, and_true]
    constructor
    · rintro ⟨rfl, rfl⟩
      exact .inl ⟨rfl, rfl⟩
    · rintro (⟨rfl, rfl⟩ | ⟨-, -, ds, -, rfl⟩)
      · exact ⟨rfl, rfl⟩
      · exact absurd rfl h

theorem scanFraction_ne_fault (is : Stream) (f : Fault) :
    scanFraction is ≠ .error (.fault f) := by
  by_cases h : is.front = 0x2e
  · obtain ⟨t, rfl⟩ := Stream.eq_cons_of_front h (by decide)
    simp [scanFraction, Exec.bind_eq_error, scanDigits_ne_fault]
  · simp [scanFraction, h]

theorem exists_scanSign (t : Stream) :
    ∃ s t', SignText s ∧ t = s ++ t' ∧ scanSign t = .ok t' := by
  by_cases hp : t.front = 0x2b
  · obtain ⟨t', rfl⟩ := Stream.eq_cons_of_front hp (by decide)
    exact ⟨[0x2b], t', .plus, rfl, by simp [scanSign]⟩
  · by_cases hm : t.front = 0x2d
    · obtain ⟨t', rfl⟩ := Stream.eq_cons_of_front hm (by decide)
      exact ⟨[0x2d], t', .minus, rfl, by simp [scanSign]⟩
    · exact ⟨[], t, .absent, rfl, by simp [scanSign, hp, hm]⟩

/-- A sign before digits is scanned exactly. -/
theorem scanSign_append {s ds : Bytes} (hs : SignText s) (hds : Digits ds) (r : Stream) :
    scanSign (s ++ (ds ++ r)) = .ok (ds ++ r) := by
  cases hs with
  | absent =>
      obtain ⟨hne, hd⟩ := hds
      cases ds with
      | nil => exact absurd rfl hne
      | cons c t =>
          have hc := hd c (by simp)
          have h1 : c ≠ 0x2b := by
            rintro rfl
            exact absurd hc (by decide)
          have h2 : c ≠ 0x2d := by
            rintro rfl
            exact absurd hc (by decide)
          simp [scanSign, h1, h2]
  | plus => simp [scanSign]
  | minus => simp [scanSign]

theorem scanExponent_eq_ok {is r : Stream} {b : Bool} :
    scanExponent is = .ok (b, r) ↔
      (b = false ∧ r = is ∧ is.front ≠ 0x65 ∧ is.front ≠ 0x45) ∨
      (b = true ∧ NoDigit r ∧ ∃ e, ExponentText e ∧ e ≠ [] ∧ is = e ++ r) := by
  by_cases h : is.front = 0x65 ∨ is.front = 0x45
  · obtain ⟨c, t, rfl, hc⟩ : ∃ c t, is = c :: t ∧ (c = 0x65 ∨ c = 0x45) := by
      rcases h with h | h <;> obtain ⟨t, rfl⟩ := Stream.eq_cons_of_front h (by decide)
      · exact ⟨_, t, rfl, .inl rfl⟩
      · exact ⟨_, t, rfl, .inr rfl⟩
    obtain ⟨s, t', hs, ht, hsign⟩ := exists_scanSign t
    simp only [scanExponent, Stream.front_cons, hc, if_true, Stream.pop_cons, Exec.ok_bind, hsign,
      Exec.bind_eq_ok, scanDigits_eq_ok, Except.ok.injEq, Prod.mk.injEq]
    constructor
    · rintro ⟨u, ⟨ds, hds, rfl, hr⟩, rfl, rfl⟩
      exact .inr ⟨rfl, hr, c :: (s ++ ds), .present hc hs hds, by simp, by simp [ht]⟩
    · rintro (⟨-, -, h1, h2⟩ | ⟨rfl, hr, e, he, hne, heq⟩)
      · rcases hc with rfl | rfl
        · exact absurd rfl h1
        · exact absurd rfl h2
      · cases he with
        | absent => exact absurd rfl hne
        | @present c' s' ds hc' hs' hds =>
            simp only [List.cons_append, List.append_assoc, List.cons.injEq] at heq
            have hsign' := scanSign_append hs' hds r
            rw [← heq.2, hsign, Except.ok.injEq] at hsign'
            exact ⟨r, ⟨ds, hds, hsign', hr⟩, rfl, rfl⟩
  · rw [not_or] at h
    simp only [scanExponent, h.1, h.2, or_self, if_false, Except.ok.injEq, Prod.mk.injEq, ne_eq,
      not_false_eq_true, and_true]
    constructor
    · rintro ⟨rfl, rfl⟩
      exact .inl ⟨rfl, rfl⟩
    · rintro (⟨rfl, rfl⟩ | ⟨-, -, e, he, hne, rfl⟩)
      · exact ⟨rfl, rfl⟩
      · cases he with
        | absent => exact absurd rfl hne
        | present hc' _ _ =>
            rcases hc' with rfl | rfl
            · exact absurd rfl h.1
            · exact absurd rfl h.2

theorem scanExponent_ne_fault (is : Stream) (f : Fault) :
    scanExponent is ≠ .error (.fault f) := by
  by_cases h : is.front = 0x65 ∨ is.front = 0x45
  · obtain ⟨t, ht⟩ : ∃ t, is.pop = .ok t := by
      rcases h with h | h <;> obtain ⟨t, rfl⟩ := Stream.eq_cons_of_front h (by decide) <;>
        exact ⟨t, rfl⟩
    obtain ⟨s, t', -, -, hsign⟩ := exists_scanSign t
    simp [scanExponent, h, ht, hsign, Exec.bind_eq_error, scanDigits_ne_fault]
  · simp [scanExponent, h]

theorem scanSuffix_eq_ok {type type' : ValueType} {is r : Stream} :
    scanSuffix type is = .ok (type', r) ↔
      (is.front ≠ 0x69 ∧ type' = type ∧ r = is) ∨
      (type ≠ .TYPE_DOUBLE ∧ type' = .TYPE_INT32 ∧ is = lit "i32" ++ r) ∨
      (type ≠ .TYPE_DOUBLE ∧ type' = .TYPE_INT64 ∧ is = lit "i64" ++ r) := by
  have l32 : lit "i32" = [0x69, 0x33, 0x32] := rfl
  have l64 : lit "i64" = [0x69, 0x36, 0x34] := rfl
  by_cases h : is.front = 0x69
  · obtain ⟨t, rfl⟩ := Stream.eq_cons_of_front h (by decide)
    by_cases hd : type = .TYPE_DOUBLE
    · simp [scanSuffix, hd, invalidValue_ne_ok]
    · rw [l32, l64]
      simp only [scanSuffix, Stream.front_cons, if_true, Stream.pop_cons, Exec.ok_bind, hd,
        if_false]
      split
      · rename_i t' ht
        cases t with
        | nil => simp at ht
        | cons c u =>
            simp only [Stream.next_cons, Prod.mk.injEq] at ht
            obtain ⟨rfl, rfl⟩ := ht
            cases u with
            | nil => simp [invalidValue_ne_ok]
            | cons c u =>
                by_cases hc : c = 0x32
                · simp [hc, hd, eq_comm]
                · simp [hc, invalidValue_ne_ok]
      · rename_i t' ht
        cases t with
        | nil => simp at ht
        | cons c u =>
            simp only [Stream.next_cons, Prod.mk.injEq] at ht
            obtain ⟨rfl, rfl⟩ := ht
            cases u with
            | nil => simp [invalidValue_ne_ok]
            | cons c u =>
                by_cases hc : c = 0x34
                · simp [hc, hd, eq_comm]
                · simp [hc, invalidValue_ne_ok]
      · rename_i h3 h6
        cases t with
        | nil => simp [invalidValue_ne_ok]
        | cons c u =>
            have hc3 : c ≠ 0x33 := by
              rintro rfl
              exact h3 u rfl
            have hc6 : c ≠ 0x36 := by
              rintro rfl
              exact h6 u rfl
            simp [invalidValue_ne_ok, hc3, hc6]
  · have hne : ∀ u : Bytes, is ≠ 0x69 :: u := by
      rintro u rfl
      exact h rfl
    simp [scanSuffix, h, l32, l64, hne, eq_comm]

theorem scanSuffix_ne_fault (type : ValueType) (is : Stream) (f : Fault) :
    scanSuffix type is ≠ .error (.fault f) := by
  by_cases h : is.front = 0x69
  · obtain ⟨t, rfl⟩ := Stream.eq_cons_of_front h (by decide)
    simp only [scanSuffix, Stream.front_cons, if_true, Stream.pop_cons, Exec.ok_bind]
    split
    · simp [invalidValue, Exec.throw]
    · split
      · rename_i t' _
        by_cases hc : (Stream.next t').1 = 0x32 <;> simp [hc, invalidValue, Exec.throw]
      · rename_i t' _
        by_cases hc : (Stream.next t').1 = 0x34 <;> simp [hc, invalidValue, Exec.throw]
      · simp [invalidValue, Exec.throw]
  · simp [scanSuffix, h]

end RpcLearning.Json.Reader
