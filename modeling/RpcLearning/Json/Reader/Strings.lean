import RpcLearning.Json.Reader.Numbers

/-!
# What `parseString` accepts

Escapes first, then the loop: it returns on exactly the literals of the grammar, and on literals
that the end of the text leaves open.
-/

namespace RpcLearning.Json.Reader

/-! ## Escapes -/

theorem hexDigit?_lt {c : UInt8} {d : Nat} (h : hexDigit? c = some d) : d < 16 := by
  have h30 : (0x30 : UInt8).toNat = 48 := rfl
  have h39 : (0x39 : UInt8).toNat = 57 := rfl
  have h41 : (0x41 : UInt8).toNat = 65 := rfl
  have h46 : (0x46 : UInt8).toNat = 70 := rfl
  have h61 : (0x61 : UInt8).toNat = 97 := rfl
  have h66 : (0x66 : UInt8).toNat = 102 := rfl
  unfold hexDigit? at h
  simp only [UInt8.le_iff_toNat_le] at h
  split_ifs at h with h1 h2 h3 <;> simp only [Option.some.injEq] at h <;> omega

/-- The end of the text is no hexadecimal digit. -/
theorem hexDigit?_next_eq_some {is : Stream} {d : Nat} :
    hexDigit? is.next.1 = some d ↔ ∃ c t, is = c :: t ∧ hexDigit? c = some d := by
  cases is with
  | nil => simp [hexDigit?]
  | cons c t => simp

theorem parseHexDigits_succ {i u w : Nat} {is r : Stream} :
    parseHexDigits (i + 1) u is = some (w, r) ↔
      ∃ c d t, is = c :: t ∧ hexDigit? c = some d ∧
        parseHexDigits i (u * 16 + d) t = some (w, r) := by
  have hor : ∀ {d : Nat}, d < 16 → u <<< 4 ||| d = u * 16 + d := by
    intro d hd
    rw [← Nat.shiftLeft_add_eq_or_of_lt (by omega), Nat.shiftLeft_eq]
  cases hc : hexDigit? is.next.1 with
  | none =>
      simp only [parseHexDigits, hc, reduceCtorEq, false_iff, not_exists]
      rintro c d t ⟨rfl, hd, -⟩
      simp [hd] at hc
  | some d =>
      obtain ⟨c, t, rfl, hd⟩ := hexDigit?_next_eq_some.mp hc
      simp only [parseHexDigits, Stream.next_cons, hd, hor (hexDigit?_lt hd)]
      constructor
      · intro h
        exact ⟨c, d, t, rfl, hd, h⟩
      · rintro ⟨c', d', t', he, hd', h⟩
        obtain ⟨rfl, rfl⟩ := List.cons.inj he
        rw [hd, Option.some.injEq] at hd'
        exact hd' ▸ h

theorem parseHex4_eq_some {is r : Stream} {u : Nat} :
    parseHex4 is = some (u, r) ↔ ∃ h, Hex4 h u ∧ is = h ++ r := by
  have hzero : ∀ {v : Nat} {t : Stream},
      parseHexDigits 0 v t = some (u, r) ↔ v = u ∧ t = r := by simp [parseHexDigits]
  simp only [parseHex4, parseHexDigits_succ, hzero, Nat.zero_mul, Nat.zero_add]
  constructor
  · rintro ⟨a, i, _, rfl, ha, b, j, _, rfl, hb, c, k, _, rfl, hc, d, l, _, rfl, hd, rfl, rfl⟩
    have h := Hex4.mk ha hb hc hd
    refine ⟨_, h, ?_⟩
    rfl
  · rintro ⟨_, ⟨ha, hb, hc, hd⟩, rfl⟩
    exact ⟨_, _, _, rfl, ha, _, _, _, rfl, hb, _, _, _, rfl, hc, _, _, _, rfl, hd, rfl, rfl⟩

theorem Hex4.lt {h : Bytes} {u : Nat} (hh : Hex4 h u) : u < 0x10000 := by
  obtain ⟨ha, hb, hc, hd⟩ := hh
  have := hexDigit?_lt ha
  have := hexDigit?_lt hb
  have := hexDigit?_lt hc
  have := hexDigit?_lt hd
  omega

/-- The bound that `encodeUtf8` asserts. -/
theorem CodePointText.le {t : Bytes} {u : Nat} (h : CodePointText t u) : u ≤ 0x10FFFF := by
  cases h with
  | single hh _ =>
      have := Hex4.lt hh
      omega
  | @pair h h2 u u2 _ hu _ hu2 =>
      obtain ⟨-, hu⟩ := hu
      obtain ⟨-, hu2⟩ := hu2
      unfold pairCodePoint
      omega

theorem parseCodePoint_eq_ok {is r : Stream} {u : Nat} :
    parseCodePoint is = .ok (u, r) ↔
      ∃ t, CodePointText (0x5c :: 0x75 :: t) u ∧ is = t ++ r := by
  constructor
  · intro h
    unfold parseCodePoint at h
    split at h
    · cases h
    · rename_i u₁ t₁ h₁
      obtain ⟨x₁, hx₁, rfl⟩ := parseHex4_eq_some.mp h₁
      by_cases hu : 0xD800 ≤ u₁ ∧ u₁ ≤ 0xDBFF
      · rw [if_pos hu] at h
        split_ifs at h with hc hd
        · cases h
        · cases h
        · rw [not_not] at hc hd
          obtain ⟨t₂, rfl⟩ := Stream.eq_cons_of_next hc (by decide)
          obtain ⟨t₃, rfl⟩ := Stream.eq_cons_of_next hd (by decide)
          simp only [Stream.next_cons] at h
          split at h
          · cases h
          · rename_i u₂ t₄ h₂
            obtain ⟨x₂, hx₂, rfl⟩ := parseHex4_eq_some.mp h₂
            split_ifs at h with hlow
            · cases h
            · have hu₂ : LowSurrogate u₂ := by
                simp only [LowSurrogate]
                omega
              rw [Except.ok.injEq, Prod.mk.injEq] at h
              obtain ⟨hp, rfl⟩ := h
              rw [← hp]
              exact ⟨x₁ ++ 0x5c :: 0x75 :: x₂, .pair hx₁ hu hx₂ hu₂, by simp⟩
      · rw [if_neg hu] at h
        cases h
        exact ⟨x₁, .single hx₁ hu, rfl⟩
  · rintro ⟨t, h, rfl⟩
    cases h with
    | single hh hu =>
        have h₁ := (parseHex4_eq_some (r := r)).mpr ⟨_, hh, rfl⟩
        have hu' : ¬ (0xD800 ≤ u ∧ u ≤ 0xDBFF) := hu
        simp only [parseCodePoint, h₁, if_neg hu']
    | @pair x₁ x₂ u₁ u₂ hh hu hh2 hu2 =>
        have h₁ : parseHex4 (x₁ ++ 0x5c :: 0x75 :: x₂ ++ r) =
            some (u₁, 0x5c :: 0x75 :: (x₂ ++ r)) :=
          parseHex4_eq_some.mpr ⟨x₁, hh, by simp⟩
        have h₂ := (parseHex4_eq_some (r := r)).mpr ⟨x₂, hh2, rfl⟩
        have hlow : ¬ (u₂ < 0xDC00 ∨ 0xDFFF < u₂) := by
          obtain ⟨hl, hh⟩ := hu2
          omega
        have hu' : 0xD800 ≤ u₁ ∧ u₁ ≤ 0xDBFF := hu
        simp only [parseCodePoint, h₁, Stream.next_cons, h₂, if_neg hlow, ne_eq, not_true,
          if_false, if_pos hu']
        unfold pairCodePoint
        rfl

theorem parseCodePoint_ne_fault (is : Stream) (f : Fault) :
    parseCodePoint is ≠ .error (.fault f) := by
  unfold parseCodePoint
  split
  · simp [Exec.throw]
  · split_ifs
    · simp [Exec.throw]
    · simp [Exec.throw]
    · split
      · simp [Exec.throw]
      · split_ifs <;> simp [Exec.throw]
    · simp

theorem exists_encodeUtf8 {u : Nat} (h : u ≤ 0x10FFFF) : ∃ b, encodeUtf8 u = .ok b := by
  unfold encodeUtf8
  split_ifs
  · exact ⟨_, rfl⟩
  · exact ⟨_, rfl⟩
  · exact ⟨_, rfl⟩
  · rw [Exec.assert_of h]
    exact ⟨_, rfl⟩

theorem shortEscape?_zero : shortEscape? 0 = none := rfl

theorem shortEscape?_u : shortEscape? 0x75 = none := rfl

theorem parseEscape_cons (c : UInt8) (t : Stream) :
    parseEscape (c :: t) =
      match shortEscape? c with
      | some b => .ok ([b], t)
      | none =>
        if c = 0x75 then do
          let (u, is) ← parseCodePoint t
          let pushed ← encodeUtf8 u
          .ok (pushed, is)
        else .throw (.PARSE_INVALID_STRING_ESCAPE, .null) := rfl

theorem parseEscape_eq_ok {is r : Stream} {b : Bytes} :
    parseEscape is = .ok (b, r) ↔ ∃ t, EscapeText (0x5c :: t) b ∧ is = t ++ r := by
  constructor
  · intro h
    cases is with
    | nil => simp [parseEscape, shortEscape?_zero, Exec.throw] at h
    | cons c t =>
        cases hx : shortEscape? c with
        | some x =>
            rw [parseEscape_cons, hx] at h
            cases h
            exact ⟨[c], .short hx, rfl⟩
        | none =>
            rw [parseEscape_cons, hx] at h
            by_cases hc : c = 0x75
            · subst hc
              simp only [if_true, Exec.bind_eq_ok, Prod.exists] at h
              obtain ⟨u, t', hu, b', hb, h⟩ := h
              cases h
              obtain ⟨x, hx, rfl⟩ := parseCodePoint_eq_ok.mp hu
              exact ⟨0x75 :: x, .codePoint hx hb, rfl⟩
            · simp [hc, Exec.throw] at h
  · rintro ⟨t, h, rfl⟩
    have key : ∀ {s : Bytes} {u : Nat}, s = 0x5c :: t → CodePointText s u →
        encodeUtf8 u = .ok b → parseEscape (t ++ r) = .ok (b, r) := by
      intro s u hs hu hb
      obtain ⟨x, rfl⟩ : ∃ x, t = 0x75 :: x := by
        cases hu with
        | single _ _ => exact ⟨_, (List.cons.inj hs).2.symm⟩
        | pair _ _ _ _ => exact ⟨_, (List.cons.inj hs).2.symm⟩
      have hp := (parseCodePoint_eq_ok (r := r)).mpr ⟨x, hs ▸ hu, rfl⟩
      simp [parseEscape, shortEscape?_u, hp, hb]
    generalize hs : 0x5c :: t = s at h
    cases h with
    | short hc =>
        obtain ⟨-, rfl⟩ := List.cons.inj hs
        simp [parseEscape, hc]
    | codePoint hu hb => exact key hs.symm hu hb

theorem parseEscape_ne_fault (is : Stream) (f : Fault) :
    parseEscape is ≠ .error (.fault f) := by
  unfold parseEscape
  split
  · simp
  · split_ifs
    · intro h
      simp only [Exec.bind_eq_error, Prod.exists] at h
      rcases h with h | ⟨u, t, hu, h⟩
      · exact parseCodePoint_ne_fault _ _ h
      · obtain ⟨x, hx, -⟩ := parseCodePoint_eq_ok.mp hu
        obtain ⟨b, hb⟩ := exists_encodeUtf8 (CodePointText.le hx)
        simp [hb] at h
    · simp [Exec.throw]

/-! ## The loop -/

theorem EscapeText.exists_cons {e b : Bytes} (h : EscapeText e b) :
    ∃ c t, e = 0x5c :: c :: t := by
  cases h with
  | short _ => exact ⟨_, _, rfl⟩
  | codePoint h _ => cases h <;> exact ⟨_, _, rfl⟩

/-- Every character of the grammar takes the loop one round further. -/
theorem parseStringLoop_append {t b : Bytes} (h : CharsText t b) (fuel : Nat) (buffer : Bytes)
    {r : Stream} (hfuel : (t ++ r).length ≤ fuel) :
    ∃ fuel', r.length ≤ fuel' ∧
      parseStringLoop fuel buffer (t ++ r) = parseStringLoop fuel' (buffer ++ b) r := by
  induction h generalizing fuel buffer with
  | nil => exact ⟨fuel, hfuel, by simp⟩
  | @raw c t b hc hq hb _ ih =>
      cases fuel with
      | zero => simp at hfuel
      | succ fuel =>
          obtain ⟨fuel', hf', he⟩ := ih fuel (buffer ++ [c]) (by
            simp only [List.cons_append, List.length_cons] at hfuel
            omega)
          have h0 : c ≠ 0 := by
            rintro rfl
            exact absurd hc (by decide)
          refine ⟨fuel', hf', ?_⟩
          simp only [List.cons_append, parseStringLoop, hq, hb, h0, not_lt.mpr hc, if_false, he]
          simp
  | @escape e bs t b hes _ ih =>
      cases fuel with
      | zero =>
          obtain ⟨c, u, rfl⟩ := EscapeText.exists_cons hes
          simp at hfuel
      | succ fuel =>
          obtain ⟨c, u, rfl⟩ := EscapeText.exists_cons hes
          obtain ⟨fuel', hf', he⟩ := ih fuel (buffer ++ bs) (by
            simp only [List.cons_append, List.length_cons, List.length_append] at hfuel ⊢
            omega)
          have hp : parseEscape (c :: u ++ (t ++ r)) = .ok (bs, t ++ r) :=
            parseEscape_eq_ok.mpr ⟨c :: u, hes, rfl⟩
          refine ⟨fuel', hf', ?_⟩
          simp only [List.cons_append, List.append_assoc] at hp ⊢
          rw [parseStringLoop, if_neg (by decide), if_pos rfl, hp, Exec.ok_bind]
          exact he.trans (by rw [List.append_assoc])

theorem parseStringLoop_eq_ok {fuel : Nat} {buffer : Bytes} {is r : Stream} {v : Value}
    (hfuel : is.length ≤ fuel) :
    parseStringLoop fuel buffer is = .ok (v, r) ↔
      (∃ t b, CharsText t b ∧ is = t ++ 0x22 :: r ∧ v = .string (buffer ++ b)) ∨
      ((∃ b, CharsText is b) ∧ v = .null ∧ r = []) := by
  constructor
  · intro h
    induction fuel generalizing buffer is with
    | zero =>
        obtain rfl := List.length_eq_zero_iff.mp (Nat.le_zero.mp hfuel)
        cases h
        exact .inr ⟨⟨[], .nil⟩, rfl, rfl⟩
    | succ fuel ih =>
        cases is with
        | nil =>
            cases h
            exact .inr ⟨⟨[], .nil⟩, rfl, rfl⟩
        | cons c is =>
            simp only [List.length_cons, Nat.add_le_add_iff_right] at hfuel
            rw [parseStringLoop] at h
            split_ifs at h with hq hb h0 hlow
            · cases h
              exact .inl ⟨[], [], .nil, by simp [hq], by simp⟩
            · simp only [Exec.bind_eq_ok, Prod.exists] at h
              obtain ⟨bs, is', he, h⟩ := h
              obtain ⟨e, hes, rfl⟩ := parseEscape_eq_ok.mp he
              rcases ih (by simp only [List.length_append] at hfuel; omega) h with
                ⟨t, b, ht, rfl, rfl⟩ | ⟨⟨b, ht⟩, rfl, rfl⟩
              · exact .inl ⟨0x5c :: e ++ t, bs ++ b, .escape hes ht, by simp [hb], by simp⟩
              · exact .inr ⟨⟨bs ++ b, hb ▸ .escape hes ht⟩, rfl, rfl⟩
            · cases h
            · cases h
            · have hc : 0x20 ≤ c := not_lt.mp hlow
              rcases ih hfuel h with ⟨t, b, ht, rfl, rfl⟩ | ⟨⟨b, ht⟩, rfl, rfl⟩
              · exact .inl ⟨c :: t, c :: b, .raw hc hq hb ht, rfl, by simp⟩
              · exact .inr ⟨⟨c :: b, .raw hc hq hb ht⟩, rfl, rfl⟩
  · rintro (⟨t, b, ht, rfl, rfl⟩ | ⟨⟨b, ht⟩, rfl, rfl⟩)
    · obtain ⟨fuel', hf', he⟩ := parseStringLoop_append ht fuel buffer hfuel
      cases fuel' with
      | zero => simp at hf'
      | succ fuel' => rw [he, parseStringLoop, if_pos rfl]
    · obtain ⟨fuel', -, he⟩ :=
        parseStringLoop_append ht fuel buffer (r := []) (by simpa using hfuel)
      rw [List.append_nil] at he
      rw [he]
      cases fuel' <;> rfl

theorem parseStringLoop_ne_fault {fuel : Nat} {buffer : Bytes} {is : Stream}
    (hfuel : is.length ≤ fuel) (f : Fault) :
    parseStringLoop fuel buffer is ≠ .error (.fault f) := by
  induction fuel generalizing buffer is with
  | zero =>
      obtain rfl := List.length_eq_zero_iff.mp (Nat.le_zero.mp hfuel)
      simp [parseStringLoop]
  | succ fuel ih =>
      cases is with
      | nil => simp [parseStringLoop]
      | cons c is =>
          simp only [List.length_cons, Nat.add_le_add_iff_right] at hfuel
          rw [parseStringLoop]
          split_ifs
          · simp
          · intro h
            simp only [Exec.bind_eq_error, Prod.exists] at h
            rcases h with h | ⟨bs, is', he, h⟩
            · exact parseEscape_ne_fault _ _ h
            · obtain ⟨e, -, rfl⟩ := parseEscape_eq_ok.mp he
              exact ih (by simp only [List.length_append] at hfuel; omega) h
          · simp [Exec.throw]
          · simp [Exec.throw]
          · exact ih hfuel

/-- `parseString` returns on closed literals, and on literals the text leaves open. -/
theorem parseString_eq_ok {t r : Stream} {v : Value} :
    parseString (0x22 :: t) = .ok (v, r) ↔
      (∃ s b, StringText s b ∧ 0x22 :: t = s ++ r ∧ v = .string b) ∨
      (Unterminated (0x22 :: t) ∧ v = .null ∧ r = []) := by
  simp only [parseString, Stream.expect_cons, Exec.ok_bind, parseStringLoop_eq_ok le_rfl,
    List.nil_append]
  refine or_congr ⟨?_, ?_⟩ (and_congr_left' ⟨?_, ?_⟩)
  · rintro ⟨s, b, hs, rfl, rfl⟩
    exact ⟨_, b, .mk hs, by simp, rfl⟩
  · rintro ⟨_, b, ⟨hs⟩, he, rfl⟩
    refine ⟨_, b, hs, ?_, rfl⟩
    simpa using he
  · rintro ⟨b, hb⟩
    exact .mk hb
  · rintro ⟨hb⟩
    exact ⟨_, hb⟩

theorem parseString_ne_fault {t : Stream} (f : Fault) :
    parseString (0x22 :: t) ≠ .error (.fault f) := by
  simpa [parseString] using parseStringLoop_ne_fault le_rfl f

end RpcLearning.Json.Reader
