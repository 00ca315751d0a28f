import RpcLearning.Json.Keys

/-!
# Strings and UTF-8

What `parseString` makes of a literal whose characters are well formed and whose `\uXXXX` escapes
may be anything.  A high surrogate that no low one follows is refused.  A low surrogate that
follows no high one is not: it is encoded like any other code point, and what comes out is not
well formed.
-/

namespace RpcLearning.Json

open Reader (shortEscape? encodeUtf8)
open Utf8 (Valid)

instance : DecidablePred HighSurrogate := fun u ↦
  inferInstanceAs (Decidable (0xD800 ≤ u ∧ u ≤ 0xDBFF))

instance : DecidablePred LowSurrogate := fun u ↦
  inferInstanceAs (Decidable (0xDC00 ≤ u ∧ u ≤ 0xDFFF))

/-- A piece of the inside of a string literal: a character, an escape of one letter, or the escape
of a code unit. -/
inductive Piece where
  | raw (c : Char) (hc : 0x20 ≤ c.toNat ∧ c.toNat ≠ 0x22 ∧ c.toNat ≠ 0x5c)
  | short (c b : UInt8) (h : shortEscape? c = some b)
  | unit (h : Bytes) (u : Nat) (hu : Hex4 h u)

namespace Piece

def text : Piece → Bytes
  | raw c _ => String.utf8EncodeChar c
  | short c _ _ => [0x5c, c]
  | unit h _ _ => 0x5c :: 0x75 :: h

def isHigh : Piece → Bool
  | unit _ u _ => HighSurrogate u
  | _ => false

def isLow : Piece → Bool
  | unit _ u _ => LowSurrogate u
  | _ => false

theorem isHigh_eq_false_of_isLow {p : Piece} (h : p.isLow = true) : p.isHigh = false := by
  cases p with
  | raw _ _ => rfl
  | short _ _ _ => rfl
  | unit _ u _ =>
      have hlow : LowSurrogate u := of_decide_eq_true h
      refine decide_eq_false ?_
      intro hhigh
      have := hlow.1
      have := hhigh.2
      omega

end Piece

/-- The inside of a literal. -/
def insideText (ps : List Piece) : Bytes := ps.flatMap Piece.text

/-- The literal of some pieces. -/
def literal (ps : List Piece) : Bytes := 0x22 :: (insideText ps ++ [0x22])

/-- Some high surrogate is not followed by a low one. -/
def LoneHigh : List Piece → Prop
  | [] => False
  | p :: ps => (p.isHigh = true ∧ ∀ q ∈ ps.head?, q.isLow = false) ∨ LoneHigh ps

/-- Some low surrogate does not follow a high one; `afterHigh` says whether the first piece
does. -/
def LoneLow : (afterHigh : Bool) → List Piece → Prop
  | _, [] => False
  | afterHigh, p :: ps => (p.isLow = true ∧ afterHigh = false) ∨ LoneLow p.isHigh ps

/-- The pieces as the reader takes them: a high surrogate with the low one behind it. -/
theorem pairing_induction {motive : List Piece → Prop} (nil : motive [])
    (single : ∀ p ps, p.isHigh = false → motive ps → motive (p :: ps))
    (pair : ∀ p q ps, p.isHigh = true → q.isLow = true → motive ps → motive (p :: q :: ps))
    (lone : ∀ p ps, p.isHigh = true → (∀ q ∈ ps.head?, q.isLow = false) → motive (p :: ps)) :
    ∀ ps, motive ps
  | [] => nil
  | [p] => by
      by_cases hp : p.isHigh = true
      · exact lone p [] hp (by simp)
      · exact single p [] (by simpa using hp) nil
  | p :: q :: ps => by
      by_cases hp : p.isHigh = true
      · by_cases hq : q.isLow = true
        · exact pair p q ps hp hq (pairing_induction nil single pair lone ps)
        · exact lone p (q :: ps) hp (by simpa using hq)
      · exact single p (q :: ps) (by simpa using hp) (pairing_induction nil single pair lone _)

/-! ## One piece -/

theorem CharsText.append {t b t' b' : Bytes} (h : CharsText t b) (h' : CharsText t' b') :
    CharsText (t ++ t') (b ++ b') := by
  induction h with
  | nil => exact h'
  | raw hc hq hb _ ih => exact .raw hc hq hb ih
  | escape he _ ih =>
      rw [List.append_assoc, List.append_assoc]
      exact .escape he ih

theorem EscapeText.charsText {e b : Bytes} (h : EscapeText e b) : CharsText e b := by
  have hc := CharsText.escape h .nil
  rwa [List.append_nil, List.append_nil] at hc

/-- The code points that are characters. -/
theorem isValidChar_of_not_surrogate {u : Nat} (h : u ≤ 0x10FFFF) (hh : ¬ HighSurrogate u)
    (hl : ¬ LowSurrogate u) : u.isValidChar := by
  unfold HighSurrogate at hh
  unfold LowSurrogate at hl
  rcases Nat.lt_or_ge u 0xD800 with hu | hu
  · exact .inl hu
  · exact .inr ⟨by omega, by omega⟩

/-- A letter after a backslash stands for a character of seven bits. -/
theorem shortEscape?_lt {c b : UInt8} (h : shortEscape? c = some b) : b.toNat < 0x80 := by
  unfold shortEscape? at h
  split at h <;> cases h <;> decide

/-- The bytes of a character that stands for itself do so too. -/
theorem unescaped_of_mem_encode {c : Char} (hc : 0x20 ≤ c.toNat ∧ c.toNat ≠ 0x22 ∧ c.toNat ≠ 0x5c) :
    ∀ x ∈ String.utf8EncodeChar c, Unescaped x := by
  intro x hx
  rw [Utf8.utf8EncodeChar_eq] at hx
  rcases Nat.lt_or_ge c.toNat 0x80 with h80 | h80
  · rw [Utf8.encode_of_lt h80, List.mem_singleton] at hx
    have hn : x.toNat = c.toNat := by
      rw [hx]
      exact UInt8.toNat_ofNat_of_lt' (lt_trans h80 (by decide))
    refine ⟨?_, ?_, ?_⟩
    · rw [UInt8.le_iff_toNat_le, hn]
      exact hc.1
    · rintro rfl
      exact hc.2.1 hn.symm
    · rintro rfl
      exact hc.2.2 hn.symm
  · have hx := Utf8.le_of_mem_encode h80 hx
    refine ⟨le_trans (by decide) hx, ?_, ?_⟩
    · rintro rfl
      exact absurd hx (by decide)
    · rintro rfl
      exact absurd hx (by decide)

/-- A code point, put as the reader puts it: the bytes of a character, or of a surrogate. -/
structure Puts (t : Bytes) (surrogate : Bool) (u : Nat) : Prop where
  chars : CharsText t (Utf8.encode u)
  scalar (h : surrogate = false) : u.isValidChar
  lone (h : surrogate = true) : LowSurrogate u

/-- A piece that is no high surrogate is read for itself. -/
theorem Piece.exists_puts {p : Piece} (hp : p.isHigh = false) : ∃ u, Puts p.text p.isLow u := by
  cases p with
  | raw c hc =>
      refine ⟨c.toNat, ?_, fun _ ↦ c.valid, fun h ↦ absurd h (by simp [isLow])⟩
      exact charsText_of_unescaped (unescaped_of_mem_encode hc)
  | short c b h =>
      have hb := shortEscape?_lt h
      refine ⟨b.toNat, ?_, fun _ ↦ .inl (by omega), fun h ↦ absurd h (by simp [isLow])⟩
      rw [text, Utf8.encode_of_lt hb, UInt8.ofNat_toNat]
      exact (EscapeText.short h).charsText
  | unit h u hu =>
      have hhigh : ¬ HighSurrogate u := of_decide_eq_false hp
      have hle : u ≤ 0x10FFFF := by
        have := Reader.Hex4.lt hu
        omega
      have he : EscapeText (text (.unit h u hu)) (Utf8.encode u) :=
        .codePoint (.single hu hhigh) (encodeUtf8_eq hle)
      refine ⟨u, he.charsText, ?_, fun h ↦ of_decide_eq_true h⟩
      intro hl
      exact isValidChar_of_not_surrogate hle hhigh (of_decide_eq_false hl)

/-- The code point of a pair is a character. -/
theorem isValidChar_pairCodePoint {u u2 : Nat} (hu : HighSurrogate u) (hu2 : LowSurrogate u2) :
    (pairCodePoint u u2).isValidChar := by
  obtain ⟨h1, h2⟩ := hu
  obtain ⟨h3, h4⟩ := hu2
  unfold pairCodePoint
  exact .inr ⟨by omega, by omega⟩

/-- A high surrogate and the low one behind it are read together. -/
theorem Piece.exists_puts_pair {p q : Piece} (hp : p.isHigh = true) (hq : q.isLow = true) :
    ∃ u, Puts (p.text ++ q.text) false u := by
  cases p with
  | raw _ _ => exact absurd hp (by simp [isHigh])
  | short _ _ _ => exact absurd hp (by simp [isHigh])
  | unit h u hu =>
      cases q with
      | raw _ _ => exact absurd hq (by simp [isLow])
      | short _ _ _ => exact absurd hq (by simp [isLow])
      | unit h2 u2 hu2 =>
          have hp : HighSurrogate u := of_decide_eq_true hp
          have hq : LowSurrogate u2 := of_decide_eq_true hq
          have hpair : CodePointText _ (pairCodePoint u u2) := .pair hu hp hu2 hq
          have he := EscapeText.codePoint hpair (encodeUtf8_eq (Reader.CodePointText.le hpair))
          refine ⟨pairCodePoint u u2, ?_, fun _ ↦ isValidChar_pairCodePoint hp hq,
            fun h ↦ absurd h (by simp)⟩
          exact he.charsText

/-! ## Literals -/

theorem insideText_cons (p : Piece) (ps : List Piece) :
    insideText (p :: ps) = p.text ++ insideText ps :=
  List.flatMap_cons

theorem loneHigh_cons_of_not_high {p : Piece} {ps : List Piece} (hp : p.isHigh = false) :
    LoneHigh (p :: ps) ↔ LoneHigh ps := by
  simp [LoneHigh, hp]

theorem loneHigh_cons_cons_of_pair {p q : Piece} {ps : List Piece} (hq : q.isLow = true) :
    LoneHigh (p :: q :: ps) ↔ LoneHigh ps := by
  simp [LoneHigh, hq, Piece.isHigh_eq_false_of_isLow hq]

/-- Without a lone high surrogate the inside of a literal is one for the reader, and stands for
well-formed bytes unless there is a lone low surrogate. -/
theorem exists_charsText {ps : List Piece} (h : ¬ LoneHigh ps) :
    ∃ b, CharsText (insideText ps) b ∧ (Valid b ↔ ¬ LoneLow false ps) := by
  induction ps using pairing_induction with
  | nil => exact ⟨[], .nil, iff_of_true Utf8.valid_nil id⟩
  | single p ps hp ih =>
      rw [loneHigh_cons_of_not_high hp] at h
      obtain ⟨b, hb, hv⟩ := ih h
      obtain ⟨u, hu⟩ := Piece.exists_puts hp
      refine ⟨Utf8.encode u ++ b, ?_, ?_⟩
      · rw [insideText_cons]
        exact hu.chars.append hb
      · by_cases hl : p.isLow = true
        · have hlow := hu.lone hl
          have hbad : LoneLow false (p :: ps) := .inl ⟨hl, rfl⟩
          exact iff_of_false
            (Utf8.not_valid_encode_append ⟨le_trans (by decide) hlow.1, hlow.2⟩ b)
            (not_not_intro hbad)
        · have hl : p.isLow = false := by simpa using hl
          rw [Utf8.valid_encode_append_iff (hu.scalar hl), hv]
          simp [LoneLow, hl, hp]
  | pair p q ps hp hq ih =>
      rw [loneHigh_cons_cons_of_pair hq] at h
      obtain ⟨b, hb, hv⟩ := ih h
      obtain ⟨u, hu⟩ := Piece.exists_puts_pair hp hq
      refine ⟨Utf8.encode u ++ b, ?_, ?_⟩
      · rw [insideText_cons, insideText_cons, ← List.append_assoc]
        exact hu.chars.append hb
      · rw [Utf8.valid_encode_append_iff (hu.scalar rfl), hv]
        have hpl : p.isLow = false := by
          by_contra hl
          have hl := Piece.isHigh_eq_false_of_isLow (eq_true_of_ne_false hl)
          rw [hp] at hl
          exact Bool.noConfusion hl
        simp [LoneLow, hpl, hp, Piece.isHigh_eq_false_of_isLow hq]
  | lone p ps hp hps => exact absurd (.inl ⟨hp, hps⟩) h

/-- The error of a surrogate that is not part of a pair. -/
def surrogateError {α : Type} : Parse α := .throw (.PARSE_INVALID_UNICODE_SURROGATE, .null)

/-- A high surrogate is refused when no low one comes next. -/
theorem parseCodePoint_lone {h : Bytes} {u : Nat} (hu : Hex4 h u) (hhigh : HighSurrogate u)
    {ps : List Piece} (hps : ∀ q ∈ ps.head?, q.isLow = false) (r : Bytes) :
    Reader.parseCodePoint (h ++ (insideText ps ++ 0x22 :: r)) = surrogateError := by
  have h4 := (Reader.parseHex4_eq_some (r := insideText ps ++ 0x22 :: r)).mpr ⟨h, hu, rfl⟩
  have hhigh : 0xD800 ≤ u ∧ u ≤ 0xDBFF := hhigh
  simp only [Reader.parseCodePoint, h4, if_pos hhigh]
  cases ps with
  | nil => rfl
  | cons q ps =>
      rw [insideText_cons, List.append_assoc]
      cases q with
      | raw c hc =>
          have hx := unescaped_of_mem_encode hc
          rw [Piece.text]
          cases hc : String.utf8EncodeChar c with
          | nil => exact absurd hc String.utf8EncodeChar_ne_nil
          | cons x t =>
              rw [hc] at hx
              exact if_pos (hx x List.mem_cons_self).2.2
      | short c b hc =>
          have hu : c ≠ 0x75 := by
            rintro rfl
            rw [Reader.shortEscape?_u] at hc
            cases hc
          simp [Piece.text, hu, surrogateError]
      | unit h2 u2 hu2 =>
          have hlow : ¬ LowSurrogate u2 := of_decide_eq_false (hps _ rfl)
          have hlow : u2 < 0xDC00 ∨ 0xDFFF < u2 := by
            unfold LowSurrogate at hlow
            omega
          have h4 := (Reader.parseHex4_eq_some (r := insideText ps ++ 0x22 :: r)).mpr
            ⟨h2, hu2, rfl⟩
          simp [Piece.text, h4, hlow, surrogateError]

/-- From a lone high surrogate on, the loop gives up. -/
theorem parseStringLoop_lone {p : Piece} {ps : List Piece} (hp : p.isHigh = true)
    (hps : ∀ q ∈ ps.head?, q.isLow = false) (r : Bytes) {fuel : Nat} {buffer : Bytes}
    (hfuel : (p.text ++ (insideText ps ++ 0x22 :: r)).length ≤ fuel) :
    Reader.parseStringLoop fuel buffer (p.text ++ (insideText ps ++ 0x22 :: r)) =
      surrogateError := by
  cases p with
  | raw _ _ => exact absurd hp (by simp [Piece.isHigh])
  | short _ _ _ => exact absurd hp (by simp [Piece.isHigh])
  | unit h u hu =>
      have hhigh : HighSurrogate u := of_decide_eq_true hp
      cases fuel with
      | zero => simp [Piece.text] at hfuel
      | succ fuel =>
          have hc := parseCodePoint_lone hu hhigh hps r
          have he : Reader.parseEscape (0x75 :: (h ++ (insideText ps ++ 0x22 :: r))) =
              surrogateError := by
            rw [Reader.parseEscape_cons, Reader.shortEscape?_u]
            simp only [if_true, hc]
            rfl
          rw [Piece.text, List.cons_append, List.cons_append, Reader.parseStringLoop,
            if_neg (by decide), if_pos rfl, he]
          rfl

theorem parseStringLoop_of_loneHigh {ps : List Piece} (h : LoneHigh ps) (r : Bytes) {fuel : Nat}
    {buffer : Bytes} (hfuel : (insideText ps ++ 0x22 :: r).length ≤ fuel) :
    Reader.parseStringLoop fuel buffer (insideText ps ++ 0x22 :: r) = surrogateError := by
  induction ps using pairing_induction generalizing fuel buffer with
  | nil => exact h.elim
  | single p ps hp ih =>
      rw [loneHigh_cons_of_not_high hp] at h
      obtain ⟨u, hu⟩ := Piece.exists_puts hp
      rw [insideText_cons, List.append_assoc] at hfuel ⊢
      obtain ⟨fuel', hf, he⟩ := Reader.parseStringLoop_append hu.chars fuel buffer hfuel
      rw [he]
      exact ih h hf
  | pair p q ps hp hq ih =>
      rw [loneHigh_cons_cons_of_pair hq] at h
      obtain ⟨u, hu⟩ := Piece.exists_puts_pair hp hq
      rw [insideText_cons, insideText_cons, ← List.append_assoc, List.append_assoc] at hfuel ⊢
      obtain ⟨fuel', hf, he⟩ := Reader.parseStringLoop_append hu.chars fuel buffer hfuel
      rw [he]
      exact ih h hf
  | lone p ps hp hps =>
      rw [insideText_cons, List.append_assoc] at hfuel ⊢
      exact parseStringLoop_lone hp hps r hfuel

theorem parseString_literal (ps : List Piece) (r : Bytes) :
    Reader.parseString (literal ps ++ r) =
      Reader.parseStringLoop (insideText ps ++ 0x22 :: r).length []
        (insideText ps ++ 0x22 :: r) := by
  simp [literal, Reader.parseString]

/-- What is read is well formed, and a surrogate that is not part of a pair is an error. -/
structure WellDecoded (ps : List Piece) (r : Bytes) : Prop where
  valid {b r' : Bytes} (h : Reader.parseString (literal ps ++ r) = .ok (.string b, r')) : Valid b
  refused (h : LoneHigh ps ∨ LoneLow false ps) :
    Reader.parseString (literal ps ++ r) = surrogateError

/-- Without a lone high surrogate the literal is accepted. -/
theorem exists_parseString {ps : List Piece} (h : ¬ LoneHigh ps) (r : Bytes) :
    ∃ b, Reader.parseString (literal ps ++ r) = .ok (.string b, r) ∧
      (Valid b ↔ ¬ LoneLow false ps) := by
  obtain ⟨b, hb, hv⟩ := exists_charsText h
  refine ⟨b, ?_, hv⟩
  rw [parseString_literal, Reader.parseStringLoop_eq_ok le_rfl]
  exact .inl ⟨insideText ps, b, hb, rfl, rfl⟩

theorem parseString_of_loneHigh {ps : List Piece} (h : LoneHigh ps) (r : Bytes) :
    Reader.parseString (literal ps ++ r) = surrogateError := by
  rw [parseString_literal]
  exact parseStringLoop_of_loneHigh h r le_rfl

/-- A literal with a lone low surrogate is accepted, unless it has a lone high one too. -/
theorem not_wellDecoded {ps : List Piece} {r : Bytes} (h : ¬ LoneHigh ps)
    (hl : LoneLow false ps) : ¬ WellDecoded ps r := by
  intro hw
  obtain ⟨b, hb, -⟩ := exists_parseString h r
  have he := hw.refused (.inr hl)
  rw [hb] at he
  cases he

/-- Strings are decoded to well-formed UTF-8, and lone surrogates refused, exactly in the literals
that have no lone low surrogate, or a lone high one as well. -/
theorem wellDecoded_iff (ps : List Piece) (r : Bytes) :
    WellDecoded ps r ↔ (LoneLow false ps → LoneHigh ps) := by
  constructor
  · intro hw hl
    by_contra h
    exact not_wellDecoded h hl hw
  · intro h
    by_cases hh : LoneHigh ps
    · have he := parseString_of_loneHigh hh r
      refine ⟨?_, fun _ ↦ he⟩
      intro b r' hb
      rw [he] at hb
      cases hb
    · have hl : ¬ LoneLow false ps := fun hl ↦ hh (h hl)
      obtain ⟨b, hb, hv⟩ := exists_parseString hh r
      refine ⟨?_, fun hlone ↦ (hlone.elim hh hl).elim⟩
      intro b' r' hb'
      rw [hb] at hb'
      cases hb'
      exact hv.mpr hl

theorem hex4_dc00 : Hex4 (lit "DC00") 0xDC00 :=
  Hex4.mk (i := 13) (j := 12) (k := 0) (l := 0) rfl rfl rfl rfl

/-- The escape `\uDC00` alone is read as three bytes that are no character's. -/
theorem not_wellDecoded_dc00 : ¬ WellDecoded [.unit (lit "DC00") 0xDC00 hex4_dc00] [] := by
  apply not_wellDecoded
  · simp [LoneHigh, Piece.isHigh, HighSurrogate]
  · exact .inl ⟨rfl, rfl⟩

end RpcLearning.Json
