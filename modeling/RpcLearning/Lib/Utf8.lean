import Mathlib.Data.Nat.Bitwise
import Mathlib.Tactic

/-!
# Well-formed UTF-8

Byte strings that are the encodings of sequences of characters.  A character is a scalar value, so
the bytes the same rule gives for a surrogate are not well formed, and neither is anything that
starts with them.
-/

namespace RpcLearning.Utf8

/-- The byte string is the encoding of some characters. -/
def Valid (b : List UInt8) : Prop := b.toByteArray.IsValidUTF8

instance : DecidablePred Valid := fun b ↦ inferInstanceAs (Decidable b.toByteArray.IsValidUTF8)

/-- The bytes for a number, whether it is a scalar value or not. -/
def encode (v : Nat) : List UInt8 :=
  if v ≤ 0x7F then [UInt8.ofNat v]
  else if v ≤ 0x7FF then [UInt8.ofNat (v / 64 % 32 + 0xC0), UInt8.ofNat (v % 64 + 0x80)]
  else if v ≤ 0xFFFF then
    [UInt8.ofNat (v / 4096 % 16 + 0xE0), UInt8.ofNat (v / 64 % 64 + 0x80),
      UInt8.ofNat (v % 64 + 0x80)]
  else
    [UInt8.ofNat (v / 262144 % 8 + 0xF0), UInt8.ofNat (v / 4096 % 64 + 0x80),
      UInt8.ofNat (v / 64 % 64 + 0x80), UInt8.ofNat (v % 64 + 0x80)]

theorem utf8EncodeChar_eq (c : Char) : String.utf8EncodeChar c = encode c.toNat := rfl

theorem valid_nil : Valid [] := by
  simp [Valid]

/-- A scalar value in front changes nothing. -/
theorem valid_encode_append_iff {v : Nat} (hv : v.isValidChar) {b : List UInt8} :
    Valid (encode v ++ b) ↔ Valid b := by
  have hc : encode v = String.utf8EncodeChar (Char.ofNatAux v hv) := rfl
  rw [hc, Valid, List.toByteArray_append, ← List.utf8Encode_singleton]
  exact ByteArray.isValidUTF8_utf8Encode_singleton_append_iff

/-- What is not empty starts with a scalar value. -/
theorem Valid.exists_encode {b : List UInt8} (h : Valid b) (hb : b ≠ []) :
    ∃ v t, v.isValidChar ∧ b = encode v ++ t := by
  obtain ⟨m, hm⟩ := h
  have hm : b = m.flatMap String.utf8EncodeChar := List.toByteArray_inj.mp hm
  cases m with
  | nil => exact absurd hm hb
  | cons c m =>
      refine ⟨c.toNat, m.flatMap String.utf8EncodeChar, c.valid, ?_⟩
      rw [hm, List.flatMap_cons, utf8EncodeChar_eq]

theorem ofNat_inj {m n : Nat} (hm : m < 256) (hn : n < 256) (h : UInt8.ofNat m = UInt8.ofNat n) :
    m = n := by
  have h := congrArg UInt8.toNat h
  rwa [UInt8.toNat_ofNat_of_lt' hm, UInt8.toNat_ofNat_of_lt' hn] at h

/-- The first two bytes of a surrogate are those of no scalar value. -/
theorem encode_append_ne {u v : Nat} (hu : 0xD800 ≤ u ∧ u ≤ 0xDFFF) (hv : v.isValidChar)
    (b t : List UInt8) : encode u ++ b ≠ encode v ++ t := by
  intro h
  rw [encode, if_neg (by omega), if_neg (by omega), if_pos (by omega), encode] at h
  split_ifs at h with h1 h2 h3
  · have h0 := ofNat_inj (by omega) (by omega) (List.cons.inj h).1
    omega
  · have h0 := ofNat_inj (by omega) (by omega) (List.cons.inj h).1
    omega
  · obtain ⟨h0, h⟩ := List.cons.inj h
    have h0 := ofNat_inj (by omega) (by omega) h0
    have h1 := ofNat_inj (by omega) (by omega) (List.cons.inj h).1
    rcases hv with hv | hv
    · omega
    · omega
  · have h0 := ofNat_inj (by omega) (by omega) (List.cons.inj h).1
    omega

/-- What starts with a surrogate is not well formed. -/
theorem not_valid_encode_append {u : Nat} (hu : 0xD800 ≤ u ∧ u ≤ 0xDFFF) (b : List UInt8) :
    ¬ Valid (encode u ++ b) := by
  intro h
  have hne : encode u ++ b ≠ [] := by
    rw [encode, if_neg (by omega), if_neg (by omega), if_pos (by omega)]
    exact List.cons_ne_nil _ _
  obtain ⟨v, t, hv, ht⟩ := h.exists_encode hne
  exact encode_append_ne hu hv b t ht

/-- The bytes of a number of more than seven bits have their eighth bit set. -/
theorem le_of_mem_encode {v : Nat} (hv : 0x80 ≤ v) {x : UInt8} (hx : x ∈ encode v) : 0x80 ≤ x := by
  have key : ∀ m : Nat, 0x80 ≤ m → m < 256 → 0x80 ≤ UInt8.ofNat m := by
    intro m hm hlt
    rw [UInt8.le_iff_toNat_le, UInt8.toNat_ofNat_of_lt' hlt]
    exact hm
  rw [encode, if_neg (by omega)] at hx
  split_ifs at hx <;> simp only [List.mem_cons, List.not_mem_nil, or_false] at hx
  · rcases hx with rfl | rfl
    · exact key _ (by omega) (by omega)
    · exact key _ (by omega) (by omega)
  · rcases hx with rfl | rfl | rfl
    · exact key _ (by omega) (by omega)
    · exact key _ (by omega) (by omega)
    · exact key _ (by omega) (by omega)
  · rcases hx with rfl | rfl | rfl | rfl
    · exact key _ (by omega) (by omega)
    · exact key _ (by omega) (by omega)
    · exact key _ (by omega) (by omega)
    · exact key _ (by omega) (by omega)

theorem encode_of_lt {v : Nat} (hv : v < 0x80) : encode v = [UInt8.ofNat v] := by
  rw [encode, if_pos (by omega)]

end RpcLearning.Utf8
