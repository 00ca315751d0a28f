import RpcLearning.Json.Reader.Accepts
import RpcLearning.Lib.Utf8

/-!
# Everything the grammar allows is read

The texts of a document tree, said from the tree: where whitespace may stand, in how many ways a
character of a string can be written, and that members may come in any order.  A tree is a value;
its objects list their members in the order of their keys, whatever order the text has them in.
UTF-8 is that of Lean's own strings.
-/

namespace RpcLearning.Json

open Numeral (IntText DoubleNumeral)
open Reader (hexDigit? shortEscape? encodeUtf8)

/-! ## Strings -/

/-- A hexadecimal digit in either case, and its number. -/
inductive HexDigit : UInt8 → Nat → Prop
  | digit {n : Nat} (h : n < 10) : HexDigit (UInt8.ofNat (0x30 + n)) n
  | upper {n : Nat} (h : n < 6) : HexDigit (UInt8.ofNat (0x41 + n)) (10 + n)
  | lower {n : Nat} (h : n < 6) : HexDigit (UInt8.ofNat (0x61 + n)) (10 + n)

/-- The `XXXX` of an escape, and its number. -/
inductive HexText : Bytes → Nat → Prop
  | mk {a b c d : UInt8} {i j k l : Nat} (ha : HexDigit a i) (hb : HexDigit b j)
      (hc : HexDigit c k) (hd : HexDigit d l) :
      HexText [a, b, c, d] (i * 16 ^ 3 + j * 16 ^ 2 + k * 16 + l)

/-- The letters of the short escapes, with what they stand for. -/
def shortEscapes : List (UInt8 × UInt8) :=
  [(0x22, 0x22), (0x5c, 0x5c), (0x2f, 0x2f), (0x62, 0x08), (0x66, 0x0c), (0x6e, 0x0a), (0x72, 0x0d),
    (0x74, 0x09)]

/-- `RendersChars b t`: the bytes `b` of a string, written as `t` between the quotes. -/
inductive RendersChars : Bytes → Bytes → Prop
  | nil : RendersChars [] []
  | raw {c : UInt8} {b t : Bytes} (hc : 0x20 ≤ c) (hq : c ≠ 0x22) (hb : c ≠ 0x5c)
      (ht : RendersChars b t) : RendersChars (c :: b) (c :: t)
  | short {e c : UInt8} {b t : Bytes} (he : (e, c) ∈ shortEscapes) (ht : RendersChars b t) :
      RendersChars (c :: b) (0x5c :: e :: t)
  | unicode {c : Char} {h b t : Bytes} (hh : HexText h c.toNat) (ht : RendersChars b t) :
      RendersChars (String.utf8EncodeChar c ++ b) (0x5c :: 0x75 :: (h ++ t))
  | pair {c : Char} {h h2 b t : Bytes} (hc : 0xFFFF < c.toNat)
      (hh : HexText h (0xD800 + (c.toNat - 0x10000) / 0x400))
      (hh2 : HexText h2 (0xDC00 + (c.toNat - 0x10000) % 0x400)) (ht : RendersChars b t) :
      RendersChars (String.utf8EncodeChar c ++ b)
        (0x5c :: 0x75 :: (h ++ 0x5c :: 0x75 :: (h2 ++ t)))

/-- A string in its quotes. -/
inductive RendersString : Bytes → Bytes → Prop
  | mk {b t : Bytes} (h : RendersChars b t) : RendersString b (0x22 :: (t ++ [0x22]))

theorem HexDigit.hexDigit? {c : UInt8} {n : Nat} (h : HexDigit c n) : hexDigit? c = some n := by
  have hdigit : ∀ n < 10, Reader.hexDigit? (UInt8.ofNat (0x30 + n)) = some n := by decide +kernel
  have hupper : ∀ n < 6, Reader.hexDigit? (UInt8.ofNat (0x41 + n)) = some (10 + n) := by
    decide +kernel
  have hlower : ∀ n < 6, Reader.hexDigit? (UInt8.ofNat (0x61 + n)) = some (10 + n) := by
    decide +kernel
  cases h with
  | digit h => exact hdigit _ h
  | upper h => exact hupper _ h
  | lower h => exact hlower _ h

theorem HexText.hex4 {t : Bytes} {u : Nat} (h : HexText t u) : Hex4 t u := by
  obtain @⟨a, b, c, d, i, j, k, l, ha, hb, hc, hd⟩ := h
  have hu : i * 16 ^ 3 + j * 16 ^ 2 + k * 16 + l = ((i * 16 + j) * 16 + k) * 16 + l := by ring
  rw [hu]
  exact .mk ha.hexDigit? hb.hexDigit? hc.hexDigit? hd.hexDigit?

theorem shortEscape?_of_mem {e c : UInt8} (h : (e, c) ∈ shortEscapes) :
    shortEscape? e = some c := by
  simp only [shortEscapes, List.mem_cons, Prod.mk.injEq, List.not_mem_nil, or_false] at h
  rcases h with ⟨rfl, rfl⟩ | ⟨rfl, rfl⟩ | ⟨rfl, rfl⟩ | ⟨rfl, rfl⟩ | ⟨rfl, rfl⟩ | ⟨rfl, rfl⟩ |
    ⟨rfl, rfl⟩ | ⟨rfl, rfl⟩
  all_goals rfl

/-- Bits above the others are added. -/
theorem or_eq_add (k a : Nat) {n : Nat} (h : n < 2 ^ k) : 2 ^ k * a ||| n = n + 2 ^ k * a := by
  rw [← Nat.two_pow_add_eq_or_of_lt h, Nat.add_comm]

/-- The reader's encoding of a code point. -/
theorem encodeUtf8_eq {u : Nat} (h : u ≤ 0x10FFFF) : encodeUtf8 u = .ok (Utf8.encode u) := by
  have hff : ∀ n, n &&& 0xFF = n % 256 := fun n ↦ Nat.and_two_pow_sub_one_eq_mod n 8
  have h3f : ∀ n, n &&& 0x3F = n % 64 := fun n ↦ Nat.and_two_pow_sub_one_eq_mod n 6
  have htail : ∀ n, 0x80 ||| n % 64 = n % 64 + 0x80 := fun n ↦ or_eq_add 6 2 (by omega)
  unfold encodeUtf8 Utf8.encode
  simp only [hff, h3f, htail, Nat.shiftRight_eq_div_pow, Exec.assert_of h, Exec.ok_bind]
  split_ifs with h1 h2 h3
  · rw [Nat.mod_eq_of_lt (by omega : u < 256)]
  · have hhead : 0xC0 ||| u / 2 ^ 6 % 256 = u / 64 % 32 + 0xC0 :=
      (or_eq_add 6 3 (n := u / 2 ^ 6 % 256) (by omega)).trans (by omega)
    rw [hhead]
  · have hhead : 0xE0 ||| u / 2 ^ 12 % 256 = u / 4096 % 16 + 0xE0 :=
      (or_eq_add 5 7 (n := u / 2 ^ 12 % 256) (by omega)).trans (by omega)
    rw [hhead]
  · have hhead : 0xF0 ||| u / 2 ^ 18 % 256 = u / 262144 % 8 + 0xF0 :=
      (or_eq_add 4 15 (n := u / 2 ^ 18 % 256) (by omega)).trans (by omega)
    rw [hhead]

theorem toNat_valid (c : Char) : c.toNat < 0xD800 ∨ 0xDFFF < c.toNat ∧ c.toNat < 0x110000 := c.valid

/-- The encoding of a character is its UTF-8. -/
theorem encodeUtf8_toNat (c : Char) : encodeUtf8 c.toNat = .ok (String.utf8EncodeChar c) := by
  have hv := toNat_valid c
  exact encodeUtf8_eq (by omega)

theorem RendersChars.charsText {b t : Bytes} (h : RendersChars b t) : CharsText t b := by
  induction h with
  | nil => exact .nil
  | raw hc hq hb _ ih => exact .raw hc hq hb ih
  | short he _ ih => exact .escape (.short (shortEscape?_of_mem he)) ih
  | @unicode c h b t hh _ ih =>
      have ht : CodePointText (0x5c :: 0x75 :: h) c.toNat :=
        .single hh.hex4 fun hu ↦ by
          have hv := toNat_valid c
          simp only [HighSurrogate] at hu
          omega
      exact .escape (.codePoint ht (encodeUtf8_toNat c)) ih
  | @pair c h h2 b t hc hh hh2 _ ih =>
      have hv := toNat_valid c
      have ht := CodePointText.pair hh.hex4 ⟨by omega, by omega⟩ hh2.hex4 ⟨by omega, by omega⟩
      have hu : pairCodePoint (0xD800 + (c.toNat - 0x10000) / 0x400)
          (0xDC00 + (c.toNat - 0x10000) % 0x400) = c.toNat := by
        unfold pairCodePoint
        omega
      rw [hu] at ht
      have he := CharsText.escape (.codePoint ht (encodeUtf8_toNat c)) ih
      simpa using he

theorem RendersString.stringText {b t : Bytes} (h : RendersString b t) : StringText t b := by
  obtain ⟨h⟩ := h
  exact .mk h.charsText

/-! ## Values -/

/-- A tree, or what stands between the brackets of a container that is not empty: its elements in
order, or its members in the order of the text. -/
inductive Fragment where
  | value (v : Value)
  | items (xs : List Value)
  | members (ms : List (Bytes × Value))

section

variable [DoubleText]

/-- `Renders n t`: the text `t` is one of those for `n`, up to the whitespace before the closing
bracket.  The number of a numeral with a fraction or an exponent is what `strtod` makes of it. -/
inductive Renders : Fragment → Bytes → Prop
  | null : Renders (.value .null) (lit "null")
  | true : Renders (.value (.bool true)) (lit "true")
  | false : Renders (.value (.bool false)) (lit "false")
  | int32 {i : Int32} {s : Bytes} (hs : IntText s i.toInt) :
      Renders (.value (.int32 i)) (s ++ lit "i32")
  | int64 {i : Int64} {s : Bytes} (hs : IntText s i.toInt) :
      Renders (.value (.int64 i)) (s ++ lit "i64")
  | double {d : Double} {s f e : Bytes} (h : DoubleNumeral s f e)
      (hd : DoubleText.strtod (s ++ f ++ e) = some d) : Renders (.value (.double d)) (s ++ f ++ e)
  | string {b t : Bytes} (h : RendersString b t) : Renders (.value (.string b)) t
  | emptyArray {w : Bytes} (hw : Ws w) : Renders (.value (.array [])) (0x5b :: (w ++ [0x5d]))
  | array {xs : List Value} {w t : Bytes} (hw : Ws w) (h : Renders (.items xs) t) :
      Renders (.value (.array xs)) (0x5b :: (w ++ t ++ [0x5d]))
  | emptyObject {w : Bytes} (hw : Ws w) : Renders (.value (.object [])) (0x7b :: (w ++ [0x7d]))
  | object {ms ms' : List (Bytes × Value)} {w t : Bytes} (hs : OrderedMap.Sorted ms)
      (hp : ms'.Perm ms) (hw : Ws w) (h : Renders (.members ms') t) :
      Renders (.value (.object ms)) (0x7b :: (w ++ t ++ [0x7d]))
  | item {x : Value} {t w : Bytes} (h : Renders (.value x) t) (hw : Ws w) :
      Renders (.items [x]) (t ++ w)
  | items {x : Value} {xs : List Value} {t w w' t' : Bytes} (h : Renders (.value x) t) (hw : Ws w)
      (hw' : Ws w') (h' : Renders (.items xs) t') :
      Renders (.items (x :: xs)) (t ++ w ++ 0x2c :: (w' ++ t'))
  | member {k : Bytes} {x : Value} {s w₁ w₂ t w : Bytes} (hk : RendersString k s) (hw₁ : Ws w₁)
      (hw₂ : Ws w₂) (h : Renders (.value x) t) (hw : Ws w) :
      Renders (.members [(k, x)]) (s ++ w₁ ++ 0x3a :: (w₂ ++ t ++ w))
  | members {k : Bytes} {x : Value} {ms : List (Bytes × Value)} {s w₁ w₂ t w w' t' : Bytes}
      (hk : RendersString k s) (hw₁ : Ws w₁) (hw₂ : Ws w₂) (h : Renders (.value x) t) (hw : Ws w)
      (hw' : Ws w') (h' : Renders (.members ms) t') :
      Renders (.members ((k, x) :: ms))
        (s ++ w₁ ++ 0x3a :: (w₂ ++ t ++ w ++ 0x2c :: (w' ++ t')))

/-- What is to be shown of a text: it is read as what it renders, behind whatever was read before
it in its container, and before anything that may come after it. -/
def ReadsAs : Fragment → Bytes → Prop
  | .value v, t => ∀ r, Follow r → Reads .value (t ++ r) false v r
  | .items xs, t => ∀ done r, Reads (.items done) (t ++ 0x5d :: r) false (.array (done ++ xs)) r
  | .members ms, t => ∀ done r, (OrderedMap.keys ms ++ OrderedMap.keys done).Nodup →
      Reads (.members done) (t ++ 0x7d :: r) false (.object (OrderedMap.emplaceAll ms done)) r

theorem Renders.readsAs {n : Fragment} {t : Bytes} (h : Renders n t) : ReadsAs n t := by
  induction h with
  | null => exact fun r _ ↦ .scalar .null
  | true => exact fun r _ ↦ .scalar .true
  | false => exact fun r _ ↦ .scalar .false
  | @int32 i s hs =>
      intro r _
      have h := ReadsNumber.int32 (r := r) hs ⟨i.le_toInt, i.toInt_lt⟩
      rw [Int32.ofInt_toInt, ← List.append_assoc] at h
      exact .scalar (.number h)
  | @int64 i s hs =>
      intro r _
      have h := ReadsNumber.int64 (r := r) hs ⟨i.le_toInt, i.toInt_lt⟩
      rw [Int64.ofInt_toInt, ← List.append_assoc] at h
      exact .scalar (.number h)
  | double h hd =>
      intro r hr
      have hi : Stream.front r ≠ 0x69 := hr.front_ne (by decide) (by decide) (by decide)
      exact .scalar (.number (.double h (hr.endsNumeral _) hi hd))
  | string h => exact fun r _ ↦ .scalar (.string h.stringText)
  | emptyArray hw =>
      intro r _
      exact .emptyArray (by simp) hw
  | array hw _ ih =>
      intro r _
      exact .array (by simp) hw (ih [] r)
  | emptyObject hw =>
      intro r _
      exact .emptyObject (by simp) hw
  | @object ms ms' w t hs hp hw _ ih =>
      intro r _
      have hn : (OrderedMap.keys ms' ++ OrderedMap.keys ([] : List (Bytes × Value))).Nodup := by
        rw [OrderedMap.keys_nil, List.append_nil]
        exact (hp.map Prod.fst).nodup_iff.mpr hs.nodup_keys
      have h := ih [] r hn
      rw [hs.emplaceAll_eq hp] at h
      exact .object (by simp) hw h
  | item h hw ih =>
      intro done r
      rw [List.append_assoc]
      exact .lastItem (ih _ (follow_append hw (by simp) r)) rfl hw
  | @items x xs t w w' t' _ hw hw' _ ih ih' =>
      intro done r
      have hx := ih _ (follow_append hw (.inl rfl) (w' ++ (t' ++ 0x5d :: r)))
      have h := Reads.nextItem hx (by simp) (.comma hw hw') (ih' (done ++ [x]) r)
      simpa using h
  | @member k x s w₁ w₂ t w hk hw₁ hw₂ _ hw ih =>
      intro done r hn
      have hx := ih _ (follow_append hw (.inr (.inr rfl)) r)
      have h := Reads.lastMember rfl (.mk hk.stringText hw₁ hw₂) hx (List.nodup_cons.mp hn).1 rfl hw
      simpa using h
  | @members k x ms s w₁ w₂ t w w' t' hk hw₁ hw₂ _ hw hw' _ ih ih' =>
      intro done r hn
      obtain ⟨hk', hn'⟩ := List.nodup_cons.mp hn
      have hdone : k ∉ OrderedMap.keys done := fun hc ↦ hk' (List.mem_append_right _ hc)
      have hx := ih _ (follow_append hw (.inl rfl) (w' ++ (t' ++ 0x7d :: r)))
      have hrest := ih' (OrderedMap.emplace k x done) r (OrderedMap.nodup_keys_emplace hn)
      have h := Reads.nextMember rfl (.mk hk.stringText hw₁ hw₂) hx hdone rfl hw hw' hrest
      simpa using h

/-- Every text of a document tree, with whitespace around it, is read as the tree. -/
theorem parse_of_renders {v : Value} {w t w' : Bytes} (hw : Ws w) (h : Renders (.value v) t)
    (hw' : Ws w') : Reader.parse (w ++ t ++ w') = .ok (.PARSE_OK, some v) := by
  rw [List.append_assoc]
  exact Reader.parse_of_reads hw hw' (h.readsAs _ hw'.follow)

end

/-- Two members out of order, with an escape and some whitespace. -/
theorem parse_of_renders_sample :
    @Reader.parse noDoubles (lit " \x7b\"b\":\"\\u00E9\" ,\"a\":1i32\x7d\n") =
      .ok (.PARSE_OK, some (.object [(lit "a", .int32 1), (lit "b", .string [0xc3, 0xa9])])) := by
  let _ := noDoubles
  have hspace : Ws [0x20] := by simp [Reader.isWhitespace]
  have hbreak : Ws [0x0a] := by simp [Reader.isWhitespace]
  have ha : RendersString (lit "a") [0x22, 0x61, 0x22] :=
    .mk (.raw (by decide) (by decide) (by decide) .nil)
  have hb : RendersString (lit "b") [0x22, 0x62, 0x22] :=
    .mk (.raw (by decide) (by decide) (by decide) .nil)
  have hone : Renders (.value (.int32 1)) ([0x31] ++ lit "i32") :=
    .int32 (.nonneg (.digits (by decide) (by simp)))
  have hhex : HexText (lit "00E9") (0 * 16 ^ 3 + 0 * 16 ^ 2 + (10 + 4) * 16 + 9) :=
    .mk (.digit (n := 0) (by decide)) (.digit (n := 0) (by decide)) (.upper (n := 4) (by decide))
      (.digit (n := 9) (by decide))
  have hchars : RendersChars [0xc3, 0xa9] (0x5c :: 0x75 :: (lit "00E9" ++ [])) :=
    .unicode (c := 'é') hhex .nil
  have hmembers := Renders.members hb ws_nil ws_nil (.string (.mk hchars)) hspace ws_nil
    (.member ha ws_nil ws_nil hone ws_nil)
  have hs : OrderedMap.Sorted [(lit "a", Value.int32 1), (lit "b", Value.string [0xc3, 0xa9])] := by
    decide
  have hparse := parse_of_renders hspace (.object hs (.swap _ _ _) ws_nil hmembers) hbreak
  refine Eq.trans (congrArg Reader.parse ?_) hparse
  decide

end RpcLearning.Json
