import RpcLearning.Json.Grammar

/-!
# What the reader reads

`Reads sym s b v r`: from a text `s` the reader takes the value `v` and leaves `r`.  Unlike the
grammar it also covers what the reader lets pass: between the elements of an array any character
other than a comma serves as a separator too, provided no whitespace follows it.  The flag `b`
records whether that happened.  The symbols for the insides of containers carry what was read
before, as the loops of the reader do.
-/

namespace RpcLearning.Json

open Numeral (IntText DoubleNumeral EndsNumeral)
open Reader (isWhitespace)

/-- A string literal that the end of the text leaves open. -/
inductive Unterminated : Bytes → Prop
  | mk {t b : Bytes} (h : CharsText t b) : Unterminated (0x22 :: t)

/-- A key, its colon, and the whitespace around that. -/
inductive KeyText : Bytes → Bytes → Prop
  | mk {t k w₁ w₂ : Bytes} (ht : StringText t k) (hw₁ : Ws w₁) (hw₂ : Ws w₂) :
      KeyText (t ++ w₁ ++ 0x3a :: w₂) k

/-- What separates two elements of an array, and whether it is anything but a comma. -/
inductive Separator : Bytes → Bool → Prop
  | comma {w w' : Bytes} (hw : Ws w) (hw' : Ws w') : Separator (w ++ 0x2c :: w') false
  | other {w : Bytes} {c : UInt8} (hw : Ws w) (hc : isWhitespace c = false) (h : c ≠ 0x2c)
      (h' : c ≠ 0x5d) : Separator (w ++ [c]) true

theorem Unterminated.exists_cons {s : Bytes} (h : Unterminated s) : ∃ t, s = 0x22 :: t := by
  cases h
  exact ⟨_, rfl⟩

theorem KeyText.exists_cons {t k : Bytes} (h : KeyText t k) : ∃ u, t = 0x22 :: u := by
  cases h with
  | mk ht _ _ =>
      obtain ⟨u, rfl⟩ := ht.exists_cons
      exact ⟨_, rfl⟩

theorem Separator.exists_cons {u : Bytes} {b : Bool} (h : Separator u b) : ∃ c t, u = c :: t := by
  cases h with
  | @comma w w' _ _ => cases w <;> exact ⟨_, _, rfl⟩
  | @other w c _ _ _ _ => cases w <;> exact ⟨_, _, rfl⟩

/-- The nonterminals together with the elements or members read so far. -/
inductive Reading where
  | value
  | items (xs : List Value)
  | members (ms : List (Bytes × Value))

variable [DoubleText]

/-- A numeral, together with the character behind it. -/
inductive ReadsNumber : Bytes → Value → Bytes → Prop
  | int32 {s r : Bytes} {i : Int} (hs : IntText s i) (hi : -2 ^ 31 ≤ i ∧ i < 2 ^ 31) :
      ReadsNumber (s ++ (lit "i32" ++ r)) (.int32 (Int32.ofInt i)) r
  | int64 {s r : Bytes} {i : Int} (hs : IntText s i) (hi : -2 ^ 63 ≤ i ∧ i < 2 ^ 63) :
      ReadsNumber (s ++ (lit "i64" ++ r)) (.int64 (Int64.ofInt i)) r
  | double {s f e r : Bytes} {d : Double} (h : DoubleNumeral s f e) (hr : EndsNumeral e r)
      (hi : Stream.front r ≠ 0x69) (hd : DoubleText.strtod (s ++ f ++ e) = some d) :
      ReadsNumber (s ++ f ++ e ++ r) (.double d) r

inductive ReadsScalar : Bytes → Value → Bytes → Prop
  | null {r : Bytes} : ReadsScalar (lit "null" ++ r) .null r
  | true {r : Bytes} : ReadsScalar (lit "true" ++ r) (.bool true) r
  | false {r : Bytes} : ReadsScalar (lit "false" ++ r) (.bool false) r
  | string {t b r : Bytes} (h : StringText t b) : ReadsScalar (t ++ r) (.string b) r
  | number {s r : Bytes} {v : Value} (h : ReadsNumber s v r) : ReadsScalar s v r

inductive Reads : Reading → Bytes → Bool → Value → Bytes → Prop
  | scalar {s r : Bytes} {v : Value} (h : ReadsScalar s v r) : Reads .value s false v r
  | emptyArray {s w r : Bytes} (hs : s = 0x5b :: (w ++ 0x5d :: r)) (hw : Ws w) :
      Reads .value s false (.array []) r
  | array {s w t r : Bytes} {b : Bool} {v : Value} (hs : s = 0x5b :: (w ++ t)) (hw : Ws w)
      (h : Reads (.items []) t b v r) : Reads .value s b v r
  | emptyObject {s w r : Bytes} (hs : s = 0x7b :: (w ++ 0x7d :: r)) (hw : Ws w) :
      Reads .value s false (.object []) r
  | object {s w t r : Bytes} {b : Bool} {v : Value} (hs : s = 0x7b :: (w ++ t)) (hw : Ws w)
      (h : Reads (.members []) t b v r) : Reads .value s b v r
  | lastItem {xs : List Value} {s w r t : Bytes} {b : Bool} {x : Value}
      (h : Reads .value s b x t) (ht : t = w ++ 0x5d :: r) (hw : Ws w) :
      Reads (.items xs) s b (.array (xs ++ [x])) r
  | nextItem {xs : List Value} {s t u t' r : Bytes} {b b' b'' : Bool} {x v : Value}
      (h : Reads .value s b x t) (ht : t = u ++ t') (hu : Separator u b')
      (h' : Reads (.items (xs ++ [x])) t' b'' v r) :
      Reads (.items xs) s (b || b' || b'') v r
  | lastMember {ms : List (Bytes × Value)} {s k key t u w r : Bytes} {b : Bool} {x : Value}
      (hs : s = k ++ t) (hk : KeyText k key) (h : Reads .value t b x u)
      (hkey : key ∉ OrderedMap.keys ms) (hu : u = w ++ 0x7d :: r) (hw : Ws w) :
      Reads (.members ms) s b (.object (OrderedMap.emplace key x ms)) r
  | nextMember {ms : List (Bytes × Value)} {s k key t u w w' t' r : Bytes} {b b' : Bool}
      {x v : Value} (hs : s = k ++ t) (hk : KeyText k key) (h : Reads .value t b x u)
      (hkey : key ∉ OrderedMap.keys ms) (hu : u = w ++ 0x2c :: (w' ++ t')) (hw : Ws w)
      (hw' : Ws w') (h' : Reads (.members (OrderedMap.emplace key x ms)) t' b' v r) :
      Reads (.members ms) s (b || b') v r

end RpcLearning.Json
