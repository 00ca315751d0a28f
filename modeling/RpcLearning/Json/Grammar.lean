import RpcLearning.Json.Reader

/-!
# The grammar of JSON texts

The texts the reader is meant for, as a grammar over byte strings.  Integers carry their width as
a suffix; a numeral without one needs a fraction or an exponent.  The grammar of the leaves comes
with the value each text stands for, since the reader's results are described in the same terms.
-/

namespace RpcLearning.Json

open Numeral (IntText DoubleNumeral)
open Reader (isWhitespace hexDigit? shortEscape? encodeUtf8)

/-- `ws` -/
def Ws (t : Bytes) : Prop := ∀ c ∈ t, isWhitespace c

@[simp] theorem ws_nil : Ws [] := by simp [Ws]

@[simp] theorem ws_cons {c : UInt8} {t : Bytes} : Ws (c :: t) ↔ isWhitespace c ∧ Ws t := by
  simp [Ws]

/-! ## Strings -/

/-- Four hexadecimal digits and their number. -/
inductive Hex4 : Bytes → Nat → Prop
  | mk {a b c d : UInt8} {i j k l : Nat} (ha : hexDigit? a = some i) (hb : hexDigit? b = some j)
      (hc : hexDigit? c = some k) (hd : hexDigit? d = some l) :
      Hex4 [a, b, c, d] (((i * 16 + j) * 16 + k) * 16 + l)

def HighSurrogate (u : Nat) : Prop := 0xD800 ≤ u ∧ u ≤ 0xDBFF

def LowSurrogate (u : Nat) : Prop := 0xDC00 ≤ u ∧ u ≤ 0xDFFF

/-- The code point of a surrogate pair. -/
def pairCodePoint (u u2 : Nat) : Nat := 0x10000 + (u - 0xD800) * 0x400 + (u2 - 0xDC00)

/-- `\uXXXX`, a pair of them when the first is a high surrogate. -/
inductive CodePointText : Bytes → Nat → Prop
  | single {h : Bytes} {u : Nat} (hh : Hex4 h u) (hu : ¬ HighSurrogate u) :
      CodePointText (0x5c :: 0x75 :: h) u
  | pair {h h2 : Bytes} {u u2 : Nat} (hh : Hex4 h u) (hu : HighSurrogate u) (hh2 : Hex4 h2 u2)
      (hu2 : LowSurrogate u2) :
      CodePointText (0x5c :: 0x75 :: (h ++ 0x5c :: 0x75 :: h2)) (pairCodePoint u u2)

/-- An escape and the bytes it stands for. -/
inductive EscapeText : Bytes → Bytes → Prop
  | short {c b : UInt8} (h : shortEscape? c = some b) : EscapeText [0x5c, c] [b]
  | codePoint {t b : Bytes} {u : Nat} (ht : CodePointText t u) (hb : encodeUtf8 u = .ok b) :
      EscapeText t b

/-- The inside of a string literal, and the bytes of the string. -/
inductive CharsText : Bytes → Bytes → Prop
  | nil : CharsText [] []
  | raw {c : UInt8} {t b : Bytes} (hc : 0x20 ≤ c) (hq : c ≠ 0x22) (hb : c ≠ 0x5c)
      (ht : CharsText t b) : CharsText (c :: t) (c :: b)
  | escape {e bs t b : Bytes} (he : EscapeText e bs) (ht : CharsText t b) :
      CharsText (e ++ t) (bs ++ b)

/-- A string literal, closed by its second quote. -/
inductive StringText : Bytes → Bytes → Prop
  | mk {t b : Bytes} (h : CharsText t b) : StringText (0x22 :: (t ++ [0x22])) b

theorem StringText.exists_cons {t b : Bytes} (h : StringText t b) : ∃ u, t = 0x22 :: u := by
  cases h
  exact ⟨_, rfl⟩

/-! ## Values -/

/-- The texts of values that are not containers. -/
inductive ScalarText : Bytes → Prop
  | null : ScalarText (lit "null")
  | true : ScalarText (lit "true")
  | false : ScalarText (lit "false")
  | string {t b : Bytes} (h : StringText t b) : ScalarText t
  | int32 {s : Bytes} {i : Int} (hs : IntText s i) (hi : -2 ^ 31 ≤ i ∧ i < 2 ^ 31) :
      ScalarText (s ++ lit "i32")
  | int64 {s : Bytes} {i : Int} (hs : IntText s i) (hi : -2 ^ 63 ≤ i ∧ i < 2 ^ 63) :
      ScalarText (s ++ lit "i64")
  | double {s f e : Bytes} (h : DoubleNumeral s f e) : ScalarText (s ++ f ++ e)

/-- The nonterminals: a value, and the inside of a non-empty array or object up to the whitespace
before its closing bracket. -/
inductive Symbol where
  | value
  | items
  | members
deriving DecidableEq

inductive Derives : Symbol → Bytes → Prop
  | scalar {t : Bytes} (h : ScalarText t) : Derives .value t
  | emptyArray {w : Bytes} (hw : Ws w) : Derives .value (0x5b :: (w ++ [0x5d]))
  | array {w t : Bytes} (hw : Ws w) (ht : Derives .items t) :
      Derives .value (0x5b :: (w ++ t ++ [0x5d]))
  | emptyObject {w : Bytes} (hw : Ws w) : Derives .value (0x7b :: (w ++ [0x7d]))
  | object {w t : Bytes} (hw : Ws w) (ht : Derives .members t) :
      Derives .value (0x7b :: (w ++ t ++ [0x7d]))
  | item {t w : Bytes} (ht : Derives .value t) (hw : Ws w) : Derives .items (t ++ w)
  | items {t w w' t' : Bytes} (ht : Derives .value t) (hw : Ws w) (hw' : Ws w')
      (ht' : Derives .items t') : Derives .items (t ++ w ++ 0x2c :: (w' ++ t'))
  | member {k b w₁ w₂ t w : Bytes} (hk : StringText k b) (hw₁ : Ws w₁) (hw₂ : Ws w₂)
      (ht : Derives .value t) (hw : Ws w) : Derives .members (k ++ w₁ ++ 0x3a :: (w₂ ++ t ++ w))
  | members {k b w₁ w₂ t w w' t' : Bytes} (hk : StringText k b) (hw₁ : Ws w₁) (hw₂ : Ws w₂)
      (ht : Derives .value t) (hw : Ws w) (hw' : Ws w') (ht' : Derives .members t') :
      Derives .members (k ++ w₁ ++ 0x3a :: (w₂ ++ t ++ w ++ 0x2c :: (w' ++ t')))

/-- `ws value ws` -/
inductive Document : Bytes → Prop
  | mk {w t w' : Bytes} (hw : Ws w) (ht : Derives .value t) (hw' : Ws w') :
      Document (w ++ t ++ w')

end RpcLearning.Json
