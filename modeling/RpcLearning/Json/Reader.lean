import RpcLearning.Json.Value
import RpcLearning.Lib.Numeral

/-!
# The JSON reader

`StringReadStream` (`JsonServer/ReadStream.h`) and `Reader` (`JsonServer/Reader.h`).  A stream is
what lies between its iterator and the end of its text.  `return e` with an error code is a thrown
`ParseError`, together with what the out-parameter holds at that point; `return PARSE_OK` is an
ordinary result.  The recursion of `parseValue` and of the loops under it takes a bound, which
`parse` chooses from the length of its text.
-/

namespace RpcLearning.Json

open Numeral (isDigit isDigit19 skipDigits strtol strtodRest)

inductive ParseError where
  | PARSE_OK
  | PARSE_EXPECT_VALUE
  | PARSE_INVALID_VALUE
  | PARSE_ROOT_NOT_SINGULAR
  | PARSE_NUMBER_TOO_BIG
  | PARSE_MISS_QUOTATION_MARK
  | PARSE_INVALID_STRING_ESCAPE
  | PARSE_INVALID_STRING_CHAR
  | PARSE_INVALID_UNICODE_HEX
  | PARSE_INVALID_UNICODE_SURROGATE
  | PARSE_MISS_COMMA_OR_SQUARE_BRACKET
  | PARSE_MISS_KEY
  | PARSE_MISS_COLON
  | PARSE_MISS_COMMA_OR_CURLY_BRACKET
deriving DecidableEq, Repr

def parseErrorStr : ParseError → Bytes
  | .PARSE_OK => lit "ok"
  | .PARSE_EXPECT_VALUE => lit "expect value"
  | .PARSE_INVALID_VALUE => lit "invalid value"
  | .PARSE_ROOT_NOT_SINGULAR => lit "root not singular"
  | .PARSE_NUMBER_TOO_BIG => lit "number too big"
  | .PARSE_MISS_QUOTATION_MARK => lit "miss quotation mark"
  | .PARSE_INVALID_STRING_ESCAPE => lit "invalid string escape"
  | .PARSE_INVALID_STRING_CHAR => lit "invalid string char"
  | .PARSE_INVALID_UNICODE_HEX => lit "invalid unicode hex"
  | .PARSE_INVALID_UNICODE_SURROGATE => lit "invalid unicode surrogate"
  | .PARSE_MISS_COMMA_OR_SQUARE_BRACKET => lit "miss comma or sqare bracket"
  | .PARSE_MISS_KEY => lit "miss key"
  | .PARSE_MISS_COLON => lit "miss colon"
  | .PARSE_MISS_COMMA_OR_CURLY_BRACKET => lit "miss comma or curly bracket"

/-- An execution of a parsing function: an error code leaves it together with the value held by
the out-parameter. -/
abbrev Parse := Exec (ParseError × Value)

/-! ## The stream -/

/-- The characters from the iterator to the end. -/
abbrev Stream := Bytes

namespace Stream

def hasNext (is : Stream) : Bool := !is.isEmpty

/-- The character at the iterator, `'\0'` at the end. -/
def front : Stream → UInt8
  | [] => 0
  | c :: _ => c

/-- `++it`, which must not be done at the end. -/
def pop : Stream → Parse Stream
  | [] => .fault .pastEnd
  | _ :: is => .ok is

/-- The character at the iterator, and the iterator moved unless it is at the end. -/
def next : Stream → UInt8 × Stream
  | [] => (0, [])
  | c :: is => (c, is)

def expect (ch : UInt8) (is : Stream) : Parse Stream := do
  Exec.assert (is.front = ch)
  is.pop

@[simp] theorem front_nil : front [] = 0 := rfl
@[simp] theorem front_cons (c : UInt8) (is : Stream) : front (c :: is) = c := rfl
@[simp] theorem pop_cons (c : UInt8) (is : Stream) : pop (c :: is) = .ok is := rfl
@[simp] theorem next_nil : next [] = (0, []) := rfl
@[simp] theorem next_cons (c : UInt8) (is : Stream) : next (c :: is) = (c, is) := rfl
@[simp] theorem expect_cons (c : UInt8) (is : Stream) : expect c (c :: is) = .ok is := by
  simp [expect, Exec.assert_of]

/-- A character other than `'\0'` at the front is really there. -/
theorem eq_cons_of_front {is : Stream} {c : UInt8} (h : is.front = c) (hc : c ≠ 0) :
    ∃ t, is = c :: t := by
  cases is with
  | nil => exact absurd h.symm hc
  | cons d t => exact ⟨t, by rw [← h]; rfl⟩

theorem eq_cons_of_next {is : Stream} {c : UInt8} (h : is.next.1 = c) (hc : c ≠ 0) :
    ∃ t, is = c :: t := by
  have hf : is.front = c := by cases is <;> exact h
  exact eq_cons_of_front hf hc

end Stream

/-! ## The reader -/

namespace Reader

def isWhitespace (ch : UInt8) : Bool := ch == 0x20 || ch == 0x09 || ch == 0x0d || ch == 0x0a

def parseWhitespace : Stream → Stream
  | [] => []
  | ch :: is => if isWhitespace ch then parseWhitespace is else ch :: is

/-- The loop of `parseLiteral`: the unmatched rest of the literal, and the stream. -/
def matchLiteral : Bytes → Stream → Parse (Bytes × Stream)
  | [], is => .ok ([], is)
  | l :: literal, is => if l = is.front then do matchLiteral literal (← is.pop)
      else .ok (l :: literal, is)

def parseLiteral (is : Stream) (literal : Bytes) (type : ValueType) : Parse (Value × Stream) := do
  let c := literal.headD 0
  let is ← is.expect c
  let (literal, is) ← matchLiteral literal.tail is
  if literal ≠ [] then .throw (.PARSE_EXPECT_VALUE, .null)
  else
    match type with
    | .TYPE_BOOL => .ok (.bool (c ≠ 0x66), is)
    | _ => .ok (.null, is)

/-! ### Numbers -/

def invalidValue {α : Type} : Parse α := .throw (.PARSE_INVALID_VALUE, .null)

/-- `while(isDigit(is.front())) is.pop()` after a first digit that has to be there. -/
def scanDigits (is : Stream) : Parse Stream :=
  if isDigit is.front then do
    let is ← is.pop
    .ok (skipDigits is)
  else invalidValue

/-- `'0' | [1-9][0-9]*` -/
def scanNatural (is : Stream) : Parse Stream :=
  if is.front = 0x30 then is.pop
  else if isDigit19 is.front then .ok (skipDigits is)
  else invalidValue

/-- `'-'? ('0' | [1-9][0-9]*)` -/
def scanInteger (is : Stream) : Parse Stream := do
  let is ← if is.front = 0x2d then is.pop else .ok is
  scanNatural is

/-- `('.' [0-9]+)?`, and whether it is there. -/
def scanFraction (is : Stream) : Parse (Bool × Stream) :=
  if is.front = 0x2e then do
    let is ← is.pop
    let is ← scanDigits is
    .ok (true, is)
  else .ok (false, is)

/-- `[+-]?` -/
def scanSign (is : Stream) : Parse Stream :=
  if is.front = 0x2b ∨ is.front = 0x2d then is.pop else .ok is

/-- `([eE] [+-]? [0-9]+)?`, and whether it is there. -/
def scanExponent (is : Stream) : Parse (Bool × Stream) :=
  if is.front = 0x65 ∨ is.front = 0x45 then do
    let is ← is.pop
    let is ← scanSign is
    let is ← scanDigits is
    .ok (true, is)
  else .ok (false, is)

/-- `int64 or int32 ?` -/
def scanSuffix (expectType : ValueType) (is : Stream) : Parse (ValueType × Stream) :=
  if is.front = 0x69 then do
    let is ← is.pop
    if expectType = .TYPE_DOUBLE then invalidValue
    else
      match is.next with
      | (0x33, is) =>
        let (c, is) := is.next
        if c ≠ 0x32 then invalidValue else .ok (.TYPE_INT32, is)
      | (0x36, is) =>
        let (c, is) := is.next
        if c ≠ 0x34 then invalidValue else .ok (.TYPE_INT64, is)
      | _ => invalidValue
  else .ok (expectType, is)

/-- What the out-parameter holds when the conversion throws. -/
def zeroOf : ValueType → Value
  | .TYPE_INT32 => .int32 0
  | .TYPE_INT64 => .int64 0
  | _ => .double ⟨0⟩

variable [DoubleText]

/-- `__stoa(&std::strtod, ..)` on the text from `start`: the value and `idx`, or an exception. -/
def stod (start : Stream) : Option (Double × Nat) := do
  let rest ← strtodRest start
  let idx := start.length - rest.length
  let d ← DoubleText.strtod (start.take idx)
  some (d, idx)

/-- The conversion of the characters between `start` and `end_`. -/
def convert (expectType : ValueType) (start end_ : Stream) : Parse Value :=
  match expectType with
  | .TYPE_DOUBLE =>
    match stod start with
    | none => .throw (.PARSE_NUMBER_TOO_BIG, zeroOf expectType)
    | some (d, idx) => do
      Exec.assert (idx + end_.length = start.length)
      .ok (.double d)
  | _ =>
    match strtol start with
    | none => .throw (.PARSE_NUMBER_TOO_BIG, zeroOf expectType)
    | some i64 =>
      match expectType with
      | .TYPE_INT64 => .ok (.int64 (Int64.ofInt i64))
      | .TYPE_INT32 =>
        if i64 > 2 ^ 31 - 1 ∨ i64 < -2 ^ 31 then .throw (.PARSE_NUMBER_TOO_BIG, .null)
        else .ok (.int32 (Int32.ofInt i64))
      | _ => invalidValue

def parseNumber (start : Stream) : Parse (Value × Stream) := do
  let is ← scanInteger start
  let (frac, is) ← scanFraction is
  let (exp, is) ← scanExponent is
  let (expectType, is) ← scanSuffix (if frac ∨ exp then .TYPE_DOUBLE else .TYPE_NULL) is
  if is.length = start.length then invalidValue
  else
    let value ← convert expectType start is
    .ok (value, is)

/-! ### Strings -/

def hexDigit? (ch : UInt8) : Option Nat :=
  if 0x30 ≤ ch ∧ ch ≤ 0x39 then some (ch.toNat - 0x30)
  else if 0x41 ≤ ch ∧ ch ≤ 0x46 then some (ch.toNat - (0x41 - 10))
  else if 0x61 ≤ ch ∧ ch ≤ 0x66 then some (ch.toNat - (0x61 - 10))
  else none

/-- `i` more hexadecimal digits after those read into `u`. -/
def parseHexDigits : Nat → Nat → Stream → Option (Nat × Stream)
  | 0, u, is => some (u, is)
  | i + 1, u, is =>
    match hexDigit? is.next.1 with
    | some d => parseHexDigits i (u <<< 4 ||| d) is.next.2
    | none => none

def parseHex4 (is : Stream) : Option (Nat × Stream) := parseHexDigits 4 0 is

/-- The bytes `encodeUtf8` pushes for the code point `u`. -/
def encodeUtf8 (u : Nat) : Parse Bytes :=
  if u ≤ 0x7F then .ok [UInt8.ofNat (u &&& 0xFF)]
  else if u ≤ 0x7FF then
    .ok [UInt8.ofNat (0xC0 ||| (u >>> 6 &&& 0xFF)), UInt8.ofNat (0x80 ||| (u &&& 0x3F))]
  else if u ≤ 0xFFFF then
    .ok [UInt8.ofNat (0xE0 ||| (u >>> 12 &&& 0xFF)), UInt8.ofNat (0x80 ||| (u >>> 6 &&& 0x3F)),
      UInt8.ofNat (0x80 ||| (u &&& 0x3F))]
  else do
    Exec.assert (u ≤ 0x10FFFF)
    .ok [UInt8.ofNat (0xF0 ||| (u >>> 18 &&& 0xFF)), UInt8.ofNat (0x80 ||| (u >>> 12 &&& 0x3F)),
      UInt8.ofNat (0x80 ||| (u >>> 6 &&& 0x3F)), UInt8.ofNat (0x80 ||| (u &&& 0x3F))]

/-- The code point after `\u`, with the low half of a surrogate pair. -/
def parseCodePoint (is : Stream) : Parse (Nat × Stream) :=
  match parseHex4 is with
  | none => .throw (.PARSE_INVALID_UNICODE_HEX, .null)
  | some (u, is) =>
    if 0xD800 ≤ u ∧ u ≤ 0xDBFF then
      if is.next.1 ≠ 0x5c then .throw (.PARSE_INVALID_UNICODE_SURROGATE, .null)
      else if is.next.2.next.1 ≠ 0x75 then .throw (.PARSE_INVALID_UNICODE_SURROGATE, .null)
      else
        match parseHex4 is.next.2.next.2 with
        | none => .throw (.PARSE_INVALID_UNICODE_HEX, .null)
        | some (u2, is) =>
          if u2 < 0xDC00 ∨ 0xDFFF < u2 then .throw (.PARSE_INVALID_UNICODE_SURROGATE, .null)
          else .ok (0x10000 + (u - 0xD800) * 0x400 + (u2 - 0xDC00), is)
    else .ok (u, is)

/-- The character a one-letter escape stands for. -/
def shortEscape? : UInt8 → Option UInt8
  | 0x22 => some 0x22
  | 0x5c => some 0x5c
  | 0x2f => some 0x2f
  | 0x62 => some 0x08
  | 0x66 => some 0x0c
  | 0x6e => some 0x0a
  | 0x72 => some 0x0d
  | 0x74 => some 0x09
  | _ => none

/-- What follows a backslash: the bytes pushed, and the stream. -/
def parseEscape (is : Stream) : Parse (Bytes × Stream) :=
  match shortEscape? is.next.1 with
  | some b => .ok ([b], is.next.2)
  | none =>
    if is.next.1 = 0x75 then do
      let (u, is) ← parseCodePoint is.next.2
      let pushed ← encodeUtf8 u
      .ok (pushed, is)
    else .throw (.PARSE_INVALID_STRING_ESCAPE, .null)

/-- The loop of `parseString`.  When the text ends inside the string the loop ends too, and the
function returns `PARSE_OK` with the value it was given. -/
def parseStringLoop : Nat → Bytes → Stream → Parse (Value × Stream)
  | _, _, [] => .ok (.null, [])
  | 0, _, _ :: _ => .fault .fuel
  | fuel + 1, buffer, ch :: is =>
    if ch = 0x22 then .ok (.string buffer, is)
    else if ch = 0x5c then do
      let (pushed, is) ← parseEscape is
      parseStringLoop fuel (buffer ++ pushed) is
    else if ch = 0 then .throw (.PARSE_MISS_QUOTATION_MARK, .null)
    else if ch < 0x20 then .throw (.PARSE_INVALID_STRING_CHAR, .null)
    else parseStringLoop fuel (buffer ++ [ch]) is

def parseString (is : Stream) : Parse (Value × Stream) := do
  let is ← is.expect 0x22
  parseStringLoop is.length [] is

/-! ### Containers -/

/-- An error inside an element leaves `value`, as far as it got, in the out-parameter. -/
def within {α : Type} (value : Value) : Parse α → Parse α := Exec.mapThrown fun e ↦ (e.1, value)

/-- `parseArray`, given its loop. -/
def parseArray (loop : Value → Stream → Parse (Value × Stream)) (is : Stream) :
    Parse (Value × Stream) := do
  let value := Value.array []
  let is ← is.expect 0x5b
  let is := parseWhitespace is
  if is.front = 0x5d then do
    let is ← is.pop
    .ok (value, is)
  else loop value is

/-- `parseObject`, given its loop. -/
def parseObject (loop : Value → Stream → Parse (Value × Stream)) (is : Stream) :
    Parse (Value × Stream) := do
  let object := Value.object []
  let is ← is.expect 0x7b
  let is := parseWhitespace is
  if is.front = 0x7d then do
    let is ← is.pop
    .ok (object, is)
  else loop object is

mutual

def parseValue : Nat → Stream → Parse (Value × Stream)
  | 0, _ => .fault .fuel
  | fuel + 1, is =>
    match is.front with
    | 0x6e => parseLiteral is (lit "null") .TYPE_NULL
    | 0x74 => parseLiteral is (lit "true") .TYPE_BOOL
    | 0x66 => parseLiteral is (lit "false") .TYPE_BOOL
    | 0x22 => parseString is
    | 0x5b => parseArray (parseArrayLoop fuel) is
    | 0x7b => parseObject (parseObjectLoop fuel) is
    | _ => parseNumber is

/-- The `while(true)` of `parseArray`.  Its default case stores an error but does not leave the
loop, so the next round overwrites the error. -/
def parseArrayLoop : Nat → Value → Stream → Parse (Value × Stream)
  | 0, _, _ => .fault .fuel
  | fuel + 1, value, is => do
    let (temp, is) ← within value (parseValue fuel is)
    let value ← Exec.ofRun (value.addValue temp)
    match (parseWhitespace is).next with
    | (0x2c, is) => parseArrayLoop fuel value (parseWhitespace is)
    | (0x5d, is) => .ok (value, is)
    | (_, is) => parseArrayLoop fuel value is

/-- The `while(true)` of `parseObject`. -/
def parseObjectLoop : Nat → Value → Stream → Parse (Value × Stream)
  | 0, _, _ => .fault .fuel
  | fuel + 1, object, is =>
    if is.front ≠ 0x22 then .throw (.PARSE_MISS_KEY, object)
    else do
      let (key, is) ← within object (parseString is)
      match (parseWhitespace is).next with
      | (0x3a, is) =>
        let (value, is) ← within object (parseValue fuel (parseWhitespace is))
        let object ← Exec.ofRun (object.addMember key value)
        let is := parseWhitespace is
        if is.front = 0x2c then do
          let is ← is.pop
          parseObjectLoop fuel object (parseWhitespace is)
        else if is.front = 0x7d then do
          let is ← is.pop
          .ok (object, is)
        else .throw (.PARSE_MISS_COMMA_OR_CURLY_BRACKET, object)
      | _ => .throw (.PARSE_MISS_COLON, object)

end

/-- Enough rounds of `parseValue` and the container loops for a text. -/
def bound (is : Stream) : Nat := 2 * is.length + 1

/-- `Reader::parse`: the error code, and what is assigned to `value` if anything is. -/
def parse (json : Bytes) : Run (ParseError × Option Value) :=
  let is := parseWhitespace json
  Exec.catchAll (fun e ↦ .ok (e.1, some e.2)) do
    let (value, is) ← parseValue (bound is) is
    if (parseWhitespace is).hasNext then .ok (.PARSE_ROOT_NOT_SINGULAR, none)
    else .ok (.PARSE_OK, some value)

end Reader

end RpcLearning.Json
