import RpcLearning.Json.Value
import RpcLearning.Lib.Numeral

/-!
# The JSON writers

`Value::writeTo` (`JsonServer/Value.h`) drives a writer through one call per token; `FastWriter`
(`JsonServer/FastWriter.h`) is the writer of compact text.  Its `prefix` puts the separators, which
it knows from a stack of the containers that are open.  A stream is what was put into it.  Every
member function returns `true`, so the `CALL`s never leave early and the booleans are left out.
-/

namespace RpcLearning.Json

/-- What `Value::writeTo` asks of a writer. -/
class Writer (W : Type) where
  null : W → Run W
  bool : Bool → W → Run W
  int32 : Int32 → W → Run W
  int64 : Int64 → W → Run W
  double : Double → W → Run W
  string : Bytes → W → Run W
  startArray : W → Run W
  endArray : W → Run W
  startObject : W → Run W
  endObject : W → Run W
  key : Bytes → W → Run W

namespace Value

variable {W : Type} [Writer W]

mutual

def writeTo : Value → W → Run W
  | .null, write => Writer.null write
  | .bool b, write => Writer.bool b write
  | .int32 i, write => Writer.int32 i write
  | .int64 i, write => Writer.int64 i write
  | .double d, write => Writer.double d write
  | .string s, write => Writer.string s write
  | .array xs, write => do
    let write ← Writer.startArray write
    let write ← writeElements xs write
    Writer.endArray write
  | .object ms, write => do
    let write ← Writer.startObject write
    let write ← writeMembers ms write
    Writer.endObject write

/-- The loop over the elements of an array. -/
def writeElements : List Value → W → Run W
  | [], write => .ok write
  | x :: xs, write => do
    let write ← x.writeTo write
    writeElements xs write

/-- The loop over the members of an object. -/
def writeMembers : List (Bytes × Value) → W → Run W
  | [], write => .ok write
  | (key, x) :: ms, write => do
    let write ← Writer.key key write
    let write ← x.writeTo write
    writeMembers ms write

end

end Value

/-! ## The fast writer -/

/-- A container that is open.  `valueCount` is an `int`, which is never negative. -/
structure Level where
  inArray_ : Bool
  valueCount : Nat

/-- `++top.valueCount` -/
def Level.count (top : Level) : Run Level :=
  if top.valueCount + 1 < 2 ^ 31 then .ok { top with valueCount := top.valueCount + 1 }
  else .error .overflow

/-- The stack has its top first. -/
structure FastWriter where
  seeValue_ : Bool
  stack_ : List Level
  ws_ : Bytes

namespace FastWriter

def new : FastWriter where
  seeValue_ := false
  stack_ := []
  ws_ := []

def put (t : Bytes) (w : FastWriter) : FastWriter := { w with ws_ := w.ws_ ++ t }

@[simp] theorem put_seeValue_ (t : Bytes) (w : FastWriter) : (w.put t).seeValue_ = w.seeValue_ :=
  rfl

@[simp] theorem put_stack_ (t : Bytes) (w : FastWriter) : (w.put t).stack_ = w.stack_ := rfl

@[simp] theorem put_ws_ (t : Bytes) (w : FastWriter) : (w.put t).ws_ = w.ws_ ++ t := rfl

/-- `prefix` below its first assertion. -/
def putSeparator (type : ValueType) (w : FastWriter) : Run FastWriter :=
  match w.stack_ with
  | [] => .ok w
  | top :: rest => do
    let w ←
      if top.inArray_ then .ok (if top.valueCount > 0 then w.put (lit ",") else w)
      else if top.valueCount % 2 = 1 then .ok (w.put (lit ":"))
      else if type ≠ .TYPE_STRING then .error .assertion
      else .ok (if top.valueCount > 0 then w.put (lit ",") else w)
    let top ← top.count
    .ok { w with stack_ := top :: rest }

/-- `prefix` -/
def putPrefix (type : ValueType) (w : FastWriter) : Run FastWriter :=
  if w.seeValue_ then
    if w.stack_ = [] then .error .assertion else putSeparator type w
  else putSeparator type { w with seeValue_ := true }

/-- A token of type `type` with the text `t`. -/
def token (type : ValueType) (t : Bytes) (w : FastWriter) : Run FastWriter := do
  let w ← w.putPrefix type
  .ok (w.put t)

/-- A digit of `%04x`. -/
def hexDigit (n : Nat) : UInt8 := UInt8.ofNat (if n < 10 then 0x30 + n else 0x61 + (n - 10))

/-- What is put for a character of a string. -/
def escape (u : UInt8) : Bytes :=
  match u with
  | 0x22 => lit "\\\""
  | 0x5c => lit "\\\\"
  | 0x08 => lit "\\b"
  | 0x0c => lit "\\f"
  | 0x0a => lit "\\n"
  | 0x0d => lit "\\r"
  | 0x09 => lit "\\t"
  | _ =>
    if u < 0x20 then lit "\\u00" ++ [hexDigit (u.toNat / 16), hexDigit (u.toNat % 16)]
    else [u]

/-- The characters of a string between quotes. -/
def quoted (str : Bytes) : Bytes := 0x22 :: (str.flatMap escape ++ [0x22])

def null : FastWriter → Run FastWriter := token .TYPE_NULL (lit "null")

def bool (b : Bool) : FastWriter → Run FastWriter :=
  token .TYPE_BOOL (if b then lit "true" else lit "false")

def int32 (i32 : Int32) : FastWriter → Run FastWriter :=
  token .TYPE_INT32 (Numeral.to_string i32.toInt ++ lit "i32")

def int64 (i64 : Int64) : FastWriter → Run FastWriter :=
  token .TYPE_INT64 (Numeral.to_string i64.toInt ++ lit "i64")

def double [DoubleText] (d : Double) : FastWriter → Run FastWriter :=
  token .TYPE_DOUBLE (DoubleText.to_string d)

def string (str : Bytes) : FastWriter → Run FastWriter := token .TYPE_STRING (quoted str)

/-- A key is put as it is. -/
def key (key : Bytes) : FastWriter → Run FastWriter :=
  token .TYPE_STRING (0x22 :: (key ++ [0x22]))

def startArray (w : FastWriter) : Run FastWriter := do
  let w ← w.putPrefix .TYPE_ARRAY
  .ok { w with stack_ := ⟨true, 0⟩ :: w.stack_, ws_ := w.ws_ ++ [0x5b] }

def endArray (w : FastWriter) : Run FastWriter :=
  match w.stack_ with
  | [] => .error .assertion
  | top :: rest =>
    if top.inArray_ then .ok { w with stack_ := rest, ws_ := w.ws_ ++ [0x5d] }
    else .error .assertion

def startObject (w : FastWriter) : Run FastWriter := do
  let w ← w.putPrefix .TYPE_OBJECT
  .ok { w with stack_ := ⟨false, 0⟩ :: w.stack_, ws_ := w.ws_ ++ [0x7b] }

def endObject (w : FastWriter) : Run FastWriter :=
  match w.stack_ with
  | [] => .error .assertion
  | top :: rest =>
    if ¬ top.inArray_ then .ok { w with stack_ := rest, ws_ := w.ws_ ++ [0x7d] }
    else .error .assertion

instance [DoubleText] : Writer FastWriter where
  null := null
  bool := bool
  int32 := int32
  int64 := int64
  double := double
  string := string
  startArray := startArray
  endArray := endArray
  startObject := startObject
  endObject := endObject
  key := key

end FastWriter

end RpcLearning.Json
