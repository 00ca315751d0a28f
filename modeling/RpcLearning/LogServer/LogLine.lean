import RpcLearning.Json.Value
import RpcLearning.Lib.BigEndian
import RpcLearning.Lib.Numeral

/-!
# Log lines

`LogLine` (`LogServer/log_line.cpp`): what is streamed into a line is kept in a buffer, each value
under a tag that says what it is, and is turned into text when the line is written.  Numbers lie in
the buffer as they lie in memory, with the lowest byte first.  The buffer is on the stack until it
becomes too small.
-/

namespace RpcLearning.LogServer

open Json (Bytes Double lit)

/-- What the C++ library prints for a timestamp, a thread and a double, and what lies at the
addresses of the program's string literals. -/
class LogText where
  format_timestamp : BitVec 64 → Bytes
  threadId : BitVec 64 → Bytes
  double : Double → Bytes
  cString : BitVec 64 → Option Bytes

inductive LogLevel where
  | TRACE
  | DEBUG
  | INFO
  | WARN
  | ERROR
  | FATAL
deriving DecidableEq, Repr

namespace LogLevel

def code : LogLevel → BitVec 8
  | TRACE => 0
  | DEBUG => 1
  | INFO => 2
  | WARN => 3
  | ERROR => 4
  | FATAL => 5

/-- `to_string(level)`, on the byte that was read. -/
def to_string (level : BitVec 8) : Bytes :=
  if level = 0 then lit "TRACE"
  else if level = 1 then lit "DEBUG"
  else if level = 2 then lit "INFO"
  else if level = 3 then lit "WARN"
  else if level = 4 then lit "ERROR"
  else if level = 5 then lit "FATAL"
  else lit "XXXX"

end LogLevel

/-- What a `const char*` points to, up to the `'\0'`. -/
abbrev CString := {s : Bytes // 0 ∉ s}

/-- What can be streamed into a line.  A string literal decays to a `const char*`, which may also
be null; a `char` array that is not const binds to `const char (&)[N]`, and is known by its
address. -/
inductive Arg where
  | char (arg : UInt8)
  | uint32 (arg : UInt32)
  | uint64 (arg : UInt64)
  | int32 (arg : Int32)
  | int64 (arg : Int64)
  | double (arg : Double)
  | cString (arg : Option CString)
  | string (arg : Bytes)
  | array (arg : BitVec 64)

/-! ## The buffer -/

/-- `m_stack_buffer` holds the line until `m_heap_buffer` is there. -/
structure LogLine where
  m_buffer_used : Nat
  m_buffer_size : Nat
  m_heap_buffer : Option Bytes
  m_stack_buffer : Bytes
  size_eq : (m_heap_buffer.getD m_stack_buffer).length = m_buffer_size
  used_le_size : m_buffer_used ≤ m_buffer_size

namespace LogLine

theorem length_stack : (List.replicate 256 (0 : UInt8)).length = 256 := List.length_replicate

/-- A line without anything in it. -/
def empty : LogLine where
  m_buffer_used := 0
  m_buffer_size := 256
  m_heap_buffer := none
  m_stack_buffer := List.replicate 256 0
  size_eq := List.length_replicate
  used_le_size := Nat.zero_le _

/-- The buffer that is in use. -/
def memory (l : LogLine) : Bytes := l.m_heap_buffer.getD l.m_stack_buffer

/-- What has been put into the buffer. -/
def content (l : LogLine) : Bytes := l.memory.take l.m_buffer_used

/-- `data` copied into `b` from `pos` on. -/
def overwrite (pos : Nat) (data b : Bytes) : Bytes :=
  b.take pos ++ data ++ b.drop (pos + data.length)

theorem length_overwrite {pos : Nat} {data b : Bytes} (h : pos + data.length ≤ b.length) :
    (overwrite pos data b).length = b.length := by
  simp only [overwrite, List.length_append, List.length_take, List.length_drop]
  omega

/-- A copy to `buffer()`, after which that much more is used. -/
def put (data : Bytes) (l : LogLine) : Run LogLine :=
  if h : l.m_buffer_used + data.length ≤ l.m_buffer_size then
    .ok {
      m_buffer_used := l.m_buffer_used + data.length
      m_buffer_size := l.m_buffer_size
      m_heap_buffer := l.m_heap_buffer.map (overwrite l.m_buffer_used data)
      m_stack_buffer :=
        if l.m_heap_buffer.isSome then l.m_stack_buffer
        else overwrite l.m_buffer_used data l.m_stack_buffer
      size_eq := by
        have hsize := l.size_eq
        cases hheap : l.m_heap_buffer with
        | none =>
            rw [hheap, Option.getD_none] at hsize
            exact (length_overwrite (by omega)).trans hsize
        | some b =>
            rw [hheap, Option.getD_some] at hsize
            exact (length_overwrite (by omega)).trans hsize
      used_le_size := h }
  else .error .pastEnd

/-- `resize_if_need`; the new memory is not initialised. -/
def resize_if_need (need_size : Nat) (l : LogLine) : LogLine :=
  let required_size := l.m_buffer_used + need_size
  if required_size ≤ l.m_buffer_size then l
  else
    let size := if l.m_heap_buffer.isSome then max (2 * l.m_buffer_size) required_size
      else max 512 required_size
    { m_buffer_used := l.m_buffer_used
      m_buffer_size := size
      m_heap_buffer := some (l.content ++ List.replicate (size - l.m_buffer_used) 0)
      m_stack_buffer := l.m_stack_buffer
      size_eq := by
        have hsize := l.size_eq
        have hused := l.used_le_size
        have hle : l.m_buffer_used ≤ size := by
          simp only [size, required_size]
          split <;> omega
        rw [Option.getD_some, content, memory, List.length_append, List.length_take, hsize,
          List.length_replicate]
        omega
      used_le_size := by
        simp only [size, required_size]
        split <;> omega }

/-! ## Encoding -/

section Raw

variable {n : Nat}

/-- A value of `n` bytes in memory. -/
def raw (arg : BitVec (8 * n)) : Bytes := (BigEndian.ofWord arg).reverse

/-- `encode<Arg>(arg)` -/
def encode (arg : BitVec (8 * n)) (l : LogLine) : Run LogLine := l.put (raw arg)

/-- `encode<Arg>(arg, type_id)` -/
def encodeTagged (arg : BitVec (8 * n)) (type_id : UInt8) (l : LogLine) : Run LogLine := do
  let l := l.resize_if_need (n + 1)
  let l ← l.put [type_id]
  l.encode arg

end Raw

def encode_c_str (str : Bytes) (l : LogLine) : Run LogLine :=
  if str.length = 0 then .ok l
  else do
    let l := l.resize_if_need (1 + str.length + 1)
    let l ← l.put [7]
    l.put (str ++ [0])

/-- `operator<<`; the tags are the places of the types in `SupportedTypes`.  That for arrays keeps
the pointer, and has no return statement. -/
def shl (l : LogLine) : Arg → Run LogLine
  | .char arg => l.encodeTagged (n := 1) arg.toBitVec 0
  | .uint32 arg => l.encodeTagged (n := 4) arg.toBitVec 1
  | .uint64 arg => l.encodeTagged (n := 8) arg.toBitVec 2
  | .int32 arg => l.encodeTagged (n := 4) arg.toBitVec 3
  | .int64 arg => l.encodeTagged (n := 8) arg.toBitVec 4
  | .double arg => l.encodeTagged (n := 8) arg.bits.toBitVec 5
  | .cString none => .ok l
  | .cString (some arg) => l.encode_c_str arg
  | .string arg => l.encode_c_str arg
  | .array arg => do
    let _ ← l.encodeTagged (n := 8) arg 6
    .error .noReturn

/-- What a line is made with; the names of the file and of the function are literals. -/
structure Header [LogText] where
  timestamp : BitVec 64
  threadid : BitVec 64
  file : BitVec 64
  function : BitVec 64
  line : BitVec 32
  level : LogLevel
  file_literal : (LogText.cString file).isSome
  function_literal : (LogText.cString function).isSome

variable [LogText]

/-- `LogLine(level, file, function, line)` -/
def new (h : Header) : Run LogLine := do
  let l ← empty.encode (n := 8) h.timestamp
  let l ← l.encode (n := 8) h.threadid
  let l ← l.encode (n := 8) h.file
  let l ← l.encode (n := 8) h.function
  let l ← l.encode (n := 4) h.line
  l.encode (n := 1) h.level.code

/-- The statement that logs: a line, and what is streamed into it. -/
def log (h : Header) (args : List Arg) : Run LogLine := do
  let l ← new h
  args.foldlM shl l

/-! ## Decoding -/

/-- `*reinterpret_cast<Arg*>(begin)` -/
def read (n : Nat) (begin : Bytes) : Run (BitVec (8 * n) × Bytes) :=
  if n ≤ begin.length then .ok (BigEndian.toWord n (begin.take n).reverse, begin.drop n)
  else .error .pastEnd

/-- The text of a literal, by its address. -/
def pstr (address : BitVec 64) : Run Bytes :=
  match LogText.cString address with
  | some s => .ok s
  | none => .error .dangling

/-- `decode(os, begin, Arg*)`: the text, and where it ends. -/
def decodeArg (n : Nat) (print : BitVec (8 * n) → Bytes) (begin : Bytes) : Run (Bytes × Bytes) := do
  let (arg, begin) ← read n begin
  .ok (print arg, begin)

/-- `decode(os, begin, stringWrapper*)` -/
def decodeLiteral (begin : Bytes) : Run (Bytes × Bytes) := do
  let (address, begin) ← read 8 begin
  let s ← pstr address
  .ok (s, begin)

/-- `decode(os, begin, char**)` -/
def decodeChars : Bytes → Run (Bytes × Bytes)
  | [] => .error .pastEnd
  | c :: begin =>
    if c ≠ 0 then do
      let (text, begin) ← decodeChars begin
      .ok (c :: text, begin)
    else .ok ([], begin)

/-- The `switch` of `stringify`.  Other tags are passed over. -/
def decode (type_id : UInt8) (begin : Bytes) : Run (Bytes × Bytes) :=
  match type_id with
  | 0 => decodeArg 1 (fun x ↦ [⟨x⟩]) begin
  | 1 => decodeArg 4 (fun x ↦ Numeral.toDecimal x.toNat) begin
  | 2 => decodeArg 8 (fun x ↦ Numeral.toDecimal x.toNat) begin
  | 3 => decodeArg 4 (fun x ↦ Numeral.to_string x.toInt) begin
  | 4 => decodeArg 8 (fun x ↦ Numeral.to_string x.toInt) begin
  | 5 => decodeArg 8 (fun x ↦ LogText.double ⟨⟨x⟩⟩) begin
  | 6 => decodeLiteral begin
  | 7 => decodeChars begin
  | _ => .ok ([], begin)

/-- The loop of `stringify`, from `begin` to `end`: the tags, with the texts that are printed. -/
def stringifyLoop : Nat → Bytes → Run (List (UInt8 × Bytes))
  | _, [] => .ok []
  | 0, _ :: _ => .error .fuel
  | fuel + 1, type_id :: begin => do
    let (text, begin) ← decode type_id begin
    let fields ← stringifyLoop fuel begin
    .ok ((type_id, text) :: fields)

/-- `stringify`: what stands before the values, and the values. -/
def stringify (l : LogLine) : Run (Bytes × List (UInt8 × Bytes)) := do
  let (timestamp, begin) ← read 8 l.content
  let (threadid, begin) ← read 8 begin
  let (file, begin) ← read 8 begin
  let (function, begin) ← read 8 begin
  let (line, begin) ← read 4 begin
  let (level, begin) ← read 1 begin
  let file ← pstr file
  let function ← pstr function
  let fields ← stringifyLoop begin.length begin
  .ok (LogText.format_timestamp timestamp ++ lit "[" ++ LogLevel.to_string level ++ lit "]" ++
    lit "[" ++ LogText.threadId threadid ++ lit "]" ++
    lit "[" ++ file ++ lit ":" ++ function ++ lit ":" ++ Numeral.toDecimal line.toNat ++ lit "]",
    fields)

end LogLine

end RpcLearning.LogServer
