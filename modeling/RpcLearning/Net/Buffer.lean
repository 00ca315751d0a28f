import RpcLearning.Lib.BigEndian
import RpcLearning.Lib.Exec

/-!
# The network buffer

`Buffer` (`NetServer/Buffer.h`): a vector of bytes with a read and a write index.  What lies
between the indices is readable; what lies before them can be prepended to, what lies behind them
can be written to.  The order of the indices is part of the type.  Sizes are natural numbers: as
long as they stay below `2 ^ 63`, none of the sums that the functions compute reaches `2 ^ 64`.
-/

namespace RpcLearning.Net

def kCheapPrepend : Nat := 8

def kInitialSize : Nat := 1024

structure Buffer where
  buffer_ : List UInt8
  readerIndex_ : Nat
  writerIndex_ : Nat
  reader_le_writer : readerIndex_ ≤ writerIndex_
  writer_le_size : writerIndex_ ≤ buffer_.length
  cheap_le_size : kCheapPrepend ≤ buffer_.length

namespace Buffer

/-- `Buffer(initialSize)`; the vector starts with zeroes. -/
def new (initialSize : Nat) : Buffer where
  buffer_ := List.replicate (kCheapPrepend + initialSize) 0
  readerIndex_ := kCheapPrepend
  writerIndex_ := kCheapPrepend
  reader_le_writer := le_rfl
  writer_le_size := by simp
  cheap_le_size := by simp

def readableBytes (b : Buffer) : Nat := b.writerIndex_ - b.readerIndex_

def writableBytes (b : Buffer) : Nat := b.buffer_.length - b.writerIndex_

def prependableBytes (b : Buffer) : Nat := b.readerIndex_

/-- The bytes between the indices: `readableBytes()` bytes from `peek()`. -/
def readable (b : Buffer) : List UInt8 := (b.buffer_.take b.writerIndex_).drop b.readerIndex_

/-- `std::search` for `"\r\n"`: the offset of the first occurrence. -/
def searchCRLF : List UInt8 → Option Nat
  | 0x0d :: 0x0a :: _ => some 0
  | _ :: t => (searchCRLF t).map (· + 1)
  | [] => none

/-- `findCRLF()`, as an offset from `peek()`. -/
def findCRLF (b : Buffer) : Option Nat := searchCRLF b.readable

def retrieveAll (b : Buffer) : Buffer where
  buffer_ := b.buffer_
  readerIndex_ := kCheapPrepend
  writerIndex_ := kCheapPrepend
  reader_le_writer := le_rfl
  writer_le_size := b.cheap_le_size
  cheap_le_size := b.cheap_le_size

def retrieve (len : Nat) (b : Buffer) : Run Buffer :=
  if len ≤ b.readableBytes then
    if h : len < b.readableBytes then
      .ok { b with
        readerIndex_ := b.readerIndex_ + len
        reader_le_writer := by
          simp only [readableBytes] at h
          omega }
    else .ok b.retrieveAll
  else .error .assertion

def retrieveAsString (len : Nat) (b : Buffer) : Run (List UInt8 × Buffer) :=
  if len ≤ b.readableBytes then do
    let result := b.readable.take len
    let b ← b.retrieve len
    .ok (result, b)
  else .error .assertion

def retrieveAllAsString (b : Buffer) : Run (List UInt8 × Buffer) :=
  b.retrieveAsString b.readableBytes

/-- `makeSpace`, which is called when `len` bytes do not fit behind the write index. -/
def makeSpace (len : Nat) (b : Buffer) (_h : b.writableBytes < len) : Run Buffer :=
  if b.writableBytes + b.prependableBytes < len + kCheapPrepend then
    .ok { b with
      buffer_ := b.buffer_ ++ List.replicate (b.writerIndex_ + len - b.buffer_.length) 0
      writer_le_size := by
        have := b.writer_le_size
        simp only [List.length_append]
        omega
      cheap_le_size := by
        have := b.cheap_le_size
        simp only [List.length_append]
        omega }
  else if hr : kCheapPrepend < b.readerIndex_ then
    .ok {
      buffer_ := b.buffer_.take kCheapPrepend ++ b.readable ++
        b.buffer_.drop (kCheapPrepend + b.readableBytes)
      readerIndex_ := kCheapPrepend
      writerIndex_ := kCheapPrepend + b.readableBytes
      reader_le_writer := by omega
      writer_le_size := by
        have := b.cheap_le_size
        have := b.writer_le_size
        simp only [readable, readableBytes, List.length_append, List.length_take,
          List.length_drop]
        omega
      cheap_le_size := by
        have := b.cheap_le_size
        simp only [List.length_append, List.length_take]
        omega }
  else .error .assertion

def ensureWriteableBytes (len : Nat) (b : Buffer) : Run Buffer := do
  let b ← if h : b.writableBytes < len then b.makeSpace len h else .ok b
  if len ≤ b.writableBytes then .ok b else .error .assertion

/-- Bytes copied to `beginWrite()`, and `hasWritten`, which asserts that there was room. -/
def write (data : List UInt8) (b : Buffer) : Run Buffer :=
  if h : data.length ≤ b.writableBytes then
    .ok {
      buffer_ := b.buffer_.take b.writerIndex_ ++ data ++
        b.buffer_.drop (b.writerIndex_ + data.length)
      readerIndex_ := b.readerIndex_
      writerIndex_ := b.writerIndex_ + data.length
      reader_le_writer := by
        have := b.reader_le_writer
        omega
      writer_le_size := by
        have := b.writer_le_size
        simp only [List.length_append, List.length_take]
        omega
      cheap_le_size := by
        have := b.cheap_le_size
        have := b.writer_le_size
        simp only [writableBytes] at h
        simp only [List.length_append, List.length_take, List.length_drop]
        omega }
  else .error .assertion

def append (data : List UInt8) (b : Buffer) : Run Buffer := do
  let b ← b.ensureWriteableBytes data.length
  b.write data

/-- `prepend`, which writes before the read index. -/
def prepend (data : List UInt8) (b : Buffer) : Run Buffer :=
  if h : data.length ≤ b.prependableBytes then
    .ok {
      buffer_ := b.buffer_.take (b.readerIndex_ - data.length) ++ data ++
        b.buffer_.drop b.readerIndex_
      readerIndex_ := b.readerIndex_ - data.length
      writerIndex_ := b.writerIndex_
      reader_le_writer := by
        have := b.reader_le_writer
        omega
      writer_le_size := by
        have := b.reader_le_writer
        have := b.writer_le_size
        simp only [prependableBytes] at h
        simp only [List.length_append, List.length_take, List.length_drop]
        omega
      cheap_le_size := by
        have := b.cheap_le_size
        have := b.reader_le_writer
        have := b.writer_le_size
        simp only [prependableBytes] at h
        simp only [List.length_append, List.length_take, List.length_drop]
        omega }
  else .error .assertion

/-! ## Integers

The functions for the four sizes of integers differ in the number of bytes only. -/

section Integers

variable (n : Nat)

def appendInt (x : BitVec (8 * n)) (b : Buffer) : Run Buffer := b.append (BigEndian.ofWord x)

def prependInt (x : BitVec (8 * n)) (b : Buffer) : Run Buffer := b.prepend (BigEndian.ofWord x)

def peekInt (b : Buffer) : Run (BitVec (8 * n)) :=
  if n ≤ b.readableBytes then .ok (BigEndian.toWord n (b.readable.take n)) else .error .assertion

def retrieveInt (b : Buffer) : Run Buffer := b.retrieve n

def readInt (b : Buffer) : Run (BitVec (8 * n) × Buffer) := do
  let result ← b.peekInt n
  let b ← b.retrieveInt n
  .ok (result, b)

end Integers

def appendInt64 (x : BitVec 64) (b : Buffer) : Run Buffer := b.appendInt 8 x
def appendInt32 (x : BitVec 32) (b : Buffer) : Run Buffer := b.appendInt 4 x
def appendInt16 (x : BitVec 16) (b : Buffer) : Run Buffer := b.appendInt 2 x
def appendInt8 (x : BitVec 8) (b : Buffer) : Run Buffer := b.appendInt 1 x

def prependInt64 (x : BitVec 64) (b : Buffer) : Run Buffer := b.prependInt 8 x
def prependInt32 (x : BitVec 32) (b : Buffer) : Run Buffer := b.prependInt 4 x
def prependInt16 (x : BitVec 16) (b : Buffer) : Run Buffer := b.prependInt 2 x
def prependInt8 (x : BitVec 8) (b : Buffer) : Run Buffer := b.prependInt 1 x

def peekInt64 (b : Buffer) : Run (BitVec 64) := b.peekInt 8
def peekInt32 (b : Buffer) : Run (BitVec 32) := b.peekInt 4
def peekInt16 (b : Buffer) : Run (BitVec 16) := b.peekInt 2
def peekInt8 (b : Buffer) : Run (BitVec 8) := b.peekInt 1

def readInt64 (b : Buffer) : Run (BitVec 64 × Buffer) := b.readInt 8
def readInt32 (b : Buffer) : Run (BitVec 32 × Buffer) := b.readInt 4
def readInt16 (b : Buffer) : Run (BitVec 16 × Buffer) := b.readInt 2
def readInt8 (b : Buffer) : Run (BitVec 8 × Buffer) := b.readInt 1

/-! ## As a queue of bytes -/

theorem length_readable (b : Buffer) : b.readable.length = b.readableBytes := by
  have := b.writer_le_size
  simp only [readable, readableBytes, List.length_drop, List.length_take]
  omega

@[simp] theorem readable_new (n : Nat) : (new n).readable = [] := by
  rw [← List.length_eq_zero_iff, length_readable]
  simp [new, readableBytes]

@[simp] theorem readable_retrieveAll (b : Buffer) : b.retrieveAll.readable = [] := by
  rw [← List.length_eq_zero_iff, length_readable]
  simp [retrieveAll, readableBytes]

/-- Retrieving takes bytes from the front. -/
theorem exists_retrieve {len : Nat} {b : Buffer} (h : len ≤ b.readableBytes) :
    ∃ b', b.retrieve len = .ok b' ∧ b'.readable = b.readable.drop len := by
  rw [retrieve, if_pos h]
  by_cases hlt : len < b.readableBytes
  · rw [dif_pos hlt]
    exact ⟨_, rfl, by simp [readable, List.drop_drop]⟩
  · rw [dif_neg hlt]
    refine ⟨_, rfl, ?_⟩
    rw [readable_retrieveAll, List.drop_eq_nil_of_le]
    rw [length_readable]
    omega

theorem exists_retrieveAsString {len : Nat} {b : Buffer} (h : len ≤ b.readableBytes) :
    ∃ b', b.retrieveAsString len = .ok (b.readable.take len, b') ∧
      b'.readable = b.readable.drop len := by
  obtain ⟨b', hr, hb⟩ := exists_retrieve h
  exact ⟨b', by simp [retrieveAsString, h, hr], hb⟩

theorem exists_retrieveAllAsString (b : Buffer) :
    ∃ b', b.retrieveAllAsString = .ok (b.readable, b') ∧ b'.readable = [] := by
  obtain ⟨b', hr, hb⟩ := exists_retrieveAsString (le_refl b.readableBytes)
  rw [List.take_of_length_le (length_readable b).le] at hr
  rw [List.drop_of_length_le (length_readable b).le] at hb
  exact ⟨b', hr, hb⟩

theorem drop_take_append {α : Type} (a r s : List α) :
    ((a ++ r ++ s).take (a.length + r.length)).drop a.length = r := by
  rw [List.take_left' (List.length_append), List.drop_left]

/-- Making space keeps the readable bytes, and then there is space. -/
theorem exists_makeSpace {len : Nat} {b : Buffer} (h : b.writableBytes < len) :
    ∃ b', b.makeSpace len h = .ok b' ∧ len ≤ b'.writableBytes ∧ b'.readable = b.readable := by
  have hrw := b.reader_le_writer
  have hws := b.writer_le_size
  by_cases hgrow : b.writableBytes + b.prependableBytes < len + kCheapPrepend
  · refine ⟨_, if_pos hgrow, ?_, ?_⟩
    · simp only [writableBytes, List.length_append, List.length_replicate]
      omega
    · simp only [readable]
      rw [List.take_append_of_le_length hws]
  · -- the room behind the write index is too small, so there is some before the read index
    have hr : kCheapPrepend < b.readerIndex_ := by
      simp only [prependableBytes] at hgrow
      omega
    refine ⟨_, (if_neg hgrow).trans (dif_pos hr), ?_, ?_⟩
    · have hc := b.cheap_le_size
      simp only [writableBytes, prependableBytes] at h hgrow
      simp only [writableBytes, readable, readableBytes, List.length_append, List.length_take,
        List.length_drop]
      omega
    · have hc := b.cheap_le_size
      have hlen : (b.buffer_.take kCheapPrepend).length = kCheapPrepend := by simpa using hc
      have hmid := drop_take_append (b.buffer_.take kCheapPrepend) b.readable
        (b.buffer_.drop (kCheapPrepend + b.readableBytes))
      rw [hlen, length_readable] at hmid
      exact hmid

theorem exists_ensureWriteableBytes (len : Nat) (b : Buffer) :
    ∃ b', b.ensureWriteableBytes len = .ok b' ∧ len ≤ b'.writableBytes ∧
      b'.readable = b.readable := by
  by_cases h : b.writableBytes < len
  · obtain ⟨b', hm, hw, hr⟩ := exists_makeSpace h
    exact ⟨b', by simp [ensureWriteableBytes, h, hm, hw], hw, hr⟩
  · have hw : len ≤ b.writableBytes := not_lt.mp h
    exact ⟨b, by simp [ensureWriteableBytes, h, hw], hw, rfl⟩

theorem exists_write {data : List UInt8} {b : Buffer} (h : data.length ≤ b.writableBytes) :
    ∃ b', b.write data = .ok b' ∧ b'.readable = b.readable ++ data := by
  have hws := b.writer_le_size
  have hrw := b.reader_le_writer
  refine ⟨_, dif_pos h, ?_⟩
  have hlen : (b.buffer_.take b.writerIndex_).length = b.writerIndex_ := by simpa using hws
  have htake : (b.buffer_.take b.writerIndex_ ++ data ++
      b.buffer_.drop (b.writerIndex_ + data.length)).take (b.writerIndex_ + data.length) =
      b.buffer_.take b.writerIndex_ ++ data := by
    refine List.take_left' ?_
    rw [List.length_append, hlen]
  simp only [readable, htake]
  exact List.drop_append_of_le_length (by omega)

/-- Appending puts bytes at the back, and fails no assertion. -/
theorem exists_append (data : List UInt8) (b : Buffer) :
    ∃ b', b.append data = .ok b' ∧ b'.readable = b.readable ++ data := by
  obtain ⟨b₁, he, hw, hr₁⟩ := exists_ensureWriteableBytes data.length b
  obtain ⟨b₂, hwr, hr₂⟩ := exists_write hw
  exact ⟨b₂, by rw [append, he, Exec.ok_bind, hwr], by rw [hr₂, hr₁]⟩

/-- Prepending puts bytes at the front. -/
theorem exists_prepend {data : List UInt8} {b : Buffer} (h : data.length ≤ b.prependableBytes) :
    ∃ b', b.prepend data = .ok b' ∧ b'.readable = data ++ b.readable := by
  have hrw := b.reader_le_writer
  have hws := b.writer_le_size
  simp only [prependableBytes] at h
  refine ⟨_, dif_pos h, ?_⟩
  have hlen : (b.buffer_.take (b.readerIndex_ - data.length)).length =
      b.readerIndex_ - data.length := by
    rw [List.length_take]
    omega
  have hsplit : b.writerIndex_ = (b.buffer_.take (b.readerIndex_ - data.length) ++ data).length +
      (b.writerIndex_ - b.readerIndex_) := by
    rw [List.length_append, hlen]
    omega
  simp only [readable]
  rw [hsplit, List.take_length_add_append, List.append_assoc, List.drop_left' hlen,
    List.drop_take, ← hsplit]

/-- Peeking at an integer reads the first bytes. -/
theorem peekInt_of_le {n : Nat} {b : Buffer} (h : n ≤ b.readableBytes) :
    b.peekInt n = .ok (BigEndian.toWord n (b.readable.take n)) := if_pos h

theorem exists_readInt {n : Nat} {b : Buffer} (h : n ≤ b.readableBytes) :
    ∃ b', b.readInt n = .ok (BigEndian.toWord n (b.readable.take n), b') ∧
      b'.readable = b.readable.drop n := by
  obtain ⟨b', hr, hb⟩ := exists_retrieve h
  refine ⟨b', ?_, hb⟩
  rw [readInt, peekInt_of_le h, Exec.ok_bind, retrieveInt, hr, Exec.ok_bind]

end Buffer

end RpcLearning.Net
