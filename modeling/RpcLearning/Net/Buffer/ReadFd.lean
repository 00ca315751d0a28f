import RpcLearning.Net.TcpConnection

/-!
# Reading from a socket

`Buffer::readFd` (`NetServer/Buffer.cpp`) lets `::readv` fill the room behind the write index, and
an array on the stack when that room is small.  The count is kept in a `size_t`, so that the branch
for -1 is never taken.
-/

namespace RpcLearning.Net

namespace Buffer

/-- `sizeof(extrabuf)` -/
def kExtrabuf : Nat := 65536

/-- The length of the one or two segments that `::readv` is given. -/
def segments (b : Buffer) : Nat :=
  b.writableBytes + if b.writableBytes < kExtrabuf then kExtrabuf else 0

/-- What `::readv` answers: an `ssize_t` that counts the bytes it has put into segments of length
`total`, or -1 with an `errno`. -/
inductive ReadvResult (total : Nat) where
  | received (data : List UInt8) (fits : data.length ≤ total) (signed : data.length < 2 ^ 63)
  | failed (errno : Int32)

namespace ReadvResult

variable {total : Nat}

/-- The returned `ssize_t`. -/
def count : ReadvResult total → BitVec 64
  | received data _ _ => BitVec.ofNat 64 data.length
  | failed _ => BitVec.ofInt 64 (-1)

/-- What is in the segments, one after the other. -/
def data : ReadvResult total → List UInt8
  | received data _ _ => data
  | failed _ => []

def errno : ReadvResult total → Option Int32
  | received _ _ _ => none
  | failed errno => some errno

theorem toNat_count_received {data : List UInt8} (fits : data.length ≤ total)
    (signed : data.length < 2 ^ 63) : (received data fits signed).count.toNat = data.length := by
  rw [count, BitVec.toNat_ofNat]
  omega

theorem toInt_count_received {data : List UInt8} (fits : data.length ≤ total)
    (signed : data.length < 2 ^ 63) : (received data fits signed).count.toInt = data.length := by
  rw [BitVec.toInt_eq_toNat_cond, toNat_count_received fits signed, if_pos (by omega)]

end ReadvResult

/-- What `readFd` leaves: the result, what it has stored under `saveErrno`, and the buffer. -/
structure ReadFd where
  n : Int
  saveErrno : Option Int32
  buffer : Buffer

def readFd (b : Buffer) (result : ReadvResult b.segments) : Run ReadFd :=
  let writable := b.writableBytes
  -- the `size_t`
  let n := result.count.toNat
  if n < 0 then .ok ⟨result.count.toInt, result.errno, b⟩
  else if n ≤ writable then do
    let b ← b.write (result.data.take n)
    .ok ⟨result.count.toInt, none, b⟩
  else do
    let b ← b.write (result.data.take writable)
    -- a longer copy leaves `extrabuf`
    if n - writable ≤ kExtrabuf then do
      let b ← b.append (result.data.drop writable)
      .ok ⟨result.count.toInt, none, b⟩
    else .error .pastEnd

/-- The branch of `TcpConnection::handleRead` for a result of `readFd`. -/
def branch (n : Int) : ReadResult :=
  if n = -1 then .failed else if n = 0 then .endOfStream else .received

/-- `readFd` does with an answer of `::readv` what its caller counts on. -/
def ReadsExactly (b : Buffer) : ReadvResult b.segments → Prop
  | .received data fits signed =>
    ∃ r, b.readFd (.received data fits signed) = .ok r ∧ r.n = data.length ∧
      r.buffer.readable = b.readable ++ data
  | .failed errno =>
    ∃ r, b.readFd (.failed errno) = .ok r ∧ r.n = -1 ∧ branch r.n = .failed ∧
      r.saveErrno = some errno ∧ r.buffer.readable = b.readable ∧
      r.buffer.readerIndex_ = b.readerIndex_ ∧ r.buffer.writerIndex_ = b.writerIndex_ ∧
      r.buffer.buffer_.length = b.buffer_.length

/-- Nothing is ever stored under `saveErrno`. -/
theorem saveErrno_readFd {b : Buffer} {result : ReadvResult b.segments} {r : ReadFd}
    (h : b.readFd result = .ok r) : r.saveErrno = none := by
  rw [readFd, if_neg (Nat.not_lt_zero _)] at h
  split at h
  · obtain ⟨b', -, h⟩ := Exec.bind_eq_ok.mp h
    cases h
    rfl
  · obtain ⟨b', -, h⟩ := Exec.bind_eq_ok.mp h
    split at h
    · obtain ⟨b'', -, h⟩ := Exec.bind_eq_ok.mp h
      cases h
      rfl
    · cases h

/-- What was received is put behind what there was, wherever the room behind the write index
ends. -/
theorem exists_readFd {b : Buffer} {data : List UInt8} (fits : data.length ≤ b.segments)
    (signed : data.length < 2 ^ 63) :
    ∃ b', b.readFd (.received data fits signed) = .ok ⟨data.length, none, b'⟩ ∧
      b'.readable = b.readable ++ data := by
  have hn := ReadvResult.toNat_count_received fits signed
  have hi := ReadvResult.toInt_count_received fits signed
  rw [readFd, if_neg (Nat.not_lt_zero _), hn, hi]
  by_cases hw : data.length ≤ b.writableBytes
  · obtain ⟨b', hb, hr⟩ := exists_write hw
    have htake : (ReadvResult.received data fits signed).data.take data.length = data :=
      List.take_length
    exact ⟨b', by rw [if_pos hw, htake, hb, Exec.ok_bind], hr⟩
  · have htake : (data.take b.writableBytes).length ≤ b.writableBytes := by
      rw [List.length_take]
      exact Nat.min_le_left ..
    have hextra : data.length - b.writableBytes ≤ kExtrabuf := by
      rw [segments] at fits
      split at fits <;> omega
    obtain ⟨b₁, hb₁, hr₁⟩ := exists_write htake
    obtain ⟨b₂, hb₂, hr₂⟩ := exists_append (data.drop b.writableBytes) b₁
    refine ⟨b₂, ?_, ?_⟩
    · rw [if_neg hw]
      simp only [ReadvResult.data, hb₁, Exec.ok_bind, if_pos hextra, hb₂]
    · rw [hr₂, hr₁, List.append_assoc, List.take_append_drop]

/-- `readFd` is right about every answer but -1. -/
theorem readsExactly_iff (b : Buffer) (result : ReadvResult b.segments) :
    ReadsExactly b result ↔ result.count ≠ -1 := by
  cases result with
  | received data fits signed =>
      have hn := ReadvResult.toNat_count_received fits signed
      refine iff_of_true ?_ fun h ↦ ?_
      · obtain ⟨b', hb, hr⟩ := exists_readFd fits signed
        exact ⟨_, hb, rfl, hr⟩
      · rw [h] at hn
        have hmax : (-1 : BitVec 64).toNat = 2 ^ 64 - 1 := by decide
        omega
  | failed errno =>
      refine iff_of_false ?_ fun h ↦ h rfl
      rintro ⟨r, hr, -, -, hsaved, -⟩
      rw [saveErrno_readFd hr] at hsaved
      cases hsaved

/-- A read on a socket with nothing to read: the copy runs past the array on the stack. -/
theorem readFd_again :
    (Buffer.new 16).readFd (.failed 11) = .error .pastEnd ∧
      ¬ ReadsExactly (Buffer.new 16) (.failed 11) := by
  have hr : (Buffer.new 16).readFd (.failed 11) = .error .pastEnd := rfl
  refine ⟨hr, ?_⟩
  rintro ⟨r, h, -⟩
  rw [hr] at h
  cases h

end Buffer

end RpcLearning.Net
