import RpcLearning.Json.Value

/-!
# Reading a file into a stream

`FileReadStream::readStream` (`JsonServer/ReadStream.h`).  It reads the file through a buffer on the
stack of which `bzero` clears the first 1024 bytes only, and takes each chunk to be as long as
`strlen` of the buffer says.  What the stack held before stays in the rest of the buffer until it is
read over.
-/

namespace RpcLearning.Json

/-- An open `std::ifstream`: what is left of the file, and whether a read met its end. -/
structure Ifstream where
  rest : Bytes
  eof : Bool

/-- `read(buf, n)`, where `buf` has `n` bytes: the buffer after it, and the stream. -/
def Ifstream.read (is : Ifstream) (buf : Bytes) : Bytes × Ifstream :=
  (is.rest.take buf.length ++ buf.drop is.rest.length,
    ⟨is.rest.drop buf.length, is.rest.length < buf.length⟩)

/-- The first NUL byte.  A buffer without one is read past its end. -/
def strlen (buf : Bytes) : Run Nat :=
  match buf.findIdx? (· = 0) with
  | some n => .ok n
  | none => .error .pastEnd

theorem strlen_zero (buf : Bytes) : strlen (0 :: buf) = .ok 0 := rfl

theorem strlen_cons {c : UInt8} (hc : c ≠ 0) (buf : Bytes) :
    strlen (c :: buf) = (· + 1) <$> strlen buf := by
  simp only [strlen, List.findIdx?_cons, decide_eq_true_eq, hc, if_false]
  cases buf.findIdx? (· = 0) <;> rfl

/-- Without a NUL byte in `s`, the length goes on into what follows. -/
theorem strlen_append {s : Bytes} (hs : 0 ∉ s) (buf : Bytes) :
    strlen (s ++ buf) = (s.length + ·) <$> strlen buf := by
  induction s with
  | nil =>
      cases h : strlen buf with
      | ok n => simp [h]
      | error f => simp [h]
  | cons c s ih =>
      rw [List.mem_cons, not_or] at hs
      rw [List.cons_append, strlen_cons (Ne.symm hs.1), ih hs.2]
      cases strlen buf with
      | ok n => simp [Nat.add_right_comm]
      | error f => rfl

theorem strlen_of_notMem {s : Bytes} (hs : 0 ∉ s) : strlen s = .error .pastEnd := by
  have h := strlen_append hs []
  rwa [List.append_nil] at h

theorem strlen_eq_zero {buf : Bytes} : strlen buf = .ok 0 ↔ buf.head? = some 0 := by
  cases buf with
  | nil => simp [strlen]
  | cons c buf =>
      by_cases hc : c = 0
      · subst hc
        simp [strlen_zero]
      · rw [strlen_cons hc]
        cases strlen buf <;> simp [hc]

namespace FileReadStream

/-- `sizeof(buf)` -/
def bufSize : Nat := 65536

/-- The bytes that `bzero` clears. -/
def cleared : Nat := 1024

/-- What the stack holds where the rest of the buffer is. -/
abbrev Junk := {b : Bytes // b.length = bufSize - cleared}

/-- `buf` before the first read. -/
def initial (junk : Junk) : Bytes := List.replicate cleared 0 ++ junk.val

/-- The `while` of `readStream`. -/
def readLoop : Nat → Ifstream → Bytes → Bytes → Run Bytes
  | 0, _, _, _ => .error .fuel
  | fuel + 1, is, buf, buffer_ =>
    if is.eof then .ok buffer_
    else do
      let (buf, is) := is.read buf
      let n ← strlen buf
      readLoop fuel is buf (buffer_ ++ buf.take n)

/-- `readStream` on a file with the given content: `buffer_` after it. -/
def readStream (junk : Junk) (content : Bytes) : Run Bytes :=
  readLoop (content.length + 2) ⟨content, false⟩ (initial junk) []

@[simp] theorem length_initial (junk : Junk) : (initial junk).length = bufSize := by
  rw [initial, List.length_append, List.length_replicate, junk.property]
  rfl

/-- A file that fits into the buffer is read in one round, up to the first NUL byte behind it. -/
theorem readStream_of_lt (junk : Junk) {content : Bytes} (h0 : 0 ∉ content)
    (hlen : content.length < bufSize) :
    readStream junk content =
      (fun n ↦ content ++ ((initial junk).drop content.length).take n) <$>
        strlen ((initial junk).drop content.length) := by
  have hread : Ifstream.read ⟨content, false⟩ (initial junk) =
      (content ++ (initial junk).drop content.length, ⟨[], true⟩) := by
    simp [Ifstream.read, List.take_of_length_le hlen.le, List.drop_of_length_le hlen.le, hlen]
  rw [readStream, readLoop, if_neg Bool.false_ne_true, hread]
  simp only [strlen_append h0]
  cases strlen ((initial junk).drop content.length) with
  | error f => rfl
  | ok n => simp [readLoop, List.take_append, List.take_of_length_le (Nat.le_add_right _ n)]

/-- A file that fills the buffer leaves `strlen` no NUL byte to stop at. -/
theorem readStream_of_le (junk : Junk) {content : Bytes} (h0 : 0 ∉ content)
    (hlen : bufSize ≤ content.length) : readStream junk content = .error .pastEnd := by
  have hbuf : (initial junk).drop content.length = [] :=
    List.drop_of_length_le (by rwa [length_initial])
  have hnul : 0 ∉ content.take bufSize := fun h ↦ h0 (List.mem_of_mem_take h)
  rw [readStream, readLoop, if_neg Bool.false_ne_true]
  simp [Ifstream.read, hbuf, strlen_of_notMem hnul]

/-- The file is delivered as it is exactly when the byte behind it in the buffer is NUL. -/
theorem readStream_eq_iff (junk : Junk) {content : Bytes} (h0 : 0 ∉ content) :
    readStream junk content = .ok content ↔ (initial junk)[content.length]? = some 0 := by
  rcases Nat.lt_or_ge content.length bufSize with hlen | hlen
  · rw [readStream_of_lt junk h0 hlen, ← List.head?_drop, ← strlen_eq_zero]
    have hpos : (initial junk).drop content.length ≠ [] := by
      rw [Ne, List.drop_eq_nil_iff, length_initial]
      exact Nat.not_le.mpr hlen
    cases hn : strlen ((initial junk).drop content.length) with
    | error f => simp
    | ok n =>
        cases n with
        | zero => simp
        | succ n => simp [hpos]
  · rw [readStream_of_le junk h0 hlen, List.getElem?_eq_none (by rwa [length_initial])]
    simp

/-- The byte behind a file of `n` bytes in the buffer was cleared, or was NUL anyway. -/
def Ends (junk : Junk) (n : Nat) : Prop := n < cleared ∨ junk.val[n - cleared]? = some 0

theorem getElem?_initial (junk : Junk) (n : Nat) :
    (initial junk)[n]? = some 0 ↔ Ends junk n := by
  have hlen : (List.replicate cleared (0 : UInt8)).length = cleared := List.length_replicate
  rcases Nat.lt_or_ge n cleared with h | h
  · rw [initial, List.getElem?_append_left (by rwa [hlen])]
    simp [Ends, h]
  · rw [initial, List.getElem?_append_right (by rwa [hlen]), hlen]
    simp [Ends, Nat.not_lt.mpr h]

theorem delivers_iff (junk : Junk) {content : Bytes} (h0 : 0 ∉ content) :
    readStream junk content = .ok content ↔ Ends junk content.length :=
  (readStream_eq_iff junk h0).trans (getElem?_initial junk _)

end FileReadStream

end RpcLearning.Json
