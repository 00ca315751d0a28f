import RpcLearning.Json.Value
import RpcLearning.Lib.Numeral

/-!
# Rolling log files

`FileWriter` (`LogServer/LogServer.h`): lines are written to a file, and a new file is opened when
the bytes written have reached a limit.  The limit is a product and the bytes written are a sum,
both of them in 32 bits.
-/

namespace RpcLearning.LogServer

open Json (Bytes lit)

/-- A file that has been opened, with what has been written to it. -/
structure LogFile where
  name : Bytes
  text : Bytes
deriving DecidableEq

/-- `m_os` is open on the file `m_os`; `closed` are the files that were closed before, in the order
in which they were opened. -/
structure FileWriter where
  m_file_number : UInt32
  m_bytes_written : UInt32
  m_log_file_roll_size_bytes : UInt32
  m_file_name : Bytes
  m_os : LogFile
  closed : List LogFile
deriving DecidableEq

namespace FileWriter

/-- The name of the file with a number. -/
def fileName (m_file_name : Bytes) (m_file_number : UInt32) : Bytes :=
  m_file_name ++ lit "." ++ Numeral.toDecimal m_file_number.toNat ++ lit ".txt"

/-- `roll_file` in a writer that has a file open. -/
def roll_file (w : FileWriter) : FileWriter where
  m_file_number := w.m_file_number + 1
  m_bytes_written := 0
  m_log_file_roll_size_bytes := w.m_log_file_roll_size_bytes
  m_file_name := w.m_file_name
  m_os := ⟨fileName w.m_file_name (w.m_file_number + 1), []⟩
  closed := w.closed ++ [w.m_os]

/-- The constructor; its `roll_file` finds no file open. -/
def new (log_directory log_file_name : Bytes) (log_file_roll_size_mb : UInt32) : FileWriter where
  m_file_number := 1
  m_bytes_written := 0
  m_log_file_roll_size_bytes := log_file_roll_size_mb * 1024 * 1024
  m_file_name := log_directory ++ log_file_name
  m_os := ⟨fileName (log_directory ++ log_file_name) 1, []⟩
  closed := []

/-- `write`, given the text that `stringify` puts for the line.  The difference of the positions is
the length of that text. -/
def write (w : FileWriter) (text : Bytes) : FileWriter :=
  let w := { w with
    m_os := { w.m_os with text := w.m_os.text ++ text }
    m_bytes_written := w.m_bytes_written + UInt32.ofNat text.length }
  if w.m_bytes_written ≥ w.m_log_file_roll_size_bytes then w.roll_file else w

/-! ## One write -/

/-- The text of a line. -/
abbrev Line := {text : Bytes // text.length < 2 ^ 31}

/-- The bytes in the current file once a line has been written to it. -/
def total (w : FileWriter) (line : Line) : Nat := w.m_os.text.length + line.val.length

/-- A new file is opened after the write exactly if the current one has reached the limit. -/
def RollsWhenFull (mb : Nat) (w : FileWriter) (line : Line) : Prop :=
  w.closed.length < (w.write line).closed.length ↔ mb * 2 ^ 20 ≤ w.total line

/-- What 32 bits keep of the bytes in the file and of the limit compares as they do: below the
limit the remainders do, and from the limit on the quotients are the same. -/
def Fits (mb : Nat) (w : FileWriter) (line : Line) : Prop :=
  if w.total line < mb * 2 ^ 20 then w.total line % 2 ^ 32 < mb * 2 ^ 20 % 2 ^ 32
  else w.total line / 2 ^ 32 = mb * 2 ^ 20 / 2 ^ 32

/-- A run. -/
def writeAll : FileWriter → List Line → FileWriter
  | w, [] => w
  | w, line :: lines => writeAll (w.write line) lines

/-- What `P` says of every write of a run. -/
def EachWrite (P : FileWriter → Line → Prop) : FileWriter → List Line → Prop
  | _, [] => True
  | w, line :: lines => P w line ∧ EachWrite P (w.write line) lines

/-- The counter and the limit are what 32 bits keep of them, and the current file is not full. -/
structure Tracks (mb : Nat) (w : FileWriter) : Prop where
  limit : w.m_log_file_roll_size_bytes.toNat = mb * 2 ^ 20 % 2 ^ 32
  written : w.m_bytes_written.toNat = w.m_os.text.length % 2 ^ 32
  notFull : w.m_os.text.length < mb * 2 ^ 20 ∨ w.m_os.text.length = 0

theorem tracks_new (log_directory log_file_name : Bytes) (mb : UInt32) :
    Tracks mb.toNat (new log_directory log_file_name mb) where
  limit := by
    have hmb := mb.toNat_lt
    simp only [new, UInt32.toNat_mul, UInt32.reduceToNat]
    omega
  written := rfl
  notFull := .inr rfl

variable {mb : Nat} {w : FileWriter}

/-- The writer with a line appended to its file. -/
def append (w : FileWriter) (line : Line) : FileWriter :=
  { w with
    m_os := { w.m_os with text := w.m_os.text ++ line }
    m_bytes_written := w.m_bytes_written + UInt32.ofNat line.val.length }

/-- A write compares remainders. -/
theorem write_eq (h : Tracks mb w) (line : Line) :
    w.write line =
      if mb * 2 ^ 20 % 2 ^ 32 ≤ w.total line % 2 ^ 32 then (w.append line).roll_file
      else w.append line := by
  have hlen := line.property
  have hsum : (w.m_bytes_written + UInt32.ofNat line.val.length).toNat = w.total line % 2 ^ 32 := by
    rw [UInt32.toNat_add, h.written, UInt32.toNat_ofNat', total]
    omega
  have hge : w.m_bytes_written + UInt32.ofNat line.val.length ≥ w.m_log_file_roll_size_bytes ↔
      mb * 2 ^ 20 % 2 ^ 32 ≤ w.total line % 2 ^ 32 := by
    rw [ge_iff_le, UInt32.le_iff_toNat_le, h.limit, hsum]
  unfold write
  by_cases hr : mb * 2 ^ 20 % 2 ^ 32 ≤ w.total line % 2 ^ 32
  · rw [if_pos hr]
    exact if_pos (hge.mpr hr)
  · rw [if_neg hr]
    exact if_neg fun hc ↦ hr (hge.mp hc)

theorem rollsWhenFull_iff (h : Tracks mb w) (line : Line) :
    RollsWhenFull mb w line ↔
      (mb * 2 ^ 20 % 2 ^ 32 ≤ w.total line % 2 ^ 32 ↔ mb * 2 ^ 20 ≤ w.total line) := by
  rw [RollsWhenFull, write_eq h line]
  by_cases hr : mb * 2 ^ 20 % 2 ^ 32 ≤ w.total line % 2 ^ 32
  · have hopened : w.closed.length < (w.append line).roll_file.closed.length := by
      simp [roll_file, append]
    rw [if_pos hr, iff_true_left hopened, iff_true_left hr]
  · have hsame : ¬ w.closed.length < (w.append line).closed.length := lt_irrefl _
    rw [if_neg hr, iff_false_left hsame, iff_false_left hr]

/-- A write rolls as it should exactly if the numbers fit. -/
theorem rollsWhenFull_iff_fits (h : Tracks mb w) (line : Line) :
    RollsWhenFull mb w line ↔ Fits mb w line := by
  have hlen := line.property
  have hfull := h.notFull
  rw [rollsWhenFull_iff h, Fits, total]
  split
  · omega
  · omega

/-- A line that does not fill the file is appended to it. -/
theorem write_of_lt (h : Tracks mb w) {line : Line} (hf : Fits mb w line)
    (hlt : w.total line < mb * 2 ^ 20) : w.write line = w.append line := by
  rw [Fits, if_pos hlt] at hf
  rw [write_eq h line, if_neg (not_le.mpr hf)]

/-- A line that fills the file is the last one in it. -/
theorem write_of_le (h : Tracks mb w) {line : Line} (hf : Fits mb w line)
    (hle : mb * 2 ^ 20 ≤ w.total line) : w.write line = (w.append line).roll_file := by
  rw [Fits, if_neg (not_lt.mpr hle)] at hf
  rw [write_eq h line, if_pos]
  omega

theorem total_append (w : FileWriter) (line : Line) :
    (w.append line).m_os.text.length = w.total line :=
  List.length_append

/-- While the numbers fit, the counter goes on to keep track of the file. -/
theorem Tracks.write (h : Tracks mb w) {line : Line} (hf : Fits mb w line) :
    Tracks mb (w.write line) := by
  rcases Nat.lt_or_ge (w.total line) (mb * 2 ^ 20) with hlt | hle
  · rw [write_of_lt h hf hlt]
    have hlen := line.property
    refine ⟨h.limit, ?_, .inl ?_⟩
    · rw [total_append, append, UInt32.toNat_add, h.written, UInt32.toNat_ofNat', total]
      omega
    · rwa [total_append]
  · rw [write_of_le h hf hle]
    exact ⟨h.limit, rfl, .inr rfl⟩

/-! ## Runs -/

/-- In a run, files are rolled as they should be exactly if the numbers fit at every write. -/
theorem eachWrite_iff (h : Tracks mb w) (lines : List Line) :
    EachWrite (RollsWhenFull mb) w lines ↔ EachWrite (Fits mb) w lines := by
  induction lines generalizing w with
  | nil => exact iff_of_true trivial trivial
  | cons line lines ih =>
      have hstep := rollsWhenFull_iff_fits h line
      constructor
      · rintro ⟨hroll, hrest⟩
        have hf := hstep.mp hroll
        exact ⟨hf, (ih (h.write hf)).mp hrest⟩
      · rintro ⟨hf, hrest⟩
        exact ⟨hstep.mpr hf, (ih (h.write hf)).mpr hrest⟩

/-- Two gigabytes and a line are fewer bytes than 32 bits count. -/
theorem fits_of_le (h : Tracks mb w) (hmb : mb ≤ 2048) (line : Line) : Fits mb w line := by
  have hlen := line.property
  have hfull := h.notFull
  rw [Fits, total]
  split
  · omega
  · omega

theorem eachWrite_of_le (h : Tracks mb w) (hmb : mb ≤ 2048) (lines : List Line) :
    EachWrite (Fits mb) w lines := by
  induction lines generalizing w with
  | nil => trivial
  | cons line lines ih =>
      have hf := fits_of_le h hmb line
      exact ⟨hf, ih (h.write hf)⟩

/-- A file that is full, and was not before its last line. -/
def Filled (mb : Nat) (file : LogFile) : Prop :=
  ∃ (text : Bytes) (line : Line), file.text = text ++ line ∧ mb * 2 ^ 20 ≤ file.text.length ∧
    (text.length < mb * 2 ^ 20 ∨ text.length = 0)

/-- Where the numbers fit, no file is closed early, and none gets longer than the limit by more
than a line. -/
theorem filled_of_eachWrite (h : Tracks mb w) {lines : List Line} (hf : EachWrite (Fits mb) w lines)
    (hc : ∀ file ∈ w.closed, Filled mb file) :
    ∀ file ∈ (w.writeAll lines).closed, Filled mb file := by
  induction lines generalizing w with
  | nil => exact hc
  | cons line lines ih =>
      refine ih (h.write hf.1) hf.2 ?_
      rcases Nat.lt_or_ge (w.total line) (mb * 2 ^ 20) with hlt | hle
      · rw [write_of_lt h hf.1 hlt]
        exact hc
      · rw [write_of_le h hf.1 hle]
        intro file hfile
        rcases List.mem_append.mp hfile with hfile | hfile
        · exact hc file hfile
        · obtain rfl := List.mem_singleton.mp hfile
          refine ⟨w.m_os.text, line, rfl, ?_, h.notFull⟩
          rwa [total_append]

/-- A line of a length. -/
def ofLength (n : Nat) (h : n < 2 ^ 31) : Line := ⟨List.replicate n 0x61, by simpa using h⟩

/-- Three lines, of which the first two do not fill the file, do not fit. -/
theorem not_eachWrite (h : Tracks mb w) (hw : w.m_os.text = []) {i j k : Nat} (hi : i < 2 ^ 31)
    (hj : j < 2 ^ 31) (hk : k < 2 ^ 31) (hlt : i + j < mb * 2 ^ 20)
    (hbad : if i + j + k < mb * 2 ^ 20 then mb * 2 ^ 20 % 2 ^ 32 ≤ (i + j + k) % 2 ^ 32
      else (i + j + k) / 2 ^ 32 ≠ mb * 2 ^ 20 / 2 ^ 32) :
    ¬ EachWrite (Fits mb) w [ofLength i hi, ofLength j hj, ofLength k hk] := by
  rintro ⟨hfi, hfj, hfk, -⟩
  have hti : w.total (ofLength i hi) = i := by simp [total, ofLength, hw]
  have h₁ := h.write hfi
  rw [write_of_lt h hfi (by omega)] at h₁ hfj hfk
  have htj : (w.append (ofLength i hi)).total (ofLength j hj) = i + j := by
    rw [total, total_append, hti]
    simp [ofLength]
  rw [write_of_lt h₁ hfj (by omega)] at hfk
  have htk : ((w.append (ofLength i hi)).append (ofLength j hj)).total (ofLength k hk) =
      i + j + k := by
    rw [total, total_append, htj]
    simp [ofLength]
  rw [Fits, htk] at hfk
  split at hfk
  · rename_i hlt'
    rw [if_pos hlt'] at hbad
    exact absurd hfk (not_lt.mpr hbad)
  · rename_i hge
    rw [if_neg hge] at hbad
    exact hbad hfk

/-- With more than two gigabytes some lines do not fit: they take the counter round before the file
is full, or bring it to what is left of the limit. -/
theorem exists_not_eachWrite (h : Tracks mb w) (hw : w.m_os.text = []) (hmb : 2048 < mb) :
    ∃ lines, ¬ EachWrite (Fits mb) w lines := by
  rcases Nat.lt_or_ge mb 4096 with hlt | hge
  · refine ⟨_, not_eachWrite h hw (i := 2 ^ 31 - 1) (j := mb * 2 ^ 20 - 2 ^ 31) (k := 2 ^ 31 - 1)
      (by omega) (by omega) (by omega) (by omega) ?_⟩
    rw [if_neg (by omega)]
    omega
  · let l := mb * 2 ^ 20 % 2 ^ 32
    refine ⟨_, not_eachWrite h hw (i := l / 3) (j := l / 3) (k := l - l / 3 - l / 3)
      (by omega) (by omega) (by omega) (by omega) ?_⟩
    rw [if_pos (by omega)]
    omega

/-- The run of a new writer rolls its files exactly when they are full if the numbers fit at every
write; whatever lines it is given, if the limit is two gigabytes at most. -/
theorem rollsWhenFull_new_iff (log_directory log_file_name : Bytes) (mb : UInt32) :
    (∀ lines, EachWrite (RollsWhenFull mb.toNat) (new log_directory log_file_name mb) lines ↔
        EachWrite (Fits mb.toNat) (new log_directory log_file_name mb) lines) ∧
      ((∀ lines, EachWrite (RollsWhenFull mb.toNat) (new log_directory log_file_name mb) lines) ↔
        mb.toNat ≤ 2048) := by
  have h := tracks_new log_directory log_file_name mb
  refine ⟨fun lines ↦ eachWrite_iff h lines, ?_⟩
  constructor
  · intro hall
    by_contra hmb
    obtain ⟨lines, hl⟩ := exists_not_eachWrite h rfl (not_le.mp hmb)
    exact hl ((eachWrite_iff h lines).mp (hall lines))
  · intro hmb lines
    exact (eachWrite_iff h lines).mpr (eachWrite_of_le h hmb lines)

/-- With a limit of four gigabytes nothing is left of it, and one byte is enough to roll. -/
theorem not_rollsWhenFull_4096 :
    ¬ EachWrite (RollsWhenFull 4096) (new (lit "./") (lit "log") 4096) [⟨lit "a", by decide⟩] := by
  rintro ⟨hroll, -⟩
  exact absurd (hroll.mp (by decide)) (by decide)

end FileWriter

end RpcLearning.LogServer
