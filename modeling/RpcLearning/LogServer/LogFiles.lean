import RpcLearning.LogServer.AsyncWriter
import RpcLearning.LogServer.FileWriter
import RpcLearning.LogServer.LogLine.RoundTrip

/-!
# The log files

The asynchronous logger as `LogFileInitAsync` sets it up (`LogServer/LogServer.h`): lines that any
thread pushes, the writer thread, and the files that `FileWriter` makes of them.  One after the
other the files hold the lines that were pushed, and no line is cut by the end of a file.
-/

namespace RpcLearning.LogServer

open Json (Bytes lit)

/-! ## The files -/

namespace FileWriter

/-- The files in the order in which they were opened. -/
def files (w : FileWriter) : List LogFile := w.closed ++ [w.m_os]

/-- What is found under a name: opening a file throws away what was there. -/
def contents (w : FileWriter) (name : Bytes) : Option Bytes :=
  (w.files.reverse.find? fun file ↦ file.name = name).map LogFile.text

/-- The files are numbered from one. -/
structure Numbered (name : Bytes) (w : FileWriter) : Prop where
  m_file_name : w.m_file_name = name
  number : w.m_file_number = UInt32.ofNat (w.closed.length + 1)
  names : w.files.map LogFile.name =
    (List.range (w.closed.length + 1)).map fun k ↦ fileName name (UInt32.ofNat (k + 1))

theorem numbered_new (log_directory log_file_name : Bytes) (mb : UInt32) :
    Numbered (log_directory ++ log_file_name) (new log_directory log_file_name mb) :=
  ⟨rfl, rfl, rfl⟩

theorem Numbered.roll_file {name : Bytes} {w : FileWriter} (h : Numbered name w) :
    Numbered name w.roll_file where
  m_file_name := h.m_file_name
  number := by
    simp only [FileWriter.roll_file, h.number, List.length_append, List.length_singleton,
      UInt32.ofNat_add]
    rfl
  names := by
    have hlast : w.roll_file.m_os.name =
        fileName name (UInt32.ofNat (w.closed.length + 1 + 1)) := by
      rw [FileWriter.roll_file, h.m_file_name, h.number, UInt32.ofNat_add (w.closed.length + 1)]
      rfl
    show (w.files ++ [w.roll_file.m_os]).map LogFile.name =
      (List.range ((w.closed ++ [w.m_os]).length + 1)).map _
    rw [List.map_append, h.names, List.length_append, List.length_singleton,
      List.range_succ (n := w.closed.length + 1), List.map_append, List.map_singleton,
      List.map_singleton, hlast]

theorem Numbered.append {name : Bytes} {w : FileWriter} (h : Numbered name w) (line : Line) :
    Numbered name (w.append line) where
  m_file_name := h.m_file_name
  number := h.number
  names := by
    have hnames := h.names
    rw [files, List.map_append, List.map_singleton] at hnames ⊢
    exact hnames

theorem write_cases (w : FileWriter) (line : Line) :
    w.write line = w.append line ∨ w.write line = (w.append line).roll_file := by
  rw [write]
  dsimp only
  split
  · exact .inr rfl
  · exact .inl rfl

theorem Numbered.write {name : Bytes} {w : FileWriter} (h : Numbered name w) (line : Line) :
    Numbered name (w.write line) := by
  rcases w.write_cases line with heq | heq
  · rw [heq]
    exact h.append line
  · rw [heq]
    exact (h.append line).roll_file

/-- Up to the largest number no two files have one name. -/
theorem Numbered.nodup {name : Bytes} {w : FileWriter} (h : Numbered name w)
    (hn : w.closed.length + 1 < 2 ^ 32) : (w.files.map LogFile.name).Nodup := by
  rw [h.names]
  refine List.Nodup.map_on (fun a ha b hb hab ↦ ?_) List.nodup_range
  rw [List.mem_range] at ha hb
  rw [fileName, fileName, List.append_assoc, List.append_assoc, List.append_assoc,
    List.append_assoc] at hab
  have hdigits := List.append_cancel_right (List.append_cancel_left (List.append_cancel_left hab))
  have heq := congrArg Numeral.decimal hdigits
  rw [Numeral.decimal_toDecimal, Numeral.decimal_toDecimal, UInt32.toNat_ofNat',
    UInt32.toNat_ofNat'] at heq
  omega

theorem contents_of_nodup {w : FileWriter} (h : (w.files.map LogFile.name).Nodup) {file : LogFile}
    (hf : file ∈ w.files) : w.contents file.name = some file.text := by
  have hsome : (w.files.reverse.find? fun f ↦ f.name = file.name).isSome :=
    List.find?_isSome.mpr ⟨file, List.mem_reverse.mpr hf, decide_eq_true rfl⟩
  obtain ⟨found, hfound⟩ := Option.isSome_iff_exists.mp hsome
  have hm := List.mem_reverse.mp (List.mem_of_find?_eq_some hfound)
  have hname : found.name = file.name := of_decide_eq_true (List.find?_some hfound :)
  rw [contents, hfound, List.inj_on_of_nodup_map h hm hf hname]
  rfl

/-- The lines one after the other, in the files that were closed and in the one that is open. -/
def Holds (w : FileWriter) (lines : List Line) : Prop :=
  ∃ (groups : List (List Line)) (last : List Line), lines = groups.flatten ++ last ∧
    List.Forall₂ (fun file group ↦ file.text = group.flatMap Subtype.val) w.closed groups ∧
      w.m_os.text = last.flatMap Subtype.val

theorem holds_new (log_directory log_file_name : Bytes) (mb : UInt32) :
    Holds (new log_directory log_file_name mb) [] :=
  ⟨[], [], rfl, .nil, rfl⟩

theorem Holds.roll_file {w : FileWriter} {lines : List Line} (h : Holds w lines) :
    Holds w.roll_file lines := by
  obtain ⟨groups, last, rfl, hgroups, hlast⟩ := h
  exact ⟨groups ++ [last], [], by simp, List.rel_append hgroups (.cons hlast .nil), rfl⟩

theorem Holds.append {w : FileWriter} {lines : List Line} (h : Holds w lines) (line : Line) :
    Holds (w.append line) (lines ++ [line]) := by
  obtain ⟨groups, last, rfl, hgroups, hlast⟩ := h
  refine ⟨groups, last ++ [line], List.append_assoc .., hgroups, ?_⟩
  show w.m_os.text ++ line.val = (last ++ [line]).flatMap Subtype.val
  rw [hlast, List.flatMap_append, List.flatMap_singleton]

theorem Holds.write {w : FileWriter} {lines : List Line} (h : Holds w lines) (line : Line) :
    Holds (w.write line) (lines ++ [line]) := by
  rcases w.write_cases line with heq | heq
  · rw [heq]
    exact h.append line
  · rw [heq]
    exact (h.append line).roll_file

end FileWriter

/-! ## Lines -/

section

variable [LogText]

/-- What `stringify` puts into the stream. -/
def LogLine.printed (q : Bytes × List (UInt8 × Bytes)) : Bytes :=
  q.1 ++ q.2.flatMap Prod.snd ++ [0x0a]

/-- `FileWriter::write`. -/
def FileWriter.writeLine (w : FileWriter) (arg : LogLine) : Run FileWriter := do
  let q ← arg.stringify
  .ok (w.write (LogLine.printed q))

/-- A line, and the statement that has logged it: its values are no arrays and have no `'\0'` in
them, and its text is shorter than two gigabytes. -/
structure Logged where
  line : LogLine
  header : LogLine.Header
  args : List Arg
  log : LogLine.log header args = .ok line
  intact : ∀ arg ∈ args, arg.Intact
  short : (LogLine.printed (header.text, args.filterMap Arg.field?)).length < 2 ^ 31

namespace Logged

/-- The text of the values. -/
def text (l : Logged) : FileWriter.Line :=
  ⟨LogLine.printed (l.header.text, l.args.filterMap Arg.field?), l.short⟩

theorem stringify_line (l : Logged) :
    l.line.stringify = .ok (l.header.text, l.args.filterMap Arg.field?) := by
  obtain ⟨line, hlog, hcontent⟩ :=
    LogLine.exists_log l.header fun arg harg ↦ (l.intact arg harg).returns
  cases hlog.symm.trans l.log
  rw [LogLine.stringify_eq l.header hcontent, LogLine.stringifyLoop_of_intact l.intact le_rfl,
    Exec.ok_bind]

theorem writeLine_line (l : Logged) (w : FileWriter) :
    w.writeLine l.line = .ok (w.write l.text) := by
  rw [FileWriter.writeLine, l.stringify_line, Exec.ok_bind]
  rfl

end Logged

/-! ## The writer thread and its files -/

/-- The line that a step of the writer thread writes. -/
def AsyncWriter.writes? {τ : Type} (w : AsyncWriter τ) : WriterStep τ → Option τ
  | .write =>
    match w.phase with
    | .writing line => some line
    | _ => none
  | .drain => w.buffer_.head?
  | _ => none

omit [LogText] in
theorem AsyncWriter.written_of_perform {τ : Type} {w w' : AsyncWriter τ} {a : WriterStep τ}
    (h : w.perform a = .ok w') : w'.written = w.written ++ (w.writes? a).toList := by
  cases a with
  | push arg | stop | test | wait =>
      cases h
      exact (List.append_nil _).symm
  | take =>
      rw [perform, take] at h
      split at h
      · cases h
        exact (List.append_nil _).symm
      · split at h
        · cases h
          exact (List.append_nil _).symm
        · cases h
  | write =>
      simp only [perform] at h
      simp only [writes?]
      cases hphase : w.phase with
      | writing line =>
          rw [hphase] at h
          cases h
          rfl
      | _ =>
          rw [hphase] at h
          cases h
          exact (List.append_nil _).symm
  | drain =>
      cases h
      simp only [drain, writes?]
      cases hbuffer : w.buffer_ with
      | nil => exact (List.append_nil _).symm
      | cons line lines => rfl

structure LogFiles where
  writer : AsyncWriter Logged
  log_ : FileWriter

namespace LogFiles

def start (log_directory log_file_name : Bytes) (log_file_roll_size_mb : UInt32) : LogFiles :=
  ⟨.start, .new log_directory log_file_name log_file_roll_size_mb⟩

/-- `log_->write(line)`, where the step is one that writes. -/
def writeStep (s : LogFiles) (a : WriterStep Logged) : Run FileWriter :=
  match s.writer.writes? a with
  | some l => s.log_.writeLine l.line
  | none => .ok s.log_

def perform (s : LogFiles) (a : WriterStep Logged) : Run LogFiles := do
  let log_ ← s.writeStep a
  let writer ← s.writer.perform a
  .ok ⟨writer, log_⟩

def machine : Machine LogFiles (WriterStep Logged) := ⟨fun s ↦ s.writer.enabled, perform⟩

/-- The lines of the files are those that the writer thread has written. -/
structure Follows (name : Bytes) (mb : Nat) (s : LogFiles) : Prop where
  holds : s.log_.Holds (s.writer.written.map Logged.text)
  numbered : s.log_.Numbered name
  tracks : mb ≤ 2048 → s.log_.Tracks mb
  filled : mb ≤ 2048 → ∀ file ∈ s.log_.closed, FileWriter.Filled mb file

theorem follows_start (log_directory log_file_name : Bytes) (mb : UInt32) :
    Follows (log_directory ++ log_file_name) mb.toNat
      (start log_directory log_file_name mb) where
  holds := FileWriter.holds_new log_directory log_file_name mb
  numbered := FileWriter.numbered_new log_directory log_file_name mb
  tracks _ := FileWriter.tracks_new log_directory log_file_name mb
  filled _ file h := by cases h

/-- A line is written. -/
theorem Follows.write {name : Bytes} {mb : Nat} {s : LogFiles} (h : Follows name mb s)
    (l : Logged) {w : AsyncWriter Logged} (hw : w.written = s.writer.written ++ [l]) :
    Follows name mb ⟨w, s.log_.write l.text⟩ where
  holds := by
    rw [hw, List.map_append]
    exact h.holds.write l.text
  numbered := h.numbered.write l.text
  tracks hmb := (h.tracks hmb).write (FileWriter.fits_of_le (h.tracks hmb) hmb l.text)
  filled hmb := by
    have hf : FileWriter.EachWrite (FileWriter.Fits mb) s.log_ [l.text] :=
      ⟨FileWriter.fits_of_le (h.tracks hmb) hmb l.text, trivial⟩
    exact FileWriter.filled_of_eachWrite (h.tracks hmb) hf (h.filled hmb)

theorem Follows.perform {name : Bytes} {mb : Nat} {s : LogFiles} (h : Follows name mb s)
    {a : WriterStep Logged} {w : AsyncWriter Logged} (hw : s.writer.perform a = .ok w) :
    ∃ s', s.perform a = .ok s' ∧ s'.writer = w ∧ s'.Follows name mb := by
  have hwritten := AsyncWriter.written_of_perform hw
  rw [LogFiles.perform, writeStep]
  cases hl : s.writer.writes? a with
  | none =>
      rw [hl] at hwritten
      have hsame : w.written = s.writer.written := hwritten.trans (List.append_nil _)
      refine ⟨⟨w, s.log_⟩, by simp only [Exec.ok_bind, hw], rfl, ?_⟩
      exact ⟨hsame ▸ h.holds, h.numbered, h.tracks, h.filled⟩
  | some l =>
      rw [hl] at hwritten
      refine ⟨⟨w, s.log_.write l.text⟩, ?_, rfl, h.write l hwritten⟩
      simp only [l.writeLine_line, Exec.ok_bind, hw]

/-! ## Runs -/

/-- What the writer thread does is a run of its own. -/
theorem runs_writer {log_directory log_file_name : Bytes} {mb : UInt32}
    {as : List (WriterStep Logged)} {r : Run LogFiles}
    (h : machine.Runs (start log_directory log_file_name mb) as r) :
    ∃ s, r = .ok s ∧ AsyncWriter.machine.Runs .start as (.ok s.writer) ∧
      s.Follows (log_directory ++ log_file_name) mb.toNat := by
  refine h.invariant (I := fun as s ↦ AsyncWriter.machine.Runs .start as (.ok s.writer) ∧
    s.Follows (log_directory ++ log_file_name) mb.toNat)
    ⟨.nil, follows_start log_directory log_file_name mb⟩ ?_
  rintro as s a ⟨hrun, hf⟩ he
  obtain ⟨w, hw, -, hflagged⟩ := AsyncWriter.lines_of_runs hrun
  cases hw
  obtain ⟨w', hw', -, -⟩ := AsyncWriter.exists_perform hflagged he
  obtain ⟨s', hs, rfl, hf'⟩ := hf.perform hw'
  exact ⟨s', hs, hrun.then he hw', hf'⟩

/-- However pushes, the destructor and the writer thread come after one another, no step faults, and
the files hold the lines that were pushed first, in order and each in one file, all but those that
the thread has yet to write; files that were closed are full, and were not before their last lines;
and under its name each file is found as it was written. -/
theorem holds_of_runs {log_directory log_file_name : Bytes} {mb : UInt32}
    {as : List (WriterStep Logged)} {r : Run LogFiles}
    (h : machine.Runs (start log_directory log_file_name mb) as r) :
    ∃ s n, r = .ok s ∧
      s.log_.Holds (((AsyncWriter.pushed as).take n).map Logged.text) ∧
      (AsyncWriter.pushed as).length = n + s.writer.held.length + s.writer.buffer_.length ∧
      (mb.toNat ≤ 2048 → ∀ file ∈ s.log_.closed, FileWriter.Filled mb.toNat file) ∧
      (s.log_.closed.length + 1 < 2 ^ 32 →
        ∀ file ∈ s.log_.files, s.log_.contents file.name = some file.text) := by
  obtain ⟨s, rfl, hrun, hf⟩ := runs_writer h
  obtain ⟨w, hw, hlines, -⟩ := AsyncWriter.lines_of_runs hrun
  cases hw
  refine ⟨s, s.writer.written.length, rfl, ?_, ?_, hf.filled, fun hn file hfile ↦ ?_⟩
  · rw [← hlines, AsyncWriter.lines, List.append_assoc, List.take_left]
    exact hf.holds
  · rw [← hlines, AsyncWriter.lines, List.length_append, List.length_append]
  · exact FileWriter.contents_of_nodup (hf.numbered.nodup hn) hfile

/-- A line more, which the writer thread writes at once. -/
theorem exists_runs_line {log_directory log_file_name : Bytes} {mb : UInt32}
    {as : List (WriterStep Logged)} {written : List Logged} {log_ : FileWriter}
    (h : machine.Runs (start log_directory log_file_name mb) as
      (.ok ⟨⟨false, [], .testing, written⟩, log_⟩)) (l : Logged) :
    ∃ log_', machine.Runs (start log_directory log_file_name mb)
      (as ++ [.push l] ++ [.test] ++ [.wait] ++ [.take] ++ [.write])
      (.ok ⟨⟨false, [], .testing, written ++ [l]⟩, log_'⟩) := by
  have hpush := h.then (a := WriterStep.push l) ⟨rfl, id⟩ rfl
  have htest := hpush.then (a := WriterStep.test) rfl rfl
  have hwait := htest.then (a := WriterStep.wait) ⟨rfl, fun hempty ↦ by cases hempty.1⟩ rfl
  have htake := hwait.then (a := WriterStep.take) rfl rfl
  refine ⟨log_.write l.text, htake.then (a := WriterStep.write) ⟨l, rfl⟩ ?_⟩
  show (do
    let log_ ← log_.writeLine l.line
    .ok (⟨⟨false, [], .testing, written ++ [l]⟩, log_⟩ : LogFiles)) = _
  rw [l.writeLine_line, Exec.ok_bind]

end LogFiles

end

/-- Two lines are written, one of them with values. -/
theorem LogFiles.holds_of_runs_two_lines :
    let _ : LogText := ⟨fun _ ↦ lit "[now]", fun _ ↦ lit "1", fun _ ↦ lit "0.5",
      fun _ ↦ some (lit "main")⟩
    ∃ (l l' : Logged) (as : List (WriterStep Logged)) (s : LogFiles) (n : Nat),
      AsyncWriter.pushed as = [l, l'] ∧
        l.text.val = lit "[now][INFO][1][main:main:7]K-42benchmark\n" ∧
        s.log_.Holds (([l, l'].take n).map Logged.text) ∧ n = 2 := by
  intro _
  let h : LogLine.Header := ⟨0, 0, 0, 0, 7, .INFO, rfl, rfl⟩
  let args : List Arg := [.char 0x4b, .int32 (-42), .string (lit "benchmark")]
  have hintact : ∀ arg ∈ args, arg.Intact := by
    have hbenchmark : (0 : UInt8) ∉ lit "benchmark" := by decide
    simp only [args, List.mem_cons, List.not_mem_nil, or_false, forall_eq_or_imp, forall_eq]
    exact ⟨trivial, trivial, hbenchmark⟩
  obtain ⟨line, hlog, -⟩ := LogLine.exists_log h fun arg harg ↦ (hintact arg harg).returns
  obtain ⟨line', hlog', -⟩ := LogLine.exists_log h (List.forall_mem_nil _)
  let l : Logged := ⟨line, h, args, hlog, hintact, by decide +kernel⟩
  let l' : Logged := ⟨line', h, [], hlog', List.forall_mem_nil _, by decide +kernel⟩
  have hstart : machine.Runs (start [] [] 1) [] (.ok (start [] [] 1)) := .nil
  obtain ⟨log₁, h₁⟩ := exists_runs_line hstart l
  obtain ⟨log₂, h₂⟩ := exists_runs_line h₁ l'
  obtain ⟨s, n, hr, hholds, hlen, -⟩ := holds_of_runs h₂
  cases hr
  have hn : 2 = n := hlen
  have htext : LogLine.printed (h.text, args.filterMap Arg.field?) =
      lit "[now][INFO][1][main:main:7]K-42benchmark\n" := by
    decide +kernel
  exact ⟨l, l', [.push l, .test, .wait, .take, .write, .push l', .test, .wait, .take, .write], _, n,
    rfl, htext, hholds, hn.symm⟩

end RpcLearning.LogServer
