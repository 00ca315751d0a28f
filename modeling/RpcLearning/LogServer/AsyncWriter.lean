import RpcLearning.Lib.Machine

/-!
# The asynchronous logger

`AsyncWriter` (`LogServer/LogServer.h`): a queue of log lines, and a thread that writes them to a
file.  The destructor raises the flag `state_` without the lock, at any point of the thread.  The
thread has two ways out: the test of its loop, after which it writes what is left in the queue, and
the return after its wait, which leaves the queue as it is.
-/

namespace RpcLearning.LogServer

variable {τ : Type}

/-- Where the writer thread is. -/
inductive WriterPhase (τ : Type) where
  /-- At the test of `while(!state_)`. -/
  | testing
  /-- In `cv_.wait`, without the lock. -/
  | waiting
  /-- After the wait, with the lock. -/
  | woken
  /-- Out of the critical section, with a line to write. -/
  | writing (line : τ)
  /-- At the test of `while(!buffer_.empty())`. -/
  | draining
  | finished

/-- The writer, and the lines that it has passed to `FileWriter::write`. -/
structure AsyncWriter (τ : Type) where
  state_ : Bool
  buffer_ : List τ
  phase : WriterPhase τ
  written : List τ

/-- The steps of the threads that log, of the destructor, and of the writer thread. -/
inductive WriterStep (τ : Type) where
  | push (arg : τ)
  /-- The destructor raises the flag. -/
  | stop
  | test
  | wait
  /-- `if(state_) return`, and the line is taken. -/
  | take
  | write
  | drain
deriving Repr

/-- The line that a step pushes. -/
def WriterStep.pushed? : WriterStep τ → Option τ
  | .push arg => some arg
  | _ => none

namespace AsyncWriter

def start : AsyncWriter τ := ⟨false, [], .testing, []⟩

/-- Nobody else gets into a critical section while the writer has the lock. -/
def locked (w : AsyncWriter τ) : Prop :=
  match w.phase with
  | .woken => True
  | _ => False

/-- All pushes have returned when the destructor runs. -/
def enabled (w : AsyncWriter τ) : WriterStep τ → Prop
  | .push _ => w.state_ = false ∧ ¬ w.locked
  | .stop => w.state_ = false
  | .test => w.phase = .testing
  | .wait => w.phase = .waiting ∧ ¬ (w.buffer_ = [] ∧ w.state_ = false)
  | .take => w.phase = .woken
  | .write => ∃ line, w.phase = .writing line
  | .drain => w.phase = .draining

def take (w : AsyncWriter τ) : Run (AsyncWriter τ) :=
  if w.state_ then .ok { w with phase := .finished }
  else
    match w.buffer_ with
    | line :: lines => .ok { w with buffer_ := lines, phase := .writing line }
    | [] => .error .pastEnd

/-- A round of the second loop. -/
def drain (w : AsyncWriter τ) : AsyncWriter τ :=
  match w.buffer_ with
  | line :: lines => { w with buffer_ := lines, written := w.written ++ [line] }
  | [] => { w with phase := .finished }

def perform (w : AsyncWriter τ) : WriterStep τ → Run (AsyncWriter τ)
  | .push arg => .ok { w with buffer_ := w.buffer_ ++ [arg] }
  | .stop => .ok { w with state_ := true }
  | .test => .ok { w with phase := if w.state_ then .draining else .waiting }
  | .wait => .ok { w with phase := .woken }
  | .take => w.take
  | .write =>
    match w.phase with
    | .writing line => .ok { w with phase := .testing, written := w.written ++ [line] }
    | _ => .ok w
  | .drain => .ok w.drain

def machine : Machine (AsyncWriter τ) (WriterStep τ) := ⟨enabled, perform⟩

/-! ## Where the lines are -/

variable {w w' : AsyncWriter τ} {as : List (WriterStep τ)}

/-- The line that the writer holds. -/
def held (w : AsyncWriter τ) : List τ :=
  match w.phase with
  | .writing line => [line]
  | _ => []

/-- The lines, in the order in which they were pushed. -/
def lines (w : AsyncWriter τ) : List τ := w.written ++ w.held ++ w.buffer_

/-- What is known about the flag at the points of the writer thread. -/
structure Flagged (w : AsyncWriter τ) : Prop where
  woken : w.phase = .woken → w.buffer_ = [] → w.state_ = true
  draining : w.phase = .draining → w.state_ = true
  finished : w.phase = .finished → w.state_ = true

theorem flagged_start : (start : AsyncWriter τ).Flagged := ⟨nofun, nofun, nofun⟩

/-- A step keeps the lines, and their order. -/
theorem exists_perform (h : w.Flagged) {a : WriterStep τ} (he : w.enabled a) :
    ∃ w', w.perform a = .ok w' ∧ w'.lines = w.lines ++ a.pushed?.toList ∧ w'.Flagged := by
  obtain ⟨state_, buffer_, phase, written⟩ := w
  cases a with
  | push arg =>
      refine ⟨_, rfl, (List.append_assoc ..).symm, fun hw _ ↦ ?_, h.draining, h.finished⟩
      have hfree : ¬ (AsyncWriter.mk state_ buffer_ phase written).locked := he.2
      obtain rfl : phase = .woken := hw
      exact absurd trivial hfree
  | stop =>
      exact ⟨_, rfl, (List.append_nil _).symm, fun _ _ ↦ rfl, fun _ ↦ rfl, fun _ ↦ rfl⟩
  | test =>
      obtain rfl : phase = .testing := he
      cases state_ with
      | false => exact ⟨_, rfl, (List.append_nil _).symm, nofun, nofun, nofun⟩
      | true => exact ⟨_, rfl, (List.append_nil _).symm, nofun, fun _ ↦ rfl, nofun⟩
  | wait =>
      obtain ⟨hw, hpredicate⟩ := he
      obtain rfl : phase = .waiting := hw
      refine ⟨_, rfl, (List.append_nil _).symm, fun _ hempty ↦ ?_, nofun, nofun⟩
      exact Bool.eq_true_of_not_eq_false fun hstate ↦ hpredicate ⟨hempty, hstate⟩
  | take =>
      obtain rfl : phase = .woken := he
      cases state_ with
      | true => exact ⟨_, rfl, (List.append_nil _).symm, nofun, nofun, fun _ ↦ rfl⟩
      | false =>
          cases buffer_ with
          | nil => cases h.woken rfl rfl
          | cons line lines =>
              refine ⟨_, rfl, ?_, nofun, nofun, nofun⟩
              simp [AsyncWriter.lines, held, WriterStep.pushed?]
  | write =>
      obtain ⟨line, hw⟩ := he
      obtain rfl : phase = .writing line := hw
      refine ⟨_, rfl, ?_, nofun, nofun, nofun⟩
      simp [lines, held, WriterStep.pushed?]
  | drain =>
      obtain rfl : phase = .draining := he
      cases buffer_ with
      | nil => exact ⟨_, rfl, (List.append_nil _).symm, nofun, nofun, fun _ ↦ h.draining rfl⟩
      | cons line lines =>
          refine ⟨_, rfl, ?_, nofun, fun _ ↦ h.draining rfl, nofun⟩
          simp [AsyncWriter.lines, held, drain, WriterStep.pushed?]

/-- The lines that have been pushed. -/
def pushed (as : List (WriterStep τ)) : List τ := as.filterMap WriterStep.pushed?

theorem pushed_snoc (as : List (WriterStep τ)) (a : WriterStep τ) :
    pushed (as ++ [a]) = pushed as ++ a.pushed?.toList := by
  rw [pushed, List.filterMap_append]
  cases a <;> rfl

/-- No line is lost on the way, and none comes twice. -/
theorem lines_of_runs {r : Run (AsyncWriter τ)} (h : machine.Runs start as r) :
    ∃ w, r = .ok w ∧ w.lines = pushed as ∧ w.Flagged :=
  h.invariant (I := fun as w ↦ w.lines = pushed as ∧ w.Flagged) ⟨rfl, flagged_start⟩
    fun as w a ⟨hl, hf⟩ he ↦ by
      obtain ⟨w', hok, hl', hf'⟩ := exists_perform hf he
      exact ⟨w', hok, by rw [hl', hl, pushed_snoc], hf'⟩

/-! ## The two ways out -/

/-- The writer returns from its wait with nothing in the queue. -/
def Emptied (w : AsyncWriter τ) : WriterStep τ → Prop
  | .take => w.state_ = true → w.buffer_ = []
  | _ => True

/-- The thread has finished, and has left lines in the queue. -/
structure Left (w : AsyncWriter τ) : Prop where
  finished : w.phase = .finished
  state_ : w.state_ = true
  buffer_ : w.buffer_ ≠ []

theorem Left.not_enabled (h : w.Left) (a : WriterStep τ) : ¬ w.enabled a := by
  have hstate := h.state_
  have hphase := h.finished
  cases a with
  | push arg => exact fun he ↦ Bool.false_ne_true (he.1.symm.trans hstate)
  | stop => exact fun he ↦ Bool.false_ne_true (he.symm.trans hstate)
  | test => exact fun he ↦ nomatch hphase.symm.trans he
  | wait => exact fun he ↦ nomatch hphase.symm.trans he.1
  | take => exact fun he ↦ nomatch hphase.symm.trans he
  | write => exact fun ⟨_, he⟩ ↦ nomatch hphase.symm.trans he
  | drain => exact fun he ↦ nomatch hphase.symm.trans he

/-- A run leaves lines behind when its last step is a return from the wait with lines in the
queue. -/
theorem emptied_or_left {r : Run (AsyncWriter τ)} (h : machine.Runs start as r) :
    (machine.restrict Emptied).Runs start as r ∨ ∃ w, r = .ok w ∧ w.Left := by
  induction h with
  | nil => exact .inl .nil
  | @snoc as w h a he ih =>
      rcases ih with hr | ⟨w', hw, hleft⟩
      · by_cases hg : w.Emptied a
        · exact .inl (hr.snoc ⟨he, hg⟩)
        · cases a with
          | take =>
              obtain ⟨hstate, hne⟩ := Classical.not_imp.mp hg
              exact .inr ⟨{ w with phase := .finished }, if_pos hstate, rfl, hstate, hne⟩
          | _ => exact absurd trivial hg
      · cases hw
        exact absurd he (hleft.not_enabled a)

/-- The thread does not finish with lines in the queue, if it does not return with some. -/
theorem buffer_perform (h : w.Flagged) (hb : w.phase = .finished → w.buffer_ = [])
    {a : WriterStep τ} (he : w.enabled a) (hg : w.Emptied a) (hok : w.perform a = .ok w')
    (hf : w'.phase = .finished) : w'.buffer_ = [] := by
  cases a with
  | push arg =>
      cases hok
      exact absurd (he.1.symm.trans (h.finished hf)) Bool.false_ne_true
  | stop =>
      cases hok
      exact hb hf
  | test =>
      cases hok
      cases hstate : w.state_ <;> simp [hstate] at hf
  | wait =>
      cases hok
      cases hf
  | take =>
      simp only [perform, take] at hok
      split at hok
      · rename_i hstate
        cases hok
        exact hg hstate
      · split at hok
        · cases hok
          cases hf
        · cases hok
  | write =>
      obtain ⟨line, hw⟩ := he
      simp only [perform, hw] at hok
      cases hok
      cases hf
  | drain =>
      cases hok
      have hw : w.phase = .draining := he
      unfold drain at hf ⊢
      split at hf
      · cases hw.symm.trans hf
      · rename_i hempty
        simp only [hempty]

theorem buffer_of_runs (h : (machine.restrict Emptied).Runs start as (.ok w))
    (hf : w.phase = .finished) : w.buffer_ = [] := by
  have hinv := h.preserves
    (I := fun _ w ↦ w.Flagged ∧ (w.phase = .finished → w.buffer_ = []))
    ⟨flagged_start, nofun⟩ fun as w a w' ⟨hfl, hb⟩ ⟨he, hg⟩ hok ↦ by
      obtain ⟨w'', hok', -, hfl'⟩ := exists_perform hfl he
      cases hok'.symm.trans hok
      exact ⟨hfl', buffer_perform hfl hb he hg hok⟩
  exact hinv.2 hf

/-- Every line was passed to `FileWriter::write` once, in the order of the pushes. -/
structure Complete (as : List (WriterStep τ)) (w : AsyncWriter τ) : Prop where
  written : w.written = pushed as
  buffer_ : w.buffer_ = []

/-- When the thread has finished, every line has been written, unless the thread returned from its
wait with lines in the queue. -/
theorem complete_iff {r : Run (AsyncWriter τ)} (h : machine.Runs start as r) :
    ∃ w, r = .ok w ∧ (w.phase = .finished →
      (Complete as w ↔ (machine.restrict Emptied).Runs start as r)) := by
  obtain ⟨w, rfl, hlines, -⟩ := lines_of_runs h
  refine ⟨w, rfl, fun hf ↦ ⟨fun hc ↦ ?_, fun hr ↦ ?_⟩⟩
  · rcases emptied_or_left h with hr | ⟨w', hw, hleft⟩
    · exact hr
    · cases hw
      exact absurd hc.buffer_ hleft.buffer_
  · have hb := buffer_of_runs hr hf
    refine ⟨?_, hb⟩
    rw [← hlines, lines, held, hf, hb, List.append_nil, List.append_nil]

/-- A line is written, and another one after the flag was raised. -/
theorem complete_iff_sample :
    ∃ w : AsyncWriter Nat, Complete [.push 1, .test, .wait, .take, .push 2, .stop, .write, .test,
      .drain, .drain] w := by
  have hnew : (machine.restrict Emptied).Runs (start : AsyncWriter Nat) [] (.ok start) := .nil
  have hpush := hnew.then (a := WriterStep.push 1) ⟨⟨rfl, id⟩, trivial⟩ rfl
  have htest := hpush.then (a := WriterStep.test) ⟨rfl, trivial⟩ rfl
  have hwait := htest.then (a := WriterStep.wait) ⟨⟨rfl, nofun⟩, trivial⟩ rfl
  have htake := hwait.then (a := WriterStep.take) ⟨rfl, nofun⟩ rfl
  have hpush' := htake.then (a := WriterStep.push 2) ⟨⟨rfl, id⟩, trivial⟩ rfl
  have hstop := hpush'.then (a := WriterStep.stop) ⟨rfl, trivial⟩ rfl
  have hwrite := hstop.then (a := WriterStep.write) ⟨⟨1, rfl⟩, trivial⟩ rfl
  have htest' := hwrite.then (a := WriterStep.test) ⟨rfl, trivial⟩ rfl
  have hdrain := htest'.then (a := WriterStep.drain) ⟨rfl, trivial⟩ rfl
  have hend := hdrain.then (a := WriterStep.drain) ⟨rfl, trivial⟩ rfl
  obtain ⟨w, hw, hiff⟩ := complete_iff hend.of_restrict
  cases hw
  exact ⟨_, (hiff rfl).mpr hend⟩

/-- A line that is pushed while the writer waits, with the flag raised before it wakes up. -/
theorem not_complete_stopped :
    ¬ ∀ (as : List (WriterStep Nat)) (w : AsyncWriter Nat),
      machine.Runs start as (.ok w) → w.phase = .finished → Complete as w := by
  intro h
  have hnew : machine.Runs (start : AsyncWriter Nat) [] (.ok start) := .nil
  have htest := hnew.then (a := WriterStep.test) rfl rfl
  have hpush := htest.then (a := WriterStep.push 1) ⟨rfl, id⟩ rfl
  have hstop := hpush.then (a := WriterStep.stop) rfl rfl
  have hwait := hstop.then (a := WriterStep.wait) ⟨rfl, nofun⟩ rfl
  have htake := hwait.then (a := WriterStep.take) rfl rfl
  cases (h _ _ htake rfl).buffer_

end AsyncWriter

end RpcLearning.LogServer
