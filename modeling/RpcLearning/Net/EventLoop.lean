import RpcLearning.Lib.Machine

/-!
# The event loop

`EventLoop` (`NetServer/EventLoop.cpp`): a thread that waits for events, handles them and then runs
the tasks that were queued for it.  A task is pushed under a lock; a thread that is not the loop's
writes to an eventfd afterwards, and the loop thread does so where it is running tasks.
-/

namespace RpcLearning.Net

variable {τ : Type}

/-! ## The queue -/

/-- The queued tasks, and those that `doPendingTasks` has swapped out and not yet run. -/
structure TaskQueue (τ : Type) where
  pendingTasks_ : List τ
  tasks : List τ

namespace TaskQueue

def empty : TaskQueue τ := ⟨[], []⟩

def push (t : τ) (q : TaskQueue τ) : TaskQueue τ :=
  { q with pendingTasks_ := q.pendingTasks_ ++ [t] }

/-- `tasks.swap(pendingTasks_)`, where `tasks` is empty. -/
def swap (q : TaskQueue τ) : TaskQueue τ := ⟨q.tasks, q.pendingTasks_⟩

/-- The tasks in the order in which they will be run. -/
def order (q : TaskQueue τ) : List τ := q.tasks ++ q.pendingTasks_

@[simp] theorem order_empty : (empty : TaskQueue τ).order = [] := rfl

@[simp] theorem order_push (t : τ) (q : TaskQueue τ) : (q.push t).order = q.order ++ [t] :=
  (List.append_assoc ..).symm

theorem order_swap {q : TaskQueue τ} (h : q.tasks = []) : q.swap.order = q.order := by
  simp [swap, order, h]

theorem order_eq_cons {q : TaskQueue τ} {t : τ} {ts : List τ} (h : q.tasks = t :: ts) :
    q.order = t :: (TaskQueue.mk q.pendingTasks_ ts).order := by
  simp [order, h]

end TaskQueue

/-! ## The loop -/

/-- Where the loop thread is: in `epoll_wait`, handling what it reported (`wakeup` says whether the
wakeup channel is still to be handled), or in `doPendingTasks` after the swap. -/
inductive Phase where
  | polling
  | handling (wakeup : Bool)
  | running
deriving DecidableEq, Repr

/-- The loop, the counter of its eventfd, the number of other threads that have pushed a task and
not yet called `wakeup`, and the tasks that were run. -/
structure EventLoop (τ : Type) where
  queue : TaskQueue τ
  doingPendingTasks_ : Bool
  phase : Phase
  counter : Nat
  waking : Nat
  executed : List τ

/-- The steps of the loop thread and of the others. -/
inductive LoopStep (τ : Type) where
  /-- Another thread pushes a task. -/
  | push (t : τ)
  /-- Another thread calls `wakeup` after its push. -/
  | wakeup
  /-- The loop thread queues a task, from a handler or from a task. -/
  | queueInLoop (t : τ)
  /-- `epoll_wait` returns, and reports the eventfd or not. -/
  | poll (wakeup : Bool)
  | handleRead
  | swap
  | runTask
  | finish
deriving Repr

/-- The task that a step pushes. -/
def LoopStep.task? : LoopStep τ → Option τ
  | .push t => some t
  | .queueInLoop t => some t
  | _ => none

namespace EventLoop

/-- A loop about to wait for its first events. -/
def start : EventLoop τ := ⟨TaskQueue.empty, false, .polling, 0, 0, []⟩

/-- A `::write` of 1 to the eventfd, which fails where the counter is at its maximum. -/
def wakeup (l : EventLoop τ) : EventLoop τ :=
  if l.counter < 2 ^ 64 - 2 then { l with counter := l.counter + 1 } else l

/-- `queueInLoop` in the loop thread. -/
def queueInLoop (t : τ) (l : EventLoop τ) : EventLoop τ :=
  let l := { l with queue := l.queue.push t }
  if l.doingPendingTasks_ then l.wakeup else l

/-- `epoll_wait` can report the eventfd while its counter is positive, and can return for another
descriptor at any time.  The tasks are swapped when all handlers have run. -/
def enabled (l : EventLoop τ) : LoopStep τ → Prop
  | .push _ => True
  | .wakeup => 0 < l.waking
  | .queueInLoop _ => l.phase ≠ .polling
  | .poll wakeup => l.phase = .polling ∧ (wakeup = true → 0 < l.counter)
  | .handleRead => l.phase = .handling true
  | .swap => l.phase = .handling false
  | .runTask => l.phase = .running ∧ l.queue.tasks ≠ []
  | .finish => l.phase = .running ∧ l.queue.tasks = []

def perform (l : EventLoop τ) : LoopStep τ → EventLoop τ
  | .push t => { l with queue := l.queue.push t, waking := l.waking + 1 }
  | .wakeup => { l with waking := l.waking - 1 }.wakeup
  | .queueInLoop t => l.queueInLoop t
  | .poll wakeup => { l with phase := .handling wakeup }
  | .handleRead => { l with counter := 0, phase := .handling false }
  | .swap => { l with queue := l.queue.swap, doingPendingTasks_ := true, phase := .running }
  | .runTask =>
    match l.queue.tasks with
    | t :: ts => { l with queue.tasks := ts, executed := l.executed ++ [t] }
    | [] => l
  | .finish => { l with doingPendingTasks_ := false, phase := .polling }

def machine : Machine (EventLoop τ) (LoopStep τ) where
  enabled := enabled
  perform l a := .ok (l.perform a)

/-! ## What holds at every point -/

/-- The tasks of the queue will be noticed: the loop thread has not yet swapped in this iteration,
or the eventfd will report, or the thread that pushed is about to write to it. -/
structure Noticed (l : EventLoop τ) : Prop where
  doing : l.doingPendingTasks_ = true ↔ l.phase = .running
  tasks : l.phase ≠ .running → l.queue.tasks = []
  noticed : l.queue.pendingTasks_ ≠ [] →
    0 < l.counter ∨ 0 < l.waking ∨ ∃ w, l.phase = .handling w

theorem counter_wakeup_pos (l : EventLoop τ) : 0 < l.wakeup.counter := by
  unfold wakeup
  split
  · exact Nat.succ_pos _
  · omega

theorem noticed_wakeup {l : EventLoop τ} (hd : l.doingPendingTasks_ = true ↔ l.phase = .running)
    (ht : l.phase ≠ .running → l.queue.tasks = []) : l.wakeup.Noticed := by
  refine ⟨?_, ?_, fun _ ↦ .inl (counter_wakeup_pos l)⟩
  · unfold wakeup
    split <;> exact hd
  · unfold wakeup
    split <;> exact ht

@[simp] theorem queue_wakeup (l : EventLoop τ) : l.wakeup.queue = l.queue := by
  unfold wakeup
  split <;> rfl

@[simp] theorem executed_wakeup (l : EventLoop τ) : l.wakeup.executed = l.executed := by
  unfold wakeup
  split <;> rfl

theorem noticed_perform {l : EventLoop τ} {a : LoopStep τ} (h : l.Noticed) (he : l.enabled a) :
    (l.perform a).Noticed := by
  cases a with
  | push t => exact ⟨h.doing, h.tasks, fun _ ↦ .inr (.inl (Nat.succ_pos _))⟩
  | wakeup => exact noticed_wakeup h.doing h.tasks
  | queueInLoop t =>
      by_cases hd : l.doingPendingTasks_ = true
      · have hw := noticed_wakeup (l := { l with queue := l.queue.push t }) h.doing h.tasks
        simpa only [perform, queueInLoop, hd, if_true] using hw
      · -- not among the tasks, so in a handler, and the swap is still to come
        have hp : l.phase ≠ .running := fun hp ↦ hd (h.doing.mpr hp)
        have hh : ∃ w, l.phase = .handling w := by
          cases hph : l.phase with
          | polling => exact absurd hph he
          | handling w => exact ⟨w, rfl⟩
          | running => exact absurd hph hp
        have hn : Noticed { l with queue := l.queue.push t } :=
          ⟨h.doing, h.tasks, fun _ ↦ .inr (.inr hh)⟩
        simpa only [perform, queueInLoop, if_neg hd] using hn
  | poll w =>
      have hnr : l.phase ≠ .running := by
        rw [he.1]
        exact nofun
      refine ⟨⟨fun hd ↦ absurd (h.doing.mp hd) hnr, nofun⟩, fun _ ↦ h.tasks hnr,
        fun _ ↦ .inr (.inr ⟨w, rfl⟩)⟩
  | handleRead =>
      have hph : l.phase = .handling true := he
      have hnr : l.phase ≠ .running := by
        rw [hph]
        exact nofun
      refine ⟨⟨fun hd ↦ absurd (h.doing.mp hd) hnr, nofun⟩, fun _ ↦ h.tasks hnr,
        fun _ ↦ .inr (.inr ⟨false, rfl⟩)⟩
  | swap =>
      have hph : l.phase = .handling false := he
      have ht : l.queue.tasks = [] := by
        refine h.tasks ?_
        rw [hph]
        exact nofun
      exact ⟨⟨fun _ ↦ rfl, fun _ ↦ rfl⟩, fun hne ↦ absurd rfl hne, fun hne ↦ absurd ht hne⟩
  | runTask =>
      have hne : l.queue.tasks ≠ [] := he.2
      obtain ⟨t, ts, hts⟩ := List.exists_cons_of_ne_nil hne
      refine ⟨?_, ?_, ?_⟩
      · simpa only [perform, hts] using h.doing
      · intro hp
        simp only [perform, hts] at hp
        exact absurd he.1 hp
      · simpa only [perform, hts] using h.noticed
  | finish =>
      refine ⟨⟨nofun, nofun⟩, fun _ ↦ he.2, fun hne ↦ ?_⟩
      rcases h.noticed hne with hc | hw | ⟨w, hw⟩
      · exact .inl hc
      · exact .inr (.inl hw)
      · rw [he.1] at hw
        cases hw

/-- A step adds the task it pushes to those that were run or will be. -/
theorem order_perform {l : EventLoop τ} {a : LoopStep τ} (h : l.Noticed) (he : l.enabled a) :
    (l.perform a).executed ++ (l.perform a).queue.order =
      l.executed ++ l.queue.order ++ a.task?.toList := by
  cases a with
  | push t => simp [perform, LoopStep.task?]
  | wakeup => simp [perform, LoopStep.task?]
  | queueInLoop t =>
      by_cases hd : l.doingPendingTasks_ = true
      · simp [perform, queueInLoop, hd, LoopStep.task?]
      · simp [perform, queueInLoop, hd, LoopStep.task?]
  | poll w => simp [perform, LoopStep.task?]
  | handleRead => simp [perform, LoopStep.task?]
  | swap =>
      have hph : l.phase = .handling false := he
      have ht : l.queue.tasks = [] := by
        refine h.tasks ?_
        rw [hph]
        exact nofun
      simp [perform, LoopStep.task?, TaskQueue.order_swap ht]
  | runTask =>
      obtain ⟨t, ts, hts⟩ := List.exists_cons_of_ne_nil he.2
      simp [perform, hts, LoopStep.task?, TaskQueue.order_eq_cons hts]
  | finish => simp [perform, LoopStep.task?]

/-- In every run, the tasks that were executed are the first of those that were pushed, in the
order of the pushes; and the loop does not wait for events while there are tasks that no write to
the eventfd tells of, made or about to be made. -/
theorem executed_in_order {as : List (LoopStep τ)} {r : Run (EventLoop τ)}
    (h : machine.Runs start as r) :
    ∃ l, r = .ok l ∧ l.executed <+: as.filterMap LoopStep.task? ∧
      ¬ (l.phase = .polling ∧ l.queue.pendingTasks_ ≠ [] ∧ l.counter = 0 ∧ l.waking = 0) := by
  obtain ⟨l, hr, hn, ho⟩ := h.invariant
    (I := fun as l ↦ l.Noticed ∧ l.executed ++ l.queue.order = as.filterMap LoopStep.task?)
    ⟨⟨⟨nofun, nofun⟩, fun _ ↦ rfl, fun hne ↦ absurd rfl hne⟩, rfl⟩
    fun as l a hi he ↦ by
      refine ⟨l.perform a, rfl, noticed_perform hi.1 he, ?_⟩
      rw [order_perform hi.1 he, hi.2, List.filterMap_append]
      cases ha : a.task? <;> simp [ha]
  refine ⟨l, hr, ⟨l.queue.order, ho⟩, fun ⟨hp, hne, hc, hw⟩ ↦ ?_⟩
  rcases hn.noticed hne with h | h | ⟨w, h⟩
  · omega
  · omega
  · rw [hp] at h
    cases h

/-- Another thread pushes and wakes the loop, and the loop runs the task. -/
theorem executed_in_order_one_task :
    ∃ l, machine.Runs start [LoopStep.push 5, .wakeup, .poll true, .handleRead, .swap, .runTask]
        (.ok l) ∧ l.executed <+: [5] ∧
      ¬ (l.phase = .polling ∧ l.queue.pendingTasks_ ≠ [] ∧ l.counter = 0 ∧ l.waking = 0) := by
  have hstart : machine.Runs (start : EventLoop Nat) [] (.ok start) := .nil
  have hrun := (((((hstart.snoc
    (a := .push 5) trivial).snoc (a := .wakeup) Nat.one_pos).snoc
    (a := .poll true) ⟨rfl, fun _ ↦ Nat.one_pos⟩).snoc
    (a := .handleRead) rfl).snoc (a := .swap) rfl).snoc
    (a := .runTask) ⟨rfl, List.cons_ne_nil _ _⟩
  obtain ⟨l, hr, hp, hn⟩ := executed_in_order hrun
  exact ⟨l, hr ▸ hrun, hp, hn⟩

end EventLoop

end RpcLearning.Net
