import RpcLearning.Net.CountDownLatch

/-!
# A loop in a thread of its own

`EventLoopThread` (`NetServer/EventLoopThread.cpp`): `startLoop` starts the thread and waits on a
latch until the loop on the thread's stack exists; the destructor makes that loop quit and joins the
thread.  The latch orders the two while they start.  A thread that is blocked in `poll` looks at
`quit_` only after `quit` has written to the loop's event descriptor.  Nothing else orders the two
while they stop: the destructor may be faster than a thread that has yet to enter its loop, and the
thread may be gone with the loop before `EventLoop::quit` is done with it.
-/

namespace RpcLearning.Net

open Monitor CountDownLatch

/-- The owner of the object, and the thread it starts. -/
inductive Party where
  | caller
  | thread
deriving DecidableEq, Repr

inductive CallerPhase where
  | fresh
  /-- In `latch_.wait()`. -/
  | waiting
  /-- `startLoop` has returned. -/
  | running
  /-- The destructor has found that `loop_` is not null. -/
  | quitting
  /-- `quit` has set `quit_`, and is about to wake the loop. -/
  | waking
  | joining
  | gone
deriving DecidableEq, Repr

inductive ThreadPhase where
  | unborn
  | born
  /-- In `latch_.countDown()`. -/
  | announcing
  /-- At the `while` of `loop()`. -/
  | testing
  /-- In `poller_.poll()`. -/
  | polling
  | leaving
  | ended
deriving DecidableEq, Repr

/-- The loop exists. -/
def ThreadPhase.HasLoop : ThreadPhase → Prop
  | .announcing | .testing | .polling | .leaving => True
  | .unborn | .born | .ended => False

structure EventLoopThread where
  started_ : Bool
  /-- `loop_` is not null. -/
  loop_ : Bool
  latch_ : State LatchCall Int Party
  /-- The `quit_` of the loop in `runInThread`, while it exists. -/
  loop : Option Bool
  /-- The descriptor of that loop, which is made with `eventfd`, can be read. -/
  wakeupFd_ : Bool
  caller : CallerPhase
  thread : ThreadPhase

inductive EventLoopThreadStep where
  | startLoop
  | started
  | destroy
  | quit
  | wakeup
  | join
  | construct
  | enterLoop
  | exitLoop
  | poll
  /-- `poll` returns with the event descriptor. -/
  | handleRead
  /-- `poll` returns with something else, or for a signal. -/
  | handleEvents
  | leave
  /-- A step of the thread or the caller within the latch. -/
  | latch (a : Step LatchCall Party)

/-- A thread in the latch wakes up for no reason, or the loop has other events. -/
def EventLoopThreadStep.wakes : EventLoopThreadStep → Bool
  | .latch a => a.wakes
  | .handleEvents => true
  | _ => false

namespace EventLoopThread

def start : EventLoopThread := ⟨false, false, State.start 1, none, false, .fresh, .unborn⟩

/-- `startLoop()` up to `latch_.wait()`. -/
def startLoop (e : EventLoopThread) : Run EventLoopThread :=
  if e.started_ then .error .assertion
  else if e.loop_ then .error .assertion
  else .ok { e with
    started_ := true, thread := .born, caller := .waiting,
    latch_ := e.latch_.move .caller (.entering .wait) }

/-- The rest of `startLoop()`. -/
def started (e : EventLoopThread) : Run EventLoopThread :=
  if e.loop_ then .ok { e with caller := .running } else .error .assertion

/-- `~EventLoopThread()` up to the call of `quit`. -/
def destroy (e : EventLoopThread) : EventLoopThread :=
  if e.started_ then { e with caller := if e.loop_ then .quitting else .joining }
  else { e with caller := .gone }

/-- `loop_->quit()` up to `isInLoopThread()`. -/
def quit (e : EventLoopThread) : Run EventLoopThread :=
  match e.loop with
  | none => .error .dangling
  | some true => .error .assertion
  | some false => .ok { e with loop := some true, caller := .waking }

/-- The rest of `quit()`: the loop is asked for its thread, which is another one, and its descriptor
is written to. -/
def wakeup (e : EventLoopThread) : Run EventLoopThread :=
  match e.loop with
  | none => .error .dangling
  | some _ => .ok { e with wakeupFd_ := true, caller := .joining }

/-- `runInThread()` up to `latch_.countDown()`. -/
def construct (e : EventLoopThread) : EventLoopThread :=
  { e with
    loop := some false, wakeupFd_ := false, loop_ := true, thread := .announcing,
    latch_ := e.latch_.move .thread (.entering .countDown) }

/-- `loop_->loop()` up to its `while`. -/
def enterLoop (e : EventLoopThread) : Run EventLoopThread :=
  match e.loop with
  | none => .error .dangling
  | some true => .error .assertion
  | some false => .ok { e with thread := .testing }

def enabled (e : EventLoopThread) : EventLoopThreadStep → Prop
  | .startLoop => e.caller = .fresh
  | .started => e.caller = .waiting ∧ e.latch_.place .caller = .away
  | .destroy => e.caller = .fresh ∨ e.caller = .running
  | .quit => e.caller = .quitting
  | .wakeup => e.caller = .waking
  | .join => e.caller = .joining ∧ e.thread = .ended
  | .construct => e.thread = .born
  | .enterLoop => e.thread = .announcing ∧ e.latch_.place .thread = .away
  | .exitLoop => e.thread = .testing ∧ e.loop = some true
  | .poll => e.thread = .testing ∧ e.loop = some false
  | .handleRead => e.thread = .polling ∧ e.wakeupFd_ = true
  | .handleEvents => e.thread = .polling
  | .leave => e.thread = .leaving
  | .latch a => a.Goes ∧ Monitor.enabled e.latch_ a

def perform (e : EventLoopThread) : EventLoopThreadStep → Run EventLoopThread
  | .startLoop => e.startLoop
  | .started => e.started
  | .destroy => .ok e.destroy
  | .quit => e.quit
  | .wakeup => e.wakeup
  | .join => .ok { e with caller := .gone }
  | .construct => .ok e.construct
  | .enterLoop => e.enterLoop
  | .exitLoop => .ok { e with thread := .leaving }
  | .poll => .ok { e with thread := .polling }
  | .handleRead => .ok { e with wakeupFd_ := false, thread := .testing }
  | .handleEvents => .ok { e with thread := .testing }
  -- `loop_ = nullptr`, and the loop is destroyed
  | .leave => .ok { e with loop_ := false, loop := none, thread := .ended }
  | .latch a => do
    let latch_ ← latch.perform e.latch_ a
    .ok { e with latch_ }

def machine : Machine EventLoopThread EventLoopThreadStep := ⟨enabled, perform⟩

/-! ## Where the two can be -/

/-- The loop has been told to quit. -/
def hasQuit : CallerPhase → Bool
  | .waking | .joining => true
  | .fresh | .waiting | .running | .quitting | .gone => false

/-- The phases of the thread at each of the caller. -/
def Meets : CallerPhase → ThreadPhase → Prop
  | .fresh, t => t = .unborn
  | .waiting, t => t = .born ∨ t = .announcing ∨ t = .testing ∨ t = .polling
  | .running, t | .quitting, t => t = .announcing ∨ t = .testing ∨ t = .polling
  | .waking, t | .joining, t =>
    t = .announcing ∨ t = .testing ∨ t = .polling ∨ t = .leaving ∨ t = .ended
  | .gone, t => t = .unborn ∨ t = .ended

/-- The thread's call of `countDown`. -/
def Counts (s : State LatchCall Int Party) : ThreadPhase → Prop
  | .unborn | .born => s.place .thread = .away ∧ downs s = 0
  | .announcing => s.Calls .thread .countDown ∧ downs s = 0 ∨ s.place .thread = .away ∧ downs s = 1
  | .testing | .polling | .leaving | .ended => s.place .thread = .away ∧ downs s = 1

/-- The caller's call of `wait`. -/
def Waits (s : State LatchCall Int Party) : CallerPhase → Prop
  | .fresh | .gone => s.place .caller = .away
  | .waiting => s.Calls .caller .wait ∨ s.place .caller = .away ∧ 1 ≤ downs s
  | .running | .quitting | .waking | .joining => s.place .caller = .away ∧ 1 ≤ downs s

/-- `quit` is done with the loop. -/
def Asked : CallerPhase → Prop
  | .joining | .gone => True
  | .fresh | .waiting | .running | .quitting | .waking => False

structure Orderly (e : EventLoopThread) : Prop where
  sound : Sound latch 1 e.latch_
  meets : Meets e.caller e.thread
  born : e.started_ = true ↔ e.thread ≠ .unborn
  pointer : e.loop_ = true ↔ e.thread.HasLoop
  loop : e.loop = if e.loop_ then some (hasQuit e.caller) else none
  counts : Counts e.latch_ e.thread
  waits : Waits e.latch_ e.caller
  asked : e.wakeupFd_ = true → Asked e.caller
  /-- The loop does not sleep through a `quit`. -/
  woken : e.caller = .joining → e.thread = .polling → e.wakeupFd_ = true

theorem orderly_start : start.Orderly where
  sound := sound_of_runs .nil
  meets := rfl
  born := by simp [start]
  pointer := by simp [start, ThreadPhase.HasLoop]
  loop := rfl
  counts := ⟨rfl, rfl⟩
  waits := rfl
  asked := nofun
  woken := nofun

/-! ## Steps -/

/-- The wait of the caller has returned only after the thread has counted down. -/
theorem downs_of_returned {s : State LatchCall Int Party} (hs : Sound latch 1 s)
    {l : List (Party × LatchCall)} {t : Party} (h : s.returned = l ++ [(t, .wait)]) :
    1 ≤ downs s := by
  have hlin := hs.linear
  rw [h, List.map_append, List.map_singleton] at hlin
  obtain ⟨d₁, d₂, b, hl, hb⟩ := hlin.of_append
  have hle := (body_wait_eq_some.mp hb).1
  rw [count_of_linear hl] at hle
  rw [downs, h, List.map_append, List.count_append]
  omega

theorem Counts.keeps {s s' : State LatchCall Int Party} {p : ThreadPhase} (h : Counts s p)
    (hk : Keeps .thread s s') (hd : downs s' = downs s) : Counts s' p := by
  cases p with
  | announcing =>
      rcases h with ⟨hc, h0⟩ | ⟨ha, h1⟩
      · exact .inl ⟨hk.calls _ hc, hd.trans h0⟩
      · exact .inr ⟨hk.away ha, hd.trans h1⟩
  | _ => exact ⟨hk.away h.1, hd.trans h.2⟩

theorem Waits.keeps {s s' : State LatchCall Int Party} {p : CallerPhase} (h : Waits s p)
    (hk : Keeps .caller s s') (hd : downs s ≤ downs s') : Waits s' p := by
  cases p with
  | fresh | gone => exact hk.away h
  | waiting =>
      rcases h with hc | ⟨ha, h1⟩
      · exact .inl (hk.calls _ hc)
      · exact .inr ⟨hk.away ha, h1.trans hd⟩
  | running | quitting | waking | joining => exact ⟨hk.away h.1, h.2.trans hd⟩

/-- The thread calls `countDown` only, and the caller `wait`. -/
theorem Counts.of_calls {s : State LatchCall Int Party} {p : ThreadPhase} {c : LatchCall}
    (h : Counts s p) (hc : s.Calls .thread c) : p = .announcing ∧ c = .countDown ∧ downs s = 0 := by
  cases p with
  | announcing =>
      rcases h with ⟨hc', h0⟩ | ⟨ha, -⟩
      · exact ⟨rfl, hc.unique hc', h0⟩
      · exact absurd ha hc.ne_away
  | _ => exact absurd h.1 hc.ne_away

theorem Waits.of_calls {s : State LatchCall Int Party} {p : CallerPhase} {c : LatchCall}
    (h : Waits s p) (hc : s.Calls .caller c) : p = .waiting ∧ c = .wait := by
  cases p with
  | fresh | gone => exact absurd h hc.ne_away
  | waiting =>
      rcases h with hc' | ⟨ha, -⟩
      · exact ⟨rfl, hc.unique hc'⟩
      · exact absurd ha hc.ne_away
  | running | quitting | waking | joining => exact absurd h.1 hc.ne_away

theorem Counts.downs_le {s : State LatchCall Int Party} {p : ThreadPhase} (h : Counts s p) :
    downs s ≤ 1 := by
  cases p with
  | announcing => rcases h with ⟨-, h0⟩ | ⟨-, h1⟩ <;> omega
  | _ => exact h.2.le.trans (by decide)

/-- A step in the latch. -/
theorem Orderly.latch {e : EventLoopThread} (h : e.Orderly) {a : Step LatchCall Party}
    (hg : a.Goes) (he : Monitor.enabled e.latch_ a) :
    ∃ l, CountDownLatch.latch.perform e.latch_ a = .ok l ∧ Orderly { e with latch_ := l } := by
  rcases does_or_faults (M := CountDownLatch.latch) he with ⟨l, hp, hdoes⟩ | ⟨_, c, f, -, -, hb, -⟩
  swap
  · -- the one call of `countDown` has room
    have hdata := data_eq h.sound
    have hle := h.counts.downs_le
    have hoverflow := (body_eq_error.mp hb).2.1
    omega
  have hs := h.sound.does hdoes
  refine ⟨l, hp, ?_⟩
  rcases perform_of_goes he hg hp with ⟨hret, hk⟩ | ⟨t, c, hc, hret, haway, hk⟩
  · have hd : downs l = downs e.latch_ := by
      rw [downs, downs, hret]
    exact ⟨hs, h.meets, h.born, h.pointer, h.loop, h.counts.keeps (hk _) hd,
      h.waits.keeps (hk _) hd.ge, h.asked, h.woken⟩
  · have hd : downs l = downs e.latch_ + [c].count .countDown := by
      rw [downs, downs, hret, List.map_append, List.count_append]
      rfl
    cases t with
    | caller =>
        obtain ⟨hp, rfl⟩ := h.waits.of_calls hc
        refine ⟨hs, h.meets, h.born, h.pointer, h.loop, h.counts.keeps (hk _ (by simp)) hd, ?_,
          h.asked, h.woken⟩
        show Waits _ e.caller
        rw [hp]
        exact .inr ⟨haway, downs_of_returned hs hret⟩
    | thread =>
        obtain ⟨hp, rfl, h0⟩ := h.counts.of_calls hc
        have h1 : downs l = 1 := by
          rw [hd, h0]
          rfl
        refine ⟨hs, h.meets, h.born, h.pointer, h.loop, ?_, ?_, h.asked, h.woken⟩
        · show Counts _ e.thread
          rw [hp]
          exact .inr ⟨haway, h1⟩
        · exact h.waits.keeps (hk _ (by simp)) (by rw [h0]; exact Nat.zero_le _)

section Steps

variable {e : EventLoopThread}

theorem Orderly.thread_of_fresh (h : e.Orderly) (hc : e.caller = .fresh) :
    e.thread = .unborn ∧ e.started_ = false ∧ e.loop_ = false ∧ e.latch_.place .caller = .away := by
  have hmeets := h.meets
  have hwaits := h.waits
  rw [hc] at hmeets hwaits
  have ht : e.thread = .unborn := hmeets
  refine ⟨ht, ?_, ?_, hwaits⟩
  · simpa [ht] using h.born
  · simpa [ht, ThreadPhase.HasLoop] using h.pointer

/-- Once `wait` has returned and before the thread is joined, the loop exists. -/
theorem Orderly.loop_of_running (h : e.Orderly) (hc : e.caller = .running ∨ e.caller = .quitting) :
    (e.thread = .announcing ∨ e.thread = .testing ∨ e.thread = .polling) ∧ e.loop = some false ∧
      e.loop_ = true ∧ e.started_ = true := by
  have hp : e.thread = .announcing ∨ e.thread = .testing ∨ e.thread = .polling := by
    have hmeets := h.meets
    rcases hc with hc | hc <;> rw [hc] at hmeets <;> exact hmeets
  have hl : e.loop_ = true := by
    rw [h.pointer]
    rcases hp with ht | ht | ht <;> rw [ht] <;> trivial
  refine ⟨hp, ?_, hl, ?_⟩
  · rw [h.loop, hl]
    rcases hc with hc | hc <;> rw [hc] <;> rfl
  · rw [h.born]
    rcases hp with ht | ht | ht <;> rw [ht] <;> simp

/-- Before `quit` is done with it, nobody has written to the descriptor. -/
theorem Orderly.not_asked (h : e.Orderly) {c : CallerPhase} (hc : e.caller = c) (ha : ¬ Asked c) :
    ∀ {P : Prop}, e.wakeupFd_ = true → P :=
  fun hw ↦ absurd (hc ▸ h.asked hw) ha

theorem Orderly.startLoop (h : e.Orderly) (hc : e.caller = .fresh) :
    ∃ e', e.startLoop = .ok e' ∧ e'.Orderly := by
  obtain ⟨ht, hs, hl, haway⟩ := h.thread_of_fresh hc
  have hcounts := h.counts
  rw [ht] at hcounts
  refine ⟨_, by rw [EventLoopThread.startLoop, hs, hl]; rfl, ?_⟩
  refine ⟨h.sound.does (.call .wait haway), .inl rfl, by simp, by simp [ThreadPhase.HasLoop],
    ?_, ?_, .inl (.inl (State.place_move_self ..)), h.not_asked hc id, nofun⟩
  · rw [h.loop, hl]
    rfl
  · exact hcounts.keeps (p := .born) (keeps_move_of_ne (by simp) _) rfl

theorem Orderly.started (h : e.Orderly) (hc : e.caller = .waiting)
    (haway : e.latch_.place .caller = .away) :
    ∃ e', e.started = .ok e' ∧ e'.Orderly := by
  have hmeets := h.meets
  have hwaits := h.waits
  have hcounts := h.counts
  have hloop := h.loop
  rw [hc] at hmeets hwaits hloop
  have h1 : 1 ≤ downs e.latch_ := by
    rcases hwaits with hcalls | ⟨-, h1⟩
    · exact absurd haway hcalls.ne_away
    · exact h1
  have hp : e.thread = .announcing ∨ e.thread = .testing ∨ e.thread = .polling := by
    rcases hmeets with ht | ht
    · rw [ht] at hcounts
      rw [hcounts.2] at h1
      omega
    · exact ht
  have hl : e.loop_ = true := by
    rw [h.pointer]
    rcases hp with ht | ht | ht <;> rw [ht] <;> trivial
  refine ⟨{ e with caller := .running }, by rw [EventLoopThread.started, if_pos hl], ?_⟩
  exact ⟨h.sound, hp, h.born, h.pointer, hloop, h.counts, ⟨haway, h1⟩, h.not_asked hc id, nofun⟩

theorem Orderly.destroy (h : e.Orderly) (hc : e.caller = .fresh ∨ e.caller = .running) :
    e.destroy.Orderly := by
  rcases hc with hc | hc
  · obtain ⟨ht, hs, hl, haway⟩ := h.thread_of_fresh hc
    have hd : e.destroy = { e with caller := .gone } := by
      rw [EventLoopThread.destroy, if_neg (by simp [hs])]
    rw [hd]
    refine ⟨h.sound, .inl ht, h.born, h.pointer, ?_, h.counts, haway, fun _ ↦ trivial, nofun⟩
    show e.loop = _
    rw [h.loop, hl]
    rfl
  · obtain ⟨hp, -, hl, hs⟩ := h.loop_of_running (.inl hc)
    have hwaits := h.waits
    have hloop := h.loop
    rw [hc] at hwaits hloop
    have hd : e.destroy = { e with caller := .quitting } := by
      rw [EventLoopThread.destroy, if_pos hs, if_pos hl]
    rw [hd]
    exact ⟨h.sound, hp, h.born, h.pointer, hloop, h.counts, hwaits, h.not_asked hc id, nofun⟩

theorem Orderly.quit (h : e.Orderly) (hc : e.caller = .quitting) :
    ∃ e', e.quit = .ok e' ∧ e'.Orderly := by
  obtain ⟨hp, hq, hl, -⟩ := h.loop_of_running (.inr hc)
  have hwaits := h.waits
  rw [hc] at hwaits
  refine ⟨{ e with loop := some true, caller := .waking },
    by rw [EventLoopThread.quit, hq], ?_⟩
  refine ⟨h.sound, ?_, h.born, h.pointer, ?_, h.counts, hwaits, h.not_asked hc id, nofun⟩
  · rcases hp with ht | ht | ht
    · exact .inl ht
    · exact .inr (.inl ht)
    · exact .inr (.inr (.inl ht))
  · show some true = _
    rw [hl]
    rfl

/-- The loop is there to be woken, or it is gone with its thread. -/
theorem Orderly.wakeup (h : e.Orderly) (hc : e.caller = .waking) :
    (∃ e', e.wakeup = .ok e' ∧ e'.Orderly) ∨ e.loop = none ∧ e.wakeup = .error .dangling := by
  have hmeets := h.meets
  have hwaits := h.waits
  have hloop := h.loop
  rw [hc] at hmeets hwaits hloop
  cases hl : e.loop with
  | none => exact .inr ⟨rfl, by rw [EventLoopThread.wakeup, hl]⟩
  | some q =>
      refine .inl ⟨{ e with wakeupFd_ := true, caller := .joining },
        by rw [EventLoopThread.wakeup, hl], ?_⟩
      exact ⟨h.sound, hmeets, h.born, h.pointer, hloop, h.counts, hwaits, fun _ ↦ trivial,
        fun _ _ ↦ rfl⟩

theorem Orderly.join (h : e.Orderly) (hc : e.caller = .joining) (ht : e.thread = .ended) :
    Orderly { e with caller := .gone } := by
  have hwaits := h.waits
  rw [hc] at hwaits
  have hl : e.loop_ = false := by simpa [ht, ThreadPhase.HasLoop] using h.pointer
  refine ⟨h.sound, .inr ht, h.born, h.pointer, ?_, h.counts, hwaits.1, fun _ ↦ trivial, nofun⟩
  show e.loop = _
  rw [h.loop, hl]
  rfl

theorem Orderly.construct (h : e.Orderly) (ht : e.thread = .born) : e.construct.Orderly := by
  have hmeets := h.meets
  have hcounts := h.counts
  have hstarted := h.born
  rw [ht] at hmeets hcounts hstarted
  have hc : e.caller = .waiting := by
    cases hcaller : e.caller with
    | waiting => rfl
    | _ =>
        rw [hcaller] at hmeets
        simp [Meets] at hmeets
  refine ⟨h.sound.does (.call .countDown hcounts.1), ?_, ?_, ?_, ?_, ?_, ?_, nofun, nofun⟩
  · show Meets e.caller .announcing
    rw [hc]
    exact .inr (.inl rfl)
  · rw [EventLoopThread.construct, hstarted]
    simp
  · simp [EventLoopThread.construct, ThreadPhase.HasLoop]
  · simp [EventLoopThread.construct, hc, hasQuit]
  · exact .inl ⟨.inl (State.place_move_self ..), hcounts.2⟩
  · exact h.waits.keeps (keeps_move_of_ne (by simp) _) (le_refl _)

/-- The thread enters the loop, or finds that it has been told to quit. -/
theorem Orderly.enterLoop (h : e.Orderly) (ht : e.thread = .announcing)
    (haway : e.latch_.place .thread = .away) :
    (∃ e', e.enterLoop = .ok e' ∧ e'.Orderly) ∨
      e.loop = some true ∧ e.enterLoop = .error .assertion := by
  have hcounts := h.counts
  have hmeets := h.meets
  have hloop := h.loop
  rw [ht] at hcounts hmeets
  have hl : e.loop_ = true := by
    rw [h.pointer, ht]
    trivial
  rw [hl, if_pos rfl] at hloop
  cases hq : hasQuit e.caller with
  | true =>
      rw [hq] at hloop
      exact .inr ⟨hloop, by rw [EventLoopThread.enterLoop, hloop]⟩
  | false =>
      rw [hq] at hloop
      refine .inl ⟨{ e with thread := .testing }, by rw [EventLoopThread.enterLoop, hloop], ?_⟩
      refine ⟨h.sound, ?_, ?_, ?_, h.loop, ?_, h.waits, h.asked, nofun⟩
      · show Meets e.caller .testing
        cases hcaller : e.caller <;> rw [hcaller] at hmeets <;> simp [Meets] at hmeets ⊢
      · simp [h.born, ht]
      · simp [h.pointer, ht, ThreadPhase.HasLoop]
      · rcases hcounts with ⟨hcalls, -⟩ | hcounts
        · exact absurd haway hcalls.ne_away
        · exact hcounts

/-- The loop is at its `while` or in `poll`. -/
theorem Orderly.quit_eq (h : e.Orderly) (ht : e.thread = .testing ∨ e.thread = .polling) :
    e.loop = some (hasQuit e.caller) := by
  have hl : e.loop_ = true := by
    rw [h.pointer]
    rcases ht with ht | ht <;> rw [ht] <;> trivial
  rw [h.loop, hl, if_pos rfl]

/-- The thread goes on in its loop. -/
theorem Orderly.loops (h : e.Orderly) (ht : e.thread = .testing ∨ e.thread = .polling)
    {t : ThreadPhase} (ht' : t = .testing ∨ t = .polling) {w : Bool}
    (hw : w = true → e.wakeupFd_ = true)
    (hwoken : e.caller = .joining → t = .polling → w = true) :
    Orderly { e with thread := t, wakeupFd_ := w } := by
  have hcounts := h.counts
  have hmeets := h.meets
  refine ⟨h.sound, ?_, ?_, ?_, h.loop, ?_, h.waits, fun hw' ↦ h.asked (hw hw'), hwoken⟩
  · show Meets e.caller t
    cases hcaller : e.caller <;> rw [hcaller] at hmeets <;>
      rcases ht with ht | ht <;> rcases ht' with rfl | rfl <;> simp [Meets, ht] at hmeets ⊢
  · rcases ht with ht | ht <;> rcases ht' with rfl | rfl <;> simp [h.born, ht]
  · rcases ht with ht | ht <;> rcases ht' with rfl | rfl <;>
      simp [h.pointer, ht, ThreadPhase.HasLoop]
  · rcases ht with ht | ht <;> rcases ht' with rfl | rfl <;> rw [ht] at hcounts <;> exact hcounts

theorem Orderly.exitLoop (h : e.Orderly) (ht : e.thread = .testing) (hq : e.loop = some true) :
    Orderly { e with thread := .leaving } := by
  have hcounts := h.counts
  have hloop := h.loop
  rw [ht] at hcounts
  have hl : e.loop_ = true := by
    rw [h.pointer, ht]
    trivial
  rw [hq, hl, if_pos rfl, Option.some.injEq] at hloop
  refine ⟨h.sound, ?_, ?_, ?_, h.loop, hcounts, h.waits, h.asked, nofun⟩
  · show Meets e.caller .leaving
    cases hcaller : e.caller <;> rw [hcaller] at hloop <;> simp [hasQuit, Meets] at hloop ⊢
  · simp [h.born, ht]
  · simp [h.pointer, ht, ThreadPhase.HasLoop]

theorem Orderly.leave (h : e.Orderly) (ht : e.thread = .leaving) :
    Orderly { e with loop_ := false, loop := none, thread := .ended } := by
  have hcounts := h.counts
  have hmeets := h.meets
  rw [ht] at hcounts hmeets
  refine ⟨h.sound, ?_, ?_, ?_, rfl, hcounts, h.waits, h.asked, nofun⟩
  · show Meets e.caller .ended
    cases hcaller : e.caller <;> rw [hcaller] at hmeets <;> simp [Meets] at hmeets ⊢
  · simp [h.born, ht]
  · simp [ThreadPhase.HasLoop]

/-- What goes wrong: the thread finds that its loop has been told to quit, or the caller that the
loop it has told is gone. -/
inductive Faults (e : EventLoopThread) : EventLoopThreadStep → Fault → Prop
  | enterLoop (h : e.loop = some true) : Faults e .enterLoop .assertion
  | wakeup (h : e.loop = none) : Faults e .wakeup .dangling

/-- A step keeps the order, or goes wrong. -/
theorem Orderly.step (h : e.Orderly) {a : EventLoopThreadStep} (he : e.enabled a) :
    (∃ e', e.perform a = .ok e' ∧ e'.Orderly) ∨
      ∃ f, e.Faults a f ∧ e.perform a = .error f := by
  cases a with
  | startLoop => exact .inl (h.startLoop he)
  | started => exact .inl (h.started he.1 he.2)
  | destroy => exact .inl ⟨_, rfl, h.destroy he⟩
  | quit => exact .inl (h.quit he)
  | wakeup =>
      rcases h.wakeup he with h' | ⟨hl, hp⟩
      · exact .inl h'
      · exact .inr ⟨_, .wakeup hl, hp⟩
  | join => exact .inl ⟨_, rfl, h.join he.1 he.2⟩
  | construct => exact .inl ⟨_, rfl, h.construct he⟩
  | enterLoop =>
      rcases h.enterLoop he.1 he.2 with h' | ⟨hq, hp⟩
      · exact .inl h'
      · exact .inr ⟨_, .enterLoop hq, hp⟩
  | exitLoop => exact .inl ⟨_, rfl, h.exitLoop he.1 he.2⟩
  | poll =>
      refine .inl ⟨_, rfl, h.loops (.inl he.1) (.inr rfl) id fun hc _ ↦ ?_⟩
      -- the loop has not been told to quit
      have hq := (h.quit_eq (.inl he.1)).symm.trans he.2
      rw [hc] at hq
      cases hq
  | handleRead => exact .inl ⟨_, rfl, h.loops (.inr he.1) (.inl rfl) nofun nofun⟩
  | handleEvents => exact .inl ⟨_, rfl, h.loops (.inr he) (.inl rfl) id nofun⟩
  | leave => exact .inl ⟨_, rfl, h.leave he⟩
  | latch a =>
      obtain ⟨l, hp, ho⟩ := h.latch he.1 he.2
      exact .inl ⟨_, by simp only [EventLoopThread.perform, hp, Exec.ok_bind], ho⟩

theorem Orderly.perform (h : e.Orderly) {a : EventLoopThreadStep} {e' : EventLoopThread}
    (he : e.enabled a) (hp : e.perform a = .ok e') : e'.Orderly := by
  rcases h.step he with ⟨e₁, hp₁, ho⟩ | ⟨f, -, hf⟩
  · cases hp.symm.trans hp₁
    exact ho
  · cases hp.symm.trans hf

end Steps

/-! ## Runs -/

section Runs

variable {as : List EventLoopThreadStep} {e : EventLoopThread}

theorem orderly_of_runs (h : machine.Runs start as (.ok e)) : e.Orderly :=
  h.preserves (I := fun _ e ↦ e.Orderly) orderly_start fun _ _ _ _ ho he hp ↦ ho.perform he hp

/-- `startLoop` returns a loop that is there, and not yet told to quit, until the destructor is
called; and whatever the two threads do, only two things can go wrong, and only then. -/
theorem faults_of_runs (h : machine.Runs start as (.ok e)) :
    (e.caller = .running → e.loop_ = true ∧ e.loop = some false) ∧
      ∀ a, e.enabled a → ∀ f, e.perform a = .error f ↔ e.Faults a f := by
  have ho := orderly_of_runs h
  constructor
  · intro hc
    obtain ⟨-, hl, hp, -⟩ := ho.loop_of_running (.inl hc)
    exact ⟨hp, hl⟩
  · intro a he f
    constructor
    · intro hf
      rcases ho.step he with ⟨e', hp, -⟩ | ⟨f', hf', hp⟩
      · cases hf.symm.trans hp
      · cases hf.symm.trans hp
        exact hf'
    · intro hf
      cases hf with
      | enterLoop hl => rw [EventLoopThread.perform, EventLoopThread.enterLoop, hl]
      | wakeup hl => rw [EventLoopThread.perform, EventLoopThread.wakeup, hl]

/-- The destructor is called as soon as `startLoop` has returned, and is done with the loop before
the thread enters it. -/
def hasty : List EventLoopThreadStep :=
  [.startLoop, .construct, .latch (.lock .thread), .latch (.run .thread), .latch (.lock .caller),
    .latch (.run .caller), .started, .destroy, .quit]

theorem runs_then (h : machine.Runs start as (.ok e)) (a : EventLoopThreadStep)
    {e' : EventLoopThread} (he : e.enabled a) (hp : e.perform a = .ok e') :
    machine.Runs start (as ++ [a]) (.ok e') := h.then he hp

theorem free_of_others {s : State LatchCall Int Party} (hcaller : ∀ c, s.place .caller ≠ .inside c)
    (hthread : ∀ c, s.place .thread ≠ .inside c) : s.Free := by
  intro t
  cases t with
  | caller => exact hcaller
  | thread => exact hthread

theorem runs_hasty : ∃ e, machine.Runs start hasty (.ok e) ∧ e.enabled .enterLoop ∧
    e.loop = some true := by
  have h₁ := runs_then .nil .startLoop rfl rfl
  have h₂ := runs_then h₁ .construct rfl rfl
  have h₃ := runs_then h₂ (.latch (.lock .thread))
    ⟨trivial, free_of_others (fun c h ↦ by cases h) (fun c h ↦ by cases h), .countDown, rfl⟩ rfl
  have h₄ := runs_then h₃ (.latch (.run .thread)) ⟨trivial, .countDown, rfl⟩ rfl
  have h₅ := runs_then h₄ (.latch (.lock .caller))
    ⟨trivial, free_of_others (fun c h ↦ by cases h) (fun c h ↦ by cases h), .wait, rfl⟩ rfl
  have h₆ := runs_then h₅ (.latch (.run .caller)) ⟨trivial, .wait, rfl⟩ rfl
  have h₇ := runs_then h₆ .started ⟨rfl, rfl⟩ rfl
  have h₈ := runs_then h₇ .destroy (.inr rfl) rfl
  exact ⟨_, runs_then h₈ .quit rfl rfl, ⟨rfl, rfl⟩, rfl⟩

theorem faults_of_runs_hasty : ∃ e, machine.Runs start hasty (.ok e) ∧
    e.perform .enterLoop = .error .assertion := by
  obtain ⟨e, h, he, hl⟩ := runs_hasty
  exact ⟨e, h, ((faults_of_runs h).2 .enterLoop he .assertion).mpr (.enterLoop hl)⟩

end Runs

end EventLoopThread

end RpcLearning.Net
