import RpcLearning.Net.EventLoopThread

/-!
# Neither waits for ever

Each step of the owner or of the thread brings the end nearer, except that a thread may wake up for
no reason, and its loop have something else to do; and until the object is gone one of the two can
go on without that.  A thread that is blocked in `poll` can do so because `quit` wakes it up.
-/

namespace RpcLearning.Net

open Monitor CountDownLatch

namespace EventLoopThread

/-- What the caller has still to do in the latch, where it sleeps until the thread has counted
down. -/
def waitRank (s : State LatchCall Int Party) : Nat :=
  match s.place .caller, downs s with
  | .away, _ => 0
  | .inside _, _ + 1 => 1
  | .entering _, _ + 1 => 2
  | .asleep _, _ => 3
  | .inside _, 0 => 4
  | .entering _, 0 => 5

def countRank (s : State LatchCall Int Party) : Nat :=
  match s.place .thread with
  | .away | .asleep _ => 0
  | .inside _ => 1
  | .entering _ => 2

def callerRank : CallerPhase → Nat
  | .gone => 0
  | .joining => 1
  | .waking => 2
  | .quitting => 3
  | .running => 4
  | .waiting => 5
  | .fresh => 19

/-- With the `quit_` of the loop: only a loop that has not been told to quit polls. -/
def threadRank : Option Bool → ThreadPhase → Nat
  | _, .unborn | _, .ended => 0
  | _, .leaving => 1
  | some true, .testing => 2
  | _, .polling => 3
  | _, .testing => 4
  | _, .announcing => 5
  | _, .born => 8

/-- A bound on the steps to come. -/
def rank (e : EventLoopThread) : Nat :=
  callerRank e.caller + threadRank e.loop e.thread + waitRank e.latch_ + countRank e.latch_

section Rank

variable {s : State LatchCall Int Party} {t : Party} {p : Place LatchCall} {c : LatchCall}

@[simp] theorem downs_move : downs (s.move t p) = downs s := rfl

@[simp] theorem waitRank_move_thread : waitRank (s.move .thread p) = waitRank s := by
  simp [waitRank, State.place_move_of_ne]

@[simp] theorem countRank_move_caller : countRank (s.move .caller p) = countRank s := by
  simp [countRank, State.place_move_of_ne]

theorem rank_lock (hc : s.place t = .entering c) :
    waitRank (s.move t (.inside c)) + countRank (s.move t (.inside c)) + 1 ≤
      waitRank s + countRank s := by
  cases t with
  | caller =>
      rw [countRank_move_caller]
      simp only [waitRank, State.place_move_self, downs_move, hc]
      cases downs s <;> simp
  | thread =>
      rw [waitRank_move_thread]
      simp only [countRank, State.place_move_self, hc]
      omega

/-- Waking up costs the way back to sleep. -/
theorem rank_wake (hc : s.place t = .asleep c) :
    waitRank (s.move t (.entering c)) + countRank (s.move t (.entering c)) ≤
      waitRank s + countRank s + 2 := by
  cases t with
  | caller =>
      rw [countRank_move_caller]
      simp only [waitRank, State.place_move_self, downs_move, hc]
      cases downs s <;> simp <;> omega
  | thread =>
      rw [waitRank_move_thread]
      simp only [countRank, State.place_move_self, hc]
      omega

variable {s' : State LatchCall Int Party}

/-- The caller goes to sleep, or leaves with its `wait` done. -/
theorem rank_run_wait (hs : Sound latch 1 s) (hc : s.place .caller = .inside .wait)
    (hp : latch.perform s (.run .caller) = .ok s') :
    waitRank s' + countRank s' + 1 ≤ waitRank s + countRank s := by
  have hdata := data_eq hs
  simp only [Monitor.perform, hc] at hp
  rcases le_or_gt s.data 0 with hle | hpos
  · rw [body_wait_eq_some.mpr ⟨hle, rfl, rfl⟩] at hp
    cases hp
    obtain ⟨k, hk⟩ : ∃ k, downs s = k + 1 := ⟨downs s - 1, by omega⟩
    simp only [waitRank, countRank, hc, hk, State.place_leave_self,
      State.place_leave_of_ne (show Party.thread ≠ .caller by simp)]
    simp
  · rw [body_wait_eq_none.mpr hpos] at hp
    cases hp
    have hd : downs s = 0 := by omega
    simp only [countRank_move_caller, waitRank, State.place_move_self, downs_move, hc, hd]
    omega

/-- The thread leaves with its `countDown` done, and the caller has been notified. -/
theorem rank_run_countDown (hs : Sound latch 1 s) (h0 : downs s = 0)
    (hc : s.place .thread = .inside .countDown) (hp : latch.perform s (.run .thread) = .ok s') :
    waitRank s' + countRank s' + 1 ≤ waitRank s + countRank s := by
  have hdata : s.data = 1 := by rw [data_eq hs, h0]; rfl
  have hb : latch.body .countDown s.data = .ok (some (0, true)) := by rw [hdata]; rfl
  have hd : downs (s.leave .thread .countDown 0 true) = 1 := by
    rw [downs, State.leave, List.map_append, List.count_append]
    rw [downs] at h0
    rw [h0]
    rfl
  simp only [Monitor.perform, hc, hb] at hp
  cases hp
  simp only [waitRank, countRank, hc, hd, h0, State.place_leave_self,
    State.place_leave_of_ne (show Party.caller ≠ .thread by simp)]
  cases s.place .caller <;> simp [Place.notified]

end Rank

theorem rank_latch {e : EventLoopThread} (h : e.Orderly) {a : Step LatchCall Party} (hg : a.Goes)
    (he : Monitor.enabled e.latch_ a) {l : State LatchCall Int Party}
    (hp : CountDownLatch.latch.perform e.latch_ a = .ok l) :
    waitRank l + countRank l + 1 ≤
      waitRank e.latch_ + countRank e.latch_ + if a.wakes then 3 else 0 := by
  cases a with
  | call t c => cases hg
  | lock t =>
      obtain ⟨-, c, hc⟩ := he
      simp only [Monitor.perform, hc] at hp
      cases hp
      exact rank_lock hc
  | run t =>
      obtain ⟨c, hc⟩ := he
      cases t with
      | caller =>
          obtain ⟨-, rfl⟩ := h.waits.of_calls (.inr (.inl hc))
          exact rank_run_wait h.sound hc hp
      | thread =>
          obtain ⟨-, rfl, h0⟩ := h.counts.of_calls (.inr (.inl hc))
          exact rank_run_countDown h.sound h0 hc hp
  | wake t =>
      obtain ⟨c, hc⟩ := he
      simp only [Monitor.perform, hc] at hp
      cases hp
      have hle := rank_wake hc
      simp only [Step.wakes, if_true]
      omega

/-- The loop has been woken to find that it has to quit. -/
theorem Orderly.loop_of_woken {e : EventLoopThread} (h : e.Orderly) (ht : e.thread = .polling)
    (hw : e.wakeupFd_ = true) : e.loop = some true := by
  have hasked := h.asked hw
  have hmeets := h.meets
  rw [h.quit_eq (.inr ht)]
  cases hc : e.caller with
  | joining => rfl
  | gone =>
      rw [hc, ht] at hmeets
      rcases hmeets with hmeets | hmeets <;> cases hmeets
  | _ =>
      rw [hc] at hasked
      cases hasked

/-- A step brings the end nearer, or it is a thread that wakes up for something else. -/
theorem rank_perform {e e' : EventLoopThread} (h : e.Orderly) {a : EventLoopThreadStep}
    (he : e.enabled a) (hp : e.perform a = .ok e') :
    rank e' + 1 ≤ rank e + if a.wakes then 3 else 0 := by
  cases a with
  | startLoop =>
      obtain ⟨ht, hs, hl, haway⟩ := h.thread_of_fresh he
      have hcounts := h.counts
      rw [ht] at hcounts
      rw [EventLoopThread.perform, EventLoopThread.startLoop, hs, hl] at hp
      cases hp
      have hwait : waitRank (e.latch_.move .caller (.entering .wait)) = 5 := by
        simp only [waitRank, State.place_move_self, downs_move, hcounts.2]
      simp only [rank, hwait, countRank_move_caller, callerRank, threadRank,
        show e.caller = .fresh from he]
      omega
  | started =>
      rw [EventLoopThread.perform, EventLoopThread.started] at hp
      split at hp
      · cases hp
        simp only [rank, callerRank, he.1]
        omega
      · cases hp
  | destroy =>
      cases hp
      rw [EventLoopThread.destroy]
      rcases he with hc | hc
      · obtain ⟨ht, hs, -, -⟩ := h.thread_of_fresh hc
        rw [if_neg (by simp [hs])]
        simp only [rank, callerRank, hc]
        omega
      · obtain ⟨-, -, hl, hs⟩ := h.loop_of_running (.inl hc)
        rw [if_pos hs, if_pos hl]
        simp only [rank, callerRank, hc]
        omega
  | quit =>
      rw [EventLoopThread.perform, EventLoopThread.quit] at hp
      split at hp
      · cases hp
      · cases hp
      next hq =>
        cases hp
        have hle : threadRank (some true) e.thread ≤ threadRank (some false) e.thread := by
          cases e.thread <;> simp [threadRank]
        simp only [rank, callerRank, hq, show e.caller = .quitting from he]
        omega
  | wakeup =>
      rw [EventLoopThread.perform, EventLoopThread.wakeup] at hp
      split at hp
      · cases hp
      · cases hp
        simp only [rank, callerRank, show e.caller = .waking from he]
        omega
  | join =>
      cases hp
      simp only [rank, callerRank, he.1]
      omega
  | construct =>
      cases hp
      have hcount : countRank (e.latch_.move .thread (.entering .countDown)) = 2 := by
        simp only [countRank, State.place_move_self]
      simp only [rank, EventLoopThread.construct, hcount, waitRank_move_thread, threadRank,
        show e.thread = .born from he]
      omega
  | enterLoop =>
      rw [EventLoopThread.perform, EventLoopThread.enterLoop] at hp
      split at hp
      · cases hp
      · cases hp
      next hq =>
        cases hp
        simp only [rank, threadRank, hq, he.1]
        omega
  | exitLoop =>
      cases hp
      simp only [rank, threadRank, he.1, he.2]
      omega
  | poll =>
      cases hp
      simp only [rank, threadRank, he.1, he.2]
      omega
  | handleRead =>
      cases hp
      simp only [rank, threadRank, he.1, h.loop_of_woken he.1 he.2]
      omega
  | handleEvents =>
      cases hp
      have hle : threadRank e.loop .testing ≤ 4 := by
        rcases e.loop with _ | _ | _ <;> simp [threadRank]
      have hpoll : threadRank e.loop e.thread = 3 := by
        rw [show e.thread = .polling from he]
        rcases e.loop with _ | _ | _ <;> rfl
      simp only [rank, hpoll, EventLoopThreadStep.wakes, if_true]
      omega
  | leave =>
      cases hp
      simp only [rank, threadRank, show e.thread = .leaving from he]
      omega
  | latch a =>
      obtain ⟨l, hl, -⟩ := h.latch he.1 he.2
      simp only [EventLoopThread.perform, hl, Exec.ok_bind] at hp
      cases hp
      have hle := rank_latch h he.1 he.2 hl
      show rank _ + 1 ≤ rank e + if a.wakes then 3 else 0
      simp only [rank]
      omega

/-- The thread can go on until it has left its loop. -/
theorem exists_enabled_thread {e : EventLoopThread} (h : e.Orderly)
    (ht : e.thread = .announcing) : ∃ a, a.wakes = false ∧ e.enabled a := by
  have hle := h.counts.downs_le
  have hcounts := h.counts
  rw [ht] at hcounts
  rcases hcounts with ⟨hc, -⟩ | ⟨haway, -⟩
  · have hdata := data_eq h.sound
    have hready : latch.Ready .countDown e.latch_.data :=
      ⟨_, body_countDown_eq_some.mpr ⟨by omega, rfl, rfl⟩⟩
    obtain ⟨a, hg, hw, he⟩ := exists_enabled announces_latch h.sound hc hready
    exact ⟨.latch a, hw, hg, he⟩
  · exact ⟨.enterLoop, rfl, ht, haway⟩

theorem exists_enabled_caller {e : EventLoopThread} (h : e.Orderly) (hc : e.caller = .waiting)
    (ht : e.thread = .testing ∨ e.thread = .polling) : ∃ a, a.wakes = false ∧ e.enabled a := by
  have hwaits := h.waits
  have hdata := data_eq h.sound
  have h1 : downs e.latch_ = 1 := by
    have hcounts := h.counts
    rcases ht with ht | ht <;> rw [ht] at hcounts <;> exact hcounts.2
  rw [hc] at hwaits
  rcases hwaits with hcalls | ⟨haway, -⟩
  · have hready : latch.Ready .wait e.latch_.data := by
      rw [ready_wait, hdata, h1]
      exact le_rfl
    obtain ⟨a, hg, hw, he⟩ := exists_enabled announces_latch h.sound hcalls hready
    exact ⟨.latch a, hw, hg, he⟩
  · exact ⟨.started, rfl, hc, haway⟩

/-- Until the object is gone there is something to do, and no waking up for other reasons is needed
for it. -/
theorem exists_enabled_of_orderly {e : EventLoopThread} (h : e.Orderly) (hc : e.caller ≠ .gone) :
    ∃ a, a.wakes = false ∧ e.enabled a := by
  have hmeets := h.meets
  cases hcaller : e.caller with
  | fresh => exact ⟨.startLoop, rfl, hcaller⟩
  | waiting =>
      rw [hcaller] at hmeets
      rcases hmeets with ht | ht | ht
      · exact ⟨.construct, rfl, ht⟩
      · exact exists_enabled_thread h ht
      · exact exists_enabled_caller h hcaller ht
  | running => exact ⟨.destroy, rfl, .inr hcaller⟩
  | quitting => exact ⟨.quit, rfl, hcaller⟩
  | waking => exact ⟨.wakeup, rfl, hcaller⟩
  | joining =>
      rw [hcaller] at hmeets
      rcases hmeets with ht | ht | ht | ht | ht
      · exact exists_enabled_thread h ht
      · have hquit := h.quit_eq (.inl ht)
        rw [hcaller] at hquit
        exact ⟨.exitLoop, rfl, ht, hquit⟩
      · exact ⟨.handleRead, rfl, ht, h.woken hcaller ht⟩
      · exact ⟨.leave, rfl, ht⟩
      · exact ⟨.join, rfl, hcaller, ht⟩
  | gone => exact absurd hcaller hc

/-- The two always come to an end: a run is as long as at most nineteen steps and the times that a
thread wakes up for something else allow, and while the object is there it can go on.  A thread
that is blocked when the destructor joins it has been woken. -/
theorem ends_of_runs {as : List EventLoopThreadStep} {e : EventLoopThread}
    (h : machine.Runs start as (.ok e)) :
    as.length ≤ 19 + 3 * as.countP EventLoopThreadStep.wakes ∧
      (e.caller ≠ .gone → ∃ a, a.wakes = false ∧ e.enabled a) ∧
      (e.caller = .joining → e.thread = .polling → e.enabled .handleRead) := by
  have ho := orderly_of_runs h
  refine ⟨?_, exists_enabled_of_orderly ho, fun hc ht ↦ ⟨ht, ho.woken hc ht⟩⟩
  have hbound : e.Orderly ∧
      as.length + rank e ≤ 19 + 3 * as.countP EventLoopThreadStep.wakes := by
    refine h.preserves (I := fun as e ↦ e.Orderly ∧
      as.length + rank e ≤ 19 + 3 * as.countP EventLoopThreadStep.wakes)
      ⟨orderly_start, le_refl _⟩ ?_
    rintro as e a e' ⟨ho, hle⟩ he hp
    refine ⟨ho.perform he hp, ?_⟩
    have hrank := rank_perform ho he hp
    rw [List.length_append, List.countP_append, List.countP_singleton, List.length_singleton]
    split at hrank
    · rename_i hw
      rw [if_pos hw]
      omega
    · rename_i hw
      rw [if_neg hw]
      omega
  omega

/-- The destructor joins a thread that is blocked in `poll`. -/
theorem ends_of_runs_blocked : ∃ as e, machine.Runs start as (.ok e) ∧ e.caller = .joining ∧
    e.thread = .polling ∧ as.length ≤ 19 + 3 * as.countP EventLoopThreadStep.wakes ∧
    e.enabled .handleRead := by
  have h₁ := runs_then .nil .startLoop rfl rfl
  have h₂ := runs_then h₁ .construct rfl rfl
  have h₃ := runs_then h₂ (.latch (.lock .thread))
    ⟨trivial, free_of_others (fun c h ↦ by cases h) (fun c h ↦ by cases h), .countDown, rfl⟩ rfl
  have h₄ := runs_then h₃ (.latch (.run .thread)) ⟨trivial, .countDown, rfl⟩ rfl
  have h₅ := runs_then h₄ .enterLoop ⟨rfl, rfl⟩ rfl
  have h₆ := runs_then h₅ .poll ⟨rfl, rfl⟩ rfl
  have h₇ := runs_then h₆ (.latch (.lock .caller))
    ⟨trivial, free_of_others (fun c h ↦ by cases h) (fun c h ↦ by cases h), .wait, rfl⟩ rfl
  have h₈ := runs_then h₇ (.latch (.run .caller)) ⟨trivial, .wait, rfl⟩ rfl
  have h₉ := runs_then h₈ .started ⟨rfl, rfl⟩ rfl
  have h₁₀ := runs_then h₉ .destroy (.inr rfl) rfl
  have h₁₁ := runs_then h₁₀ .quit rfl rfl
  have h₁₂ := runs_then h₁₁ .wakeup rfl rfl
  obtain ⟨hlen, -, hwoken⟩ := ends_of_runs h₁₂
  exact ⟨_, _, h₁₂, rfl, rfl, hlen, hwoken rfl rfl⟩

end EventLoopThread

end RpcLearning.Net
