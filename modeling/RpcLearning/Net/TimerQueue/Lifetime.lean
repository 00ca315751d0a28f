import RpcLearning.Net.TimerQueue.Expiry

/-!
# The lifetime of timers

Every timer that is alive is in the set, or in the batch of the `handleRead` on its way, and the
loop over the batch looks at every timer in it.  So a timer may be canceled unless it is in the
batch: the loop would look at it after it was deleted.
-/

namespace RpcLearning.Net.TimerQueue

/-- The entries that the loop may still come to. -/
def entries (q : TimerQueue) : List Entry :=
  q.timers_ ++
    match q.handling with
    | some x => x.entries
    | none => []

/-- Every entry has a timer that is alive and not canceled, and every timer has an entry, so that it
will be deleted. -/
structure Lifetime (q : TimerQueue) : Prop where
  alive : ∀ e ∈ q.entries, ∃ t, q.heap e.timer = some t ∧ t.canceled_ = false
  owned : ∀ timer, q.heap timer ≠ none → ∃ e ∈ q.entries, e.timer = timer

/-- No timer of the batch is canceled. -/
def Spares (q : TimerQueue) : TimerStep → Prop
  | .cancelTimer timer => ∀ x, q.handling = some x → ∀ e ∈ x.entries, e.timer ≠ timer
  | _ => True

variable {q : TimerQueue}

theorem mem_entries {e : Entry} :
    e ∈ q.entries ↔ e ∈ q.timers_ ∨ ∃ x, q.handling = some x ∧ e ∈ x.entries := by
  rw [entries, List.mem_append]
  cases q.handling with
  | none => simp
  | some x => simp

theorem Good.alive (h : q.Good) {e : Entry} (he : e ∈ q.entries) :
    ∃ t, q.heap e.timer = some t ∧ t.canceled_ = false := by
  have htimed : ∃ t, q.Timed e t := by
    rcases mem_entries.mp he with he | ⟨x, hx, he⟩
    · exact h.timed e he
    · exact (h.handled x hx).timed e he
  obtain ⟨t, ht⟩ := htimed
  exact ⟨t, ht.heap, ht.canceled⟩

/-- Every timer that is alive has an entry. -/
def Owned (q : TimerQueue) : Prop := ∀ timer, q.heap timer ≠ none → ∃ e ∈ q.entries, e.timer = timer

/-- A timer that is spared is in the set. -/
theorem Owned.queued (h : q.Owned) {a : TimerStep} (he : q.enabled a) (ha : q.Spares a) :
    q.Queued a := by
  cases a with
  | cancelTimer timer =>
      obtain ⟨e, hmem, rfl⟩ := h timer he.2
      rcases mem_entries.mp hmem with hmem | ⟨x, hx, hmem⟩
      · exact ⟨e, hmem, rfl⟩
      · exact absurd rfl (ha x hx e hmem)
  | _ => trivial

/-- What is kept of an ownership: the timers that are still alive keep an entry. -/
theorem Owned.of_entries {q' : TimerQueue} (h : q.Owned)
    (hq : ∀ timer, q'.heap timer ≠ none → q.heap timer ≠ none ∨ ∃ e ∈ q'.entries, e.timer = timer)
    (he : ∀ e ∈ q.entries, q'.heap e.timer ≠ none → ∃ e' ∈ q'.entries, e'.timer = e.timer) :
    q'.Owned := by
  intro timer halive
  rcases hq timer halive with hold | hnew
  · obtain ⟨e, hmem, rfl⟩ := h timer hold
    exact he e hmem halive
  · exact hnew

theorem alive_of_write {timer timer' : Nat} {t : Timer}
    (h : (q.write timer t).heap timer' ≠ none) : timer' = timer ∨ q.heap timer' ≠ none := by
  by_cases heq : timer' = timer
  · exact .inl heq
  · exact .inr fun hnone ↦ h ((Function.update_of_ne heq ..).trans hnone)

theorem alive_of_delete {timer timer' : Nat} (h : (q.delete timer).heap timer' ≠ none) :
    timer' ≠ timer ∧ q.heap timer' ≠ none := by
  by_cases heq : timer' = timer
  · subst heq
    exact absurd (Function.update_self ..) h
  · exact ⟨heq, fun hnone ↦ h ((Function.update_of_ne heq ..).trans hnone)⟩

theorem owned_addTimer {q' : TimerQueue} (h : q.Owned) (hg : q.Good) {timer : Nat}
    {when_ interval : Int} (hp : q.heap timer = none)
    (hok : q.addTimer timer when_ interval = .ok q') : q'.Owned := by
  rcases addTimer_cases hg hp when_ interval with hover | ⟨fd, hok', -⟩
  · cases hover.2.symm.trans hok
  cases hok'.symm.trans hok
  refine h.of_entries (fun timer' halive ↦ ?_) fun e hmem _ ↦ ⟨e, ?_, rfl⟩
  · rcases alive_of_write halive with rfl | hold
    · refine .inr ⟨⟨when_, timer'⟩, mem_entries.mpr (.inl ?_), rfl⟩
      exact (List.mem_orderedInsert _).mpr (.inl rfl)
    · exact .inl hold
  · refine mem_entries.mpr ((mem_entries.mp hmem).imp_left fun hmem ↦ ?_)
    exact (List.mem_orderedInsert _).mpr (.inr hmem)

theorem owned_cancelTimer {q' : TimerQueue} (h : q.Owned) (hg : q.Good) {e₀ : Entry}
    (hmem₀ : e₀ ∈ q.timers_) (hok : q.cancelTimer e₀.timer = .ok q') : q'.Owned := by
  cases (cancelTimer_eq hg hmem₀).1.symm.trans hok
  refine h.of_entries (fun timer halive ↦ .inl (alive_of_delete halive).2) fun e hmem halive ↦ ?_
  refine ⟨e, mem_entries.mpr ((mem_entries.mp hmem).imp_left fun hmem ↦ ?_), rfl⟩
  exact (hg.mem_erase_iff hmem₀).mpr ⟨hmem, (alive_of_delete halive).1⟩

/-- What is due goes into the batch, and the rest stays in the set. -/
theorem owned_handleRead {q' : TimerQueue} (h : q.Owned) (hg : q.Good) (hn : q.handling = none)
    (hok : q.handleRead = .ok q') : q'.Owned := by
  rcases handleRead_cases hg with hover | ⟨fd, hok', -⟩
  · cases hover.2.symm.trans hok
  cases hok'.symm.trans hok
  refine h.of_entries (fun _ halive ↦ .inl halive) fun e hmem _ ↦ ⟨e, mem_entries.mpr ?_, rfl⟩
  rcases mem_entries.mp hmem with hmem | ⟨x, hx, -⟩
  · by_cases hdue : e.when_ ≤ q.clock
    · exact .inr ⟨_, rfl, List.mem_filter.mpr ⟨hmem, decide_eq_true hdue⟩⟩
    · exact .inl (List.mem_filter.mpr ⟨hmem, decide_eq_true hdue⟩)
  · cases hn.symm.trans hx

section Batch

variable {now : Int} {e : Entry} {es : List Entry} {running : Bool}

theorem owned_runTimer {q' : TimerQueue} (h : q.Owned) (hg : q.Good)
    (hx : q.handling = some ⟨now, e :: es, running⟩) (hok : q.runTimer = .ok q') : q'.Owned := by
  cases (runTimer_eq hg hx).1.symm.trans hok
  refine h.of_entries (fun _ halive ↦ .inl halive) fun e' hmem _ ↦ ⟨e', mem_entries.mpr ?_, rfl⟩
  refine (mem_entries.mp hmem).imp_right fun ⟨x', hx', hmem⟩ ↦ ⟨_, rfl, ?_⟩
  cases hx.symm.trans hx'
  exact hmem

theorem mem_entries_handling (hx : q.handling = some ⟨now, e :: es, running⟩) {e' : Entry}
    (hmem : e' ∈ q.entries) : e' = e ∨ e' ∈ q.timers_ ∨ e' ∈ es := by
  rcases mem_entries.mp hmem with hmem | ⟨x', hx', hmem⟩
  · exact .inr (.inl hmem)
  · cases hx.symm.trans hx'
    exact (List.mem_cons.mp hmem).imp_right .inr

/-- The first timer of the batch goes back into the set, or is deleted. -/
theorem owned_endTimer {q' : TimerQueue} (h : q.Owned) (hg : q.Good)
    (hx : q.handling = some ⟨now, e :: es, running⟩) (hok : q.endTimer = .ok q') : q'.Owned := by
  obtain ⟨t, ht⟩ := (hg.handled _ hx).timed e List.mem_cons_self
  by_cases hpos : 0 < t.interval_
  · rcases endTimer_repeating hg hx ht hpos with hover | ⟨hok', -⟩
    · cases hover.2.symm.trans hok
    cases hok'.symm.trans hok
    have hback : (⟨now + t.interval_, e.timer⟩ : Entry) ∈
        q.timers_.orderedInsert (· ≤ ·) ⟨now + t.interval_, e.timer⟩ :=
      (List.mem_orderedInsert _).mpr (.inl rfl)
    refine h.of_entries (fun timer halive ↦ ?_) fun e' hmem _ ↦ ?_
    · refine (alive_of_write halive).symm.imp_right fun heq ↦ ?_
      exact ⟨_, mem_entries.mpr (.inl hback), heq.symm⟩
    · rcases mem_entries_handling hx hmem with rfl | hmem | hmem
      · exact ⟨_, mem_entries.mpr (.inl hback), rfl⟩
      · refine ⟨e', mem_entries.mpr (.inl ?_), rfl⟩
        exact (List.mem_orderedInsert _).mpr (.inr hmem)
      · exact ⟨e', mem_entries.mpr (.inr ⟨_, rfl, hmem⟩), rfl⟩
  · cases (endTimer_once hg hx ht hpos).1.symm.trans hok
    refine h.of_entries (fun timer halive ↦ .inl (alive_of_delete halive).2)
      fun e' hmem halive ↦ ?_
    rcases mem_entries_handling hx hmem with rfl | hmem | hmem
    · exact absurd rfl (alive_of_delete halive).1
    · exact ⟨e', mem_entries.mpr (.inl hmem), rfl⟩
    · exact ⟨e', mem_entries.mpr (.inr ⟨_, rfl, hmem⟩), rfl⟩

end Batch

/-- The batch has been worked off. -/
theorem owned_finish {q' : TimerQueue} (h : q.Owned) (hg : q.Good) {x : Expiry}
    (hx : q.handling = some x) (hnil : x.entries = []) (hok : q.finish = .ok q') : q'.Owned := by
  rcases finish_cases hg with hover | ⟨fd, hok', -⟩
  · cases hover.2.symm.trans hok
  cases hok'.symm.trans hok
  refine h.of_entries (fun _ halive ↦ .inl halive) fun e hmem _ ↦ ⟨e, mem_entries.mpr ?_, rfl⟩
  refine (mem_entries.mp hmem).imp_right fun ⟨x', hx', hmem⟩ ↦ ?_
  cases hx.symm.trans hx'
  rw [hnil] at hmem
  cases hmem

/-- A step keeps every timer that is alive within reach of the loop. -/
theorem Owned.perform {q' : TimerQueue} (h : q.Owned) (hg : q.Good) {a : TimerStep}
    (he : q.enabled a) (hq : q.Queued a) (hok : q.perform a = .ok q') : q'.Owned := by
  cases a with
  | tick d =>
      cases hok
      exact h
  | addTimer timer when_ interval => exact owned_addTimer h hg he.2 hok
  | cancelTimer timer =>
      obtain ⟨e₀, hmem₀, rfl⟩ := hq
      exact owned_cancelTimer h hg hmem₀ hok
  | handleRead => exact owned_handleRead h hg he hok
  | runTimer =>
      obtain ⟨x, hx, -, hne⟩ := he
      obtain ⟨e, es, hx⟩ := exists_handling hx hne
      exact owned_runTimer h hg hx hok
  | endTimer =>
      obtain ⟨x, hx, hrun⟩ := he
      obtain ⟨e, es, hx⟩ := exists_handling hx ((hg.handled x hx).started hrun)
      exact owned_endTimer h hg hx hok
  | finish =>
      obtain ⟨x, hx, -, hnil⟩ := he
      exact owned_finish h hg hx hnil hok

/-- As long as no timer of a batch is canceled, no timer is looked at, or deleted, after it was
deleted. -/
theorem lifetime_of_runs {clock : Int} {as : List TimerStep} {r : Run TimerQueue}
    (h : (machine.restrict Spares).Runs (new clock) as r) :
    r = .error .overflow ∨ ∃ q, r = .ok q ∧ q.Lifetime := by
  have hinv := h.invariant_or (I := fun _ q ↦ q.Good ∧ q.Owned) (f := .overflow)
    ⟨good_new clock, nofun⟩ fun _ q a ⟨hg, ho⟩ ⟨he, ha⟩ ↦ by
      rcases hg.perform he (ho.queued he ha) with ⟨-, hover⟩ | ⟨q', hok, hg'⟩
      · exact .inl hover
      · exact .inr ⟨q', hok, hg', ho.perform hg he (ho.queued he ha) hok⟩
  refine hinv.imp_right fun ⟨q, hok, hg, ho⟩ ↦ ⟨q, hok, fun e he ↦ hg.alive he, ho⟩

/-- A timer that repeats is canceled between two of its deadlines. -/
theorem lifetime_of_runs_sample : ∃ q : TimerQueue, q.heap 1 = none ∧ q.Lifetime := by
  have hnew : (machine.restrict Spares).Runs (new 0) [] (.ok (new 0)) := .nil
  have hadd := hnew.then (a := TimerStep.addTimer 1 5 3) ⟨⟨nofun, rfl⟩, trivial⟩ rfl
  have htick := hadd.then (a := TimerStep.tick 7) ⟨trivial, trivial⟩ rfl
  have hread := htick.then (a := TimerStep.handleRead) ⟨rfl, trivial⟩ rfl
  have hrun := hread.then (a := TimerStep.runTimer)
    ⟨⟨_, rfl, rfl, List.cons_ne_nil _ _⟩, trivial⟩ rfl
  have hend := hrun.then (a := TimerStep.endTimer) ⟨⟨_, rfl, rfl⟩, trivial⟩ rfl
  have hfinish := hend.then (a := TimerStep.finish) ⟨⟨_, rfl, rfl, rfl⟩, trivial⟩ rfl
  have hcancel := hfinish.then (a := TimerStep.cancelTimer 1) ⟨⟨nofun, nofun⟩, nofun⟩ rfl
  rcases lifetime_of_runs hcancel with hover | ⟨q, hok, h⟩
  · cases hover
  · cases hok
    exact ⟨_, rfl, h⟩

/-- The same timer, canceled in its own callback: `handleRead` asks it whether it was canceled. -/
theorem not_lifetime_callback :
    ¬ ∀ (clock : Int) (as : List TimerStep) (r : Run TimerQueue),
      machine.Runs (new clock) as r → r ≠ .error .dangling := by
  intro h
  have hnew : machine.Runs (new 0) [] (.ok (new 0)) := .nil
  have hadd := hnew.then (a := TimerStep.addTimer 1 5 3) ⟨nofun, rfl⟩ rfl
  have htick := hadd.then (a := TimerStep.tick 7) trivial rfl
  have hread := htick.then (a := TimerStep.handleRead) rfl rfl
  have hrun := hread.then (a := TimerStep.runTimer) ⟨_, rfl, rfl, List.cons_ne_nil _ _⟩ rfl
  have hcancel := hrun.then (a := TimerStep.cancelTimer 1) ⟨by rintro x ⟨⟩; rfl, nofun⟩ rfl
  have hend := hcancel.snoc (a := TimerStep.endTimer) ⟨_, rfl, rfl⟩
  exact h _ _ _ hend rfl

end RpcLearning.Net.TimerQueue
