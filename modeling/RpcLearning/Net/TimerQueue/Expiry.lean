import RpcLearning.Net.TimerQueue

/-!
# Timers are never missed

As long as only timers in the set are canceled, the timerfd is armed early enough whenever no
`handleRead` is on its way, and a `handleRead` runs the timers that are due, each once and in the
order of their deadlines.
-/

namespace RpcLearning.Net.TimerQueue

variable {q : TimerQueue}

/-! ## The invariant -/

/-- What a `handleRead` on its way has still to see to. -/
structure Handled (q : TimerQueue) (x : Expiry) : Prop where
  sorted : x.entries.Pairwise (· < ·)
  timed : ∀ e ∈ x.entries, ∃ t, q.Timed e t
  due : ∀ e ∈ x.entries, e.when_ ≤ x.now
  apart : ∀ e ∈ x.entries, ∀ e' ∈ q.timers_, e'.timer ≠ e.timer
  started : x.running = true → x.entries ≠ []

/-- It does not matter what happens to other timers. -/
theorem Handled.of_heap {q' : TimerQueue} {x : Expiry} (h : q.Handled x)
    (hq : ∀ e ∈ x.entries, q'.heap e.timer = q.heap e.timer)
    (ha : ∀ e' ∈ q'.timers_, e' ∈ q.timers_ ∨ ∀ e ∈ x.entries, e'.timer ≠ e.timer) :
    q'.Handled x where
  sorted := h.sorted
  timed e he := by
    obtain ⟨t, ht⟩ := h.timed e he
    exact ⟨t, ht.of_heap (hq e he)⟩
  due := h.due
  apart e he e' he' := by
    rcases ha e' he' with hold | hnew
    · exact h.apart e he e' hold
    · exact hnew e he
  started := h.started

structure Good (q : TimerQueue) : Prop where
  sorted : q.timers_.Pairwise (· < ·)
  timed : ∀ e ∈ q.timers_, ∃ t, q.Timed e t
  handled : ∀ x, q.handling = some x → q.Handled x
  armed : q.handling = none → ∀ e ∈ q.timers_, q.ArmedFor e

theorem good_new (clock : Int) : (new clock).Good where
  sorted := .nil
  timed := nofun
  handled := nofun
  armed _ := nofun

theorem Good.tick (h : q.Good) (d : Nat) : { q with clock := q.clock + d }.Good where
  sorted := h.sorted
  timed e he := by
    obtain ⟨t, ht⟩ := h.timed e he
    exact ⟨t, ht.of_heap rfl⟩
  handled x hx := (h.handled x hx).of_heap (fun _ _ ↦ rfl) fun _ he ↦ .inl he
  armed := h.armed

/-! ## The operations -/

theorem insert_of_notMem {e : Entry} (h : e ∉ q.timers_) :
    q.insert e = { q with timers_ := q.timers_.orderedInsert (· ≤ ·) e } := if_neg h

theorem Timed.timer_ne {e : Entry} {t : Timer} {timer : Nat} (h : q.Timed e t)
    (hp : q.heap timer = none) : e.timer ≠ timer := by
  rintro rfl
  cases hp.symm.trans h.heap

/-- The queue after `addTimer`, but for what the timerfd is armed for. -/
theorem Good.added (h : q.Good) {timer : Nat} (hp : q.heap timer = none) (when_ interval : Int)
    {fd : Option Armed} :
    let q' := { q.write timer (Timer.new when_ interval) with
      timers_ := q.timers_.orderedInsert (· ≤ ·) ⟨when_, timer⟩, timerfd_ := fd }
    (q.handling = none → ∀ e ∈ q'.timers_, q'.ArmedFor e) → q'.Good := by
  intro q' harmed
  refine ⟨?_, fun e he ↦ ?_, fun x hx ↦ ?_, harmed⟩
  · refine Entry.pairwise_orderedInsert h.sorted fun hc ↦ ?_
    obtain ⟨t, ht⟩ := h.timed _ hc
    exact ht.timer_ne hp rfl
  · rcases (List.mem_orderedInsert _).mp he with rfl | he
    · exact ⟨Timer.new when_ interval, Function.update_self .., rfl, rfl, rfl⟩
    · obtain ⟨t, ht⟩ := h.timed e he
      exact ⟨t, ht.of_heap (Function.update_of_ne (ht.timer_ne hp) ..)⟩
  · have hx := h.handled x hx
    refine hx.of_heap (fun e he ↦ ?_) fun e he ↦ ?_
    · obtain ⟨t, ht⟩ := hx.timed e he
      exact Function.update_of_ne (ht.timer_ne hp) ..
    · rcases (List.mem_orderedInsert _).mp he with rfl | he
      · refine .inr fun e he ↦ ?_
        obtain ⟨t, ht⟩ := hx.timed e he
        exact (ht.timer_ne hp).symm
      · exact .inl he

/-- `addTimer` inserts an entry that was not there.  If it is the first, the timerfd is set for it;
otherwise what it was set for is early enough for the new one, too. -/
theorem addTimer_cases (h : q.Good) {timer : Nat} (hp : q.heap timer = none)
    (when_ interval : Int) :
    ¬ ((∀ e ∈ q.timers_, (⟨when_, timer⟩ : Entry) ≤ e) → Fits (when_ - q.clock)) ∧
        q.addTimer timer when_ interval = .error .overflow ∨
      ∃ fd, let q' := { q.write timer (Timer.new when_ interval) with
          timers_ := q.timers_.orderedInsert (· ≤ ·) ⟨when_, timer⟩, timerfd_ := fd }
        q.addTimer timer when_ interval = .ok q' ∧ q'.Good := by
  have hmem : (⟨when_, timer⟩ : Entry) ∉ (q.write timer (Timer.new when_ interval)).timers_ :=
    fun hc ↦ by
      obtain ⟨t, ht⟩ := h.timed _ hc
      exact ht.timer_ne hp rfl
  have hsorted := Entry.pairwise_orderedInsert h.sorted hmem
  unfold addTimer
  simp only [if_neg hmem, insert_of_notMem hmem]
  split
  · rename_i hhead
    rcases timerFdSet_cases when_ { q.write timer (Timer.new when_ interval) with
      timers_ := q.timers_.orderedInsert (· ≤ ·) ⟨when_, timer⟩ } with
      ⟨hfits, hover⟩ | ⟨fd, hset, harm⟩
    · exact .inl ⟨fun hc ↦ hfits (hc fun e he ↦ Entry.head?_le hsorted hhead e
        ((List.mem_orderedInsert _).mpr (.inr he))), hover⟩
    · refine .inr ⟨fd, hset, h.added hp when_ interval fun _ e he ↦ ?_⟩
      exact harm e (Entry.head?_when_le hsorted hhead e he)
  · rename_i hhead
    refine .inr ⟨q.timerfd_, rfl, h.added hp when_ interval fun hn e he ↦ ?_⟩
    obtain ⟨e₀, he₀⟩ := Option.isSome_iff_exists.mp
      (List.isSome_head?.mpr (List.ne_nil_of_mem he))
    rcases (List.mem_orderedInsert _).mp (List.mem_of_head? he₀) with rfl | hold
    · exact absurd he₀ hhead
    · obtain ⟨a, ha, hle⟩ := h.armed hn e₀ hold
      have hwhen := Entry.head?_when_le hsorted he₀ e he
      exact ⟨a, ha, by omega⟩

/-- An entry in the set is the only one of its timer. -/
theorem Good.mem_erase_iff (h : q.Good) {e e' : Entry} (he : e ∈ q.timers_) :
    e' ∈ q.timers_.erase e ↔ e' ∈ q.timers_ ∧ e'.timer ≠ e.timer := by
  obtain ⟨t, ht⟩ := h.timed e he
  rw [List.Nodup.mem_erase_iff (h.sorted.imp ne_of_lt)]
  constructor
  · rintro ⟨hne, he'⟩
    obtain ⟨t', ht'⟩ := h.timed e' he'
    exact ⟨he', fun heq ↦ hne (ht'.unique ht heq)⟩
  · rintro ⟨he', hne⟩
    exact ⟨fun heq ↦ hne (heq ▸ rfl), he'⟩

/-- `cancelTimer` of a timer in the set removes its entry, and no other. -/
theorem cancelTimer_eq (h : q.Good) {e : Entry} (he : e ∈ q.timers_) :
    let q' := { q.delete e.timer with timers_ := q.timers_.erase e }
    q.cancelTimer e.timer = .ok q' ∧ q'.Good := by
  intro q'
  obtain ⟨t, ht⟩ := h.timed e he
  have herase : ∀ e' ∈ q.timers_.erase e, e' ∈ q.timers_ ∧ e'.timer ≠ e.timer :=
    fun _ he' ↦ (h.mem_erase_iff he).mp he'
  refine ⟨?_, h.sorted.erase e, fun e' he' ↦ ?_, fun x hx ↦ ?_, fun hn e' he' ↦ ?_⟩
  · have hcancel : t.cancel = .ok { t with canceled_ := true } := by
      rw [Timer.cancel, ht.canceled]
      rfl
    rw [cancelTimer, ht.deref, Exec.ok_bind, hcancel, Exec.ok_bind]
    dsimp only
    rw [ht.when_]
  · obtain ⟨hold, hne⟩ := herase e' he'
    obtain ⟨t', ht'⟩ := h.timed e' hold
    exact ⟨t', ht'.of_heap (Function.update_of_ne hne ..)⟩
  · have hx := h.handled x hx
    refine hx.of_heap (fun e' he' ↦ ?_) fun e' he' ↦ .inl (herase e' he').1
    exact Function.update_of_ne (hx.apart e' he' e he).symm ..
  · exact h.armed hn e' (herase e' he').1

theorem timerFdRead_eq (q : TimerQueue) : ∃ fd, q.timerFdRead = { q with timerfd_ := fd } := by
  unfold timerFdRead
  split
  · split
    · exact ⟨none, rfl⟩
    · exact ⟨q.timerfd_, rfl⟩
  · exact ⟨q.timerfd_, rfl⟩

/-- `handleRead` takes out what is due by its clock. -/
theorem handleRead_cases (h : q.Good) :
    ¬ Fits (q.clock + 1) ∧ q.handleRead = .error .overflow ∨
      ∃ fd, let q' := { q with
          timers_ := q.timers_.filter (¬ ·.when_ ≤ q.clock), timerfd_ := fd,
          handling := some ⟨q.clock, q.timers_.filter (·.when_ ≤ q.clock), false⟩ }
        q.handleRead = .ok q' ∧ q'.Good := by
  obtain ⟨fd, hfd⟩ := timerFdRead_eq q
  unfold handleRead getExpired
  simp only [hfd]
  rcases nanoSeconds_cases (q.clock + 1) with ⟨hfits, hover⟩ | hok
  · exact .inl ⟨hfits, by rw [hover]; rfl⟩
  refine .inr ⟨fd, ?_, ?_⟩
  · simp only [hok, Exec.ok_bind, Entry.lt_strike]
  · refine ⟨h.sorted.filter _, fun e he ↦ ?_, ?_, nofun⟩
    · obtain ⟨t, ht⟩ := h.timed e (List.mem_of_mem_filter he)
      exact ⟨t, ht.of_heap rfl⟩
    · rintro x ⟨⟩
      refine ⟨h.sorted.filter _, fun e he ↦ ?_, fun e he ↦ ?_, fun e he e' he' heq ↦ ?_, nofun⟩
      · obtain ⟨t, ht⟩ := h.timed e (List.mem_of_mem_filter he)
        exact ⟨t, ht.of_heap rfl⟩
      · simpa using List.of_mem_filter he
      · obtain ⟨t, ht⟩ := h.timed e (List.mem_of_mem_filter he)
        obtain ⟨t', ht'⟩ := h.timed e' (List.mem_of_mem_filter he')
        obtain rfl := ht'.unique ht heq
        have hdue := List.of_mem_filter he
        have hnot := List.of_mem_filter he'
        simp_all

/-- A timer of the batch is run, since nobody has canceled it. -/
theorem runTimer_eq (h : q.Good) {now : Int} {e : Entry} {es : List Entry} {running : Bool}
    (hx : q.handling = some ⟨now, e :: es, running⟩) :
    let q' := { q with handling := some ⟨now, e :: es, true⟩, ran := q.ran ++ [e] }
    q.runTimer = .ok q' ∧ q'.Good := by
  intro q'
  have hh := h.handled _ hx
  obtain ⟨t, ht⟩ := hh.timed e List.mem_cons_self
  have hexpired : t.expired now := by
    rw [Timer.expired, ht.when_]
    exact decide_eq_true (hh.due e List.mem_cons_self)
  refine ⟨?_, h.sorted, fun e' he' ↦ ?_, ?_, nofun⟩
  · simp only [runTimer, hx, ht.deref, Exec.ok_bind, hexpired, ht.canceled, not_true, if_false,
      Bool.false_eq_true]
    rfl
  · obtain ⟨t', ht'⟩ := h.timed e' he'
    exact ⟨t', ht'.of_heap rfl⟩
  · rintro x ⟨⟩
    have hq' : q'.Handled ⟨now, e :: es, running⟩ := hh.of_heap (fun _ _ ↦ rfl) fun _ he ↦ .inl he
    exact { hq' with started := nofun }

theorem Handled.tail_ne {now : Int} {e : Entry} {es : List Entry} {running : Bool}
    (h : q.Handled ⟨now, e :: es, running⟩) : ∀ e' ∈ es, e'.timer ≠ e.timer := by
  intro e' he' heq
  obtain ⟨t, ht⟩ := h.timed e List.mem_cons_self
  obtain ⟨t', ht'⟩ := h.timed e' (List.mem_cons_of_mem e he')
  obtain rfl := ht'.unique ht heq
  exact lt_irrefl _ (List.rel_of_pairwise_cons h.sorted he')

/-- What remains of a batch without its first entry, whatever becomes of that one's timer. -/
theorem Handled.tail {q' : TimerQueue} {now : Int} {e : Entry} {es : List Entry} {running : Bool}
    (h : q.Handled ⟨now, e :: es, running⟩)
    (hq : ∀ timer, timer ≠ e.timer → q'.heap timer = q.heap timer)
    (ha : ∀ e' ∈ q'.timers_, e' ∈ q.timers_ ∨ e'.timer = e.timer) :
    q'.Handled ⟨now, es, false⟩ := by
  have hne := h.tail_ne
  have hes : q.Handled ⟨now, es, false⟩ :=
    { sorted := h.sorted.of_cons
      timed := fun e' he' ↦ h.timed e' (List.mem_cons_of_mem e he')
      due := fun e' he' ↦ h.due e' (List.mem_cons_of_mem e he')
      apart := fun e' he' ↦ h.apart e' (List.mem_cons_of_mem e he')
      started := nofun }
  refine hes.of_heap (fun e' he' ↦ hq _ (hne e' he')) fun e' he' ↦ ?_
  rcases ha e' he' with hold | heq
  · exact .inl hold
  · exact .inr fun e'' he'' ↦ heq ▸ (hne e'' he'').symm

section

variable {now : Int} {e : Entry} {es : List Entry} {running : Bool} {t : Timer}

/-- After the callback, a repeating timer is put back at its interval from now. -/
theorem endTimer_repeating (h : q.Good) (hx : q.handling = some ⟨now, e :: es, running⟩)
    (ht : q.Timed e t) (hpos : 0 < t.interval_) :
    let q' := { q.write e.timer { t with when_ := now + t.interval_ } with
      timers_ := q.timers_.orderedInsert (· ≤ ·) ⟨now + t.interval_, e.timer⟩,
      handling := some ⟨now, es, false⟩ }
    ¬ Fits (now + t.interval_) ∧ q.endTimer = .error .overflow ∨
      q.endTimer = .ok q' ∧ q'.Good := by
  intro q'
  have hh := h.handled _ hx
  have hapart := hh.apart e List.mem_cons_self
  have hderef : { q with handling := some ⟨now, es, false⟩ }.deref e.timer = .ok t := ht.deref
  have hnew : (⟨now + t.interval_, e.timer⟩ : Entry) ∉
      ({ q with handling := some ⟨now, es, false⟩ }.write e.timer
        { t with when_ := now + t.interval_ }).timers_ := fun hc ↦ hapart _ hc rfl
  have hrepeat := ht.repeats.trans (decide_eq_true hpos)
  unfold endTimer
  simp only [hx, hderef, Exec.ok_bind, ht.canceled, hrepeat, Bool.false_eq_true, not_false_eq_true,
    and_self, if_true]
  rcases Timer.restart_cases now hrepeat with ⟨hfits, hover⟩ | hok
  · exact .inl ⟨hfits, by rw [hover]; rfl⟩
  refine .inr ⟨?_, Entry.pairwise_orderedInsert h.sorted hnew, fun e' he' ↦ ?_, ?_, nofun⟩
  · rw [hok, Exec.ok_bind, insert_of_notMem hnew]
    rfl
  · rcases (List.mem_orderedInsert _).mp he' with rfl | he'
    · exact ⟨_, Function.update_self .., rfl, ht.canceled, ht.repeats⟩
    · obtain ⟨t', ht'⟩ := h.timed e' he'
      exact ⟨t', ht'.of_heap (Function.update_of_ne (hapart e' he') ..)⟩
  · rintro x ⟨⟩
    refine hh.tail (fun timer hne ↦ Function.update_of_ne hne ..) fun e' he' ↦ ?_
    rcases (List.mem_orderedInsert _).mp he' with rfl | he'
    · exact .inr rfl
    · exact .inl he'

/-- Any other one is deleted. -/
theorem endTimer_once (h : q.Good) (hx : q.handling = some ⟨now, e :: es, running⟩)
    (ht : q.Timed e t) (hpos : ¬ 0 < t.interval_) :
    let q' := { q.delete e.timer with handling := some ⟨now, es, false⟩ }
    q.endTimer = .ok q' ∧ q'.Good := by
  intro q'
  have hh := h.handled _ hx
  have hapart := hh.apart e List.mem_cons_self
  have hderef : { q with handling := some ⟨now, es, false⟩ }.deref e.timer = .ok t := ht.deref
  refine ⟨?_, h.sorted, fun e' he' ↦ ?_, ?_, nofun⟩
  · unfold endTimer
    simp only [hx, hderef, Exec.ok_bind, ht.repeats, hpos, decide_false, Bool.false_eq_true,
      and_false, if_false]
    rfl
  · obtain ⟨t', ht'⟩ := h.timed e' he'
    exact ⟨t', ht'.of_heap (Function.update_of_ne (hapart e' he') ..)⟩
  · rintro x ⟨⟩
    exact hh.tail (fun timer hne ↦ Function.update_of_ne hne ..) fun _ he ↦ .inl he

end

theorem finish_of_nil (h : q.timers_ = []) : q.finish = .ok { q with handling := none } := by
  simp only [finish, h]

theorem finish_of_cons {e : Entry} {es : List Entry} (h : q.timers_ = e :: es) :
    q.finish = { q with handling := none }.timerFdSet e.when_ := by
  simp only [finish, h]

/-- At its end, `handleRead` sets the timerfd for the earliest deadline. -/
theorem finish_cases (h : q.Good) :
    ¬ (∀ e ∈ q.timers_.head?, Fits (e.when_ - q.clock)) ∧ q.finish = .error .overflow ∨
      ∃ fd, let q' := { q with timerfd_ := fd, handling := none }
        q.finish = .ok q' ∧ q'.Good := by
  have hgood : ∀ fd, let q' := { q with timerfd_ := fd, handling := none }
      (∀ e ∈ q.timers_, q'.ArmedFor e) → q'.Good := by
    intro fd q' harmed
    refine ⟨h.sorted, fun e he ↦ ?_, nofun, fun _ ↦ harmed⟩
    obtain ⟨t, ht⟩ := h.timed e he
    exact ⟨t, ht.of_heap rfl⟩
  obtain hnil | ⟨e, es, hcons⟩ : q.timers_ = [] ∨ ∃ e es, q.timers_ = e :: es := by
    cases q.timers_ <;> simp
  · refine .inr ⟨q.timerfd_, finish_of_nil hnil, hgood q.timerfd_ fun e he ↦ ?_⟩
    rw [hnil] at he
    cases he
  · rw [finish_of_cons hcons]
    rcases timerFdSet_cases e.when_ { q with handling := none } with
      ⟨hfits, hover⟩ | ⟨fd, hset, harm⟩
    · exact .inl ⟨fun hc ↦ hfits (hc e (by rw [hcons]; rfl)), hover⟩
    · refine .inr ⟨fd, hset, hgood fd fun e' he' ↦ harm e' ?_⟩
      exact Entry.head?_when_le h.sorted (by rw [hcons]; rfl) e' he'

/-! ## Runs -/

/-- Only timers in the set are canceled. -/
def Queued (q : TimerQueue) : TimerStep → Prop
  | .cancelTimer timer => ∃ e ∈ q.timers_, e.timer = timer
  | _ => True

/-- The interval of an entry's timer. -/
def interval (q : TimerQueue) (e : Entry) : Int :=
  match q.heap e.timer with
  | some t => t.interval_
  | none => 0

theorem interval_of_timed {e : Entry} {t : Timer} (h : q.Timed e t) :
    q.interval e = t.interval_ := by
  rw [interval, h.heap]

/-- The times that a step has to compute fit into 64 bits. -/
def InRange (q : TimerQueue) : TimerStep → Prop
  | .addTimer timer when_ _ =>
    (∀ e ∈ q.timers_, (⟨when_, timer⟩ : Entry) ≤ e) → Fits (when_ - q.clock)
  | .handleRead => Fits (q.clock + 1)
  | .endTimer =>
    ∀ x, q.handling = some x → ∀ e ∈ x.entries.head?, 0 < q.interval e →
      Fits (x.now + q.interval e)
  | .finish => ∀ e ∈ q.timers_.head?, Fits (e.when_ - q.clock)
  | _ => True

theorem exists_handling {x : Expiry} (hx : q.handling = some x)
    (hne : x.entries ≠ []) : ∃ e es, q.handling = some ⟨x.now, e :: es, x.running⟩ := by
  obtain ⟨e, es, he⟩ := List.exists_cons_of_ne_nil hne
  refine ⟨e, es, ?_⟩
  rw [hx, ← he]

/-- A step keeps the invariant, unless one of its times does not fit. -/
theorem Good.perform (h : q.Good) {a : TimerStep} (he : q.enabled a) (hq : q.Queued a) :
    ¬ q.InRange a ∧ q.perform a = .error .overflow ∨ ∃ q', q.perform a = .ok q' ∧ q'.Good := by
  cases a with
  | tick d => exact .inr ⟨_, rfl, h.tick d⟩
  | addTimer timer when_ interval =>
      exact (addTimer_cases h he.2 when_ interval).imp_right fun ⟨_, hok⟩ ↦ ⟨_, hok⟩
  | cancelTimer timer =>
      obtain ⟨e, hmem, rfl⟩ := hq
      exact .inr ⟨_, cancelTimer_eq h hmem⟩
  | handleRead => exact (handleRead_cases h).imp_right fun ⟨_, hok⟩ ↦ ⟨_, hok⟩
  | runTimer =>
      obtain ⟨x, hx, -, hne⟩ := he
      obtain ⟨e, es, hx⟩ := exists_handling hx hne
      exact .inr ⟨_, runTimer_eq h hx⟩
  | endTimer =>
      obtain ⟨x, hx, hrun⟩ := he
      obtain ⟨e, es, hx⟩ := exists_handling hx ((h.handled x hx).started hrun)
      obtain ⟨t, ht⟩ := (h.handled _ hx).timed e List.mem_cons_self
      by_cases hpos : 0 < t.interval_
      · refine (endTimer_repeating h hx ht hpos).imp
          (fun ⟨hfits, hover⟩ ↦ ⟨fun hc ↦ hfits ?_, hover⟩) fun hok ↦ ⟨_, hok⟩
        rw [← interval_of_timed ht] at hpos ⊢
        exact hc _ hx e rfl hpos
      · exact .inr ⟨_, endTimer_once h hx ht hpos⟩
  | finish => exact (finish_cases h).imp_right fun ⟨_, hok⟩ ↦ ⟨_, hok⟩

/-! ## What a `handleRead` is for -/

/-- The entries that wait for their deadlines, and those that a `handleRead` has still to see to. -/
structure Schedule where
  pending : Set Entry
  due : List Entry

/-- What a step does to the schedule: callbacks add and cancel, and a timer that repeats is put
back once its callback has returned. -/
def Schedule.step (now : Int) (interval : Entry → Int) (s : Schedule) : TimerStep → Schedule
  | .addTimer timer when_ _ => { s with pending := s.pending ∪ {⟨when_, timer⟩} }
  | .cancelTimer timer => { s with pending := {e ∈ s.pending | e.timer ≠ timer} }
  | .endTimer =>
    match s.due with
    | [] => s
    | e :: due =>
      ⟨if 0 < interval e then s.pending ∪ {⟨now + interval e, e.timer⟩} else s.pending, due⟩
  | _ => s

/-- The entries that are due. -/
def due (q : TimerQueue) : List Entry := q.timers_.filter (·.when_ ≤ q.clock)

/-- The schedule with which a `handleRead` begins. -/
def schedule (q : TimerQueue) : Schedule := ⟨{e | e ∈ q.timers_ ∧ ¬ e.when_ ≤ q.clock}, q.due⟩

/-- A `handleRead` from `q` to `q'`, with the steps `as` in between: the callbacks of the timers
that were due are run, once and in the order of their deadlines, and the set is what the callbacks
and the repeating timers have made of those that were not due. -/
structure Expires (q : TimerQueue) (as : List TimerStep) (q' : TimerQueue) : Prop where
  sorted : q.due.Pairwise (· < ·)
  ran : q'.ran = q.ran ++ q.due
  timers : {e | e ∈ q'.timers_} = (as.foldl (Schedule.step q.clock q.interval) q.schedule).pending

/-- The entries whose callbacks have still to be run. -/
def Expiry.left (x : Expiry) : List Entry := if x.running then x.entries.tail else x.entries

/-- After the steps `as` of a `handleRead` from `q₀`, the queue stands as the schedule says. -/
structure Follows (q₀ : TimerQueue) (as : List TimerStep) (q : TimerQueue) (x : Expiry) : Prop where
  handling : q.handling = some x
  now : x.now = q₀.clock
  schedule : (⟨{e | e ∈ q.timers_}, x.entries⟩ : Schedule) =
    as.foldl (Schedule.step q₀.clock q₀.interval) q₀.schedule
  ran : q.ran ++ Expiry.left x = q₀.ran ++ q₀.due
  interval : ∀ e ∈ x.entries, q.interval e = q₀.interval e

theorem interval_of_heap {q' : TimerQueue} {e : Entry} (h : q'.heap e.timer = q.heap e.timer) :
    q'.interval e = q.interval e := by
  rw [interval, interval, h]

theorem setOf_mem_orderedInsert (e : Entry) (es : List Entry) :
    {e' | e' ∈ es.orderedInsert (· ≤ ·) e} = {e' | e' ∈ es} ∪ {e} := by
  ext e'
  simp

/-- A `handleRead` begins with its schedule. -/
theorem follows_handleRead {q' : TimerQueue} (h : q.Good) (hok : q.handleRead = .ok q') :
    ∃ x, q.Follows [] q' x := by
  rcases handleRead_cases h with hover | ⟨fd, hok', -⟩
  · cases hover.2.symm.trans hok
  cases hok'.symm.trans hok
  refine ⟨_, rfl, rfl, ?_, rfl, fun e he ↦ rfl⟩
  simp [schedule, due]

theorem Follows.foldl_snoc {q₀ : TimerQueue} {as : List TimerStep} {x : Expiry}
    (h : q₀.Follows as q x) (a : TimerStep) :
    (as ++ [a]).foldl (Schedule.step q₀.clock q₀.interval) q₀.schedule =
      Schedule.step q₀.clock q₀.interval ⟨{e | e ∈ q.timers_}, x.entries⟩ a := by
  rw [List.foldl_append, ← h.schedule]
  rfl

/-- Each step takes the schedule along. -/
theorem Follows.perform {q₀ q' : TimerQueue} {as : List TimerStep} {x : Expiry}
    (hf : q₀.Follows as q x) (h : q.Good) {a : TimerStep} (he : q.enabled a) (hq : q.Queued a)
    (ha : a ≠ .finish) (hok : q.perform a = .ok q') : ∃ x', q₀.Follows (as ++ [a]) q' x' := by
  have hh := h.handled x hf.handling
  have hfold := hf.foldl_snoc a
  cases a with
  | tick d =>
      cases hok
      exact ⟨x, hf.handling, hf.now, hfold.symm, hf.ran, hf.interval⟩
  | addTimer timer when_ interval =>
      rcases addTimer_cases h he.2 when_ interval with hover | ⟨fd, hok', -⟩
      · cases hover.2.symm.trans hok
      cases hok'.symm.trans hok
      refine ⟨x, hf.handling, hf.now, ?_, hf.ran, fun e hmem ↦ ?_⟩
      · rw [hfold]
        simp only [setOf_mem_orderedInsert]
        rfl
      · obtain ⟨t, ht⟩ := hh.timed e hmem
        rw [← hf.interval e hmem]
        exact interval_of_heap (Function.update_of_ne (ht.timer_ne he.2) ..)
  | cancelTimer timer =>
      obtain ⟨e₀, hmem₀, rfl⟩ := hq
      cases (cancelTimer_eq h hmem₀).1.symm.trans hok
      refine ⟨x, hf.handling, hf.now, ?_, hf.ran, fun e hmem ↦ ?_⟩
      · rw [hfold]
        simp only [h.mem_erase_iff hmem₀]
        rfl
      · rw [← hf.interval e hmem]
        exact interval_of_heap (Function.update_of_ne (hh.apart e hmem e₀ hmem₀).symm ..)
  | handleRead => cases (show q.handling = none from he).symm.trans hf.handling
  | runTimer =>
      obtain ⟨x', hx', hrun, hne⟩ := he
      obtain rfl := Option.some.inj (hf.handling.symm.trans hx')
      obtain ⟨now, entries, running⟩ := x
      obtain rfl : running = false := hrun
      cases entries with
      | nil => exact absurd rfl hne
      | cons e es =>
          cases (runTimer_eq h hf.handling).1.symm.trans hok
          refine ⟨_, rfl, hf.now, hfold.symm, ?_, hf.interval⟩
          exact (List.append_assoc q.ran [e] es).trans hf.ran
  | endTimer =>
      obtain ⟨x', hx', hrun⟩ := he
      obtain rfl := Option.some.inj (hf.handling.symm.trans hx')
      obtain ⟨now, entries, running⟩ := x
      obtain rfl : running = true := hrun
      cases entries with
      | nil => exact absurd rfl (hh.started rfl)
      | cons e es =>
          obtain ⟨t, ht⟩ := hh.timed e List.mem_cons_self
          have hinterval := hf.interval e List.mem_cons_self
          rw [interval_of_timed ht] at hinterval
          have hnow : now = q₀.clock := hf.now
          have hrest : ∀ e' ∈ es, e'.timer ≠ e.timer := hh.tail_ne
          by_cases hpos : 0 < t.interval_
          · rcases endTimer_repeating h hf.handling ht hpos with hover | ⟨hok', -⟩
            · cases hover.2.symm.trans hok
            cases hok'.symm.trans hok
            refine ⟨_, rfl, hf.now, ?_, hf.ran, fun e' hmem ↦ ?_⟩
            · rw [hfold]
              simp only [Schedule.step, ← hinterval, if_pos hpos, ← hnow, setOf_mem_orderedInsert]
            · rw [← hf.interval e' (List.mem_cons_of_mem e hmem)]
              exact interval_of_heap (Function.update_of_ne (hrest e' hmem) ..)
          · cases (endTimer_once h hf.handling ht hpos).1.symm.trans hok
            refine ⟨_, rfl, hf.now, ?_, hf.ran, fun e' hmem ↦ ?_⟩
            · rw [hfold]
              simp only [Schedule.step, ← hinterval, if_neg hpos]
              rfl
            · rw [← hf.interval e' (List.mem_cons_of_mem e hmem)]
              exact interval_of_heap (Function.update_of_ne (hrest e' hmem) ..)
  | finish => exact absurd rfl ha

/-- From the first step of a `handleRead` on, the queue follows the schedule. -/
theorem exists_follows {q₀ : TimerQueue} (h : q₀.Good) {as : List TimerStep}
    (hr : (machine.restrict Queued).Runs q₀ (.handleRead :: as) (.ok q)) (ha : .finish ∉ as) :
    q.Good ∧ ∃ x, q₀.Follows as q x := by
  have hinv : (.handleRead :: as = [] → q = q₀) ∧ q.Good ∧
      ∀ bs, .handleRead :: as = TimerStep.handleRead :: bs → .finish ∉ bs →
        ∃ x, q₀.Follows bs q x := by
    refine hr.preserves (I := fun as q ↦ (as = [] → q = q₀) ∧ q.Good ∧
      ∀ bs, as = .handleRead :: bs → .finish ∉ bs → ∃ x, q₀.Follows bs q x)
      ⟨fun _ ↦ rfl, h, nofun⟩ ?_
    rintro as s a s' ⟨hnil, hgood, hfollows⟩ ⟨he, hq⟩ hok
    have hgood' : s'.Good := by
      rcases hgood.perform he hq with hover | ⟨s'', hok', hg⟩
      · cases hover.2.symm.trans hok
      · cases hok'.symm.trans hok
        exact hg
    refine ⟨by simp, hgood', fun bs hbs hfin ↦ ?_⟩
    cases as with
    | nil =>
        obtain rfl := hnil rfl
        obtain ⟨rfl, rfl⟩ := List.cons.inj hbs
        exact follows_handleRead h hok
    | cons b as =>
        have hb : b = .handleRead := (List.cons.inj hbs).1
        have hbs : as ++ [a] = bs := (List.cons.inj hbs).2
        rw [← hbs, List.mem_append, not_or] at hfin
        rw [← hbs]
        obtain ⟨x, hx⟩ := hfollows as (by rw [hb]) hfin.1
        exact hx.perform hgood he hq (fun heq ↦ hfin.2 (by simp [heq])) hok
  exact ⟨hinv.2.1, hinv.2.2 as rfl ha⟩

/-- A `handleRead` runs what was due, and leaves the set as the schedule says. -/
theorem expires_of_runs {q' : TimerQueue} (h : q.Good) {as : List TimerStep} (ha : .finish ∉ as)
    (hr : (machine.restrict Queued).Runs q (.handleRead :: as ++ [.finish]) (.ok q')) :
    q.Expires as q' := by
  obtain ⟨s, hrun, ⟨⟨x, hx, hfalse, hnil⟩, -⟩, hok⟩ := hr.of_snoc
  obtain ⟨hgood, x', hf⟩ := exists_follows h hrun ha
  obtain rfl := Option.some.inj (hx.symm.trans hf.handling)
  have hran := hf.ran
  rw [Expiry.left, hfalse, if_neg Bool.false_ne_true, hnil, List.append_nil] at hran
  rcases finish_cases hgood with hover | ⟨fd, hok', -⟩
  · cases hover.2.symm.trans hok
  cases hok'.symm.trans hok
  exact ⟨h.sorted.filter _, hran, congrArg Schedule.pending hf.schedule⟩

/-- The entries have the deadlines of their timers, the timerfd is armed early enough, and every
`handleRead` does what it is for. -/
structure NeverMissed (q : TimerQueue) : Prop where
  timed : ∀ e ∈ q.timers_, ∃ t, q.heap e.timer = some t ∧ t.when_ = e.when_
  armed : q.handling = none → ∀ e ∈ q.timers_, q.ArmedFor e
  expires {as : List TimerStep} {q' : TimerQueue} (ha : .finish ∉ as)
    (hr : (machine.restrict Queued).Runs q (.handleRead :: as ++ [.finish]) (.ok q')) :
    q.Expires as q'

/-- As long as only timers in the set are canceled and every time fits, no timer is missed. -/
theorem neverMissed_of_runs {clock : Int} {as : List TimerStep} {r : Run TimerQueue}
    (h : (machine.restrict fun q a ↦ q.Queued a ∧ q.InRange a).Runs (new clock) as r) :
    ∃ q, r = .ok q ∧ q.NeverMissed := by
  obtain ⟨q, hok, hg⟩ := h.invariant (I := fun _ q ↦ q.Good) (good_new clock)
    fun _ q a hg he ↦ (hg.perform he.1 he.2.1).resolve_left fun hover ↦ hover.1 he.2.2
  refine ⟨q, hok, fun e he ↦ ?_, hg.armed, expires_of_runs hg⟩
  obtain ⟨t, ht⟩ := hg.timed e he
  exact ⟨t, ht.heap, ht.when_⟩

/-- A timer that is due at 5 is run at 7. -/
theorem neverMissed_of_runs_sample : ∃ q : TimerQueue, q.ran = [⟨5, 1⟩] ∧ q.NeverMissed := by
  have hadd : (machine.restrict fun q a ↦ q.Queued a ∧ q.InRange a).Runs (new 0) [.addTimer 1 5 0]
      ((new 0).addTimer 1 5 0) :=
    Machine.Runs.nil.snoc ⟨⟨nofun, rfl⟩, trivial, fun _ ↦ by decide⟩
  have hadded : (new 0).addTimer 1 5 0 = .ok ⟨[⟨5, 1⟩],
      Function.update (fun _ ↦ none) 1 (some (Timer.new 5 0)), some ⟨100000, 0⟩, 0, none, []⟩ := rfl
  rw [hadded] at hadd
  have htick := hadd.then (a := TimerStep.tick 7) ⟨trivial, trivial, trivial⟩ rfl
  have hread := htick.then (a := TimerStep.handleRead)
    ⟨rfl, trivial, show Fits (7 + 1) by decide⟩ rfl
  have hrun := hread.then (a := TimerStep.runTimer)
    ⟨⟨_, rfl, rfl, List.cons_ne_nil _ _⟩, trivial, trivial⟩ rfl
  have honce : ¬ 0 < (Timer.new 5 0).interval_ := by decide
  have hend := hrun.then (a := TimerStep.endTimer) ⟨⟨_, rfl, rfl⟩, trivial, fun x hx e he hpos ↦ by
    cases hx
    cases he
    exact absurd hpos honce⟩ rfl
  have hfinish := hend.then (a := TimerStep.finish) ⟨⟨_, rfl, rfl, rfl⟩, trivial, nofun⟩ rfl
  obtain ⟨q, hok, h⟩ := neverMissed_of_runs hfinish
  cases hok
  exact ⟨_, rfl, h⟩

/-- The earliest of all deadlines overflows before it could be raised to 100 microseconds. -/
theorem not_neverMissed_min :
    ¬ ∀ (clock : Int) (as : List TimerStep) (r : Run TimerQueue),
      (machine.restrict Queued).Runs (new clock) as r → ∃ q, r = .ok q ∧ q.NeverMissed := by
  intro h
  have hrun : (machine.restrict Queued).Runs (new 1) [.addTimer 1 (-2 ^ 63) 0]
      ((new 1).addTimer 1 (-2 ^ 63) 0) :=
    Machine.Runs.nil.snoc ⟨⟨nofun, rfl⟩, trivial⟩
  obtain ⟨q, hok, -⟩ := h 1 _ _ hrun
  cases hok

end RpcLearning.Net.TimerQueue
