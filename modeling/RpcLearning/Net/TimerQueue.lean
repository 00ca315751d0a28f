import RpcLearning.Lib.Machine

/-!
# The timer queue

`TimerQueue` (`NetServer/TimerQueue.cpp`) and `Timer` (`NetServer/Timer.h`): an ordered set of
deadlines, and one timerfd that is armed for the first of them.  Times are counts of nanoseconds; a
sum or a difference of them that does not fit into 64 bits is undefined.  A timer is known by its
address, and the heap says which ones are alive.  `handleRead` is split where the code of others
runs: in the callbacks, which may add and cancel timers.
-/

namespace RpcLearning.Net

/-- A count of nanoseconds has 64 bits. -/
def Fits (n : Int) : Prop := -2 ^ 63 ≤ n ∧ n < 2 ^ 63

instance (n : Int) : Decidable (Fits n) := inferInstanceAs (Decidable (_ ∧ _))

/-- A sum or a difference of nanoseconds. -/
def nanoSeconds (n : Int) : Run Int := if Fits n then .ok n else .error .overflow

/-- 100 microseconds. -/
def kMinDuration : Int := 100 * 1000

structure Timer where
  when_ : Int
  interval_ : Int
  repeat_ : Bool
  canceled_ : Bool

namespace Timer

def new (when_ interval : Int) : Timer := ⟨when_, interval, 0 < interval, false⟩

def expired (now : Int) (t : Timer) : Bool := t.when_ ≤ now

def restart (now : Int) (t : Timer) : Run Timer :=
  if t.repeat_ then do
    let when_ ← nanoSeconds (now + t.interval_)
    .ok { t with when_ := when_ }
  else .error .assertion

def cancel (t : Timer) : Run Timer :=
  if t.canceled_ then .error .assertion else .ok { t with canceled_ := true }

end Timer

/-- `std::pair<Timestamp, Timer*>` -/
structure Entry where
  when_ : Int
  timer : Nat
deriving DecidableEq, Repr

namespace Entry

/-- The order of pairs. -/
def key (e : Entry) : Int ×ₗ Nat := toLex (e.when_, e.timer)

theorem key_injective : Function.Injective key := by
  intro e e' h
  obtain ⟨hw, ht⟩ := Prod.mk.inj (toLex.injective h)
  cases e
  cases e'
  cases hw
  cases ht
  rfl

instance : LinearOrder Entry := LinearOrder.lift' key key_injective

theorem lt_iff {e e' : Entry} :
    e < e' ↔ e.when_ < e'.when_ ∨ e.when_ = e'.when_ ∧ e.timer < e'.timer :=
  Prod.Lex.toLex_lt_toLex

/-- A strike is above exactly the entries that are due. -/
theorem lt_strike {e : Entry} {now : Int} : e < ⟨now + 1, 0⟩ ↔ e.when_ ≤ now := by
  rw [lt_iff]
  dsimp only
  omega

end Entry

/-- A timerfd that was set at the time `since` and expires, or has expired, at `expires`. -/
structure Armed where
  expires : Int
  since : Int

/-- A `handleRead` on its way: its `now`, the entries it has still to see to, and whether the
callback of the first of them is being run. -/
structure Expiry where
  now : Int
  entries : List Entry
  running : Bool

/-- The queue, the clock, and the entries whose callbacks have been run. -/
structure TimerQueue where
  timers_ : List Entry
  heap : Nat → Option Timer
  timerfd_ : Option Armed
  clock : Int
  handling : Option Expiry
  ran : List Entry

/-- The steps of the loop thread, and of the clock. -/
inductive TimerStep where
  | tick (d : Nat)
  /-- The task of `addTimer`, with the address of the new timer. -/
  | addTimer (timer : Nat) (when_ interval : Int)
  /-- The task of `cancelTimer`. -/
  | cancelTimer (timer : Nat)
  /-- `handleRead` up to its loop. -/
  | handleRead
  /-- The loop comes to the next entry, and runs the callback of its timer. -/
  | runTimer
  /-- The callback returns. -/
  | endTimer
  /-- `handleRead` from the end of its loop. -/
  | finish
deriving DecidableEq, Repr

namespace TimerQueue

def new (clock : Int) : TimerQueue := ⟨[], fun _ ↦ none, none, clock, none, []⟩

/-- The timer at an address. -/
def deref (timer : Nat) (q : TimerQueue) : Run Timer :=
  match q.heap timer with
  | some t => .ok t
  | none => .error .dangling

def write (timer : Nat) (t : Timer) (q : TimerQueue) : TimerQueue :=
  { q with heap := Function.update q.heap timer (some t) }

/-- `delete timer` -/
def delete (timer : Nat) (q : TimerQueue) : TimerQueue :=
  { q with heap := Function.update q.heap timer none }

/-- `timers_.insert(e)` -/
def insert (e : Entry) (q : TimerQueue) : TimerQueue :=
  if e ∈ q.timers_ then q else { q with timers_ := q.timers_.orderedInsert (· ≤ ·) e }

/-! ## The timerfd -/

/-- A timer that has expired can be read, and is disarmed then. -/
def timerFdRead (q : TimerQueue) : TimerQueue :=
  match q.timerfd_ with
  | some a => if a.expires ≤ q.clock then { q with timerfd_ := none } else q
  | none => q

def duractionFromNow (when_ : Int) (q : TimerQueue) : Run Int := do
  let ns ← nanoSeconds (when_ - q.clock)
  .ok (if ns < kMinDuration then kMinDuration else ns)

def timerFdSet (when_ : Int) (q : TimerQueue) : Run TimerQueue := do
  let ns ← q.duractionFromNow when_
  .ok { q with timerfd_ := some ⟨q.clock + ns, q.clock⟩ }

/-! ## The operations -/

/-- `addTimer`, from the insertion on. -/
def addTimer (timer : Nat) (when_ interval : Int) (q : TimerQueue) : Run TimerQueue :=
  let q := q.write timer (Timer.new when_ interval)
  if ⟨when_, timer⟩ ∈ q.timers_ then .error .assertion
  else
    let q := q.insert ⟨when_, timer⟩
    if q.timers_.head? = some ⟨when_, timer⟩ then q.timerFdSet when_ else .ok q

def cancelTimer (timer : Nat) (q : TimerQueue) : Run TimerQueue := do
  let t ← q.deref timer
  let t ← t.cancel
  .ok { q.delete timer with timers_ := q.timers_.erase ⟨t.when_, timer⟩ }

/-- What is below the strike leaves the set. -/
def getExpired (now : Int) (q : TimerQueue) : Run (List Entry × TimerQueue) := do
  let when_ ← nanoSeconds (now + 1)
  let strike : Entry := ⟨when_, 0⟩
  .ok (q.timers_.filter (· < strike), { q with timers_ := q.timers_.filter (¬ · < strike) })

def handleRead (q : TimerQueue) : Run TimerQueue := do
  let q := q.timerFdRead
  let now := q.clock
  let (entries, q) ← q.getExpired now
  .ok { q with handling := some ⟨now, entries, false⟩ }

/-- The second half of a round of the loop: the timer is put back, or deleted. -/
def endTimer (q : TimerQueue) : Run TimerQueue :=
  match q.handling with
  | some ⟨now, e :: entries, _⟩ => do
    let q := { q with handling := some ⟨now, entries, false⟩ }
    let t ← q.deref e.timer
    if ¬ t.canceled_ ∧ t.repeat_ then do
      let t ← t.restart now
      .ok ((q.write e.timer t).insert ⟨t.when_, e.timer⟩)
    else .ok (q.delete e.timer)
  | _ => .ok q

/-- The first half: the callback is run, unless the timer was canceled. -/
def runTimer (q : TimerQueue) : Run TimerQueue :=
  match q.handling with
  | some ⟨now, e :: entries, _⟩ => do
    let t ← q.deref e.timer
    if ¬ t.expired now then .error .assertion
    else if t.canceled_ then q.endTimer
    else .ok { q with handling := some ⟨now, e :: entries, true⟩, ran := q.ran ++ [e] }
  | _ => .ok q

def finish (q : TimerQueue) : Run TimerQueue :=
  let q := { q with handling := none }
  match q.timers_ with
  | [] => .ok q
  | e :: _ => q.timerFdSet e.when_

/-- Whether the code of others may be running: outside `handleRead`, or in a callback. -/
def calls (q : TimerQueue) : Prop := ∀ x, q.handling = some x → x.running = true

/-- A new timer has an address of its own, and only a timer that is alive can be canceled. -/
def enabled (q : TimerQueue) : TimerStep → Prop
  | .tick _ => True
  | .addTimer timer _ _ => q.calls ∧ q.heap timer = none
  | .cancelTimer timer => q.calls ∧ q.heap timer ≠ none
  | .handleRead => q.handling = none
  | .runTimer => ∃ x, q.handling = some x ∧ x.running = false ∧ x.entries ≠ []
  | .endTimer => ∃ x, q.handling = some x ∧ x.running = true
  | .finish => ∃ x, q.handling = some x ∧ x.running = false ∧ x.entries = []

def perform (q : TimerQueue) : TimerStep → Run TimerQueue
  | .tick d => .ok { q with clock := q.clock + d }
  | .addTimer timer when_ interval => q.addTimer timer when_ interval
  | .cancelTimer timer => q.cancelTimer timer
  | .handleRead => q.handleRead
  | .runTimer => q.runTimer
  | .endTimer => q.endTimer
  | .finish => q.finish

def machine : Machine TimerQueue TimerStep := ⟨enabled, perform⟩

end TimerQueue

/-! ## The set -/

namespace Entry

variable {e : Entry} {es : List Entry}

theorem pairwise_orderedInsert (h : es.Pairwise (· < ·)) (he : e ∉ es) :
    (es.orderedInsert (· ≤ ·) e).Pairwise (· < ·) := by
  have hle : es.Pairwise (· ≤ ·) := h.imp le_of_lt
  have hnodup : (es.orderedInsert (· ≤ ·) e).Nodup :=
    (List.perm_orderedInsert _ e es).nodup_iff.mpr (List.nodup_cons.mpr ⟨he, h.imp ne_of_lt⟩)
  exact (hle.orderedInsert e es).imp₂ (fun _ _ h hne ↦ lt_of_le_of_ne h hne) hnodup

theorem head?_le (h : es.Pairwise (· < ·)) (he : es.head? = some e) : ∀ e' ∈ es, e ≤ e' := by
  cases es with
  | nil => cases he
  | cons a es =>
      obtain rfl := Option.some.inj he
      intro e' he'
      rcases List.mem_cons.mp he' with rfl | he'
      · exact le_refl _
      · exact (List.rel_of_pairwise_cons h he').le

/-- `begin()` is the earliest deadline. -/
theorem head?_when_le (h : es.Pairwise (· < ·)) (he : es.head? = some e) :
    ∀ e' ∈ es, e.when_ ≤ e'.when_ := by
  intro e' he'
  rcases (head?_le h he e' he').eq_or_lt with rfl | hlt
  · exact le_refl _
  · rcases lt_iff.mp hlt with hwhen | ⟨heq, -⟩
    · exact hwhen.le
    · exact heq.le

end Entry

/-! ## What the operations do -/

theorem nanoSeconds_cases (n : Int) :
    ¬ Fits n ∧ nanoSeconds n = .error .overflow ∨ nanoSeconds n = .ok n := by
  by_cases h : Fits n
  · exact .inr (if_pos h)
  · exact .inl ⟨h, if_neg h⟩

theorem Timer.restart_cases {t : Timer} (now : Int) (h : t.repeat_ = true) :
    ¬ Fits (now + t.interval_) ∧ t.restart now = .error .overflow ∨
      t.restart now = .ok { t with when_ := now + t.interval_ } := by
  unfold restart
  rw [if_pos h]
  rcases nanoSeconds_cases (now + t.interval_) with ⟨hfits, hover⟩ | hok
  · exact .inl ⟨hfits, by rw [hover]; rfl⟩
  · exact .inr (by rw [hok]; rfl)

namespace TimerQueue

variable {q : TimerQueue}

/-- The timerfd is armed for no later than an entry needs, but at least 100 microseconds after it
was set. -/
def ArmedFor (q : TimerQueue) (e : Entry) : Prop :=
  ∃ a, q.timerfd_ = some a ∧ a.expires ≤ max e.when_ (a.since + kMinDuration)

/-- Setting the timerfd for a time serves every entry from that time on. -/
theorem timerFdSet_cases (when_ : Int) (q : TimerQueue) :
    ¬ Fits (when_ - q.clock) ∧ q.timerFdSet when_ = .error .overflow ∨
      ∃ fd, q.timerFdSet when_ = .ok { q with timerfd_ := fd } ∧
        ∀ e : Entry, when_ ≤ e.when_ → ArmedFor { q with timerfd_ := fd } e := by
  unfold timerFdSet duractionFromNow
  rcases nanoSeconds_cases (when_ - q.clock) with ⟨hfits, h⟩ | h
  · exact .inl ⟨hfits, by rw [h]; rfl⟩
  · refine .inr ⟨_, by rw [h]; rfl, fun e he ↦ ⟨_, rfl, ?_⟩⟩
    dsimp only
    split <;> omega

/-- The timer of an entry is alive and not canceled, and its deadline is the entry's. -/
structure Timed (q : TimerQueue) (e : Entry) (t : Timer) : Prop where
  heap : q.heap e.timer = some t
  when_ : t.when_ = e.when_
  canceled : t.canceled_ = false
  repeats : t.repeat_ = decide (0 < t.interval_)

theorem Timed.deref {e : Entry} {t : Timer} (h : q.Timed e t) : q.deref e.timer = .ok t := by
  rw [TimerQueue.deref, h.heap]

/-- Two entries for one timer are the same entry. -/
theorem Timed.unique {e e' : Entry} {t t' : Timer} (h : q.Timed e t) (h' : q.Timed e' t')
    (he : e.timer = e'.timer) : e = e' := by
  have ht : t = t' := Option.some.inj (h.heap.symm.trans (he ▸ h'.heap))
  have hw : e.when_ = e'.when_ := by rw [← h.when_, ← h'.when_, ht]
  cases e
  cases e'
  cases hw
  cases he
  rfl

theorem Timed.of_heap {q' : TimerQueue} {e : Entry} {t : Timer} (h : q.Timed e t)
    (hq : q'.heap e.timer = q.heap e.timer) : q'.Timed e t :=
  { h with heap := hq.trans h.heap }

end TimerQueue

end RpcLearning.Net
