import RpcLearning.Lib.Machine
import Mathlib.Logic.Function.Basic

/-!
# Monitors

Data that a mutex guards, with a condition variable.  A procedure either has to wait, which
releases the mutex and puts its thread to sleep until it is notified or wakes up for no reason, or
it replaces the data, perhaps notifies all that sleep, and returns; or it faults.  A thread that has
been woken takes the mutex again and starts over.

Calls take effect one after the other, in the order in which they return; and where whatever ends a
wait is announced, nobody sleeps who could go on.
-/

namespace RpcLearning

universe u v w

/-- Procedures `C` on data `D`: `none` waits, `some (d, b)` leaves the data `d`, and notifies if
`b` says so. -/
structure Monitor (C : Type u) (D : Type v) where
  body : C → D → Run (Option (D × Bool))

namespace Monitor

/-- Where a thread is with its call. -/
inductive Place (C : Type u) where
  | away
  | entering (c : C)
  | inside (c : C)
  | asleep (c : C)

structure State (C : Type u) (D : Type v) (T : Type w) where
  data : D
  place : T → Place C
  returned : List (T × C)

inductive Step (C : Type u) (T : Type w) where
  | call (t : T) (c : C)
  | lock (t : T)
  /-- The thread that holds the mutex runs its procedure up to the wait or to the end. -/
  | run (t : T)
  /-- A thread wakes up without having been notified. -/
  | wake (t : T)

variable {C : Type u} {D : Type v} {T : Type w}

def Place.notified : Place C → Place C
  | .asleep c => .entering c
  | p => p

@[simp] theorem Place.notified_eq_inside {p : Place C} {c : C} :
    p.notified = .inside c ↔ p = .inside c := by
  cases p <;> simp [Place.notified]

theorem Place.notified_ne_asleep (p : Place C) (c : C) : p.notified ≠ .asleep c := by
  cases p <;> simp [Place.notified]

namespace State

def start (d : D) : State C D T := ⟨d, fun _ ↦ .away, []⟩

/-- Nobody holds the mutex. -/
def Free (s : State C D T) : Prop := ∀ t c, s.place t ≠ .inside c

/-- The thread is in a call of `c` that has not returned. -/
def Calls (s : State C D T) (t : T) (c : C) : Prop :=
  s.place t = .entering c ∨ s.place t = .inside c ∨ s.place t = .asleep c

theorem Calls.ne_away {s : State C D T} {t : T} {c : C} (h : s.Calls t c) :
    s.place t ≠ .away := by
  intro ha
  rcases h with h | h | h <;> cases h.symm.trans ha

theorem Calls.unique {s : State C D T} {t : T} {c c' : C} (h : s.Calls t c) (h' : s.Calls t c') :
    c = c' := by
  rcases h with h | h | h <;> rcases h' with h' | h' | h' <;> cases h.symm.trans h' <;> rfl

variable [DecidableEq T]

def move (t : T) (p : Place C) (s : State C D T) : State C D T :=
  { s with place := Function.update s.place t p }

def leave (t : T) (c : C) (d : D) (notify : Bool) (s : State C D T) : State C D T where
  data := d
  place := Function.update (if notify then fun t ↦ (s.place t).notified else s.place) t .away
  returned := s.returned ++ [(t, c)]

@[simp] theorem place_move_self (t : T) (p : Place C) (s : State C D T) :
    (s.move t p).place t = p := Function.update_self ..

theorem place_move_of_ne {t t' : T} (h : t' ≠ t) (p : Place C) (s : State C D T) :
    (s.move t p).place t' = s.place t' := Function.update_of_ne h ..

theorem place_leave_self (t : T) (c : C) (d : D) (notify : Bool) (s : State C D T) :
    (s.leave t c d notify).place t = .away := Function.update_self ..

theorem place_leave_of_ne {t t' : T} (h : t' ≠ t) (c : C) (d : D) (notify : Bool)
    (s : State C D T) : (s.leave t c d notify).place t' =
      if notify then (s.place t').notified else s.place t' := by
  refine (Function.update_of_ne h ..).trans ?_
  split <;> rfl

end State

open State

def enabled (s : State C D T) : Step C T → Prop
  | .call t _ => s.place t = .away
  | .lock t => s.Free ∧ ∃ c, s.place t = .entering c
  | .run t => ∃ c, s.place t = .inside c
  | .wake t => ∃ c, s.place t = .asleep c

variable [DecidableEq T]

def perform (M : Monitor C D) (s : State C D T) : Step C T → Run (State C D T)
  | .call t c => .ok (s.move t (.entering c))
  | .lock t =>
    match s.place t with
    | .entering c => .ok (s.move t (.inside c))
    | _ => .ok s
  | .run t =>
    match s.place t with
    | .inside c =>
      match M.body c s.data with
      | .ok none => .ok (s.move t (.asleep c))
      | .ok (some (d, notify)) => .ok (s.leave t c d notify)
      | .error f => .error f
    | _ => .ok s
  | .wake t =>
    match s.place t with
    | .asleep c => .ok (s.move t (.entering c))
    | _ => .ok s

def machine (M : Monitor C D) : Machine (State C D T) (Step C T) := ⟨enabled, M.perform⟩

/-- What a step can do: a thread moves from one place to another, or it leaves. -/
inductive Does (M : Monitor C D) (s : State C D T) : State C D T → Prop
  | call {t : T} (c : C) (h : s.place t = .away) : Does M s (s.move t (.entering c))
  | lock {t : T} {c : C} (hfree : s.Free) (h : s.place t = .entering c) :
      Does M s (s.move t (.inside c))
  | sleep {t : T} {c : C} (h : s.place t = .inside c) (hb : M.body c s.data = .ok none) :
      Does M s (s.move t (.asleep c))
  | leave {t : T} {c : C} (h : s.place t = .inside c) {d : D} {notify : Bool}
      (hb : M.body c s.data = .ok (some (d, notify))) : Does M s (s.leave t c d notify)
  | wake {t : T} {c : C} (h : s.place t = .asleep c) : Does M s (s.move t (.entering c))

variable {M : Monitor C D}

/-- A step does one of these, or the procedure that it runs faults. -/
theorem does_or_faults {s : State C D T} {a : Step C T} (he : enabled s a) :
    (∃ s', M.perform s a = .ok s' ∧ Does M s s') ∨
      ∃ t c f, a = .run t ∧ s.place t = .inside c ∧ M.body c s.data = .error f ∧
        M.perform s a = .error f := by
  cases a with
  | call t c => exact .inl ⟨_, rfl, .call c he⟩
  | lock t =>
      obtain ⟨hfree, c, h⟩ := he
      exact .inl ⟨_, by simp only [perform, h], .lock hfree h⟩
  | run t =>
      obtain ⟨c, h⟩ := he
      cases hb : M.body c s.data with
      | error f => exact .inr ⟨t, c, f, rfl, h, hb, by simp only [perform, h, hb]⟩
      | ok o =>
          cases o with
          | none => exact .inl ⟨_, by simp only [perform, h, hb], .sleep h hb⟩
          | some q => exact .inl ⟨_, by simp only [perform, h, hb], .leave h hb⟩
  | wake t =>
      obtain ⟨c, h⟩ := he
      exact .inl ⟨_, by simp only [perform, h], .wake h⟩

theorem does_of_perform {s s' : State C D T} {a : Step C T} (he : enabled s a)
    (hp : M.perform s a = .ok s') : Does M s s' := by
  rcases does_or_faults (M := M) he with ⟨s₁, hp₁, hd⟩ | ⟨_, _, f, -, -, -, hf⟩
  · cases hp.symm.trans hp₁
    exact hd
  · cases hp.symm.trans hf

/-- The step is none of a thread that calls. -/
def Step.Goes : Step C T → Prop
  | .call _ _ => False
  | _ => True

def Step.wakes : Step C T → Bool
  | .wake _ => true
  | _ => false

/-- Every call goes on, and who is away stays away. -/
structure Keeps (t : T) (s s' : State C D T) : Prop where
  calls : ∀ c, s.Calls t c → s'.Calls t c
  away : s.place t = .away → s'.place t = .away

theorem keeps_move_of_ne {s : State C D T} {t t' : T} (h : t' ≠ t) (p : Place C) :
    Keeps t' s (s.move t p) := by
  constructor
  · intro c' hc'
    rwa [State.Calls, place_move_of_ne h]
  · intro ha
    rwa [place_move_of_ne h]

theorem keeps_move {s : State C D T} {t : T} {p : Place C} {c : C}
    (hc : ∀ c', s.Calls t c' → c' = c) (hp : p = .entering c ∨ p = .inside c ∨ p = .asleep c)
    (ht : s.place t ≠ .away) (t' : T) : Keeps t' s (s.move t p) := by
  by_cases heq : t' = t
  · subst heq
    refine ⟨fun c' hc' ↦ ?_, fun h ↦ absurd h ht⟩
    rw [State.Calls, place_move_self, hc c' hc']
    exact hp
  · exact keeps_move_of_ne heq p

theorem keeps_leave {s : State C D T} {t t' : T} (h : t' ≠ t) (c : C) (d : D) (notify : Bool) :
    Keeps t' s (s.leave t c d notify) := by
  constructor
  · intro c' hc'
    rw [State.Calls, place_leave_of_ne h]
    cases notify with
    | false => exact hc'
    | true => rcases hc' with hc' | hc' | hc' <;> simp [hc', Place.notified]
  · intro ha
    rw [place_leave_of_ne h, ha]
    split <;> rfl

/-- A step that is not a call lets one call return, or none. -/
theorem perform_of_goes {s s' : State C D T} {a : Step C T} (he : enabled s a) (hg : a.Goes)
    (hp : M.perform s a = .ok s') : (s'.returned = s.returned ∧ ∀ t, Keeps t s s') ∨
      ∃ t c, s.Calls t c ∧ s'.returned = s.returned ++ [(t, c)] ∧ s'.place t = .away ∧
        ∀ t', t' ≠ t → Keeps t' s s' := by
  cases a with
  | call t c => cases hg
  | lock t =>
      obtain ⟨-, c, h⟩ := he
      simp only [perform, h] at hp
      cases hp
      refine .inl ⟨rfl, keeps_move (c := c) ?_ (.inr (.inl rfl)) (by simp [h])⟩
      simp [State.Calls, h, eq_comm]
  | run t =>
      obtain ⟨c, h⟩ := he
      simp only [perform, h] at hp
      cases hb : M.body c s.data with
      | error f =>
          rw [hb] at hp
          cases hp
      | ok o =>
          rw [hb] at hp
          cases o with
          | none =>
              cases hp
              refine .inl ⟨rfl, keeps_move (c := c) ?_ (.inr (.inr rfl)) (by simp [h])⟩
              simp [State.Calls, h, eq_comm]
          | some q =>
              cases hp
              refine .inr ⟨t, c, .inr (.inl h), rfl, place_leave_self .., fun t' ht' ↦ ?_⟩
              exact keeps_leave ht' ..
  | wake t =>
      obtain ⟨c, h⟩ := he
      simp only [perform, h] at hp
      cases hp
      refine .inl ⟨rfl, keeps_move (c := c) ?_ (.inl rfl) (by simp [h])⟩
      simp [State.Calls, h, eq_comm]

/-! ## One at a time -/

/-- No two threads hold the mutex. -/
def Exclusive (s : State C D T) : Prop :=
  ∀ t t' c c', s.place t = .inside c → s.place t' = .inside c' → t = t'

/-- Whoever is inside after a move of `t` to another place was so before. -/
theorem inside_of_move {s : State C D T} {t t' : T} {p : Place C} {c : C}
    (hp : ∀ c, p ≠ .inside c) (h : (s.move t p).place t' = .inside c) :
    t' ≠ t ∧ s.place t' = .inside c := by
  by_cases heq : t' = t
  · subst heq
    rw [place_move_self] at h
    exact absurd h (hp c)
  · rw [place_move_of_ne heq] at h
    exact ⟨heq, h⟩

theorem inside_of_leave {s : State C D T} {t t' : T} {c c' : C} {d : D} {notify : Bool}
    (h : (s.leave t c d notify).place t' = .inside c') : t' ≠ t ∧ s.place t' = .inside c' := by
  by_cases heq : t' = t
  · subst heq
    rw [place_leave_self] at h
    cases h
  · rw [place_leave_of_ne heq] at h
    split at h
    · exact ⟨heq, Place.notified_eq_inside.mp h⟩
    · exact ⟨heq, h⟩

theorem Exclusive.does {s s' : State C D T} (h : Exclusive s) (hd : Does M s s') :
    Exclusive s' := by
  intro t t' c c' ht ht'
  cases hd with
  | lock hfree _ =>
      -- the mutex was free, so both are the thread that has taken it
      have honly : ∀ {t₀ t₁ : T} {c₀ c₁ : C},
          (s.move t₀ (.inside c₀)).place t₁ = .inside c₁ → t₁ = t₀ := by
        intro t₀ t₁ c₀ c₁ h₁
        by_contra hne
        rw [place_move_of_ne hne] at h₁
        exact hfree t₁ c₁ h₁
      exact (honly ht).trans (honly ht').symm
  | leave _ _ => exact h t t' c c' (inside_of_leave ht).2 (inside_of_leave ht').2
  | call _ _ | sleep _ _ | wake _ =>
      refine h t t' c c' (inside_of_move ?_ ht).2 (inside_of_move ?_ ht').2
      all_goals
        intro c₁ hc₁
        cases hc₁

/-- The calls `cs` take the data `d` to `d'` one after the other, none of them waiting. -/
inductive Linear (M : Monitor C D) (d : D) : List C → D → Prop
  | nil : Linear M d [] d
  | snoc {cs : List C} {d₁ : D} (h : Linear M d cs d₁) {c : C} {d₂ : D} {notify : Bool}
      (hb : M.body c d₁ = .ok (some (d₂, notify))) : Linear M d (cs ++ [c]) d₂

/-- A call among them could take effect after those before it. -/
theorem Linear.of_append {d d' : D} {cs cs' : List C} {c : C}
    (h : M.Linear d (cs ++ c :: cs') d') :
    ∃ d₁ d₂ notify, M.Linear d cs d₁ ∧ M.body c d₁ = .ok (some (d₂, notify)) := by
  induction cs' using List.reverseRecOn generalizing d' with
  | nil =>
      generalize hcs : cs ++ [c] = cs₁ at h
      cases h with
      | nil => simp at hcs
      | snoc h hb =>
          obtain ⟨rfl, heq⟩ := List.append_inj' hcs rfl
          cases heq
          exact ⟨_, _, _, h, hb⟩
  | append_singleton cs' c' ih =>
      generalize hcs : cs ++ c :: (cs' ++ [c']) = cs₁ at h
      cases h with
      | nil => simp at hcs
      | snoc h hb =>
          rw [← List.cons_append, ← List.append_assoc] at hcs
          obtain ⟨rfl, -⟩ := List.append_inj' hcs rfl
          exact ih h

/-! ## No lost wake-up -/

/-- A procedure that ends the wait of another one notifies. -/
def Announces (M : Monitor C D) : Prop :=
  ∀ c c' d d', M.body c d = .ok (some (d', false)) → M.body c' d = .ok none →
    M.body c' d' = .ok none

/-- Whoever sleeps would have to wait. -/
def Drowsy (M : Monitor C D) (s : State C D T) : Prop :=
  ∀ t c, s.place t = .asleep c → M.body c s.data = .ok none

theorem asleep_of_move {s : State C D T} {t t' : T} {p : Place C} {c : C}
    (hp : ∀ c, p ≠ .asleep c) (h : (s.move t p).place t' = .asleep c) :
    s.place t' = .asleep c := by
  by_cases heq : t' = t
  · subst heq
    rw [place_move_self] at h
    exact absurd h (hp c)
  · rwa [place_move_of_ne heq] at h

theorem Drowsy.does {s s' : State C D T} (hM : Announces M) (h : Drowsy M s) (hd : Does M s s') :
    Drowsy M s' := by
  intro t c ht
  cases hd with
  | @sleep t₀ c₀ _ hb =>
      by_cases heq : t = t₀
      · subst heq
        rw [place_move_self] at ht
        cases ht
        exact hb
      · rw [place_move_of_ne heq] at ht
        exact h t c ht
  | @leave t₀ c₀ _ d notify hb =>
      by_cases heq : t = t₀
      · subst heq
        rw [place_leave_self] at ht
        cases ht
      · rw [place_leave_of_ne heq] at ht
        cases notify with
        | true => exact absurd ht (Place.notified_ne_asleep _ _)
        | false => exact hM _ _ _ _ hb (h t c ht)
  | call _ _ | lock _ _ | wake _ =>
      refine h t c (asleep_of_move ?_ ht)
      intro c₁ hc₁
      cases hc₁

/-! ## Runs -/

/-- What holds in every state that is reached. -/
structure Sound (M : Monitor C D) (d : D) (s : State C D T) : Prop where
  exclusive : Exclusive s
  drowsy : Announces M → Drowsy M s
  linear : M.Linear d (s.returned.map Prod.snd) s.data

theorem Sound.does {d : D} {s s' : State C D T} (h : Sound M d s) (hd : Does M s s') :
    Sound M d s' := by
  refine ⟨h.exclusive.does hd, fun hM ↦ (h.drowsy hM).does hM hd, ?_⟩
  cases hd with
  | leave _ hb =>
      show M.Linear d (List.map Prod.snd (_ ++ [_])) _
      rw [List.map_append]
      exact h.linear.snoc hb
  | call _ _ | lock _ _ | sleep _ _ | wake _ => exact h.linear

theorem sound_of_runs {d : D} {as : List (Step C T)} {s : State C D T}
    (h : M.machine.Runs (State.start d) as (.ok s)) : Sound M d s := by
  refine h.preserves (I := fun _ s ↦ Sound M d s) ⟨?_, ?_, .nil⟩ ?_
  · intro t t' c c' ht
    cases ht
  · intro _ t c ht
    cases ht
  · intro _ s a s' hs he hp
    exact hs.does (does_of_perform he hp)

/-! ## Getting through -/

/-- The procedure does not have to wait. -/
def Ready (M : Monitor C D) (c : C) (d : D) : Prop := ∃ q, M.body c d = .ok (some q)

/-- Where `c` does not have to wait, no call makes it wait again. -/
def Stable (M : Monitor C D) (c : C) : Prop :=
  ∀ c' d d' b, M.body c' d = .ok (some (d', b)) → M.Ready c d → M.Ready c d'

section Returns

variable {d : D} {as : List (Step C T)} {s : State C D T} {t : T} {c : C}

theorem runs_perform (h : M.machine.Runs (State.start d) as (.ok s)) {a : Step C T}
    {s' : State C D T} (he : enabled s a) (hp : M.perform s a = .ok s') :
    M.machine.Runs (State.start d) (as ++ [a]) (.ok s') := h.then he hp

theorem exists_returned_of_inside (h : M.machine.Runs (State.start d) as (.ok s))
    (hc : s.place t = .inside c) (hready : M.Ready c s.data) :
    ∃ as' s', M.machine.Runs (State.start d) (as ++ as') (.ok s') ∧
      s'.returned = s.returned ++ [(t, c)] := by
  obtain ⟨q, hq⟩ := hready
  have he : enabled s (.run t) := ⟨c, hc⟩
  have hrun : M.perform s (.run t) = .ok (s.leave t c q.1 q.2) := by simp only [perform, hc, hq]
  exact ⟨[.run t], s.leave t c q.1 q.2, runs_perform h he hrun, rfl⟩

theorem exists_returned_of_free (h : M.machine.Runs (State.start d) as (.ok s)) (hfree : s.Free)
    (hc : s.place t = .entering c) (hready : M.Ready c s.data) :
    ∃ as' s', M.machine.Runs (State.start d) (as ++ as') (.ok s') ∧
      s'.returned = s.returned ++ [(t, c)] := by
  have hlock : M.perform s (.lock t) = .ok (s.move t (.inside c)) := by simp only [perform, hc]
  have he : enabled s (.lock t) := ⟨hfree, c, hc⟩
  have h' := runs_perform h he hlock
  obtain ⟨as', s', hrun, hret⟩ := exists_returned_of_inside h' (place_move_self ..) hready
  refine ⟨.lock t :: as', s', ?_, hret⟩
  rwa [List.append_assoc, List.singleton_append] at hrun

omit [DecidableEq T] in
/-- Where a call does not have to wait, somebody can go on: its thread, or the one that holds the
mutex. -/
theorem exists_enabled (hM : Announces M) (hs : Sound M d s) (hc : s.Calls t c)
    (hready : M.Ready c s.data) : ∃ a, a.Goes ∧ a.wakes = false ∧ enabled s a := by
  rcases hc with hc | hc | hc
  · by_cases hfree : s.Free
    · exact ⟨.lock t, trivial, rfl, hfree, c, hc⟩
    · rw [State.Free] at hfree
      push Not at hfree
      obtain ⟨t₁, c₁, h₁⟩ := hfree
      exact ⟨.run t₁, trivial, rfl, c₁, h₁⟩
  · exact ⟨.run t, trivial, rfl, c, hc⟩
  · obtain ⟨q, hq⟩ := hready
    cases (hs.drowsy hM t c hc).symm.trans hq

/-- A call that does not have to wait gets through: at most one other call, which holds the mutex
and does not fault, is before it. -/
theorem exists_returned (hM : Announces M) (hstable : Stable M c)
    (h : M.machine.Runs (State.start d) as (.ok s)) (hc : s.Calls t c)
    (hready : M.Ready c s.data) (hfine : ∀ c' f, M.body c' s.data ≠ .error f) :
    ∃ as' s' l, M.machine.Runs (State.start d) (as ++ as') (.ok s') ∧
      s'.returned = s.returned ++ l ++ [(t, c)] := by
  have hsound := sound_of_runs h
  rcases hc with hc | hc | hc
  · by_cases hfree : s.Free
    · obtain ⟨as', s', hrun, hret⟩ := exists_returned_of_free h hfree hc hready
      exact ⟨as', s', [], hrun, by rw [hret, List.append_nil]⟩
    · -- another thread holds the mutex and gives it back
      rw [State.Free] at hfree
      push Not at hfree
      obtain ⟨t₁, c₁, h₁⟩ := hfree
      have hne : t ≠ t₁ := by
        rintro rfl
        rw [hc] at h₁
        cases h₁
      have he : enabled s (.run t₁) := ⟨c₁, h₁⟩
      have hothers : ∀ t' c', s.place t' = .inside c' → t' = t₁ := fun t' c' h' ↦
        hsound.exclusive t' t₁ c' c₁ h' h₁
      cases hb : M.body c₁ s.data with
      | error f => exact absurd hb (hfine c₁ f)
      | ok o =>
          cases o with
          | none =>
              have hrun₁ : M.perform s (.run t₁) = .ok (s.move t₁ (.asleep c₁)) := by
                simp only [perform, h₁, hb]
              have h' := runs_perform h he hrun₁
              have hfree' : (s.move t₁ (.asleep c₁)).Free := by
                intro t' c' h'
                obtain ⟨hne', h'⟩ := inside_of_move (fun c hc ↦ by cases hc) h'
                exact hne' (hothers t' c' h')
              have hc' : (s.move t₁ (.asleep c₁)).place t = .entering c := by
                rw [place_move_of_ne hne, hc]
              obtain ⟨as', s', hrun, hret⟩ := exists_returned_of_free h' hfree' hc' hready
              refine ⟨.run t₁ :: as', s', [], ?_, by rw [hret, List.append_nil]; rfl⟩
              rwa [List.append_assoc, List.singleton_append] at hrun
          | some q =>
              have hrun₁ : M.perform s (.run t₁) = .ok (s.leave t₁ c₁ q.1 q.2) := by
                simp only [perform, h₁, hb]
              have h' := runs_perform h he hrun₁
              have hfree' : (s.leave t₁ c₁ q.1 q.2).Free := by
                intro t' c' h'
                obtain ⟨hne', h'⟩ := inside_of_leave h'
                exact hne' (hothers t' c' h')
              have hc' : (s.leave t₁ c₁ q.1 q.2).place t = .entering c := by
                rw [place_leave_of_ne hne, hc]
                split <;> rfl
              have hready' : M.Ready c q.1 := hstable c₁ s.data q.1 q.2 hb hready
              obtain ⟨as', s', hrun, hret⟩ := exists_returned_of_free h' hfree' hc' hready'
              refine ⟨.run t₁ :: as', s', [(t₁, c₁)], ?_, hret⟩
              rwa [List.append_assoc, List.singleton_append] at hrun
  · obtain ⟨as', s', hrun, hret⟩ := exists_returned_of_inside h hc hready
    exact ⟨as', s', [], hrun, by rw [hret, List.append_nil]⟩
  · obtain ⟨q, hq⟩ := hready
    cases (hsound.drowsy hM t c hc).symm.trans hq

end Returns

end Monitor

end RpcLearning
