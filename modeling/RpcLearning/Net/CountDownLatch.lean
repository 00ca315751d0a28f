import RpcLearning.Lib.Monitor

/-!
# The latch

`CountDownLatch` (`NetServer/CountDownLatch.cpp`): `wait` sleeps until `count_` is down to zero, and
the `countDown` that brings it there notifies.  It can be called any number of times, and `--count_`
overflows at the last.
-/

namespace RpcLearning.Net

inductive LatchCall where
  | wait
  | countDown
deriving DecidableEq, Repr

namespace CountDownLatch

open Monitor LatchCall

/-- `wait` and `countDown` on `count_`, which is an `int`. -/
def latch : Monitor LatchCall Int where
  body
    | .wait, count_ => .ok (if count_ ≤ 0 then some (count_, false) else none)
    | .countDown, count_ =>
      if -2 ^ 31 < count_ then .ok (some (count_ - 1, count_ - 1 = 0)) else .error .overflow

theorem body_wait_eq_none {count_ : Int} : latch.body .wait count_ = .ok none ↔ 0 < count_ := by
  rw [← not_le]
  simp [latch]

theorem body_wait_eq_some {count_ d : Int} {b : Bool} :
    latch.body .wait count_ = .ok (some (d, b)) ↔ count_ ≤ 0 ∧ d = count_ ∧ b = false := by
  simp [latch, eq_comm]

theorem ready_wait {count_ : Int} : latch.Ready .wait count_ ↔ count_ ≤ 0 := by
  constructor
  · rintro ⟨q, hq⟩
    exact (body_wait_eq_some.mp hq).1
  · exact fun h ↦ ⟨(count_, false), body_wait_eq_some.mpr ⟨h, rfl, rfl⟩⟩

theorem body_countDown_eq_some {count_ d : Int} {b : Bool} :
    latch.body .countDown count_ = .ok (some (d, b)) ↔
      -2 ^ 31 < count_ ∧ d = count_ - 1 ∧ b = decide (count_ - 1 = 0) := by
  simp only [latch]
  by_cases h : -2 ^ 31 < count_
  · rw [if_pos h]
    simp only [h, true_and, Except.ok.injEq, Option.some.injEq, Prod.mk.injEq, @eq_comm _ d,
      @eq_comm _ b]
  · rw [if_neg h]
    exact iff_of_false nofun fun hd ↦ h hd.1

/-- Only `--count_` can fault. -/
theorem body_eq_error {c : LatchCall} {count_ : Int} {f : Fault} :
    latch.body c count_ = .error f ↔ c = .countDown ∧ count_ ≤ -2 ^ 31 ∧ f = .overflow := by
  cases c with
  | wait => simp [latch]
  | countDown =>
      simp only [latch, true_and]
      by_cases h : -2 ^ 31 < count_
      · rw [if_pos h]
        exact iff_of_false nofun fun hf ↦ absurd h (not_lt.mpr hf.1)
      · rw [if_neg h]
        simp only [not_lt.mp h, true_and, Except.error.injEq, @eq_comm _ f]

theorem announces_latch : latch.Announces := by
  intro c c' d d' hb hc'
  cases c' with
  | countDown =>
      simp only [latch] at hc'
      split at hc' <;> cases hc'
  | wait =>
      rw [body_wait_eq_none] at hc' ⊢
      cases c with
      | wait =>
          rw [(body_wait_eq_some.mp hb).2.1]
          exact hc'
      | countDown =>
          obtain ⟨-, rfl, hne⟩ := body_countDown_eq_some.mp hb
          have hne := of_decide_eq_false hne.symm
          omega

theorem stable_wait : latch.Stable .wait := by
  intro c d d' b hb hw
  rw [ready_wait] at hw ⊢
  cases c with
  | wait =>
      rw [(body_wait_eq_some.mp hb).2.1]
      exact hw
  | countDown =>
      rw [(body_countDown_eq_some.mp hb).2.1]
      omega

/-- `count_` is what the calls of `countDown` have left of it. -/
theorem count_of_linear {count count_ : Int} {cs : List LatchCall}
    (h : latch.Linear count cs count_) : count_ = count - cs.count .countDown := by
  induction h with
  | nil => simp
  | @snoc cs d₁ _ c d₂ b hb ih =>
      rw [List.count_append]
      cases c with
      | wait =>
          rw [(body_wait_eq_some.mp hb).2.1, ih]
          simp
      | countDown =>
          rw [(body_countDown_eq_some.mp hb).2.1, ih]
          simp only [List.count_singleton_self]
          omega

variable {T : Type}

/-- The calls of `countDown` that have returned. -/
def downs (s : State LatchCall Int T) : Nat := (s.returned.map Prod.snd).count .countDown

theorem data_eq {count : Int} {s : State LatchCall Int T} (h : Sound latch count s) :
    s.data = count - downs s := count_of_linear h.linear

variable [DecidableEq T]

/-- A call of `wait` returns only after `count` calls of `countDown`; a thread sleeps only before
that; and after it every thread that waits can return, as long as `--count_` has room.  Nothing
faults before there is no room left. -/
theorem wait_of_runs {count : Int} {as : List (Step LatchCall T)} {s : State LatchCall Int T}
    (h : latch.machine.Runs (State.start count) as (.ok s)) :
    (∀ l t l', s.returned = l ++ (t, .wait) :: l' →
      count ≤ (l.map Prod.snd).count .countDown) ∧
    (∀ t, s.place t = .asleep .wait → downs s < count) ∧
    (count ≤ downs s → downs s < count + 2 ^ 31 → ∀ t, s.Calls t .wait →
      ∃ as' s' l, latch.machine.Runs (State.start count) (as ++ as') (.ok s') ∧
        s'.returned = s.returned ++ l ++ [(t, .wait)]) ∧
    ∀ a f, enabled s a → latch.perform s a = .error f → count + 2 ^ 31 ≤ downs s := by
  have hs := sound_of_runs h
  have hdata := data_eq hs
  refine ⟨?_, ?_, ?_, ?_⟩
  · intro l t l' hret
    have hlin := hs.linear
    rw [hret, List.map_append, List.map_cons] at hlin
    obtain ⟨d₁, d₂, b, hl, hb⟩ := hlin.of_append
    have hle := (body_wait_eq_some.mp hb).1
    rw [count_of_linear hl] at hle
    omega
  · intro t ht
    have hlt := body_wait_eq_none.mp (hs.drowsy announces_latch t .wait ht)
    omega
  · intro hle hlt t ht
    refine exists_returned announces_latch stable_wait h ht ?_ fun c f hf ↦ ?_
    · rw [ready_wait]
      omega
    · have hoverflow := (body_eq_error.mp hf).2.1
      omega
  · intro a f he hf
    rcases does_or_faults (M := latch) he with ⟨s', hp, -⟩ | ⟨t, c, f', -, -, hb, -⟩
    · cases hp.symm.trans hf
    · have hoverflow := (body_eq_error.mp hb).2.1
      omega

/-- A thread that finds the latch closed sleeps until another one opens it. -/
theorem wait_of_runs_opened :
    ∃ (as : List (Step LatchCall Bool)) (s : State LatchCall Int Bool),
      latch.machine.Runs (State.start 1) as (.ok s) ∧ s.returned = [(true, .countDown)] ∧
        ∃ as' s' l, latch.machine.Runs (State.start 1) (as ++ as') (.ok s') ∧
          s'.returned = s.returned ++ l ++ [(false, .wait)] := by
  have h₀ : latch.machine.Runs (State.start 1) [] (.ok (State.start 1 : State _ _ Bool)) := .nil
  have h₁ := runs_perform h₀ (a := .call false .wait) rfl rfl
  have h₂ := runs_perform h₁ (a := .lock false)
    ⟨fun t c h ↦ (by cases t <;> cases h), .wait, rfl⟩ rfl
  have h₃ := runs_perform h₂ (a := .run false) ⟨.wait, rfl⟩ rfl
  have h₄ := runs_perform h₃ (a := .call true .countDown) rfl rfl
  have h₅ := runs_perform h₄ (a := .lock true)
    ⟨fun t c h ↦ (by cases t <;> cases h), .countDown, rfl⟩ rfl
  have h₆ := runs_perform h₅ (a := .run true) ⟨.countDown, rfl⟩ rfl
  exact ⟨_, _, h₆, rfl, (wait_of_runs h₆).2.2.1 (by decide) (by decide) false (.inl rfl)⟩

end CountDownLatch

end RpcLearning.Net
