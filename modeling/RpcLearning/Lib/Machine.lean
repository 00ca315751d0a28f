import RpcLearning.Lib.Exec

/-!
# Machines that may fault

A machine performs actions on states.  An action can be taken only where it is enabled, and
performing it can still fault.  A run is a sequence of actions taken one after the other; it ends
in a state, or in the fault of its last action.
-/

namespace RpcLearning

universe u v

structure Machine (S : Type u) (A : Type v) where
  enabled : S → A → Prop
  perform : S → A → Run S

namespace Machine

variable {S : Type u} {A : Type v}

/-- The machine that takes an action only where `G` allows it. -/
def restrict (M : Machine S A) (G : S → A → Prop) : Machine S A where
  enabled s a := M.enabled s a ∧ G s a
  perform := M.perform

/-- `Runs M s₀ as r`: the actions `as`, taken from `s₀`, end in `r`. -/
inductive Runs (M : Machine S A) (s₀ : S) : List A → Run S → Prop
  | nil : Runs M s₀ [] (.ok s₀)
  | snoc {as : List A} {s : S} (h : Runs M s₀ as (.ok s)) {a : A} (he : M.enabled s a) :
      Runs M s₀ (as ++ [a]) (M.perform s a)

variable {M : Machine S A} {s₀ : S} {as : List A} {r : Run S}

/-- An invariant, which may speak of the actions taken, holds after every run; and no run
faults. -/
theorem Runs.invariant {I : List A → S → Prop} (h : Runs M s₀ as r) (start : I [] s₀)
    (step : ∀ as s a, I as s → M.enabled s a →
      ∃ s', M.perform s a = .ok s' ∧ I (as ++ [a]) s') :
    ∃ s, r = .ok s ∧ I as s := by
  induction h with
  | nil => exact ⟨s₀, rfl, start⟩
  | snoc h he ih =>
      obtain ⟨s', hs, hi⟩ := ih
      cases hs
      exact step _ _ _ hi he

/-- The same where a step may end in the one fault `f`. -/
theorem Runs.invariant_or {I : List A → S → Prop} {f : Fault} (h : Runs M s₀ as r) (start : I [] s₀)
    (step : ∀ as s a, I as s → M.enabled s a →
      M.perform s a = .error f ∨ ∃ s', M.perform s a = .ok s' ∧ I (as ++ [a]) s') :
    r = .error f ∨ ∃ s, r = .ok s ∧ I as s := by
  induction h with
  | nil => exact .inr ⟨s₀, rfl, start⟩
  | snoc h he ih =>
      rcases ih with hf | ⟨s', hs, hi⟩
      · cases hf
      · cases hs
        exact step _ _ _ hi he

theorem Runs.of_restrict {G : S → A → Prop} (h : Runs (M.restrict G) s₀ as r) : Runs M s₀ as r := by
  induction h with
  | nil => exact .nil
  | snoc _ he ih => exact ih.snoc he.1

/-- The last action of a run. -/
theorem Runs.of_snoc {a : A} (h : Runs M s₀ (as ++ [a]) r) :
    ∃ s, Runs M s₀ as (.ok s) ∧ M.enabled s a ∧ M.perform s a = r := by
  generalize has : as ++ [a] = as' at h
  cases h with
  | nil => simp at has
  | snoc h he =>
      obtain ⟨rfl, rfl⟩ := List.append_singleton_inj.mp has
      exact ⟨_, h, he, rfl⟩

/-- A property of the actions taken and the state, which steps that do not fault preserve, holds of
every state that is reached. -/
theorem Runs.preserves {I : List A → S → Prop} {s : S} (h : Runs M s₀ as (.ok s))
    (start : I [] s₀) (step : ∀ as s a s', I as s → M.enabled s a → M.perform s a = .ok s' →
      I (as ++ [a]) s') : I as s := by
  generalize hr : (Except.ok s : Run S) = r at h
  induction h generalizing s with
  | nil =>
      cases hr
      exact start
  | snoc h he ih => exact step _ _ _ _ (ih rfl) he hr.symm

/-- An action more at the end, with its outcome computed. -/
theorem Runs.then {s s' : S} {a : A} (h : Runs M s₀ as (.ok s)) (he : M.enabled s a)
    (hp : M.perform s a = .ok s') : Runs M s₀ (as ++ [a]) (.ok s') :=
  hp ▸ h.snoc he

/-- Where runs are bounded, and one that is not at its goal can go on, the goal is reached. -/
theorem Runs.exists_goal {I : List A → S → Prop} {F : S → Prop} {n : Nat}
    (bound : ∀ as s, I as s → as.length ≤ n)
    (step : ∀ as s, I as s → ¬ F s →
      ∃ a s', M.enabled s a ∧ M.perform s a = .ok s' ∧ I (as ++ [a]) s')
    {s : S} (h : Runs M s₀ as (.ok s)) (hi : I as s) :
    ∃ as s, Runs M s₀ as (.ok s) ∧ I as s ∧ F s := by
  induction hk : n - as.length generalizing as s with
  | zero =>
      by_cases hf : F s
      · exact ⟨as, s, h, hi, hf⟩
      · obtain ⟨a, s', -, -, hi'⟩ := step as s hi hf
        have hlen := bound _ _ hi'
        rw [List.length_append, List.length_singleton] at hlen
        omega
  | succ k ih =>
      by_cases hf : F s
      · exact ⟨as, s, h, hi, hf⟩
      · obtain ⟨a, s', he, hp, hi'⟩ := step as s hi hf
        refine ih (h.then he hp) hi' ?_
        rw [List.length_append, List.length_singleton]
        omega

end Machine

end RpcLearning
