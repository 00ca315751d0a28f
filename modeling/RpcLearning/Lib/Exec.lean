import Mathlib

/-!
# Executions that can fault or throw

An execution either returns, leaves through an exception of type `ε`, or *faults*: an assertion
fails, an iterator moves past the end of its range, a signed number leaves its range, an object is
used after it was deleted, a function ends without the value it should return, or the bound of the
model's own recursion is used up.  A fault is the end
of the program, so nothing catches it; an exception can be caught or turned into another one on its
way out.
-/

universe u v w

namespace RpcLearning

/-- The ways in which a program stops without a result. -/
inductive Fault where
  | assertion
  | pastEnd
  | overflow
  | dangling
  | noReturn
  | fuel
deriving DecidableEq, Repr

/-- Why an execution did not return: a fault, or an exception on its way out. -/
inductive Stop (ε : Type u) where
  | fault (f : Fault)
  | thrown (e : ε)
deriving DecidableEq, Repr

/-- An execution that may fault or throw. -/
abbrev Exec (ε : Type u) (α : Type v) := Except (Stop ε) α

/-- An execution that may only fault. -/
abbrev Run (α : Type v) := Except Fault α

namespace Exec

variable {ε : Type u} {δ : Type w} {α β : Type v}

def fault (f : Fault) : Exec ε α := .error (.fault f)

def throw (e : ε) : Exec ε α := .error (.thrown e)

def assert (p : Prop) [Decidable p] : Exec ε PUnit.{v + 1} :=
  if p then .ok ⟨⟩ else .error (.fault .assertion)

/-- Replace the exception on its way out; faults pass unchanged. -/
def mapThrown (f : ε → δ) : Exec ε α → Exec δ α
  | .ok a => .ok a
  | .error (.fault x) => .error (.fault x)
  | .error (.thrown e) => .error (.thrown (f e))

/-- Catch every exception; what is left can only fault. -/
def catchAll (h : ε → Run α) : Exec ε α → Run α
  | .ok a => .ok a
  | .error (.fault x) => .error x
  | .error (.thrown e) => h e

/-- A faulting execution seen as one that could also throw. -/
def ofRun : Run α → Exec ε α
  | .ok a => .ok a
  | .error x => .error (.fault x)

section Bind

variable {σ : Type u}

@[simp] theorem ok_bind (a : α) (k : α → Except σ β) : (Except.ok a >>= k) = k a := rfl

@[simp] theorem error_bind (s : σ) (k : α → Except σ β) :
    ((Except.error s : Except σ α) >>= k) = Except.error s := rfl

/-- A sequence returns exactly when both of its halves do. -/
theorem bind_eq_ok {x : Except σ α} {k : α → Except σ β} {b : β} :
    (x >>= k) = .ok b ↔ ∃ a, x = .ok a ∧ k a = .ok b := by
  cases x with
  | ok a => simp
  | error s => simp

/-- A sequence stops in its first half, or in its second half after the first has returned. -/
theorem bind_eq_error {x : Except σ α} {k : α → Except σ β} {s : σ} :
    (x >>= k) = .error s ↔ x = .error s ∨ ∃ a, x = .ok a ∧ k a = .error s := by
  cases x with
  | ok a => simp
  | error t => simp

theorem bind_congr {x : Except σ α} {k l : α → Except σ β} (h : ∀ a, x = .ok a → k a = l a) :
    (x >>= k) = (x >>= l) := by
  cases x with
  | ok a => exact h a rfl
  | error s => rfl

/-- Where a fold returns, each of its steps has. -/
theorem forall_of_foldlM_eq_ok {g : β → α → Except σ β} {P : α → Prop}
    (h : ∀ b a b', g b a = .ok b' → P a) {as : List α} {b b' : β}
    (hb : as.foldlM g b = .ok b') : ∀ a ∈ as, P a := by
  induction as generalizing b with
  | nil => exact List.forall_mem_nil _
  | cons a as ih =>
      rw [List.foldlM_cons] at hb
      obtain ⟨b₁, h₁, hb⟩ := bind_eq_ok.mp hb
      exact List.forall_mem_cons.mpr ⟨h b a b₁ h₁, ih hb⟩

end Bind

@[simp] theorem throw_bind (e : ε) (k : α → Exec ε β) : (throw e >>= k) = throw e := rfl

@[simp] theorem mapThrown_throw (f : ε → δ) (e : ε) :
    mapThrown f (throw e : Exec ε α) = throw (f e) := rfl

@[simp] theorem ofRun_ok (a : α) : (ofRun (.ok a) : Exec ε α) = .ok a := rfl

@[simp] theorem assert_eq_ok {p : Prop} [Decidable p] {u : PUnit.{v + 1}} :
    (assert p : Exec ε PUnit) = .ok u ↔ p := by
  unfold assert
  split <;> simp_all

theorem assert_of {p : Prop} [Decidable p] (h : p) : (assert p : Exec ε PUnit.{v + 1}) = .ok ⟨⟩ :=
  if_pos h

@[simp] theorem mapThrown_ok (f : ε → δ) (a : α) : mapThrown f (.ok a : Exec ε α) = .ok a := rfl

@[simp] theorem mapThrown_fault (f : ε → δ) (x : Fault) :
    mapThrown f (.error (.fault x) : Exec ε α) = .error (.fault x) := rfl

@[simp] theorem mapThrown_thrown (f : ε → δ) (e : ε) :
    mapThrown f (.error (.thrown e) : Exec ε α) = .error (.thrown (f e)) := rfl

@[simp] theorem mapThrown_eq_ok {f : ε → δ} {x : Exec ε α} {a : α} :
    mapThrown f x = .ok a ↔ x = .ok a := by
  cases x with
  | ok b => simp
  | error s => cases s <;> simp

@[simp] theorem mapThrown_eq_fault {f : ε → δ} {x : Exec ε α} {y : Fault} :
    mapThrown f x = .error (.fault y) ↔ x = .error (.fault y) := by
  cases x with
  | ok b => simp
  | error s => cases s <;> simp

/-! ## What can be thrown -/

/-- Every exception that leaves `x` satisfies `P`. -/
def Throws (P : ε → Prop) (x : Exec ε α) : Prop := ∀ e, x = .error (.thrown e) → P e

@[simp] theorem throws_ok {P : ε → Prop} (a : α) : Throws P (.ok a : Exec ε α) := by
  simp [Throws]

@[simp] theorem throws_fault {P : ε → Prop} (f : Fault) :
    Throws P (.error (.fault f) : Exec ε α) := by
  simp [Throws]

@[simp] theorem throws_throw {P : ε → Prop} {e : ε} : Throws P (throw e : Exec ε α) ↔ P e := by
  simp [Throws, throw]

theorem Throws.bind {P : ε → Prop} {x : Exec ε α} {k : α → Exec ε β} (hx : Throws P x)
    (hk : ∀ a, Throws P (k a)) : Throws P (x >>= k) := by
  intro e h
  rcases bind_eq_error.mp h with h | ⟨a, -, h⟩
  · exact hx e h
  · exact hk a e h

theorem Throws.ite {P : ε → Prop} {p : Prop} [Decidable p] {x y : Exec ε α} (hx : Throws P x)
    (hy : Throws P y) : Throws P (if p then x else y) := by
  split
  · exact hx
  · exact hy

theorem Throws.mapThrown {P : ε → Prop} {Q : δ → Prop} {f : ε → δ} {x : Exec ε α}
    (hx : Throws P x) (hf : ∀ e, P e → Q (f e)) : Throws Q (mapThrown f x) := by
  intro e h
  cases x with
  | ok a => cases h
  | error s =>
      cases s with
      | fault y => cases h
      | thrown e' =>
          cases h
          exact hf e' (hx e' rfl)

theorem throws_assert {P : ε → Prop} {p : Prop} [Decidable p] :
    Throws P (assert p : Exec ε PUnit.{v + 1}) :=
  Throws.ite (throws_ok _) (throws_fault _)

theorem throws_ofRun {P : ε → Prop} (x : Run α) : Throws P (ofRun x : Exec ε α) := by
  cases x with
  | ok a => exact throws_ok a
  | error f => exact throws_fault f

/-! ## Executions that do not fault -/

/-- `x` returns, or throws an exception that satisfies `P`. -/
def Settles (P : ε → Prop) (x : Exec ε α) : Prop := (∃ a, x = .ok a) ∨ ∃ e, P e ∧ x = throw e

theorem settles_ok {P : ε → Prop} (a : α) : Settles P (.ok a : Exec ε α) := .inl ⟨a, rfl⟩

theorem settles_throw {P : ε → Prop} {e : ε} (h : P e) : Settles P (throw e : Exec ε α) :=
  .inr ⟨e, h, rfl⟩

theorem Settles.mono {P Q : ε → Prop} {x : Exec ε α} (hx : Settles P x) (h : ∀ e, P e → Q e) :
    Settles Q x := by
  rcases hx with ha | ⟨e, he, hx⟩
  · exact .inl ha
  · exact .inr ⟨e, h e he, hx⟩

theorem Settles.bind {P : ε → Prop} {x : Exec ε α} {k : α → Exec ε β} (hx : Settles P x)
    (hk : ∀ a, x = .ok a → Settles P (k a)) : Settles P (x >>= k) := by
  rcases hx with ⟨a, ha⟩ | ⟨e, he, hx⟩
  · rw [ha, ok_bind]
    exact hk a ha
  · rw [hx, throw_bind]
    exact settles_throw he

theorem Settles.ite {P : ε → Prop} {p : Prop} [Decidable p] {x y : Exec ε α}
    (hx : p → Settles P x) (hy : ¬ p → Settles P y) : Settles P (if p then x else y) := by
  by_cases h : p
  · rw [if_pos h]
    exact hx h
  · rw [if_neg h]
    exact hy h

theorem settles_ofRun {P : ε → Prop} {x : Run α} (h : ∃ a, x = .ok a) :
    Settles P (ofRun x : Exec ε α) := by
  obtain ⟨a, rfl⟩ := h
  exact settles_ok a

/-! ## Executions with a bound -/

/-- `x` is `y`, unless its bound was used up. -/
def Cut (x y : Exec ε α) : Prop := x ≠ .error (.fault .fuel) → y = x

theorem Cut.refl (x : Exec ε α) : Cut x x := fun _ ↦ rfl

theorem Cut.trans {x y z : Exec ε α} (h : Cut x y) (h' : Cut y z) : Cut x z := by
  intro hx
  have hy := h hx
  rw [← hy] at hx ⊢
  exact h' hx

theorem cut_fuel (y : Exec ε α) : Cut (.error (.fault .fuel)) y := fun h ↦ absurd rfl h

theorem Cut.bind {x y : Exec ε α} {k l : α → Exec ε β} (h : Cut x y) (hk : ∀ a, Cut (k a) (l a)) :
    Cut (x >>= k) (y >>= l) := by
  intro hx
  have hne : x ≠ .error (.fault .fuel) := by
    rintro rfl
    exact hx rfl
  rw [h hne]
  cases x with
  | ok a => exact hk a hx
  | error s => rfl

theorem Cut.mapThrown {x y : Exec ε α} (h : Cut x y) (f : ε → δ) :
    Cut (mapThrown f x) (mapThrown f y) := by
  intro hx
  have hne : x ≠ .error (.fault .fuel) := by
    rintro rfl
    exact hx rfl
  rw [h hne]

theorem Cut.ite {p : Prop} [Decidable p] {x y x' y' : Exec ε α} (h : Cut x y) (h' : Cut x' y') :
    Cut (if p then x else x') (if p then y else y') := by
  by_cases hp : p
  · rw [if_pos hp, if_pos hp]
    exact h
  · rw [if_neg hp, if_neg hp]
    exact h'

/-- An execution whose bound is raised step by step is the same from the first bound on that is
not used up. -/
theorem Cut.of_le {x : Nat → Exec ε α} (h : ∀ n, Cut (x n) (x (n + 1))) {m n : Nat} (hle : m ≤ n) :
    Cut (x m) (x n) := by
  induction n, hle using Nat.le_induction with
  | base => exact .refl _
  | succ n _ ih => exact ih.trans (h n)

end Exec

end RpcLearning
