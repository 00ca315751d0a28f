import Mathlib.Data.List.Induction

/-!
# The first of each

Of the elements of a list, those whose key none before them has.
-/

namespace RpcLearning

universe u v

variable {α : Type u} {β : Type v} [DecidableEq β] {key : α → β}

/-- Keep an element unless one with its key is kept already. -/
def firsts (key : α → β) (l : List α) : List α :=
  l.foldl (fun kept a ↦ if key a ∈ kept.map key then kept else kept ++ [a]) []

@[simp] theorem firsts_nil : firsts key [] = [] := rfl

theorem firsts_append_singleton (l : List α) (a : α) :
    firsts key (l ++ [a]) =
      if key a ∈ (firsts key l).map key then firsts key l else firsts key l ++ [a] := by
  rw [firsts, List.foldl_append]
  rfl

end RpcLearning
