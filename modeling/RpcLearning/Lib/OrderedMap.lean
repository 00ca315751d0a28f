import Mathlib

/-!
# Ordered maps as sorted association lists

A map over an ordered key type is the list of its entries in strictly increasing key order, which
is also the order an iterator visits them in.  `emplace` is insertion that leaves an existing
entry alone.
-/

universe u v

namespace RpcLearning.OrderedMap

variable {K : Type u} {V : Type v}

/-- The keys of an association list, in order. -/
def keys (m : List (K × V)) : List K := m.map Prod.fst

@[simp] theorem keys_nil : keys ([] : List (K × V)) = [] := rfl

@[simp] theorem keys_cons (p : K × V) (m : List (K × V)) : keys (p :: m) = p.1 :: keys m := rfl

@[simp] theorem keys_append (m n : List (K × V)) : keys (m ++ n) = keys m ++ keys n :=
  List.map_append

variable [LinearOrder K]

/-- The keys increase strictly. -/
def Sorted (m : List (K × V)) : Prop := (keys m).Pairwise (· < ·)

instance (m : List (K × V)) : Decidable (Sorted m) :=
  inferInstanceAs (Decidable ((keys m).Pairwise (· < ·)))

/-- Insert an entry unless its key is present. -/
def emplace (k : K) (v : V) : List (K × V) → List (K × V)
  | [] => [(k, v)]
  | p :: m => if k < p.1 then (k, v) :: p :: m
      else if p.1 = k then p :: m
      else p :: emplace k v m

@[simp] theorem emplace_nil (k : K) (v : V) : emplace k v ([] : List (K × V)) = [(k, v)] := rfl

@[simp] theorem sorted_nil : Sorted ([] : List (K × V)) := List.Pairwise.nil

theorem sorted_cons {p : K × V} {m : List (K × V)} :
    Sorted (p :: m) ↔ (∀ k ∈ keys m, p.1 < k) ∧ Sorted m := by
  simp [Sorted]

/-- Emplacing adds the one key and drops none. -/
theorem mem_keys_emplace {k k' : K} {v : V} {m : List (K × V)} :
    k' ∈ keys (emplace k v m) ↔ k' = k ∨ k' ∈ keys m := by
  induction m with
  | nil => simp
  | cons p m ih =>
      by_cases hlt : k < p.1
      · simp [emplace, hlt]
      · by_cases heq : p.1 = k
        · subst heq
          simp [emplace]
        · simp only [emplace, hlt, heq, if_false, keys_cons, List.mem_cons, ih]
          tauto

theorem Sorted.emplace {m : List (K × V)} (h : Sorted m) (k : K) (v : V) :
    Sorted (emplace k v m) := by
  induction m with
  | nil => simp [Sorted]
  | cons p m ih =>
      obtain ⟨hp, hm⟩ := sorted_cons.mp h
      by_cases hlt : k < p.1
      · simp only [OrderedMap.emplace, hlt, if_true]
        refine sorted_cons.mpr ⟨?_, h⟩
        intro k' hk'
        rcases List.mem_cons.mp hk' with rfl | hk'
        · exact hlt
        · exact hlt.trans (hp k' hk')
      · by_cases heq : p.1 = k
        · simpa [OrderedMap.emplace, hlt, heq] using h
        · simp only [OrderedMap.emplace, hlt, heq, if_false]
          refine sorted_cons.mpr ⟨?_, ih hm⟩
          intro k' hk'
          rcases mem_keys_emplace.mp hk' with rfl | hk'
          · exact lt_of_le_of_ne (not_lt.mp hlt) heq
          · exact hp k' hk'

theorem Sorted.nodup_keys {m : List (K × V)} (h : Sorted m) : (keys m).Nodup :=
  List.Pairwise.imp (fun hlt ↦ ne_of_lt hlt) h

theorem perm_emplace {k : K} {v : V} {m : List (K × V)} (h : k ∉ keys m) :
    (emplace k v m).Perm ((k, v) :: m) := by
  induction m with
  | nil => exact .refl _
  | cons p m ih =>
      have hne : p.1 ≠ k := fun hc ↦ h (by simp [hc])
      have ih' := ih fun hk ↦ h (by simp [hk])
      by_cases hlt : k < p.1
      · rw [emplace, if_pos hlt]
      · rw [emplace, if_neg hlt, if_neg hne]
        exact (ih'.cons p).trans (.swap (k, v) p m)

/-- A map is determined by its entries. -/
theorem Sorted.eq_of_perm {m n : List (K × V)} (hm : Sorted m) (hn : Sorted n) (h : m.Perm n) :
    m = n := by
  have hasymm : ∀ p q : K × V, p ∈ m → q ∈ n → p.1 < q.1 → q.1 < p.1 → p = q :=
    fun _ _ _ _ hpq hqp ↦ absurd hpq hqp.asymm
  exact h.eq_of_pairwise hasymm (List.pairwise_map.mp hm) (List.pairwise_map.mp hn)

/-- Insert entries one after the other. -/
def emplaceAll (ps m : List (K × V)) : List (K × V) := ps.foldl (fun m p ↦ emplace p.1 p.2 m) m

@[simp] theorem emplaceAll_nil (m : List (K × V)) : emplaceAll [] m = m := rfl

@[simp] theorem emplaceAll_cons (p : K × V) (ps m : List (K × V)) :
    emplaceAll (p :: ps) m = emplaceAll ps (emplace p.1 p.2 m) := rfl

theorem Sorted.emplaceAll {m : List (K × V)} (h : Sorted m) (ps : List (K × V)) :
    Sorted (emplaceAll ps m) := by
  induction ps generalizing m with
  | nil => exact h
  | cons p ps ih => exact ih (h.emplace p.1 p.2)

/-- The next entry goes from those to come to those that are in. -/
theorem nodup_keys_emplace {k : K} {v : V} {ps m : List (K × V)}
    (h : (k :: (keys ps ++ keys m)).Nodup) : (keys ps ++ keys (emplace k v m)).Nodup := by
  have hk : k ∉ keys m := fun hc ↦ (List.nodup_cons.mp h).1 (List.mem_append_right _ hc)
  have hperm := ((perm_emplace (v := v) hk).map Prod.fst).append_left (keys ps)
  exact (hperm.trans List.perm_middle).nodup_iff.mpr h

/-- Fresh keys that differ from each other all get in. -/
theorem perm_emplaceAll {ps m : List (K × V)} (h : (keys ps ++ keys m).Nodup) :
    (emplaceAll ps m).Perm (ps ++ m) := by
  induction ps generalizing m with
  | nil => exact .refl _
  | cons p ps ih =>
      have hk : p.1 ∉ keys m := fun hc ↦ (List.nodup_cons.mp h).1 (List.mem_append_right _ hc)
      refine (ih (nodup_keys_emplace h)).trans ?_
      exact ((perm_emplace hk).append_left ps).trans List.perm_middle

/-- A map can be built from its entries in any order. -/
theorem Sorted.emplaceAll_eq {m ps : List (K × V)} (h : Sorted m) (hp : ps.Perm m) :
    OrderedMap.emplaceAll ps [] = m := by
  have hn : (keys ps ++ keys ([] : List (K × V))).Nodup := by
    rw [keys_nil, List.append_nil]
    exact (hp.map Prod.fst).nodup_iff.mpr h.nodup_keys
  have hperm := perm_emplaceAll hn
  rw [List.append_nil] at hperm
  exact (sorted_nil.emplaceAll ps).eq_of_perm h (hperm.trans hp)

/-! ## Lookup -/

/-- The value under a key. -/
def find (k : K) : List (K × V) → Option V
  | [] => none
  | p :: m => if p.1 = k then some p.2 else find k m

@[simp] theorem find_nil (k : K) : find k ([] : List (K × V)) = none := rfl

/-- A key is found exactly when it is present. -/
theorem find_eq_none {k : K} {m : List (K × V)} : find k m = none ↔ k ∉ keys m := by
  induction m with
  | nil => simp
  | cons p m ih =>
      by_cases h : p.1 = k
      · simp [find, h]
      · simp [find, h, ih, Ne.symm h]

theorem find_isSome {k : K} {m : List (K × V)} : (find k m).isSome ↔ k ∈ keys m := by
  rw [← not_iff_not, Bool.not_eq_true, Option.isSome_eq_false_iff, Option.isNone_iff_eq_none,
    find_eq_none]

theorem mem_of_find {k : K} {v : V} {m : List (K × V)} (h : find k m = some v) : (k, v) ∈ m := by
  induction m with
  | nil => simp at h
  | cons p m ih =>
      by_cases hp : p.1 = k
      · simp only [find, hp, if_true, Option.some.injEq] at h
        subst hp h
        exact List.mem_cons_self
      · simp only [find, hp, if_false] at h
        exact List.mem_cons_of_mem _ (ih h)

theorem find_emplace_self {k : K} {m : List (K × V)} (h : find k m = none) (v : V) :
    find k (emplace k v m) = some v := by
  induction m with
  | nil => simp [find]
  | cons p m ih =>
      have hne : p.1 ≠ k := fun heq ↦ by simp [find, heq] at h
      have hm : find k m = none := by rwa [find, if_neg hne] at h
      by_cases hlt : k < p.1
      · simp [emplace, hlt, find]
      · simp [emplace, hlt, hne, find, ih hm]

theorem find_emplace_of_ne {k k' : K} (hne : k' ≠ k) (v : V) (m : List (K × V)) :
    find k' (emplace k v m) = find k' m := by
  induction m with
  | nil => simp [find, Ne.symm hne]
  | cons p m ih =>
      by_cases hlt : k < p.1
      · simp [emplace, hlt, find, Ne.symm hne]
      · by_cases heq : p.1 = k
        · simp [emplace, heq]
        · simp [emplace, hlt, heq, find, ih]

/-! ## Assignment and removal -/

/-- `m[k] = v`: insert an entry, or replace the one under the key. -/
def assign (k : K) (v : V) : List (K × V) → List (K × V)
  | [] => [(k, v)]
  | p :: m => if k < p.1 then (k, v) :: p :: m
      else if p.1 = k then (k, v) :: m
      else p :: assign k v m

/-- Remove the entry under a key, if there is one. -/
def erase (k : K) (m : List (K × V)) : List (K × V) := m.filter fun p ↦ p.1 ≠ k

/-- Assigning makes the new value findable and leaves the other keys as they were. -/
theorem find_assign {k k' : K} {v : V} {m : List (K × V)} :
    find k' (assign k v m) = if k = k' then some v else find k' m := by
  induction m with
  | nil => simp [assign, find]
  | cons p m ih =>
      by_cases hlt : k < p.1
      · simp [assign, hlt, find]
      · by_cases heq : p.1 = k
        · by_cases hk : k = k'
          · simp [assign, heq, find, hk]
          · simp [assign, heq, find, hk]
        · by_cases hp : p.1 = k'
          · subst hp
            simp [assign, hlt, heq, find, Ne.symm heq]
          · simp [assign, hlt, heq, find, hp, ih]

/-- Erasing removes the one key and leaves the others as they were. -/
theorem find_erase {k k' : K} {m : List (K × V)} :
    find k' (erase k m) = if k = k' then none else find k' m := by
  induction m with
  | nil => simp [erase]
  | cons p m ih =>
      rw [erase] at ih
      by_cases heq : p.1 = k
      · by_cases hk : k = k'
        · simpa [erase, heq, hk] using ih
        · simpa [erase, heq, hk, find] using ih
      · by_cases hp : p.1 = k'
        · subst hp
          simp [erase, heq, find, Ne.symm heq]
        · simpa [erase, heq, find, hp] using ih

end RpcLearning.OrderedMap
