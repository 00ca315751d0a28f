import Mathlib.Tactic

/-!
# Tokens and the gaps between them

A text is laid out from a list of tokens when it is these tokens in order, with a gap between any
two of them.  What a gap may be is a parameter; gaps next to each other are one gap.
-/

namespace RpcLearning.Layout

universe u

variable {α : Type u}

/-- What gaps are required to be. -/
structure Gaps (gap : List α → Prop) : Prop where
  nil : gap []
  append {g g' : List α} (h : gap g) (h' : gap g') : gap (g ++ g')

/-- The tokens with gaps between them. -/
inductive Between (gap : List α → Prop) : List (List α) → List α → Prop
  | single (t : List α) : Between gap [t] t
  | cons (t : List α) {g s : List α} {ts : List (List α)} (hg : gap g) (h : Between gap ts s) :
      Between gap (t :: ts) (t ++ g ++ s)

/-- The tokens with gaps between them and one behind. -/
def Laid (gap : List α → Prop) (ts : List (List α)) (s : List α) : Prop :=
  ∃ t g, s = t ++ g ∧ Between gap ts t ∧ gap g

variable {gap gap' : List α → Prop} {ts ts' : List (List α)} {g s s' : List α}

namespace Between

theorem ne_nil (h : Between gap ts s) : ts ≠ [] := by
  cases h with
  | single _ => exact List.cons_ne_nil _ _
  | cons _ _ _ => exact List.cons_ne_nil _ _

theorem mono (hgap : ∀ g, gap g → gap' g) (h : Between gap ts s) : Between gap' ts s := by
  induction h with
  | single t => exact .single t
  | cons t hg _ ih => exact .cons t (hgap _ hg) ih

/-- Gaps may be empty. -/
theorem flatten (hnil : gap []) (hts : ts ≠ []) : Between gap ts ts.flatten := by
  induction ts with
  | nil => exact absurd rfl hts
  | cons t ts ih =>
      by_cases htl : ts = []
      · subst htl
        rw [List.flatten_singleton]
        exact .single t
      · have h := Between.cons t hnil (ih htl)
        rwa [List.append_nil] at h

theorem append (h : Between gap ts s) (hg : gap g) (h' : Between gap ts' s') :
    Between gap (ts ++ ts') (s ++ g ++ s') := by
  induction h with
  | single t => exact .cons t hg h'
  | cons t ht _ ih =>
      have h := Between.cons t ht ih
      simpa only [List.append_assoc, List.cons_append] using h

theorem singleton_iff {t : List α} : Between gap [t] s ↔ s = t := by
  constructor
  · intro h
    cases h with
    | single _ => rfl
    | cons _ _ h => exact absurd rfl h.ne_nil
  · rintro rfl
    exact .single s

theorem of_cons {t : List α} (hts : ts ≠ []) (h : Between gap (t :: ts) s) :
    ∃ g s', s = t ++ g ++ s' ∧ gap g ∧ Between gap ts s' := by
  cases h with
  | single _ => exact absurd rfl hts
  | cons _ hg h => exact ⟨_, _, rfl, hg, h⟩

/-- A layout is cut where its tokens are. -/
theorem of_append (hts : ts ≠ []) (hts' : ts' ≠ []) (h : Between gap (ts ++ ts') s) :
    ∃ s₁ g s₂, s = s₁ ++ g ++ s₂ ∧ Between gap ts s₁ ∧ gap g ∧ Between gap ts' s₂ := by
  induction ts generalizing s with
  | nil => exact absurd rfl hts
  | cons t ts ih =>
      obtain ⟨g, s', rfl, hg, h⟩ := h.of_cons (List.append_ne_nil_of_right_ne_nil ts hts')
      by_cases htl : ts = []
      · subst htl
        exact ⟨t, g, s', rfl, .single t, hg, h⟩
      · obtain ⟨s₁, g', s₂, rfl, h₁, hg', h₂⟩ := ih htl h
        exact ⟨t ++ g ++ s₁, g', s₂, by simp, .cons t hg h₁, hg', h₂⟩

theorem laid (hgaps : Gaps gap) (h : Between gap ts s) : Laid gap ts s :=
  ⟨s, [], (List.append_nil s).symm, h, hgaps.nil⟩

end Between

namespace Laid

/-- More of a gap. -/
theorem append_gap (hgaps : Gaps gap) (h : Laid gap ts s) (hg : gap g) : Laid gap ts (s ++ g) := by
  obtain ⟨t, g', rfl, ht, hg'⟩ := h
  exact ⟨t, g' ++ g, List.append_assoc t g' g, ht, hgaps.append hg' hg⟩

theorem append_between (h : Laid gap ts s) (h' : Between gap ts' s') :
    Between gap (ts ++ ts') (s ++ s') := by
  obtain ⟨t, g, rfl, ht, hg⟩ := h
  exact ht.append hg h'

theorem append (h : Laid gap ts s) (h' : Laid gap ts' s') : Laid gap (ts ++ ts') (s ++ s') := by
  obtain ⟨t', g', rfl, ht', hg'⟩ := h'
  exact ⟨s ++ t', g', (List.append_assoc s t' g').symm, h.append_between ht', hg'⟩

end Laid

end RpcLearning.Layout
