import Mathlib.Logic.Function.Basic
import Mathlib.Data.List.Basic

/-!
# Parties that follow a script

A party acts on messages, which wait in queues until they are run.  It follows a script when the
messages of the script are run in its order, and of those that are left only the next one may be
waiting, in one place.  The queues hold messages of others too.
-/

namespace RpcLearning

universe u v

variable {ι : Type u} {μ : Type v} [DecidableEq ι] [DecidableEq μ]

/-- Of the messages of `script`, the first `n` were run, and the next one waits at `place`, or
nowhere. -/
structure Follows (script : List μ) (n : Nat) (ran : List μ) (q : ι → List μ)
    (place : Option ι) : Prop where
  ran : ran.filter (· ∈ script) = script.take n
  waiting : ∀ x, (q x).filter (· ∈ script) = if place = some x then script[n]?.toList else []

namespace Follows

variable {script ran : List μ} {n : Nat} {q : ι → List μ} {place : Option ι}

/-- Before anything is sent to the party. -/
theorem start (hr : ∀ m ∈ ran, m ∉ script) (hq : ∀ x, ∀ m ∈ q x, m ∉ script) :
    Follows script 0 ran q none where
  ran := by
    rw [List.take_zero, List.filter_eq_nil_iff]
    intro m hm
    simpa using hr m hm
  waiting := by
    intro x
    rw [if_neg (by simp), List.filter_eq_nil_iff]
    intro m hm
    simpa using hq x m hm

/-- What is waiting for the party is the next message, at its place. -/
theorem next (h : Follows script n ran q place) {x : ι} {m : μ} (hq : m ∈ q x)
    (hm : m ∈ script) : place = some x ∧ script[n]? = some m := by
  have hmem : m ∈ (q x).filter (· ∈ script) := by simpa using ⟨hq, hm⟩
  rw [h.waiting x] at hmem
  split at hmem
  next hp => exact ⟨hp, Option.mem_toList.mp hmem⟩
  next => cases hmem

/-- The next message is at its place. -/
theorem mem_queue {x : ι} {m : μ} (h : Follows script n ran q (some x))
    (hm : script[n]? = some m) : m ∈ q x := by
  have hmem : m ∈ (q x).filter (· ∈ script) := by
    rw [h.waiting x, if_pos rfl, hm]
    exact List.mem_singleton_self m
  exact (List.mem_filter.mp hmem).1

/-- The next message is run. -/
theorem run (h : Follows script n ran q place) {x : ι} {m : μ} {rest : List μ}
    (hq : q x = m :: rest) (hm : m ∈ script) :
    Follows script (n + 1) (ran ++ [m]) (Function.update q x rest) none := by
  obtain ⟨hp, hn⟩ := h.next (x := x) (m := m) (by rw [hq]; exact List.mem_cons_self) hm
  constructor
  · rw [List.take_add_one, hn, List.filter_append, h.ran]
    simp [hm]
  · intro y
    rw [if_neg (by simp)]
    by_cases hy : y = x
    · subst hy
      -- the message was all that was waiting
      have hw := h.waiting y
      rw [hq, if_pos hp, hn, List.filter_cons_of_pos (by simpa using hm)] at hw
      rw [Function.update_self]
      exact (List.cons.inj hw).2
    · have hne : place ≠ some y := by
        rw [hp]
        exact fun he ↦ hy (Option.some.inj he).symm
      rw [Function.update_of_ne hy, h.waiting y, if_neg hne]

/-- A message of another party is run. -/
theorem pass (h : Follows script n ran q place) {x : ι} {m : μ} {rest : List μ}
    (hq : q x = m :: rest) (hm : m ∉ script) :
    Follows script n (ran ++ [m]) (Function.update q x rest) place := by
  constructor
  · rw [List.filter_append, h.ran]
    simp [hm]
  · intro y
    by_cases hy : y = x
    · subst hy
      have hw := h.waiting y
      rw [hq, List.filter_cons_of_neg (by simpa using hm)] at hw
      rw [Function.update_self]
      exact hw
    · rw [Function.update_of_ne hy, h.waiting y]

/-- Messages for others are put into a queue. -/
theorem insert (h : Follows script n ran q place) {x : ι} {l r ms : List μ} (hq : q x = l ++ r)
    (hms : ∀ m ∈ ms, m ∉ script) :
    Follows script n ran (Function.update q x (l ++ ms ++ r)) place := by
  refine ⟨h.ran, fun y ↦ ?_⟩
  by_cases hy : y = x
  · subst hy
    have hnil : ms.filter (· ∈ script) = [] := by
      rw [List.filter_eq_nil_iff]
      intro m hm
      simpa using hms m hm
    have hw := h.waiting y
    rw [hq, List.filter_append] at hw
    rw [Function.update_self, List.filter_append, List.filter_append, hnil, List.append_nil]
    exact hw
  · rw [Function.update_of_ne hy, h.waiting y]

/-- The next message is put into a queue. -/
theorem send (h : Follows script n ran q none) {x : ι} {l r : List μ} {m : μ} (hq : q x = l ++ r)
    (hm : script[n]? = some m) :
    Follows script n ran (Function.update q x (l ++ [m] ++ r)) (some x) := by
  have hmem : m ∈ script := List.mem_of_getElem? hm
  refine ⟨h.ran, fun y ↦ ?_⟩
  have hw := h.waiting y
  rw [if_neg (by simp)] at hw
  by_cases hy : y = x
  · subst hy
    rw [hq, List.filter_append, List.append_eq_nil_iff] at hw
    rw [Function.update_self, if_pos rfl, hm, List.filter_append, List.filter_append, hw.1, hw.2]
    simp [hmem]
  · rw [Function.update_of_ne hy, hw, if_neg fun he ↦ hy (Option.some.inj he).symm]

/-- A message is run as often as it stands among the first `n` of the script. -/
theorem count_ran (h : Follows script n ran q place) {m : μ} (hm : m ∈ script) :
    ran.count m = (script.take n).count m := by
  rw [← h.ran, List.count_filter]
  simpa using hm

theorem mem_ran (h : Follows script n ran q place) {m : μ} (hm : m ∈ script) :
    m ∈ ran ↔ m ∈ script.take n := by
  rw [← h.ran, List.mem_filter]
  simp [hm]

end Follows

end RpcLearning
