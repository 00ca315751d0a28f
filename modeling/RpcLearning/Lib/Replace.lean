import RpcLearning.Lib.Exec

/-!
# Replacing every occurrence of a word

Searching a text for a word, and the loop that replaces the first occurrence until there is none.
The loop starts over after each replacement, so it also finds what a replacement has brought in; it
takes a bound on its rounds.
-/

universe u v

namespace RpcLearning

/-! ## Executions that return from some bound on -/

/-- From some bound on the execution returns `b`. -/
def Returns {β : Type v} (f : Nat → Run β) (b : β) : Prop := ∃ n, ∀ fuel ≥ n, f fuel = .ok b

namespace Returns

variable {β γ : Type v}

theorem ok (b : β) : Returns (fun _ ↦ .ok b) b := ⟨0, fun _ _ ↦ rfl⟩

theorem bind {f : Nat → Run β} {k : Nat → β → Run γ} {b : β} {c : γ} (hf : Returns f b)
    (hk : Returns (fun fuel ↦ k fuel b) c) : Returns (fun fuel ↦ f fuel >>= k fuel) c := by
  obtain ⟨m, hm⟩ := hf
  obtain ⟨n, hn⟩ := hk
  refine ⟨max m n, fun fuel hfuel ↦ ?_⟩
  show (f fuel >>= k fuel) = .ok c
  rw [hm fuel (le_of_max_le_left hfuel), Exec.ok_bind]
  exact hn fuel (le_of_max_le_right hfuel)

theorem exists_eq {f : Nat → Run β} {b : β} (h : Returns f b) : ∃ fuel, f fuel = .ok b := by
  obtain ⟨n, hn⟩ := h
  exact ⟨n, hn n le_rfl⟩

end Returns

namespace Replace

variable {α : Type u} [DecidableEq α]

/-! ## Searching -/

/-- The first place where `w` occurs. -/
def find (w : List α) : List α → Option Nat
  | [] => if w = [] then some 0 else none
  | a :: s => if w <+: a :: s then some 0 else (find w s).map (· + 1)

theorem find_eq_none {w s : List α} : find w s = none ↔ ¬ w <:+: s := by
  induction s with
  | nil => simp [find]
  | cons a s ih =>
      rw [List.infix_cons_iff, not_or, ← ih, find]
      by_cases h : w <+: a :: s
      · simp [h]
      · simp [h]

theorem find_eq_some {w s : List α} {n : Nat} (h : find w s = some n) :
    ∃ a b, s = a ++ w ++ b ∧ a.length = n := by
  induction s generalizing n with
  | nil =>
      by_cases hw : w = []
      · subst hw
        obtain rfl : 0 = n := by simpa [find] using h
        exact ⟨[], [], rfl, rfl⟩
      · simp [find, hw] at h
  | cons d s ih =>
      by_cases hd : w <+: d :: s
      · obtain rfl : 0 = n := by simpa [find, hd] using h
        obtain ⟨b, hb⟩ := hd
        exact ⟨[], b, hb.symm, rfl⟩
      · simp only [find, hd, if_false, Option.map_eq_some_iff] at h
        obtain ⟨m, hm, rfl⟩ := h
        obtain ⟨a, b, rfl, rfl⟩ := ih hm
        exact ⟨d :: a, b, rfl, rfl⟩

/-! ## Replacing -/

/-- `while((pos = str.find(w)) != npos) str.replace(pos, w.size(), v)` -/
def replaceAll : Nat → List α → List α → List α → Run (List α)
  | 0, _, _, _ => .error .fuel
  | fuel + 1, str, w, v =>
    match find w str with
    | none => .ok str
    | some pos => replaceAll fuel (str.take pos ++ v ++ str.drop (pos + w.length)) w v

theorem replaceAll_of_not_infix {w s : List α} (h : ¬ w <:+: s) (fuel : Nat) (v : List α) :
    replaceAll (fuel + 1) s w v = .ok s := by
  rw [replaceAll, find_eq_none.mpr h]

/-- One round replaces one occurrence. -/
theorem replaceAll_of_find {w a b : List α} (h : find w (a ++ w ++ b) = some a.length) (fuel : Nat)
    (v : List α) : replaceAll (fuel + 1) (a ++ w ++ b) w v = replaceAll fuel (a ++ v ++ b) w v := by
  have hdrop : (a ++ w ++ b).drop (a.length + w.length) = b := by
    rw [← List.length_append]
    exact List.drop_left
  have htake : (a ++ w ++ b).take a.length = a := by
    rw [List.append_assoc]
    exact List.take_left
  rw [replaceAll, h]
  simp only [hdrop, htake]

/-- A round ends the loop or replaces some occurrence. -/
theorem replaceAll_cases (w s v : List α) :
    (¬ w <:+: s ∧ ∀ fuel, replaceAll (fuel + 1) s w v = .ok s) ∨
      ∃ a b, s = a ++ w ++ b ∧
        ∀ fuel, replaceAll (fuel + 1) s w v = replaceAll fuel (a ++ v ++ b) w v := by
  cases h : find w s with
  | none =>
      have hs := find_eq_none.mp h
      exact .inl ⟨hs, fun fuel ↦ replaceAll_of_not_infix hs fuel v⟩
  | some n =>
      obtain ⟨a, b, rfl, rfl⟩ := find_eq_some h
      exact .inr ⟨a, b, rfl, fun fuel ↦ replaceAll_of_find h fuel v⟩

/-- What the loop leaves has no occurrence of the word. -/
theorem not_infix_of_replaceAll {fuel : Nat} {w s v r : List α}
    (h : replaceAll fuel s w v = .ok r) : ¬ w <:+: r := by
  induction fuel generalizing s with
  | zero => cases h
  | succ fuel ih =>
      rcases replaceAll_cases w s v with ⟨hs, he⟩ | ⟨a, b, rfl, he⟩
      · rw [he, Except.ok.injEq] at h
        exact h ▸ hs
      · rw [he] at h
        exact ih h

/-- A greater bound gives the same result. -/
theorem replaceAll_mono {m n : Nat} {w s v r : List α} (hle : m ≤ n)
    (h : replaceAll m s w v = .ok r) : replaceAll n s w v = .ok r := by
  induction m generalizing s n with
  | zero => cases h
  | succ m ih =>
      obtain ⟨n, rfl⟩ := Nat.exists_eq_add_of_le' (Nat.le_of_add_left_le hle)
      rcases replaceAll_cases w s v with ⟨hs, he⟩ | ⟨a, b, rfl, he⟩
      · rw [he] at h ⊢
        exact h
      · rw [he] at h ⊢
        exact ih (Nat.le_of_succ_le_succ hle) h

theorem returns_replaceAll {fuel : Nat} {w s v r : List α} (h : replaceAll fuel s w v = .ok r) :
    Returns (fun fuel ↦ replaceAll fuel s w v) r :=
  ⟨fuel, fun _ hle ↦ replaceAll_mono hle h⟩

end Replace

end RpcLearning
