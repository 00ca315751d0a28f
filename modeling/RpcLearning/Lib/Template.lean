import RpcLearning.Lib.Replace

/-!
# Templates

Texts with named placeholders in brackets, which are filled by replacing one placeholder after the
other.  The replacements do not know what came from the template and what was filled in before, so
they give the simultaneous substitution exactly when no value contains the placeholder that is
replaced with it or after it.
-/

universe u

namespace RpcLearning

open Replace

/-- The two brackets, and the characters that names are made of. -/
structure Brackets (α : Type u) where
  opening : α
  closing : α
  letter : α → Bool
  ne : opening ≠ closing
  letter_opening : letter opening = false
  letter_closing : letter closing = false

namespace Brackets

variable {α : Type u}

abbrev Name (B : Brackets α) := {p : List α // ∀ a ∈ p, B.letter a}

variable {B : Brackets α}

theorem opening_notMem (p : B.Name) : B.opening ∉ p.val := by
  intro h
  have hl := p.property _ h
  rw [B.letter_opening] at hl
  cases hl

theorem closing_notMem (p : B.Name) : B.closing ∉ p.val := by
  intro h
  have hl := p.property _ h
  rw [B.letter_closing] at hl
  cases hl

variable (B) in
/-- A name in brackets. -/
def hole (p : B.Name) : List α := B.opening :: (p.val ++ [B.closing])

/-! ## Where placeholders can be -/

/-- A placeholder that comes first. -/
theorem hole_append_inj {p q : B.Name} {b y : List α} (h : B.hole p ++ b = B.hole q ++ y) :
    p = q ∧ b = y := by
  simp only [hole, List.cons_append, List.append_assoc, List.nil_append, List.cons.injEq,
    true_and] at h
  rcases List.append_eq_append_iff.mp h with ⟨as, hq, hb⟩ | ⟨bs, hp, hy⟩
  · cases as with
    | nil =>
        rw [List.append_nil] at hq
        exact ⟨Subtype.ext hq.symm, (List.cons.inj hb).2⟩
    | cons a as =>
        obtain rfl : B.closing = a := (List.cons.inj hb).1
        refine absurd ?_ (closing_notMem q)
        rw [hq]
        simp
  · cases bs with
    | nil =>
        rw [List.append_nil] at hp
        exact ⟨Subtype.ext hp, (List.cons.inj hy).2.symm⟩
    | cons a bs =>
        obtain rfl : B.closing = a := (List.cons.inj hy).1
        refine absurd ?_ (closing_notMem p)
        rw [hp]
        simp

/-- A placeholder that comes first is behind whatever else a text starts with, or in it. -/
theorem hole_append_eq {p q : B.Name} {b m y : List α}
    (h : B.hole p ++ b = m ++ (B.hole q ++ y)) :
    (m = [] ∧ p = q ∧ b = y) ∨ ∃ m', m = B.hole p ++ m' ∧ b = m' ++ (B.hole q ++ y) := by
  rcases List.append_eq_append_iff.mp h with ⟨as, hm, hb⟩ | ⟨bs, hp, hy⟩
  · exact .inr ⟨as, hm, hb⟩
  · cases m with
    | nil =>
        obtain ⟨hpq, hby⟩ := hole_append_inj h
        exact .inl ⟨rfl, hpq, hby⟩
    | cons a m =>
        cases bs with
        | nil =>
            rw [List.append_nil] at hp
            exact .inr ⟨[], by rw [hp, List.append_nil], hy.symm⟩
        | cons d bs =>
            -- the second placeholder would open inside the first
            obtain rfl : B.opening = d := (List.cons.inj hy).1
            have hmem : B.opening ∈ p.val ++ [B.closing] := by
              rw [(List.cons.inj hp).2]
              simp
            rcases List.mem_append.mp hmem with hmem | hmem
            · exact absurd hmem (opening_notMem p)
            · exact absurd (List.mem_singleton.mp hmem) B.ne

/-- Two placeholders in one text are the same or apart. -/
theorem hole_cases {p q : B.Name} {a b x y : List α}
    (h : a ++ (B.hole p ++ b) = x ++ (B.hole q ++ y)) :
    (a = x ∧ p = q ∧ b = y) ∨ (∃ m, x = a ++ (B.hole p ++ m) ∧ b = m ++ (B.hole q ++ y)) ∨
      ∃ m, a = x ++ (B.hole q ++ m) ∧ y = m ++ (B.hole p ++ b) := by
  rcases List.append_eq_append_iff.mp h with ⟨as, hx, hb⟩ | ⟨bs, ha, hy⟩
  · rcases hole_append_eq hb with ⟨rfl, hpq, hby⟩ | ⟨m, rfl, hbm⟩
    · exact .inl ⟨by rw [hx, List.append_nil], hpq, hby⟩
    · exact .inr (.inl ⟨m, hx, hbm⟩)
  · rcases hole_append_eq hy with ⟨rfl, hpq, hby⟩ | ⟨m, rfl, hym⟩
    · exact .inl ⟨by rw [ha, List.append_nil], hpq.symm, hby.symm⟩
    · exact .inr (.inr ⟨m, ha, hym⟩)

/-- Whatever is put in the place of a placeholder, the other ones stay. -/
theorem hole_infix_of_ne {p q : B.Name} (hne : p ≠ q) {x y v : List α}
    (h : B.hole p <:+: x ++ (B.hole q ++ y)) : B.hole p <:+: x ++ (v ++ y) := by
  obtain ⟨a, b, h⟩ := h
  rw [List.append_assoc] at h
  rcases hole_cases h with ⟨-, hpq, -⟩ | ⟨m, rfl, -⟩ | ⟨m, -, rfl⟩
  · exact absurd hpq hne
  · exact ⟨a, m ++ (v ++ y), by simp⟩
  · exact ⟨x ++ (v ++ m), b, by simp⟩

theorem hole_infix_hole {p q : B.Name} (h : B.hole p <:+: B.hole q) : p = q := by
  obtain ⟨a, b, h⟩ := h
  have h' : a ++ (B.hole p ++ b) = [] ++ (B.hole q ++ []) := by simpa using h
  rcases hole_cases h' with ⟨-, hpq, -⟩ | ⟨m, hx, -⟩ | ⟨m, -, hy⟩
  · exact hpq
  · simp [hole] at hx
  · simp [hole] at hy

theorem not_hole_infix_nil (p : B.Name) : ¬ B.hole p <:+: [] := by
  rw [List.infix_nil]
  exact List.cons_ne_nil _ _

/-! ## Where no placeholder can come about -/

variable (B) in
/-- No bracket is open at the end. -/
def Closed (x : List α) : Prop := ∀ w, B.opening :: w <:+ x → ∃ a ∈ w, B.letter a = false

variable (B) in
/-- The text does not start with what could end a placeholder. -/
def Stops (y : List α) : Prop := ∀ a ∈ y.head?, B.letter a = false ∧ a ≠ B.closing

instance [DecidableEq α] (y : List α) : Decidable (B.Stops y) :=
  inferInstanceAs (Decidable (∀ a ∈ y.head?, _ ∧ _))

theorem stops_nil : B.Stops [] := by
  intro a ha
  cases ha

theorem Stops.append {x y : List α} (hx : B.Stops x) (hy : B.Stops y) : B.Stops (x ++ y) := by
  cases x with
  | nil => exact hy
  | cons a x => exact hx

theorem Stops.append_right {x : List α} (hx : B.Stops x) (hne : x ≠ []) (y : List α) :
    B.Stops (x ++ y) := by
  obtain ⟨a, t, rfl⟩ := List.exists_cons_of_ne_nil hne
  exact hx

/-- Between two texts no placeholder comes about. -/
theorem hole_infix_append {x y : List α} (h : B.Closed x ∨ B.Stops y) {p : B.Name} :
    B.hole p <:+: x ++ y ↔ B.hole p <:+: x ∨ B.hole p <:+: y := by
  rw [List.infix_append_iff_ne_nil]
  refine or_congr_right (or_iff_left ?_)
  rintro ⟨l₁, l₂, h₁, h₂, he, hs, hp⟩
  obtain ⟨a, w, rfl⟩ := List.exists_cons_of_ne_nil h₁
  rw [hole, List.cons_append] at he
  obtain ⟨rfl, hsplit⟩ := List.cons.inj he
  -- the name and its closing bracket are split between the two texts
  obtain ⟨u, hu, hw⟩ : ∃ u, l₂ = u ++ [B.closing] ∧ p.val = w ++ u := by
    rcases List.append_eq_append_iff.mp hsplit with ⟨as, hw, hc⟩ | ⟨bs, hp, hl⟩
    · rcases List.append_eq_singleton_iff.mp hc.symm with ⟨rfl, rfl⟩ | ⟨-, hl⟩
      · exact ⟨[], rfl, by simpa using hw.symm⟩
      · exact absurd hl h₂
    · exact ⟨bs, hl, hp⟩
  rcases h with h | h
  · obtain ⟨a, ha, hl⟩ := h w hs
    have hmem := p.property a (by rw [hw]; exact List.mem_append_left u ha)
    rw [hl] at hmem
    cases hmem
  · obtain ⟨z, rfl⟩ := hp
    subst hu
    cases u with
    | nil => exact (h B.closing (by simp)).2 rfl
    | cons d u =>
        have hmem := p.property d (by rw [hw]; simp)
        rw [(h d (by simp)).1] at hmem
        cases hmem

/-- A text without a closing bracket does not end a placeholder. -/
theorem hole_infix_append_of_notMem {x y : List α} (hy : B.closing ∉ y) {p : B.Name} :
    B.hole p <:+: x ++ y ↔ B.hole p <:+: x := by
  rw [List.infix_append_iff_ne_nil]
  refine or_iff_left ?_
  have hmem : B.closing ∈ B.hole p := by simp [hole]
  rintro (h | ⟨l₁, l₂, -, h₂, he, -, hp⟩)
  · exact hy (h.subset hmem)
  · refine hy (hp.subset ?_)
    have hlast := congrArg List.getLast? he
    rw [hole, ← List.cons_append, List.getLast?_concat,
      List.getLast?_append_of_ne_nil _ h₂] at hlast
    exact List.mem_of_getLast? hlast.symm

section Sealed

variable [DecidableEq α]

variable (B) in
/-- No bracket opens a placeholder, nor one that the text ends in. -/
def isSealed : List α → Bool
  | [] => true
  | a :: s =>
    (a ≠ B.opening || (s.dropWhile B.letter).head?.any (· ≠ B.closing)) && isSealed s

theorem isSealed_of_suffix {x y : List α} (h : x <:+ y) (hy : B.isSealed y) : B.isSealed x := by
  induction y with
  | nil => rwa [List.suffix_nil.mp h]
  | cons a y ih =>
      rcases List.suffix_cons_iff.mp h with rfl | h
      · exact hy
      · rw [isSealed, Bool.and_eq_true] at hy
        exact ih h hy.2

theorem closed_of_isSealed {x : List α} (h : B.isSealed x) : B.Closed x := by
  intro w hw
  have hs := isSealed_of_suffix hw h
  simp only [isSealed, ne_eq, not_true_eq_false, decide_false, Bool.false_or, Bool.and_eq_true,
    Option.any_eq_true] at hs
  obtain ⟨⟨a, ha, -⟩, -⟩ := hs
  have hl := List.head?_dropWhile_not B.letter w
  rw [ha] at hl
  exact ⟨a, List.dropWhile_subset _ (List.mem_of_mem_head? ha), by simpa using hl⟩

theorem not_hole_infix_of_isSealed {x : List α} (h : B.isSealed x) (p : B.Name) :
    ¬ B.hole p <:+: x := by
  rintro ⟨a, b, rfl⟩
  have hs := isSealed_of_suffix (x := B.hole p ++ b) ⟨a, by simp⟩ h
  have hdrop : (p.val ++ B.closing :: b).dropWhile B.letter = B.closing :: b := by
    rw [List.dropWhile_append_of_pos p.property, List.dropWhile_cons, B.letter_closing]
    rfl
  rw [hole, List.cons_append, isSealed, List.append_assoc, List.singleton_append, hdrop] at hs
  simp at hs

end Sealed

/-! ## Replacing placeholders -/

section Loop

variable [DecidableEq α]

/-- The first placeholder of its name is found where it stands. -/
theorem find_hole {p : B.Name} {a : List α} (ha : ¬ B.hole p <:+: a) (b : List α) :
    find (B.hole p) (a ++ B.hole p ++ b) = some a.length := by
  induction a with
  | nil =>
      have hp : B.hole p <+: B.hole p ++ b := List.prefix_append _ _
      rw [List.nil_append]
      rw [hole, List.cons_append] at hp ⊢
      rw [find, if_pos hp]
      rfl
  | cons d a ih =>
      have hd : ¬ B.hole p <+: d :: (a ++ B.hole p ++ b) := by
        rintro ⟨y, hy⟩
        have h : [] ++ (B.hole p ++ y) = (d :: a) ++ (B.hole p ++ b) := by simpa using hy
        rcases hole_cases h with ⟨h, -, -⟩ | ⟨m, h, -⟩ | ⟨m, h, -⟩
        · cases h
        · exact ha ⟨[], m, by rw [h]; simp⟩
        · simp [hole] at h
      rw [List.cons_append, List.cons_append, find, if_neg hd]
      rw [ih fun h ↦ ha (h.trans (List.infix_cons (List.infix_refl a)))]
      rfl

/-- Replacing one placeholder keeps the others. -/
theorem hole_infix_replaceAll {p q : B.Name} (hne : p ≠ q) {fuel : Nat} {s v r : List α}
    (hs : B.hole p <:+: s) (h : replaceAll fuel s (B.hole q) v = .ok r) : B.hole p <:+: r := by
  induction fuel generalizing s with
  | zero => cases h
  | succ fuel ih =>
      rcases replaceAll_cases (B.hole q) s v with ⟨-, he⟩ | ⟨a, b, rfl, he⟩
      · rw [he, Except.ok.injEq] at h
        exact h ▸ hs
      · rw [he] at h
        rw [List.append_assoc] at hs
        refine ih ?_ h
        rw [List.append_assoc]
        exact hole_infix_of_ne hne hs

/-- A placeholder in the value of another one gets into the text. -/
theorem hole_infix_replaceAll_value {p q : B.Name} (hne : p ≠ q) {fuel : Nat} {s v r : List α}
    (hs : B.hole q <:+: s) (hv : B.hole p <:+: v) (h : replaceAll fuel s (B.hole q) v = .ok r) :
    B.hole p <:+: r := by
  cases fuel with
  | zero => cases h
  | succ fuel =>
      rcases replaceAll_cases (B.hole q) s v with ⟨hn, -⟩ | ⟨a, b, rfl, he⟩
      · exact absurd hs hn
      · rw [he] at h
        exact hole_infix_replaceAll hne (hv.trans (List.infix_append a v b)) h

/-- One placeholder after the other. -/
def replaceEach (fuel : Nat) : List α → List (B.Name × List α) → Run (List α)
  | str, [] => .ok str
  | str, (p, v) :: rs => do
    let str ← replaceAll fuel str (B.hole p) v
    replaceEach fuel str rs

theorem hole_infix_replaceEach {p : B.Name} {fuel : Nat} {s r : List α}
    {rs : List (B.Name × List α)} (hp : p ∉ rs.map Prod.fst) (hs : B.hole p <:+: s)
    (h : replaceEach fuel s rs = .ok r) : B.hole p <:+: r := by
  induction rs generalizing s with
  | nil =>
      cases h
      exact hs
  | cons q rs ih =>
      rw [List.map_cons, List.mem_cons, not_or] at hp
      rw [replaceEach, Exec.bind_eq_ok] at h
      obtain ⟨s', hs', h⟩ := h
      exact ih hp.2 (hole_infix_replaceAll hp.1 hs hs') h

/-- A placeholder in one of the values gets into the text. -/
theorem hole_infix_replaceEach_value {p q : B.Name} {fuel : Nat} {s v r : List α}
    {rs : List (B.Name × List α)} (hp : p ∉ rs.map Prod.fst) (hnd : (rs.map Prod.fst).Nodup)
    (hq : (q, v) ∈ rs) (hs : B.hole q <:+: s) (hv : B.hole p <:+: v)
    (h : replaceEach fuel s rs = .ok r) : B.hole p <:+: r := by
  induction rs generalizing s with
  | nil => cases hq
  | cons q' rs ih =>
      rw [List.map_cons, List.mem_cons, not_or] at hp
      rw [List.map_cons, List.nodup_cons] at hnd
      rw [replaceEach, Exec.bind_eq_ok] at h
      obtain ⟨s', hs', h⟩ := h
      rcases List.mem_cons.mp hq with rfl | hq
      · exact hole_infix_replaceEach hp.2 (hole_infix_replaceAll_value hp.1 hs hv hs') h
      · have hne : q ≠ q'.1 := by
          rintro rfl
          exact hnd.1 (List.mem_map.mpr ⟨_, hq, rfl⟩)
        exact ih hp.2 hnd.2 hq (hole_infix_replaceAll hne hs hs') h

end Loop

/-! ## Templates -/

variable (B) in
/-- The text up to the first placeholder, and each placeholder with the text behind it. -/
structure Template where
  head : List α
  tail : List (B.Name × List α)

/-- Every placeholder as what it stands for. -/
def fillTail (σ : B.Name → List α) (l : List (B.Name × List α)) : List α :=
  l.flatMap fun q ↦ σ q.1 ++ q.2

@[simp] theorem fillTail_nil (σ : B.Name → List α) : fillTail σ [] = [] := rfl

@[simp] theorem fillTail_cons (σ : B.Name → List α) (q : B.Name × List α)
    (l : List (B.Name × List α)) : fillTail σ (q :: l) = σ q.1 ++ (q.2 ++ fillTail σ l) := by
  simp [fillTail]

namespace Template

def fill (T : B.Template) (σ : B.Name → List α) : List α := T.head ++ fillTail σ T.tail

def names (T : B.Template) : List B.Name := T.tail.map Prod.fst

theorem stops_fill {T : B.Template} (hne : T.head ≠ []) (hT : B.Stops T.head)
    (σ : B.Name → List α) : B.Stops (T.fill σ) := hT.append_right hne _

variable [DecidableEq α]

/-- The texts hold no placeholder of their own, and none comes about where a value meets them. -/
def Spaced (T : B.Template) : Prop :=
  B.isSealed T.head ∧ ∀ q ∈ T.tail, B.isSealed q.2 ∧ q.2 ≠ [] ∧ B.Stops q.2

instance (T : B.Template) : Decidable T.Spaced :=
  inferInstanceAs (Decidable (_ ∧ ∀ q ∈ T.tail, _ ∧ _ ∧ _))

theorem hole_infix_fillTail {l : List (B.Name × List α)}
    (hl : ∀ q ∈ l, B.isSealed q.2 ∧ q.2 ≠ [] ∧ B.Stops q.2) {σ : B.Name → List α} {p : B.Name} :
    B.hole p <:+: fillTail σ l ↔ ∃ q ∈ l.map Prod.fst, B.hole p <:+: σ q := by
  induction l with
  | nil => simp [hole]
  | cons q l ih =>
      obtain ⟨hs, hne, hstops⟩ := hl q List.mem_cons_self
      rw [fillTail_cons, hole_infix_append (.inr (hstops.append_right hne _)),
        hole_infix_append (.inl (closed_of_isSealed hs)),
        ih fun q' hq' ↦ hl q' (List.mem_cons_of_mem q hq'), List.map_cons, List.exists_mem_cons_iff]
      simp only [not_hole_infix_of_isSealed hs, false_or]

/-- A filled template has the placeholders that its values have. -/
theorem hole_infix_fill {T : B.Template} (hT : T.Spaced) {σ : B.Name → List α} {p : B.Name} :
    B.hole p <:+: T.fill σ ↔ ∃ q ∈ T.names, B.hole p <:+: σ q := by
  rw [fill, hole_infix_append (.inl (closed_of_isSealed hT.1)), hole_infix_fillTail hT.2]
  simp only [not_hole_infix_of_isSealed hT.1, false_or, names]

end Template

/-! ### The template of a text -/

section Parse

variable [DecidableEq α]

variable (B) in
/-- A placeholder at the front, and what is behind it. -/
def hole? : List α → Option (B.Name × List α)
  | [] => none
  | a :: s =>
    if a = B.opening then
      match s.dropWhile B.letter with
      | [] => none
      | d :: t =>
        if d = B.closing then
          some (⟨s.takeWhile B.letter, fun _ h ↦ List.mem_takeWhile_imp h⟩, t)
        else none
    else none

theorem eq_of_hole? {s t : List α} {p : B.Name} (h : B.hole? s = some (p, t)) :
    s = B.hole p ++ t := by
  cases s with
  | nil => cases h
  | cons a s =>
      rw [hole?] at h
      split_ifs at h with ha
      cases hd : s.dropWhile B.letter with
      | nil =>
          rw [hd] at h
          cases h
      | cons d u =>
          simp only [hd] at h
          split_ifs at h with hc
          simp only [Option.some.injEq, Prod.mk.injEq] at h
          obtain ⟨rfl, rfl⟩ := h
          subst ha hc
          simp [hole, ← hd]

variable (B) in
/-- The placeholders of a text, found from left to right. -/
def parse : Nat → List α → B.Template
  | 0, s => ⟨s, []⟩
  | _ + 1, [] => ⟨[], []⟩
  | n + 1, a :: s =>
    match B.hole? (a :: s) with
    | some (p, t) =>
      let T := parse n t
      ⟨[], (p, T.head) :: T.tail⟩
    | none =>
      let T := parse n s
      ⟨a :: T.head, T.tail⟩

/-- The template with its placeholders in place is the text. -/
theorem fill_parse (n : Nat) (s : List α) : (B.parse n s).fill B.hole = s := by
  induction n generalizing s with
  | zero => simp [parse, Template.fill]
  | succ n ih =>
      cases s with
      | nil => rfl
      | cons a s =>
          cases h : B.hole? (a :: s) with
          | some q =>
              obtain ⟨p, t⟩ := q
              have ht := ih t
              rw [Template.fill] at ht
              rw [parse, h, eq_of_hole? h]
              simp [Template.fill, ht]
          | none =>
              have hs := ih s
              rw [Template.fill] at hs
              rw [parse, h]
              simp [Template.fill, hs]

end Parse

/-! ### One placeholder -/

/-- The loop fills a placeholder wherever the template has it, as long as what it makes holds no
such placeholder. -/
theorem replaceAll_fillTail [DecidableEq α] {σ : B.Name → List α} {p : B.Name} (hσ : σ p = B.hole p)
    (v : List α) {l : List (B.Name × List α)} {pre : List α}
    (h : ¬ B.hole p <:+: pre ++ fillTail (Function.update σ p v) l) {fuel : Nat}
    (hfuel : l.length < fuel) :
    replaceAll fuel (pre ++ fillTail σ l) (B.hole p) v =
      .ok (pre ++ fillTail (Function.update σ p v) l) := by
  induction l generalizing pre fuel with
  | nil =>
      obtain ⟨fuel, rfl⟩ := Nat.exists_eq_add_of_le' hfuel
      exact replaceAll_of_not_infix h fuel v
  | cons q l ih =>
      by_cases hq : q.1 = p
      · obtain ⟨fuel, rfl⟩ := Nat.exists_eq_add_of_le' (Nat.zero_lt_of_lt hfuel)
        have hpre : ¬ B.hole p <:+: pre := fun hp ↦ h (hp.trans List.infix_append_left)
        rw [fillTail_cons, hq, Function.update_self] at h
        rw [fillTail_cons, fillTail_cons, hq, hσ, Function.update_self, ← List.append_assoc pre,
          replaceAll_of_find (find_hole hpre _)]
        simp only [← List.append_assoc] at h ⊢
        exact ih h (by simpa using hfuel)
      · rw [fillTail_cons, Function.update_of_ne hq, ← List.append_assoc, ← List.append_assoc] at h
        rw [fillTail_cons, fillTail_cons, Function.update_of_ne hq, ← List.append_assoc,
          ← List.append_assoc, ← List.append_assoc, ← List.append_assoc]
        exact ih h (Nat.lt_of_succ_lt hfuel)

namespace Template

variable [DecidableEq α]

theorem returns_replaceAll_iff (T : B.Template) {σ : B.Name → List α} {p : B.Name}
    (hσ : σ p = B.hole p) (v : List α) :
    Returns (fun fuel ↦ replaceAll fuel (T.fill σ) (B.hole p) v)
        (T.fill (Function.update σ p v)) ↔
      ¬ B.hole p <:+: T.fill (Function.update σ p v) := by
  constructor
  · intro h
    obtain ⟨fuel, h⟩ := h.exists_eq
    exact not_infix_of_replaceAll h
  · intro h
    exact returns_replaceAll (replaceAll_fillTail hσ v h (Nat.lt_succ_self _))

end Template

/-! ### One placeholder after the other -/

/-- No value contains the placeholder that is replaced with it, nor one replaced after it. -/
def Apart (rs : List (B.Name × List α)) : Prop :=
  rs.Pairwise (fun r r' ↦ ¬ B.hole r'.1 <:+: r.2) ∧ ∀ r ∈ rs, ¬ B.hole r.1 <:+: r.2

theorem apart_iff {rs : List (B.Name × List α)} :
    Apart rs ↔ ∀ pre r post, rs = pre ++ r :: post → ∀ r' ∈ pre ++ [r], ¬ B.hole r.1 <:+: r'.2 := by
  constructor
  · rintro ⟨hp, hs⟩ pre r post rfl r' hr'
    rcases List.mem_append.mp hr' with hr' | hr'
    · exact (List.pairwise_append.mp hp).2.2 r' hr' r List.mem_cons_self
    · rw [List.mem_singleton.mp hr']
      exact hs r (by simp)
  · intro h
    induction rs using List.reverseRecOn with
    | nil => exact ⟨List.Pairwise.nil, fun r hr ↦ absurd hr List.not_mem_nil⟩
    | append_singleton rs r ih =>
        have hr := h rs r [] rfl
        obtain ⟨hp, hs⟩ := ih fun pre r' post he ↦ h pre r' (post ++ [r]) (by simp [he])
        refine ⟨List.pairwise_append.mpr ⟨hp, List.pairwise_singleton _ _, ?_⟩, ?_⟩
        · intro a ha b hb
          rw [List.mem_singleton.mp hb]
          exact hr a (List.mem_append_left _ ha)
        · intro a ha
          rcases List.mem_append.mp ha with ha | ha
          · exact hs a ha
          · rw [List.mem_singleton.mp ha]
            exact hr r (by simp)

section Each

variable [DecidableEq α]

/-- What the placeholders stand for after some have been replaced. -/
def assign (rs : List (B.Name × List α)) : B.Name → List α :=
  rs.foldl (fun σ r ↦ Function.update σ r.1 r.2) B.hole

theorem assign_concat (rs : List (B.Name × List α)) (r : B.Name × List α) :
    assign (rs ++ [r]) = Function.update (assign rs) r.1 r.2 := by
  simp [assign]

theorem assign_of_notMem {rs : List (B.Name × List α)} {p : B.Name} (h : p ∉ rs.map Prod.fst) :
    assign rs p = B.hole p := by
  induction rs using List.reverseRecOn with
  | nil => rfl
  | append_singleton rs r ih =>
      rw [List.map_append, List.mem_append, not_or, List.map_singleton, List.mem_singleton] at h
      rw [assign_concat, Function.update_of_ne h.2]
      exact ih h.1

theorem assign_of_mem {rs : List (B.Name × List α)} (hnd : (rs.map Prod.fst).Nodup)
    {r : B.Name × List α} (h : r ∈ rs) : assign rs r.1 = r.2 := by
  induction rs using List.reverseRecOn with
  | nil => cases h
  | append_singleton rs r' ih =>
      rw [List.map_append, List.nodup_append] at hnd
      rw [assign_concat]
      rcases List.mem_append.mp h with h | h
      · have hne : r.1 ≠ r'.1 := hnd.2.2 _ (List.mem_map_of_mem h) _ (by simp)
        rw [Function.update_of_ne hne]
        exact ih hnd.1 h
      · rw [List.mem_singleton.mp h, Function.update_self]

namespace Template

/-- Each replacement in turn takes the template with the placeholders before it filled to the
template with its own filled too. -/
def Fills (T : B.Template) (rs : List (B.Name × List α)) : Prop :=
  ∀ pre r post, rs = pre ++ r :: post →
    Returns (fun fuel ↦ replaceAll fuel (T.fill (assign pre)) (B.hole r.1) r.2)
      (T.fill (assign (pre ++ [r])))

/-- A placeholder in a template of which some are filled. -/
theorem hole_infix_fill_assign {T : B.Template} (hT : T.Spaced) {rs : List (B.Name × List α)}
    (hnd : (rs.map Prod.fst).Nodup) (hsub : ∀ r ∈ rs, r.1 ∈ T.names) {p : B.Name}
    (hp : p ∈ rs.map Prod.fst ∨ p ∉ T.names) :
    B.hole p <:+: T.fill (assign rs) ↔ ∃ r ∈ rs, B.hole p <:+: r.2 := by
  rw [hole_infix_fill hT]
  constructor
  · rintro ⟨q, hq, h⟩
    by_cases hmem : q ∈ rs.map Prod.fst
    · obtain ⟨r, hr, rfl⟩ := List.mem_map.mp hmem
      exact ⟨r, hr, assign_of_mem hnd hr ▸ h⟩
    · rw [assign_of_notMem hmem] at h
      obtain rfl := hole_infix_hole h
      exact absurd hq (hp.resolve_left hmem)
  · rintro ⟨r, hr, h⟩
    exact ⟨r.1, hsub r hr, (assign_of_mem hnd hr).symm ▸ h⟩

theorem fills_iff {T : B.Template} (hT : T.Spaced) {rs : List (B.Name × List α)}
    (hnd : (rs.map Prod.fst).Nodup) (hsub : ∀ r ∈ rs, r.1 ∈ T.names) :
    T.Fills rs ↔ Apart rs := by
  rw [apart_iff]
  refine forall_congr' fun pre ↦ forall_congr' fun r ↦ forall_congr' fun post ↦
    forall_congr' fun he ↦ ?_
  subst he
  have hnd' : ((pre ++ [r]).map Prod.fst).Nodup := by
    refine hnd.sublist (List.Sublist.map _ ?_)
    exact List.Sublist.append_left (by simp) pre
  have hr : r.1 ∉ pre.map Prod.fst := by
    rw [List.map_append, List.nodup_append] at hnd'
    exact fun h ↦ hnd'.2.2 _ h r.1 (by simp) rfl
  have hsub' : ∀ r' ∈ pre ++ [r], r'.1 ∈ T.names := by
    intro r' hr'
    refine hsub r' ?_
    rcases List.mem_append.mp hr' with hr' | hr'
    · exact List.mem_append_left _ hr'
    · rw [List.mem_singleton.mp hr']
      simp
  rw [assign_concat, T.returns_replaceAll_iff (assign_of_notMem hr), ← assign_concat,
    hole_infix_fill_assign hT hnd' hsub' (.inl (by simp))]
  push Not
  rfl

/-- Then all of them together give the simultaneous substitution. -/
theorem Fills.returns {T : B.Template} {rs : List (B.Name × List α)} (h : T.Fills rs) :
    Returns (fun fuel ↦ replaceEach fuel (T.fill B.hole) rs) (T.fill (assign rs)) := by
  have key : ∀ pre post, rs = pre ++ post →
      Returns (fun fuel ↦ replaceEach fuel (T.fill (assign pre)) post) (T.fill (assign rs)) := by
    intro pre post he
    induction post generalizing pre with
    | nil =>
        rw [List.append_nil] at he
        rw [he]
        exact .ok _
    | cons r post ih => exact (h pre r post he).bind (ih (pre ++ [r]) (by simpa using he))
  exact key [] rs rfl

end Template

end Each

end Brackets

end RpcLearning
