import RpcLearning.Rpc.StubGen

/-!
# Filling templates

What the template functions of the stub generators are for: a text in which every placeholder is
replaced at once by what it stands for.  The fillings that the generators make fit their templates,
so their `replaceAll`s give that text exactly when the values are apart; and no placeholder comes
about where pieces of text meet.
-/

namespace RpcLearning.Rpc.StubGen

open Json

/-- The template that a text is. -/
def template (text : Bytes) : brackets.Template := brackets.parse text.length text

/-- The placeholders of a text are the given ones, and its templates keep them apart. -/
abbrev Suits (text : Bytes) (ps : List Placeholder) : Prop :=
  (template text).Spaced ∧ ps.Nodup ∧ (∀ p ∈ (template text).names, p ∈ ps) ∧
    (∀ p ∈ ps, p ∈ (template text).names) ∧ (template text).head ≠ [] ∧
    brackets.Stops (template text).head

/-- A text has the placeholders that suit it. -/
theorem hole_infix_of_suits {text : Bytes} {ps : List Placeholder} (h : Suits text ps)
    {p : Placeholder} (hp : p ∈ ps) : brackets.hole p <:+: text := by
  have hfill := (Brackets.Template.hole_infix_fill h.1 (p := p)).mpr
    ⟨p, h.2.2.2.1 p hp, List.infix_rfl⟩
  rwa [template, Brackets.fill_parse] at hfill

/-- None of these placeholders occurs. -/
def Free (ps : List Placeholder) (s : Bytes) : Prop := ∀ p ∈ ps, ¬ brackets.hole p <:+: s

theorem free_append {ps qs : List Placeholder} {s : Bytes} :
    Free (ps ++ qs) s ↔ Free ps s ∧ Free qs s :=
  List.forall_mem_append

/-- A name in which no bracket opens anything is free of all placeholders. -/
theorem free_of_isSealed {s : Bytes} (h : brackets.isSealed s) (ps : List Placeholder) :
    Free ps s := fun p _ ↦ Brackets.not_hole_infix_of_isSealed h p

theorem Free.subset {ps qs : List Placeholder} {s : Bytes} (h : Free ps s) (hsub : qs ⊆ ps) :
    Free qs s := fun p hp ↦ h p (hsub hp)

namespace Filling

/-- Every placeholder at once as what it stands for. -/
def filled (F : Filling) : Bytes := (template F.text).fill (Brackets.assign F.values)

/-- Every `replaceAll` fills its placeholder where the template has it, and changes nothing else. -/
def Verbatim (F : Filling) : Prop := (template F.text).Fills F.values

/-- A filling gives a value to each placeholder. -/
def Fits (F : Filling) : Prop := Suits F.text (F.values.map Prod.fst)

theorem verbatim_iff {F : Filling} (hF : F.Fits) : F.Verbatim ↔ Brackets.Apart F.values :=
  Brackets.Template.fills_iff hF.1 hF.2.1 fun _ hr ↦
    hF.2.2.2.1 _ (List.mem_map_of_mem hr)

theorem Verbatim.returns {F : Filling} (h : F.Verbatim) : Returns F.replace F.filled := by
  have h' := Brackets.Template.Fills.returns h
  rw [template, Brackets.fill_parse] at h'
  exact h'

theorem hole_infix_filled {F : Filling} (hF : F.Fits) {p : Placeholder} :
    brackets.hole p <:+: F.filled ↔ ∃ r ∈ F.values, brackets.hole p <:+: r.2 := by
  refine Brackets.Template.hole_infix_fill_assign hF.1 hF.2.1
    (fun r hr ↦ hF.2.2.2.1 _ (List.mem_map_of_mem hr)) ?_
  by_cases hp : p ∈ F.values.map Prod.fst
  · exact .inl hp
  · exact .inr fun h ↦ hp (hF.2.2.1 p h)

theorem stops_filled {F : Filling} (hF : F.Fits) : brackets.Stops F.filled :=
  Brackets.Template.stops_fill hF.2.2.2.2.1 hF.2.2.2.2.2 _

end Filling

/-! ## Pieces -/

/-- Pieces with `", "` between them. -/
def joined {β : Type} (f : β → Bytes) : List β → Bytes
  | [] => []
  | x :: xs => f x ++ xs.flatMap fun x ↦ lit ", " ++ f x

section Pieces

variable {β : Type}

theorem isSealed_comma : brackets.isSealed (lit ", ") := by decide

theorem stops_comma (s : Bytes) : brackets.Stops (lit ", " ++ s) :=
  Brackets.Stops.append_right (by decide) (by decide) s

theorem stops_newline : brackets.Stops (lit "\n") := by decide

theorem stops_flatMap {f : β → Bytes} {xs : List β} (h : ∀ x ∈ xs, brackets.Stops (f x)) :
    brackets.Stops (xs.flatMap f) := by
  induction xs with
  | nil => exact Brackets.stops_nil
  | cons x xs ih =>
      rw [List.flatMap_cons]
      rw [List.forall_mem_cons] at h
      exact h.1.append (ih h.2)

theorem hole_infix_flatMap {f : β → Bytes} {xs : List β} (h : ∀ x ∈ xs, brackets.Stops (f x))
    {p : Placeholder} :
    brackets.hole p <:+: xs.flatMap f ↔ ∃ x ∈ xs, brackets.hole p <:+: f x := by
  induction xs with
  | nil => simp [Brackets.hole]
  | cons x xs ih =>
      rw [List.forall_mem_cons] at h
      rw [List.flatMap_cons, Brackets.hole_infix_append (.inr (stops_flatMap h.2)), ih h.2,
        List.exists_mem_cons_iff]

theorem hole_infix_joined {f : β → Bytes} {xs : List β} {p : Placeholder} :
    brackets.hole p <:+: joined f xs ↔ ∃ x ∈ xs, brackets.hole p <:+: f x := by
  cases xs with
  | nil => simp [joined, Brackets.hole]
  | cons x xs =>
      have comma : ∀ y, brackets.hole p <:+: lit ", " ++ f y ↔ brackets.hole p <:+: f y := by
        intro y
        rw [Brackets.hole_infix_append (.inl (Brackets.closed_of_isSealed isSealed_comma))]
        exact or_iff_right (Brackets.not_hole_infix_of_isSealed isSealed_comma p)
      have hstops : ∀ y ∈ xs, brackets.Stops (lit ", " ++ f y) := fun y _ ↦ stops_comma _
      rw [joined, Brackets.hole_infix_append (.inr (stops_flatMap hstops)),
        hole_infix_flatMap hstops, List.exists_mem_cons_iff]
      simp only [comma]

theorem returns_appendEach {f : Nat → β → Run Bytes} {g : β → Bytes} {xs : List β}
    (h : ∀ x ∈ xs, Returns (fun fuel ↦ f fuel x) (g x)) :
    Returns (fun fuel ↦ appendEach (f fuel) xs) (xs.flatMap g) := by
  induction xs with
  | nil => exact .ok []
  | cons x xs ih =>
      rw [List.forall_mem_cons] at h
      exact h.1.bind ((ih h.2).bind (.ok _))

theorem returns_joinEach {f : Nat → β → Run Bytes} {g : β → Bytes} {xs : List β}
    (h : ∀ x ∈ xs, Returns (fun fuel ↦ f fuel x) (g x)) :
    Returns (fun fuel ↦ joinEach (f fuel) xs) (joined g xs) := by
  cases xs with
  | nil => exact .ok []
  | cons x xs =>
      rw [List.forall_mem_cons] at h
      refine h.1.bind (Returns.bind (returns_appendEach fun y hy ↦ ?_) (.ok _))
      exact (h.2 y hy).bind (.ok _)

end Pieces

/-! ## Parameters -/

theorem methodArg_fits (argType argName : Bytes) : (methodArg argType argName).Fits := by
  show Suits methodArgText [placeholder "argType", placeholder "argName"]
  decide

theorem isSealed_argTypeName (type : ValueType) : brackets.isSealed (argTypeName type) := by
  cases type <;> decide

/-- The parameters of a method as `genArg` lists them. -/
def argsText (ms : List (Bytes × Value)) (hasLast : Bool) : Bytes :=
  joined (fun m ↦ (methodArg (argTypeName m.2.getType) m.1).filled) ms ++
    if hasLast then lit ", " else []

theorem hole_infix_methodArg {m : Bytes × Value} {p : Placeholder} :
    brackets.hole p <:+: (methodArg (argTypeName m.2.getType) m.1).filled ↔
      brackets.hole p <:+: m.1 := by
  rw [Filling.hole_infix_filled (methodArg_fits _ _)]
  simp [methodArg, Brackets.not_hole_infix_of_isSealed (isSealed_argTypeName _)]

theorem hole_infix_argsText {ms : List (Bytes × Value)} {hasLast : Bool} {p : Placeholder} :
    brackets.hole p <:+: argsText ms hasLast ↔ ∃ m ∈ ms, brackets.hole p <:+: m.1 := by
  have hlast : (0x5d : UInt8) ∉ (if hasLast then lit ", " else []) := by
    cases hasLast
    · exact List.not_mem_nil
    · decide
  rw [argsText, Brackets.hole_infix_append_of_notMem hlast, hole_infix_joined]
  simp only [hole_infix_methodArg]

theorem methodArg_verbatim_iff {type : ValueType} {argName : Bytes} :
    (methodArg (argTypeName type) argName).Verbatim ↔ Free [placeholder "argName"] argName := by
  have hs := Brackets.not_hole_infix_of_isSealed (isSealed_argTypeName type)
  rw [Filling.verbatim_iff (methodArg_fits _ _)]
  simp [Brackets.Apart, methodArg, Free, hs]

end RpcLearning.Rpc.StubGen
