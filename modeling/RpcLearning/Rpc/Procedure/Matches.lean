import RpcLearning.Rpc.Procedure

/-!
# Parameters as declared

`validateGeneric` compares the number of parameters and looks up the declared names, or the declared
positions.  Since a map has no key twice, and no name is declared twice, this leaves no room for a
parameter that is not declared.
-/

namespace RpcLearning.Rpc

open Json

/-- An object of parameters is as a declaration wants it: the names are the declared ones, and the
types too. -/
structure Declares (ps : List (Bytes × ValueType)) (ms : List (Bytes × Value)) : Prop where
  names (k : Bytes) : k ∈ OrderedMap.keys ms ↔ k ∈ ps.map Prod.fst
  types {q : Bytes × ValueType} (hq : q ∈ ps) {v : Value} (hv : OrderedMap.find q.1 ms = some v) :
    v.getType = q.2

/-- An array of parameters is as a declaration wants it, by position. -/
structure DeclaresItems (ps : List (Bytes × ValueType)) (xs : List Value) : Prop where
  length : xs.length = ps.length
  types (i : Nat) (hx : i < xs.length) (hp : i < ps.length) : (xs[i]).getType = (ps[i]).2

/-- The parameters of a request are as declared. -/
inductive Matches (ps : List (Bytes × ValueType)) (request : Value) : Prop
  | none (h : request.find (lit "params") = none) (hps : ps = [])
  | array {xs : List Value} (h : request.find (lit "params") = some (.array xs))
      (hx : DeclaresItems ps xs)
  | object {ms : List (Bytes × Value)} (h : request.find (lit "params") = some (.object ms))
      (hm : Declares ps ms)

variable {ps : List (Bytes × ValueType)}

theorem Declares.perm_iff {ps' : List (Bytes × ValueType)} {ms : List (Bytes × Value)}
    (h : ps'.Perm ps) : Declares ps' ms ↔ Declares ps ms := by
  have hnames (k : Bytes) : k ∈ ps'.map Prod.fst ↔ k ∈ ps.map Prod.fst := (h.map _).mem_iff
  constructor
  · intro hd
    exact ⟨fun k ↦ (hd.names k).trans (hnames k), fun hq _ hv ↦ hd.types (h.mem_iff.mpr hq) hv⟩
  · intro hd
    exact ⟨fun k ↦ (hd.names k).trans (hnames k).symm, fun hq _ hv ↦ hd.types (h.mem_iff.mp hq) hv⟩

theorem Declares.length_eq {ms : List (Bytes × Value)} (h : Declares ps ms)
    (hnodup : (ps.map Prod.fst).Nodup) (hs : OrderedMap.Sorted ms) : ms.length = ps.length := by
  have hperm := (List.perm_ext_iff_of_nodup hs.nodup_keys hnodup).mpr h.names
  have hlen := hperm.length_eq
  rwa [OrderedMap.keys, List.length_map, List.length_map] at hlen

theorem sorted_of_find {rs : List (Bytes × Value)}
    (h : (Value.object rs).WellFormed) {key : Bytes} {ms : List (Bytes × Value)}
    (hf : (Value.object rs).find key = some (.object ms)) : OrderedMap.Sorted ms := by
  cases h with
  | object hs hm =>
      have hmem := hm _ (OrderedMap.mem_of_find hf)
      cases hmem with
      | object hs _ => exact hs

namespace Procedure

variable {β : Type} {p : Procedure β}

/-- With the same number of each, the declared types at the positions are the types. -/
theorem matchItems_eq_true {xs : List Value} (h : xs.length = ps.length) :
    matchItems (.array xs) ps = true ↔ DeclaresItems ps xs := by
  constructor
  · intro hall
    refine ⟨h, fun i hx hp ↦ ?_⟩
    have hmem : (xs[i], ps[i]) ∈ xs.zip ps := by
      rw [← List.getElem_zip (h := by simpa using ⟨hx, hp⟩)]
      exact List.getElem_mem _
    simpa using List.all_eq_true.mp hall _ hmem
  · intro hd
    refine List.all_eq_true.mpr fun q hq ↦ ?_
    obtain ⟨i, hi, rfl⟩ := List.mem_iff_getElem.mp hq
    have hlt : i < xs.length ∧ i < ps.length := by simpa [Value.items] using hi
    rw [List.getElem_zip]
    exact decide_eq_true (hd.types i hlt.1 hlt.2)

/-- With the same number of each, and no name declared twice, no key is left over. -/
theorem declares_iff {ms : List (Bytes × Value)} (hlen : ms.length = ps.length)
    (hnodup : (ps.map Prod.fst).Nodup) :
    Declares ps ms ↔ ∀ q ∈ ps, ∃ v, OrderedMap.find q.1 ms = some v ∧ v.getType = q.2 := by
  constructor
  · intro hd q hq
    have hmem : q.1 ∈ OrderedMap.keys ms := (hd.names q.1).mpr (List.mem_map_of_mem hq)
    obtain ⟨v, hv⟩ := Option.isSome_iff_exists.mp (OrderedMap.find_isSome.mpr hmem)
    exact ⟨v, hv, hd.types hq hv⟩
  · intro hall
    have hsub : ps.map Prod.fst ⊆ OrderedMap.keys ms := by
      intro k hk
      obtain ⟨q, hq, rfl⟩ := List.mem_map.mp hk
      obtain ⟨v, hv, -⟩ := hall q hq
      exact OrderedMap.find_isSome.mp (by rw [hv]; rfl)
    have hperm : (ps.map Prod.fst).Perm (OrderedMap.keys ms) := by
      refine (List.subperm_of_subset hnodup hsub).perm_of_length_le ?_
      rw [OrderedMap.keys, List.length_map, List.length_map, hlen]
    refine ⟨fun k ↦ hperm.mem_iff.symm, fun {q} hq v hv ↦ ?_⟩
    obtain ⟨v', hv', ht⟩ := hall q hq
    rw [hv] at hv'
    cases hv'
    exact ht

/-- On an object, the check is for what is declared. -/
theorem validateGeneric_object {request : Value} {ms : List (Bytes × Value)}
    (hnodup : (p.params_.map Prod.fst).Nodup) (hs : OrderedMap.Sorted ms)
    (h : request.find (lit "params") = some (.object ms)) :
    p.validateGeneric request = .ok true ↔ Declares p.params_ ms := by
  rw [validateGeneric, if_neg (by simp [Value.hasMember, h]), Value.get_of_find h, Exec.ok_bind]
  by_cases hlen : (Value.object ms).getSize = p.params_.length
  · rw [if_neg (not_not.mpr hlen)]
    exact matchMembers_eq_true.trans (declares_iff hlen hnodup).symm
  · rw [if_pos hlen]
    refine iff_of_false ?_ fun hd ↦ hlen (hd.length_eq hnodup hs)
    intro hok
    cases hok

theorem validateGeneric_array {request : Value} {xs : List Value}
    (h : request.find (lit "params") = some (.array xs)) :
    p.validateGeneric request = .ok true ↔ DeclaresItems p.params_ xs := by
  rw [validateGeneric, if_neg (by simp [Value.hasMember, h]), Value.get_of_find h, Exec.ok_bind]
  by_cases hlen : (Value.array xs).getSize = p.params_.length
  · rw [if_neg (not_not.mpr hlen), ← matchItems_eq_true hlen]
    exact (Except.ok.injEq _ _).to_iff
  · rw [if_pos hlen]
    refine iff_of_false ?_ fun hd ↦ hlen hd.length
    intro hok
    cases hok

theorem validateGeneric_none {request : Value} (h : request.find (lit "params") = none) :
    p.validateGeneric request = .ok true ↔ p.params_ = [] := by
  rw [validateGeneric, if_pos (by simp [Value.hasMember, h]), Except.ok.injEq]
  exact List.isEmpty_iff

/-- A scalar counts as one parameter, but has none of the two types. -/
theorem validateGeneric_scalar {request params : Value}
    (h : request.find (lit "params") = some params) (ha : params.getType ≠ .TYPE_ARRAY)
    (ho : params.getType ≠ .TYPE_OBJECT) : p.validateGeneric request = .ok false := by
  rw [validateGeneric, if_neg (by simp [Value.hasMember, h]), Value.get_of_find h, Exec.ok_bind]
  split
  · rfl
  · cases params with
    | array xs => exact absurd rfl ha
    | object ms => exact absurd rfl ho
    | _ => rfl

/-- `validateGeneric` lets through exactly the requests with parameters as declared; for objects,
in whatever order they are declared. -/
theorem validateGeneric_iff (p : Procedure β) (hnodup : (p.params_.map Prod.fst).Nodup)
    {rs : List (Bytes × Value)} (hw : (Value.object rs).WellFormed) :
    (p.validateGeneric (.object rs) = .ok true ↔ Matches p.params_ (.object rs)) ∧
      ∀ p' : Procedure β, p'.params_.Perm p.params_ →
        ∀ ms, (Value.object rs).find (lit "params") = some (.object ms) →
          p'.validateGeneric (.object rs) = p.validateGeneric (.object rs) := by
  constructor
  · cases h : (Value.object rs).find (lit "params") with
    | none =>
        rw [validateGeneric_none h]
        constructor
        · exact .none h
        · rintro (⟨-, hps⟩ | ⟨h', -⟩ | ⟨h', -⟩)
          · exact hps
          · cases h.symm.trans h'
          · cases h.symm.trans h'
    | some params =>
        cases params with
        | array xs =>
            rw [validateGeneric_array h]
            constructor
            · exact .array h
            · rintro (⟨h', -⟩ | ⟨h', hd⟩ | ⟨h', -⟩)
              · cases h.symm.trans h'
              · cases h.symm.trans h'
                exact hd
              · cases h.symm.trans h'
        | object ms =>
            rw [validateGeneric_object hnodup (sorted_of_find hw h) h]
            constructor
            · exact .object h
            · rintro (⟨h', -⟩ | ⟨h', -⟩ | ⟨h', hd⟩)
              · cases h.symm.trans h'
              · cases h.symm.trans h'
              · cases h.symm.trans h'
                exact hd
        | _ =>
            rw [validateGeneric_scalar h nofun nofun]
            refine iff_of_false nofun ?_
            rintro (⟨h', -⟩ | ⟨h', -⟩ | ⟨h', -⟩) <;> cases h.symm.trans h'
  · intro p' hperm ms h
    have hs := sorted_of_find hw h
    have hnodup' : (p'.params_.map Prod.fst).Nodup := (hperm.map Prod.fst).nodup_iff.mpr hnodup
    obtain ⟨b, hb⟩ := p.exists_validateGeneric (.object rs)
    obtain ⟨b', hb'⟩ := p'.exists_validateGeneric (.object rs)
    have hiff := (validateGeneric_object hnodup' hs h).trans
      ((Declares.perm_iff hperm).trans (validateGeneric_object hnodup hs h).symm)
    rw [hb, hb', Except.ok.injEq, Except.ok.injEq] at hiff
    rw [hb, hb', Bool.eq_iff_iff.mpr hiff]

/-- Two members, declared in the order of their names and in the other one. -/
theorem validateGeneric_iff_sample :
    let p : Procedure Unit := ⟨(), [(lit "b", .TYPE_STRING), (lit "a", .TYPE_INT32)]⟩
    let p' : Procedure Unit := ⟨(), [(lit "a", .TYPE_INT32), (lit "b", .TYPE_STRING)]⟩
    let request := Value.object
      [(lit "params", .object [(lit "a", .int32 1), (lit "b", .string (lit "x"))])]
    Matches p.params_ request ∧ p'.validateGeneric request = .ok true := by
  intro p p' request
  have hp : p.validateGeneric request = .ok true := rfl
  have hw : request.WellFormed := by
    refine .object (by decide) ?_
    simp only [List.mem_singleton, forall_eq]
    refine .object (by decide) ?_
    simp [Value.WellFormed.int32, Value.WellFormed.string]
  obtain ⟨hiff, hperm⟩ := validateGeneric_iff p (by decide) hw
  exact ⟨hiff.mp hp, (hperm p' (.swap ..) _ rfl).trans hp⟩

end Procedure

end RpcLearning.Rpc
