import RpcLearning.Json.Heap

/-!
# What the operations do to the counts

Each operation is put together from reads and writes of places, from destructors and from
constructors.  The counts are exact up to the pointers that an operation has in its hands: `ext`.
-/

namespace RpcLearning.Json

open OrderedMap (keys)

@[simp] theorem Cell.out_null : Cell.null.out = [] := rfl

@[simp] theorem Cell.out_ref (p : Pointer) : (Cell.ref p).out = [p] := rfl

/-! ## The contents of blocks -/

namespace BlockData

variable {d : BlockData} {i : Nat} {old : Cell}

theorem get?_object {ms : List (Bytes × Cell × Cell)} (h : (object ms).get? i = some old) :
    ∃ text key, ms[i]? = some (text, key, old) := by
  obtain ⟨⟨text, key, value⟩, hm, rfl⟩ := Option.map_eq_some_iff.mp h
  exact ⟨text, key, hm⟩

theorem count_out_set (h : d.get? i = some old) (c : Cell) (b : Pointer) :
    (d.set i c).out.count b + old.out.count b = d.out.count b + c.out.count b := by
  cases d with
  | str s => cases h
  | array cs => exact Store.count_flatMap_set h c b
  | object ms =>
      obtain ⟨text, key, hm⟩ := get?_object h
      have hset := Store.count_flatMap_set
        (f := fun m : Bytes × Cell × Cell ↦ m.2.1.out ++ m.2.2.out) hm (text, key, c) b
      simp only [set, hm, out, List.count_append] at hset ⊢
      omega

@[simp] theorem type_set (d : BlockData) (i : Nat) (c : Cell) : (d.set i c).type = d.type := by
  cases d with
  | object ms =>
      simp only [set]
      split <;> rfl
  | _ => rfl

@[simp] theorem texts_set (d : BlockData) (i : Nat) (c : Cell) : (d.set i c).texts = d.texts := by
  cases d with
  | object ms =>
      simp only [set]
      split
      next text key value hm =>
        obtain ⟨hlt, hm⟩ := List.getElem?_eq_some_iff.mp hm
        have hlt' : i < (ms.map Prod.fst).length := by simpa using hlt
        have hi : (ms.map Prod.fst)[i] = text := by simp [hm]
        simp only [texts, keys, List.map_set]
        rw [← hi, List.set_getElem_self]
      · rfl
  | _ => rfl

theorem get?_set_self (h : d.get? i = some old) (c : Cell) : (d.set i c).get? i = some c := by
  cases d with
  | str s => cases h
  | array cs => exact List.getElem?_set_self (List.getElem?_eq_some_iff.mp h).1
  | object ms =>
      obtain ⟨text, key, hm⟩ := get?_object h
      simp only [set, hm, get?, List.getElem?_set_self (List.getElem?_eq_some_iff.mp hm).1,
        Option.map_some]

theorem get?_set_ne {j : Nat} (h : i ≠ j) (d : BlockData) (c : Cell) :
    (d.set i c).get? j = d.get? j := by
  cases d with
  | str s => rfl
  | array cs => exact List.getElem?_set_ne h
  | object ms =>
      simp only [set]
      split
      · simp only [get?, List.getElem?_set_ne h]
      · rfl

theorem mem_out (h : d.get? i = some old) {p : Pointer} (hp : p ∈ old.out) : p ∈ d.out := by
  cases d with
  | str s => cases h
  | array cs => exact List.mem_flatMap.mpr ⟨old, List.mem_of_getElem? h, hp⟩
  | object ms =>
      obtain ⟨text, key, hm⟩ := get?_object h
      exact List.mem_flatMap.mpr
        ⟨(text, key, old), List.mem_of_getElem? hm, List.mem_append_right _ hp⟩

end BlockData

/-! ## Reading and writing -/

namespace Loc

/-- The block that a place is in. -/
def owner : Loc → Option Pointer
  | .var _ => none
  | .inside p _ => some p

/-- The contents `d` of the block at `p` after a write to the place. -/
def setIn (l : Loc) (c : Cell) (p : Pointer) (d : BlockData) : BlockData :=
  match l with
  | .var _ => d
  | .inside q i => if q = p then d.set i c else d

@[simp] theorem texts_setIn (l : Loc) (c : Cell) (p : Pointer) (d : BlockData) :
    (l.setIn c p d).texts = d.texts := by
  cases l with
  | var n => rfl
  | inside q i =>
      simp only [setIn]
      split
      · exact BlockData.texts_set d i c
      · rfl

theorem setIn_of_ne {l : Loc} {p : Pointer} (hp : l.owner ≠ some p) (c : Cell) (d : BlockData) :
    l.setIn c p d = d := by
  cases l with
  | var n => rfl
  | inside q i => exact if_neg fun heq ↦ hp (congrArg some heq)

end Loc

/-- The contents `d` of the block at `p` after a constructor: a `Value` that is moved becomes a
null. -/
def Init.leaves (init : Init) (p : Pointer) (d : BlockData) : BlockData :=
  match init with
  | .move rhs => rhs.setIn .null p d
  | _ => d

@[simp] theorem Init.texts_leaves (init : Init) (p : Pointer) (d : BlockData) :
    (init.leaves p d).texts = d.texts := by
  cases init with
  | move rhs => exact Loc.texts_setIn rhs .null p d
  | _ => rfl

namespace Heap

variable {h h' : Heap} {l l' : Loc} {p : Pointer} {i : Nat} {c old : Cell} {ext : List Pointer}

/-- The contents of the block at an address. -/
def data (h : Heap) (p : Pointer) : Option BlockData := (h.blocks.block? p).map Counted.data_

theorem data_eq_some {d : BlockData} :
    h.data p = some d ↔ ∃ n, h.blocks.block? p = some ⟨n, d⟩ := by
  rw [data, Option.map_eq_some_iff]
  constructor
  · rintro ⟨⟨n, d'⟩, hb, rfl⟩
    exact ⟨n, hb⟩
  · rintro ⟨n, hb⟩
    exact ⟨⟨n, d⟩, hb, rfl⟩

theorem type_data {d : BlockData} (hd : h.data p = some d) : d.type = p.kind := by
  obtain ⟨n, hb⟩ := data_eq_some.mp hd
  exact (Store.block?_eq_some.mp hb).2

theorem read_var {n : Nat} : h.read (.var n) = .ok c ↔ h.vars[n]? = some (some c) := by
  rw [read, ← Option.join_eq_some_iff]
  cases h.vars[n]?.join with
  | none => exact iff_of_false nofun nofun
  | some c' => simp

theorem read_inside :
    h.read (.inside p i) = .ok c ↔ ∃ d, h.data p = some d ∧ d.get? i = some c := by
  simp only [read, data]
  cases h.blocks.block? p with
  | none =>
      constructor
      · intro hr
        cases hr
      · rintro ⟨d, hd, -⟩
        cases hd
  | some block =>
      simp only [Option.map_some, Option.some.injEq, exists_eq_left']
      cases block.data_.get? i with
      | none =>
          constructor
          · intro hr
            cases hr
          · intro hc
            cases hc
      | some c' => simp

/-- What is held by a variable. -/
def heldBy : Option Cell → List Pointer
  | some c => c.out
  | none => []

def held (h : Heap) : List Pointer := h.vars.flatMap heldBy

/-- The counts are those of the pointers in the heap and of `ext`. -/
def Exact (ext : List Pointer) (h : Heap) : Prop := h.blocks.Exact (ext ++ h.held)

/-- How many pointers to a block there are. -/
def total (h : Heap) (p : Pointer) : Nat := h.blocks.refs.count p + h.held.count p

def count? (h : Heap) (p : Pointer) : Option Nat := (h.blocks.block? p).map Counted.refCount

theorem count?_eq_some {n : Nat} :
    h.count? p = some n ↔ ∃ d, h.blocks.block? p = some ⟨n, d⟩ := by
  rw [count?, Option.map_eq_some_iff]
  constructor
  · rintro ⟨⟨n', d⟩, hb, rfl⟩
    exact ⟨d, hb⟩
  · rintro ⟨d, hb⟩
    exact ⟨⟨n, d⟩, hb, rfl⟩

theorem Exact.count (hex : h.Exact ext) {n : Nat} (hn : h.count? p = some n) :
    n = h.total p + ext.count p ∧ 0 < n := by
  obtain ⟨d, hb⟩ := count?_eq_some.mp hn
  have hcount := Store.Exact.count hex hb
  have hpos := Store.Exact.pos hex hb
  rw [List.count_append] at hcount
  refine ⟨?_, hpos⟩
  rw [total]
  change n = _ at hcount
  omega

theorem Exact.absent (hex : h.Exact ext) (hn : h.count? p = none) :
    h.total p + ext.count p = 0 := by
  have hzero := Store.Exact.absent hex (Option.map_eq_none_iff.mp hn)
  rw [List.count_append] at hzero
  rw [total]
  omega

/-- The counts go up with the numbers of pointers. -/
theorem Exact.transfer {ext' : List Pointer} (hex : h.Exact ext) (k : Pointer → Nat)
    (hcount : ∀ p, h'.count? p = (h.count? p).map (· + k p))
    (htotal : ∀ p, h'.total p + ext'.count p = h.total p + ext.count p + k p)
    (hk : ∀ p, h.count? p = none → k p = 0) : h'.Exact ext' := by
  have hcount' : ∀ {p c}, h'.blocks.block? p = some c →
      c.refCount = h'.total p + ext'.count p ∧ 0 < c.refCount := by
    intro p c hc
    have hn : h'.count? p = some c.refCount := count?_eq_some.mpr ⟨c.data_, hc⟩
    rw [hcount, Option.map_eq_some_iff] at hn
    obtain ⟨n, hn, heq⟩ := hn
    have hold := hex.count hn
    have ht := htotal p
    omega
  refine ⟨fun {p c} hc ↦ ?_, fun {p c} hc ↦ (hcount' hc).2, fun {p} hp ↦ ?_⟩
  · rw [(hcount' hc).1, total, List.count_append]
    omega
  · have hn : h.count? p = none := by
      have hn : h'.count? p = none := Option.map_eq_none_iff.mpr hp
      rwa [hcount, Option.map_eq_none_iff] at hn
    have hzero := hex.absent hn
    have ht := htotal p
    rw [hk p hn, total] at ht
    rw [List.count_append]
    omega

/-- What a write to `l` does, where `old` was before. -/
structure Wrote (l : Loc) (old c : Cell) (h h' : Heap) : Prop where
  self : h'.read l = .ok c
  others : ∀ l', l' ≠ l → h'.read l' = h.read l'
  data : ∀ p, h'.data p = (h.data p).map (l.setIn c p)
  total : ∀ b, h'.total b + old.out.count b = h.total b + c.out.count b
  count : ∀ p, h'.count? p = h.count? p

theorem Wrote.data_of_ne (hw : Wrote l old c h h') (hp : l.owner ≠ some p) :
    h'.data p = h.data p := by
  rw [hw.data, funext fun d ↦ Loc.setIn_of_ne hp c d]
  exact Option.map_id'

theorem Wrote.exact {ext' : List Pointer} (hw : Wrote l old c h h') (hex : h.Exact ext)
    (he : ∀ b, ext'.count b + c.out.count b = ext.count b + old.out.count b) :
    h'.Exact ext' := by
  refine hex.transfer (fun _ ↦ 0) (fun p ↦ ?_) (fun p ↦ ?_) fun _ _ ↦ rfl
  · rw [hw.count]
    exact Option.map_id'.symm
  · have ht := hw.total p
    have he' := he p
    omega

theorem exists_write_var {n : Nat} (hr : h.read (.var n) = .ok old) (c : Cell) :
    ∃ h', h.write (.var n) c = .ok h' ∧ Wrote (.var n) old c h h' := by
  have hv := read_var.mp hr
  have hlt := (List.getElem?_eq_some_iff.mp hv).1
  have hheld := fun b ↦ Store.count_flatMap_set (f := heldBy) hv (some c) b
  refine ⟨{ h with vars := h.vars.set n (some c) }, by simp only [write, hv, Option.join_some],
    ?_, fun l' hl ↦ ?_, fun p ↦ Option.map_id'.symm, fun b ↦ ?_, fun p ↦ rfl⟩
  · exact read_var.mpr (List.getElem?_set_self hlt)
  · cases l' with
    | var m =>
        have hne : n ≠ m := fun heq ↦ hl (heq ▸ rfl)
        simp only [read, List.getElem?_set_ne hne]
    | inside p i => rfl
  · have hb := hheld b
    simp only [heldBy] at hb
    simp only [total, held]
    omega

theorem exists_write_inside (hr : h.read (.inside p i) = .ok old) (c : Cell) :
    ∃ h', h.write (.inside p i) c = .ok h' ∧ Wrote (.inside p i) old c h h' := by
  obtain ⟨d, hd, hi⟩ := read_inside.mp hr
  obtain ⟨n, hb⟩ := data_eq_some.mp hd
  have htype : BlockData.type (d.set i c) = BlockData.type d := BlockData.type_set d i c
  have hput := fun {b x} ↦ Store.block?_put (b := b) (x := x) hb (e := ⟨n, d.set i c⟩) htype
  have hself : (h.blocks.put p (some ⟨n, d.set i c⟩)).block? p = some ⟨n, d.set i c⟩ :=
    Store.block?_put_self hb htype
  have hne : ∀ p', p' ≠ p →
      (h.blocks.put p (some ⟨n, d.set i c⟩)).block? p' = h.blocks.block? p' := by
    intro p' hp
    refine Option.ext fun x ↦ ?_
    rw [hput]
    exact ⟨fun hx ↦ (hx.resolve_left fun hx ↦ hp hx.1).2, fun hx ↦ .inr ⟨hp, hx⟩⟩
  have hrefs := fun b ↦ Store.count_refs_put hb (some ⟨n, d.set i c⟩) b
  have hout := BlockData.count_out_set hi c
  refine ⟨{ h with blocks := h.blocks.put p (some ⟨n, d.set i c⟩) }, by simp only [write, hb, hi],
    ?_, fun l' hl ↦ ?_, fun p' ↦ ?_, fun b ↦ ?_, fun p' ↦ ?_⟩
  · refine read_inside.mpr ⟨d.set i c, ?_, BlockData.get?_set_self hi c⟩
    exact data_eq_some.mpr ⟨n, hself⟩
  · cases l' with
    | var m => rfl
    | inside p' j =>
        by_cases hp : p' = p
        · subst hp
          have hij : i ≠ j := fun heq ↦ hl (heq ▸ rfl)
          simp only [read, hself, hb, BlockData.get?_set_ne hij]
        · simp only [read, hne p' hp]
  · by_cases hp : p' = p
    · subst hp
      simp only [Heap.data, hself, hb, Option.map_some, Loc.setIn, if_pos]
    · have hset : (Loc.inside p i).setIn c p' = id := funext fun d' ↦ if_neg (Ne.symm hp)
      rw [Heap.data, Heap.data, hne p' hp, hset, Option.map_id_apply]
  · have hb' := hrefs b
    have hb'' := hout b
    simp only [Store.outs, Linked.out] at hb'
    simp only [total, held]
    omega
  · by_cases hp : p' = p
    · subst hp
      simp only [count?, hself, hb, Option.map_some]
    · simp only [count?, hne p' hp]

theorem exists_write (hr : h.read l = .ok old) (c : Cell) :
    ∃ h', h.write l c = .ok h' ∧ Wrote l old c h h' := by
  cases l with
  | var n => exact exists_write_var hr c
  | inside p i => exact exists_write_inside hr c

theorem read_inside_eq (h : Heap) (p : Pointer) (i : Nat) : h.read (.inside p i) =
    match h.data p with
    | some d =>
      match d.get? i with
      | some c => .ok c
      | none => .error .pastEnd
    | none => .error .dangling := by
  simp only [read, data]
  cases h.blocks.block? p with
  | none => rfl
  | some block => rfl

/-- What is read at a place depends on the variables and on the block that it is in. -/
theorem read_congr (hv : h'.vars = h.vars) (hd : ∀ p, l.owner = some p → h'.data p = h.data p) :
    h'.read l = h.read l := by
  cases l with
  | var n => rw [read, read, hv]
  | inside p i => rw [read_inside_eq, read_inside_eq, hd p rfl]

theorem Exact.exists_data_of_pos (hex : h.Exact ext) (hpos : 0 < h.total p) :
    ∃ d, h.data p = some d := by
  cases hd : h.data p with
  | some d => exact ⟨d, rfl⟩
  | none =>
      have hnone : h.count? p = none := Option.map_eq_none_iff.mpr (Option.map_eq_none_iff.mp hd)
      have hzero := hex.absent hnone
      omega

/-- A pointer in a block leads to a block. -/
theorem Exact.exists_data_of_out (hex : h.Exact ext) {q : Pointer} {d : BlockData}
    (hd : h.data q = some d) (hp : p ∈ d.out) : ∃ d', h.data p = some d' := by
  obtain ⟨n, hb⟩ := data_eq_some.mp hd
  have hmem : p ∈ h.blocks.refs := List.mem_flatMap.mpr
    ⟨some ⟨n, d⟩, List.mem_of_getElem? (Store.block?_eq_some.mp hb).1, hp⟩
  exact hex.exists_data_of_pos
    (Nat.lt_of_lt_of_le (List.count_pos_iff.mpr hmem) (Nat.le_add_right ..))

/-- A pointer that is read leads to a block. -/
theorem Exact.exists_data (hex : h.Exact ext) (hr : h.read l = .ok (.ref p)) :
    ∃ d, h.data p = some d := by
  cases l with
  | var n =>
      have hmem : p ∈ h.held := List.mem_flatMap.mpr
        ⟨some (.ref p), List.mem_of_getElem? (read_var.mp hr), List.mem_singleton_self p⟩
      exact hex.exists_data_of_pos
        (Nat.lt_of_lt_of_le (List.count_pos_iff.mpr hmem) (Nat.le_add_left ..))
  | inside q i =>
      obtain ⟨d, hd, hi⟩ := read_inside.mp hr
      exact hex.exists_data_of_out hd (BlockData.mem_out hi (List.mem_singleton_self p))

/-! ## Destroying -/

/-- Every block of `K` is pointed to from a place other than `this`, in a variable or in a block
of `K`. -/
def KeptAlive (h : Heap) (this : Loc) (K : Set Pointer) : Prop :=
  ∀ q ∈ K, ∃ l, l ≠ this ∧ h.read l = .ok (.ref q) ∧ ∀ r, l.owner = some r → r ∈ K

/-- The place is not in a block that only `this` keeps alive. -/
def Supported (h : Heap) (this l : Loc) : Prop :=
  ∀ p, l.owner = some p → ∃ K, p ∈ K ∧ h.KeptAlive this K

theorem exists_drop (hex : h.Exact (c.out ++ ext)) :
    ∃ h', h.drop c = .ok h' ∧ h'.Exact ext ∧ h'.vars = h.vars ∧
      (∀ p d, h'.data p = some d → h.data p = some d) ∧ (∀ b, h'.total b ≤ h.total b) ∧
      ∀ K : Set Pointer, (∀ p ∈ K, p ∈ h.held ∨ ∃ q ∈ K, ∃ d, h.data q = some d ∧ p ∈ d.out) →
        ∀ p ∈ K, h'.data p = h.data p := by
  have hwork : h.blocks.Exact (c.out ++ (ext ++ h.held)) := by
    rw [← List.append_assoc]
    exact hex
  obtain ⟨blocks, hok, hex', hw, hle, hk⟩ := Store.exists_release hwork le_rfl
  have hdata : ∀ p d, data { h with blocks := blocks } p = some d → h.data p = some d := by
    intro p d hd
    obtain ⟨n, hb⟩ := data_eq_some.mp hd
    obtain ⟨⟨n', d'⟩, hb', heq⟩ := hw p _ hb
    obtain rfl : d' = d := heq
    exact data_eq_some.mpr ⟨n', hb'⟩
  refine ⟨{ h with blocks }, by rw [drop, hok]; rfl, hex', rfl, hdata, fun b ↦ ?_,
    fun K hK p hp ↦ ?_⟩
  · exact Nat.add_le_add_right (hle b) _
  · have hkeeps : Store.Keeps (ext ++ h.held) h.blocks K := by
      refine fun q hq ↦ (hK q hq).imp (List.mem_append_right _) ?_
      rintro ⟨r, hr, d, hd, hout⟩
      obtain ⟨n, hb⟩ := data_eq_some.mp hd
      exact ⟨r, hr, _, hb, hout⟩
    obtain ⟨⟨n, d⟩, hb⟩ := hk K hkeeps p hp
    have hd : data { h with blocks := blocks } p = some d := data_eq_some.mpr ⟨n, hb⟩
    rw [hd, hdata p d hd]

/-- What a destructor leaves of the heap. -/
structure Destroyed (this : Loc) (old : Cell) (h h' : Heap) : Prop where
  exact : h'.Exact []
  data : ∀ p d, this.owner ≠ some p → h'.data p = some d → h.data p = some d
  total : ∀ b, h'.total b + old.out.count b ≤ h.total b
  self : h.Supported this this → h'.read this = .ok .null
  others : ∀ l, l ≠ this → h.Supported this l → h'.read l = h.read l

theorem exists_destroy {this : Loc} (hex : h.Exact []) (hr : h.read this = .ok old) :
    ∃ h', h.destroy this = .ok h' ∧ Destroyed this old h h' := by
  obtain ⟨h₁, hok₁, hw⟩ := exists_write hr .null
  have hex₁ : h₁.Exact (old.out ++ []) := hw.exact hex fun b ↦ by
    simp [Cell.out]
  obtain ⟨h₂, hok₂, hex₂, hv, hdata, hle, hk⟩ := exists_drop hex₁
  -- what keeps a block alive is there after the write
  have hkept : ∀ K, h.KeptAlive this K → ∀ p ∈ K, h₂.data p = h₁.data p := by
    intro K hK
    refine hk K fun q hq ↦ ?_
    obtain ⟨l, hl, hread, howner⟩ := hK q hq
    rw [← hw.others l hl] at hread
    cases l with
    | var n => exact .inl (List.mem_flatMap.mpr
        ⟨some (.ref q), List.mem_of_getElem? (read_var.mp hread), List.mem_singleton_self q⟩)
    | inside r i =>
        obtain ⟨d, hd, hi⟩ := read_inside.mp hread
        exact .inr ⟨r, howner r rfl, d, hd, BlockData.mem_out hi (List.mem_singleton_self q)⟩
  have hread : ∀ l, h.Supported this l → h₂.read l = h₁.read l := by
    intro l hl
    refine read_congr hv fun p hp ↦ ?_
    obtain ⟨K, hmem, hK⟩ := hl p hp
    exact hkept K hK p hmem
  refine ⟨h₂, ?_, hex₂, fun p d hp hd ↦ ?_, fun b ↦ ?_, fun hs ↦ ?_, fun l hl hs ↦ ?_⟩
  · simp only [destroy, hr, hok₁, Exec.ok_bind, hok₂]
  · rw [← hw.data_of_ne hp]
    exact hdata p d hd
  · have ht := hw.total b
    have hle' := hle b
    rw [Cell.out_null, List.count_nil] at ht
    omega
  · exact (hread this hs).trans hw.self
  · exact (hread l hs).trans (hw.others l hl)

/-! ## Constructing -/

/-- What a reference more leaves of the heap. -/
structure Incremented (c : Cell) (h h' : Heap) : Prop where
  vars : h'.vars = h.vars
  data : ∀ p, h'.data p = h.data p
  total : ∀ b, h'.total b = h.total b
  count : ∀ p, h'.count? p = (h.count? p).map (· + c.out.count p)

theorem incremented_self (h : Heap) (hc : c.out = []) : Incremented c h h := by
  refine ⟨rfl, fun _ ↦ rfl, fun _ ↦ rfl, fun p ↦ ?_⟩
  rw [hc]
  exact Option.map_id'.symm

theorem exists_incrAndGet
    (hc : ∀ p, c = .ref p → ∃ n, h.count? p = some n ∧ 0 < n ∧ n + 1 < 2 ^ 31) :
    ∃ h', h.incrAndGet c = .ok h' ∧ Incremented c h h' := by
  cases c with
  | ref p =>
      obtain ⟨n, hn, hpos, hroom⟩ := hc p rfl
      obtain ⟨d, hb⟩ := count?_eq_some.mp hn
      have hself : (h.blocks.put p (some ⟨n + 1, d⟩)).block? p = some ⟨n + 1, d⟩ :=
        Store.block?_put_self hb rfl
      have hne : ∀ p', p' ≠ p →
          (h.blocks.put p (some ⟨n + 1, d⟩)).block? p' = h.blocks.block? p' := by
        intro p' hp
        refine Option.ext fun x ↦ ?_
        rw [Store.block?_put hb (e := ⟨n + 1, d⟩) rfl]
        exact ⟨fun hx ↦ (hx.resolve_left fun hx ↦ hp hx.1).2, fun hx ↦ .inr ⟨hp, hx⟩⟩
      have hrefs : ∀ b, (h.blocks.put p (some ⟨n + 1, d⟩)).refs.count b + d.out.count b =
          h.blocks.refs.count b + d.out.count b :=
        fun b ↦ Store.count_refs_put hb (some ⟨n + 1, d⟩) b
      refine ⟨{ h with blocks := h.blocks.put p (some ⟨n + 1, d⟩) }, ?_, rfl, fun p' ↦ ?_,
        fun b ↦ ?_, fun p' ↦ ?_⟩
      · simp only [incrAndGet, hb, if_neg (Nat.pos_iff_ne_zero.mp hpos), if_pos hroom]
      · by_cases hp : p' = p
        · subst hp
          simp only [Heap.data, hself, hb, Option.map_some]
        · simp only [Heap.data, hne p' hp]
      · have hb' := hrefs b
        simp only [Heap.total]
        change _ + h.held.count b = _
        omega
      · by_cases hp : p' = p
        · subst hp
          simp only [count?, hself, hb, Option.map_some, Cell.out_ref, List.count_singleton_self]
        · have hzero : (Cell.ref p).out.count p' = 0 :=
            List.count_eq_zero.mpr fun hmem ↦ hp (List.mem_singleton.mp hmem)
          simp only [count?, hne p' hp, hzero, Nat.add_zero]
          exact Option.map_id'.symm
  | _ => exact ⟨h, rfl, incremented_self h rfl⟩

/-- A copy has room in the counter. -/
def Room (h : Heap) : Init → Prop
  | .copy rhs => ∀ p n, h.read rhs = .ok (.ref p) → h.count? p = some n → n + 1 < 2 ^ 31
  | _ => True

/-- The pointers that a constructor makes of those that are there. -/
def copied (h : Heap) : Init → List Pointer
  | .copy rhs =>
    match h.read rhs with
    | .ok c => c.out
    | .error _ => []
  | _ => []

/-- The elements of a vector that is reallocated have room in the counters for their copies, next to
what `args` adds to the counts. -/
def RoomToGrow (h : Heap) (this : Loc) (args : Init) : Prop :=
  ∀ p d q n, h.read this = .ok (.ref p) → h.data p = some d → q ∈ (args.leaves p d).out →
    h.count? q = some n → n + (h.copied args).count q + (args.leaves p d).out.count q < 2 ^ 31

theorem Wrote.given {init : Init} (hw : Wrote l old c h h') (hg : h.Given init) :
    h'.Given init := by
  have hlive : ∀ rhs, h.Live rhs → h'.Live rhs := by
    intro rhs ⟨c', hr⟩
    by_cases heq : rhs = l
    · exact ⟨c, heq ▸ hw.self⟩
    · exact ⟨c', (hw.others rhs heq).trans hr⟩
  cases init with
  | copy rhs => exact hlive rhs hg
  | move rhs => exact hlive rhs hg
  | _ => trivial

theorem Wrote.room {init : Init} (hw : Wrote l old .null h h') (hroom : h.Room init) :
    h'.Room init := by
  cases init with
  | copy rhs =>
      intro p n hr hn
      have hne : rhs ≠ l := by
        rintro rfl
        cases hw.self.symm.trans hr
      rw [hw.others rhs hne] at hr
      rw [hw.count] at hn
      exact hroom p n hr hn
  | _ => trivial

/-- What a constructor leaves of the heap. -/
structure Constructed (init : Init) (c : Cell) (ext : List Pointer) (h h' : Heap) : Prop where
  exact : h'.Exact (c.out ++ ext)
  data : ∀ p d, h.data p = some d → h'.data p = some (init.leaves p d)
  count : ∀ p n, h.count? p = some n → h'.count? p = some (n + (h.copied init).count p)
  others : (∀ rhs, init ≠ .move rhs) → ∀ l c', h.read l = .ok c' → h'.read l = .ok c'

/-- A constructor that is not given a `Value`. -/
structure Fresh (init : Init) : Prop where
  leaves : ∀ p d, init.leaves p d = d
  copied : ∀ h : Heap, h.copied init = []

theorem constructed_scalar {init : Init} (hf : Fresh init) (hex : h.Exact ext) (hc : c.out = []) :
    Constructed init c ext h h :=
  ⟨by rwa [hc], fun p d hd ↦ by rwa [hf.leaves], fun p n hn ↦ by rwa [hf.copied],
    fun _ _ _ hr ↦ hr⟩

theorem constructed_alloc {init : Init} (hf : Fresh init) (hex : h.Exact ext) {d : BlockData}
    (hd : d.out = []) : Constructed init (h.alloc d).1 ext h (h.alloc d).2 := by
  have hdata : ∀ p d', h.data p = some d' → (h.alloc d).2.data p = some d' := by
    intro p d' hd'
    obtain ⟨n, hb⟩ := data_eq_some.mp hd'
    exact data_eq_some.mpr ⟨n, Store.block?_alloc.mpr (.inr hb)⟩
  refine ⟨Store.Exact.alloc hex hd, fun p d' hd' ↦ ?_, fun p n hn ↦ ?_, fun _ l c' hr ↦ ?_⟩
  · rw [hf.leaves]
    exact hdata p d' hd'
  · obtain ⟨d', hb⟩ := count?_eq_some.mp hn
    rw [hf.copied]
    exact count?_eq_some.mpr ⟨d', Store.block?_alloc.mpr (.inr hb)⟩
  · cases l with
    | var n => exact hr
    | inside p i =>
        obtain ⟨d', hd', hi⟩ := read_inside.mp hr
        exact read_inside.mpr ⟨d', hdata p d' hd', hi⟩

theorem exists_construct {init : Init} (hex : h.Exact ext) (hg : h.Given init)
    (hroom : h.Room init) :
    ∃ c h', h.construct init = .ok (c, h') ∧ Constructed init c ext h h' := by
  cases init with
  | null => exact ⟨_, _, rfl, constructed_scalar ⟨fun _ _ ↦ rfl, fun _ ↦ rfl⟩ hex rfl⟩
  | bool b => exact ⟨_, _, rfl, constructed_scalar ⟨fun _ _ ↦ rfl, fun _ ↦ rfl⟩ hex rfl⟩
  | int32 i32 => exact ⟨_, _, rfl, constructed_scalar ⟨fun _ _ ↦ rfl, fun _ ↦ rfl⟩ hex rfl⟩
  | int64 i64 => exact ⟨_, _, rfl, constructed_scalar ⟨fun _ _ ↦ rfl, fun _ ↦ rfl⟩ hex rfl⟩
  | double d => exact ⟨_, _, rfl, constructed_scalar ⟨fun _ _ ↦ rfl, fun _ ↦ rfl⟩ hex rfl⟩
  | string str => exact ⟨_, _, rfl, constructed_alloc ⟨fun _ _ ↦ rfl, fun _ ↦ rfl⟩ hex rfl⟩
  | array => exact ⟨_, _, rfl, constructed_alloc ⟨fun _ _ ↦ rfl, fun _ ↦ rfl⟩ hex rfl⟩
  | object => exact ⟨_, _, rfl, constructed_alloc ⟨fun _ _ ↦ rfl, fun _ ↦ rfl⟩ hex rfl⟩
  | copy rhs =>
      obtain ⟨c, hr⟩ := hg
      obtain ⟨h₁, hok, hi⟩ := exists_incrAndGet (h := h) (c := c) (by
        rintro p rfl
        obtain ⟨d, hd⟩ := hex.exists_data hr
        obtain ⟨n, hb⟩ := data_eq_some.mp hd
        have hn : h.count? p = some n := count?_eq_some.mpr ⟨d, hb⟩
        exact ⟨n, hn, (hex.count hn).2, hroom p n hr hn⟩)
      refine ⟨c, h₁, by simp only [construct, hr, hok, Exec.ok_bind], ?_, fun p d hd ↦ ?_,
        fun p n hn ↦ ?_, fun _ l c' hr' ↦ ?_⟩
      · refine hex.transfer _ hi.count (fun p ↦ ?_) fun p hp ↦ ?_
        · rw [hi.total, List.count_append]
          omega
        · refine List.count_eq_zero.mpr fun hmem ↦ ?_
          cases c with
          | ref q =>
              obtain rfl := List.mem_singleton.mp hmem
              obtain ⟨d, hd⟩ := hex.exists_data hr
              obtain ⟨n, hb⟩ := data_eq_some.mp hd
              cases hp.symm.trans (count?_eq_some.mpr ⟨d, hb⟩)
          | _ => cases hmem
      · exact (hi.data p).trans hd
      · rw [hi.count, hn]
        simp only [copied, hr, Option.map_some]
      · exact (read_congr hi.vars fun p _ ↦ hi.data p).trans hr'
  | move rhs =>
      obtain ⟨c, hr⟩ := hg
      obtain ⟨h₁, hok, hw⟩ := exists_write hr .null
      refine ⟨c, h₁, by simp only [construct, hr, hok, Exec.ok_bind], ?_, fun p d hd ↦ ?_,
        fun p n hn ↦ (hw.count p).trans hn, fun hmove ↦ absurd rfl (hmove rhs)⟩
      · refine hw.exact hex fun b ↦ ?_
        rw [Cell.out_null, List.count_append, List.count_nil]
        omega
      · rw [hw.data, hd]
        rfl

/-! ## Operations -/

theorem exists_make {init : Init} (hex : h.Exact []) (hg : h.Given init) (hroom : h.Room init) :
    ∃ h', h.make init = .ok h' ∧ h'.Exact [] := by
  obtain ⟨c, h₁, hok, hc⟩ := exists_construct hex hg hroom
  refine ⟨{ h₁ with vars := h₁.vars ++ [some c] }, by simp only [make, hok, Exec.ok_bind], ?_⟩
  refine Store.Exact.congr hc.exact fun b ↦ ?_
  simp only [held, List.flatMap_append, List.flatMap_cons, List.flatMap_nil, heldBy,
    List.count_append, List.count_nil]
  omega

theorem exists_unmake {n : Nat} (hex : h.Exact []) (hl : h.Live (.var n)) :
    ∃ h', h.unmake n = .ok h' ∧ h'.Exact [] := by
  obtain ⟨c, hr⟩ := hl
  have hheld := fun b ↦ Store.count_flatMap_set (f := heldBy) (read_var.mp hr) none b
  have hex' : Exact (c.out ++ []) { h with vars := h.vars.set n none } := by
    refine Store.Exact.congr hex fun b ↦ ?_
    have hb := hheld b
    simp only [heldBy, List.count_nil] at hb
    simp only [held, List.append_nil, List.nil_append, List.count_append]
    omega
  obtain ⟨h', hok, hex'', -⟩ := exists_drop hex'
  exact ⟨h', by simp only [unmake, hr, Exec.ok_bind, hok], hex''⟩

theorem exists_set {this : Loc} {init : Init} (hex : h.Exact []) (hl : h.Live this)
    (hs : h.Supported this this) (hcopy : ∀ rhs, init ≠ .copy rhs)
    (hmove : ∀ rhs, init ≠ .move rhs) : ∃ h', h.set this init = .ok h' ∧ h'.Exact [] := by
  obtain ⟨old, hr⟩ := hl
  obtain ⟨h₁, hok₁, hd⟩ := exists_destroy hex hr
  have hfresh : h₁.Given init ∧ h₁.Room init := by
    cases init with
    | copy rhs => exact absurd rfl (hcopy rhs)
    | move rhs => exact absurd rfl (hmove rhs)
    | _ => exact ⟨trivial, trivial⟩
  obtain ⟨c, h₂, hok₂, hc⟩ := exists_construct hd.exact hfresh.1 hfresh.2
  obtain ⟨h₃, hok₃, hw⟩ := exists_write (hc.others hmove this _ (hd.self hs)) c
  refine ⟨h₃, by simp only [set, hok₁, hok₂, Exec.ok_bind, hok₃], hw.exact hc.exact fun b ↦ ?_⟩
  rw [Cell.out_null, List.append_nil, List.count_nil]
  omega

theorem data_of_texts {d : BlockData} {type : BlockType} (hd : h.data p = some d)
    (hp : p.kind = type) : ∃ n, h.blocks.block? p = some ⟨n, d⟩ ∧ d.type = type := by
  obtain ⟨n, hb⟩ := data_eq_some.mp hd
  exact ⟨n, hb, (type_data hd).trans hp⟩

/-- The contents of a block are extended by what was constructed for it. -/
theorem exact_put {n : Nat} {d d' : BlockData} (hex : h.Exact ext)
    (hb : h.blocks.block? p = some ⟨n, d⟩) (htype : d'.type = d.type)
    (hout : ∀ b, d'.out.count b = d.out.count b + ext.count b) :
    Exact [] { h with blocks := h.blocks.put p (some ⟨n, d'⟩) } := by
  refine Store.Exact.modify hex hb htype fun b ↦ ?_
  have hb' := hout b
  simp only [Linked.out, List.nil_append, List.count_append, held]
  omega

/-- The heap with the references of `more` counted too. -/
def raise (more : List Pointer) (h : Heap) : Heap := { h with blocks := h.blocks.raise more }

theorem incrAndGet_raise {more : List Pointer}
    (hc : ∀ p ∈ c.out, ∃ n, h.count? p = some n ∧ 0 < n ∧ n + (more ++ c.out).count p < 2 ^ 31) :
    (h.raise more).incrAndGet c = .ok (h.raise (more ++ c.out)) := by
  cases c with
  | ref p =>
      obtain ⟨n, hn, hpos, hroom⟩ := hc p (List.mem_singleton_self p)
      obtain ⟨d, hb⟩ := count?_eq_some.mp hn
      rw [List.count_append, Cell.out_ref, List.count_singleton_self] at hroom
      have hraise := Store.block?_raise hb more
      have hput : (h.blocks.raise more).put p (some ⟨n + (more ++ [p]).count p, d⟩) =
          h.blocks.raise (more ++ [p]) := Store.put_raise hb fun b hb' ↦ by
        rw [List.count_append, List.count_eq_zero.mpr fun hmem ↦ hb' (List.mem_singleton.mp hmem),
          Nat.add_zero]
      rw [List.count_append, List.count_singleton_self, ← Nat.add_assoc] at hput
      have hne : n + more.count p ≠ 0 := by omega
      simp only [incrAndGet, raise, hraise, if_neg hne, hput, Cell.out_ref]
      exact if_pos (by omega)
  | _ => simp only [incrAndGet, Cell.out, List.append_nil]

theorem foldlM_incrAndGet {cs : List Cell} {more : List Pointer}
    (hc : ∀ p ∈ cs.flatMap Cell.out, ∃ n, h.count? p = some n ∧ 0 < n ∧
      n + (more ++ cs.flatMap Cell.out).count p < 2 ^ 31) :
    cs.foldlM (fun h c ↦ h.incrAndGet c) (h.raise more) =
      .ok (h.raise (more ++ cs.flatMap Cell.out)) := by
  induction cs generalizing more with
  | nil =>
      rw [List.flatMap_nil, List.append_nil]
      rfl
  | cons c cs ih =>
      rw [List.flatMap_cons] at hc ⊢
      have hhead : (h.raise more).incrAndGet c = .ok (h.raise (more ++ c.out)) := by
        refine incrAndGet_raise fun p hp ↦ ?_
        obtain ⟨n, hn, hpos, hroom⟩ := hc p (List.mem_append_left _ hp)
        refine ⟨n, hn, hpos, ?_⟩
        rw [← List.append_assoc, List.count_append] at hroom
        omega
      rw [List.foldlM_cons, hhead, Exec.ok_bind, ih, List.append_assoc]
      intro p hp
      rw [List.append_assoc]
      exact hc p (List.mem_append_right _ hp)

theorem foldlM_drop {cs : List Cell}
    (hc : ∀ p ∈ cs.flatMap Cell.out, ∃ n, h.count? p = some n ∧ 0 < n) :
    cs.foldlM (fun h c ↦ h.drop c) (h.raise (cs.flatMap Cell.out)) = .ok h := by
  induction cs with
  | nil =>
      rw [List.flatMap_nil, raise, Store.raise_nil]
      rfl
  | cons c cs ih =>
      rw [List.flatMap_cons] at hc ⊢
      have hdrop : (h.raise (c.out ++ cs.flatMap Cell.out)).drop c =
          .ok (h.raise (cs.flatMap Cell.out)) := by
        rw [drop, raise, Store.release_raise _ (Nat.le_add_right ..)]
        · rfl
        · intro p hp
          obtain ⟨n, hn, hpos⟩ := hc p (List.mem_append_left _ hp)
          obtain ⟨d, hb⟩ := count?_eq_some.mp hn
          exact ⟨_, hb, hpos⟩
      rw [List.foldlM_cons, hdrop, Exec.ok_bind]
      exact ih fun p hp ↦ hc p (List.mem_append_right _ hp)

/-- A reallocation leaves the heap as it was. -/
theorem reallocate_eq {cs : List Cell}
    (hc : ∀ p ∈ cs.flatMap Cell.out, ∃ n, h.count? p = some n ∧ 0 < n ∧
      n + (cs.flatMap Cell.out).count p < 2 ^ 31) : h.reallocate cs = .ok h := by
  have hincr : cs.foldlM (fun h c ↦ h.incrAndGet c) (h.raise []) =
      .ok (h.raise ([] ++ cs.flatMap Cell.out)) := foldlM_incrAndGet hc
  rw [raise, Store.raise_nil, List.nil_append] at hincr
  have hdrop := foldlM_drop fun p hp ↦ by
    obtain ⟨n, hn, hpos, -⟩ := hc p hp
    exact ⟨n, hn, hpos⟩
  simp only [reallocate, hincr, Exec.ok_bind, hdrop]

theorem mem_out_of_mem_leaves {init : Init} {q : Pointer} {d : BlockData} (hg : h.Given init)
    (hd : h.data p = some d) (hq : q ∈ (init.leaves p d).out) : q ∈ d.out := by
  cases init with
  | move rhs =>
      obtain ⟨c, hr⟩ := hg
      cases rhs with
      | var n => exact hq
      | inside r i =>
          simp only [Init.leaves, Loc.setIn] at hq
          split at hq
          next heq =>
            subst heq
            obtain ⟨d', hd', hi⟩ := read_inside.mp hr
            cases hd.symm.trans hd'
            have hcount := BlockData.count_out_set hi .null q
            have hpos := List.count_pos_iff.mpr hq
            rw [Cell.out_null, List.count_nil] at hcount
            exact List.count_pos_iff.mp (by omega)
          next => exact hq
  | _ => exact hq

theorem exists_addValue {this : Loc} {args : Init} {full : Bool} (hex : h.Exact [])
    (ht : h.HasType this .array) (hg : h.Given args) (hroom : h.Room args)
    (hgrow : full = true → h.RoomToGrow this args) :
    ∃ h', h.addValue this args full = .ok h' ∧ h'.Exact [] := by
  obtain ⟨p, hp, hr⟩ := ht
  obtain ⟨d, hd⟩ := hex.exists_data hr
  obtain ⟨c, h₁, hok, hc⟩ := exists_construct hex hg hroom
  have hd' := hc.data p d hd
  obtain ⟨n, hb, htype⟩ := data_of_texts hd' hp
  cases hleft : args.leaves p d with
  | array cs =>
      rw [hleft] at hb
      have hreallocate : full = true → h₁.reallocate cs = .ok h₁ := by
        refine fun hfull ↦ reallocate_eq fun q hq ↦ ?_
        have hq' : q ∈ (args.leaves p d).out := by rwa [hleft]
        obtain ⟨dq, hdq⟩ := hex.exists_data_of_out hd (mem_out_of_mem_leaves hg hd hq')
        obtain ⟨m, hbq⟩ := data_eq_some.mp hdq
        have hm : h.count? q = some m := count?_eq_some.mpr ⟨dq, hbq⟩
        have hlt := hgrow hfull p d q m hr hd hq' hm
        rw [hleft] at hlt
        exact ⟨_, hc.count q m hm, Nat.lt_of_lt_of_le (hex.count hm).2 (Nat.le_add_right ..), hlt⟩
      refine ⟨{ h₁ with blocks := h₁.blocks.put p (some ⟨n, .array (cs ++ [c])⟩) }, ?_, ?_⟩
      · cases full with
        | true =>
            simp only [addValue, hr, Exec.ok_bind, if_pos hp, hok, hb, if_true, hreallocate rfl]
        | false =>
            simp only [addValue, hr, Exec.ok_bind, if_pos hp, hok, hb, Bool.false_eq_true, if_false]
      refine exact_put hc.exact hb rfl fun b ↦ ?_
      simp only [BlockData.out, List.flatMap_append, List.flatMap_cons, List.flatMap_nil,
        List.count_append, List.count_nil, Nat.add_zero]
  | str s => cases (congrArg BlockData.type hleft).symm.trans htype
  | object ms => cases (congrArg BlockData.type hleft).symm.trans htype

theorem count_out_emplace {ms : List (Bytes × Cell × Cell)} {text : Bytes} {key value : Cell}
    (hm : text ∉ keys ms) (b : Pointer) :
    (BlockData.object (OrderedMap.emplace text (key, value) ms)).out.count b =
      (BlockData.object ms).out.count b + (key.out ++ value.out).count b := by
  have hperm := (OrderedMap.perm_emplace (v := (key, value)) hm).flatMap_right
    fun m ↦ m.2.1.out ++ m.2.2.out
  simp only [BlockData.out]
  rw [hperm.count_eq b, List.flatMap_cons, List.count_append]
  exact Nat.add_comm ..

theorem exists_addMember {this key : Loc} {args : Init} (hex : h.Exact [])
    (ht : h.HasType this .object) (hk : h.HasType key .str) (hg : h.Given args)
    (hroom : h.Room args)
    (hm : ∀ p q block text, h.read this = .ok (.ref p) → h.blocks.block? p = some block →
      h.read key = .ok (.ref q) → h.getString (.ref q) = .ok text → text ∉ block.data_.texts) :
    ∃ h', h.addMember this key args = .ok h' ∧ h'.Exact [] := by
  obtain ⟨p, hp, hr⟩ := ht
  obtain ⟨q, hq, hrk⟩ := hk
  obtain ⟨d, hd⟩ := hex.exists_data hr
  obtain ⟨n, hb, htype⟩ := data_of_texts hd hp
  obtain ⟨dk, hdk⟩ := hex.exists_data hrk
  obtain ⟨nk, hbk, htypek⟩ := data_of_texts hdk hq
  cases dk with
  | array cs => cases htypek
  | object ms => cases htypek
  | str text =>
      have htext : h.getString (.ref q) = .ok text := by simp only [getString, hbk]
      cases d with
      | str s => cases htype
      | array cs => cases htype
      | object ms =>
          have hnot : text ∉ keys ms := hm p q _ text hr hb hrk htext
          obtain ⟨h₁, hok₁, hw⟩ := exists_write hrk .null
          have hex₁ : h₁.Exact [q] := hw.exact hex fun b ↦ by simp
          have hg₁ : h₁.Given args := hw.given hg
          obtain ⟨c, h₂, hok₂, hc⟩ := exists_construct hex₁ hg₁ (hw.room hroom)
          have hd₁ : h₁.data p = some (key.setIn .null p (.object ms)) := by rw [hw.data, hd]; rfl
          have hd₂ := hc.data p _ hd₁
          obtain ⟨n₂, hb₂, htype₂⟩ := data_of_texts hd₂ hp
          cases hleft : args.leaves p (key.setIn .null p (.object ms)) with
          | str s => cases (congrArg BlockData.type hleft).symm.trans htype₂
          | array cs => cases (congrArg BlockData.type hleft).symm.trans htype₂
          | object ms₂ =>
              rw [hleft] at hb₂
              have hnot₂ : text ∉ keys ms₂ := by
                have heq : keys ms₂ = keys ms := by
                  have htexts := congrArg BlockData.texts hleft
                  rw [Init.texts_leaves, Loc.texts_setIn] at htexts
                  exact htexts.symm
                rwa [heq]
              refine ⟨_, by
                simp only [addMember, hr, Exec.ok_bind, hb, hrk, htext, if_neg hnot, hok₁, hok₂,
                  hb₂]
                rfl, ?_⟩
              refine exact_put hc.exact hb₂ rfl fun b ↦ ?_
              rw [count_out_emplace hnot₂, List.count_append, List.count_append]
              exact congrArg _ (Nat.add_comm ..)

end Heap

end RpcLearning.Json
