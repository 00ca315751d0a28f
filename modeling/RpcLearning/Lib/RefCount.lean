import RpcLearning.Lib.Exec

/-!
# Reference counts

A store of blocks that refer to each other.  Each block counts the references to it, from blocks of
the store and from outside; dropping a reference takes one off, and a block whose count comes to
zero is deleted, with the references that it holds.  The counts are exact throughout, so that no
block is deleted while there are references to it.
-/

universe u v

namespace RpcLearning

/-- The address of a block of some kind. -/
structure Addr (κ : Type v) where
  kind : κ
  index : Nat
deriving DecidableEq, Repr

/-- A block, with the number of references to it. -/
structure Counted (β : Type u) where
  refCount : Nat
  data_ : β

/-- Contents of blocks: of which kind they are, and the references they hold. -/
class Linked (β : Type u) (κ : outParam (Type v)) where
  kind : β → κ
  out : β → List (Addr κ)

/-- The blocks by index.  A block that was deleted leaves nothing, and its index is not used
again. -/
structure Store (β : Type u) where
  blocks : List (Option (Counted β))

namespace Store

open Linked

variable {β : Type u} {κ : Type v} [DecidableEq κ] [Linked β κ]

def empty : Store β := ⟨[]⟩

/-- The block at an address. -/
def block? (s : Store β) (a : Addr κ) : Option (Counted β) :=
  match s.blocks[a.index]?.join with
  | some c => if kind c.data_ = a.kind then some c else none
  | none => none

def put (a : Addr κ) (x : Option (Counted β)) (s : Store β) : Store β :=
  ⟨s.blocks.set a.index x⟩

/-- A new block, with the one reference that it is allocated for. -/
def alloc (d : β) (s : Store β) : Addr κ × Store β :=
  (⟨kind d, s.blocks.length⟩, ⟨s.blocks ++ [some ⟨1, d⟩]⟩)

/-- The references that a block holds. -/
def outs : Option (Counted β) → List (Addr κ)
  | some c => out c.data_
  | none => []

/-- The references that are held in the store. -/
def refs (s : Store β) : List (Addr κ) := s.blocks.flatMap outs

/-- The counts are those of the references in the store and of `ext`, and no reference leads to
nothing. -/
structure Exact (ext : List (Addr κ)) (s : Store β) : Prop where
  count : ∀ {a c}, s.block? a = some c → c.refCount = s.refs.count a + ext.count a
  pos : ∀ {a c}, s.block? a = some c → 0 < c.refCount
  absent : ∀ {a}, s.block? a = none → s.refs.count a + ext.count a = 0

/-- Drop references one after the other, with those of the blocks that are deleted.  The bound is
on the number of references to drop. -/
def release : Nat → List (Addr κ) → Store β → Run (Store β)
  | _, [], s => .ok s
  | 0, _ :: _, _ => .error .fuel
  | fuel + 1, a :: work, s =>
    match s.block? a with
    | none => .error .dangling
    | some ⟨0, _⟩ => .error .assertion
    | some ⟨1, d⟩ => release fuel (out d ++ work) (s.put a none)
    | some ⟨n + 2, d⟩ => release fuel work (s.put a (some ⟨n + 1, d⟩))

/-! ## Lookups -/

variable {s s' : Store β} {a a' : Addr κ} {c : Counted β} {ext ext' : List (Addr κ)}

theorem block?_eq_some :
    s.block? a = some c ↔ s.blocks[a.index]? = some (some c) ∧ kind c.data_ = a.kind := by
  unfold block?
  rw [← Option.join_eq_some_iff]
  cases h : s.blocks[a.index]?.join with
  | none => exact iff_of_false nofun nofun
  | some c' =>
      by_cases hk : kind c'.data_ = a.kind
      · simp only [if_pos hk, Option.some.injEq]
        exact ⟨fun heq ↦ ⟨heq, heq ▸ hk⟩, And.left⟩
      · simp only [if_neg hk, Option.some.injEq]
        exact ⟨nofun, fun ⟨heq, hk'⟩ ↦ absurd (heq ▸ hk') hk⟩

theorem block?_eq_some' {x : Counted β} (h : s.block? a = some c) (hi : a.index = a'.index) :
    s.block? a' = some x ↔ a' = a ∧ x = c := by
  obtain ⟨hs, hkind⟩ := block?_eq_some.mp h
  constructor
  · intro hx
    obtain ⟨hs', hk'⟩ := block?_eq_some.mp hx
    rw [← hi, hs] at hs'
    obtain rfl : c = x := by simpa using hs'
    cases a
    cases a'
    exact ⟨congrArg₂ Addr.mk (hk'.symm.trans hkind) hi.symm, rfl⟩
  · rintro ⟨rfl, rfl⟩
    exact h

theorem lt_length (h : s.block? a = some c) : a.index < s.blocks.length :=
  (List.getElem?_eq_some_iff.mp (block?_eq_some.mp h).1).1

theorem block?_put_self (h : s.block? a = some c) {c' : Counted β}
    (hk : kind c'.data_ = kind c.data_) : (s.put a (some c')).block? a = some c' :=
  block?_eq_some.mpr
    ⟨List.getElem?_set_self (lt_length h), hk.trans (block?_eq_some.mp h).2⟩

/-- One block is replaced by another of its kind. -/
theorem block?_put {b : Addr κ} (h : s.block? a = some c) {e x : Counted β}
    (hk : kind e.data_ = kind c.data_) : (s.put a (some e)).block? b = some x ↔
      (b = a ∧ x = e) ∨ (b ≠ a ∧ s.block? b = some x) := by
  by_cases hi : a.index = b.index
  · rw [block?_eq_some' (block?_put_self h hk) hi, block?_eq_some' h hi]
    exact ⟨.inl, fun hx ↦ hx.resolve_right fun ⟨hne, heq, _⟩ ↦ hne heq⟩
  · have hne : b ≠ a := fun heq ↦ hi (congrArg Addr.index heq.symm)
    rw [block?_eq_some, put, List.getElem?_set_ne hi, ← block?_eq_some]
    exact ⟨fun hx ↦ .inr ⟨hne, hx⟩, fun hx ↦ hx.elim (fun hx ↦ absurd hx.1 hne) And.right⟩

/-- A block is deleted. -/
theorem block?_put_none {b : Addr κ} (h : s.block? a = some c) {x : Counted β} :
    (s.put a none).block? b = some x ↔ b ≠ a ∧ s.block? b = some x := by
  by_cases hi : a.index = b.index
  · rw [block?_eq_some' h hi, block?_eq_some, put, ← hi, List.getElem?_set_self (lt_length h)]
    exact iff_of_false nofun fun ⟨hne, heq, _⟩ ↦ hne heq
  · have hne : b ≠ a := fun heq ↦ hi (congrArg Addr.index heq.symm)
    rw [block?_eq_some, put, List.getElem?_set_ne hi, ← block?_eq_some]
    exact ⟨fun hx ↦ ⟨hne, hx⟩, And.right⟩

theorem block?_alloc {d : β} {x : Counted β} : (s.alloc d).2.block? a = some x ↔
    (a = (s.alloc d).1 ∧ x = ⟨1, d⟩) ∨ s.block? a = some x := by
  rw [block?_eq_some, block?_eq_some, alloc]
  rcases Nat.lt_trichotomy a.index s.blocks.length with hlt | heq | hgt
  · rw [List.getElem?_append_left hlt]
    refine ⟨.inr, fun hx ↦ hx.resolve_left ?_⟩
    rintro ⟨rfl, -⟩
    exact absurd hlt (lt_irrefl _)
  · rw [heq, List.getElem?_concat_length, List.getElem?_eq_none le_rfl]
    constructor
    · rintro ⟨hx, hk⟩
      obtain rfl : (⟨1, d⟩ : Counted β) = x := by simpa using hx
      refine .inl ⟨?_, rfl⟩
      cases a
      exact congrArg₂ Addr.mk hk.symm heq
    · rintro (⟨rfl, rfl⟩ | ⟨hx, -⟩)
      · exact ⟨rfl, rfl⟩
      · cases hx
  · have hle : s.blocks.length ≤ a.index := hgt.le
    rw [List.getElem?_eq_none hle,
      List.getElem?_eq_none (by rw [List.length_append, List.length_singleton]; omega)]
    refine iff_of_false nofun ?_
    rintro (⟨rfl, -⟩ | ⟨hx, -⟩)
    · exact absurd hgt (lt_irrefl _)
    · cases hx

/-! ## Counting -/

theorem count_flatMap_set {α : Type*} {l : List α} {f : α → List (Addr κ)} {i : Nat} {x : α}
    (h : l[i]? = some x) (y : α) (b : Addr κ) :
    ((l.set i y).flatMap f).count b + (f x).count b = (l.flatMap f).count b + (f y).count b := by
  induction l generalizing i with
  | nil => cases h
  | cons z l ih =>
      cases i with
      | zero =>
          obtain rfl : z = x := Option.some.inj h
          simp only [List.set_cons_zero, List.flatMap_cons, List.count_append]
          omega
      | succ i =>
          have hl := ih (i := i) h
          simp only [List.set_cons_succ, List.flatMap_cons, List.count_append]
          omega

theorem count_refs_put (h : s.block? a = some c) (x : Option (Counted β)) (b : Addr κ) :
    (s.put a x).refs.count b + (out c.data_).count b = s.refs.count b + (outs x).count b :=
  count_flatMap_set (block?_eq_some.mp h).1 x b

theorem length_refs_put (h : s.block? a = some c) (x : Option (Counted β)) :
    (s.put a x).refs.length + (out c.data_).length = s.refs.length + (outs x).length := by
  have hperm : ((s.put a x).refs ++ out c.data_).Perm (s.refs ++ outs x) :=
    List.perm_iff_count.mpr fun b ↦ by
      rw [List.count_append, List.count_append, count_refs_put h x b]
  rw [← List.length_append, ← List.length_append, hperm.length_eq]

omit [DecidableEq κ] in
theorem refs_alloc (d : β) (s : Store β) : (s.alloc d).2.refs = s.refs ++ out d := by
  rw [alloc, refs, List.flatMap_append]
  simp [refs, outs]

/-! ## What keeps the counts exact -/

/-- Only the number of references from outside matters. -/
theorem Exact.congr (h : s.Exact ext) (he : ∀ b, ext'.count b = ext.count b) : s.Exact ext' :=
  ⟨fun hc ↦ by rw [he]; exact h.count hc, h.pos, fun hc ↦ by rw [he]; exact h.absent hc⟩

/-- A block gets a new count and new contents, and the references from outside change with it. -/
theorem Exact.set (h : s.Exact ext) (hc : s.block? a = some c) {e : Counted β}
    (hk : kind e.data_ = kind c.data_) (hpos : 0 < e.refCount)
    (ha : e.refCount = (s.put a (some e)).refs.count a + ext'.count a)
    (hne : ∀ b, b ≠ a →
      (s.put a (some e)).refs.count b + ext'.count b = s.refs.count b + ext.count b) :
    (s.put a (some e)).Exact ext' := by
  have hput := fun {b x} ↦ block?_put (b := b) (x := x) hc (e := e) hk
  refine ⟨fun {a' x} hx ↦ ?_, fun {a' x} hx ↦ ?_, fun {a'} hx ↦ ?_⟩
  · rcases hput.mp hx with ⟨rfl, rfl⟩ | ⟨hb, hx⟩
    · exact ha
    · rw [hne a' hb]
      exact h.count hx
  · rcases hput.mp hx with ⟨rfl, rfl⟩ | ⟨-, hx⟩
    · exact hpos
    · exact h.pos hx
  · have hb : a' ≠ a := fun heq ↦ nomatch hx.symm.trans (hput.mpr (.inl ⟨heq, rfl⟩))
    rw [hne a' hb]
    refine h.absent (Option.eq_none_iff_forall_ne_some.mpr fun x hx' ↦ ?_)
    exact nomatch hx.symm.trans (hput.mpr (.inr ⟨hb, hx'⟩))

/-- The contents of a block are changed, with the references from outside that this takes. -/
theorem Exact.modify (h : s.Exact ext) (hc : s.block? a = some c) {d : β}
    (hk : kind d = kind c.data_)
    (hd : ∀ b, (out d).count b + ext'.count b = (out c.data_).count b + ext.count b) :
    (s.put a (some ⟨c.refCount, d⟩)).Exact ext' := by
  have hrefs : ∀ b, (s.put a (some ⟨c.refCount, d⟩)).refs.count b + ext'.count b =
      s.refs.count b + ext.count b := by
    intro b
    have hcount := count_refs_put hc (some ⟨c.refCount, d⟩) b
    have hb := hd b
    simp only [outs] at hcount
    omega
  have hpos := h.pos hc
  have hcount := h.count hc
  refine h.set hc hk hpos ?_ ?_
  · rw [hrefs]
    exact hcount
  · exact fun b _ ↦ hrefs b

/-- A new block without references. -/
theorem Exact.alloc (h : s.Exact ext) {d : β} (hd : out d = []) :
    (s.alloc d).2.Exact ((s.alloc d).1 :: ext) := by
  have hrefs : (s.alloc d).2.refs = s.refs := by rw [refs_alloc, hd, List.append_nil]
  have hnew : s.block? (s.alloc d).1 = none :=
    Option.eq_none_iff_forall_ne_some.mpr fun x hx ↦ absurd (lt_length hx) (lt_irrefl _)
  refine ⟨fun {a x} hx ↦ ?_, fun {a x} hx ↦ ?_, fun {a} hx ↦ ?_⟩
  · rw [hrefs]
    rcases block?_alloc.mp hx with ⟨rfl, rfl⟩ | hx
    · have hzero := h.absent hnew
      rw [List.count_cons_self]
      change 1 = _
      omega
    · have hne : (s.alloc d).1 ≠ a := by
        rintro rfl
        cases hnew.symm.trans hx
      rw [List.count_cons_of_ne hne]
      exact h.count hx
  · rcases block?_alloc.mp hx with ⟨rfl, rfl⟩ | hx
    · exact Nat.one_pos
    · exact h.pos hx
  · have hne : (s.alloc d).1 ≠ a := fun heq ↦
      nomatch hx.symm.trans (block?_alloc.mpr (.inl ⟨heq.symm, rfl⟩))
    rw [hrefs, List.count_cons_of_ne hne]
    refine h.absent (Option.eq_none_iff_forall_ne_some.mpr fun x hx' ↦ ?_)
    exact nomatch hx.symm.trans (block?_alloc.mpr (.inr hx'))

/-- A reference that is dropped, where there are others. -/
theorem Exact.decr (h : s.Exact (a :: ext)) (hc : s.block? a = some c) {n : Nat}
    (hn : c.refCount = n + 2) : (s.put a (some ⟨n + 1, c.data_⟩)).Exact ext := by
  have hrefs : ∀ b, (s.put a (some ⟨n + 1, c.data_⟩)).refs.count b = s.refs.count b := by
    intro b
    have hcount := count_refs_put hc (some ⟨n + 1, c.data_⟩) b
    simp only [outs] at hcount
    omega
  refine h.set hc rfl (Nat.succ_pos n) ?_ ?_
  · have hcount := h.count hc
    rw [hn, List.count_cons_self] at hcount
    rw [hrefs]
    change n + 1 = _
    omega
  · intro b hb
    rw [hrefs, List.count_cons_of_ne hb.symm]

/-- The last reference to a block is dropped: its own references come from outside now. -/
theorem Exact.delete (h : s.Exact (a :: ext)) (hc : s.block? a = some c)
    (hn : c.refCount = 1) : (s.put a none).Exact (out c.data_ ++ ext) := by
  have hput := fun {b x} ↦ block?_put_none (b := b) (x := x) hc
  have hrefs : ∀ b, (s.put a none).refs.count b + (out c.data_ ++ ext).count b =
      s.refs.count b + ext.count b := by
    intro b
    have hcount := count_refs_put hc none b
    simp only [outs, List.count_nil] at hcount
    rw [List.count_append]
    omega
  refine ⟨fun {a' x} hx ↦ ?_, fun {a' x} hx ↦ ?_, fun {a'} hx ↦ ?_⟩
  · obtain ⟨hne, hx⟩ := hput.mp hx
    rw [hrefs, h.count hx, List.count_cons_of_ne hne.symm]
  · exact h.pos (hput.mp hx).2
  · rw [hrefs]
    by_cases heq : a = a'
    · subst heq
      have hcount := h.count hc
      rw [hn, List.count_cons_self] at hcount
      omega
    · have hzero : s.refs.count a' + (a :: ext).count a' = 0 :=
        h.absent (Option.eq_none_iff_forall_ne_some.mpr fun x hx' ↦
          nomatch hx.symm.trans (hput.mpr ⟨fun h ↦ heq h.symm, hx'⟩))
      rwa [List.count_cons_of_ne heq] at hzero

/-! ## References that are taken and dropped again -/

/-- Every block counts the references of `more` too. -/
def raise (more : List (Addr κ)) (s : Store β) : Store β :=
  ⟨s.blocks.mapIdx fun i x ↦
    x.map fun c ↦ ⟨c.refCount + more.count ⟨kind c.data_, i⟩, c.data_⟩⟩

@[simp] theorem raise_nil (s : Store β) : s.raise [] = s := by
  refine congrArg Store.mk (List.ext_getElem? fun i ↦ ?_)
  rw [List.getElem?_mapIdx]
  cases s.blocks[i]? with
  | none => rfl
  | some x => cases x <;> rfl

theorem block?_raise (h : s.block? a = some c) (more : List (Addr κ)) :
    (s.raise more).block? a = some ⟨c.refCount + more.count a, c.data_⟩ := by
  obtain ⟨hs, hk⟩ := block?_eq_some.mp h
  refine block?_eq_some.mpr ⟨?_, hk⟩
  simp only [raise, List.getElem?_mapIdx, hs, Option.map_some, hk]

/-- One count is brought to what it is with other references. -/
theorem put_raise {more more' : List (Addr κ)} (h : s.block? a = some c)
    (hne : ∀ b, b ≠ a → more'.count b = more.count b) :
    (s.raise more).put a (some ⟨c.refCount + more'.count a, c.data_⟩) = s.raise more' := by
  obtain ⟨hs, hk⟩ := block?_eq_some.mp h
  refine congrArg Store.mk (List.ext_getElem? fun i ↦ ?_)
  by_cases hi : a.index = i
  · subst hi
    rw [List.getElem?_set_self (lt_length (block?_raise h more)), List.getElem?_mapIdx, hs,
      Option.map_some, Option.map_some, hk]
  · rw [List.getElem?_set_ne hi, raise, List.getElem?_mapIdx, List.getElem?_mapIdx]
    cases s.blocks[i]? with
    | none => rfl
    | some x =>
        cases x with
        | none => rfl
        | some c' =>
            have hb : (⟨kind c'.data_, i⟩ : Addr κ) ≠ a :=
              fun heq ↦ hi (congrArg Addr.index heq.symm)
            simp only [Option.map_some, hne _ hb]

/-- Dropping the references that were taken leaves the store as it was. -/
theorem release_raise {fuel : Nat} {work more : List (Addr κ)}
    (hlive : ∀ a ∈ work, ∃ c, s.block? a = some c ∧ 0 < c.refCount) (hf : work.length ≤ fuel) :
    release fuel work (s.raise (work ++ more)) = .ok (s.raise more) := by
  induction work generalizing fuel with
  | nil => cases fuel <;> rfl
  | cons a work ih =>
      rw [List.length_cons] at hf
      obtain ⟨⟨n, d⟩, hc, hpos⟩ := hlive a List.mem_cons_self
      obtain ⟨fuel, rfl⟩ : ∃ k, fuel = k + 1 := ⟨fuel - 1, by omega⟩
      have hb := block?_raise hc (a :: (work ++ more))
      -- the count stays positive, since it was so before
      obtain ⟨m, hm⟩ : ∃ m, n + (a :: (work ++ more)).count a = m + 2 := by
        change 0 < n at hpos
        rw [List.count_cons_self]
        exact ⟨n + (work ++ more).count a - 1, by omega⟩
      have hput : (s.raise (a :: (work ++ more))).put a (some ⟨m + 1, d⟩) =
          s.raise (work ++ more) := by
        have heq : m + 1 = n + (work ++ more).count a := by
          rw [List.count_cons_self] at hm
          omega
        rw [heq]
        exact put_raise hc fun b hb ↦ (List.count_cons_of_ne hb.symm).symm
      rw [hm] at hb
      simp only [List.cons_append, release, hb, hput]
      exact ih (fun b hb ↦ hlive b (List.mem_cons_of_mem a hb)) (by omega)

/-! ## Dropping references -/

/-- Every block of `s'` is in `s` too, with the same contents. -/
def Within (s' s : Store β) : Prop :=
  ∀ a c', s'.block? a = some c' → ∃ c, s.block? a = some c ∧ c.data_ = c'.data_

/-- Every address of `K` is referred to from `ext`, or by a block whose address is in `K`. -/
def Keeps (ext : List (Addr κ)) (s : Store β) (K : Set (Addr κ)) : Prop :=
  ∀ a ∈ K, a ∈ ext ∨ ∃ b ∈ K, ∃ c, s.block? b = some c ∧ a ∈ out c.data_

theorem Within.refl (s : Store β) : s.Within s := fun _ c' hc ↦ ⟨c', hc, rfl⟩

theorem Within.trans {s₁ s₂ s₃ : Store β} (h : s₁.Within s₂) (h' : s₂.Within s₃) :
    s₁.Within s₃ := by
  intro a c₁ hc₁
  obtain ⟨c₂, hc₂, hd⟩ := h a c₁ hc₁
  obtain ⟨c₃, hc₃, hd'⟩ := h' a c₂ hc₂
  exact ⟨c₃, hc₃, hd'.trans hd⟩

theorem Exact.live (h : s.Exact ext) {K : Set (Addr κ)} (hK : Keeps ext s K) (ha : a ∈ K) :
    ∃ c, s.block? a = some c := by
  refine Option.ne_none_iff_exists'.mp fun hnone ↦ ?_
  have hzero := h.absent hnone
  rcases hK a ha with hext | ⟨b, -, c, hc, hout⟩
  · have hpos := List.count_pos_iff.mpr hext
    omega
  · have hmem : a ∈ s.refs :=
      List.mem_flatMap.mpr ⟨some c, List.mem_of_getElem? (block?_eq_some.mp hc).1, hout⟩
    have hpos := List.count_pos_iff.mpr hmem
    omega

/-- Dropping references deletes no block that is referred to from elsewhere, and leaves the counts
exact. -/
theorem exists_release {fuel : Nat} {work : List (Addr κ)} (h : s.Exact (work ++ ext))
    (hf : work.length + s.refs.length ≤ fuel) :
    ∃ s', release fuel work s = .ok s' ∧ s'.Exact ext ∧ s'.Within s ∧
      (∀ b, s'.refs.count b ≤ s.refs.count b) ∧
      ∀ K, Keeps ext s K → ∀ a ∈ K, ∃ c, s'.block? a = some c := by
  induction fuel generalizing work s with
  | zero =>
      obtain rfl : work = [] := List.length_eq_zero_iff.mp (by omega)
      exact ⟨s, rfl, h, .refl s, fun _ ↦ le_rfl, fun K hK a ha ↦ h.live hK ha⟩
  | succ fuel ih =>
      cases work with
      | nil => exact ⟨s, rfl, h, .refl s, fun _ ↦ le_rfl, fun K hK a ha ↦ h.live hK ha⟩
      | cons b work =>
          rw [List.length_cons] at hf
          rw [List.cons_append] at h
          obtain ⟨⟨n, d⟩, hc⟩ : ∃ c, s.block? b = some c := by
            refine Option.ne_none_iff_exists'.mp fun hnone ↦ ?_
            have hzero := h.absent hnone
            rw [List.count_cons_self] at hzero
            omega
          have hpos : 0 < n := h.pos hc
          have hcount : n = s.refs.count b + (b :: (work ++ ext)).count b := h.count hc
          obtain ⟨n, rfl⟩ : ∃ k, n = k + 1 := ⟨n - 1, by omega⟩
          cases n with
          | zero =>
              have hlen : (s.put b none).refs.length + (out d).length = s.refs.length :=
                length_refs_put hc none
              have hdel : (s.put b none).Exact (out d ++ work ++ ext) := by
                rw [List.append_assoc]
                exact h.delete hc rfl
              obtain ⟨s', hok, hex, hw, hle, hk⟩ := ih hdel (by rw [List.length_append]; omega)
              refine ⟨s', by simp only [release, hc, hok], hex, hw.trans ?_, fun x ↦ ?_,
                fun K hK a ha ↦ ?_⟩
              · exact fun a c' hx ↦ ⟨c', ((block?_put_none hc).mp hx).2, rfl⟩
              · have hx : (s.put b none).refs.count x + (out d).count x = s.refs.count x :=
                  count_refs_put hc none x
                exact (hle x).trans (by omega)
              · -- the block that is deleted is not kept: the reference that is dropped is the last
                have hb : b ∉ K := by
                  intro hb
                  rw [List.count_cons_self, List.count_append] at hcount
                  rcases hK b hb with hext | ⟨b', -, c, hc', hout⟩
                  · have hpos := List.count_pos_iff.mpr hext
                    omega
                  · have hmem : b ∈ s.refs := List.mem_flatMap.mpr
                      ⟨some c, List.mem_of_getElem? (block?_eq_some.mp hc').1, hout⟩
                    have hpos := List.count_pos_iff.mpr hmem
                    omega
                refine hk K (fun a ha ↦ (hK a ha).imp_right ?_) a ha
                rintro ⟨b', hb', c, hc', hout⟩
                exact ⟨b', hb', c,
                  (block?_put_none hc).mpr ⟨fun heq ↦ hb (heq ▸ hb'), hc'⟩, hout⟩
          | succ n =>
              have hlen : (s.put b (some ⟨n + 1, d⟩)).refs.length + (out d).length =
                  s.refs.length + (out d).length := length_refs_put hc (some ⟨n + 1, d⟩)
              have hdecr : (s.put b (some ⟨n + 1, d⟩)).Exact (work ++ ext) := h.decr hc rfl
              obtain ⟨s', hok, hex, hw, hle, hk⟩ := ih hdecr (by omega)
              have hput := fun {b x} ↦ block?_put (b := b) (x := x) hc (e := ⟨n + 1, d⟩) rfl
              refine ⟨s', by simp only [release, hc, hok], hex, hw.trans ?_, fun x ↦ ?_,
                fun K hK a ha ↦ ?_⟩
              · intro a c' hx
                rcases hput.mp hx with ⟨rfl, rfl⟩ | ⟨-, hx⟩
                · exact ⟨_, hc, rfl⟩
                · exact ⟨c', hx, rfl⟩
              · have hx : (s.put b (some ⟨n + 1, d⟩)).refs.count x + (out d).count x =
                    s.refs.count x + (out d).count x := count_refs_put hc (some ⟨n + 1, d⟩) x
                exact (hle x).trans (by omega)
              · refine hk K (fun a ha ↦ (hK a ha).imp_right ?_) a ha
                rintro ⟨b', hb', c, hc', hout⟩
                by_cases heq : b' = b
                · subst heq
                  cases hc.symm.trans hc'
                  exact ⟨b', hb', _, hput.mpr (.inl ⟨rfl, rfl⟩), hout⟩
                · exact ⟨b', hb', c, hput.mpr (.inr ⟨heq, hc'⟩), hout⟩

end Store

end RpcLearning
