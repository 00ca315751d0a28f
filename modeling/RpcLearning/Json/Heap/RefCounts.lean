import RpcLearning.Json.Heap.Counting

/-!
# The reference counts of values

Every operation keeps the counts exact: a block counts the `Value`s that point to it, and it is
there while there are some.  An assignment destroys its target first.  That is safe where neither
the source nor the target lies in a block that only the target keeps alive; and the target ends with
what the source had where it does not lie in that value itself.
-/

namespace RpcLearning.Json

open OrderedMap (keys)

namespace Heap

variable {h h' : Heap} {l l' : Loc} {p : Pointer} {i : Nat} {c old : Cell} {ext : List Pointer}

/-! ## Assignments -/

/-- An assignment destroys its target before it looks at its source: neither is in a block that
only the target keeps alive. -/
structure Spares (h : Heap) (this rhs : Loc) : Prop where
  target : h.Supported this this
  source : h.Supported this rhs

/-- What an assignment leaves of the heap: `this` has what `rhs` had, and the blocks that are left
have their contents, but for those that the two are in. -/
structure Assigned (this rhs : Loc) (c : Cell) (h h' : Heap) : Prop where
  exact : h'.Exact []
  self : h'.read this = .ok c
  data : ∀ p d, this.owner ≠ some p → rhs.owner ≠ some p → h'.data p = some d → h.data p = some d

/-- A copy has room in the counter, which is one less where the target had the same block. -/
def RoomToAssign (h : Heap) (this rhs : Loc) : Prop :=
  ∀ p n, h.read rhs = .ok (.ref p) → h.count? p = some n →
    n + 1 < 2 ^ 31 ∨ (h.read this = .ok (.ref p) ∧ n < 2 ^ 31)

theorem exists_assign {this rhs : Loc} (hex : h.Exact []) (hl : h.Live this)
    (hr : h.read rhs = .ok c) (hne : this ≠ rhs) (hs : h.Spares this rhs)
    (hroom : h.RoomToAssign this rhs) :
    ∃ h', h.assign this rhs = .ok h' ∧ Assigned this rhs c h h' := by
  obtain ⟨old, ho⟩ := hl
  obtain ⟨h₁, hok₁, hd⟩ := exists_destroy hex ho
  have hr₁ : h₁.read rhs = .ok c := (hd.others rhs hne.symm hs.source).trans hr
  obtain ⟨h₂, hok₂, hw⟩ := exists_write (hd.self hs.target) c
  -- the source still points to its block, which has room
  have hlive : ∀ p, c = .ref p → ∃ n, h₁.count? p = some n ∧ 0 < n ∧ n + 1 < 2 ^ 31 := by
    rintro p rfl
    obtain ⟨d, hd₁⟩ := hd.exact.exists_data hr₁
    obtain ⟨n₁, hb₁⟩ := data_eq_some.mp hd₁
    have hn₁ : h₁.count? p = some n₁ := count?_eq_some.mpr ⟨d, hb₁⟩
    obtain ⟨d₀, hd₀⟩ := hex.exists_data hr
    obtain ⟨n, hb⟩ := data_eq_some.mp hd₀
    have hn : h.count? p = some n := count?_eq_some.mpr ⟨d₀, hb⟩
    have heq₁ := hd.exact.count hn₁
    have heq := hex.count hn
    have htotal := hd.total p
    simp only [List.count_nil] at heq₁ heq
    refine ⟨n₁, hn₁, heq₁.2, ?_⟩
    rcases hroom p n hr hn with hlt | ⟨hsame, hlt⟩
    · omega
    · cases ho.symm.trans hsame
      rw [Cell.out_ref, List.count_singleton_self] at htotal
      omega
  obtain ⟨h₃, hok₃, hi⟩ := exists_incrAndGet (h := h₂) (c := c) fun p hc ↦ by
    rw [hw.count]
    exact hlive p hc
  refine ⟨h₃, ?_, ?_, ?_, fun p d hp _ hdata ↦ ?_⟩
  · simp only [assign, if_neg hne, hok₁, hr₁, hok₂, Exec.ok_bind, hok₃]
  · refine hd.exact.transfer (fun p ↦ c.out.count p) (fun p ↦ ?_) (fun p ↦ ?_) fun p hp ↦ ?_
    · rw [hi.count, hw.count]
    · have ht := hw.total p
      rw [Cell.out_null, List.count_nil] at ht
      rw [hi.total]
      omega
    · refine List.count_eq_zero.mpr fun hmem ↦ ?_
      cases c with
      | ref q =>
          obtain rfl := List.mem_singleton.mp hmem
          obtain ⟨n, hn, -⟩ := hlive p rfl
          cases hp.symm.trans hn
      | _ => cases hmem
  · exact (read_congr hi.vars fun p _ ↦ hi.data p).trans hw.self
  · rw [hi.data, hw.data_of_ne hp] at hdata
    exact hd.data p d hp hdata

theorem exists_moveAssign {this rhs : Loc} (hex : h.Exact []) (hl : h.Live this)
    (hr : h.read rhs = .ok c) (hne : this ≠ rhs) (hs : h.Spares this rhs) :
    ∃ h', h.moveAssign this rhs = .ok h' ∧ Assigned this rhs c h h' := by
  obtain ⟨old, ho⟩ := hl
  obtain ⟨h₁, hok₁, hd⟩ := exists_destroy hex ho
  have hr₁ : h₁.read rhs = .ok c := (hd.others rhs hne.symm hs.source).trans hr
  obtain ⟨h₂, hok₂, hw⟩ := exists_write (hd.self hs.target) c
  have hr₂ : h₂.read rhs = .ok c := (hw.others rhs hne.symm).trans hr₁
  obtain ⟨h₃, hok₃, hw'⟩ := exists_write hr₂ .null
  refine ⟨h₃, ?_, ?_, (hw'.others this hne).trans hw.self, fun p d hp hp' hdata ↦ ?_⟩
  · simp only [moveAssign, if_neg hne, hok₁, hr₁, hok₂, Exec.ok_bind, hok₃]
  · refine hd.exact.transfer (fun _ ↦ 0) (fun p ↦ ?_) (fun p ↦ ?_) fun _ _ ↦ rfl
    · rw [hw'.count, hw.count]
      exact Option.map_id'.symm
    · have ht := hw.total p
      have ht' := hw'.total p
      rw [Cell.out_null, List.count_nil] at ht ht'
      omega
  · rw [hw'.data_of_ne hp', hw.data_of_ne hp] at hdata
    exact hd.data p d hp hdata

/-! ## What a value denotes -/

/-- The value that a `Value` stands for. -/
inductive Denotes (h : Heap) : Cell → Value → Prop
  | null : Denotes h .null .null
  | bool (b : Bool) : Denotes h (.bool b) (.bool b)
  | int32 (i : Int32) : Denotes h (.int32 i) (.int32 i)
  | int64 (i : Int64) : Denotes h (.int64 i) (.int64 i)
  | double (d : Double) : Denotes h (.double d) (.double d)
  | string {p : Pointer} {s : Bytes} (hd : h.data p = some (.str s)) :
      Denotes h (.ref p) (.string s)
  | array {p : Pointer} {cs : List Cell} {vs : List Value} (hd : h.data p = some (.array cs))
      (hlen : cs.length = vs.length)
      (hv : ∀ (i : Nat) c v, cs[i]? = some c → vs[i]? = some v → Denotes h c v) :
      Denotes h (.ref p) (.array vs)
  | object {p : Pointer} {ms : List (Bytes × Cell × Cell)} {vs : List (Bytes × Value)}
      (hd : h.data p = some (.object ms)) (hkeys : keys ms = keys vs)
      (hk : ∀ m ∈ ms, Denotes h m.2.1 (.string m.1))
      (hv : ∀ (i : Nat) m v, ms[i]? = some m → vs[i]? = some v → Denotes h m.2.2 v.2) :
      Denotes h (.ref p) (.object vs)

/-- A block points to another. -/
def Edge (h : Heap) (p q : Pointer) : Prop := ∃ d, h.data p = some d ∧ q ∈ d.out

/-- A `Value` whose contents are `c` has the block somewhere in it. -/
def Has (h : Heap) (c : Cell) (q : Pointer) : Prop :=
  ∃ p, c = .ref p ∧ Relation.ReflTransGen h.Edge p q

/-- The blocks of a value are there in another heap, with the same contents. -/
theorem Denotes.congr {v : Value} (hc : h.Denotes c v)
    (hd : ∀ q d, h.Has c q → h.data q = some d → h'.data q = some d) : h'.Denotes c v := by
  -- what an element has, the container has
  have hstep : ∀ {p : Pointer} {d : BlockData} {c : Cell} {q : Pointer}, h.data p = some d →
      (∀ r ∈ c.out, r ∈ d.out) → h.Has c q → h.Has (.ref p) q := by
    rintro p d c q hp hout ⟨r, rfl, hreach⟩
    exact ⟨p, rfl, hreach.head ⟨d, hp, hout r (List.mem_singleton_self r)⟩⟩
  induction hc with
  | null => exact .null
  | bool b => exact .bool b
  | int32 i => exact .int32 i
  | int64 i => exact .int64 i
  | double d => exact .double d
  | string hp => exact .string (hd _ _ ⟨_, rfl, .refl⟩ hp)
  | array hp hlen hv ih =>
      refine .array (hd _ _ ⟨_, rfl, .refl⟩ hp) hlen fun i c v hi hvi ↦ ih i c v hi hvi ?_
      refine fun q d hq ↦ hd q d (hstep hp (fun r hr ↦ ?_) hq)
      exact List.mem_flatMap.mpr ⟨c, List.mem_of_getElem? hi, hr⟩
  | object hp hkeys hk hv ihk ihv =>
      refine .object (hd _ _ ⟨_, rfl, .refl⟩ hp) hkeys (fun m hm ↦ ihk m hm ?_)
        fun i m v hi hvi ↦ ihv i m v hi hvi ?_
      · refine fun q d hq ↦ hd q d (hstep hp (fun r hr ↦ ?_) hq)
        exact List.mem_flatMap.mpr ⟨m, hm, List.mem_append_left _ hr⟩
      · refine fun q d hq ↦ hd q d (hstep hp (fun r hr ↦ ?_) hq)
        exact List.mem_flatMap.mpr ⟨m, List.mem_of_getElem? hi, List.mem_append_right _ hr⟩

theorem eq_ref_of_mem_out (hp : p ∈ c.out) : c = .ref p := by
  cases c with
  | ref q => rw [List.mem_singleton.mp hp]
  | _ => cases hp

/-- What denotes a value is not part of itself. -/
theorem Denotes.not_cycle {v : Value} (hc : h.Denotes c v) :
    c = .ref p → ¬ Relation.TransGen h.Edge p p := by
  -- a way back to the container is a way from the element back to itself
  have hback : ∀ {p q : Pointer} {d : BlockData}, h.data p = some d → q ∈ d.out →
      Relation.ReflTransGen h.Edge q p → Relation.TransGen h.Edge q q :=
    fun hp hq hreach ↦ .tail' hreach ⟨_, hp, hq⟩
  induction hc generalizing p with
  | null => exact nofun
  | bool b => exact nofun
  | int32 i => exact nofun
  | int64 i => exact nofun
  | double d => exact nofun
  | string hp =>
      rintro ⟨⟩ hcycle
      obtain ⟨q, ⟨d, hd, hq⟩, -⟩ := Relation.TransGen.head'_iff.mp hcycle
      cases hp.symm.trans hd
      cases hq
  | @array p cs vs hp hlen hv ih =>
      rintro ⟨⟩ hcycle
      obtain ⟨q, ⟨d, hd, hq⟩, hreach⟩ := Relation.TransGen.head'_iff.mp hcycle
      cases hp.symm.trans hd
      obtain ⟨c, hmem, hout⟩ := List.mem_flatMap.mp hq
      obtain ⟨i, hi⟩ := List.mem_iff_getElem?.mp hmem
      have hlt : i < vs.length := hlen ▸ (List.getElem?_eq_some_iff.mp hi).1
      exact ih i c vs[i] hi (List.getElem?_eq_getElem hlt) (eq_ref_of_mem_out hout)
        (hback hp hq hreach)
  | @object p ms vs hp hkeys hk hv ihk ihv =>
      rintro ⟨⟩ hcycle
      obtain ⟨q, ⟨d, hd, hq⟩, hreach⟩ := Relation.TransGen.head'_iff.mp hcycle
      cases hp.symm.trans hd
      obtain ⟨m, hmem, hout⟩ := List.mem_flatMap.mp hq
      rcases List.mem_append.mp hout with hout | hout
      · exact ihk m hmem (eq_ref_of_mem_out hout) (hback hp hq hreach)
      · obtain ⟨i, hi⟩ := List.mem_iff_getElem?.mp hmem
        have hlen : ms.length = vs.length := by
          have hlen := congrArg List.length hkeys
          rwa [keys, keys, List.length_map, List.length_map] at hlen
        have hlt : i < vs.length := hlen ▸ (List.getElem?_eq_some_iff.mp hi).1
        exact ihv i m vs[i] hi (List.getElem?_eq_getElem hlt) (eq_ref_of_mem_out hout)
          (hback hp hq hreach)

/-- The place is in a block of the value of `rhs`. -/
def Contains (h : Heap) (rhs this : Loc) : Prop :=
  ∃ c p, h.read rhs = .ok c ∧ this.owner = some p ∧ h.Has c p

/-- The target of an assignment denotes what the source denoted, if it does not lie in there. -/
theorem Assigned.denotes {this rhs : Loc} {v : Value} (ha : Assigned this rhs c h h')
    (hr : h.read rhs = .ok c) (hn : ¬ h.Contains rhs this) (hc : h.Denotes c v) :
    h'.Denotes c v := by
  have hthis : ∀ q, h.Has c q → this.owner ≠ some q := fun q hq ho ↦ hn ⟨c, q, hr, ho, hq⟩
  -- the source does not lie in its own value
  have hrhs : ∀ q, h.Has c q → rhs.owner ≠ some q := by
    rintro q ⟨p, rfl, hreach⟩ ho
    cases rhs with
    | var n => cases ho
    | inside r i =>
        obtain rfl : r = q := Option.some.inj ho
        obtain ⟨d, hd, hi⟩ := read_inside.mp hr
        exact hc.not_cycle rfl (.tail' hreach
          ⟨d, hd, BlockData.mem_out hi (List.mem_singleton_self p)⟩)
  refine hc.congr fun q d hq hd ↦ ?_
  obtain ⟨p, rfl, hreach⟩ := hq
  -- one block after the other is there, since there is a pointer to it
  have hlive : ∃ d', h'.data q = some d' := by
    clear hd
    induction hreach with
    | refl => exact ha.exact.exists_data ha.self
    | @tail a b hpa hab ih =>
        obtain ⟨d', hd'⟩ := ih
        obtain ⟨da, hda, hb⟩ := hab
        have hsame := ha.data a d' (hthis a ⟨p, rfl, hpa⟩) (hrhs a ⟨p, rfl, hpa⟩) hd'
        cases hda.symm.trans hsame
        exact ha.exact.exists_data_of_out hd' hb
  obtain ⟨d', hd'⟩ := hlive
  have hsame := ha.data q d' (hthis q ⟨p, rfl, hreach⟩) (hrhs q ⟨p, rfl, hreach⟩) hd'
  cases hd.symm.trans hsame
  exact hd'

/-! ## The number of values that point to a block -/

end Heap

namespace BlockData

/-- The `Value`s in a block. -/
def cells : BlockData → List Cell
  | str _ => []
  | array cs => cs
  | object ms => ms.flatMap fun m ↦ [m.2.1, m.2.2]

theorem out_eq (d : BlockData) : d.out = d.cells.flatMap Cell.out := by
  cases d with
  | str s => rfl
  | array cs => rfl
  | object ms =>
      rw [out, cells, List.flatMap_assoc]
      refine List.flatMap_congr fun m _ ↦ ?_
      rw [List.flatMap_cons, List.flatMap_singleton]

end BlockData

namespace Heap

variable {h h' : Heap}

theorem count_flatMap_out (cs : List Cell) (p : Pointer) :
    (cs.flatMap Cell.out).count p = cs.count (.ref p) := by
  induction cs with
  | nil => rfl
  | cons c cs ih =>
      rw [List.flatMap_cons, List.count_append, List.count_cons, ih, Nat.add_comm]
      congr 1
      cases c with
      | ref q =>
          by_cases hq : q = p
          · subst hq
            simp
          · simp [hq]
      | _ => rfl

/-- The live `Value`s: the variables, and what is in the blocks. -/
def values (h : Heap) : List Cell :=
  h.vars.reduceOption ++ h.blocks.blocks.reduceOption.flatMap fun block ↦ block.data_.cells

theorem flatMap_reduceOption {α β : Type} {f : Option α → List β} {g : α → List β}
    (hs : ∀ a, f (some a) = g a) (hn : f none = []) (l : List (Option α)) :
    l.flatMap f = l.reduceOption.flatMap g := by
  induction l with
  | nil => rfl
  | cons x l ih =>
      cases x with
      | none => rw [List.flatMap_cons, hn, List.reduceOption_cons_of_none, ih, List.nil_append]
      | some a =>
          rw [List.flatMap_cons, hs, List.reduceOption_cons_of_some, List.flatMap_cons, ih]

theorem total_eq (h : Heap) (p : Pointer) : h.total p = h.values.count (.ref p) := by
  have hheld : h.held = h.vars.reduceOption.flatMap Cell.out :=
    flatMap_reduceOption (fun _ ↦ rfl) rfl h.vars
  have hrefs : h.blocks.refs =
      (h.blocks.blocks.reduceOption.flatMap fun block ↦ block.data_.cells).flatMap Cell.out := by
    rw [List.flatMap_assoc]
    exact flatMap_reduceOption (fun block ↦ BlockData.out_eq block.data_) rfl h.blocks.blocks
  rw [total, hheld, hrefs, count_flatMap_out, count_flatMap_out, values, List.count_append,
    Nat.add_comm]

/-- Every block counts the live `Value`s that point to it, and it is there as long as there are
some. -/
structure RefCounted (h : Heap) : Prop where
  count : ∀ p n d, h.blocks.block? p = some ⟨n, d⟩ → n = h.values.count (.ref p)
  live : ∀ p, h.blocks.block? p ≠ none ↔ 0 < h.values.count (.ref p)

theorem Exact.refCounted (hex : h.Exact []) : h.RefCounted := by
  refine ⟨fun p n d hb ↦ ?_, fun p ↦ ⟨fun hne ↦ ?_, fun hpos hnone ↦ ?_⟩⟩
  · rw [← total_eq]
    exact (hex.count (count?_eq_some.mpr ⟨d, hb⟩)).1
  · obtain ⟨⟨n, d⟩, hb⟩ := Option.ne_none_iff_exists'.mp hne
    obtain ⟨heq, hpos⟩ := hex.count (count?_eq_some.mpr ⟨d, hb⟩)
    rw [← total_eq]
    rwa [heq] at hpos
  · have hzero := hex.absent (p := p) (Option.map_eq_none_iff.mpr hnone)
    rw [← total_eq] at hpos
    simp only [List.count_nil] at hzero
    omega

/-! ## Runs -/

/-- Neither the source nor the target of an assignment lies in a block that only the target keeps
alive, and the target does not lie in the value of the source; and a copy has room in the counter,
those that a reallocation makes of the elements too. -/
def Regular (h : Heap) : HeapStep → Prop
  | .make init => h.Room init
  | .unmake _ => True
  | .assign this rhs => h.Spares this rhs ∧ ¬ h.Contains rhs this ∧ h.RoomToAssign this rhs
  | .moveAssign this rhs => h.Spares this rhs ∧ ¬ h.Contains rhs this
  | .set this _ => h.Supported this this
  | .addValue this args full => h.Room args ∧ (full = true → h.RoomToGrow this args)
  | .addMember _ _ args => h.Room args

/-- `this` denotes what `rhs` denoted before. -/
def Assigns (this rhs : Loc) (h h' : Heap) : Prop :=
  ∀ c v, h.read rhs = .ok c → h.Denotes c v → ∃ c', h'.read this = .ok c' ∧ h'.Denotes c' v

theorem exists_perform {a : HeapStep} (hex : h.Exact []) (he : h.enabled a) (hr : h.Regular a) :
    ∃ h', h.perform a = .ok h' ∧ h'.Exact [] := by
  cases a with
  | make init => exact exists_make hex he hr
  | unmake n => exact exists_unmake hex he
  | assign this rhs =>
      obtain ⟨hl, ⟨c, hc⟩, hne⟩ := he
      obtain ⟨h', hok, ha⟩ := exists_assign hex hl hc hne hr.1 hr.2.2
      exact ⟨h', hok, ha.exact⟩
  | moveAssign this rhs =>
      obtain ⟨hl, ⟨c, hc⟩, hne⟩ := he
      obtain ⟨h', hok, ha⟩ := exists_moveAssign hex hl hc hne hr.1
      exact ⟨h', hok, ha.exact⟩
  | set this init => exact exists_set hex he.1 hr he.2.1 he.2.2
  | addValue this args full => exact exists_addValue hex he.1 he.2 hr.1 hr.2
  | addMember this key args => exact exists_addMember hex he.1 he.2.1 he.2.2.1 hr he.2.2.2

theorem assigns_of_perform {a : HeapStep} {this rhs : Loc} (hex : h.Exact []) (he : h.enabled a)
    (hr : h.Regular a) (hok : h.perform a = .ok h')
    (ha : a = .assign this rhs ∨ a = .moveAssign this rhs) : Assigns this rhs h h' := by
  intro c v hc hv
  rcases ha with rfl | rfl
  · obtain ⟨h'', hok', ha⟩ := exists_assign hex he.1 hc he.2.2 hr.1 hr.2.2
    cases hok'.symm.trans hok
    exact ⟨c, ha.self, ha.denotes hc hr.2.1 hv⟩
  · obtain ⟨h'', hok', ha⟩ := exists_moveAssign hex he.1 hc he.2.2 hr.1
    cases hok'.symm.trans hok
    exact ⟨c, ha.self, ha.denotes hc hr.2 hv⟩

theorem exact_empty : empty.Exact [] := by
  refine ⟨fun hb ↦ ?_, fun hb ↦ ?_, fun _ ↦ rfl⟩
  · cases (Store.block?_eq_some.mp hb).1
  · cases (Store.block?_eq_some.mp hb).1

/-- In runs of regular steps no deleted block is used, the counts are exact, and every assignment
gives its target what its source denoted. -/
theorem refCounted_of_runs {as : List HeapStep} {r : Run Heap}
    (hruns : (machine.restrict Regular).Runs empty as r) :
    ∃ h, r = .ok h ∧ h.RefCounted ∧ ∀ a h' this rhs, h.enabled a → h.Regular a →
      h.perform a = .ok h' → a = .assign this rhs ∨ a = .moveAssign this rhs →
      Assigns this rhs h h' := by
  have hinv := hruns.invariant (I := fun _ h ↦ Exact [] h) exact_empty
    fun _ _ _ hex ⟨he, hg⟩ ↦ by exact exists_perform hex he hg
  obtain ⟨h, hr, hex⟩ := hinv
  exact ⟨h, hr, hex.refCounted, fun a h' this rhs he hg hok ha ↦
    assigns_of_perform hex he hg hok ha⟩

/-- An array, which is reallocated with a string in it, is assigned the string, while another
variable has the array too. -/
theorem refCounted_of_runs_sample :
    ∃ h : Heap, h.read (.var 0) = .ok (.ref ⟨.str, 1⟩) ∧ h.RefCounted := by
  let p : Pointer := ⟨.array, 0⟩
  let s : Pointer := ⟨.str, 1⟩
  have hnew : (machine.restrict Regular).Runs empty [] (.ok empty) := .nil
  have hmake := hnew.then (a := HeapStep.make .array) ⟨trivial, trivial⟩ rfl
  have hadd := hmake.then (a := HeapStep.addValue (.var 0) (.string []) true)
    ⟨⟨⟨p, rfl, rfl⟩, trivial⟩, trivial, by rintro - q d r n ⟨⟩ ⟨⟩ ⟨⟩⟩ rfl
  have hgrow := hadd.then (a := HeapStep.addValue (.var 0) (.copy (.inside p 0)) true)
    ⟨⟨⟨p, rfl, rfl⟩, ⟨.ref s, rfl⟩⟩, by rintro q n ⟨⟩ ⟨⟩; decide, by
      rintro - q d r n ⟨⟩ ⟨⟩ hr hn
      obtain rfl : r = s := List.mem_singleton.mp hr
      cases hn
      decide⟩ rfl
  have hcopy := hgrow.then (a := HeapStep.make (.copy (.var 0)))
    ⟨⟨.ref p, rfl⟩, by rintro q n ⟨⟩ ⟨⟩; decide⟩ rfl
  have hassign := hcopy.then (a := HeapStep.assign (.var 0) (.inside p 0)) (by
    refine ⟨⟨⟨.ref p, rfl⟩, ⟨.ref s, rfl⟩, nofun⟩, ⟨nofun, ?_⟩, ?_, ?_⟩
    · rintro q ⟨⟩
      refine ⟨{p}, rfl, ?_⟩
      rintro q ⟨⟩
      exact ⟨.var 1, nofun, rfl, nofun⟩
    · rintro ⟨c, q, -, ho, -⟩
      cases ho
    · rintro q n ⟨⟩ ⟨⟩
      decide) rfl
  obtain ⟨h, hok, hcount, -⟩ := refCounted_of_runs hassign
  cases hok
  exact ⟨_, rfl, hcount⟩

/-- The same without the other variable: the array is deleted before its element is read. -/
theorem not_refCounted_element :
    ¬ ∀ (as : List HeapStep) (r : Run Heap), machine.Runs empty as r → ∃ h, r = .ok h := by
  intro h
  let p : Pointer := ⟨.array, 0⟩
  have hnew : machine.Runs empty [] (.ok empty) := .nil
  have hmake := hnew.then (a := HeapStep.make .array) trivial rfl
  have hadd := hmake.then (a := HeapStep.addValue (.var 0) (.int32 1) true)
    ⟨⟨p, rfl, rfl⟩, trivial⟩ rfl
  have hassign := hadd.snoc (a := HeapStep.assign (.var 0) (.inside p 0))
    ⟨⟨.ref p, rfl⟩, ⟨.int32 1, rfl⟩, nofun⟩
  obtain ⟨h', hok⟩ := h _ _ hassign
  cases hok

end Heap

end RpcLearning.Json
