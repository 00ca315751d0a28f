import RpcLearning.Json.Reader.Containers

/-!
# Where the reader faults

The only fault within reach is the assertion of `addMember` that its key is new: the reader hands
every member it has read to `addMember` without looking whether the object has that key already.
The bound on the recursion is never used up, and no iterator moves past the end.
-/

namespace RpcLearning.Json

/-- The nonterminals, an object with the keys seen so far. -/
inductive Spot where
  | value
  | items
  | members (seen : Set Bytes)

def Reading.spot : Reading → Spot
  | .value => .value
  | .items _ => .items
  | .members ms => .members {k | k ∈ OrderedMap.keys ms}

/-- Reading from here meets an object that names a key a second time. -/
inductive Repeats [DoubleText] : Spot → Bytes → Prop
  | array {s w t : Bytes} (hs : s = 0x5b :: (w ++ t)) (hw : Ws w) (h : Repeats .items t) :
      Repeats .value s
  | object {s w t : Bytes} (hs : s = 0x7b :: (w ++ t)) (hw : Ws w) (h : Repeats (.members ∅) t) :
      Repeats .value s
  | item {s : Bytes} (h : Repeats .value s) : Repeats .items s
  | laterItem {s u t : Bytes} {b b' : Bool} {x : Value} (hx : Reads .value s b x (u ++ t))
      (hu : Separator u b') (h : Repeats .items t) : Repeats .items s
  | member {seen : Set Bytes} {s k key t : Bytes} (hs : s = k ++ t) (hk : KeyText k key)
      (h : Repeats .value t) : Repeats (.members seen) s
  | again {seen : Set Bytes} {s k key t : Bytes} (hs : s = k ++ t) (hk : KeyText k key)
      (hkey : key ∈ seen) (h : Unterminated t ∨ ∃ b x u, Reads .value t b x u) :
      Repeats (.members seen) s
  | laterMember {seen : Set Bytes} {s k key t w w' t' : Bytes} {b : Bool} {x : Value}
      (hs : s = k ++ t) (hk : KeyText k key) (hx : Reads .value t b x (w ++ 0x2c :: (w' ++ t')))
      (hw : Ws w) (hw' : Ws w') (h : Repeats (.members (insert key seen)) t') :
      Repeats (.members seen) s

/-- Some object of the text repeats a key. -/
inductive RepeatsKey [DoubleText] : Bytes → Prop
  | mk {w s : Bytes} (hw : Ws w) (h : Repeats .value s) : RepeatsKey (w ++ s)

theorem Reading.spot_emplace (key : Bytes) (x : Value) (ms : List (Bytes × Value)) :
    (Reading.members (OrderedMap.emplace key x ms)).spot =
      .members (insert key {k | k ∈ OrderedMap.keys ms}) := by
  simp only [Reading.spot, OrderedMap.mem_keys_emplace, Spot.members.injEq]
  rfl

section

variable [DoubleText]

/-- A text that repeats a key starts with something other than whitespace, and with no closing
bracket. -/
theorem Repeats.start {sp : Spot} {s : Bytes} (h : Repeats sp s) :
    Reader.NoWs s ∧ Stream.front s ≠ 0x5d ∧ Stream.front s ≠ 0x7d := by
  have bracket : ∀ {c : UInt8} {t : Bytes}, Reader.isWhitespace c = false → c ≠ 0x5d → c ≠ 0x7d →
      Reader.NoWs (c :: t) ∧ Stream.front (c :: t) ≠ 0x5d ∧ Stream.front (c :: t) ≠ 0x7d :=
    fun hw h5d h7d ↦ ⟨Reader.noWs_cons.mpr hw, h5d, h7d⟩
  have member : ∀ {k key t : Bytes}, KeyText k key → Reader.NoWs (k ++ t) ∧
      Stream.front (k ++ t) ≠ 0x5d ∧ Stream.front (k ++ t) ≠ 0x7d := by
    intro k key t hk
    obtain ⟨u, rfl⟩ := hk.exists_cons
    exact bracket (by decide) (by decide) (by decide)
  induction h with
  | array hs _ _ _ => exact hs ▸ bracket (by decide) (by decide) (by decide)
  | object hs _ _ _ => exact hs ▸ bracket (by decide) (by decide) (by decide)
  | item _ ih => exact ih
  | laterItem hx _ _ _ => exact hx.start
  | member hs hk _ _ => exact hs ▸ member hk
  | again hs hk _ _ => exact hs ▸ member hk
  | laterMember hs hk _ _ _ _ _ => exact hs ▸ member hk

namespace Reader

/-- A repeated key leads the reader to the assertion. -/
theorem run_of_repeats {sp : Spot} {s : Stream} (h : Repeats sp s) {n : Reading}
    (hrd : n.spot = sp) {fuel : Nat} (hf : cost n s ≤ fuel) :
    run n fuel s = .error (.fault .assertion) := by
  induction h generalizing n fuel with
  | @array s w t hs hw h ih =>
      subst hs
      obtain rfl : n = .value := by cases n <;> simp [Reading.spot] at hrd ⊢
      cases fuel with
      | zero => simp [cost] at hf
      | succ fuel =>
          refine (parseValue_array hw h.start.1 h.start.2.1 fuel).trans (ih (n := .items []) rfl ?_)
          simp only [cost, List.length_cons, List.length_append] at hf ⊢
          omega
  | @object s w t hs hw h ih =>
      subst hs
      obtain rfl : n = .value := by cases n <;> simp [Reading.spot] at hrd ⊢
      cases fuel with
      | zero => simp [cost] at hf
      | succ fuel =>
          refine (parseValue_object hw h.start.1 h.start.2.2 fuel).trans
            (ih (n := .members []) (by simp [Reading.spot, OrderedMap.keys]) ?_)
          simp only [cost, List.length_cons, List.length_append] at hf ⊢
          omega
  | @item s h ih =>
      obtain ⟨xs, rfl⟩ : ∃ xs, n = .items xs := by cases n <;> simp [Reading.spot] at hrd ⊢
      cases fuel with
      | zero => simp [cost] at hf
      | succ fuel =>
          exact parseArrayLoop_fault (ih (n := .value) rfl (by simpa [cost] using hf))
  | @laterItem s u t b b' x hx hu h ih =>
      obtain ⟨xs, rfl⟩ : ∃ xs, n = .items xs := by cases n <;> simp [Reading.spot] at hrd ⊢
      have hlt := hx.length_lt
      cases fuel with
      | zero => simp [cost] at hf
      | succ fuel =>
          have hv : parseValue fuel s = .ok (x, u ++ t) :=
            run_of_reads hx (by simpa [cost] using hf)
          refine (parseArrayLoop_next hv hu (.inr h.start.1)).trans (ih (n := .items _) rfl ?_)
          simp only [cost, List.length_append] at hf hlt ⊢
          omega
  | @member seen s k key t hs hk h ih =>
      subst hs
      obtain ⟨ms, rfl⟩ : ∃ ms, n = .members ms := by cases n <;> simp [Reading.spot] at hrd ⊢
      cases fuel with
      | zero => simp [cost] at hf
      | succ fuel =>
          refine parseObjectLoop_fault hk h.start.1 (ih (n := .value) rfl ?_)
          simp only [cost, List.length_append] at hf ⊢
          omega
  | @again seen s k key t hs hk hkey h =>
      subst hs
      obtain ⟨ms, rfl⟩ : ∃ ms, n = .members ms := by cases n <;> simp [Reading.spot] at hrd ⊢
      have hkey : key ∈ OrderedMap.keys ms := by
        cases hrd
        exact hkey
      cases fuel with
      | zero => simp [cost] at hf
      | succ fuel =>
          have ht : cost .value t ≤ fuel := by
            simp only [cost, List.length_append] at hf ⊢
            omega
          rcases h with hu | ⟨b, x, u, hx⟩
          · cases fuel with
            | zero => simp [cost] at ht
            | succ fuel =>
                exact parseObjectLoop_repeat hk hu.noWs (parseValue_of_unterminated hu fuel) hkey
          · exact parseObjectLoop_repeat hk hx.start.1 (run_of_reads hx ht) hkey
  | @laterMember seen s k key t w w' t' b x hs hk hx hw hw' h ih =>
      subst hs
      obtain ⟨ms, rfl⟩ : ∃ ms, n = .members ms := by cases n <;> simp [Reading.spot] at hrd ⊢
      have hlt := hx.length_lt
      cases fuel with
      | zero => simp [cost] at hf
      | succ fuel =>
          have hv : parseValue fuel t = .ok (x, w ++ 0x2c :: (w' ++ t')) := by
            refine run_of_reads hx ?_
            simp only [cost, List.length_append] at hf ⊢
            omega
          by_cases hkey : key ∈ OrderedMap.keys ms
          · exact parseObjectLoop_repeat hk hx.start.1 hv hkey
          · refine (parseObjectLoop_next hk hx.start.1 hv hkey hw hw' h.start.1).trans
              (ih (n := .members _) ?_ ?_)
            · cases hrd
              exact Reading.spot_emplace key x ms
            · simp only [cost, List.length_append, List.length_cons] at hf hlt ⊢
              omega

/-- The loop of `parseArray` does not get to fault at the end of the text. -/
theorem parseArrayLoop_nil_ne_fault (fuel : Nat) (value : Value) (f : Fault) :
    parseArrayLoop (fuel + 2) value [] ≠ .error (.fault f) := by
  rw [parseArrayLoop_thrown (parseValue_nil fuel)]
  simp

/-- With rounds enough, every fault is the assertion on a repeated key. -/
theorem repeats_of_run {fuel : Nat} {n : Reading} {s : Stream} {f : Fault}
    (h : run n fuel s = .error (.fault f)) (hf : cost n s ≤ fuel) :
    f = .assertion ∧ Repeats n.spot s := by
  induction fuel generalizing n s with
  | zero => cases n <;> simp [cost] at hf
  | succ fuel ih =>
      cases n with
      | value =>
          rcases parseValue_eq_fault h with ⟨w, t, hw, rfl, h'⟩ | ⟨w, t, hw, rfl, h'⟩
          · obtain ⟨rfl, hr⟩ := ih (n := .items []) h' (by
              simp only [cost, List.length_cons, List.length_append] at hf ⊢
              omega)
            exact ⟨rfl, .array rfl hw hr⟩
          · obtain ⟨rfl, hr⟩ := ih (n := .members []) h' (by
              simp only [cost, List.length_cons, List.length_append] at hf ⊢
              omega)
            have he : (Reading.members []).spot = .members ∅ := by
              simp [Reading.spot, OrderedMap.keys]
            exact ⟨rfl, .object rfl hw (he ▸ hr)⟩
      | items xs =>
          have hcost : cost .value s ≤ fuel := by simpa [cost] using hf
          rcases parseArrayLoop_eq_fault h with h' | ⟨x, u, t, hv, hu, h'⟩
          · obtain ⟨rfl, hr⟩ := ih (n := .value) h' hcost
            exact ⟨rfl, .item hr⟩
          · rcases hu with ⟨b, hu⟩ | rfl
            · have hv' : run .value fuel s = .ok (x, u ++ t) := hv
              rcases reads_of_run hv' with ⟨b', hx⟩ | ⟨-, -, -, hnil⟩
              · have hlt := hx.length_lt
                obtain ⟨rfl, hr⟩ := ih (n := .items (xs ++ [x])) h' (by
                  simp only [cost, List.length_append] at hf hlt ⊢
                  omega)
                exact ⟨rfl, .laterItem hx hu hr⟩
              · obtain ⟨c, u', rfl⟩ := hu.exists_cons
                simp at hnil
            · cases fuel with
              | zero => simp [cost] at hcost
              | succ fuel =>
                  cases fuel with
                  | zero =>
                      -- a single round suffices for the end of the text alone
                      obtain rfl : s = [] := by
                        rw [← List.length_eq_zero_iff]
                        simp only [cost] at hcost
                        omega
                      cases (parseValue_nil 0).symm.trans hv
                  | succ fuel => exact absurd h' (parseArrayLoop_nil_ne_fault fuel _ f)
      | members ms =>
          obtain ⟨k, key, t, hk, rfl, h'⟩ := parseObjectLoop_eq_fault h
          have hcost : cost .value t ≤ fuel := by
            simp only [cost, List.length_append] at hf ⊢
            omega
          rcases h' with h' | ⟨x, u, hv, h'⟩
          · obtain ⟨rfl, hr⟩ := ih (n := .value) h' hcost
            exact ⟨rfl, .member rfl hk hr⟩
          · rcases h' with hkey | ⟨w, w', t', hw, hw', rfl, h'⟩
            · have hv' : run .value fuel t = .ok (x, u) := hv
              have hr : Repeats (Reading.members ms).spot (k ++ t) := by
                rcases reads_of_run hv' with ⟨b, hx⟩ | ⟨-, hu, -, -⟩
                · exact .again rfl hk hkey (.inr ⟨b, x, u, hx⟩)
                · exact .again rfl hk hkey (.inl hu)
              cases h.symm.trans (run_of_repeats hr rfl hf)
              exact ⟨rfl, hr⟩
            · have hv' : run .value fuel t = .ok (x, w ++ 0x2c :: (w' ++ t')) := hv
              rcases reads_of_run hv' with ⟨b, hx⟩ | ⟨-, -, -, hnil⟩
              · have hlt := hx.length_lt
                obtain ⟨rfl, hr⟩ := ih (n := .members _) h' (by
                  simp only [cost, List.length_append, List.length_cons] at hf hlt ⊢
                  omega)
                rw [Reading.spot_emplace] at hr
                exact ⟨rfl, .laterMember rfl hk hx hw hw' hr⟩
              · simp at hnil

/-- With rounds enough, the reader faults exactly where a key is repeated. -/
theorem run_eq_fault_iff {fuel : Nat} {n : Reading} {s : Stream} (hf : cost n s ≤ fuel)
    (f : Fault) :
    run n fuel s = .error (.fault f) ↔ f = .assertion ∧ Repeats n.spot s := by
  constructor
  · exact fun h ↦ repeats_of_run h hf
  · rintro ⟨rfl, h⟩
    exact run_of_repeats h rfl hf

theorem parse_eq_error_iff (s : Bytes) (f : Fault) :
    parse s = .error f ↔ f = .assertion ∧ RepeatsKey s := by
  obtain ⟨w, hw, hs, hn⟩ := exists_parseWhitespace s
  have hp : parse s = .error f ↔
      parseValue (bound (parseWhitespace s)) (parseWhitespace s) = .error (.fault f) := by
    cases hv : parseValue (bound (parseWhitespace s)) (parseWhitespace s) with
    | error e => cases e <;> simp [parse, hv, Exec.catchAll]
    | ok p =>
        obtain ⟨v, r⟩ := p
        by_cases hr : parseWhitespace r = [] <;>
          simp [parse, hv, hr, Stream.hasNext, Exec.catchAll]
  have hrun := run_eq_fault_iff (n := .value) (s := parseWhitespace s) le_rfl f
  refine hp.trans (hrun.trans (and_congr_right' ⟨fun h ↦ ?_, ?_⟩))
  · rw [hs]
    exact .mk hw h
  · rintro @⟨w', t, hw', h⟩
    rwa [parseWhitespace_append_noWs hw' h.start.1]

end Reader

/-- `parse` returns a code on every text but those in which an object repeats a key. -/
theorem parse_returns_iff (s : Bytes) : (∃ out, Reader.parse s = .ok out) ↔ ¬ RepeatsKey s := by
  constructor
  · rintro ⟨out, h⟩ hr
    cases h.symm.trans ((Reader.parse_eq_error_iff s .assertion).mpr ⟨rfl, hr⟩)
  · intro h
    cases hp : Reader.parse s with
    | ok out => exact ⟨out, rfl⟩
    | error f => exact absurd ((Reader.parse_eq_error_iff s f).mp hp).2 h

end

/-- A repeated key fails the assertion of `addMember`. -/
theorem parse_repeated_key :
    @Reader.parse noDoubles (lit "\x7b\"a\":null,\"a\":null\x7d") = .error .assertion := by
  let _ := noDoubles
  have key : KeyText (lit "\"a\":") (lit "a") :=
    @KeyText.mk (lit "\"a\"") (lit "a") [] []
      (.mk (.raw (by decide) (by decide) (by decide) .nil)) ws_nil ws_nil
  have first : Reads .value (lit "null,\"a\":null\x7d") false .null
      ([] ++ 0x2c :: ([] ++ lit "\"a\":null\x7d")) := .scalar .null
  have second : Reads .value (lit "null\x7d") false .null (lit "\x7d") := .scalar .null
  have again : Repeats (.members (insert (lit "a") ∅)) (lit "\"a\":null\x7d") :=
    .again rfl key (Set.mem_insert _ _) (.inr ⟨_, _, _, second⟩)
  have members : Repeats (.members ∅) (lit "\"a\":null,\"a\":null\x7d") :=
    .laterMember rfl key first ws_nil ws_nil again
  have object : Repeats .value (lit "\x7b\"a\":null,\"a\":null\x7d") :=
    .object (w := []) rfl ws_nil members
  have repeats := RepeatsKey.mk ws_nil object
  exact (Reader.parse_eq_error_iff _ _).mpr ⟨rfl, repeats⟩

end RpcLearning.Json
