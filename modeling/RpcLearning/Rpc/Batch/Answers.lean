import RpcLearning.Rpc.Batch

/-!
# The answer to a batch

However the procedures take their time, the `done` of a batch is called once, when all of them have
called theirs.  What it is called with is the answer the batch should get, unless an element before
the last one is rejected: the loop does not come to the elements behind it.
-/

namespace RpcLearning.Rpc

open Json

variable {π ν : Type}

namespace Batch

/-- How many steps there can still be. -/
def left (requests : List Value) (b : Batch π ν) : Nat :=
  3 * (requests.length - b.i) + 2 * b.waiting.length + b.answered.length + b.running.toNat

theorem release_done {b : Batch π ν} (h : b.done = []) :
    b.release.done =
      if b.release.Finished then [.array (b.release.responses.map Prod.snd)] else [] := by
  show (if b.Finished then b.done ++ [_] else b.done) = _
  rw [h]
  rfl

end Batch

theorem exists_userDone {request : Value} (h : request.hasMember (lit "id")) (result : Value) :
    ∃ response, userDone request result = .ok response := by
  obtain ⟨id, hid⟩ := Value.find_of_hasMember h
  rw [userDone, Value.get_of_find hid]
  exact ⟨_, rfl⟩

namespace RpcServer

variable (server : RpcServer π ν) (requests : List Value)

/-- `v` is the response to an element: its procedure has given it, or it is what the element was
rejected with. -/
def RespondsTo (as : List BatchStep) (i : Nat) (v : Value) : Prop :=
  (∃ result, .answer i result ∈ as ∧ userDone (requests.getD i .null) result = .ok v) ∨
    ∃ e, server.handleElement (requests.getD i .null) = .throw (.request e) ∧
      BaseServer.wrapException e = .ok v

/-- The element is rejected, and the text that would say why is gone when the response is made. -/
def Dangles (v : Value) : Prop :=
  ∃ e : RequestException, server.handleElement v = .throw (.request e) ∧
    e.detail.read = .error .dangling

/-- What the first `n` elements start, where they are not rejected. -/
def starts (n : Nat) : List (Started π ν) :=
  (requests.take n).filterMap fun v ↦ (server.handleElement v).toOption

/-- The elements among the first `n` that lead to a response. -/
def responding (n : Nat) : List Nat :=
  (List.range n).filter fun j ↦ server.responds (requests.getD j .null)

/-! ## The invariant -/

structure Inv (as : List BatchStep) (b : Batch π ν) : Prop where
  le : b.i ≤ requests.length
  accepted : ∀ j < b.i, b.running = true ∨ j + 1 < b.i →
    ∃ x, server.handleElement (requests.getD j .null) = .ok x
  returned : b.running = false → b.i = requests.length ∨
    ∃ j e, b.i = j + 1 ∧ server.handleElement (requests.getD j .null) = .throw e
  readable : ∀ j < b.i, ¬ server.Dangles (requests.getD j .null)
  started : b.started = server.starts requests b.i
  indices : (b.waiting ++ b.responses.map Prod.fst).Perm (server.responding requests b.i)
  waiting : ∀ j ∈ b.waiting, (requests.getD j .null).hasMember (lit "id")
  responses : ∀ q ∈ b.responses, server.RespondsTo requests as q.1 q.2
  done : b.done = if b.Finished then [.array (b.responses.map Prod.snd)] else []
  bound : as.length + b.left requests ≤ 3 * requests.length + 1

variable {server requests} {as : List BatchStep} {b : Batch π ν}

theorem RespondsTo.snoc {i : Nat} {v : Value} (h : server.RespondsTo requests as i v)
    (a : BatchStep) : server.RespondsTo requests (as ++ [a]) i v :=
  h.imp_left fun ⟨result, hmem, hdone⟩ ↦ ⟨result, List.mem_append_left _ hmem, hdone⟩

theorem inv_new : server.Inv requests [] (Batch.new : Batch π ν) where
  le := Nat.zero_le _
  accepted := nofun
  returned := nofun
  readable := nofun
  started := rfl
  indices := .refl _
  waiting := nofun
  responses := nofun
  done := rfl
  bound := by simp [Batch.left, Batch.new]

theorem Inv.done_of_not_finished (h : server.Inv requests as b) (hf : ¬ b.Finished) :
    b.done = [] := h.done.trans (if_neg hf)

theorem starts_succ {i : Nat} {v : Value} (h : requests[i]? = some v) :
    server.starts requests (i + 1) =
      server.starts requests i ++ (server.handleElement v).toOption.toList := by
  rw [starts, List.take_add_one, h, List.filterMap_append, Option.toList_some]
  cases hv : server.handleElement v with
  | error s => simp [starts, hv, Except.toOption]
  | ok x => simp [starts, hv, Except.toOption]

theorem responding_succ {i : Nat} {v : Value} (h : requests[i]? = some v) :
    server.responding requests (i + 1) =
      server.responding requests i ++ if server.responds v then [i] else [] := by
  have hget : requests.getD i .null = v := by rw [List.getD_eq_getElem?_getD, h, Option.getD_some]
  rw [responding, List.range_succ, List.filter_append, List.filter_singleton, hget]
  cases server.responds v <;> rfl

theorem not_dangles_of_ok {v : Value} {x : Started π ν} (h : server.handleElement v = .ok x) :
    ¬ server.Dangles v := by
  rintro ⟨e, he, -⟩
  cases h.symm.trans he

/-- One element more whose exception, if there is one, can be read. -/
theorem Inv.readable_succ (h : server.Inv requests as b) {v : Value} (hv : requests[b.i]? = some v)
    (hd : ¬ server.Dangles v) : ∀ j < b.i + 1, ¬ server.Dangles (requests.getD j .null) := by
  intro j hj
  rcases Nat.lt_succ_iff_lt_or_eq.mp hj with hj | rfl
  · exact h.readable j hj
  · rwa [List.getD_eq_getElem?_getD, hv]

/-! ## The steps -/

/-- The loop is through. -/
theorem Inv.leave (h : server.Inv requests as b) (hr : b.running = true)
    (hn : requests[b.i]? = none) : server.Inv requests (as ++ [.next]) b.leave where
  le := h.le
  accepted j hj _ := h.accepted j hj (.inl hr)
  returned _ := .inl (le_antisymm h.le (List.getElem?_eq_none_iff.mp hn))
  readable := h.readable
  started := h.started
  indices := h.indices
  waiting := h.waiting
  responses q hq := (h.responses q hq).snoc .next
  done := Batch.release_done (h.done_of_not_finished (by simp [Batch.Finished, hr]))
  bound := by
    have hbound := h.bound
    rw [List.length_append, List.length_singleton]
    simp only [Batch.left, hr, Bool.toNat_true] at hbound
    show as.length + 1 + (3 * (requests.length - b.i) + 2 * b.waiting.length + b.answered.length +
      0) ≤ _
    omega

/-- The loop comes to an element whose callback is run. -/
theorem Inv.start (h : server.Inv requests as b) (hr : b.running = true) {v : Value}
    (hv : requests[b.i]? = some v) {x : Started π ν} (hx : server.handleElement v = .ok x)
    {waiting : List Nat} (hw : server.responding requests (b.i + 1) =
      server.responding requests b.i ++ waiting)
    (hid : ∀ j ∈ waiting, (requests.getD j .null).hasMember (lit "id"))
    (hlen : waiting.length ≤ 1) :
    server.Inv requests (as ++ [.next])
      { b with i := b.i + 1, started := b.started ++ [x], waiting := b.waiting ++ waiting } where
  le := (List.getElem?_eq_some_iff.mp hv).1
  accepted j hj _ := by
    rcases Nat.lt_succ_iff_lt_or_eq.mp hj with hj | rfl
    · exact h.accepted j hj (.inl hr)
    · rw [List.getD_eq_getElem?_getD, hv]
      exact ⟨x, hx⟩
  returned hf := by cases hr.symm.trans hf
  readable := h.readable_succ hv (not_dangles_of_ok hx)
  started := by
    rw [starts_succ hv, hx, ← h.started]
    rfl
  indices := by
    rw [hw, List.append_assoc]
    refine (List.Perm.append_left _ List.perm_append_comm).trans ?_
    rw [← List.append_assoc]
    exact h.indices.append_right _
  waiting j hj := by
    rcases List.mem_append.mp hj with hj | hj
    · exact h.waiting j hj
    · exact hid j hj
  responses q hq := (h.responses q hq).snoc .next
  done := by
    have hf : ¬ b.Finished := by simp [Batch.Finished, hr]
    rw [if_neg (by simp [Batch.Finished, hr])]
    exact h.done_of_not_finished hf
  bound := by
    have hbound := h.bound
    have hlt := (List.getElem?_eq_some_iff.mp hv).1
    simp only [Batch.left, List.length_append, List.length_singleton] at hbound ⊢
    omega

/-- The loop comes to an element that is rejected, and ends there. -/
theorem Inv.reject (h : server.Inv requests as b) (hr : b.running = true) {v : Value}
    (hv : requests[b.i]? = some v) {e : ServerException} (he : server.handleElement v = .throw e)
    (hd : ¬ server.Dangles v) (responses : List (Nat × Value))
    (hrs : server.responding requests (b.i + 1) =
      server.responding requests b.i ++ responses.map Prod.fst)
    (hto : ∀ q ∈ responses, server.RespondsTo requests as q.1 q.2) :
    server.Inv requests (as ++ [.next])
      { b with i := b.i + 1, responses := b.responses ++ responses }.leave where
  le := (List.getElem?_eq_some_iff.mp hv).1
  accepted j hj hlast := by
    have hlt : j + 1 < b.i + 1 := hlast.resolve_left Bool.false_ne_true
    exact h.accepted j (Nat.lt_of_succ_lt_succ hlt) (.inl hr)
  returned _ := .inr ⟨b.i, e, rfl, by rw [List.getD_eq_getElem?_getD, hv]; exact he⟩
  readable := h.readable_succ hv hd
  started := by
    show b.started = server.starts requests (b.i + 1)
    rw [starts_succ hv, he, ← h.started]
    exact (List.append_nil _).symm
  indices := by
    show (b.waiting ++ (b.responses ++ responses).map Prod.fst).Perm
      (server.responding requests (b.i + 1))
    rw [hrs, List.map_append, ← List.append_assoc]
    exact h.indices.append_right _
  waiting := h.waiting
  responses q hq := by
    rcases List.mem_append.mp hq with hq | hq
    · exact (h.responses q hq).snoc .next
    · exact (hto q hq).snoc .next
  done := Batch.release_done (h.done_of_not_finished (by simp [Batch.Finished, hr]))
  bound := by
    have hbound := h.bound
    rw [List.length_append, List.length_singleton]
    simp only [Batch.left, hr, Bool.toNat_true] at hbound
    show as.length + 1 + (3 * (requests.length - (b.i + 1)) + 2 * b.waiting.length +
      b.answered.length + 0) ≤ _
    omega

/-- A round of the loop faults only where it rejects an element with a text that is gone. -/
theorem Inv.next (h : server.Inv requests as b) (hr : b.running = true) :
    (∃ b', server.next requests b = .ok b' ∧ server.Inv requests (as ++ [.next]) b') ∨
      (b.i < requests.length ∧ server.Dangles (requests.getD b.i .null)) ∧
        server.next requests b = .error .dangling := by
  cases hv : requests[b.i]? with
  | none => exact .inl ⟨_, by rw [RpcServer.next, hv], h.leave hr hv⟩
  | some v =>
      have hget : requests.getD b.i .null = v := by
        rw [List.getD_eq_getElem?_getD, hv, Option.getD_some]
      have hresp : server.responding requests (b.i + 1) =
          server.responding requests b.i ++ if server.responds v then [b.i] else [] :=
        responding_succ hv
      rw [RpcServer.next, hv]
      cases server.outcome v with
      | call callBack hn hid hx =>
          rw [responds, hx] at hresp
          refine .inl ⟨_, by simp only [hx]; rfl, h.start hr hv hx hresp ?_ (le_refl 1)⟩
          intro j hj
          obtain rfl := List.mem_singleton.mp hj
          rwa [hget]
      | notify callBack hn hx =>
          rw [responds, hx] at hresp
          have hinv := h.start hr hv hx hresp nofun (Nat.zero_le 1)
          rw [if_neg Bool.false_ne_true, List.append_nil] at hinv
          exact .inl ⟨_, by simp only [hx]; rfl, hinv⟩
      | request e hx =>
          rw [responds, hx] at hresp
          rcases hd : e.detail.read with f | detail
          · have hf : f = .dangling := Detail.eq_of_read_eq_error hd
            subst hf
            refine .inr ⟨⟨(List.getElem?_eq_some_iff.mp hv).1, e, by rw [hget, hx], hd⟩, ?_⟩
            simp only [hx]
            show (BaseServer.wrapException e >>= _) = _
            rw [BaseServer.wrapException_eq, hd, Exec.error_bind, Exec.error_bind]
          have hw : BaseServer.wrapException e = .ok (BaseServer.errorObject e.err detail) :=
            BaseServer.wrapException_eq_ok.mpr ⟨detail, hd, rfl⟩
          have hnd : ¬ server.Dangles v := by
            rintro ⟨e', he', hd'⟩
            cases hx.symm.trans he'
            cases hd.symm.trans hd'
          refine .inl ⟨_, ?_, h.reject hr hv hx hnd [(b.i, BaseServer.errorObject e.err detail)]
            hresp ?_⟩
          · simp only [hx]
            show (BaseServer.wrapException e >>= _) = _
            rw [hw, Exec.ok_bind]
            rfl
          · rintro q hq
            obtain rfl := List.mem_singleton.mp hq
            exact .inr ⟨e, by rw [hget, hx], hw⟩
      | dropped e hn hx =>
          rw [responds, hx] at hresp
          have hnd : ¬ server.Dangles v := by
            rintro ⟨e', he', -⟩
            cases hx.symm.trans he'
          have hinv := h.reject hr hv hx hnd [] hresp nofun
          rw [List.append_nil] at hinv
          exact .inl ⟨_, by simp only [hx]; rfl, hinv⟩

/-- A procedure's `done` adds the response, which does not fault. -/
theorem Inv.answer (h : server.Inv requests as b) {i : Nat} (hi : i ∈ b.waiting) (result : Value) :
    ∃ b', b.answer requests i result = .ok b' ∧
      server.Inv requests (as ++ [.answer i result]) b' := by
  obtain ⟨response, hok⟩ := exists_userDone (h.waiting i hi) result
  refine ⟨_, by rw [Batch.answer, hok]; rfl, ?_⟩
  have hnot : ¬ b.Finished := fun hf ↦ List.ne_nil_of_mem hi hf.2.1
  refine ⟨h.le, h.accepted, h.returned, h.readable, h.started, ?_, fun j hj ↦ ?_, fun q hq ↦ ?_,
    ?_, ?_⟩
  · have hperm : (b.waiting.erase i ++ (b.responses.map Prod.fst ++ [i])).Perm
        (b.waiting ++ b.responses.map Prod.fst) := by
      refine (List.perm_append_singleton _ _).append_left _ |>.trans ?_
      refine List.perm_middle.trans ?_
      exact (List.perm_cons_erase hi).symm.append_right _
    rw [Batch.addResponse, List.map_append]
    exact hperm.trans h.indices
  · exact h.waiting j (List.mem_of_mem_erase hj)
  · rcases List.mem_append.mp hq with hq | hq
    · exact (h.responses q hq).snoc _
    · obtain rfl := List.mem_singleton.mp hq
      exact .inl ⟨result, List.mem_append_right _ List.mem_cons_self, hok⟩
  · rw [if_neg (by simp [Batch.Finished, Batch.addResponse])]
    exact h.done_of_not_finished hnot
  · have hbound := h.bound
    have hlen := List.length_erase_of_mem hi
    have hpos := List.length_pos_of_mem hi
    simp only [Batch.left, Batch.addResponse, List.length_append, List.length_singleton] at hbound ⊢
    omega

/-- A procedure lets go of its `done`. -/
theorem Inv.drop (h : server.Inv requests as b) {i : Nat} (hi : i ∈ b.answered) :
    server.Inv requests (as ++ [.drop i]) (b.drop i) where
  le := h.le
  accepted := h.accepted
  returned := h.returned
  readable := h.readable
  started := h.started
  indices := h.indices
  waiting := h.waiting
  responses q hq := (h.responses q hq).snoc _
  done := Batch.release_done (h.done_of_not_finished fun hf ↦ List.ne_nil_of_mem hi hf.2.2)
  bound := by
    have hbound := h.bound
    have hlen := List.length_erase_of_mem hi
    have hpos := List.length_pos_of_mem hi
    rw [List.length_append, List.length_singleton]
    simp only [Batch.left] at hbound
    show as.length + 1 + (3 * (requests.length - b.i) + 2 * b.waiting.length +
      (b.answered.erase i).length + b.running.toNat) ≤ _
    omega

theorem Inv.perform (h : server.Inv requests as b) {a : BatchStep} (he : enabledBatch b a) :
    (∃ b', server.performBatch requests b a = .ok b' ∧ server.Inv requests (as ++ [a]) b') ∨
      (b.i < requests.length ∧ server.Dangles (requests.getD b.i .null)) ∧
        server.performBatch requests b a = .error .dangling := by
  cases a with
  | next => exact h.next he
  | answer i result => exact .inl (h.answer he result)
  | drop i => exact .inl ⟨_, rfl, h.drop he⟩

theorem exists_enabled (hf : ¬ b.Finished) : ∃ a, enabledBatch b a := by
  by_contra hno
  refine hf ⟨?_, ?_, ?_⟩
  · exact Bool.eq_false_iff.mpr fun hr ↦ hno ⟨.next, hr⟩
  · exact List.eq_nil_iff_forall_not_mem.mpr fun i hi ↦ hno ⟨.answer i .null, hi⟩
  · exact List.eq_nil_iff_forall_not_mem.mpr fun i hi ↦ hno ⟨.drop i, hi⟩

theorem inv_of_runs (hd : ∀ j < requests.length, ¬ server.Dangles (requests.getD j .null))
    {r : Run (Batch π ν)} (h : (server.handleRequestBatch requests).Runs Batch.new as r) :
    ∃ b, r = .ok b ∧ server.Inv requests as b := by
  refine h.invariant (I := server.Inv requests) inv_new fun as b a hi he ↦ ?_
  rcases hi.perform he with hok | ⟨⟨hlt, hdangles⟩, -⟩
  · exact hok
  · exact absurd hdangles (hd b.i hlt)

/-- Where no run faults, there is a run to the end. -/
theorem exists_finished
    (h : ∀ as f, ¬ (server.handleRequestBatch requests).Runs Batch.new as (.error f)) :
    ∃ as b, (server.handleRequestBatch requests).Runs Batch.new as (.ok b) ∧
      server.Inv requests as b ∧ b.Finished := by
  let M := server.handleRequestBatch requests
  let I : List BatchStep → Batch π ν → Prop := fun as b ↦
    server.Inv requests as b ∧ M.Runs Batch.new as (.ok b)
  have hstep : ∀ as b, I as b → ¬ b.Finished →
      ∃ a b', M.enabled b a ∧ M.perform b a = .ok b' ∧ I (as ++ [a]) b' := by
    rintro as b ⟨hi, hruns⟩ hf
    obtain ⟨a, he⟩ := exists_enabled hf
    rcases hi.perform he with ⟨b', hp, hi'⟩ | ⟨-, hp⟩
    · exact ⟨a, b', he, hp, hi', hruns.then he hp⟩
    · have hfault := hruns.snoc he
      rw [show M.perform b a = .error .dangling from hp] at hfault
      exact absurd hfault (h _ _)
  obtain ⟨as, b, hruns, hi, hf⟩ := Machine.Runs.exists_goal (n := 3 * requests.length + 1)
    (fun as b hi ↦ (Nat.le_add_right _ _).trans hi.1.bound) hstep .nil ⟨inv_new, .nil⟩
  exact ⟨as, b, hruns, hi.1, hf⟩

/-! ## The answer -/

variable (server requests)

def ValidNotification (v : Value) : Prop :=
  isNotification v ∧ ∃ x, server.handleElement v = .ok x

/-- The end of a batch: the loop has come to every element, and started what it should; `done` has
been called once, with a response to each element that is not a notification, and no other. -/
structure Complete (as : List BatchStep) (b : Batch π ν) : Prop where
  processed : b.i = requests.length
  started : b.started = server.starts requests requests.length
  done : b.done = [.array (b.responses.map Prod.snd)]
  indices : (b.responses.map Prod.fst).Perm
    ((List.range requests.length).filter fun j ↦ !isNotification (requests.getD j .null))
  responses : ∀ q ∈ b.responses, server.RespondsTo requests as q.1 q.2

/-- A batch on its way to such an end, after the steps `as`. -/
structure Answering [DoubleText] (as : List BatchStep) (b : Batch π ν) : Prop where
  last : b.done ≠ [] → b.Finished
  complete : b.Finished → server.Complete requests as b
  silent : (∀ v ∈ requests, server.ValidNotification v) →
    ∀ response ∈ b.done, respond response = .ok none
  goesOn : ¬ b.Finished → ∃ a, enabledBatch b a
  bound : as.length ≤ 3 * requests.length + 1

/-- In whatever order the procedures call back, the batch is answered as it should be. -/
def AnsweredOnce [DoubleText] : Prop :=
  ∀ (as : List BatchStep) (r : Run (Batch π ν)),
    (server.handleRequestBatch requests).Runs Batch.new as r →
      ∃ b, r = .ok b ∧ server.Answering requests as b

/-- No element but the last is rejected; where the last one is rejected like a request it is one,
and the text of the exception can be read; and there is something to answer. -/
structure Clean : Prop where
  accepted : ∀ j, j + 1 < requests.length →
    ∃ x, server.handleElement (requests.getD j .null) = .ok x
  last : ∀ j e, j + 1 = requests.length →
    server.handleElement (requests.getD j .null) = .throw (.request e) →
      isNotification (requests.getD j .null) = false ∧ ∃ detail, e.detail.read = .ok detail
  speaks : ∃ v ∈ requests, ¬ server.ValidNotification v

variable {server requests}

theorem Clean.responding_eq (hc : server.Clean requests) :
    server.responding requests requests.length =
      (List.range requests.length).filter fun j ↦ !isNotification (requests.getD j .null) := by
  refine List.filter_congr fun j hj ↦ ?_
  have hlt := List.mem_range.mp hj
  cases server.outcome (requests.getD j .null) with
  | call callBack hn hid hx =>
      rw [responds, hx, hn]
      rfl
  | notify callBack hn hx =>
      rw [responds, hx, hn]
      rfl
  | dropped e hn hx =>
      rw [responds, hx, hn]
      rfl
  | request e hx =>
      rw [responds, hx]
      refine (Bool.not_eq_true' _ |>.mpr ?_).symm
      rcases Nat.lt_or_eq_of_le (Nat.succ_le_of_lt hlt) with hlt | heq
      · obtain ⟨x, hok⟩ := hc.accepted j hlt
        cases hok.symm.trans hx
      · exact (hc.last j e heq hx).1

theorem Clean.not_dangles (hc : server.Clean requests) :
    ∀ j < requests.length, ¬ server.Dangles (requests.getD j .null) := by
  rintro j hlt ⟨e, hx, hd⟩
  rcases Nat.lt_or_eq_of_le (Nat.succ_le_of_lt hlt) with hlt | heq
  · obtain ⟨x, hok⟩ := hc.accepted j hlt
    cases hok.symm.trans hx
  · obtain ⟨-, detail, hok⟩ := hc.last j e heq hx
    cases hok.symm.trans hd

theorem Inv.complete (h : server.Inv requests as b) (hc : server.Clean requests)
    (hf : b.Finished) : server.Complete requests as b := by
  have hi : b.i = requests.length := by
    rcases h.returned hf.1 with hi | ⟨j, e, hi, hx⟩
    · exact hi
    · rcases Nat.lt_or_eq_of_le (hi ▸ h.le) with hlt | heq
      · obtain ⟨x, hok⟩ := hc.accepted j hlt
        cases hok.symm.trans hx
      · exact hi.trans heq
  have hperm := h.indices
  rw [hf.2.1, hi, hc.responding_eq, List.nil_append] at hperm
  exact ⟨hi, hi ▸ h.started, h.done.trans (if_pos hf), hperm, h.responses⟩

/-- An array always makes a message. -/
theorem respond_array_ne [DoubleText] (xs : List Value) : respond (.array xs) ≠ .ok none := by
  rw [respond, if_pos nofun]
  intro h
  obtain ⟨message, -, hnone⟩ := Exec.bind_eq_ok.mp h
  cases hnone

theorem Inv.clean [DoubleText] (h : server.Inv requests as b) (hf : b.Finished)
    (ha : server.Answering requests as b) : server.Clean requests := by
  have hcomplete := ha.complete hf
  have hperm := h.indices
  rw [hf.2.1, hcomplete.processed, List.nil_append] at hperm
  refine ⟨fun j hj ↦ ?_, fun j e hj hx ↦ ⟨?_, ?_⟩, ?_⟩
  · rw [← hcomplete.processed] at hj
    exact h.accepted j (Nat.lt_of_succ_lt hj) (.inr hj)
  · -- the error object of a notification is one response too many
    have hmem : j ∈ server.responding requests requests.length := by
      refine List.mem_filter.mpr ⟨List.mem_range.mpr (by omega), ?_⟩
      rw [responds, hx]
      rfl
    have hmem' := hcomplete.indices.mem_iff.mp (hperm.mem_iff.mpr hmem)
    simpa using (List.mem_filter.mp hmem').2
  · -- otherwise the loop has not come past it
    have hnd := h.readable j (by rw [hcomplete.processed]; omega)
    rcases hd : e.detail.read with f | detail
    · have hf : f = .dangling := Detail.eq_of_read_eq_error hd
      exact absurd ⟨e, hx, hf ▸ hd⟩ hnd
    · exact ⟨detail, rfl⟩
  · -- without responses there is still an array to send
    by_contra hno
    have hvalid : ∀ v ∈ requests, server.ValidNotification v := by
      simpa using hno
    have hnone : b.responses = [] := by
      have hindices := hcomplete.indices
      rw [List.filter_eq_nil_iff.mpr fun j hj ↦ ?_] at hindices
      · exact List.map_eq_nil_iff.mp hindices.eq_nil
      · have hlt := List.mem_range.mp hj
        rw [List.getD_eq_getElem _ _ hlt, (hvalid _ (List.getElem_mem hlt)).1]
        exact Bool.false_ne_true
    have hsilent := ha.silent hvalid (.array []) (by simp [hcomplete.done, hnone])
    exact respond_array_ne [] hsilent

/-- A batch is answered as it should be, whatever its procedures do, exactly when it is clean. -/
theorem answeredOnce_iff [DoubleText] (server : RpcServer π ν) (requests : List Value) :
    server.AnsweredOnce requests ↔ server.Clean requests := by
  constructor
  · intro h
    have hok : ∀ as f,
        ¬ (server.handleRequestBatch requests).Runs Batch.new as (.error f) := by
      intro as f hruns
      obtain ⟨b, hb, -⟩ := h as _ hruns
      cases hb
    obtain ⟨as, b, hruns, hinv, hf⟩ := exists_finished hok
    obtain ⟨b', hok, ha⟩ := h as _ hruns
    cases hok
    exact hinv.clean hf ha
  · intro hc as r hruns
    obtain ⟨b, hok, hinv⟩ := inv_of_runs hc.not_dangles hruns
    refine ⟨b, hok, ?_, fun hf ↦ hinv.complete hc hf, fun hvalid ↦ ?_, exists_enabled,
      (Nat.le_add_right _ _).trans hinv.bound⟩
    · intro hne
      by_contra hf
      exact hne (hinv.done_of_not_finished hf)
    · obtain ⟨v, hmem, hno⟩ := hc.speaks
      exact absurd (hvalid v hmem) hno

/-- Two numbers, at a server without services: the second is not answered. -/
theorem not_answeredOnce_numbers :
    let _ := noDoubles
    ¬ (RpcServer.new Unit Unit).AnsweredOnce [.int32 1, .int32 2] := by
  intro _ h
  have hruns : ((RpcServer.new Unit Unit).handleRequestBatch [.int32 1, .int32 2]).Runs Batch.new
      [.next] ((RpcServer.new Unit Unit).next [.int32 1, .int32 2] Batch.new) :=
    Machine.Runs.nil.snoc rfl
  obtain ⟨b, hok, ha⟩ := h _ _ hruns
  cases hok
  cases (ha.complete ⟨rfl, rfl, rfl⟩).processed

end RpcServer

end RpcLearning.Rpc
