import RpcLearning.Lib.Machine
import RpcLearning.Rpc.BaseClient

/-!
# Which callback a response runs

Every call gets an id of its own, as long as the ids do not come round, and its callback runs at
most once: for a response with the id of its call.
-/

namespace RpcLearning.Rpc.BaseClient

open Json Net Frames
open Framing (body)

/-! ## The id of an exception -/

/-- An exception that carries an id was thrown for a response with this id. -/
def ForResponse (response : Value) (e : ResponseException) : Prop :=
  ∀ id, e.id = some id → response.find (lit "id") = some (.int32 id)

theorem forResponse_none (response : Value) (what : Bytes) : ForResponse response ⟨what, none⟩ :=
  nofun

theorem forResponse_some {response : Value} {id : Int32}
    (h : response.find (lit "id") = some (.int32 id)) (what : Bytes) :
    ForResponse response ⟨what, some id⟩ := by
  rintro _ ⟨⟩
  exact h

theorem settles_findValue (cur : Value) (key : Bytes) (type : ValueType) (response : Value) :
    Exec.Settles (ForResponse response) (findValue cur key type) :=
  settles_require (forResponse_none _ _) (forResponse_none _ _)

theorem settles_findValueOf {response : Value} {id : Int32}
    (h : response.find (lit "id") = some (.int32 id)) (cur : Value) (key : Bytes)
    (type : ValueType) : Exec.Settles (ForResponse response) (findValueOf cur key type id) := by
  unfold findValueOf
  rcases settles_findValue cur key type response with ⟨v, hv⟩ | ⟨e, -, he⟩
  · rw [hv]
    exact Exec.settles_ok v
  · rw [he]
    exact Exec.settles_throw (forResponse_some h _)

theorem findValue_eq_ok {cur v : Value} {key : Bytes} {type : ValueType}
    (h : findValue cur key type = .ok v) : cur.find key = some v ∧ v.getType = type :=
  require_eq_ok.mp h

theorem settles_validateResponse (response : Value) :
    Exec.Settles (ForResponse response) (validateResponse response) := by
  unfold validateResponse
  refine .ite (fun _ ↦ Exec.settles_throw (forResponse_none _ _)) fun _ ↦ ?_
  refine .ite (fun _ ↦ Exec.settles_throw (forResponse_none _ _)) fun _ ↦ ?_
  refine .bind (settles_findValue _ _ _ _) fun v hv ↦ ?_
  obtain ⟨hid, ht⟩ := findValue_eq_ok hv
  obtain ⟨id, rfl⟩ := Value.getType_eq_int32 ht
  refine .bind (Exec.settles_ofRun ⟨id, rfl⟩) fun id' h' ↦ ?_
  cases h'
  refine .bind (settles_findValueOf hid _ _ _) fun v hv ↦ ?_
  have ht : v.getType = .TYPE_STRING := (findValue_eq_ok (Exec.mapThrown_eq_ok.mp hv)).2
  obtain ⟨version, rfl⟩ := Value.getType_eq_string ht
  refine .bind (Exec.settles_ofRun ⟨version, rfl⟩) fun version' h' ↦ ?_
  refine .ite (fun _ ↦ Exec.settles_throw (forResponse_some hid _)) fun _ ↦ ?_
  refine .ite (fun _ ↦ Exec.settles_throw (forResponse_none _ _)) fun _ ↦ ?_
  refine .ite (fun _ ↦ Exec.settles_throw (forResponse_none _ _)) fun _ ↦ ?_
  refine .ite (fun _ ↦ Exec.settles_ok _) fun _ ↦ ?_
  exact .bind (settles_findValueOf hid _ _ _) fun _ _ ↦ Exec.settles_ok _

theorem find_id_of_throw {response : Value} {e : ResponseException}
    (h : validateResponse response = .throw e) : ForResponse response e := by
  rcases settles_validateResponse response with ⟨u, hu⟩ | ⟨e', he, hv⟩
  · rw [h] at hu
    cases hu
  · rw [h] at hv
    cases hv
    exact he

/-! ## Ids -/

theorem int32_ofNat_inj {a b : Nat} (ha : a < 2 ^ 31) (hb : b < 2 ^ 31)
    (h : Int32.ofNat a = Int32.ofNat b) : a = b := by
  have h' := congrArg Int32.toInt h
  rw [Int32.toInt_ofNat_of_lt ha, Int32.toInt_ofNat_of_lt hb] at h'
  exact Int.ofNat_inj.mp h'

/-- The first `n` ids. -/
def ids (n : Nat) : List Int32 := (List.range n).map Int32.ofNat

theorem ids_succ (n : Nat) : ids (n + 1) = ids n ++ [Int32.ofNat n] := by
  simp [ids, List.range_succ]

theorem nodup_ids {n : Nat} (h : n ≤ 2 ^ 31) : (ids n).Nodup := by
  refine List.Nodup.map_on (fun a ha b hb hab ↦ ?_) List.nodup_range
  exact int32_ofNat_inj (by have := List.mem_range.mp ha; omega)
    (by have := List.mem_range.mp hb; omega) hab

theorem ofNat_notMem_ids {n : Nat} (h : n < 2 ^ 31) : Int32.ofNat n ∉ ids n := by
  intro hm
  have hn := nodup_ids (n := n + 1) (by omega)
  rw [ids_succ, List.nodup_append] at hn
  exact hn.2.2 _ hm _ (List.mem_singleton_self _) rfl

/-! ## The invariant -/

/-- A call, with the id that was put into it. -/
structure Registered (κ : Type) where
  id : Int32
  call : Call
  callback : κ

/-- An invocation, with the response it was made for. -/
structure Answer (κ : Type) where
  id : Int32
  callback : κ
  response : Value
  value : Value
  isError : Bool

variable {κ : Type}

/-- The call as it was made. -/
def Registered.made (r : Registered κ) : Call × κ := (r.call, r.callback)

/-- The message of a call. -/
def Registered.message [DoubleText] (r : Registered κ) : Bytes :=
  frame (text (.object (OrderedMap.emplace (lit "id") (.int32 r.id) r.call.members)))

/-- The calls that were registered and the answers that were given account for the client: what it
has sent, what it waits for and what it has invoked.  While a callback runs its entry is still
there, and its id is `busy`. -/
structure Correlated [DoubleText] (seen : Value → Prop) (busy : Option Int32)
    (calls : List (Registered κ)) (answers : List (Answer κ)) (c : BaseClient κ) : Prop where
  sent : c.sent = calls.map Registered.message
  next : c.id_ = Int32.ofNat calls.length
  ids : calls.map Registered.id = ids calls.length
  pending : ∀ j cb, OrderedMap.find j c.idToResponse_ = some cb →
    ∃ r ∈ calls, r.id.toInt = j ∧ r.callback = cb ∧
      (busy = some r.id ∨ r.id ∉ answers.map Answer.id)
  invoked : c.invoked = answers.map fun a ↦ (a.callback, a.value, a.isError)
  once : (answers.map Answer.id).Nodup
  answered : ∀ a ∈ answers, seen a.response ∧ Accepted a.response a.id ∧
    Outcome a.response a.value a.isError ∧ ∃ r ∈ calls, r.id = a.id ∧ r.callback = a.callback

section Account

variable [DoubleText] {seen : Value → Prop} {busy : Option Int32} {calls : List (Registered κ)}
  {answers : List (Answer κ)} {c : BaseClient κ}

theorem correlated_new : Correlated seen none [] [] (new κ) where
  sent := rfl
  next := rfl
  ids := rfl
  pending := nofun
  invoked := rfl
  once := List.nodup_nil
  answered := nofun

theorem Correlated.seen_imp {seen' : Value → Prop} (h : Correlated seen busy calls answers c)
    (hs : ∀ v, seen v → seen' v) : Correlated seen' busy calls answers c :=
  { h with answered := fun a ha ↦ (h.answered a ha).imp_left (hs a.response) }

/-- The next id is none that is waited for. -/
theorem Correlated.next_notPending (h : Correlated seen busy calls answers c)
    (hn : calls.length < 2 ^ 31) {j : Int} {cb : κ}
    (hj : OrderedMap.find j c.idToResponse_ = some cb) : c.id_.toInt ≠ j := by
  obtain ⟨r, hr, rfl, -, -⟩ := h.pending j cb hj
  intro he
  have hm : r.id ∈ BaseClient.ids calls.length := by
    rw [← h.ids]
    exact List.mem_map_of_mem hr
  rw [← Int32.toInt_inj.mp he, h.next] at hm
  exact ofNat_notMem_ids hn hm

theorem Correlated.next_notAnswered (h : Correlated seen busy calls answers c)
    (hn : calls.length < 2 ^ 31) : c.id_ ∉ answers.map Answer.id := by
  intro hm
  obtain ⟨a, ha, hid⟩ := List.mem_map.mp hm
  obtain ⟨-, -, -, r, hr, hra, -⟩ := h.answered a ha
  have hm' : r.id ∈ BaseClient.ids calls.length := by
    rw [← h.ids]
    exact List.mem_map_of_mem hr
  rw [hra, hid, h.next] at hm'
  exact ofNat_notMem_ids hn hm'

/-- A call is registered under an id that no other call has. -/
theorem Correlated.sendCall (h : Correlated seen busy calls answers c)
    (hn : calls.length < 2 ^ 31) (call : Call) (cb : κ) :
    ∃ v c', c.sendCall (.object call.members) cb = .ok (v, c') ∧
      Correlated seen busy (calls ++ [⟨c.id_, call, cb⟩]) answers c' ∧
      ∀ j cb, OrderedMap.find j c.idToResponse_ = some cb →
        OrderedMap.find j c'.idToResponse_ = some cb := by
  refine ⟨_, _, sendCall_eq call cb c, ?_, ?_⟩
  · constructor
    · simp [h.sent, Registered.message]
    · simp only [List.length_append, List.length_singleton, Int32.ofNat_add, h.next]
      rfl
    · simp only [List.map_append, h.ids, List.map_singleton, List.length_append,
        List.length_singleton, ids_succ, h.next]
    · intro j cb' hj
      rw [OrderedMap.find_assign] at hj
      split at hj
      · next he =>
        cases hj
        exact ⟨⟨c.id_, call, cb⟩, by simp, he, rfl, .inr (h.next_notAnswered hn)⟩
      · obtain ⟨r, hr, hrj, hrcb, hb⟩ := h.pending j cb' hj
        exact ⟨r, List.mem_append_left _ hr, hrj, hrcb, hb⟩
    · exact h.invoked
    · exact h.once
    · intro a ha
      obtain ⟨hs, hacc, hout, r, hr, hra⟩ := h.answered a ha
      exact ⟨hs, hacc, hout, r, List.mem_append_left _ hr, hra⟩
  · intro j cb' hj
    rw [OrderedMap.find_assign, if_neg (h.next_notPending hn hj)]
    exact hj

theorem Correlated.sendCalls (h : Correlated seen busy calls answers c) (more : List (Call × κ))
    (hn : calls.length + more.length ≤ 2 ^ 31) :
    ∃ c' calls', BaseClient.sendCalls more c = .ok c' ∧
      Correlated seen busy (calls ++ calls') answers c' ∧ calls'.map Registered.made = more ∧
      ∀ j cb, OrderedMap.find j c.idToResponse_ = some cb →
        OrderedMap.find j c'.idToResponse_ = some cb := by
  induction more generalizing c calls with
  | nil => exact ⟨c, [], rfl, by simpa using h, rfl, fun _ _ hj ↦ hj⟩
  | cons call more ih =>
      obtain ⟨call, cb⟩ := call
      rw [List.length_cons] at hn
      obtain ⟨v, c₁, hs, h₁, hk₁⟩ := h.sendCall (by omega) call cb
      obtain ⟨c₂, calls₂, hs₂, h₂, hmade, hk₂⟩ := ih h₁ (by
        rw [List.length_append, List.length_singleton]
        omega)
      refine ⟨c₂, ⟨c.id_, call, cb⟩ :: calls₂, ?_, ?_, ?_, fun j cb hj ↦ hk₂ j cb (hk₁ j cb hj)⟩
      · rw [BaseClient.sendCalls, hs, Exec.ok_bind]
        exact hs₂
      · simpa using h₂
      · rw [List.map_cons, hmade]
        rfl

/-! ## Responses -/

theorem Correlated.forget (h : Correlated seen busy calls answers c) {id : Int}
    (hb : ∀ i, busy = some i → i.toInt = id) :
    Correlated seen none calls answers
      { c with idToResponse_ := OrderedMap.erase id c.idToResponse_ } := by
  refine { h with pending := fun j cb hj ↦ ?_ }
  rw [OrderedMap.find_erase] at hj
  split at hj
  · cases hj
  · next hne =>
    obtain ⟨r, hr, hrj, hrcb, hbusy⟩ := h.pending j cb hj
    refine ⟨r, hr, hrj, hrcb, .inr (hbusy.resolve_left fun he ↦ hne ?_)⟩
    rw [← hrj, hb r.id he]

/-- The callback of a pending call is invoked, once. -/
theorem Correlated.answer (h : Correlated seen none calls answers c) {response value : Value}
    {id : Int32} {cb : κ} {isError : Bool} (hs : seen response) (ha : Accepted response id)
    (ho : Outcome response value isError)
    (hf : OrderedMap.find id.toInt c.idToResponse_ = some cb) :
    Correlated seen (some id) calls (answers ++ [⟨id, cb, response, value, isError⟩])
      { c with invoked := c.invoked ++ [(cb, value, isError)] } := by
  obtain ⟨r, hr, hid, hcb, hb⟩ := h.pending _ _ hf
  have hid : r.id = id := Int32.toInt_inj.mp hid
  have hnew : id ∉ answers.map Answer.id := hid ▸ hb.resolve_left nofun
  refine ⟨h.sent, h.next, h.ids, ?_, by simp [h.invoked], ?_, ?_⟩
  · intro j cb' hj
    obtain ⟨q, hq, rfl, hqcb, hb'⟩ := h.pending j cb' hj
    refine ⟨q, hq, rfl, hqcb, ?_⟩
    by_cases hqi : q.id = id
    · exact .inl (congrArg some hqi.symm)
    · refine .inr ?_
      have hq' := hb'.resolve_left nofun
      simp only [List.map_append, List.map_singleton, List.mem_append, List.mem_singleton, not_or]
      exact ⟨hq', hqi⟩
  · simp only [List.map_append, List.map_singleton]
    exact List.nodup_append.mpr ⟨h.once, List.nodup_singleton _, by
      rintro x hx y hy rfl
      exact hnew (List.mem_singleton.mp hy ▸ hx)⟩
  · intro a hm
    rcases List.mem_append.mp hm with hm | hm
    · exact h.answered a hm
    · rw [List.mem_singleton.mp hm]
      exact ⟨hs, ha, ho, r, hr, hid, hcb⟩

section Responses

variable (react : κ → Value → Bool → List (Call × κ))

/-- Everything that handling one response can do. -/
theorem handleResonseSingle_cases (response : Value) (c : BaseClient κ) :
    (∃ e, ForResponse response e ∧ c.handleResonseSingle react response = .ok (c, some e)) ∨
      (∃ id, Accepted response id ∧ c.handleResonseSingle react response = .ok (c, none)) ∨
      ∃ id cb value isError c', Accepted response id ∧
        OrderedMap.find id.toInt c.idToResponse_ = some cb ∧ Outcome response value isError ∧
        BaseClient.sendCalls (react cb value isError)
          { c with invoked := c.invoked ++ [(cb, value, isError)] } = .ok c' ∧
        c.handleResonseSingle react response =
          .ok ({ c' with idToResponse_ := OrderedMap.erase id.toInt c'.idToResponse_ }, none) := by
  unfold handleResonseSingle
  rcases validateResponse_cases response with ⟨id, ha, hv⟩ | ⟨e, hv, -⟩
  swap
  · exact .inl ⟨e, find_id_of_throw hv, by rw [hv, Exec.throw_bind]; rfl⟩
  refine .inr ?_
  rw [hv, Exec.ok_bind, ha.dispatch_eq]
  cases hf : OrderedMap.find id.toInt c.idToResponse_ with
  | none => exact .inl ⟨id, ha, rfl⟩
  | some cb =>
      obtain ⟨value, isError, ho, heq⟩ := ha.answer_eq react cb c
      obtain ⟨c', hc, -⟩ := exists_sendCalls (react cb value isError)
        { c with invoked := c.invoked ++ [(cb, value, isError)] }
      refine .inr ⟨id, cb, value, isError, c', ha, hf, ho, hc, ?_⟩
      simp only [heq, invoke, hc, Exec.ok_bind]
      rfl

theorem length_sent_sendCalls {more : List (Call × κ)} {c c' : BaseClient κ}
    (h : BaseClient.sendCalls more c = .ok c') :
    c'.sent.length = c.sent.length + more.length := by
  induction more generalizing c with
  | nil =>
      cases h
      rfl
  | cons call more ih =>
      obtain ⟨call, cb⟩ := call
      rw [BaseClient.sendCalls, sendCall_eq, Exec.ok_bind] at h
      rw [ih h, List.length_append, List.length_singleton, List.length_cons]
      omega

theorem invoked_sendCalls {more : List (Call × κ)} {c c' : BaseClient κ}
    (h : BaseClient.sendCalls more c = .ok c') : c'.invoked = c.invoked := by
  obtain ⟨c'', hc, -, hi⟩ := exists_sendCalls more c
  cases h.symm.trans hc
  exact hi

/-! ## Runs -/

/-- The calls that the callback of an invocation makes. -/
def madeBy (q : κ × Value × Bool) : List (Call × κ) := react q.1 q.2.1 q.2.2

/-- From `c` to `c'` the client has made the calls `made`, and behind them those of the callbacks
that were invoked; and the account goes on with these, as long as the ids do not come round. -/
structure Advances (seen : Value → Prop) (made : List (Call × κ)) (c c' : BaseClient κ) : Prop where
  sent : ∃ invoked, c'.invoked = c.invoked ++ invoked ∧
    c'.sent.length = c.sent.length + (made ++ invoked.flatMap (madeBy react)).length
  correlated : c'.sent.length ≤ 2 ^ 31 → ∀ calls answers, Correlated seen none calls answers c →
    ∃ calls' answers' invoked, Correlated seen none (calls ++ calls') answers' c' ∧
      c'.invoked = c.invoked ++ invoked ∧
      calls'.map Registered.made = made ++ invoked.flatMap (madeBy react)

variable {react} in
theorem Advances.le {made : List (Call × κ)} {c c' : BaseClient κ}
    (h : Advances react seen made c c') : c.sent.length ≤ c'.sent.length := by
  obtain ⟨invoked, -, hlen⟩ := h.sent
  omega

variable {react} in
/-- Nothing is called and nobody is. -/
theorem Advances.of_correlated {c c' : BaseClient κ} (hs : c'.sent = c.sent)
    (hi : c'.invoked = c.invoked) (h : ∀ calls answers, Correlated seen none calls answers c →
      Correlated seen none calls answers c') : Advances react seen [] c c' := by
  refine ⟨⟨[], by rw [hi, List.append_nil], congrArg List.length hs⟩, fun _ calls answers hc ↦ ?_⟩
  refine ⟨[], answers, [], ?_, by rw [hi, List.append_nil], rfl⟩
  rw [List.append_nil]
  exact h calls answers hc

theorem Advances.refl (c : BaseClient κ) : Advances react seen [] c c :=
  .of_correlated rfl rfl fun _ _ h ↦ h

variable {react} in
theorem Advances.trans {made : List (Call × κ)} {c₁ c₂ c₃ : BaseClient κ}
    (h : Advances react seen made c₁ c₂) (h' : Advances react seen [] c₂ c₃) :
    Advances react seen made c₁ c₃ := by
  refine ⟨?_, fun hn calls answers hc ↦ ?_⟩
  · obtain ⟨invoked₂, hi₂, hlen₂⟩ := h.sent
    obtain ⟨invoked₃, hi₃, hlen₃⟩ := h'.sent
    refine ⟨invoked₂ ++ invoked₃, by rw [hi₃, hi₂, List.append_assoc], ?_⟩
    rw [hlen₃, hlen₂, List.nil_append, List.flatMap_append]
    simp only [List.length_append]
    omega
  obtain ⟨calls₂, answers₂, invoked₂, hc₂, hi₂, hm₂⟩ :=
    h.correlated (h'.le.trans hn) calls answers hc
  obtain ⟨calls₃, answers₃, invoked₃, hc₃, hi₃, hm₃⟩ := h'.correlated hn _ answers₂ hc₂
  refine ⟨calls₂ ++ calls₃, answers₃, invoked₂ ++ invoked₃, ?_, ?_, ?_⟩
  · rwa [List.append_assoc] at hc₃
  · rw [hi₃, hi₂, List.append_assoc]
  · rw [List.map_append, hm₂, hm₃, List.nil_append, List.flatMap_append, List.append_assoc]

theorem advances_caught (c : BaseClient κ) (e : ResponseException) :
    Advances react seen [] c (c.caught e) := by
  unfold caught
  cases e.id with
  | none => exact .refl react c
  | some id =>
      refine .of_correlated rfl rfl fun calls answers h ↦ h.forget ?_
      intro i hi
      cases hi

theorem advances_afterwards (c : BaseClient κ) (t : Option ResponseException) :
    Advances react seen [] c (c.afterwards t) := by
  cases t with
  | none => exact .refl react c
  | some e => exact advances_caught react c e

theorem advances_sendCall {call : Call} {cb : κ} {v : Value} {c c' : BaseClient κ}
    (h : c.sendCall (.object call.members) cb = .ok (v, c')) :
    Advances react seen [(call, cb)] c c' := by
  have hsend : c'.sent.length = c.sent.length + 1 ∧ c'.invoked = c.invoked := by
    rw [sendCall_eq] at h
    cases h
    exact ⟨by simp, rfl⟩
  obtain ⟨hlen, hinv⟩ := hsend
  refine ⟨⟨[], by rw [hinv, List.append_nil], hlen⟩, fun hn calls answers hc ↦ ?_⟩
  have hcalls : calls.length = c.sent.length := by simp [hc.sent]
  obtain ⟨v', c'', hs, hc', -⟩ := hc.sendCall (by omega) call cb
  rw [h] at hs
  cases hs
  refine ⟨[⟨c.id_, call, cb⟩], answers, [], hc', ?_, rfl⟩
  rw [hc'.invoked, hc.invoked, List.append_nil]

theorem advances_handleResonseSingle {response : Value} {c c' : BaseClient κ}
    {t : Option ResponseException} (hs : seen response)
    (h : c.handleResonseSingle react response = .ok (c', t)) : Advances react seen [] c c' := by
  rcases handleResonseSingle_cases react response c with ⟨e, -, he⟩ | ⟨id, -, he⟩ |
    ⟨id, cb, value, isError, c₁, ha, hf, ho, hc, he⟩
  · rw [h] at he
    cases he
    exact .refl react c
  · rw [h] at he
    cases he
    exact .refl react c
  · rw [h] at he
    cases he
    have hlen := length_sent_sendCalls hc
    dsimp only at hlen
    have hinv : c₁.invoked = c.invoked ++ [(cb, value, isError)] := invoked_sendCalls hc
    refine ⟨⟨_, hinv, by simpa [madeBy] using hlen⟩, fun hn calls answers hcor ↦ ?_⟩
    have hcalls : calls.length = c.sent.length := by simp [hcor.sent]
    dsimp only at hn
    have hans := hcor.answer hs ha ho hf
    obtain ⟨c₂, calls', hc₂, h₂, hmade, -⟩ :=
      hans.sendCalls (react cb value isError) (by omega)
    rw [hc] at hc₂
    cases hc₂
    refine ⟨calls', _, [(cb, value, isError)], h₂.forget ?_, ?_, ?_⟩
    · rintro _ ⟨⟩
      rfl
    · exact h₂.invoked.trans hans.invoked.symm
    · rw [hmade]
      simp [madeBy]

theorem advances_handleResponses {responses : List Value} {c c' : BaseClient κ}
    {t : Option ResponseException} (hs : ∀ r ∈ responses, seen r)
    (h : c.handleResponses react responses = .ok (c', t)) : Advances react seen [] c c' := by
  induction responses generalizing c with
  | nil =>
      cases h
      exact .refl react _
  | cons response responses ih =>
      obtain ⟨⟨c₁, t₁⟩, h₁, h⟩ := Exec.bind_eq_ok.mp h
      have had := advances_handleResonseSingle react (hs response (by simp)) h₁
      cases t₁ with
      | some e =>
          cases h
          exact had
      | none => exact had.trans (ih (fun r hr ↦ hs r (List.mem_cons_of_mem _ hr)) h)

/-- The responses in a text. -/
def responsesOf (json : Bytes) : List Value :=
  match Reader.parse json with
  | .ok (.PARSE_OK, some v) => if v.getType = .TYPE_ARRAY then v.items else [v]
  | _ => []

theorem advances_handleResponse {json : Bytes} {c c' : BaseClient κ}
    {t : Option ResponseException} (hs : ∀ r ∈ responsesOf json, seen r)
    (h : c.handleResponse react json = .ok (c', t)) : Advances react seen [] c c' := by
  have hhandled : Advances react seen [] c { c with handled := c.handled ++ [json] } :=
    .of_correlated rfl rfl fun calls answers hc ↦
      ⟨hc.sent, hc.next, hc.ids, hc.pending, hc.invoked, hc.once, hc.answered⟩
  refine hhandled.trans ?_
  obtain ⟨⟨err, responses⟩, hp, h⟩ := Exec.bind_eq_ok.mp h
  dsimp only at h
  by_cases herr : err = .PARSE_OK
  swap
  · rw [if_pos herr] at h
    cases h
    exact .refl react _
  rw [if_neg (not_not.mpr herr)] at h
  subst herr
  cases responses with
  | none =>
      cases h
      exact .refl react _
  | some v =>
      rw [responsesOf, hp] at hs
      dsimp only [Option.getD_some] at h hs
      cases hv : v.getType with
      | TYPE_OBJECT =>
          rw [hv] at h hs
          exact advances_handleResonseSingle react (hs v (by simp)) h
      | TYPE_ARRAY =>
          rw [hv] at h hs
          dsimp only at h
          split at h
          · cases h
            exact .refl react _
          · exact advances_handleResponses react (by simpa using hs) h
      | _ =>
          rw [hv] at h
          cases h
          exact .refl react _

end Responses

/-- What happens to a client. -/
inductive ClientStep (κ : Type) where
  | sendCall (call : Call) (cb : κ)
  | handleResponse (json : Bytes)
  /-- One response of a batch. -/
  | handleResonseSingle (response : Value)

/-- The call that a step makes itself. -/
def ClientStep.made : ClientStep κ → List (Call × κ)
  | .sendCall call cb => [(call, cb)]
  | _ => []

def ClientStep.responses : ClientStep κ → List Value
  | .sendCall _ _ => []
  | .handleResponse json => responsesOf json
  | .handleResonseSingle response => [response]

section Runs

variable (react : κ → Value → Bool → List (Call × κ))

/-- A response is handled and an exception caught, as in `onMessage`. -/
def machine : Machine (BaseClient κ) (ClientStep κ) where
  enabled _ _ := True
  perform c
    | .sendCall call cb => do
      let (_, c) ← c.sendCall (.object call.members) cb
      .ok c
    | .handleResponse json => do
      let (c, thrown) ← c.handleResponse react json
      .ok (c.afterwards thrown)
    | .handleResonseSingle response => do
      let (c, thrown) ← c.handleResonseSingle react response
      .ok (c.afterwards thrown)

theorem advances_perform {a : ClientStep κ} {c c' : BaseClient κ} (hs : ∀ r ∈ a.responses, seen r)
    (h : (machine react).perform c a = .ok c') : Advances react seen a.made c c' := by
  cases a with
  | sendCall call cb =>
      obtain ⟨⟨v, c₁⟩, h₁, h⟩ := Exec.bind_eq_ok.mp h
      cases h
      exact advances_sendCall react h₁
  | handleResponse json =>
      obtain ⟨⟨c₁, t⟩, h₁, h⟩ := Exec.bind_eq_ok.mp h
      cases h
      exact (advances_handleResponse react hs h₁).trans (advances_afterwards react c₁ t)
  | handleResonseSingle response =>
      obtain ⟨⟨c₁, t⟩, h₁, h⟩ := Exec.bind_eq_ok.mp h
      cases h
      exact (advances_handleResonseSingle react (hs response (by simp [ClientStep.responses]))
        h₁).trans (advances_afterwards react c₁ t)

/-- The calls that were made in a run, in order: what each step calls itself, and behind that what
the callbacks call that the step invokes. -/
inductive Made : List (ClientStep κ) → BaseClient κ → List (Call × κ) → Prop
  | nil : Made [] (new κ) []
  | snoc {as : List (ClientStep κ)} {a : ClientStep κ} {c c' : BaseClient κ}
      {made : List (Call × κ)} {invoked : List (κ × Value × Bool)} (h : Made as c made)
      (hp : (machine react).perform c a = .ok c') (hi : c'.invoked = c.invoked ++ invoked) :
      Made (as ++ [a]) c' (made ++ (a.made ++ invoked.flatMap (madeBy react)))

/-- Handling a response neither removes nor replaces the entry of a call with another id, and the
callback it invokes, if any, is that of the call with its id. -/
def KeepsOthers (c : BaseClient κ) : Prop :=
  ∀ response c', (machine react).perform c (.handleResonseSingle response) = .ok c' →
    c'.sent.length < 2 ^ 31 →
    (∀ j cb, OrderedMap.find j c.idToResponse_ = some cb →
      (∀ id, response.find (lit "id") = some (.int32 id) → id.toInt ≠ j) →
        OrderedMap.find j c'.idToResponse_ = some cb) ∧
    (c'.invoked = c.invoked ∨ ∃ id cb value isError,
      response.find (lit "id") = some (.int32 id) ∧
      OrderedMap.find id.toInt c.idToResponse_ = some cb ∧
      c'.invoked = c.invoked ++ [(cb, value, isError)])

theorem Correlated.keepsOthers (h : Correlated seen none calls answers c) :
    KeepsOthers react c := by
  intro response c' hp hn
  obtain ⟨⟨c₁, t⟩, h₁, hp⟩ := Exec.bind_eq_ok.mp hp
  cases hp
  rcases handleResonseSingle_cases react response c with ⟨e, hfor, he⟩ | ⟨id, -, he⟩ |
    ⟨id, cb, value, isError, c₂, ha, hf, ho, hc, he⟩
  · rw [h₁] at he
    cases he
    cases hid : e.id with
    | none =>
        have hc : c.afterwards (some e) = c := by simp only [afterwards, caught, hid]
        rw [hc]
        exact ⟨fun j cb hj _ ↦ hj, .inl rfl⟩
    | some id =>
        have hc : c.afterwards (some e) = { c with
            idToResponse_ := OrderedMap.erase id.toInt c.idToResponse_ } := by
          simp only [afterwards, caught, hid]
        rw [hc]
        refine ⟨fun j cb hj hne ↦ ?_, .inl rfl⟩
        rw [OrderedMap.find_erase, if_neg (hne id (hfor id hid))]
        exact hj
  · rw [h₁] at he
    cases he
    exact ⟨fun j cb hj _ ↦ hj, .inl rfl⟩
  · rw [h₁] at he
    cases he
    have hlen := length_sent_sendCalls hc
    have hcalls : calls.length = c.sent.length := by simp [h.sent]
    simp only [afterwards] at hn hlen ⊢
    have htrue : Correlated (fun _ ↦ True) none calls answers c := h.seen_imp fun _ _ ↦ trivial
    obtain ⟨c₃, calls', hc₃, h₃, -, hkeep⟩ :=
      (htrue.answer trivial ha ho hf).sendCalls (react cb value isError) (by omega)
    rw [hc] at hc₃
    cases hc₃
    refine ⟨fun j cb' hj hne ↦ ?_, .inr ⟨id, cb, value, isError, ha.id, hf, ?_⟩⟩
    · rw [OrderedMap.find_erase, if_neg (hne id ha.id)]
      exact hkeep j cb' hj
    · exact invoked_sendCalls hc

/-- In every run with fewer than `2 ^ 31` calls no two calls have the same id; every invocation is
that of a callback for a response that was handled, is accepted and has the id of the callback's
call, with its result or its error; there is at most one for each id; and a response with another
id changes nothing about a call. -/
theorem correlated_of_runs {as : List (ClientStep κ)} {c : BaseClient κ}
    (h : (machine react).Runs (new κ) as (.ok c)) (hn : c.sent.length < 2 ^ 31) :
    ∃ calls answers, Made react as c (calls.map Registered.made) ∧
      (calls.map Registered.id).Nodup ∧
      Correlated (fun v ↦ ∃ a ∈ as, v ∈ a.responses) none calls answers c ∧
      KeepsOthers react c := by
  have hinv := h.preserves
    (I := fun as c ↦ c.sent.length ≤ 2 ^ 31 → ∃ calls answers,
      Made react as c (calls.map Registered.made) ∧
      Correlated (fun v ↦ ∃ a ∈ as, v ∈ a.responses) none calls answers c)
    (fun _ ↦ ⟨[], [], .nil, correlated_new⟩)
    fun as c a c' hi _ hp hn ↦ by
      have hadv : Advances react (fun v ↦ ∃ b ∈ as ++ [a], v ∈ b.responses) a.made c c' :=
        advances_perform react (fun r hr ↦ ⟨a, by simp, hr⟩) hp
      obtain ⟨calls, answers, hmade, hc⟩ := hi (hadv.le.trans hn)
      have hseen : Correlated (fun v ↦ ∃ b ∈ as ++ [a], v ∈ b.responses) none calls answers c := by
        refine hc.seen_imp ?_
        rintro v ⟨b, hb, hv⟩
        exact ⟨b, List.mem_append_left _ hb, hv⟩
      obtain ⟨calls', answers', invoked, hc', hi', hmade'⟩ :=
        hadv.correlated hn calls answers hseen
      refine ⟨calls ++ calls', answers', ?_, hc'⟩
      rw [List.map_append, hmade']
      exact hmade.snoc hp hi'
  obtain ⟨calls, answers, hmade, hc⟩ := hinv hn.le
  refine ⟨calls, answers, hmade, ?_, hc, hc.keepsOthers react⟩
  have hcalls : calls.length = c.sent.length := by simp [hc.sent]
  rw [hc.ids]
  exact nodup_ids (by omega)

end Runs

end Account

/-- The callback of a call makes another call; the response is handled. -/
theorem correlated_of_runs_answered :
    let _ := noDoubles
    ∃ (call : Call) (c : BaseClient Bool) (calls : List (Registered Bool))
      (answers : List (Answer Bool)),
      let react : Bool → Value → Bool → List (Call × Bool) :=
        fun cb _ _ ↦ if cb then [(call, false)] else []
      let as : List (ClientStep Bool) := [.sendCall call true,
        .handleResponse (body (text (responseObject 0 (.int32 2))))]
      c.invoked = [(true, .int32 2, false)] ∧ c.sent.length = 2 ∧
        Made react as c (calls.map Registered.made) ∧ (calls.map Registered.id).Nodup ∧
        Correlated (fun v ↦ ∃ a ∈ as, v ∈ a.responses) none calls answers c ∧
        KeepsOthers react c := by
  let _ := noDoubles
  have hparams : (Value.object []).Countable := by simp
  let call := Call.new (lit "S") (lit "m") hparams
  let react : Bool → Value → Bool → List (Call × Bool) :=
    fun cb _ _ ↦ if cb then [(call, false)] else []
  obtain ⟨v, c₁, hc₁, hfind, hlen, hinv⟩ : ∃ v c₁, (new Bool).sendCall (.object call.members) true =
      .ok (v, c₁) ∧ OrderedMap.find (0 : Int32).toInt c₁.idToResponse_ = some true ∧
        c₁.sent.length = 1 ∧ c₁.invoked = [] :=
    ⟨_, _, sendCall_eq call true (new Bool), rfl, rfl, rfl⟩
  obtain ⟨c₂, hc₂, hi₂, -⟩ := handleResponse_responseObject react hfind (.int32 2) (.int32 2)
  have hadvances : Advances react (fun _ ↦ True) [] c₁ c₂ :=
    advances_handleResponse react (fun _ _ ↦ trivial) hc₂
  obtain ⟨invoked, hi, hsent⟩ := hadvances.sent
  rw [hinv, List.nil_append] at hi₂ hi
  have hsent : c₂.sent.length = 2 := by
    rw [hsent, hlen, ← hi, hi₂]
    rfl
  have hruns : (machine react).Runs (new Bool) [.sendCall call true,
      .handleResponse (body (text (responseObject 0 (.int32 2))))] (.ok c₂) := by
    have h₁ : (machine react).Runs (new Bool) [.sendCall call true] (.ok c₁) := by
      refine Machine.Runs.nil.then trivial ?_
      rw [machine]
      dsimp only
      rw [hc₁, Exec.ok_bind]
    refine h₁.then trivial ?_
    rw [machine]
    dsimp only
    rw [hc₂, Exec.ok_bind]
    rfl
  obtain ⟨calls, answers, hmade, hids, hcor, hkeep⟩ :=
    correlated_of_runs react hruns (by omega)
  exact ⟨call, c₂, calls, answers, hi₂, hsent, hmade, hids, hcor, hkeep⟩

end RpcLearning.Rpc.BaseClient
