import RpcLearning.Rpc.Exception
import RpcLearning.Rpc.Messages

/-!
# The client's end of a connection

`BaseClient` (`RpcServer/Client/BaseClient.cpp`).  A callback is known by a name of type `κ`; what
matters of its body is the calls it makes, which `react` tells.
-/

namespace RpcLearning.Rpc

open Json Net Frames
open Framing (body)

/-- A call object as `sendCall` wants it: it puts the id in itself, and the writer can count what is
in it then. -/
structure Call where
  members : List (Bytes × Value)
  id_notMem : lit "id" ∉ OrderedMap.keys members
  countable : ∀ id, (Value.object (OrderedMap.emplace (lit "id") (.int32 id) members)).Countable

/-- What a stub hands to `sendCall`. -/
def Call.new (s m : Bytes) {params : Value} (h : params.Countable) : Call where
  members := callMembers s m params
  id_notMem := id_notMem_callMembers s m params
  countable _ := countable_requestObject.mpr h

/-- The client, together with what it has done so far: the messages it has sent, the texts
`handleResponse` has been called with, and the callbacks it has invoked. -/
structure BaseClient (κ : Type) where
  id_ : Int32
  idToResponse_ : List (Int × κ)
  sent : List Bytes
  handled : List Bytes
  invoked : List (κ × Value × Bool)

namespace BaseClient

/-- `BaseClient(loop, serverAddress)` -/
def new (κ : Type) : BaseClient κ := ⟨0, [], [], [], []⟩

def kMaxMessageLen : Nat := 65536

/-- The client waits for a body, and then takes everything out of the buffer. -/
def framing : Framing ResponseException where
  kMaxMessageLen := kMaxMessageLen
  reject what := ⟨what, none⟩
  takeBody _ := Buffer.retrieveAllAsString

def findValue : Value → Bytes → ValueType → Exec ResponseException Value :=
  require ⟨lit "key not exist", none⟩ ⟨lit "bad type", none⟩

/-- `findValue(cur, key, type, id)` -/
def findValueOf (cur : Value) (key : Bytes) (type : ValueType) (id : Int32) :
    Exec ResponseException Value :=
  Exec.mapThrown (fun e ↦ ⟨e.what, some id⟩) (findValue cur key type)

def validateResponse (response : Value) : Exec ResponseException Unit :=
  if response.getType ≠ .TYPE_OBJECT then
    .throw ⟨lit "reponse should be json object or array", none⟩
  else if response.getSize ≠ 3 then
    .throw ⟨lit "response should have exactly 3 field(jsonrpc, error/result, id)", none⟩
  else do
    let id ← findValue response (lit "id") .TYPE_INT32
    let id ← Exec.ofRun id.getInt32
    let version ← findValueOf response (lit "jsonrpc") .TYPE_STRING id
    let version ← Exec.ofRun version.getString
    if version ≠ lit "2.0" then .throw ⟨lit "unknown json rpc version", some id⟩
    else
      let resultIn := response.hasMember (lit "result")
      let errorIn := response.hasMember (lit "error")
      if resultIn && errorIn then .throw ⟨lit "result ans error can not include both", none⟩
      else if !resultIn && !errorIn then
        .throw ⟨lit "error and result must contain one", none⟩
      else if resultIn then .ok ()
      else do
        let _ ← findValueOf response (lit "error") .TYPE_OBJECT id
        .ok ()

/-! ## What is accepted -/

/-- The response objects that `validateResponse` lets pass, with their id. -/
structure Accepted (response : Value) (id : Int32) : Prop where
  object : response.getType = .TYPE_OBJECT
  size : response.getSize = 3
  id : response.find (lit "id") = some (.int32 id)
  version : response.find (lit "jsonrpc") = some (.string (lit "2.0"))
  outcome : response.hasMember (lit "result") ≠ response.hasMember (lit "error")
  error : response.hasMember (lit "error") →
    ∃ ms, response.find (lit "error") = some (.object ms)

theorem findValue_cases (cur : Value) (key : Bytes) (type : ValueType) :
    (∃ v, cur.find key = some v ∧ v.getType = type ∧ findValue cur key type = .ok v) ∨
      ∃ e, findValue cur key type = .throw e ∧ ∀ v, cur.find key = some v → v.getType ≠ type :=
  require_cases _ _ cur key type

/-- A response object is accepted, or an exception says why not. -/
theorem validateResponse_cases (response : Value) :
    (∃ id, Accepted response id ∧ validateResponse response = .ok ()) ∨
      ∃ e, validateResponse response = .throw e ∧ ∀ id, ¬ Accepted response id := by
  unfold validateResponse
  by_cases ho : response.getType = .TYPE_OBJECT
  swap
  · exact .inr ⟨_, if_pos ho, fun _ h ↦ ho h.object⟩
  by_cases hs : response.getSize = 3
  swap
  · rw [if_neg (not_not.mpr ho)]
    exact .inr ⟨_, if_pos hs, fun _ h ↦ hs h.size⟩
  rw [if_neg (not_not.mpr ho), if_neg (not_not.mpr hs)]
  rcases findValue_cases response (lit "id") .TYPE_INT32 with ⟨x, hid, ht, hx⟩ | ⟨e, he, hid⟩
  swap
  · rw [he]
    exact .inr ⟨e, rfl, fun id h ↦ hid _ h.id rfl⟩
  obtain ⟨id, rfl⟩ := Value.getType_eq_int32 ht
  simp only [hx, Exec.ok_bind, Value.getInt32, Exec.ofRun_ok, findValueOf]
  rcases findValue_cases response (lit "jsonrpc") .TYPE_STRING with ⟨x, hv, ht, hx⟩ | ⟨e, he, hv⟩
  swap
  · rw [he]
    exact .inr ⟨_, rfl, fun id h ↦ hv _ h.version rfl⟩
  obtain ⟨version, rfl⟩ := Value.getType_eq_string ht
  simp only [hx, Exec.mapThrown_ok, Exec.ok_bind, Value.getString, Exec.ofRun_ok]
  by_cases h2 : version = lit "2.0"
  swap
  · refine .inr ⟨_, if_pos h2, fun id h ↦ h2 ?_⟩
    exact Value.string.inj (Option.some.inj (hv.symm.trans h.version))
  subst h2
  rw [if_neg (not_not.mpr rfl)]
  by_cases hboth : (response.hasMember (lit "result") && response.hasMember (lit "error")) = true
  · refine .inr ⟨_, if_pos hboth, fun id h ↦ h.outcome ?_⟩
    rw [Bool.and_eq_true] at hboth
    rw [hboth.1, hboth.2]
  rw [if_neg hboth]
  by_cases hnone : (!response.hasMember (lit "result") && !response.hasMember (lit "error")) = true
  · refine .inr ⟨_, if_pos hnone, fun id h ↦ h.outcome ?_⟩
    rw [Bool.and_eq_true, Bool.not_eq_true', Bool.not_eq_true'] at hnone
    rw [hnone.1, hnone.2]
  rw [if_neg hnone]
  have hne : response.hasMember (lit "result") ≠ response.hasMember (lit "error") := by
    revert hboth hnone
    cases response.hasMember (lit "result") <;> cases response.hasMember (lit "error") <;> decide
  by_cases hr : response.hasMember (lit "result") = true
  · refine .inl ⟨id, ⟨ho, hs, hid, hv, hne, ?_⟩, if_pos hr⟩
    intro he
    exact absurd (hr.trans he.symm) hne
  rw [if_neg hr]
  rcases findValue_cases response (lit "error") .TYPE_OBJECT with ⟨x, hx, ht, hfx⟩ | ⟨e, he, hx⟩
  · obtain ⟨ms, rfl⟩ := Value.getType_eq_object ht
    rw [hfx]
    exact .inl ⟨id, ⟨ho, hs, hid, hv, hne, fun _ ↦ ⟨ms, hx⟩⟩, rfl⟩
  · rw [he]
    refine .inr ⟨_, rfl, fun id h ↦ ?_⟩
    have herr : response.hasMember (lit "error") = true := by
      by_contra hc
      exact hne (by rw [Bool.not_eq_true] at hr hc; rw [hr, hc])
    obtain ⟨ms, hm⟩ := h.error herr
    exact hx _ hm rfl

theorem validateResponse_eq_ok {response : Value} :
    validateResponse response = .ok () ↔ ∃ id, Accepted response id := by
  rcases validateResponse_cases response with ⟨id, ha, hv⟩ | ⟨e, he, hn⟩
  · exact iff_of_true hv ⟨id, ha⟩
  · rw [he]
    exact iff_of_false nofun fun ⟨id, ha⟩ ↦ hn id ha

variable [DoubleText] {κ : Type}

/-- `sendCall`, which also leaves the id in the call object.  After the last `int32_t`, the ids are
taken to come round. -/
def sendCall (call : Value) (cb : κ) (c : BaseClient κ) : Run (Value × BaseClient κ) := do
  let call ← call.addMember (.string (lit "id")) (.int32 c.id_)
  let idToResponse_ := OrderedMap.assign c.id_.toInt cb c.idToResponse_
  let message ← sendJson call
  .ok (call, { c with id_ := c.id_ + 1, idToResponse_, sent := c.sent ++ [message] })

/-- The calls a callback makes. -/
def sendCalls : List (Call × κ) → BaseClient κ → Run (BaseClient κ)
  | [], c => .ok c
  | (call, cb) :: calls, c => do
    let (_, c) ← c.sendCall (.object call.members) cb
    sendCalls calls c

/-- `it->second(value, isError)` -/
def invoke (react : κ → Value → Bool → List (Call × κ)) (cb : κ) (value : Value) (isError : Bool)
    (c : BaseClient κ) : Run (BaseClient κ) :=
  sendCalls (react cb value isError) { c with invoked := c.invoked ++ [(cb, value, isError)] }

variable (react : κ → Value → Bool → List (Call × κ))

/-- The callback for a response is given its result, or else its error. -/
def answer (cb : κ) (response : Value) (c : BaseClient κ) : Run (BaseClient κ) :=
  if response.hasMember (lit "result") then do
    let result ← response.get (lit "result")
    c.invoke react cb result false
  else do
    let err ← response.get (lit "error")
    c.invoke react cb err true

/-- `handleResonseSingle`, after `validateResponse`. -/
def dispatch (response : Value) (c : BaseClient κ) : Run (BaseClient κ) := do
  let id ← response.get (lit "id")
  let id ← id.getInt32
  match OrderedMap.find id.toInt c.idToResponse_ with
  | none => .ok c
  | some cb => do
    let c ← c.answer react cb response
    .ok { c with idToResponse_ := OrderedMap.erase id.toInt c.idToResponse_ }

def handleResonseSingle (response : Value) (c : BaseClient κ) :
    Run (BaseClient κ × Option ResponseException) :=
  Exec.catchAll (fun e ↦ .ok (c, some e)) do
    validateResponse response
    let c ← Exec.ofRun (c.dispatch react response)
    .ok (c, none)

/-- The loop over a batch; an exception leaves it. -/
def handleResponses : List Value → BaseClient κ → Run (BaseClient κ × Option ResponseException)
  | [], c => .ok (c, none)
  | response :: responses, c => do
    let (c, thrown) ← c.handleResonseSingle react response
    match thrown with
    | some e => .ok (c, some e)
    | none => handleResponses responses c

def handleResponse (json : Bytes) (c : BaseClient κ) :
    Run (BaseClient κ × Option ResponseException) := do
  let c := { c with handled := c.handled ++ [json] }
  let (err, responses) ← Reader.parse json
  if err ≠ .PARSE_OK then .ok (c, some ⟨lit "parse error", none⟩)
  else
    let responses := responses.getD .null
    match responses.getType with
    | .TYPE_OBJECT => c.handleResonseSingle react responses
    | .TYPE_ARRAY =>
      if responses.getSize = 0 then .ok (c, some ⟨lit "batch reponse is empty", none⟩)
      else c.handleResponses react responses.items
    | _ => .ok (c, some ⟨lit "reponse should be json object or array", none⟩)

/-- What `onMessage` does with an exception. -/
def caught (c : BaseClient κ) (e : ResponseException) : BaseClient κ :=
  match e.id with
  | some id => { c with idToResponse_ := OrderedMap.erase id.toInt c.idToResponse_ }
  | none => c

/-- What `onMessage` leaves behind when the handling ended in `t`. -/
def afterwards (c : BaseClient κ) : Option ResponseException → BaseClient κ
  | some e => c.caught e
  | none => c

def onMessage (s : BaseClient κ × Buffer) : Run (BaseClient κ × Buffer) := do
  let ((c, buffer), thrown) ← framing.handleMessage (fun json c ↦ c.handleResponse react json) s
  match thrown with
  | some e => .ok (c.caught e, buffer)
  | none => .ok (c, buffer)

/-- `onMessage` on a chunk that has just arrived. -/
def receive (s : BaseClient κ × Buffer) (chunk : Bytes) : Run (BaseClient κ × Buffer) := do
  let buffer ← s.2.append chunk
  onMessage react (s.1, buffer)

/-! ## What handling does -/

section Handling

omit [DoubleText] in
theorem handled_afterwards (c : BaseClient κ) (t : Option ResponseException) :
    (c.afterwards t).handled = c.handled := by
  unfold afterwards caught
  split
  · split <;> rfl
  · rfl

/-- A call without an id is registered under the client's next one, and sent with it. -/
theorem sendCall_of_notMem {ms : List (Bytes × Value)} (h : lit "id" ∉ OrderedMap.keys ms) (cb : κ)
    (c : BaseClient κ)
    (hc : (Value.object (OrderedMap.emplace (lit "id") (.int32 c.id_) ms)).Countable) :
    let call := Value.object (OrderedMap.emplace (lit "id") (.int32 c.id_) ms)
    c.sendCall (.object ms) cb = .ok (call, { c with
      id_ := c.id_ + 1
      idToResponse_ := OrderedMap.assign c.id_.toInt cb c.idToResponse_
      sent := c.sent ++ [frame (text call)] }) := by
  rw [sendCall, Value.addMember_of_notMem h, Exec.ok_bind, sendJson_eq hc, Exec.ok_bind]

theorem sendCall_eq (call : Call) (cb : κ) (c : BaseClient κ) :
    let object := Value.object (OrderedMap.emplace (lit "id") (.int32 c.id_) call.members)
    c.sendCall (.object call.members) cb = .ok (object, { c with
      id_ := c.id_ + 1
      idToResponse_ := OrderedMap.assign c.id_.toInt cb c.idToResponse_
      sent := c.sent ++ [frame (text object)] }) :=
  sendCall_of_notMem call.id_notMem cb c (call.countable c.id_)

/-- The calls a callback makes are no answers. -/
theorem exists_sendCalls (calls : List (Call × κ)) (c : BaseClient κ) :
    ∃ c', sendCalls calls c = .ok c' ∧ c'.handled = c.handled ∧ c'.invoked = c.invoked := by
  induction calls generalizing c with
  | nil => exact ⟨c, rfl, rfl, rfl⟩
  | cons call calls ih =>
      obtain ⟨call, cb⟩ := call
      rw [sendCalls, sendCall_eq, Exec.ok_bind]
      obtain ⟨c', hc, hh, hi⟩ := ih { c with
        id_ := c.id_ + 1
        idToResponse_ := OrderedMap.assign c.id_.toInt cb c.idToResponse_
        sent := c.sent ++
          [frame (text (.object (OrderedMap.emplace (lit "id") (.int32 c.id_) call.members)))] }
      exact ⟨c', hc, hh, hi⟩

theorem exists_invoke (cb : κ) (value : Value) (isError : Bool) (c : BaseClient κ) :
    ∃ c', c.invoke react cb value isError = .ok c' ∧ c'.handled = c.handled ∧
      c'.invoked = c.invoked ++ [(cb, value, isError)] :=
  exists_sendCalls (react cb value isError) _

/-- What the callback for an accepted response is given. -/
def Outcome (response value : Value) (isError : Bool) : Prop :=
  isError = response.hasMember (lit "error") ∧
    response.find (if isError then lit "error" else lit "result") = some value

/-- An accepted response is an answer with its result or with its error. -/
theorem Accepted.answer_eq {response : Value} {id : Int32} (h : Accepted response id) (cb : κ)
    (c : BaseClient κ) :
    ∃ value isError, Outcome response value isError ∧
      c.answer react cb response = c.invoke react cb value isError := by
  unfold BaseClient.answer
  by_cases hr : response.hasMember (lit "result") = true
  · obtain ⟨value, hv⟩ := Value.find_of_hasMember hr
    have he : response.hasMember (lit "error") = false := by
      by_contra hc
      exact h.outcome (hr.trans (Bool.not_eq_false _ ▸ hc).symm)
    refine ⟨value, false, ⟨he.symm, by simpa using hv⟩, ?_⟩
    rw [if_pos hr, Value.get_of_find hv, Exec.ok_bind]
  · have he : response.hasMember (lit "error") = true := by
      by_contra hc
      exact h.outcome (by rw [Bool.not_eq_true] at hr hc; rw [hr, hc])
    obtain ⟨value, hv⟩ := Value.find_of_hasMember he
    refine ⟨value, true, ⟨he.symm, by simpa using hv⟩, ?_⟩
    rw [if_neg hr, Value.get_of_find hv, Exec.ok_bind]

theorem Accepted.exists_answer {response : Value} {id : Int32} (h : Accepted response id) (cb : κ)
    (c : BaseClient κ) :
    ∃ value isError c', c.answer react cb response = .ok c' ∧ Outcome response value isError ∧
      c'.handled = c.handled ∧ c'.invoked = c.invoked ++ [(cb, value, isError)] := by
  obtain ⟨value, isError, ho, heq⟩ := h.answer_eq react cb c
  obtain ⟨c', hc, hh, hi⟩ := exists_invoke react cb value isError c
  exact ⟨value, isError, c', heq.trans hc, ho, hh, hi⟩

theorem Accepted.dispatch_eq {response : Value} {id : Int32} (h : Accepted response id)
    (c : BaseClient κ) :
    c.dispatch react response =
      (match OrderedMap.find id.toInt c.idToResponse_ with
      | none => .ok c
      | some cb => do
        let c ← c.answer react cb response
        .ok { c with idToResponse_ := OrderedMap.erase id.toInt c.idToResponse_ }) := by
  rw [dispatch, Value.get_of_find h.id, Exec.ok_bind, Value.getInt32, Exec.ok_bind]

theorem Accepted.exists_dispatch {response : Value} {id : Int32} (h : Accepted response id)
    (c : BaseClient κ) : ∃ c', c.dispatch react response = .ok c' ∧ c'.handled = c.handled := by
  rw [h.dispatch_eq]
  cases hf : OrderedMap.find id.toInt c.idToResponse_ with
  | none => exact ⟨c, rfl, rfl⟩
  | some cb =>
      obtain ⟨value, isError, c', ha, -, hh, -⟩ := h.exists_answer react cb c
      refine ⟨{ c' with idToResponse_ := OrderedMap.erase id.toInt c'.idToResponse_ }, ?_, hh⟩
      simp only [ha, Exec.ok_bind]

theorem exists_handleResonseSingle (response : Value) (c : BaseClient κ) :
    ∃ c' t, c.handleResonseSingle react response = .ok (c', t) ∧ c'.handled = c.handled := by
  unfold handleResonseSingle
  rcases validateResponse_cases response with ⟨id, h, hv⟩ | ⟨e, hv, -⟩
  · obtain ⟨c', hd, hh⟩ := h.exists_dispatch react c
    exact ⟨c', none, by rw [hv, Exec.ok_bind, hd]; rfl, hh⟩
  · exact ⟨c, some e, by rw [hv, Exec.throw_bind]; rfl, rfl⟩

theorem exists_handleResponses (responses : List Value) (c : BaseClient κ) :
    ∃ c' t, c.handleResponses react responses = .ok (c', t) ∧ c'.handled = c.handled := by
  induction responses generalizing c with
  | nil => exact ⟨c, none, rfl, rfl⟩
  | cons response responses ih =>
      obtain ⟨c', t, hs, hh⟩ := exists_handleResonseSingle react response c
      rw [handleResponses, hs, Exec.ok_bind]
      cases t with
      | none =>
          obtain ⟨c'', t, hr, hh'⟩ := ih c'
          exact ⟨c'', t, hr, hh'.trans hh⟩
      | some e => exact ⟨c', some e, rfl, hh⟩

/-- A text that the reader does not abort on is handled, well or badly. -/
theorem exists_handleResponse {json : Bytes} {q : ParseError × Option Value}
    (h : Reader.parse json = .ok q) (c : BaseClient κ) :
    ∃ c' t, c.handleResponse react json = .ok (c', t) ∧ c'.handled = c.handled ++ [json] := by
  obtain ⟨err, responses⟩ := q
  rw [handleResponse, h, Exec.ok_bind]
  by_cases he : err = .PARSE_OK
  swap
  · exact ⟨_, _, if_pos he, rfl⟩
  dsimp only
  rw [if_neg (not_not.mpr he)]
  cases ht : (responses.getD .null).getType with
  | TYPE_OBJECT => exact exists_handleResonseSingle react (responses.getD .null) _
  | TYPE_ARRAY =>
      by_cases hn : (responses.getD .null).getSize = 0
      · exact ⟨_, _, if_pos hn, rfl⟩
      · dsimp only
        rw [if_neg hn]
        exact exists_handleResponses react (responses.getD .null).items _
  | _ => exact ⟨_, _, rfl, rfl⟩

theorem handleResponse_eq_ok {json : Bytes} {c c' : BaseClient κ}
    {t : Option ResponseException} (h : c.handleResponse react json = .ok (c', t)) :
    (∃ q, Reader.parse json = .ok q) ∧ c'.handled = c.handled ++ [json] := by
  obtain ⟨q, hq, -⟩ := Exec.bind_eq_ok.mp h
  obtain ⟨c'', t', hc, hh⟩ := exists_handleResponse react hq c
  rw [h] at hc
  cases hc
  exact ⟨⟨q, hq⟩, hh⟩

omit [DoubleText] in
theorem accepted_responseObject (id : Int32) (result : Value) :
    Accepted (responseObject id result) id where
  object := rfl
  size := rfl
  id := rfl
  version := rfl
  outcome := by
    show true ≠ false
    decide
  error h := by
    exact absurd (show false = true from h) Bool.false_ne_true

/-- The response makes the client run the callback under its id, and forget it. -/
theorem handleResponse_responseObject {c : BaseClient κ} {id : Int32} {cb : κ}
    (hcb : OrderedMap.find id.toInt c.idToResponse_ = some cb) {result : Value}
    (hw : result.WellFormed) (hp : Plain result) :
    ∃ c', c.handleResponse react (body (text (responseObject id result))) = .ok (c', none) ∧
      c'.invoked = c.invoked ++ [(cb, result, false)] ∧
      OrderedMap.find id.toInt c'.idToResponse_ = none := by
  have ha := accepted_responseObject id result
  have hcb' : OrderedMap.find id.toInt ({ c with
      handled := c.handled ++ [body (text (responseObject id result))] } :
        BaseClient κ).idToResponse_ = some cb := hcb
  obtain ⟨value, isError, c₁, hans, ⟨he, hv⟩, -, hi⟩ := ha.exists_answer react cb
    { c with handled := c.handled ++ [body (text (responseObject id result))] }
  obtain rfl : isError = false := he
  obtain rfl : result = value := Option.some.inj hv
  refine ⟨{ c₁ with idToResponse_ := OrderedMap.erase id.toInt c₁.idToResponse_ }, ?_, hi, ?_⟩
  · rw [handleResponse, parse_body (wellFormed_responseObject id hw)
      (plain_responseObject id hp), Exec.ok_bind]
    show handleResonseSingle react (responseObject id result) _ = _
    rw [handleResonseSingle, validateResponse_eq_ok.mpr ⟨id, ha⟩,
      Exec.ok_bind, ha.dispatch_eq, hcb']
    simp only [hans, Exec.ok_bind]
    rfl
  · rw [OrderedMap.find_erase, if_pos rfl]

end Handling

end BaseClient

end RpcLearning.Rpc
