import RpcLearning.Rpc.BaseClient.Correlation
import RpcLearning.Rpc.Call

/-!
# Calls and answers

A client and a server with the two streams between them.  The client makes calls when it likes, also
from callbacks; the server starts their procedures; these call `done` when they like, in any order,
and perhaps more than once.  Each callback is run once, with the first result of its own call.
-/

namespace RpcLearning.Rpc

open Json Net Frames
open Framing (body)

namespace BaseClient.Registered

variable {κ : Type}

/-- The object that `sendCall` sends. -/
def request (r : Registered κ) : Value :=
  .object (OrderedMap.emplace (lit "id") (.int32 r.id) r.call.members)

variable [DoubleText]

def text (r : Registered κ) : Bytes := Json.text r.request

theorem flatten_message (calls : List (Registered κ)) :
    (calls.map message).flatten = encodeAll frame (calls.map text) := by
  rw [encodeAll, List.flatMap_map]
  rfl

end BaseClient.Registered

open BaseClient (Registered)

/-! ## Good calls -/

section Serves

variable {π ν : Type}

/-- The call is one of a registered method, with parameters as declared; `callBack` is the
procedure's. -/
inductive Serves (server : RpcServer π ν) (call : Call) : π → Prop
  | intro {s m : Bytes} {ms : List (Bytes × Value)} {service : Service π ν} {p : Procedure π}
      (members : call.members = callMembers s m (.object ms))
      (found : OrderedMap.find s server.services_ = some service)
      (bound : OrderedMap.find m service.procedureReturn_ = some p) (s_ne : s ≠ [])
      (dotless : (0x2e : UInt8) ∉ s) (m_ne : m ≠ []) (nodup : (p.params_.map Prod.fst).Nodup)
      (declares : Declares p.params_ ms) (wellFormed : (Value.object ms).WellFormed)
      (plain : Plain (.object ms)) : Serves server call p.callBack_

variable {κ : Type} {server : RpcServer π ν} {r : Registered κ} {callBack : π}

theorem Serves.request_eq (h : Serves server r.call callBack) :
    ∃ s m params, r.request = requestObject r.id s m params := by
  cases h with
  | @intro s m ms _ _ members =>
      refine ⟨s, m, .object ms, ?_⟩
      rw [Registered.request, members]
      rfl

theorem Serves.userDone (h : Serves server r.call callBack) (result : Value) :
    userDone r.request result = .ok (responseObject r.id result) := by
  obtain ⟨s, m, params, heq⟩ := h.request_eq
  rw [heq, userDone_requestObject]

/-- The server starts the procedure, once. -/
theorem Serves.handleRequest [DoubleText] (h : Serves server r.call callBack)
    (log : List (Started π ν)) :
    server.handleRequest (body r.text) log = .ok (log ++ [.call callBack r.request], none) := by
  cases h with
  | @intro s m ms _ _ members hservice hproc hs hdot hm hnodup hd hw hp =>
      have hsorted : OrderedMap.Sorted ms := by
        cases hw with
        | object hs _ => exact hs
      have heq : r.request = requestObject r.id s m (.object ms) := by
        rw [Registered.request, members]
        rfl
      rw [Registered.text, heq]
      exact handleRequest_requestObject (handleRequestSingle_requestObject hservice hproc hs hdot
        hm hnodup hsorted hd r.id) hw hp log

end Serves

/-! ## Both ends -/

structure Conversation (π ν κ : Type) where
  client : BaseClient κ
  clientBuffer : Buffer
  /-- What the client has read of the server's messages. -/
  clientRead : Bytes
  serverBuffer : Buffer
  /-- What the server has read of the client's messages. -/
  serverRead : Bytes
  started : List (Started π ν)
  /-- The messages that the server has sent. -/
  replies : List Bytes

inductive ConversationStep (κ : Type) where
  | sendCall (call : Call) (cb : κ)
  | serverRead (data : Bytes)
  /-- The procedure that was started as the `k`-th calls `done`. -/
  | done (k : Nat) (result : Value)
  | clientRead (data : Bytes)

namespace ConversationStep

variable {κ : Type}

def call? : ConversationStep κ → Option (Call × κ)
  | .sendCall call cb => some (call, cb)
  | _ => none

/-- The result that a step gives, and the place of the call that it is for. -/
def result? : ConversationStep κ → Option (Nat × Value)
  | .done k result => some (k, result)
  | _ => none

end ConversationStep

namespace Conversation

variable {π ν κ : Type}

def start : Conversation π ν κ where
  client := .new κ
  clientBuffer := Buffer.new kInitialSize
  clientRead := []
  serverBuffer := Buffer.new kInitialSize
  serverRead := []
  started := []
  replies := []

/-- What can be read is what has been sent. -/
def enabled (v : Conversation π ν κ) : ConversationStep κ → Prop
  | .sendCall _ _ => True
  | .serverRead data => data ≠ [] ∧ v.serverRead ++ data <+: v.client.sent.flatten
  | .done k _ => ∃ callBack request, v.started[k]? = some (.call callBack request)
  | .clientRead data => data ≠ [] ∧ v.clientRead ++ data <+: v.replies.flatten

variable [DoubleText]

def perform (react : κ → Value → Bool → List (Call × κ)) (server : RpcServer π ν)
    (v : Conversation π ν κ) : ConversationStep κ → Run (Conversation π ν κ)
  | .sendCall call cb => do
    let (_, c) ← v.client.sendCall (.object call.members) cb
    .ok { v with client := c }
  | .serverRead data => do
    let b ← v.serverBuffer.append data
    let ((started, b), message) ← BaseServer.onMessage server.handleRequest (v.started, b)
    .ok { v with
      serverBuffer := b, serverRead := v.serverRead ++ data, started := started,
      replies := v.replies ++ message.toList }
  | .done k result =>
    match v.started[k]? with
    | some (.call _ request) => do
      let response ← userDone request result
      let message ← respond response
      .ok { v with replies := v.replies ++ message.toList }
    | _ => .ok v
  | .clientRead data => do
    let (c, b) ← BaseClient.receive react (v.client, v.clientBuffer) data
    .ok { v with client := c, clientBuffer := b, clientRead := v.clientRead ++ data }

def machine (react : κ → Value → Bool → List (Call × κ)) (server : RpcServer π ν) :
    Machine (Conversation π ν κ) (ConversationStep κ) := ⟨enabled, perform react server⟩

/-- Calls are good ones, and results such that their responses get through; neither is too long; and
no chunk that the client reads goes beyond the end of a response. -/
def Proper (server : RpcServer π ν) (v : Conversation π ν κ) : ConversationStep κ → Prop
  | .sendCall call cb => (∃ callBack, Serves server call callBack) ∧
    (Registered.text ⟨v.client.id_, call, cb⟩).length + 2 < BaseServer.kMaxMessageLen
  | .serverRead _ => True
  | .done k result => result.WellFormed ∧ Plain result ∧
    ∀ callBack request response, v.started[k]? = some (.call callBack request) →
      userDone request result = .ok response →
        (text response).length + 2 < BaseClient.kMaxMessageLen
  | .clientRead data => ∀ n, v.clientRead.length < (v.replies.take n).flatten.length →
    (v.clientRead ++ data).length ≤ (v.replies.take n).flatten.length

end Conversation

/-! ## The client's account -/

/-- The calls that the client has made, and the ids of those that have been answered. -/
structure Awaits [DoubleText] {κ : Type} (calls : List (Registered κ)) (answered : List Int32)
    (c : BaseClient κ) : Prop where
  sent : c.sent = calls.map Registered.message
  next : c.id_ = Int32.ofNat calls.length
  ids : calls.map Registered.id = BaseClient.ids calls.length
  pending : ∀ j cb, OrderedMap.find j c.idToResponse_ = some cb ↔
    ∃ r ∈ calls, r.id.toInt = j ∧ r.callback = cb ∧ r.id ∉ answered
  made : ∀ id ∈ answered, id ∈ calls.map Registered.id

namespace Awaits

variable [DoubleText] {κ : Type} {calls : List (Registered κ)} {answered : List Int32}
  {c : BaseClient κ}

theorem new : Awaits [] [] (BaseClient.new κ) where
  sent := rfl
  next := rfl
  ids := rfl
  pending j cb := by
    constructor
    · intro h
      cases h
    · rintro ⟨r, hr, -⟩
      cases hr
  made id h := by cases h

theorem nodup (h : Awaits calls answered c) (hn : calls.length ≤ 2 ^ 31) :
    (calls.map Registered.id).Nodup := by
  rw [h.ids]
  exact BaseClient.nodup_ids hn

theorem next_notMem (h : Awaits calls answered c) (hn : calls.length < 2 ^ 31) :
    c.id_ ∉ calls.map Registered.id := by
  rw [h.ids, h.next]
  exact BaseClient.ofNat_notMem_ids hn

theorem sendCall (h : Awaits calls answered c) (hn : calls.length < 2 ^ 31) (call : Call) (cb : κ) :
    ∃ v c', c.sendCall (.object call.members) cb = .ok (v, c') ∧ c'.invoked = c.invoked ∧
      Awaits (calls ++ [⟨c.id_, call, cb⟩]) answered c' := by
  have hnew := h.next_notMem hn
  refine ⟨_, _, BaseClient.sendCall_eq call cb c, rfl, ?_, ?_, ?_, ?_, ?_⟩
  · simp [h.sent, Registered.message]
  · simp only [List.length_append, List.length_singleton, Int32.ofNat_add, h.next]
    rfl
  · simp only [List.map_append, h.ids, List.map_singleton, List.length_append,
      List.length_singleton, BaseClient.ids_succ, h.next]
  · intro j cb'
    rw [OrderedMap.find_assign]
    simp only [List.mem_append, List.mem_singleton]
    constructor
    · intro hj
      split at hj
      · rename_i heq
        cases hj
        exact ⟨⟨c.id_, call, cb⟩, .inr rfl, heq, rfl, fun hm ↦ hnew (h.made _ hm)⟩
      · obtain ⟨r, hr, hrj⟩ := (h.pending j cb').mp hj
        exact ⟨r, .inl hr, hrj⟩
    · rintro ⟨r, hr | rfl, hrj, hcb, hna⟩
      · rw [if_neg, h.pending]
        · exact ⟨r, hr, hrj, hcb, hna⟩
        · intro heq
          have hid : c.id_ = r.id := Int32.toInt_inj.mp (heq.trans hrj.symm)
          exact hnew (hid ▸ List.mem_map_of_mem hr)
      · rw [if_pos hrj]
        exact congrArg some hcb
  · intro id hid
    rw [List.map_append]
    exact List.mem_append_left _ (h.made id hid)

theorem sendCalls (h : Awaits calls answered c) (more : List (Call × κ))
    (hn : calls.length + more.length ≤ 2 ^ 31) :
    ∃ c' calls', BaseClient.sendCalls more c = .ok c' ∧ c'.invoked = c.invoked ∧
      Awaits (calls ++ calls') answered c' ∧
      calls'.map (fun r ↦ (r.call, r.callback)) = more := by
  induction more generalizing c calls with
  | nil => exact ⟨c, [], rfl, rfl, by rwa [List.append_nil], rfl⟩
  | cons call more ih =>
      obtain ⟨call, cb⟩ := call
      rw [List.length_cons] at hn
      obtain ⟨v, c₁, hs, hi, h₁⟩ := h.sendCall (by omega) call cb
      obtain ⟨c₂, calls₂, hs₂, hi₂, h₂, hmore⟩ := ih h₁ (by
        rw [List.length_append, List.length_singleton]
        omega)
      refine ⟨c₂, ⟨c.id_, call, cb⟩ :: calls₂, ?_, hi₂.trans hi, ?_, by simp [hmore]⟩
      · rw [BaseClient.sendCalls, hs, Exec.ok_bind]
        exact hs₂
      · rwa [List.append_assoc] at h₂

/-- A call that has been answered is forgotten. -/
theorem forget (h : Awaits calls answered c) {r : Registered κ} (hr : r ∈ calls) :
    Awaits calls (answered ++ [r.id])
      { c with idToResponse_ := OrderedMap.erase r.id.toInt c.idToResponse_ } := by
  refine ⟨h.sent, h.next, h.ids, ?_, ?_⟩
  · intro j cb
    rw [OrderedMap.find_erase]
    simp only [List.mem_append, List.mem_singleton, not_or]
    constructor
    · intro hj
      split at hj
      · cases hj
      · rename_i hne
        obtain ⟨q, hq, hqj, hcb, hna⟩ := (h.pending j cb).mp hj
        refine ⟨q, hq, hqj, hcb, hna, fun heq ↦ hne ?_⟩
        rw [← hqj, heq]
    · rintro ⟨q, hq, hqj, hcb, hna, hne⟩
      rw [if_neg, h.pending]
      · exact ⟨q, hq, hqj, hcb, hna⟩
      · intro heq
        exact hne (Int32.toInt_inj.mp (hqj.trans heq.symm))
  · intro id hid
    rcases List.mem_append.mp hid with hid | hid
    · exact h.made id hid
    · rw [List.mem_singleton.mp hid]
      exact List.mem_map_of_mem hr

/-- The response to a call runs its callback, unless the call has been answered before. -/
theorem exists_handleResponse (react : κ → Value → Bool → List (Call × κ))
    (h : Awaits calls answered c) {r : Registered κ} (hr : r ∈ calls) {result : Value}
    (hw : result.WellFormed) (hp : Plain result) :
    ∃ c', c.handleResponse react (body (text (responseObject r.id result))) = .ok (c', none) ∧
      (c'.sent.length ≤ 2 ^ 31 → if r.id ∈ answered then
        c'.invoked = c.invoked ∧ Awaits calls answered c'
      else ∃ calls', c'.invoked = c.invoked ++ [(r.callback, result, false)] ∧
        calls'.map (fun r ↦ (r.call, r.callback)) = react r.callback result false ∧
        Awaits (calls ++ calls') (answered ++ [r.id]) c') := by
  have ha := BaseClient.accepted_responseObject r.id result
  let c₀ : BaseClient κ := { c with
    handled := c.handled ++ [body (text (responseObject r.id result))] }
  have h₀ : Awaits calls answered c₀ := ⟨h.sent, h.next, h.ids, h.pending, h.made⟩
  have hsingle : c.handleResponse react (body (text (responseObject r.id result))) =
      c₀.handleResonseSingle react (responseObject r.id result) := by
    rw [BaseClient.handleResponse, parse_body (wellFormed_responseObject r.id hw)
      (plain_responseObject r.id hp), Exec.ok_bind]
    rfl
  rw [hsingle, BaseClient.handleResonseSingle, BaseClient.validateResponse_eq_ok.mpr ⟨r.id, ha⟩,
    Exec.ok_bind, ha.dispatch_eq]
  by_cases hold : r.id ∈ answered
  · simp only [if_pos hold]
    cases hf : OrderedMap.find r.id.toInt c₀.idToResponse_ with
    | none => exact ⟨c₀, rfl, fun _ ↦ ⟨rfl, h₀⟩⟩
    | some cb =>
        obtain ⟨q, -, hq, -, hna⟩ := (h₀.pending _ cb).mp hf
        exact absurd (Int32.toInt_inj.mp hq ▸ hold) hna
  · simp only [if_neg hold]
    have hf : OrderedMap.find r.id.toInt c₀.idToResponse_ = some r.callback :=
      (h₀.pending _ _).mpr ⟨r, hr, rfl, rfl, hold⟩
    let c₁ : BaseClient κ := { c₀ with invoked := c₀.invoked ++ [(r.callback, result, false)] }
    have h₁ : Awaits calls answered c₁ := ⟨h₀.sent, h₀.next, h₀.ids, h₀.pending, h₀.made⟩
    obtain ⟨c₂, hs, -, hi⟩ := BaseClient.exists_sendCalls (react r.callback result false) c₁
    refine ⟨{ c₂ with idToResponse_ := OrderedMap.erase r.id.toInt c₂.idToResponse_ }, ?_,
      fun hn ↦ ?_⟩
    · have hans : c₀.answer react r.callback (responseObject r.id result) = .ok c₂ := by
        rw [← hs]
        rfl
      simp only [hf, hans, Exec.ok_bind]
      rfl
    · have hlen : c₂.sent.length = c₁.sent.length + (react r.callback result false).length :=
        BaseClient.length_sent_sendCalls hs
      have hsent : c₁.sent.length = c.sent.length := rfl
      have hcalls : calls.length = c.sent.length := by simp [h.sent]
      have hn : c₂.sent.length ≤ 2 ^ 31 := hn
      obtain ⟨c₃, calls', hs', -, h₃, hmore⟩ :=
        h₁.sendCalls (react r.callback result false) (by omega)
      cases hs.symm.trans hs'
      exact ⟨calls', hi, hmore, h₃.forget (List.mem_append_left _ hr)⟩

end Awaits

end RpcLearning.Rpc
