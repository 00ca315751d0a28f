import RpcLearning.Rpc.BaseClient.Chunks
import RpcLearning.Rpc.Procedure.Matches
import RpcLearning.Rpc.RpcServer

/-!
# A successful call

From `sendCall` through the server's dispatch and `UserDoneCallback` back to the callback.  Each
layer's result is what the next one needs: the writer's text is what the reader reads, the framed
text is what the other end takes out of its buffer, the request is what the server's checks let
through, the response is what the client accepts.
-/

namespace RpcLearning.Rpc

open Json Net Frames
open Framing (body)

theorem userDone_requestObject (id : Int32) (s m : Bytes) (params result : Value) :
    userDone (requestObject id s m params) result = .ok (responseObject id result) := rfl

/-! ## The server's side -/

section Server

variable {π ν : Type} {server : RpcServer π ν} {service : Service π ν}
  {p : Procedure π} {s m : Bytes} {ms : List (Bytes × Value)}

/-- A request for a registered method, with parameters as declared, ends in its callback. -/
theorem handleRequestSingle_requestObject
    (hservice : OrderedMap.find s server.services_ = some service)
    (hproc : OrderedMap.find m service.procedureReturn_ = some p) (hs : s ≠ [])
    (hdot : (0x2e : UInt8) ∉ s) (hm : m ≠ []) (hnodup : (p.params_.map Prod.fst).Nodup)
    (hsorted : OrderedMap.Sorted ms) (hd : Declares p.params_ ms) (id : Int32) :
    server.handleRequestSingle (requestObject id s m (.object ms)) = .ok p.callBack_ := by
  have hmem : RpcServer.Members 3 (requestObject id s m (.object ms)) (s ++ 0x2e :: m) := by
    refine ⟨rfl, rfl, ?_, rfl⟩
    intro he
    -- the one internal name has its only dot at the end
    have hlen := congrArg List.length he
    have hidx := congrArg (List.idxOf? 0x2e) he
    rw [RpcServer.idxOf?_append_cons hdot] at hidx
    have h3 : s.length = 3 := Option.some.inj hidx
    have hpos := List.length_pos_iff.mpr hm
    rw [List.length_append, List.length_cons, h3, show (lit "rpc.").length = 4 from rfl] at hlen
    omega
  have hvalid : p.validateRequest (requestObject id s m (.object ms)) = .ok () := by
    rw [Procedure.validateRequest, Procedure.validate]
    show (Exec.ofRun (p.validateGeneric _) >>= _) = _
    rw [(Procedure.validateGeneric_object hnodup hsorted rfl).mpr hd]
    rfl
  rw [server.handleRequestSingle_of_members rfl hmem,
    server.resolve_eq_ok hs hdot hm hservice, Exec.ok_bind]
  simp only [Service.callProcedureReturn, hproc, Procedure.invokeReturn, hvalid, Exec.ok_bind]

theorem handleRequest_requestObject [DoubleText] {id : Int32}
    (h : server.handleRequestSingle (requestObject id s m (.object ms)) = .ok p.callBack_)
    (hw : (Value.object ms).WellFormed) (hp : Plain (.object ms)) (log : List (Started π ν)) :
    let request := requestObject id s m (.object ms)
    server.handleRequest (body (text request)) log =
      .ok (log ++ [.call p.callBack_ request], none) := by
  intro request
  have hstart : server.start (body (text request)) = .ok (.call p.callBack_ request) := by
    rw [RpcServer.start, parse_body (wellFormed_requestObject id s m hw)
      (plain_requestObject id s m hp), Exec.ofRun_ok, Exec.ok_bind]
    have hid : RpcServer.isNotify request = false := rfl
    show server.handleSingle request = _
    rw [RpcServer.handleSingle, hid, if_neg Bool.false_ne_true, h, Exec.ok_bind]
  rw [RpcServer.handleRequest, hstart]
  rfl

end Server

/-! ## The client's side -/

section Client

open BaseClient (sendCalls)

theorem add_ofNat_succ (a : Int32) (n : Nat) :
    a + Int32.ofNat (n + 1) = a + 1 + Int32.ofNat n := by
  rw [Int32.ofNat_add, Int32.add_comm (Int32.ofNat n), ← Int32.add_assoc]
  rfl

theorem add_one_add_ofNat_ne (a : Int32) {n : Nat} (h : n < 2 ^ 31) :
    a + 1 + Int32.ofNat n ≠ a := by
  intro he
  have hb := congrArg Int32.toBitVec he
  have hn : (Int32.ofNat n).toBitVec = BitVec.ofNat 32 n := rfl
  have h1 : (1 : Int32).toBitVec = 1#32 := rfl
  rw [Int32.toBitVec_add, Int32.toBitVec_add, hn, h1] at hb
  bv_omega

variable [DoubleText] {κ : Type}

/-- Calls made later have other ids, as long as the ids do not come round. -/
theorem find_sendCalls {calls : List (Call × κ)} {c c' : BaseClient κ} {id : Int32}
    (h : sendCalls calls c = .ok c')
    (hne : ∀ n < calls.length, (c.id_ + Int32.ofNat n) ≠ id) :
    OrderedMap.find id.toInt c'.idToResponse_ = OrderedMap.find id.toInt c.idToResponse_ := by
  induction calls generalizing c with
  | nil =>
      cases h
      rfl
  | cons call calls ih =>
      obtain ⟨call, cb⟩ := call
      rw [sendCalls, BaseClient.sendCall_eq, Exec.ok_bind] at h
      rw [ih h, OrderedMap.find_assign, if_neg]
      · intro he
        exact hne 0 (by simp) (by simpa using Int32.toInt_inj.mp he)
      · intro n hn
        rw [← add_ofNat_succ]
        exact hne (n + 1) (by simpa using hn)

end Client

/-- The call of the method `m` of the service `s` with the parameters `ms`, made by the client `c`
with the callback `cb`, is answered with `result`: the server takes the message of the call out of
its buffer, however it arrives, and runs the procedure's callback once, with these parameters; the
response given there makes any client that has `cb` under the call's id run it once, with the
result.  The client that made the call has, also when it has made other calls since. -/
def Answered [DoubleText] {π ν κ : Type} (react : κ → Value → Bool → List (Call × κ))
    (server : RpcServer π ν) (callBack : π) (s m : Bytes) (ms : List (Bytes × Value))
    (result : Value) (c : BaseClient κ) (cb : κ) : Prop :=
  let request := requestObject c.id_ s m (.object ms)
  let response := responseObject c.id_ result
  ((text request).length + 2 < BaseServer.kMaxMessageLen →
    ∃ c₁, c.sendCall (.object (callMembers s m (.object ms))) cb = .ok (request, c₁) ∧
      c₁.sent = c.sent ++ [frame (text request)] ∧
      (∀ (log : List (Started π ν)) (chunks : List Bytes),
        chunks.flatten = frame (text request) →
          ∃ b, feed (BaseServer.receive server.handleRequest) chunks
            (log, Buffer.new kInitialSize) = .ok ((log ++ [.call callBack request], b), none) ∧
              b.readable = []) ∧
      ∀ (calls : List (Call × κ)) (c₂ : BaseClient κ), calls.length < 2 ^ 31 →
        c₁.sendCalls calls = .ok c₂ → OrderedMap.find c.id_.toInt c₂.idToResponse_ = some cb) ∧
    request.find (lit "params") = some (.object ms) ∧
    userDone request result = .ok response ∧
    ((text response).length + 2 < BaseClient.kMaxMessageLen →
      respond response = .ok (some (frame (text response))) ∧
      ∀ c₂ : BaseClient κ, OrderedMap.find c.id_.toInt c₂.idToResponse_ = some cb →
        ∃ c₃ b, BaseClient.receive react (c₂, Buffer.new kInitialSize) (frame (text response)) =
            .ok (c₃, b) ∧ b.readable = [] ∧
          c₃.invoked = c₂.invoked ++ [(cb, result, false)] ∧
          OrderedMap.find c.id_.toInt c₃.idToResponse_ = none)

/-- A call of a registered method with parameters as declared is answered. -/
theorem answered_of_registered [DoubleText] {π ν κ : Type}
    (react : κ → Value → Bool → List (Call × κ)) {server : RpcServer π ν}
    {service : Service π ν} {p : Procedure π} {s m : Bytes}
    (hservice : OrderedMap.find s server.services_ = some service)
    (hproc : OrderedMap.find m service.procedureReturn_ = some p) (hs : s ≠ [])
    (hdot : (0x2e : UInt8) ∉ s) (hm : m ≠ []) (hnodup : (p.params_.map Prod.fst).Nodup)
    {ms : List (Bytes × Value)} (hd : Declares p.params_ ms)
    (hw : (Value.object ms).WellFormed) (hp : Plain (.object ms)) {result : Value}
    (hw' : result.WellFormed) (hp' : Plain result) (c : BaseClient κ) (cb : κ) :
    Answered react server p.callBack_ s m ms result c cb := by
  let request := requestObject c.id_ s m (.object ms)
  let response := responseObject c.id_ result
  have hsorted : OrderedMap.Sorted ms := by
    cases hw with
    | object hs _ => exact hs
  refine ⟨fun hlen ↦ ?_, rfl, rfl, fun hlen ↦ ⟨?_, ?_⟩⟩
  · have hshort : (text request).length + 2 < 2 ^ 31 := hlen.trans (by decide)
    have hc : request.Countable := countable_of_length_text (by omega)
    refine ⟨_, BaseClient.sendCall_of_notMem (id_notMem_callMembers s m _) cb c hc, rfl, ?_, ?_⟩
    · intro log chunks hchunks
      have hsingle := handleRequestSingle_requestObject hservice hproc hs hdot hm hnodup hsorted hd
        c.id_
      exact Framing.feed_receive_frame BaseServer.takesBody_framing (by decide) hlen hchunks
        (Buffer.readable_new kInitialSize) (handleRequest_requestObject hsingle hw hp log)
    · intro calls c₂ hcalls h
      rw [find_sendCalls h fun n hn ↦ add_one_add_ofNat_ne c.id_ (hn.trans hcalls),
        OrderedMap.find_assign, if_pos rfl]
  · have hshort : (text response).length + 2 < 2 ^ 31 := hlen.trans (by decide)
    have hc : response.Countable := countable_of_length_text (by omega)
    show (do let message ← sendJson response; Except.ok (some message)) = _
    rw [sendJson_eq hc, Exec.ok_bind]
  · intro c₂ hcb
    obtain ⟨c₃, hc, hi, hf⟩ := BaseClient.handleResponse_responseObject react hcb hw' hp'
    have hwhole : (Buffer.new kInitialSize).readable ++ frame (text response) =
        frame (text response) ++ [] := by
      simp
    obtain ⟨b, hempty, hok, -⟩ := BaseClient.receive_of_handleResponse react
      (s := (c₂, Buffer.new kInitialSize)) hlen hwhole
    rw [List.append_nil] at hok
    exact ⟨c₃, b, hok c₃ none hc, hempty, hi, hf⟩

/-- A method of one integer parameter, called with 1, answers 2; its service is registered before
another one. -/
theorem answered_of_registered_sample :
    ∃ (p : Procedure Unit) (service : Service Unit Unit) (server server' : RpcServer Unit Unit),
      Procedure.new () [lit "a"] [.TYPE_INT32] = .ok p ∧
      (Service.new Unit Unit).addProcedureReturn (lit "m") p = .ok service ∧
      (RpcServer.new Unit Unit).addService (lit "S") service = .ok server ∧
      server.addService (lit "T") (.new Unit Unit) = .ok server' ∧
      @Answered noDoubles Unit Unit Unit (fun _ _ _ ↦ []) server' () (lit "S") (lit "m")
        [(lit "a", .int32 1)] (.int32 2) (BaseClient.new Unit) () := by
  have hp : ∃ p, Procedure.new () [lit "a"] [.TYPE_INT32] = .ok p ∧
      p = ⟨(), [(lit "a", .TYPE_INT32)]⟩ := ⟨_, rfl, rfl⟩
  obtain ⟨p, hp, hparams⟩ := hp
  obtain ⟨service, hservice⟩ : ∃ service,
      (Service.new Unit Unit).addProcedureReturn (lit "m") p = .ok service := ⟨_, rfl⟩
  obtain ⟨server, hserver⟩ : ∃ server,
      (RpcServer.new Unit Unit).addService (lit "S") service = .ok server := ⟨_, rfl⟩
  obtain ⟨server', hserver'⟩ : ∃ server', server.addService (lit "T") (.new Unit Unit) =
      .ok server' := by
    refine ⟨_, if_pos ?_⟩
    rw [(RpcServer.find_addService hserver).2 _ (by decide)]
    rfl
  have hfind : OrderedMap.find (lit "S") server'.services_ = some service := by
    rw [(RpcServer.find_addService hserver').2 _ (by decide)]
    exact (RpcServer.find_addService hserver).1
  have hproc : OrderedMap.find (lit "m") service.procedureReturn_ = some p :=
    (Service.find_addProcedureReturn hservice).1
  refine ⟨p, service, server, server', hp, hservice, hserver, hserver', ?_⟩
  subst hparams
  refine @answered_of_registered noDoubles _ _ _ (fun _ _ _ ↦ []) _ _ _ _ _ hfind hproc
    (by decide) (by decide) (by decide) (by decide) _ ⟨?_, ?_⟩
    (.object (by decide) (by simp [Value.WellFormed.int32]))
    (.object (by decide +kernel) (by simp [Plain.int32])) _ (.int32 2) (.int32 2) _ ()
  · intro k
    rfl
  · intro q hq v hv
    obtain rfl := List.mem_singleton.mp hq
    obtain rfl : Value.int32 1 = v := Option.some.inj hv
    rfl

end RpcLearning.Rpc
