import RpcLearning.Rpc.BaseServer
import RpcLearning.Rpc.Procedure

/-!
# The server

`RpcServer` (`RpcServer/Server/RpcServer.cpp`): what becomes of the text of a request.  A request
on its own ends in the callback of a procedure, a notification in one of the other kind, and an
array is worked off element by element; which of these it is is what the functions here return.
-/

namespace RpcLearning.Rpc

open Json

structure RpcServer (π ν : Type) where
  services_ : List (Bytes × Service π ν)

/-- What a request has led to. -/
inductive Started (π ν : Type) where
  | call (callBack : π) (request : Value)
  | notify (callBack : ν) (request : Value)
  | batch (requests : List Value)

namespace RpcServer

def isNotify (value : Value) : Bool := !value.hasMember (lit "id")

def hasParams (value : Value) : Bool := value.hasMember (lit "params")

/-- The texts are put together in temporary strings. -/
def findValue (cur : Value) (key : Bytes) : ValueType → Exec ServerException Value :=
  require (.anonymous .RPC_INVALID_REQUEST (.temporary (key ++ lit " key not exist")))
    (.anonymous .RPC_INVALID_REQUEST (.temporary (key ++ lit " bad type"))) cur key

/-- `findValue(cur, key, TYPE_STRING).getString()` -/
def findString (cur : Value) (key : Bytes) : Exec ServerException Bytes := do
  let value ← findValue cur key .TYPE_STRING
  Exec.ofRun value.getString

/-- The checks that requests and notifications share: the version, the method, and the number of
members, which is `nMember` without parameters. -/
def validateMembers (nMember : Nat) (version method field : ServerException) (request : Value) :
    Exec ServerException Unit := do
  let jsonrpc ← findString request (lit "jsonrpc")
  if jsonrpc ≠ lit "2.0" then .throw version
  else do
    let name ← findString request (lit "method")
    if name = lit "rpc." then .throw method
    else if request.getSize ≠ nMember + (hasParams request).toNat then .throw field
    else .ok ()

def validateRequest (request : Value) : Exec ServerException Unit := do
  let id ← findValue request (lit "id") .TYPE_INT32
  validateMembers 3
    (.request ⟨.RPC_INVALID_REQUEST, id, lit "jsonrpc version is unknown/unsupported"⟩)
    (.request ⟨.RPC_METHOD_NOT_FOUND, id, lit "method name is internal use"⟩)
    (.request ⟨.RPC_INVALID_REQUEST, id, lit "unexpected field"⟩) request

def validateNotify (notify : Value) : Exec ServerException Unit :=
  validateMembers 2 (.notify ⟨.RPC_INVALID_REQUEST, lit "unknown json rpc version"⟩)
    (.notify ⟨.RPC_METHOD_NOT_FOUND, lit "method name is internal use"⟩)
    (.notify ⟨.RPC_INVALID_REQUEST, lit "unexpected field"⟩) notify

variable {π ν : Type}

def new (π ν : Type) : RpcServer π ν := ⟨[]⟩

def addService (serviceName : Bytes) (service : Service π ν) (server : RpcServer π ν) :
    Run (RpcServer π ν) :=
  if OrderedMap.find serviceName server.services_ = none then
    .ok { services_ := OrderedMap.emplace serviceName service server.services_ }
  else .error .assertion

/-- A service that has been registered is found, and the others are as they were. -/
theorem find_addService {serviceName : Bytes} {service : Service π ν}
    {server server' : RpcServer π ν} (h : server.addService serviceName service = .ok server') :
    OrderedMap.find serviceName server'.services_ = some service ∧ ∀ s ≠ serviceName,
      OrderedMap.find s server'.services_ = OrderedMap.find s server.services_ := by
  unfold addService at h
  by_cases hnone : OrderedMap.find serviceName server.services_ = none
  · rw [if_pos hnone] at h
    cases h
    exact ⟨OrderedMap.find_emplace_self hnone service,
      fun s hs ↦ OrderedMap.find_emplace_of_ne hs service server.services_⟩
  · rw [if_neg hnone] at h
    cases h

/-- The service and the method that `serviceMethod` names, cut at the first dot. -/
def resolve (server : RpcServer π ν) (noService unknownService noMethod : ServerException)
    (serviceMethod : Bytes) : Exec ServerException (Service π ν × Bytes) :=
  match serviceMethod.idxOf? 0x2e with
  | none | some 0 => .throw noService
  | some pos =>
    match OrderedMap.find (serviceMethod.take pos) server.services_ with
    | none => .throw unknownService
    | some service =>
      if pos = serviceMethod.length - 1 then .throw noMethod
      else
        let methodName := serviceMethod.drop (pos + 1)
        if methodName.length = 0 then .throw noMethod else .ok (service, methodName)

/-- `handleRequestSingle`: the callback it runs, with `request` and `done`. -/
def handleRequestSingle (server : RpcServer π ν) (request : Value) : Exec ServerException π := do
  validateRequest request
  let id ← Exec.ofRun (request.get (lit "id"))
  let method ← Exec.ofRun (request.get (lit "method"))
  let serviceMethod ← Exec.ofRun method.getString
  let (service, methodName) ← server.resolve
    (.request ⟨.RPC_INVALID_REQUEST, id, lit "missing service name in method"⟩)
    (.request ⟨.RPC_METHOD_NOT_FOUND, id, lit "service not found"⟩)
    (.request ⟨.RPC_INVALID_REQUEST, id, lit "missing method name in method"⟩) serviceMethod
  service.callProcedureReturn methodName request

/-- `handleNotifySingle`: the callback it runs.  An unknown service throws what it would for a
request. -/
def handleNotifySingle (server : RpcServer π ν) (notify : Value) : Exec ServerException ν := do
  validateNotify notify
  let method ← Exec.ofRun (notify.get (lit "method"))
  let serviceMethod ← Exec.ofRun method.getString
  let (service, methodName) ← server.resolve
    (.notify ⟨.RPC_INVALID_REQUEST, lit "missing service name in method"⟩)
    (.anonymous .RPC_METHOD_NOT_FOUND (lit "service not found"))
    (.notify ⟨.RPC_INVALID_REQUEST, lit "missing method name in method"⟩) serviceMethod
  service.callProcedureNotify methodName notify

/-- An object: `handleNotifySingle` or `handleRequestSingle`. -/
def handleSingle (server : RpcServer π ν) (value : Value) : Exec ServerException (Started π ν) :=
  if isNotify value then do
    let callBack ← server.handleNotifySingle value
    .ok (.notify callBack value)
  else do
    let callBack ← server.handleRequestSingle value
    .ok (.call callBack value)

/-- What `handleRequest` throws, or what it has started. -/
def start [DoubleText] (server : RpcServer π ν) (json : Bytes) :
    Exec ServerException (Started π ν) := do
  let (err, value) ← Exec.ofRun (Reader.parse json)
  if err ≠ .PARSE_OK then .throw (.anonymous .RPC_PARSE_ERROR (parseErrorStr err))
  else
    let value := value.getD .null
    match value.getType with
    | .TYPE_OBJECT => server.handleSingle value
    | .TYPE_ARRAY =>
      if value.getSize = 0 then
        .throw (.anonymous .RPC_INVALID_REQUEST (lit "batch request is empty"))
      else .ok (.batch value.items)
    | _ => .throw (.anonymous .RPC_INVALID_REQUEST (lit "request should be json object or array"))

/-- `handleRequest` on the log of what has been started. -/
def handleRequest [DoubleText] (server : RpcServer π ν) (json : Bytes)
    (log : List (Started π ν)) : Run (List (Started π ν) × Option ServerException) :=
  Exec.catchAll (fun e ↦ .ok (log, some e)) do
    let started ← server.start json
    .ok (log ++ [started], none)

end RpcServer

/-- `UserDoneCallback::operator()`: the response to `request` with `result`. -/
def userDone (request result : Value) : Run Value := do
  let response := Value.object []
  let response ← response.addMember (.string (lit "jsonrpc")) (.string (lit "2.0"))
  let id ← request.get (lit "id")
  let response ← response.addMember (.string (lit "id")) id
  response.addMember (.string (lit "result")) result

/-- The lambda `handleMessage` gives to `handleRequest`: the message it sends, if any. -/
def respond [DoubleText] (response : Value) : Run (Option Bytes) :=
  if response.getType ≠ .TYPE_NULL then do
    let message ← sendJson response
    .ok (some message)
  else .ok none

/-! ## What is let through, and what is rejected -/

namespace RpcServer

open ServerException (IsRequest)

theorem findString_eq_ok {cur : Value} {key s : Bytes} :
    findString cur key = .ok s ↔ cur.find key = some (.string s) := by
  unfold findString
  constructor
  · intro h
    obtain ⟨v, hv, h⟩ := Exec.bind_eq_ok.mp h
    obtain ⟨hv, ht⟩ := require_eq_ok.mp hv
    obtain ⟨s', rfl⟩ := Value.getType_eq_string ht
    cases h
    exact hv
  · intro h
    have hv : findValue cur key .TYPE_STRING = .ok (.string s) := require_eq_ok.mpr ⟨h, rfl⟩
    rw [hv]
    rfl

theorem settles_findString {P : ServerException → Prop}
    (h : ∀ d, P (.anonymous .RPC_INVALID_REQUEST d)) {cur : Value} {key : Bytes} :
    Exec.Settles P (findString cur key) := by
  refine (settles_require (h _) (h _)).bind fun v hv ↦ ?_
  obtain ⟨s, rfl⟩ := Value.getType_eq_string (require_eq_ok.mp hv).2
  exact Exec.settles_ok s

/-- The checks that requests and notifications share are passed. -/
structure Members (nMember : Nat) (request : Value) (name : Bytes) : Prop where
  version : request.find (lit "jsonrpc") = some (.string (lit "2.0"))
  method : request.find (lit "method") = some (.string name)
  notInternal : name ≠ lit "rpc."
  size : request.getSize = nMember + (hasParams request).toNat

theorem validateMembers_eq_ok {nMember : Nat} {version method field : ServerException}
    {request : Value} :
    validateMembers nMember version method field request = .ok () ↔
      ∃ name, Members nMember request name := by
  unfold validateMembers
  constructor
  · intro h
    obtain ⟨jsonrpc, hv, h⟩ := Exec.bind_eq_ok.mp h
    split at h
    · cases h
    · rename_i h2
      obtain ⟨name, hm, h⟩ := Exec.bind_eq_ok.mp h
      split at h
      · cases h
      · split at h
        · cases h
        · rename_i hn hs
          refine ⟨name, ?_, findString_eq_ok.mp hm, hn, not_not.mp hs⟩
          rw [← not_not.mp h2]
          exact findString_eq_ok.mp hv
  · rintro ⟨name, h⟩
    rw [findString_eq_ok.mpr h.version, Exec.ok_bind, if_neg (not_not.mpr rfl),
      findString_eq_ok.mpr h.method, Exec.ok_bind, if_neg h.notInternal,
      if_neg (not_not.mpr h.size)]

theorem settles_validateMembers {P : ServerException → Prop} {nMember : Nat}
    {version method field : ServerException} {request : Value}
    (h : ∀ d, P (.anonymous .RPC_INVALID_REQUEST d)) (hv : P version) (hm : P method)
    (hf : P field) : Exec.Settles P (validateMembers nMember version method field request) :=
  (settles_findString h).bind fun _ _ ↦ .ite (fun _ ↦ Exec.settles_throw hv) fun _ ↦
    (settles_findString h).bind fun _ _ ↦ .ite (fun _ ↦ Exec.settles_throw hm) fun _ ↦
      .ite (fun _ ↦ Exec.settles_throw hf) fun _ ↦ Exec.settles_ok ()

theorem validateRequest_eq_ok {request : Value} :
    validateRequest request = .ok () ↔
      ∃ id name, request.find (lit "id") = some (.int32 id) ∧ Members 3 request name := by
  unfold validateRequest
  constructor
  · intro h
    obtain ⟨v, hv, h⟩ := Exec.bind_eq_ok.mp h
    obtain ⟨hv, ht⟩ := require_eq_ok.mp hv
    obtain ⟨id, rfl⟩ := Value.getType_eq_int32 ht
    obtain ⟨name, hm⟩ := validateMembers_eq_ok.mp h
    exact ⟨id, name, hv, hm⟩
  · rintro ⟨id, name, hid, hm⟩
    have hv : findValue request (lit "id") .TYPE_INT32 = .ok (.int32 id) :=
      require_eq_ok.mpr ⟨hid, rfl⟩
    rw [hv, Exec.ok_bind]
    exact validateMembers_eq_ok.mpr ⟨name, hm⟩

variable {π ν : Type} (server : RpcServer π ν)

theorem settles_resolve {P : ServerException → Prop}
    {noService unknownService noMethod : ServerException} (h₁ : P noService)
    (h₂ : P unknownService) (h₃ : P noMethod) (serviceMethod : Bytes) :
    Exec.Settles P (server.resolve noService unknownService noMethod serviceMethod) := by
  unfold resolve
  split
  · exact Exec.settles_throw h₁
  · exact Exec.settles_throw h₁
  · split
    · exact Exec.settles_throw h₂
    · exact .ite (fun _ ↦ Exec.settles_throw h₃) fun _ ↦
        .ite (fun _ ↦ Exec.settles_throw h₃) fun _ ↦ Exec.settles_ok _

theorem idxOf?_append_cons {s m : Bytes} (h : (0x2e : UInt8) ∉ s) :
    (s ++ 0x2e :: m).idxOf? 0x2e = some s.length := by
  induction s with
  | nil => simp [List.idxOf?_cons]
  | cons c s ih =>
      rw [List.mem_cons, not_or] at h
      have hc : (c == 0x2e) = false := by simpa using Ne.symm h.1
      rw [List.cons_append, List.idxOf?_cons, hc, ih h.2]
      rfl

/-- The first dot separates the service from the method. -/
theorem resolve_eq_ok {noService unknownService noMethod : ServerException} {s m : Bytes}
    {service : Service π ν} (hs : s ≠ []) (hdot : (0x2e : UInt8) ∉ s) (hm : m ≠ [])
    (hservice : OrderedMap.find s server.services_ = some service) :
    server.resolve noService unknownService noMethod (s ++ 0x2e :: m) = .ok (service, m) := by
  have hpos := List.length_pos_iff.mpr hs
  have hlen := List.length_pos_iff.mpr hm
  have hdrop : (s ++ 0x2e :: m).drop (s.length + 1) = m := by
    rw [← List.drop_drop, List.drop_left, List.drop_one, List.tail_cons]
  obtain ⟨n, hn⟩ : ∃ n, s.length = n + 1 := ⟨s.length - 1, by omega⟩
  have htake : (s ++ 0x2e :: m).take (n + 1) = s := by rw [← hn, List.take_left]
  rw [resolve, idxOf?_append_cons hdot, hn]
  rw [hn] at hdrop
  simp only [htake, hservice, hdrop]
  rw [if_neg, if_neg]
  · omega
  · rw [List.length_append, List.length_cons]
    omega

theorem handleRequestSingle_of_members {request : Value} {id : Int32} {name : Bytes}
    (hid : request.find (lit "id") = some (.int32 id)) (h : Members 3 request name) :
    server.handleRequestSingle request = (do
      let (service, methodName) ← server.resolve
        (.request ⟨.RPC_INVALID_REQUEST, .int32 id, lit "missing service name in method"⟩)
        (.request ⟨.RPC_METHOD_NOT_FOUND, .int32 id, lit "service not found"⟩)
        (.request ⟨.RPC_INVALID_REQUEST, .int32 id, lit "missing method name in method"⟩) name
      service.callProcedureReturn methodName request) := by
  rw [handleRequestSingle, validateRequest_eq_ok.mpr ⟨id, name, hid, h⟩, Exec.ok_bind,
    Value.get_of_find hid, Exec.ofRun_ok, Exec.ok_bind, Value.get_of_find h.method,
    Exec.ofRun_ok, Exec.ok_bind, Value.getString, Exec.ofRun_ok, Exec.ok_bind]

/-- A request is dispatched, or rejected as a request. -/
theorem settles_handleRequestSingle (request : Value) :
    Exec.Settles IsRequest (server.handleRequestSingle request) := by
  have hv : Exec.Settles IsRequest (validateRequest request) :=
    (settles_require trivial trivial).bind fun _ _ ↦
      settles_validateMembers (fun _ ↦ trivial) trivial trivial trivial
  rcases hv with ⟨⟨⟩, hok⟩ | ⟨e, he, hv⟩
  · obtain ⟨id, name, hid, hm⟩ := validateRequest_eq_ok.mp hok
    rw [server.handleRequestSingle_of_members hid hm]
    refine (server.settles_resolve trivial trivial trivial name).bind fun q _ ↦ ?_
    exact q.1.settles_callProcedureReturn q.2 (by simp [Value.hasMember, hid])
  · rw [handleRequestSingle, hv, Exec.throw_bind]
    exact Exec.settles_throw he

theorem settles_handleNotifySingle (notify : Value) :
    Exec.Settles (fun _ ↦ True) (server.handleNotifySingle notify) := by
  have hv : Exec.Settles (fun _ ↦ True) (validateNotify notify) :=
    settles_validateMembers (fun _ ↦ trivial) trivial trivial trivial
  rcases hv with ⟨⟨⟩, hok⟩ | ⟨e, he, hv⟩
  · obtain ⟨name, hm⟩ := validateMembers_eq_ok.mp hok
    rw [handleNotifySingle, hok, Exec.ok_bind, Value.get_of_find hm.method, Exec.ofRun_ok,
      Exec.ok_bind, Value.getString, Exec.ofRun_ok, Exec.ok_bind]
    refine (server.settles_resolve trivial trivial trivial name).bind fun q _ ↦ ?_
    exact (q.1.settles_callProcedureNotify q.2).mono fun _ _ ↦ trivial
  · rw [handleNotifySingle, hv, Exec.throw_bind]
    exact Exec.settles_throw he

end RpcServer

end RpcLearning.Rpc
