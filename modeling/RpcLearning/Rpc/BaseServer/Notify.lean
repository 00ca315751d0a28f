import RpcLearning.Rpc.Call

/-!
# Notifications

A notification is never answered, whether its callback runs or it is rejected: all but one of the
ways to reject it throw the exception for notifications.  The one that does not is the lookup of
the service.
-/

namespace RpcLearning.Rpc

open Json Net
open Framing (body)
open ServerException (IsNotify)

namespace RpcServer

variable {π ν : Type} (server : RpcServer π ν)

/-- With a version and a method that are strings, the checks throw what they were given. -/
theorem settles_validateMembers_of_find {P : ServerException → Prop} {nMember : Nat}
    {version method field : ServerException} {request : Value} {jsonrpc name : Bytes}
    (hj : request.find (lit "jsonrpc") = some (.string jsonrpc))
    (hm : request.find (lit "method") = some (.string name)) (h₁ : P version) (h₂ : P method)
    (h₃ : P field) : Exec.Settles P (validateMembers nMember version method field request) := by
  rw [validateMembers, findString_eq_ok.mpr hj, Exec.ok_bind, findString_eq_ok.mpr hm]
  exact .ite (fun _ ↦ Exec.settles_throw h₁) fun _ ↦ .ite (fun _ ↦ Exec.settles_throw h₂) fun _ ↦
    .ite (fun _ ↦ Exec.settles_throw h₃) fun _ ↦ Exec.settles_ok ()

/-- The text before the first dot is not empty, and no service has it for a name. -/
def NoService (serviceMethod : Bytes) : Prop :=
  ∃ pos, serviceMethod.idxOf? 0x2e = some pos ∧ pos ≠ 0 ∧
    OrderedMap.find (serviceMethod.take pos) server.services_ = none

theorem resolve_of_noService {noService unknownService noMethod : ServerException}
    {serviceMethod : Bytes} (h : server.NoService serviceMethod) :
    server.resolve noService unknownService noMethod serviceMethod = .throw unknownService := by
  obtain ⟨pos, hpos, hne, hnone⟩ := h
  obtain ⟨n, rfl⟩ := Nat.exists_eq_succ_of_ne_zero hne
  rw [resolve, hpos]
  simp only [hnone]

theorem settles_resolve_of_not_noService {P : ServerException → Prop}
    {noService unknownService noMethod : ServerException} {serviceMethod : Bytes}
    (h : ¬ server.NoService serviceMethod) (h₁ : P noService) (h₃ : P noMethod) :
    Exec.Settles P (server.resolve noService unknownService noMethod serviceMethod) := by
  unfold resolve
  split
  · exact Exec.settles_throw h₁
  · exact Exec.settles_throw h₁
  · rename_i pos hne hpos
    split
    · rename_i hnone
      exact absurd ⟨pos, hpos, fun h0 ↦ hne (h0 ▸ rfl), hnone⟩ h
    · exact .ite (fun _ ↦ Exec.settles_throw h₃) fun _ ↦
        .ite (fun _ ↦ Exec.settles_throw h₃) fun _ ↦ Exec.settles_ok _

/-- A notification that passes its checks, for a service nobody has registered. -/
def UnknownService (notify : Value) : Prop :=
  ∃ name, Members 2 notify name ∧ server.NoService name

theorem validateNotify_eq_ok {notify : Value} :
    validateNotify notify = .ok () ↔ ∃ name, Members 2 notify name := validateMembers_eq_ok

theorem handleNotifySingle_of_members {notify : Value} {name : Bytes} (h : Members 2 notify name) :
    server.handleNotifySingle notify = (do
      let (service, methodName) ← server.resolve
        (.notify ⟨.RPC_INVALID_REQUEST, lit "missing service name in method"⟩)
        (.anonymous .RPC_METHOD_NOT_FOUND (lit "service not found"))
        (.notify ⟨.RPC_INVALID_REQUEST, lit "missing method name in method"⟩) name
      service.callProcedureNotify methodName notify) := by
  rw [handleNotifySingle, validateNotify_eq_ok.mpr ⟨name, h⟩, Exec.ok_bind,
    Value.get_of_find h.method, Exec.ofRun_ok, Exec.ok_bind, Value.getString, Exec.ofRun_ok,
    Exec.ok_bind]

theorem handleNotifySingle_of_unknownService {notify : Value} (h : server.UnknownService notify) :
    server.handleNotifySingle notify =
      .throw (.anonymous .RPC_METHOD_NOT_FOUND (lit "service not found")) := by
  obtain ⟨name, hm, hno⟩ := h
  rw [server.handleNotifySingle_of_members hm, server.resolve_of_noService hno, Exec.throw_bind]

/-- Any other one is dispatched, or rejected as a notification. -/
theorem settles_handleNotifySingle_of_not {notify : Value} {jsonrpc name : Bytes}
    (hj : notify.find (lit "jsonrpc") = some (.string jsonrpc))
    (hm : notify.find (lit "method") = some (.string name)) (h : ¬ server.UnknownService notify) :
    Exec.Settles IsNotify (server.handleNotifySingle notify) := by
  have hv : Exec.Settles IsNotify (validateNotify notify) :=
    settles_validateMembers_of_find hj hm trivial trivial trivial
  rcases hv with ⟨⟨⟩, hok⟩ | ⟨e, he, hv⟩
  · obtain ⟨name, hmem⟩ := validateNotify_eq_ok.mp hok
    have hno : ¬ server.NoService name := fun hno ↦ h ⟨name, hmem, hno⟩
    rw [server.handleNotifySingle_of_members hmem]
    refine (server.settles_resolve_of_not_noService hno trivial trivial).bind fun q _ ↦ ?_
    exact q.1.settles_callProcedureNotify q.2
  · rw [handleNotifySingle, hv, Exec.throw_bind]
    exact Exec.settles_throw he

variable [DoubleText]

theorem start_of_notify {json : Bytes} {ms : List (Bytes × Value)}
    (hparse : Reader.parse json = .ok (.PARSE_OK, some (.object ms)))
    (hn : isNotify (.object ms)) :
    server.start json = (do
      let callBack ← server.handleNotifySingle (.object ms)
      .ok (.notify callBack (.object ms))) := by
  rw [start, hparse, Exec.ofRun_ok, Exec.ok_bind]
  show server.handleSingle (.object ms) = _
  rw [handleSingle, if_pos hn]

end RpcServer

namespace BaseServer

variable {π ν : Type}

/-- `onMessage` sends nothing and leaves the connection open, and what it has started has no `done`
either: it is a notification's callback, if anything. -/
def NotAnswered [DoubleText] (server : RpcServer π ν) (log : List (Started π ν)) (buffer : Buffer) :
    Prop :=
  ∃ started b, onMessage server.handleRequest (log, buffer) = .ok ((log ++ started, b), none) ∧
    ∀ x ∈ started, ∃ callBack notify, x = .notify callBack notify

/-- A notification in a frame of its own is not answered, unless it is for an unknown service. -/
theorem notAnswered_iff [DoubleText] (server : RpcServer π ν) (log : List (Started π ν))
    {text : Bytes} (hlen : text.length + 2 < kMaxMessageLen) {buffer : Buffer}
    (hb : buffer.readable = frame text) {ms : List (Bytes × Value)}
    (hparse : Reader.parse (body text) = .ok (.PARSE_OK, some (.object ms)))
    (hid : (Value.object ms).find (lit "id") = none) {jsonrpc name : Bytes}
    (hj : (Value.object ms).find (lit "jsonrpc") = some (.string jsonrpc))
    (hm : (Value.object ms).find (lit "method") = some (.string name)) :
    NotAnswered server log buffer ↔ ¬ server.UnknownService (.object ms) := by
  have hstart := server.start_of_notify hparse (by simp [RpcServer.isNotify, Value.hasMember, hid])
  obtain ⟨b, hrun, -⟩ := Framing.handleMessage_frame server.handleRequest takesBody_framing
    (by decide) hlen hb log
  constructor
  · rintro ⟨started, b', hon, -⟩ hu
    rw [server.handleNotifySingle_of_unknownService hu, Exec.throw_bind] at hstart
    rw [RpcServer.handleRequest, hstart] at hrun
    rcases onMessage_of_handleMessage hrun with ⟨-, -, hsome⟩ | ⟨hne, -⟩
    · exact hsome _ hon rfl
    · exact hne _ rfl
  · intro hu
    rcases server.settles_handleNotifySingle_of_not hj hm hu with ⟨callBack, hok⟩ | ⟨e, he, hthrow⟩
    · rw [hok, Exec.ok_bind] at hstart
      rw [RpcServer.handleRequest, hstart] at hrun
      rcases onMessage_of_handleMessage hrun with ⟨e, he, -⟩ | ⟨-, hon⟩
      · cases he
      · exact ⟨[.notify callBack (.object ms)], b, hon, by simp⟩
    · rw [hthrow, Exec.throw_bind] at hstart
      rw [RpcServer.handleRequest, hstart] at hrun
      rcases onMessage_of_handleMessage hrun with ⟨e', he', -⟩ | ⟨-, hon⟩
      · cases he'
        exact absurd he id
      · exact ⟨[], b, by rw [List.append_nil]; exact hon, by simp⟩

/-- At a server without services, a method without a dot. -/
theorem notAnswered_iff_dotless :
    let _ := noDoubles
    ∃ buffer : Buffer, buffer.readable = frame (text (notifyObject (lit "m"))) ∧
      (NotAnswered (RpcServer.new Unit Unit) [] buffer ↔
        ¬ (RpcServer.new Unit Unit).UnknownService (notifyObject (lit "m"))) := by
  let _ := noDoubles
  obtain ⟨buffer, -, hb⟩ :=
    Buffer.exists_append (frame (text (notifyObject (lit "m")))) (Buffer.new kInitialSize)
  rw [Buffer.readable_new, List.nil_append] at hb
  exact ⟨buffer, hb, notAnswered_iff _ [] (by decide +kernel) hb
    (parse_notifyObject _) rfl rfl rfl⟩

/-- At a server without services, a method with a dot: the notification is answered. -/
theorem not_notAnswered_unknownService :
    let _ := noDoubles
    ∃ buffer : Buffer, buffer.readable = frame (text (notifyObject (lit "a.b"))) ∧
      ¬ NotAnswered (RpcServer.new Unit Unit) [] buffer := by
  let _ := noDoubles
  obtain ⟨buffer, -, hb⟩ :=
    Buffer.exists_append (frame (text (notifyObject (lit "a.b")))) (Buffer.new kInitialSize)
  rw [Buffer.readable_new, List.nil_append] at hb
  refine ⟨buffer, hb, ?_⟩
  rintro ⟨started, b', hon, -⟩
  obtain ⟨b, hrun, -⟩ := Framing.handleMessage_frame (RpcServer.new Unit Unit).handleRequest
    takesBody_framing (by decide) (by decide +kernel) hb []
  have hthrow :
      (RpcServer.new Unit Unit).handleRequest (body (text (notifyObject (lit "a.b")))) [] =
        .ok ([], some (.anonymous .RPC_METHOD_NOT_FOUND (lit "service not found"))) := by
    rw [RpcServer.handleRequest, RpcServer.start, parse_notifyObject]
    rfl
  rw [hthrow] at hrun
  rcases onMessage_of_handleMessage hrun with ⟨-, -, hsome⟩ | ⟨hne, -⟩
  · exact hsome _ hon rfl
  · exact hne _ rfl

end BaseServer

end RpcLearning.Rpc
