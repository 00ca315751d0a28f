import RpcLearning.Rpc.RpcServer

/-!
# The stubs of procedures

A stub, as `ServerStubGen` emits it (`RpcServer/Stub/ServerStubGen.cpp`) and as the Echo server has
it, unpacks the parameters of a request and hands them to the method.  It relies on the checks that
the request has passed before the stub was called.  Those let more through than the stub can read:
parameters by position, and no parameters at all.
-/

namespace RpcLearning.Rpc

open Json

namespace Procedure

variable {β : Type}

/-- The member that a stub reads for a parameter, past the assertion of the getter for the
parameter's type (`parseMethodArgTemplate`).  `getInt64` lets an int32 pass as well, and a container
has no getter. -/
def getArg (paramType : ValueType) (param : Value) : Run Value :=
  match paramType with
  | .TYPE_BOOL | .TYPE_INT32 | .TYPE_DOUBLE | .TYPE_STRING =>
    if param.getType = paramType then .ok param else .error .assertion
  | .TYPE_INT64 =>
    if param.getType = .TYPE_INT64 ∨ param.getType = .TYPE_INT32 then .ok param
    else .error .assertion
  | .TYPE_NULL | .TYPE_ARRAY | .TYPE_OBJECT => .ok param

/-- The arguments `params[name].get()` of the call of the method. -/
def getArgs (params : Value) : List (Bytes × ValueType) → Run (List Value)
  | [] => .ok []
  | (paramName, paramType) :: ps => do
    let param ← params.get paramName
    let arg ← getArg paramType param
    let args ← getArgs params ps
    .ok (arg :: args)

/-- The stub, up to the call of the method. -/
def stub (p : Procedure β) (request : Value) : Run (List Value) := do
  let params ← request.get (lit "params")
  getArgs params p.params_

theorem getArg_of_getType {paramType : ValueType} {param : Value} (h : param.getType = paramType) :
    getArg paramType param = .ok param := by
  unfold getArg
  split
  all_goals simp [h]

/-- An object that has what is declared can be unpacked. -/
theorem exists_getArgs {params : Value} {ps : List (Bytes × ValueType)}
    (h : ∀ q ∈ ps, ∃ v, params.find q.1 = some v ∧ v.getType = q.2) :
    ∃ args, getArgs params ps = .ok args ∧ args.map Value.getType = ps.map Prod.snd := by
  induction ps with
  | nil => exact ⟨[], rfl, rfl⟩
  | cons q ps ih =>
      obtain ⟨v, hv, ht⟩ := h q List.mem_cons_self
      obtain ⟨args, hargs, htypes⟩ := ih fun q' hq ↦ h q' (List.mem_cons_of_mem q hq)
      refine ⟨v :: args, ?_, ?_⟩
      · rw [getArgs, Value.get_of_find hv, Exec.ok_bind, getArg_of_getType ht, Exec.ok_bind, hargs,
          Exec.ok_bind]
      · rw [List.map_cons, List.map_cons, ht, htypes]

/-- Anything but an object fails the assertion of `operator[]`. -/
theorem getArgs_of_getType_ne {params : Value} (h : params.getType ≠ .TYPE_OBJECT)
    {ps : List (Bytes × ValueType)} (hps : ps ≠ []) : getArgs params ps = .error .assertion := by
  cases ps with
  | nil => exact absurd rfl hps
  | cons q ps =>
      cases params with
      | object ms => exact absurd rfl h
      | _ => rfl

/-- A request, or a notification, that `RpcServer` and the procedure let through to the stub. -/
inductive Accepts (p : Procedure β) (request : Value) : Prop
  | request (h : RpcServer.validateRequest request = .ok ())
      (hp : p.validateRequest request = .ok ())
  | notify (h : RpcServer.validateNotify request = .ok ()) (hp : p.validateNotify request = .ok ())

theorem rejectRequest_ne_ok {α : Type} {request : Value} {err : Error} {detail : Bytes} {a : α} :
    (rejectRequest request err detail : Exec ServerException α) ≠ .ok a := by
  intro h
  obtain ⟨id, -, hthrow⟩ := Exec.bind_eq_ok.mp h
  cases hthrow

theorem rejectNotify_ne_ok {α : Type} {err : Error} {detail : Bytes} {a : α} :
    (rejectNotify err detail : Exec ServerException α) ≠ .ok a := nofun

theorem exists_object_of_members {nMember : Nat} {request : Value} {name : Bytes}
    (h : RpcServer.Members nMember request name) : ∃ ms, request = .object ms := by
  cases request with
  | object ms => exact ⟨ms, rfl⟩
  | _ => cases h.version

/-- What is let through is an object with parameters that match in one of the ways. -/
theorem Accepts.validateGeneric {p : Procedure β} {request : Value} (h : p.Accepts request) :
    (∃ ms, request = .object ms) ∧ p.validateGeneric request = .ok true := by
  cases h with
  | request h hp =>
      obtain ⟨-, name, -, hm⟩ := RpcServer.validateRequest_eq_ok.mp h
      obtain ⟨ms, rfl⟩ := exists_object_of_members hm
      exact ⟨⟨ms, rfl⟩, (validate_eq_ok rejectRequest_ne_ok).mp hp⟩
  | notify h hp =>
      obtain ⟨name, hm⟩ := RpcServer.validateMembers_eq_ok.mp h
      obtain ⟨ms, rfl⟩ := exists_object_of_members hm
      exact ⟨⟨ms, rfl⟩, (validate_eq_ok rejectNotify_ne_ok).mp hp⟩

/-- The parameters of what is let through, if there are any. -/
theorem Accepts.params {p : Procedure β} {request : Value} (h : p.Accepts request) :
    request.find (lit "params") = none ∨
      ∃ params, request.find (lit "params") = some params ∧
        (params.getType = .TYPE_OBJECT →
          ∀ q ∈ p.params_, ∃ v, params.find q.1 = some v ∧ v.getType = q.2) := by
  obtain ⟨⟨ms, rfl⟩, hv⟩ := h.validateGeneric
  cases hf : (Value.object ms).find (lit "params") with
  | none => exact .inl rfl
  | some params =>
      refine .inr ⟨params, rfl, fun ht ↦ ?_⟩
      rw [Procedure.validateGeneric, if_neg (by simp [Value.hasMember, hf]), Value.get_of_find hf,
        Exec.ok_bind] at hv
      split at hv
      · cases hv
      · rw [ht] at hv
        exact matchMembers_eq_true.mp hv

/-- Every access of the stub meets its assertion, and gives an argument of the declared type. -/
def Unpacks (p : Procedure β) (request : Value) : Prop :=
  ∃ args, p.stub request = .ok args ∧ args.map Value.getType = p.params_.map Prod.snd

/-- Of the requests that are let through, the stub unpacks those that give the parameters by name,
and also an empty array when nothing is declared. -/
theorem unpacks_iff {p : Procedure β} {request : Value} (h : p.Accepts request) :
    p.Unpacks request ↔
      ∃ params, request.find (lit "params") = some params ∧
        (params.getType = .TYPE_OBJECT ∨ p.params_ = []) := by
  rw [Unpacks, stub]
  rcases h.params with hnone | ⟨params, hf, hobject⟩
  · obtain ⟨⟨ms, rfl⟩, -⟩ := h.validateGeneric
    rw [Value.get, hnone]
    simp
  · rw [Value.get_of_find hf, Exec.ok_bind]
    constructor
    · rintro ⟨args, hargs, -⟩
      refine ⟨params, hf, ?_⟩
      by_contra hc
      rw [not_or] at hc
      rw [getArgs_of_getType_ne hc.1 hc.2] at hargs
      cases hargs
    · rintro ⟨params', hf', ht | hnil⟩
      · obtain rfl := Option.some.inj (hf.symm.trans hf')
        exact exists_getArgs (hobject ht)
      · rw [hnil]
        exact ⟨[], rfl, rfl⟩

/-- The procedure that the Echo server binds its stub to. -/
def echo : Procedure Unit := ⟨(), [(lit "message", .TYPE_STRING)]⟩

/-- A request for it. -/
def echoRequest (params : Value) : Value :=
  .object [(lit "id", .int32 1), (lit "jsonrpc", .string (lit "2.0")),
    (lit "method", .string (lit "EchoServer.Echo")), (lit "params", params)]

theorem unpacks_iff_echo :
    echo.Unpacks (echoRequest (.object [(lit "message", .string (lit "hi"))])) ↔
      ∃ params, (echoRequest (.object [(lit "message", .string (lit "hi"))])).find (lit "params") =
        some params ∧ (params.getType = .TYPE_OBJECT ∨ echo.params_ = []) :=
  unpacks_iff (.request rfl rfl)

/-- The message by position is let through, and fails an assertion in the stub. -/
theorem not_unpacks_echo :
    let request := echoRequest (.array [.string (lit "hi")])
    echo.Accepts request ∧ ¬ echo.Unpacks request := by
  refine ⟨.request rfl rfl, ?_⟩
  rintro ⟨args, hargs, -⟩
  cases hargs

end Procedure

end RpcLearning.Rpc
