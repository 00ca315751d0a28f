import RpcLearning.Rpc.Exception

/-!
# Procedures and services

`Procedure` (`RpcServer/Server/Procedure.h`) checks the parameters of a request against its
declaration before it runs the user's callback, and `Service` (`RpcServer/Server/Service.cpp`)
finds the procedure for a method.  A callback is known by a name; the functions that end in
running one return it.
-/

namespace RpcLearning.Rpc

open Json

/-- A callback with the declared parameters, in order. -/
structure Procedure (β : Type) where
  callBack_ : β
  params_ : List (Bytes × ValueType)

namespace Procedure

variable {β : Type}

/-- The constructor, which asserts that there are as many types as names. -/
def new (callBack : β) (paramNames : List Bytes) (paramTypes : List ValueType) :
    Run (Procedure β) :=
  if paramNames.length = paramTypes.length then .ok ⟨callBack, paramNames.zip paramTypes⟩
  else .error .assertion

/-- The loop over `params_` for an array: by position. -/
def matchItems (params : Value) (ps : List (Bytes × ValueType)) : Bool :=
  (params.items.zip ps).all fun q ↦ q.1.getType = q.2.2

/-- The loop over `params_` for an object: by name. -/
def matchMembers (params : Value) : List (Bytes × ValueType) → Run Bool
  | [] => .ok true
  | (paramName, paramType) :: ps =>
    if params.hasMember paramName = false then .ok false
    else do
      let param ← params.get paramName
      if param.getType ≠ paramType then .ok false else matchMembers params ps

def validateGeneric (p : Procedure β) (request : Value) : Run Bool :=
  if request.hasMember (lit "params") = false then .ok p.params_.isEmpty
  else do
    let params ← request.get (lit "params")
    if params.getSize ≠ p.params_.length then .ok false
    else
      match params.getType with
      | .TYPE_ARRAY => .ok (matchItems params p.params_)
      | .TYPE_OBJECT => matchMembers params p.params_
      | _ => .ok false

/-- Both instances of `validateRequest`; they differ in what they throw. -/
def validate (mismatch badType : Exec ServerException Unit) (p : Procedure β) (request : Value) :
    Exec ServerException Unit :=
  match request.getType with
  | .TYPE_OBJECT | .TYPE_ARRAY => do
    let ok ← Exec.ofRun (p.validateGeneric request)
    if ok then .ok () else mismatch
  | _ => badType

/-- `throw RequestException(err, request["id"], detail)` -/
def rejectRequest {α : Type} (request : Value) (err : Error) (detail : Bytes) :
    Exec ServerException α := do
  let id ← Exec.ofRun (request.get (lit "id"))
  .throw (.request ⟨err, id, detail⟩)

/-- `throw NotifyException(err, detail)` -/
def rejectNotify {α : Type} (err : Error) (detail : Bytes) : Exec ServerException α :=
  .throw (.notify ⟨err, detail⟩)

/-- `Procedure<ProcedureReturnCallback>::validateRequest` -/
def validateRequest (p : Procedure β) (request : Value) : Exec ServerException Unit :=
  p.validate (rejectRequest request .RPC_INVALID_PARAMS (lit "params name or type mismatch"))
    (rejectRequest request .RPC_INVALID_REQUEST (lit "params type must be object or array"))
    request

/-- `Procedure<ProcedureNotifyCallback>::validateRequest` -/
def validateNotify (p : Procedure β) (request : Value) : Exec ServerException Unit :=
  p.validate (rejectNotify .RPC_INVALID_PARAMS (lit "params name or type mismatch"))
    (rejectNotify .RPC_INVALID_REQUEST (lit "params type must be object or array")) request

/-- `Procedure<ProcedureReturnCallback>::invoke`, up to the callback. -/
def invokeReturn (p : Procedure β) (request : Value) : Exec ServerException β := do
  p.validateRequest request
  .ok p.callBack_

/-- `Procedure<ProcedureNotifyCallback>::invoke`, up to the callback. -/
def invokeNotify (p : Procedure β) (request : Value) : Exec ServerException β := do
  p.validateNotify request
  .ok p.callBack_

end Procedure

/-- The callbacks of procedures that return are of type `π`, those for notifications of type
`ν`. -/
structure Service (π ν : Type) where
  procedureReturn_ : List (Bytes × Procedure π)
  procedureNotfiy_ : List (Bytes × Procedure ν)

namespace Service

variable {π ν : Type}

def new (π ν : Type) : Service π ν := ⟨[], []⟩

def addProcedureReturn (methodName : Bytes) (p : Procedure π) (service : Service π ν) :
    Run (Service π ν) :=
  if OrderedMap.find methodName service.procedureReturn_ = none then
    .ok { service with
      procedureReturn_ := OrderedMap.emplace methodName p service.procedureReturn_ }
  else .error .assertion

/-- A method that has been registered is found, and the others are as they were. -/
theorem find_addProcedureReturn {methodName : Bytes} {p : Procedure π}
    {service service' : Service π ν} (h : service.addProcedureReturn methodName p = .ok service') :
    OrderedMap.find methodName service'.procedureReturn_ = some p ∧ ∀ m ≠ methodName,
      OrderedMap.find m service'.procedureReturn_ = OrderedMap.find m service.procedureReturn_ := by
  unfold addProcedureReturn at h
  by_cases hnone : OrderedMap.find methodName service.procedureReturn_ = none
  · rw [if_pos hnone] at h
    cases h
    exact ⟨OrderedMap.find_emplace_self hnone p,
      fun m hm ↦ OrderedMap.find_emplace_of_ne hm p service.procedureReturn_⟩
  · rw [if_neg hnone] at h
    cases h

def callProcedureReturn (service : Service π ν) (methodName : Bytes) (request : Value) :
    Exec ServerException π :=
  match OrderedMap.find methodName service.procedureReturn_ with
  | none => Procedure.rejectRequest request .RPC_METHOD_NOT_FOUND (lit "method not found")
  | some p => p.invokeReturn request

def callProcedureNotify (service : Service π ν) (methodName : Bytes) (request : Value) :
    Exec ServerException ν :=
  match OrderedMap.find methodName service.procedureNotfiy_ with
  | none => Procedure.rejectNotify .RPC_METHOD_NOT_FOUND (lit "method not found")
  | some p => p.invokeNotify request

end Service

/-! ## Rejections -/

namespace ServerException

def IsRequest : ServerException → Prop
  | .request _ => True
  | .notify _ => False

def IsNotify : ServerException → Prop
  | .request _ => False
  | .notify _ => True

end ServerException

open ServerException (IsRequest IsNotify)

namespace Procedure

variable {α β : Type} {p : Procedure β} {request : Value}

theorem exists_matchMembers (params : Value) (ps : List (Bytes × ValueType)) :
    ∃ b, matchMembers params ps = .ok b := by
  induction ps with
  | nil => exact ⟨true, rfl⟩
  | cons q ps ih =>
      obtain ⟨name, type⟩ := q
      by_cases hm : params.hasMember name = false
      · exact ⟨false, if_pos hm⟩
      · obtain ⟨x, hx⟩ := Value.find_of_hasMember (by simpa using hm)
        rw [matchMembers, if_neg hm, Value.get_of_find hx, Exec.ok_bind]
        by_cases ht : x.getType = type
        · rw [if_neg (not_not.mpr ht)]
          exact ih
        · exact ⟨false, if_pos ht⟩

/-- An object matches when each declared name is there with the declared type. -/
theorem matchMembers_eq_true {params : Value} {ps : List (Bytes × ValueType)} :
    matchMembers params ps = .ok true ↔
      ∀ q ∈ ps, ∃ v, params.find q.1 = some v ∧ v.getType = q.2 := by
  induction ps with
  | nil => simp [matchMembers]
  | cons q ps ih =>
      rw [List.forall_mem_cons, matchMembers]
      cases hf : params.find q.1 with
      | none =>
          rw [if_pos (by simp [Value.hasMember, hf])]
          simp
      | some v =>
          rw [if_neg (by simp [Value.hasMember, hf]), Value.get_of_find hf, Exec.ok_bind]
          by_cases ht : v.getType = q.2
          · rw [if_neg (not_not.mpr ht), ih]
            simp [ht]
          · rw [if_pos ht]
            simp [ht]

theorem validate_eq_ok {mismatch badType : Exec ServerException Unit}
    (h : mismatch ≠ .ok ()) {ms : List (Bytes × Value)} :
    p.validate mismatch badType (.object ms) = .ok () ↔
      p.validateGeneric (.object ms) = .ok true := by
  rw [validate]
  show (Exec.ofRun (p.validateGeneric (.object ms)) >>= _) = _ ↔ _
  cases p.validateGeneric (.object ms) with
  | error f => exact iff_of_false nofun nofun
  | ok b =>
      cases b with
      | true => exact iff_of_true rfl rfl
      | false => exact iff_of_false h nofun

/-- `validateGeneric` always answers. -/
theorem exists_validateGeneric (p : Procedure β) (request : Value) :
    ∃ b, p.validateGeneric request = .ok b := by
  unfold validateGeneric
  by_cases hm : request.hasMember (lit "params") = false
  · exact ⟨_, if_pos hm⟩
  · obtain ⟨params, hp⟩ := Value.find_of_hasMember (by simpa using hm)
    rw [if_neg hm, Value.get_of_find hp, Exec.ok_bind]
    by_cases hs : params.getSize = p.params_.length
    · rw [if_neg (not_not.mpr hs)]
      cases params.getType with
      | TYPE_OBJECT => exact exists_matchMembers params p.params_
      | _ => exact ⟨_, rfl⟩
    · exact ⟨false, if_pos hs⟩

theorem settles_rejectRequest (h : request.hasMember (lit "id")) (err : Error) (detail : Bytes) :
    Exec.Settles IsRequest (rejectRequest request err detail : Exec ServerException α) := by
  obtain ⟨id, hid⟩ := Value.find_of_hasMember h
  rw [rejectRequest, Value.get_of_find hid]
  exact Exec.settles_throw trivial

theorem settles_validate {P : ServerException → Prop} {mismatch badType : Exec ServerException Unit}
    (h : Exec.Settles P mismatch) (h' : Exec.Settles P badType) :
    Exec.Settles P (p.validate mismatch badType request) := by
  obtain ⟨b, hb⟩ := exists_validateGeneric p request
  have hok : Exec.Settles P (do
      let ok ← Exec.ofRun (p.validateGeneric request)
      if ok then .ok () else mismatch) := by
    rw [hb]
    exact .ite (fun _ ↦ Exec.settles_ok ()) fun _ ↦ h
  unfold validate
  cases request.getType with
  | TYPE_OBJECT => exact hok
  | TYPE_ARRAY => exact hok
  | _ => exact h'

end Procedure

namespace Service

variable {π ν : Type} (service : Service π ν) (methodName : Bytes) {request : Value}

/-- A request that names no procedure, or has the wrong parameters, is rejected as a request. -/
theorem settles_callProcedureReturn (h : request.hasMember (lit "id")) :
    Exec.Settles IsRequest (service.callProcedureReturn methodName request) := by
  unfold callProcedureReturn
  split
  · exact Procedure.settles_rejectRequest h _ _
  · exact (Procedure.settles_validate (Procedure.settles_rejectRequest h _ _)
      (Procedure.settles_rejectRequest h _ _)).bind fun _ _ ↦ Exec.settles_ok _

/-- A notification that names no procedure, or has the wrong parameters, is rejected as one. -/
theorem settles_callProcedureNotify :
    Exec.Settles IsNotify (service.callProcedureNotify methodName request) := by
  unfold callProcedureNotify
  split
  · exact Exec.settles_throw trivial
  · exact (Procedure.settles_validate (Exec.settles_throw trivial)
      (Exec.settles_throw trivial)).bind fun _ _ ↦ Exec.settles_ok _

end Service

end RpcLearning.Rpc
