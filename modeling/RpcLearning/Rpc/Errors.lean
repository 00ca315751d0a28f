import RpcLearning.Rpc.BaseClient
import RpcLearning.Rpc.RpcServer

/-!
# Error answers

What the server answers to a rejected request, seen from the client that made it.  The answer
carries no id, so the client cannot tell whose it is, and does not accept it.
-/

namespace RpcLearning.Rpc

open Json

namespace BaseServer

/-- The answer has two members, and neither is an id. -/
theorem find_id_wrapException {e : RequestException} {response : Value}
    (h : wrapException e = .ok response) :
    response.getSize = 2 ∧ response.find (lit "id") = none := by
  obtain ⟨detail, -, rfl⟩ := wrapException_eq_ok.mp h
  exact ⟨rfl, rfl⟩

end BaseServer

namespace BaseClient

theorem not_accepted_wrapException {e : RequestException} {response : Value}
    (h : BaseServer.wrapException e = .ok response) (id : Int32) : ¬ Accepted response id := by
  intro ha
  have hid := ha.id
  rw [(BaseServer.find_id_wrapException h).2] at hid
  cases hid

theorem validateResponse_wrapException {e : RequestException} {response : Value}
    (h : BaseServer.wrapException e = .ok response) : validateResponse response ≠ .ok () := by
  rcases validateResponse_cases response with ⟨id, ha, -⟩ | ⟨e', he, -⟩
  · exact absurd ha (not_accepted_wrapException h id)
  · rw [he]
    exact nofun

variable [DoubleText] {κ : Type} (react : κ → Value → Bool → List (Call × κ))

/-- The client stays as it is: no callback runs, and the entry of the rejected call stays. -/
theorem handleResonseSingle_wrapException {e : RequestException} {response : Value}
    (h : BaseServer.wrapException e = .ok response) (c : BaseClient κ) :
    ∃ thrown, c.handleResonseSingle react response = .ok (c, some thrown) := by
  unfold handleResonseSingle
  rcases validateResponse_cases response with ⟨id, ha, -⟩ | ⟨e', he, -⟩
  · exact absurd ha (not_accepted_wrapException h id)
  · exact ⟨e', by rw [he, Exec.throw_bind]; rfl⟩

/-- The answer to a request that the server has rejected with `e` reaches the callback `cb`, which
the client has registered for the request's id. -/
def ErrorReaches (c : BaseClient κ) (id : Int32) (cb : κ) (e : RequestException) : Prop :=
  ∃ response, BaseServer.wrapException e = .ok response ∧ validateResponse response = .ok () ∧
    ∃ value c', c.handleResonseSingle react response = .ok (c', none) ∧
      c'.invoked = c.invoked ++ [(cb, value, true)] ∧
      OrderedMap.find id.toInt c'.idToResponse_ = none

/-- It never does, whatever the request, the reason for the rejection, and the client. -/
theorem not_errorReaches (c : BaseClient κ) (id : Int32) (cb : κ) (e : RequestException) :
    ¬ ErrorReaches react c id cb e := by
  rintro ⟨response, hw, hv, -⟩
  exact validateResponse_wrapException hw hv

end BaseClient

/-- A call of a method nobody has registered: the server rejects it with its id, the client has a
callback for that id, and the answer is not accepted. -/
theorem error_unknown_service :
    let request := Value.object
      [(lit "id", .int32 0), (lit "jsonrpc", .string (lit "2.0")),
        (lit "method", .string (lit "Arith.Add"))]
    let e : RequestException := ⟨.RPC_METHOD_NOT_FOUND, .int32 0, lit "service not found"⟩
    let c : BaseClient Unit := { BaseClient.new Unit with id_ := 1, idToResponse_ := [(0, ())] }
    (RpcServer.new Unit Unit).handleRequestSingle request = .throw (.request e) ∧
      OrderedMap.find 0 c.idToResponse_ = some () ∧
      ¬ @BaseClient.ErrorReaches noDoubles Unit (fun _ _ _ ↦ []) c 0 () e := by
  refine ⟨rfl, rfl, ?_⟩
  rintro ⟨response, hw, hv, -⟩
  exact BaseClient.validateResponse_wrapException hw hv

end RpcLearning.Rpc
