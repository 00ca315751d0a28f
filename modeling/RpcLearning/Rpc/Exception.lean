import RpcLearning.Json.Value

/-!
# Errors and exceptions

`RpcServer/RpcError.h` and `RpcServer/Exception.h`, and the look at a member that both ends take
before they use it.  The exceptions of the server keep a text through a `const char*`, which may
outlive it.
-/

namespace RpcLearning.Rpc

open Json

inductive Error where
  | RPC_PARSE_ERROR
  | RPC_INVALID_REQUEST
  | RPC_METHOD_NOT_FOUND
  | RPC_INVALID_PARAMS
  | RPC_INTERNAL_ERROR
deriving DecidableEq, Repr

namespace Error

def asString : Error → Bytes
  | .RPC_PARSE_ERROR => lit "Parse error"
  | .RPC_INVALID_REQUEST => lit "Invalid request"
  | .RPC_METHOD_NOT_FOUND => lit "Method not found"
  | .RPC_INVALID_PARAMS => lit "Invalid params"
  | .RPC_INTERNAL_ERROR => lit "Internal error"

def asCode : Error → Int32
  | .RPC_PARSE_ERROR => -32700
  | .RPC_INVALID_REQUEST => -32600
  | .RPC_METHOD_NOT_FOUND => -32601
  | .RPC_INVALID_PARAMS => -32602
  | .RPC_INTERNAL_ERROR => -32603

end Error

/-- A `const char*` to a literal, or into a temporary string, which is gone when the exception is
caught. -/
inductive Detail where
  | literal (text : Bytes)
  | temporary (text : Bytes)

namespace Detail

instance : Coe Bytes Detail := ⟨.literal⟩

/-- The text, read where the exception is caught. -/
def read : Detail → Run Bytes
  | .literal text => .ok text
  | .temporary _ => .error .dangling

theorem eq_of_read_eq_error {d : Detail} {f : Fault} (h : d.read = .error f) : f = .dangling := by
  cases d with
  | literal text => cases h
  | temporary text =>
      cases h
      rfl

end Detail

structure NotifyException where
  err : Error
  detail : Detail

structure RequestException where
  err : Error
  id : Value
  detail : Detail

/-- What leaves the code of the server. -/
inductive ServerException where
  | request (e : RequestException)
  | notify (e : NotifyException)

/-- `RequestException(err, detail)`, which has a null for its id. -/
def ServerException.anonymous (err : Error) (detail : Detail) : ServerException :=
  .request ⟨err, .null, detail⟩

/-- `hasId` and `getId` together make an option. -/
structure ResponseException where
  what : Bytes
  id : Option Int32

/-- The member under a key, if it is there and of the type it should have (`findValue` of the
client and of the server, which throw different exceptions). -/
def require {ε : Type} (missing mistyped : ε) (cur : Value) (key : Bytes) (type : ValueType) :
    Exec ε Value :=
  if cur.hasMember key = false then .throw missing
  else do
    let val ← Exec.ofRun (cur.get key)
    if val.getType ≠ type then .throw mistyped else .ok val

section Require

variable {ε : Type} {missing mistyped : ε} {cur v : Value} {key : Bytes} {type : ValueType}

theorem require_of_none (h : cur.find key = none) :
    require missing mistyped cur key type = .throw missing := by
  rw [require, if_pos]
  simp [Value.hasMember, h]

theorem require_of_find (h : cur.find key = some v) :
    require missing mistyped cur key type =
      if v.getType ≠ type then .throw mistyped else .ok v := by
  rw [require, if_neg, Value.get_of_find h]
  · rfl
  · simp [Value.hasMember, h]

theorem require_eq_ok :
    require missing mistyped cur key type = .ok v ↔ cur.find key = some v ∧ v.getType = type := by
  cases h : cur.find key with
  | none => simp [require_of_none h, Exec.throw]
  | some x =>
      by_cases ht : x.getType = type
      · simp only [require_of_find h, ht, ne_eq, not_true_eq_false, if_false, Except.ok.injEq,
          Option.some.injEq]
        constructor
        · rintro rfl
          exact ⟨rfl, ht⟩
        · exact And.left
      · simp only [require_of_find h, ht, ne_eq, not_false_eq_true, if_true, Exec.throw,
          reduceCtorEq, Option.some.injEq, false_iff, not_and]
        rintro rfl
        exact ht

theorem require_cases (missing mistyped : ε) (cur : Value) (key : Bytes) (type : ValueType) :
    (∃ v, cur.find key = some v ∧ v.getType = type ∧
        require missing mistyped cur key type = .ok v) ∨
      ∃ e, require missing mistyped cur key type = .throw e ∧
        ∀ v, cur.find key = some v → v.getType ≠ type := by
  cases h : cur.find key with
  | none => exact .inr ⟨missing, require_of_none h, by simp⟩
  | some x =>
      by_cases ht : x.getType = type
      · exact .inl ⟨x, rfl, ht, require_eq_ok.mpr ⟨h, ht⟩⟩
      · refine .inr ⟨mistyped, ?_, by simpa using ht⟩
        rw [require_of_find h, if_pos ht]

theorem settles_require {P : ε → Prop} (h : P missing) (h' : P mistyped) :
    Exec.Settles P (require missing mistyped cur key type) := by
  cases hf : cur.find key with
  | none =>
      rw [require_of_none hf]
      exact Exec.settles_throw h
  | some x =>
      rw [require_of_find hf]
      exact .ite (fun _ ↦ Exec.settles_throw h') fun _ ↦ Exec.settles_ok x

end Require

end RpcLearning.Rpc
