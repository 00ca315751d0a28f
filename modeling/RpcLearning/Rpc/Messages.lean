import RpcLearning.Rpc.Framing

/-!
# The messages of a call

The request that a stub and `sendCall` make together, the response that `UserDoneCallback` makes of
it, and a notification: what is written for them is read as what they are.
-/

namespace RpcLearning.Rpc

open Json
open Framing (body)

/-- What a stub puts into the call object. -/
def callMembers (s m : Bytes) (params : Value) : List (Bytes × Value) :=
  [(lit "jsonrpc", .string (lit "2.0")), (lit "method", .string (s ++ 0x2e :: m)),
    (lit "params", params)]

/-- The request that `sendCall` makes of it. -/
def requestObject (id : Int32) (s m : Bytes) (params : Value) : Value :=
  .object ((lit "id", .int32 id) :: callMembers s m params)

theorem id_notMem_callMembers (s m : Bytes) (params : Value) :
    lit "id" ∉ OrderedMap.keys (callMembers s m params) := by
  show lit "id" ∉ [lit "jsonrpc", lit "method", lit "params"]
  decide

/-- The response that `UserDoneCallback` makes. -/
def responseObject (id : Int32) (result : Value) : Value :=
  .object [(lit "id", .int32 id), (lit "jsonrpc", .string (lit "2.0")), (lit "result", result)]

theorem wellFormed_requestObject {params : Value} (id : Int32) (s m : Bytes)
    (h : params.WellFormed) : (requestObject id s m params).WellFormed := by
  refine .object ?_ ?_
  · show List.Pairwise (· < ·) [lit "id", lit "jsonrpc", lit "method", lit "params"]
    decide
  · simp [callMembers, Value.WellFormed.int32, Value.WellFormed.string, h]

theorem wellFormed_responseObject {result : Value} (id : Int32) (h : result.WellFormed) :
    (responseObject id result).WellFormed := by
  refine .object ?_ ?_
  · show List.Pairwise (· < ·) [lit "id", lit "jsonrpc", lit "result"]
    decide
  · simp [Value.WellFormed.int32, Value.WellFormed.string, h]

theorem plain_requestObject {params : Value} (id : Int32) (s m : Bytes) (h : Plain params) :
    Plain (requestObject id s m params) := by
  have hk : ∀ k ∈ [lit "id", lit "jsonrpc", lit "method", lit "params"], ∀ u ∈ k, PlainByte u := by
    decide +kernel
  refine .object (fun q hq ↦ hk q.1 ?_) ?_
  · exact List.mem_map_of_mem (f := Prod.fst) hq
  · simp [callMembers, Plain.int32, Plain.string, h]

theorem plain_responseObject {result : Value} (id : Int32) (h : Plain result) :
    Plain (responseObject id result) := by
  have hk : ∀ k ∈ [lit "id", lit "jsonrpc", lit "result"], ∀ u ∈ k, PlainByte u := by
    decide +kernel
  refine .object (fun q hq ↦ hk q.1 ?_) ?_
  · exact List.mem_map_of_mem (f := Prod.fst) hq
  · simp [Plain.int32, Plain.string, h]

@[simp] theorem countable_requestObject {id : Int32} {s m : Bytes} {params : Value} :
    (requestObject id s m params).Countable ↔ params.Countable := by
  simp [requestObject, callMembers, Value.Countable.int32, Value.Countable.string]

@[simp] theorem countable_responseObject {id : Int32} {result : Value} :
    (responseObject id result).Countable ↔ result.Countable := by
  simp [responseObject, Value.Countable.int32, Value.Countable.string]

/-- The text of a frame's body is read as the value it was written from. -/
theorem parse_body [DoubleText] {v : Value} (hw : v.WellFormed) (hp : Plain v) :
    Reader.parse (body (text v)) = .ok (.PARSE_OK, some v) := by
  exact parse_of_renders ws_nil (renders_text hw hp) ws_crlf

/-- A notification for the method `name`, without parameters. -/
def notifyObject (name : Bytes) : Value :=
  .object [(lit "jsonrpc", .string (lit "2.0")), (lit "method", .string name)]

theorem parse_notifyObject [DoubleText] (name : Bytes) :
    Reader.parse (body (text (notifyObject name))) = .ok (.PARSE_OK, some (notifyObject name)) := by
  have hk : ∀ k ∈ [lit "jsonrpc", lit "method"], ∀ u ∈ k, PlainByte u := by
    decide +kernel
  refine parse_body (.object ?_ (by simp [Value.WellFormed.string])) (.object ?_ ?_)
  · show List.Pairwise (· < ·) [lit "jsonrpc", lit "method"]
    decide
  · exact fun q hq ↦ hk q.1 (List.mem_map_of_mem (f := Prod.fst) hq)
  · simp [Plain.string]

end RpcLearning.Rpc
