import RpcLearning.Json.Value
import RpcLearning.Lib.Template

/-!
# What the stub generators share

`StubGen` (`RpcServer/Stub/StubGen.h`, `RpcServer/Stub/StubGen.cpp`) takes the description of a
service apart: its constructor checks the proto and keeps the calls that return something apart
from the notifications.  The generators then fill templates with `replaceAll`, whose bound is that
of the loop it is.
-/

namespace RpcLearning.Rpc

open Json

/-- `StubException`, by its message. -/
abbrev StubException := Bytes

namespace StubGen

structure RpcReturn where
  name_ : Bytes
  params_ : Value

structure RpcNotify where
  name_ : Bytes
  params_ : Value

structure ServiceInfo where
  name_ : Bytes
  rpcReturns_ : List RpcReturn
  rpcNotifys_ : List RpcNotify

/-! ## The constructor -/

def expect (result : Bool) (errMsg : Bytes) : Exec StubException Unit :=
  if result then .ok () else .throw errMsg

/-- The loop of `validateParams`, with the names seen so far. -/
def validateMembers (paramsSet : List Bytes) :
    List (Bytes × Value) → Exec StubException Unit
  | [] => .ok ()
  | (key, p) :: ms => do
    expect (!paramsSet.contains key) (lit "duplicate param name")
    expect (p.getType ≠ .TYPE_NULL) (lit "bad param type")
    validateMembers (key :: paramsSet) ms

def validateParams (params : Value) : Exec StubException Unit := do
  let ms ← Exec.ofRun params.getObject
  validateMembers [] ms

def validateReturns (returns : Value) : Exec StubException Unit :=
  match returns.getType with
  | .TYPE_NULL | .TYPE_ARRAY => expect false (lit "bad returns type")
  | .TYPE_OBJECT => validateParams returns
  | _ => .ok ()

/-- A round of the loop of `parseRpc`. -/
def parseFunc (info : ServiceInfo) (func : Value) : Exec StubException ServiceInfo := do
  expect (func.getType = .TYPE_OBJECT) (lit "expect func is object type")
  expect (func.hasMember (lit "name")) (lit "expect func has name member")
  let name ← Exec.ofRun (func.get (lit "name"))
  expect (name.getType = .TYPE_STRING) (lit "expect func: name is string type")
  expect (func.hasMember (lit "params")) (lit "expect func has params member")
  let params ← Exec.ofRun (func.get (lit "params"))
  expect (params.getType = .TYPE_OBJECT) (lit "expect func: params is object type")
  validateParams params
  if func.hasMember (lit "returns") then do
    let returns ← Exec.ofRun (func.get (lit "returns"))
    validateReturns returns
    let name ← Exec.ofRun name.getString
    .ok { info with rpcReturns_ := info.rpcReturns_ ++ [⟨name, params⟩] }
  else do
    let name ← Exec.ofRun name.getString
    .ok { info with rpcNotifys_ := info.rpcNotifys_ ++ [⟨name, params⟩] }

def parseFuncs (info : ServiceInfo) : List Value → Exec StubException ServiceInfo
  | [] => .ok info
  | func :: funcs => do
    let info ← parseFunc info func
    parseFuncs info funcs

def parseRpc (info : ServiceInfo) (rpc : Value) : Exec StubException ServiceInfo := do
  expect (0 < rpc.getSize) (lit "expect rpc's size > 0 ")
  let funcs ← Exec.ofRun rpc.getArray
  parseFuncs info funcs

/-- The constructor: `serviceInfo_` after it, or what it throws. -/
def new (proto : Value) : Exec StubException ServiceInfo := do
  expect (proto.getType = .TYPE_OBJECT) (lit "expect object")
  expect (proto.getSize = 2) (lit "expect 'name' and 'rpc' fields in object")
  expect (proto.hasMember (lit "name")) (lit "expect name")
  let name ← Exec.ofRun (proto.get (lit "name"))
  expect (name.getType = .TYPE_STRING) (lit "expect name is string type")
  expect (proto.hasMember (lit "rpc")) (lit "expect rpc")
  let rpc ← Exec.ofRun (proto.get (lit "rpc"))
  expect (rpc.getType = .TYPE_ARRAY) (lit "expect rpc is array type")
  let name ← Exec.ofRun name.getString
  parseRpc ⟨name, [], []⟩ rpc

/-! ## What the constructor accepts -/

theorem expect_eq_ok {result : Bool} {errMsg : Bytes} {u : Unit} :
    expect result errMsg = .ok u ↔ result := by
  cases result <;> simp [expect, Exec.throw]

/-- Parameters are an object in which nothing is null. -/
def Typed (params : Value) : Prop :=
  ∃ ms, params = .object ms ∧ ∀ m ∈ ms, m.2.getType ≠ .TYPE_NULL

/-- What the generators can rely on. -/
structure Accepted (info : ServiceInfo) : Prop where
  returns : ∀ r ∈ info.rpcReturns_, Typed r.params_
  notifys : ∀ r ∈ info.rpcNotifys_, Typed r.params_
  nonempty : info.rpcReturns_ ≠ [] ∨ info.rpcNotifys_ ≠ []

theorem typed_of_validateMembers {paramsSet : List Bytes} {ms : List (Bytes × Value)} {u : Unit}
    (h : validateMembers paramsSet ms = .ok u) : ∀ m ∈ ms, m.2.getType ≠ .TYPE_NULL := by
  induction ms generalizing paramsSet with
  | nil =>
      intro m hm
      cases hm
  | cons m ms ih =>
      simp only [validateMembers, Exec.bind_eq_ok, expect_eq_ok, decide_eq_true_eq] at h
      obtain ⟨-, -, -, hm, h⟩ := h
      intro m' hm'
      rcases List.mem_cons.mp hm' with rfl | hm'
      · exact hm
      · exact ih h m' hm'

theorem typed_of_validateParams {params : Value} {u : Unit} (h : validateParams params = .ok u) :
    Typed params := by
  cases params with
  | object ms => exact ⟨ms, rfl, typed_of_validateMembers h⟩
  | _ => cases h

/-- A round adds a method to one of the lists. -/
theorem parseFunc_eq_ok {info info' : ServiceInfo} {func : Value}
    (h : parseFunc info func = .ok info') :
    (∃ r, Typed r.params_ ∧ info' = { info with rpcReturns_ := info.rpcReturns_ ++ [r] }) ∨
      ∃ r, Typed r.params_ ∧ info' = { info with rpcNotifys_ := info.rpcNotifys_ ++ [r] } := by
  simp only [parseFunc, Exec.bind_eq_ok] at h
  obtain ⟨-, -, -, -, name, -, -, -, -, -, params, -, -, -, _, hp, h⟩ := h
  have typed := typed_of_validateParams hp
  split_ifs at h
  · simp only [Exec.bind_eq_ok, Except.ok.injEq] at h
    obtain ⟨-, -, -, -, name, -, rfl⟩ := h
    exact .inl ⟨⟨name, params⟩, typed, rfl⟩
  · simp only [Exec.bind_eq_ok, Except.ok.injEq] at h
    obtain ⟨name, -, rfl⟩ := h
    exact .inr ⟨⟨name, params⟩, typed, rfl⟩

theorem forall_mem_concat {β : Type} {P : β → Prop} {xs : List β} {x : β} (h : ∀ y ∈ xs, P y)
    (hx : P x) : ∀ y ∈ xs ++ [x], P y := by
  intro y hy
  rcases List.mem_append.mp hy with hy | hy
  · exact h y hy
  · rw [List.mem_singleton.mp hy]
    exact hx

theorem accepted_of_parseFuncs {info info' : ServiceInfo} {funcs : List Value}
    (hr : ∀ r ∈ info.rpcReturns_, Typed r.params_) (hn : ∀ r ∈ info.rpcNotifys_, Typed r.params_)
    (hne : funcs ≠ [] ∨ info.rpcReturns_ ≠ [] ∨ info.rpcNotifys_ ≠ [])
    (h : parseFuncs info funcs = .ok info') : Accepted info' := by
  induction funcs generalizing info with
  | nil =>
      cases h
      exact ⟨hr, hn, hne.resolve_left fun h ↦ h rfl⟩
  | cons func funcs ih =>
      rw [parseFuncs, Exec.bind_eq_ok] at h
      obtain ⟨info₁, h₁, h⟩ := h
      rcases parseFunc_eq_ok h₁ with ⟨r, typed, rfl⟩ | ⟨r, typed, rfl⟩
      · refine ih ?_ ?_ (.inr (.inl ?_)) h
        · exact forall_mem_concat hr typed
        · exact hn
        · exact List.append_ne_nil_of_right_ne_nil _ (List.cons_ne_nil _ _)
      · refine ih ?_ ?_ (.inr (.inr ?_)) h
        · exact hr
        · exact forall_mem_concat hn typed
        · exact List.append_ne_nil_of_right_ne_nil _ (List.cons_ne_nil _ _)

theorem accepted_of_new {proto : Value} {info : ServiceInfo} (h : new proto = .ok info) :
    Accepted info := by
  simp only [new, parseRpc, Exec.bind_eq_ok, expect_eq_ok, decide_eq_true_eq] at h
  obtain ⟨-, -, -, -, -, -, v, -, -, -, -, -, rpc, -, -, -, name, -, -, hsize, funcs, hf, h⟩ := h
  refine accepted_of_parseFuncs (fun r hr ↦ absurd hr List.not_mem_nil)
    (fun r hr ↦ absurd hr List.not_mem_nil) (.inl ?_) h
  cases rpc with
  | array xs =>
      cases hf
      exact List.ne_nil_of_length_pos hsize
  | _ => cases hf

/-- A proto with one notification. -/
def oneNotify (serviceName methodName : Bytes) (params : List (Bytes × Value)) : Value :=
  .object [(lit "name", .string serviceName),
    (lit "rpc", .array [.object [(lit "name", .string methodName),
      (lit "params", .object params)]])]

def oneNotifyInfo (serviceName methodName : Bytes) (params : List (Bytes × Value)) :
    ServiceInfo :=
  ⟨serviceName, [], [⟨methodName, .object params⟩]⟩

theorem new_oneNotify (serviceName methodName : Bytes) {params : List (Bytes × Value)}
    (h : validateMembers [] params = .ok ()) :
    new (oneNotify serviceName methodName params) =
      .ok (oneNotifyInfo serviceName methodName params) := by
  have hnew : new (oneNotify serviceName methodName params) =
      ((validateMembers [] params >>= fun _ ↦ .ok (oneNotifyInfo serviceName methodName params)) >>=
        fun info ↦ .ok info) := rfl
  rw [hnew, h]
  rfl

/-! ## Templates -/

def isLetter (c : UInt8) : Bool := (0x41 ≤ c && c ≤ 0x5a) || (0x61 ≤ c && c ≤ 0x7a)

/-- Placeholders are letters between square brackets. -/
def brackets : Brackets UInt8 where
  opening := 0x5b
  closing := 0x5d
  letter := isLetter
  ne := by decide
  letter_opening := by decide
  letter_closing := by decide

abbrev Placeholder := brackets.Name

/-- Every character is a letter. -/
class IsLetters (s : String) : Prop where
  all_isLetter : (lit s).all isLetter

/-- The placeholder for a name of the source. -/
def placeholder (s : String) [h : IsLetters s] : Placeholder :=
  ⟨lit s, List.all_eq_true.mp h.all_isLetter⟩

instance isLetters_TypeName : IsLetters "TypeName" := ⟨by decide +kernel⟩
instance isLetters_argName : IsLetters "argName" := ⟨by decide +kernel⟩
instance isLetters_argType : IsLetters "argType" := ⟨by decide +kernel⟩
instance isLetters_clientName : IsLetters "clientName" := ⟨by decide +kernel⟩
instance isLetters_index : IsLetters "index" := ⟨by decide +kernel⟩
instance isLetters_macroName : IsLetters "macroName" := ⟨by decide +kernel⟩
instance isLetters_macroStubName : IsLetters "macroStubName" := ⟨by decide +kernel⟩
instance isLetters_method : IsLetters "method" := ⟨by decide +kernel⟩
instance isLetters_methodArg : IsLetters "methodArg" := ⟨by decide +kernel⟩
instance isLetters_methodName : IsLetters "methodName" := ⟨by decide +kernel⟩
instance isLetters_methodNameStub : IsLetters "methodNameStub" := ⟨by decide +kernel⟩
instance isLetters_methodStubName : IsLetters "methodStubName" := ⟨by decide +kernel⟩
instance isLetters_paramName : IsLetters "paramName" := ⟨by decide +kernel⟩
instance isLetters_paramType : IsLetters "paramType" := ⟨by decide +kernel⟩
instance isLetters_paramsMember : IsLetters "paramsMember" := ⟨by decide +kernel⟩
instance isLetters_procedureBind : IsLetters "procedureBind" := ⟨by decide +kernel⟩
instance isLetters_procedureNotifys : IsLetters "procedureNotifys" := ⟨by decide +kernel⟩
instance isLetters_procedureNotifysStub : IsLetters "procedureNotifysStub" := ⟨by decide +kernel⟩
instance isLetters_procedureReturns : IsLetters "procedureReturns" := ⟨by decide +kernel⟩
instance isLetters_procedureReturnsStub : IsLetters "procedureReturnsStub" := ⟨by decide +kernel⟩
instance isLetters_serverName : IsLetters "serverName" := ⟨by decide +kernel⟩
instance isLetters_serverStubName : IsLetters "serverStubName" := ⟨by decide +kernel⟩
instance isLetters_serviceName : IsLetters "serviceName" := ⟨by decide +kernel⟩

/-- A raw string of the source, by its lines. -/
def lines (ls : List String) : Bytes := List.intercalate [0x0a] (ls.map lit)

theorem lit_ofList (cs : List Char) : lit (String.ofList cs) = cs.map Char.toUInt8 := by
  rw [lit, String.toList_ofList]

/-- A raw string from the characters of its lines, so that no literal has to be decoded. -/
theorem lines_eq {ls : List String} {css : List (List Char)}
    (h : List.Forall₂ (fun s cs ↦ s = String.ofList cs) ls css) :
    lines ls = List.intercalate [0x0a] (css.map (List.map Char.toUInt8)) := by
  rw [lines]
  congr 1
  induction h with
  | nil => rfl
  | cons hs _ ih => rw [List.map_cons, List.map_cons, ih, hs, lit_ofList]

/-- A template with what goes into it, in the order of the `replaceAll`s. -/
structure Filling where
  text : Bytes
  values : List (Placeholder × Bytes)

/-- The `replaceAll`s of a template function. -/
def Filling.replace (F : Filling) (fuel : Nat) : Run Bytes :=
  Brackets.replaceEach fuel F.text F.values

/-! ## Texts made piece by piece -/

section Pieces

variable {β : Type}

/-- A loop that appends a piece for each element. -/
def appendEach (f : β → Run Bytes) : List β → Run Bytes
  | [] => .ok []
  | x :: xs => do
    let piece ← f x
    let rest ← appendEach f xs
    .ok (piece ++ rest)

/-- A loop that appends a piece for each element, with `", "` between them. -/
def joinEach (f : β → Run Bytes) : List β → Run Bytes
  | [] => .ok []
  | x :: xs => do
    let piece ← f x
    let rest ← appendEach (fun x ↦ do
      let piece ← f x
      .ok (lit ", " ++ piece)) xs
    .ok (piece ++ rest)

end Pieces

/-! ## The parameters of a method -/

def methodArgText : Bytes := lit " [argType] [argName]    "

def argTypeName : ValueType → Bytes
  | .TYPE_INT32 => lit "int32_t"
  | .TYPE_INT64 => lit "int64_t"
  | .TYPE_DOUBLE => lit "double"
  | .TYPE_BOOL => lit "bool"
  | .TYPE_STRING => lit "std::string"
  | .TYPE_OBJECT | .TYPE_ARRAY => lit "json::Value"
  | .TYPE_NULL => lit "bad type"

def methodArg (argType argName : Bytes) : Filling where
  text := methodArgText
  values := [(placeholder "argType", argType), (placeholder "argName", argName)]

/-- `methodArgTemplate`, which both generators have. -/
def methodArgTemplate (fuel : Nat) (type : ValueType) (argName : Bytes) : Run Bytes :=
  if type = .TYPE_NULL then .error .assertion
  else (methodArg (argTypeName type) argName).replace fuel

/-- `ClientStubGen::genArg` and `ServerStubGen::genMethodArg`. -/
def genArg (fuel : Nat) (params : Value) (hasLast : Bool) : Run Bytes := do
  let ms ← params.getObject
  let args ← joinEach (fun m ↦ methodArgTemplate fuel m.2.getType m.1) ms
  .ok (if hasLast then args ++ lit ", " else args)

end StubGen

end RpcLearning.Rpc
