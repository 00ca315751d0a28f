import RpcLearning.Lib.Numeral
import RpcLearning.Rpc.StubGen

/-!
# The generator of server stubs

`ServerStubGen` (`RpcServer/Stub/ServerStubGen.h`, `RpcServer/Stub/ServerStubGen.cpp`).  The two
functions `procedureBindReturnTemplate` and `procedureBindNotifyTemplate` end without a `return`;
here they return their local string.
-/

namespace RpcLearning.Rpc.ServerStubGen

open Json StubGen

/-! ## The templates -/

def serverText : Bytes := lines
  ["",
  "        #ifndef __RPCSERVER_[macroStubName]_H__",
  "        #define __RPCSERVER_[macroStubName]_H__",
  "",
  "        #include<RpcServer/Server/RpcServer.h>",
  "        #include<RpcServer/common.h>",
  "        #include<string>",
  "        #include<RpcServer/Server/Service.h>",
  "        #include<RpcServer/Server/Procedure.h>",
  "        using std::placeholders::_1;",
  "        using std::placeholders::_2;",
  "",
  "        class [serverStubName] : public net::noncopyable",
  "        \x7b",
  "        public:",
  "            explicit [serverStubName](rpc::RpcServer& rpcServer)",
  "            \x7b",
  "                rpc::Service* serviceInfo = new rpc::Service();",
  "",
  "                [procedureBind]",
  "",
  "                rpcServer.addService(\"[serverName]\", serviceInfo);",
  "            \x7d",
  "",
  "           [procedureReturnsStub]",
  "",
  "           [procedureNotifysStub]",
  "",
  "           [procedureReturns]",
  "",
  "           [procedureNotifys]",
  "            ",
  "        \x7d;",
  "    "]

def server (macroStubName serverStubName serverName procedureBind procedureReturnsStub
    procedureNotifysStub procedureReturns procedureNotifys : Bytes) : Filling where
  text := serverText
  values :=
    [(placeholder "macroStubName", macroStubName), (placeholder "serverStubName", serverStubName),
      (placeholder "serverName", serverName), (placeholder "procedureBind", procedureBind),
      (placeholder "procedureReturnsStub", procedureReturnsStub),
      (placeholder "procedureNotifysStub", procedureNotifysStub),
      (placeholder "procedureReturns", procedureReturns),
      (placeholder "procedureNotifys", procedureNotifys)]

def serverTemplate (fuel : Nat) (macroStubName serverStubName serverName procedureBind
    procedureReturnsStub procedureNotifysStub procedureReturns procedureNotifys : Bytes) :
    Run Bytes :=
  (server macroStubName serverStubName serverName procedureBind procedureReturnsStub
    procedureNotifysStub procedureReturns procedureNotifys).replace fuel

def bindNameTypeReturnText : Bytes := lines
  [" ",
  "        paramType.push_back([paramType]);",
  "        paramName.push_back([paramName];",
  "    "]

def bindNameTypeBindText : Bytes := lines
  [" ",
  "        paramTypeN.push_back([paramType]);",
  "        paramNameN.push_back([paramName];",
  "    "]

/-- The type switch of both. -/
def paramTypeName : ValueType → Run Bytes
  | .TYPE_INT32 => .ok (lit "json::ValueType::TYPE_INT32")
  | .TYPE_INT64 => .ok (lit "json::ValueType::TYPE_INT64")
  | .TYPE_DOUBLE => .ok (lit "json::ValueType::TYPE_DOUBLE")
  | .TYPE_BOOL => .ok (lit "json::ValueType::TYPE_BOOL")
  | .TYPE_STRING => .ok (lit "json::ValueType::TYPE_STRING")
  | _ => .error .assertion

/-- The name is given to `[argName]`, which the texts do not have; theirs is `[paramName]`. -/
def bindNameType (text paramType argName : Bytes) : Filling where
  text := text
  values := [(placeholder "paramType", paramType), (placeholder "argName", argName)]

def procedureBindNameTypeTemplate (text : Bytes) (fuel : Nat) (type : ValueType) (argName : Bytes) :
    Run Bytes := do
  let paramType ← paramTypeName type
  (bindNameType text paramType argName).replace fuel

def procedureBindNameTypeTemplateReturn (fuel : Nat) (type : ValueType) (argName : Bytes) :
    Run Bytes :=
  procedureBindNameTypeTemplate bindNameTypeReturnText fuel type argName

def procedureBindNameTypeTemplateBind (fuel : Nat) (type : ValueType) (argName : Bytes) :
    Run Bytes :=
  procedureBindNameTypeTemplate bindNameTypeBindText fuel type argName

def bindReturnText : Bytes := lines
  ["",
  "        [TypeName]",
  "        serviceInfo->addProcedureReturn([methodName], ",
  "                                            new rpc::ProcedureReturn(",
  "                                                std::bind(&[serverStubName]:[methodNameStub], this, _1, _2),",
  "                                                paramName,",
  "                                                paramType)",
  "                                            );",
  "    "]

def bindNotifyText : Bytes := lines
  ["",
  "        [TypeName]",
  "        serviceInfo->addProcedureReturn([methodName], ",
  "                                            new rpc::ProcedureReturn(",
  "                                                std::bind(&[serverStubName]:[methodNameStub], this, _1, _2),",
  "                                                paramNameN,",
  "                                                paramTypeN)",
  "                                            );",
  "    "]

def bindMethod (text methodName methodNameStub TypeName serverStubName : Bytes) : Filling where
  text := text
  values :=
    [(placeholder "methodName", methodName), (placeholder "methodNameStub", methodNameStub),
      (placeholder "TypeName", TypeName), (placeholder "serverStubName", serverStubName)]

def procedureBindReturnTemplate (fuel : Nat)
    (methodName methodNameStub TypeName serverStubName : Bytes) : Run Bytes :=
  (bindMethod bindReturnText methodName methodNameStub TypeName serverStubName).replace fuel

def procedureBindNotifyTemplate (fuel : Nat)
    (methodName methodNameStub TypeName serverStubName : Bytes) : Run Bytes :=
  (bindMethod bindNotifyText methodName methodNameStub TypeName serverStubName).replace fuel

def returnsStubText : Bytes := lines
  ["",
  "        void [methodStubName](json::Value& request, const rpc::ResponseCallback& cb)",
  "        \x7b",
  "            auto& params = request[\"params\"];",
  "            auto& params = request[\"params\"];",
  "            if(request.isArray())\x7b",
  "                [methodName]([methodArg] rpc::UserDoneCallback(request, done));",
  "            \x7delse\x7b",
  "                [methodName]([methodArg] rpc::UserDoneCallback(request, done));",
  "            \x7d",
  "        \x7d",
  "    "]

def notifyStubText : Bytes := lines
  ["",
  "        void [methodStubName](json::Value& request)",
  "        \x7b",
  "            auto& params = request[\"params\"];",
  "            if(request.isArray())\x7b",
  "                [methodName]([methodArg]);",
  "            \x7delse\x7b",
  "                [methodName]([methodArg]);",
  "            \x7d",
  "        \x7d",
  "    "]

def stub (text methodStubName methodName methodArg : Bytes) : Filling where
  text := text
  values :=
    [(placeholder "methodStubName", methodStubName), (placeholder "methodName", methodName),
      (placeholder "methodArg", methodArg)]

def procedureReturnsStubTemplate (fuel : Nat) (methodStubName methodName methodArg : Bytes) :
    Run Bytes :=
  (stub returnsStubText methodStubName methodName methodArg).replace fuel

def procedureNotifyStubTemplate (fuel : Nat) (methodStubName methodName methodArg : Bytes) :
    Run Bytes :=
  (stub notifyStubText methodStubName methodName methodArg).replace fuel

def returnsText : Bytes := lines
  ["",
  "        virtual void [methodName]([methodArg] const rpc::UserDoneCallback& done) = 0;",
  "    "]

def virtualMethod (text methodName methodArg : Bytes) : Filling where
  text := text
  values := [(placeholder "methodName", methodName), (placeholder "methodArg", methodArg)]

def procedureReturnsTemplate (fuel : Nat) (methodName methodArg : Bytes) : Run Bytes :=
  (virtualMethod returnsText methodName methodArg).replace fuel

def parseMethodArgText : Bytes := lit "params[[index]][method];"

def parseMethodName : ValueType → Run Bytes
  | .TYPE_BOOL => .ok (lit ".getBool()")
  | .TYPE_INT32 => .ok (lit ".getInt32()")
  | .TYPE_INT64 => .ok (lit ".getInt64()")
  | .TYPE_DOUBLE => .ok (lit ".getDouble()")
  | .TYPE_STRING => .ok (lit ".getString()")
  | .TYPE_OBJECT | .TYPE_ARRAY => .ok []
  | .TYPE_NULL => .error .assertion

def parseMethodArg (index method : Bytes) : Filling where
  text := parseMethodArgText
  values := [(placeholder "index", index), (placeholder "method", method)]

def parseMethodArgTemplate (fuel : Nat) (index : Bytes) (type : ValueType) : Run Bytes := do
  let method ← parseMethodName type
  (parseMethodArg index method).replace fuel

/-! ## The generator -/

section Generator

variable (fuel : Nat) (serviceInfo_ : ServiceInfo)

def genMacroStubName : Bytes := serviceInfo_.name_ ++ lit "SERVERSTUB"

def genServerStubName : Bytes := serviceInfo_.name_ ++ lit "ServerStub"

def genServerName : Bytes := serviceInfo_.name_

/-- The loop of `genProcedureBindReturn` and `genProcedureBindNotify` over names and parameters,
with `bk`: the first method declares the vectors, the others clear them. -/
def genBind (first later : Bytes) (nameType : ValueType → Bytes → Run Bytes)
    (bind : Bytes → Bytes → Bytes → Bytes → Run Bytes) (serverStubName : Bytes) :
    Bool → List (Bytes × Value) → Run Bytes
  | _, [] => .ok []
  | bk, (methodName, params) :: funcs => do
    let methodNameStub := methodName ++ lit "Stub"
    let ms ← params.getObject
    let types ← appendEach (fun m ↦ nameType m.2.getType m.1) ms
    let TypeName := (if bk then later else first) ++ types
    let one ← bind methodName methodNameStub TypeName serverStubName
    let rest ← genBind first later nameType bind serverStubName true funcs
    .ok (one ++ rest)

def firstReturn : Bytes := lines
  [" ",
  "                    vector<json::ValueType> paramType;",
  "                    std::vector<std::string> paramName;",
  "            "]

def laterReturn : Bytes := lines
  ["",
  "                paramType.clear();",
  "                paramName.clear();",
  "            "]

def firstNotify : Bytes := lines
  [" ",
  "                    vector<json::ValueType> paramTypeN;",
  "                    std::vector<std::string> paramNameN;",
  "            "]

def laterNotify : Bytes := lines
  ["",
  "                paramTypeN.clear();",
  "                paramNameN.clear();",
  "            "]

def genProcedureBindReturn : Run Bytes :=
  genBind firstReturn laterReturn (procedureBindNameTypeTemplateReturn fuel)
    (procedureBindReturnTemplate fuel) (genServerStubName serviceInfo_) false
    (serviceInfo_.rpcReturns_.map fun func ↦ (func.name_, func.params_))

def genProcedureBindNotify : Run Bytes :=
  genBind firstNotify laterNotify (procedureBindNameTypeTemplateBind fuel)
    (procedureBindNotifyTemplate fuel) (genServerStubName serviceInfo_) false
    (serviceInfo_.rpcNotifys_.map fun func ↦ (func.name_, func.params_))

def genProcedureBind : Run Bytes := do
  let returns ← genProcedureBindReturn fuel serviceInfo_
  let notifys ← genProcedureBindNotify fuel serviceInfo_
  .ok (returns ++ notifys)

/-- The loop over an array would count its elements; it asks for an object all the same. -/
def genParseMethodArgArray (params : Value) (hasLast : Bool) : Run Bytes := do
  let ms ← params.getObject
  let args ← joinEach (fun m ↦
    parseMethodArgTemplate fuel (Numeral.toDecimal m.2) m.1.2.getType) ms.zipIdx
  .ok (if hasLast then args ++ lit ", " else args)

def genParseMethodArgObject (params : Value) (hasLast : Bool) : Run Bytes := do
  let ms ← params.getObject
  let args ← joinEach (fun m ↦ parseMethodArgTemplate fuel m.1 m.2.getType) ms
  .ok (if hasLast then args ++ lit ", " else args)

/-- What both stub loops do with the parameters. -/
def genParseMethodArg (params : Value) (hasLast : Bool) : Run Bytes :=
  if params.getType = .TYPE_ARRAY then genParseMethodArgArray fuel params hasLast
  else genParseMethodArgObject fuel params hasLast

def genProcedureReturnsStub : Run Bytes :=
  appendEach (fun func ↦ do
    let methodArg ← genParseMethodArg fuel func.params_ true
    let one ← procedureReturnsStubTemplate fuel (func.name_ ++ lit "Stub") func.name_ methodArg
    .ok (one ++ lit "\n")) serviceInfo_.rpcReturns_

def genProcedureNotifysStub : Run Bytes :=
  appendEach (fun func ↦ do
    let methodArg ← genParseMethodArg fuel func.params_ false
    let one ← procedureNotifyStubTemplate fuel (func.name_ ++ lit "Stub") func.name_ methodArg
    .ok (one ++ lit "\n")) serviceInfo_.rpcNotifys_

def genProcedureReturns : Run Bytes :=
  appendEach (fun func ↦ do
    let methodArg ← genArg fuel func.params_ true
    let one ← procedureReturnsTemplate fuel func.name_ methodArg
    .ok (one ++ lit "\n")) serviceInfo_.rpcReturns_

/-- The notifications go through the template of the methods that return something. -/
def genProcedureNotifys : Run Bytes :=
  appendEach (fun func ↦ do
    let methodArg ← genArg fuel func.params_ false
    let one ← procedureReturnsTemplate fuel func.name_ methodArg
    .ok (one ++ lit "\n")) serviceInfo_.rpcNotifys_

def genServer : Run Bytes := do
  let procedureBind ← genProcedureBind fuel serviceInfo_
  let procedureReturnsStub ← genProcedureReturnsStub fuel serviceInfo_
  let procedureNotifysStub ← genProcedureNotifysStub fuel serviceInfo_
  let procedureReturns ← genProcedureReturns fuel serviceInfo_
  let procedureNotifys ← genProcedureNotifys fuel serviceInfo_
  serverTemplate fuel (genMacroStubName serviceInfo_) (genServerStubName serviceInfo_)
    (genServerName serviceInfo_) procedureBind procedureReturnsStub procedureNotifysStub
    procedureReturns procedureNotifys

end Generator

end RpcLearning.Rpc.ServerStubGen
