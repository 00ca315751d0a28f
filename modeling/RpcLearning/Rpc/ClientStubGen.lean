import RpcLearning.Rpc.StubGen

/-!
# The generator of client stubs

`ClientStubGen` (`RpcServer/Stub/ClientStubGen.h`, `RpcServer/Stub/ClientStubGen.cpp`).
-/

namespace RpcLearning.Rpc.ClientStubGen

open Json StubGen

/-! ## The templates -/

def clientText : Bytes := lines
  ["",
  "        #ifndef __RPCSERVER_[macroName]_H__",
  "        #define __RPCSERVER_[macroName]_H__",
  "",
  "        #include<RpcServer/common.h>",
  "        #include<RpcServer/Client/BaseClient.h>",
  "",
  "        class [clientName]",
  "        \x7b",
  "        public:",
  "            [clientName](net::EventLoop* loop, const net::InetAddress& serverAddr)",
  "                :   client_(loop, serverAddr),",
  "                    latch_(1)",
  "            \x7b",
  "                client_.setConnectionCallback([&](const net::TcpConnectionPtr conn)\x7b",
  "                    if(conn->connected())\x7b",
  "                        info(\\\"tcp connected\\\");",
  "                        connetcion_ = conn;",
  "                        latch_.countDown();",
  "                    \x7delse\x7b",
  "                        info(\\\"tcp disconnected\\\");",
  "                    \x7d",
  "                \x7d);",
  "            \x7d",
  "",
  "            ~[clientName]() = default;",
  "",
  "            void start()",
  "            \x7b",
  "                client_.start();",
  "            \x7d",
  "",
  "            void wait()",
  "            \x7b",
  "                latch_.wait();",
  "            \x7d",
  "",
  "            [procedureReturns]",
  "",
  "            [procedureNotifys]",
  "",
  "        private:",
  "            net::CountDownLatch latch_;",
  "            net::TcpConnectionPtr connetcion_;",
  "            rpc::BaseClient client_;",
  "        \x7d;",
  "",
  "        #endif",
  "",
  "        "]

def client (macroName clientName procedureReturns procedureNotifys : Bytes) : Filling where
  text := clientText
  values :=
    [(placeholder "macroName", macroName), (placeholder "clientName", clientName),
      (placeholder "procedureReturns", procedureReturns),
      (placeholder "procedureNotifys", procedureNotifys)]

def clientTemplate (fuel : Nat) (macroName clientName procedureReturns procedureNotifys : Bytes) :
    Run Bytes :=
  (client macroName clientName procedureReturns procedureNotifys).replace fuel

def procedureReturnText : Bytes := lines
  ["",
  "        void [methodName]([methodArg] const rpc::ResponseCallback& cb)",
  "        \x7b",
  "            rpc::Value params(json::ValueType::TYPE_OBJECT);",
  "            [paramsMember]",
  "",
  "            rpc::Value json(json::ValueType::TYPE_OBJECT);",
  "            json.addMember(\"jsonrpc\", \"2.0\");",
  "            json.addMember(\"method\", \"[serviceName].[methodName]\");",
  "            json.addMember(\"params\", params);",
  "",
  "            assert(connetcion_ != nullptr);",
  "            client_.sendCall(connetcion_, json, cb);",
  "        \x7d",
  "    "]

def procedureNotifyText : Bytes := lines
  ["",
  "        void [methodName]([methodArg])",
  "        \x7b",
  "            rpc::Value params(json::ValueType::TYPE_OBJECT);",
  "            [paramsMember]",
  "",
  "            rpc::Value json(json::ValueType::TYPE_OBJECT);",
  "            json.addMember(\"jsonrpc\", \"2.0\");",
  "            json.addMember(\"method\", \"[serviceName].[methodName]\");",
  "            json.addMember(\"params\", params);",
  "",
  "            assert(connetcion_ != nullptr);",
  "            client_.sendNotify(connetcion_, json);",
  "        \x7d",
  "    "]

/-- The two procedure templates differ in their texts alone. -/
def procedure (text serviceName methodName methodArg paramsMember : Bytes) : Filling where
  text := text
  values :=
    [(placeholder "serviceName", serviceName), (placeholder "methodName", methodName),
      (placeholder "methodArg", methodArg), (placeholder "paramsMember", paramsMember)]

def procedureReturnTemplate (fuel : Nat) (serviceName methodName methodArg paramsMember : Bytes) :
    Run Bytes :=
  (procedure procedureReturnText serviceName methodName methodArg paramsMember).replace fuel

def procedureNotifyTemplate (fuel : Nat) (serviceName methodName methodArg paramsMember : Bytes) :
    Run Bytes :=
  (procedure procedureNotifyText serviceName methodName methodArg paramsMember).replace fuel

def methodMemberText : Bytes := lines
  ["",
  "        params.addMember(\"[argName]\", [argName]);",
  "    "]

def methodMember (argName : Bytes) : Filling where
  text := methodMemberText
  values := [(placeholder "argName", argName)]

def methodMemberTemplate (fuel : Nat) (argName : Bytes) : Run Bytes :=
  (methodMember argName).replace fuel

/-! ## The generator -/

variable (fuel : Nat) (serviceInfo_ : ServiceInfo)

def genMacroName : Bytes := serviceInfo_.name_ ++ lit "CLIENT"

def genClientName : Bytes := serviceInfo_.name_ ++ lit "Client"

def genMember (params : Value) : Run Bytes := do
  let ms ← params.getObject
  appendEach (fun m ↦ do
    let member ← methodMemberTemplate fuel m.1
    .ok (member ++ lit "\n")) ms

def genProcedureReturns : Run Bytes :=
  appendEach (fun func ↦ do
    let methodArg ← genArg fuel func.params_ true
    let paramsMember ← genMember fuel func.params_
    let notify ← procedureReturnTemplate fuel serviceInfo_.name_ func.name_ methodArg paramsMember
    .ok (notify ++ lit "\n")) serviceInfo_.rpcReturns_

def genProcedureNotifys : Run Bytes :=
  appendEach (fun func ↦ do
    let methodArg ← genArg fuel func.params_ false
    let paramsMember ← genMember fuel func.params_
    let notify ← procedureNotifyTemplate fuel serviceInfo_.name_ func.name_ methodArg paramsMember
    .ok (notify ++ lit "\n")) serviceInfo_.rpcNotifys_

def genClient : Run Bytes := do
  let procedureReturns ← genProcedureReturns fuel serviceInfo_
  let procedureNotifys ← genProcedureNotifys fuel serviceInfo_
  clientTemplate fuel (genMacroName serviceInfo_) (genClientName serviceInfo_) procedureReturns
    procedureNotifys

end RpcLearning.Rpc.ClientStubGen
