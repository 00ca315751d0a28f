import RpcLearning.Json.Heap.RefCounts
import RpcLearning.Json.Reader.Termination
import RpcLearning.Json.Renderings
import RpcLearning.LogServer.AsyncWriter
import RpcLearning.LogServer.LogLine.RoundTrip
import RpcLearning.Net.Buffer.Queue
import RpcLearning.Net.Buffer.ReadFd
import RpcLearning.Net.Poller.Registration
import RpcLearning.Net.TcpConnection.Closing
import RpcLearning.Net.TcpConnection.Output
import RpcLearning.Net.TcpConnection.Shutdown
import RpcLearning.Net.TcpServer.Lifecycle
import RpcLearning.Net.TimerQueue.Lifetime
import RpcLearning.Rpc.BaseClient.Correlation
import RpcLearning.Rpc.BaseClient.TooLong
import RpcLearning.Rpc.BaseServer.Notify
import RpcLearning.Rpc.BaseServer.Pipelined
import RpcLearning.Rpc.Batch.Answers
import RpcLearning.Rpc.Errors
import RpcLearning.Rpc.RpcServer.Dispatch
import RpcLearning.Rpc.ServerStub
import RpcLearning.Json.Keys
import RpcLearning.Json.Utf8
import RpcLearning.Json.StyleWriter
import RpcLearning.Json.Tokens
import RpcLearning.Json.FileReadStream
import RpcLearning.Lib.Replace
import RpcLearning.Lib.Template
import RpcLearning.LogServer.FileWriter
import RpcLearning.LogServer.LogLine.Memory
import RpcLearning.LogServer.LogFiles
import RpcLearning.Rpc.StubGen
import RpcLearning.Rpc.ClientStubGen
import RpcLearning.Rpc.StubGen.Filling
import RpcLearning.Rpc.ClientStubGen.Verbatim
import RpcLearning.Rpc.ServerStubGen
import RpcLearning.Rpc.ServerStubGen.Holes
import RpcLearning.Json.FileReader
import RpcLearning.Json.FileReader.Overruns
import RpcLearning.Rpc.Link
import RpcLearning.Rpc.Conversation.Answers
import RpcLearning.Lib.Monitor
import RpcLearning.Net.CountDownLatch
import RpcLearning.Net.EventLoopThread.Termination
