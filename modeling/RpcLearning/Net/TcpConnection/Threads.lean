import RpcLearning.Net.EventLoop
import RpcLearning.Net.TcpConnection

/-!
# A connection among threads

The loop thread handles the events of a connection, runs the tasks queued for it and calls the
connection's own functions from its callbacks, while other threads call `send`, `shutdown`,
`forceClose`, `stopRead` and `startRead`.  A call of another thread takes several steps, and between
any two of them the loop and the other threads go on; `forceClose` and `shutdown` look at `state_`
in one step and exchange it in another.  A call of the loop thread is one step.
-/

namespace RpcLearning.Net

/-- A call of `send`; the number tells calls with equal data apart. -/
structure Send where
  id : Nat
  data : List UInt8
deriving DecidableEq, Repr

/-- What a connection puts into the queue of its loop. -/
inductive ConnTask where
  | sendInLoop (s : Send)
  | shutdownInLoop
  | forceCloseInLoop
  | stopRead
  | startRead
deriving DecidableEq, Repr

/-- A connection, the queue of its loop, and the calls that other threads are in the middle of:
the tasks they are about to push, the calls of `shutdown` that have not exchanged the state yet,
each with the sends that had returned before it was made, and the number of such calls of
`forceClose`.  The rest is the record of the run: the sends that returned, those that were
executed, and those that had returned before the call of `shutdown` that took effect. -/
structure Threads where
  conn : TcpConnection
  queue : TaskQueue ConnTask
  pushing : List ConnTask
  shutdowns : List (List Send)
  forceCloses : Nat
  nextId : Nat
  returned : List Send
  executed : List Send
  due : List Send

inductive ThreadStep where
  /-- Another thread finds the state in `send`. -/
  | send (data : List UInt8)
  /-- Another thread finds the state in `shutdown`, and exchanges it. -/
  | shutdown
  | shutdownExchange (i : Nat)
  /-- Another thread finds the state in `forceClose`, and exchanges it. -/
  | forceClose
  | forceCloseExchange
  | stopRead
  | startRead
  /-- `queueInLoop` in another thread. -/
  | push (i : Nat)
  /-- The loop thread calls. -/
  | sendHere (data : List UInt8) (result : WriteResult)
  | shutdownHere
  | forceCloseHere
  | stopReadHere
  | startReadHere
  /-- The loop handles an event. -/
  | handleRead (result : ReadResult)
  | handleWrite (result : WriteResult)
  | handleClose
  /-- The loop in `doPendingTasks`; a send that is run writes with `result`. -/
  | swap
  | runTask (result : WriteResult)

namespace Threads

def start (c : TcpConnection) : Threads := ⟨c, TaskQueue.empty, [], [], 0, 0, [], [], []⟩

/-! ## Calls of other threads -/

def send (data : List UInt8) (w : Threads) : Threads :=
  if w.conn.state_ ≠ .kConnected then w
  else { w with pushing := w.pushing ++ [.sendInLoop ⟨w.nextId, data⟩], nextId := w.nextId + 1 }

/-- The assertion of `shutdown()`. -/
def shutdown (w : Threads) : Run Threads :=
  if w.conn.state_ = .kDisconnected then .error .assertion
  else .ok { w with shutdowns := w.shutdowns ++ [w.returned] }

/-- The exchange of `shutdown()`, called when the sends in `due` had returned. -/
def shutdownExchange (due : List Send) (w : Threads) : Threads :=
  if w.conn.state_ = .kConnected then
    { w with conn := w.conn.disconnecting, pushing := w.pushing ++ [.shutdownInLoop], due }
  else { w with conn := w.conn.disconnecting }

/-- The test of `forceClose()`. -/
def forceClose (w : Threads) : Threads :=
  if w.conn.state_ ≠ .kDisconnected then { w with forceCloses := w.forceCloses + 1 } else w

/-- The exchange of `forceClose()`. -/
def forceCloseExchange (w : Threads) : Threads :=
  if w.conn.state_ ≠ .kDisconnected then
    { w with conn := w.conn.disconnecting, pushing := w.pushing ++ [.forceCloseInLoop] }
  else { w with conn := w.conn.disconnecting }

def push (t : ConnTask) (w : Threads) : Threads :=
  let w := { w with queue := w.queue.push t }
  match t with
  | .sendInLoop s => { w with returned := w.returned ++ [s] }
  | _ => w

/-! ## Calls of the loop thread -/

def sendHere (data : List UInt8) (result : WriteResult) (w : Threads) : Run Threads :=
  if w.conn.state_ ≠ .kConnected then .ok w
  else do
    let conn ← w.conn.sendInLoop data result
    let s : Send := ⟨w.nextId, data⟩
    .ok { w with conn, nextId := w.nextId + 1, executed := w.executed ++ [s],
                 returned := w.returned ++ [s] }

def shutdownHere (w : Threads) : Run Threads :=
  if w.conn.state_ = .kDisconnected then .error .assertion
  else if w.conn.state_ = .kConnected then
    .ok { w with conn := w.conn.disconnecting.shutdownInLoop, due := w.returned }
  else .ok { w with conn := w.conn.disconnecting }

def forceCloseHere (w : Threads) : Threads :=
  if w.conn.state_ ≠ .kDisconnected then
    { w with conn := w.conn.disconnecting, queue := w.queue.push .forceCloseInLoop }
  else w

/-! ## The loop -/

def runTask (result : WriteResult) (w : Threads) : ConnTask → Run Threads
  | .sendInLoop s => do
    let conn ← w.conn.sendInLoop s.data result
    .ok { w with conn, executed := w.executed ++ [s] }
  | .shutdownInLoop => .ok { w with conn := w.conn.shutdownInLoop }
  | .forceCloseInLoop => do
    let conn ← w.conn.forceCloseInLoop
    .ok { w with conn }
  | .stopRead => do
    let conn ← w.conn.stopRead
    .ok { w with conn }
  | .startRead => do
    let conn ← w.conn.startRead
    .ok { w with conn }

/-- A write takes no more than it is given.  Events are handled when all tasks of the last
iteration have been run, and `EPOLLOUT` is reported where it is enabled, or was until the
connection was closed among the same events. -/
def enabled (w : Threads) : ThreadStep → Prop
  | .shutdownExchange i => i < w.shutdowns.length
  | .forceCloseExchange => 0 < w.forceCloses
  | .push i => i < w.pushing.length
  | .sendHere data result => result.Within data.length
  | .handleRead _ => w.queue.tasks = []
  | .handleWrite result =>
      w.queue.tasks = [] ∧ (w.conn.channel_.isWriting = true ∨ w.conn.state_ = .kDisconnected) ∧
        result.Within w.conn.outputBuffer_.readableBytes
  | .handleClose => w.queue.tasks = []
  | .swap => w.queue.tasks = []
  | .runTask result => ∃ t ts, w.queue.tasks = t :: ts ∧
      ∀ s, t = .sendInLoop s → result.Within s.data.length
  | _ => True

def perform (w : Threads) : ThreadStep → Run Threads
  | .send data => .ok (w.send data)
  | .shutdown => w.shutdown
  | .shutdownExchange i =>
    match w.shutdowns[i]? with
    | some due => .ok ({ w with shutdowns := w.shutdowns.eraseIdx i }.shutdownExchange due)
    | none => .ok w
  | .forceClose => .ok w.forceClose
  | .forceCloseExchange => .ok { w with forceCloses := w.forceCloses - 1 }.forceCloseExchange
  | .stopRead => .ok { w with queue := w.queue.push .stopRead }
  | .startRead => .ok { w with queue := w.queue.push .startRead }
  | .push i =>
    match w.pushing[i]? with
    | some t => .ok ({ w with pushing := w.pushing.eraseIdx i }.push t)
    | none => .ok w
  | .sendHere data result => w.sendHere data result
  | .shutdownHere => w.shutdownHere
  | .forceCloseHere => .ok w.forceCloseHere
  | .stopReadHere => do
    let conn ← w.conn.stopRead
    .ok { w with conn }
  | .startReadHere => do
    let conn ← w.conn.startRead
    .ok { w with conn }
  | .handleRead result => do
    let conn ← w.conn.handleRead result
    .ok { w with conn }
  | .handleWrite result => do
    let conn ← w.conn.handleWrite result
    .ok { w with conn }
  | .handleClose => do
    let conn ← w.conn.handleClose
    .ok { w with conn }
  | .swap => .ok { w with queue := w.queue.swap }
  | .runTask result =>
    match w.queue.tasks with
    | t :: ts => { w with queue.tasks := ts }.runTask result t
    | [] => .ok w

def machine : Machine Threads ThreadStep := ⟨enabled, perform⟩

end Threads

end RpcLearning.Net
