import Mathlib.Data.Finset.Basic
import RpcLearning.Net.EventLoop
import RpcLearning.Net.TcpConnection.Closing

/-!
# The server

`TcpServer` (`NetServer/TcpServer.cpp`): a base loop, which accepts connections, and a pool of I/O
loops, each in a thread of its own, among which the connections are dealt out.  Without a pool the
base loop serves the connections itself.

A loop thread runs one call after the other, and the other threads go on between any two of them.
What a function calls at its end, a callback or a task that `runInLoop` does not have to queue, is
a call of its own.
-/

namespace RpcLearning.Net

namespace TcpConnection

def connected (c : TcpConnection) : Bool := c.state_ = .kConnected

end TcpConnection

/-! ## Loops -/

/-- What is put into the queue of a loop; a connection is known by its place among all that were
made. -/
inductive Task where
  | connectEstablished (conn : Nat)
  | sendInLoop (conn : Nat) (data : List UInt8)
  | shutdownInLoop (conn : Nat)
  | forceCloseInLoop (conn : Nat)
  | stopRead (conn : Nat)
  | startRead (conn : Nat)
  | closeConnectionInLoop (conn : Nat)
  | connectDestroyed (conn : Nat)
deriving DecidableEq, Repr

/-- What a loop thread runs: a task, what it does for the channels that were reported, and the
callbacks of a connection. -/
inductive Call where
  | task (t : Task)
  | newConnection
  | handleEvents (conn : Nat) (revents_ : BitVec 32)
  | handleRead (conn : Nat)
  | handleWrite (conn : Nat)
  | handleClose (conn : Nat)
  | handleError (conn : Nat)
  | connectionCallback_ (conn : Nat)
  | closeCallback_ (conn : Nat)
deriving DecidableEq, Repr

/-- A loop: the calls its thread has begun to make, which come before anything else, and its
queue. -/
structure Loop where
  calls : List Call
  queue : TaskQueue Task

namespace Loop

def start : Loop := ⟨[], TaskQueue.empty⟩

/-- The thread is about to wait for events or to look at its queue. -/
def Idle (o : Loop) : Prop := o.calls = [] ∧ o.queue.tasks = []

/-- The call the thread makes next. -/
def next? (o : Loop) : Option Call :=
  match o.calls with
  | k :: _ => some k
  | [] => o.queue.tasks.head?.map .task

/-- The loop without that call. -/
def pop (o : Loop) : Loop :=
  match o.calls with
  | _ :: ks => { o with calls := ks }
  | [] => { o with queue.tasks := o.queue.tasks.tail }

/-- All that is still to be run, in order. -/
def pending (o : Loop) : List Call := o.calls ++ o.queue.order.map .task

theorem pending_of_next {o : Loop} {k : Call} (h : o.next? = some k) :
    o.pending = k :: o.pop.pending := by
  obtain ⟨calls, pendingTasks_, tasks⟩ := o
  cases calls with
  | cons k' ks =>
      cases h
      rfl
  | nil =>
      cases tasks with
      | nil => cases h
      | cons t ts =>
          cases h
          rfl

end Loop

/-! ## The server -/

/-- A connection that was made, the loop it was given, and what `connected()` was each time its
connection callback was run. -/
structure Conn where
  loop_ : Nat
  tcp : TcpConnection
  callbacks : List Bool

/-- The server after `start()`: the loops, the one at 0 being the base loop and those at 1 to
`numThreads_` the pool, all connections ever made, and the sends that other threads are about to
push.  `ran` is the record of the run, all calls in the order in which they were begun. -/
structure Server where
  numThreads_ : Nat
  next_ : Nat
  writeCompleteCallback_ : Bool
  loops : Nat → Loop
  conns : List Conn
  connections_ : Finset Nat
  pushing : List (Nat × List UInt8)
  ran : List Call

def baseLoop_ : Nat := 0

namespace Server

def start (numThreads_ : Nat) (writeCompleteCallback_ : Bool) : Server :=
  ⟨numThreads_, 0, writeCompleteCallback_, fun _ ↦ Loop.start, [], ∅, [], []⟩

def setLoop (l : Nat) (o : Loop) (s : Server) : Server :=
  { s with loops := Function.update s.loops l o }

def setConn (i : Nat) (c : Conn) (s : Server) : Server := { s with conns := s.conns.set i c }

/-- Thread `l` has begun to make the calls `ks`. -/
def call (l : Nat) (ks : List Call) (s : Server) : Server :=
  s.setLoop l { s.loops l with calls := ks ++ (s.loops l).calls }

def queueInLoop (l : Nat) (t : Task) (s : Server) : Server :=
  s.setLoop l { s.loops l with queue := (s.loops l).queue.push t }

/-- `runInLoop` for loop `l`, in `thread`; `none` is a thread that is no loop's. -/
def runInLoop (thread : Option Nat) (l : Nat) (t : Task) (s : Server) : Server :=
  if thread = some l then s.call l [.task t] else s.queueInLoop l t

/-! ## Connections come and go -/

/-- `EventLoopThreadPool::getNextLoop()`. -/
def getNextLoop (s : Server) : Nat × Server :=
  if s.numThreads_ = 0 then (baseLoop_, s)
  else
    (s.next_ + 1, { s with next_ := if s.numThreads_ ≤ s.next_ + 1 then 0 else s.next_ + 1 })

/-- The connection that is made, among all of them and in `connections_`. -/
def addConn (ioLoop : Nat) (s : Server) : Server :=
  let tcp := TcpConnection.new 0 s.writeCompleteCallback_ false
  { s with conns := s.conns ++ [⟨ioLoop, tcp, []⟩],
           connections_ := insert s.conns.length s.connections_ }

def newConnection (l : Nat) (s : Server) : Run Server :=
  if l ≠ baseLoop_ then .error .assertion
  else
    let (ioLoop, s) := s.getNextLoop
    .ok ((s.addConn ioLoop).runInLoop (some l) ioLoop (.connectEstablished s.conns.length))

def closeConnection (l conn : Nat) (s : Server) : Server :=
  s.runInLoop (some l) baseLoop_ (.closeConnectionInLoop conn)

def closeConnectionInLoop (l conn : Nat) (s : Server) : Run Server :=
  if l ≠ baseLoop_ then .error .assertion
  else if s.connections_ = ∅ then .error .assertion
  else
    let s := { s with connections_ := s.connections_.erase conn }
    .ok (s.queueInLoop baseLoop_ (.connectDestroyed conn))

/-! ## The functions of a connection -/

/-- Thread `l` runs the function `f` of a connection, which asserts, itself or in
`updateChannel`, that this is the thread of its loop.  `closeCallback_`, which `f` counts, is the
next that the thread calls. -/
def inConn (l conn : Nat) (f : TcpConnection → Run TcpConnection) (s : Server) : Run Server :=
  match s.conns[conn]? with
  | none => .error .dangling
  | some c =>
    if l ≠ c.loop_ then .error .assertion
    else do
      let tcp ← f c.tcp
      let closes := List.replicate (tcp.closes - c.tcp.closes) (.closeCallback_ conn)
      .ok ((s.setConn conn { c with tcp }).call l closes)

def connectEstablished (l conn : Nat) (s : Server) : Run Server := do
  let s ← s.inConn l conn TcpConnection.connectEstablished
  .ok (s.call l [.connectionCallback_ conn])

def connectDestroyed (l conn : Nat) (s : Server) : Server :=
  s.call l [.connectionCallback_ conn]

/-- The user is given the connection. -/
def connectionCallback (conn : Nat) (s : Server) : Run Server :=
  match s.conns[conn]? with
  | none => .error .dangling
  | some c => .ok (s.setConn conn { c with callbacks := c.callbacks ++ [c.tcp.connected] })

/-- The function that the constructor of a connection has set as a callback of its channel. -/
def handler (conn : Nat) : Channel.Callback → Call
  | .closeCallback_ => .handleClose conn
  | .errorCallback_ => .handleError conn
  | .readCallback_ => .handleRead conn
  | .writeCallback_ => .handleWrite conn

/-- `Channel::handleEvents()`.  The guard holds: a connection whose channel is reported is one of
`connections_`. -/
def handleEvents (l conn : Nat) (revents_ : BitVec 32) (s : Server) : Server :=
  s.call l ((Channel.handleEventsWithGuard revents_).map (handler conn))

/-! ## Calls of the user -/

/-- The user has been given the connection. -/
def Known (s : Server) (conn : Nat) : Prop := ∃ c, s.conns[conn]? = some c ∧ c.callbacks ≠ []

/-- The user calls a function of a connection. -/
def onConn (conn : Nat) (f : Conn → Run Server) (s : Server) : Run Server :=
  match s.conns[conn]? with
  | none => .error .dangling
  | some c => f c

/-- `send`; another thread than the loop's is about to push a task. -/
def send (thread : Option Nat) (conn : Nat) (data : List UInt8) (s : Server) : Run Server :=
  s.onConn conn fun c ↦
    if c.tcp.state_ ≠ .kConnected then .ok s
    else if thread = some c.loop_ then .ok (s.call c.loop_ [.task (.sendInLoop conn data)])
    else .ok { s with pushing := s.pushing ++ [(conn, data)] }

def push (conn : Nat) (data : List UInt8) (s : Server) : Run Server :=
  s.onConn conn fun c ↦ .ok (s.queueInLoop c.loop_ (.sendInLoop conn data))

def shutdown (thread : Option Nat) (conn : Nat) (s : Server) : Run Server :=
  s.onConn conn fun c ↦
    if c.tcp.state_ = .kDisconnected then .error .assertion
    else
      let s := s.setConn conn { c with tcp := c.tcp.disconnecting }
      if c.tcp.state_ = .kConnected then
        .ok (s.runInLoop thread c.loop_ (.shutdownInLoop conn))
      else .ok s

def forceClose (conn : Nat) (s : Server) : Run Server :=
  s.onConn conn fun c ↦
    if c.tcp.state_ ≠ .kDisconnected then
      let s := s.setConn conn { c with tcp := c.tcp.disconnecting }
      .ok (s.queueInLoop c.loop_ (.forceCloseInLoop conn))
    else .ok s

def stopRead (thread : Option Nat) (conn : Nat) (s : Server) : Run Server :=
  s.onConn conn fun c ↦ .ok (s.runInLoop thread c.loop_ (.stopRead conn))

def startRead (thread : Option Nat) (conn : Nat) (s : Server) : Run Server :=
  s.onConn conn fun c ↦ .ok (s.runInLoop thread c.loop_ (.startRead conn))

/-! ## Runs -/

/-- What the system calls of a call answer. -/
structure Answer where
  read : ReadResult
  write : WriteResult

def runTask (l : Nat) (answer : Answer) (s : Server) : Task → Run Server
  | .connectEstablished conn => s.connectEstablished l conn
  | .sendInLoop conn data => s.inConn l conn (·.sendInLoop data answer.write)
  | .shutdownInLoop conn => s.inConn l conn fun c ↦ .ok c.shutdownInLoop
  | .forceCloseInLoop conn => s.inConn l conn (·.forceCloseInLoop)
  | .stopRead conn => s.inConn l conn (·.stopRead)
  | .startRead conn => s.inConn l conn (·.startRead)
  | .closeConnectionInLoop conn => s.closeConnectionInLoop l conn
  | .connectDestroyed conn => .ok (s.connectDestroyed l conn)

def runCall (l : Nat) (answer : Answer) (s : Server) : Call → Run Server
  | .task t => s.runTask l answer t
  | .newConnection => s.newConnection l
  | .handleEvents conn revents_ => .ok (s.handleEvents l conn revents_)
  | .handleRead conn => s.inConn l conn (·.handleRead answer.read)
  | .handleWrite conn => s.inConn l conn (·.handleWrite answer.write)
  | .handleClose conn => s.inConn l conn (·.handleClose)
  | .handleError _ => .ok s
  | .connectionCallback_ conn => s.connectionCallback conn
  | .closeCallback_ conn => .ok (s.closeConnection l conn)

/-- The steps of the threads: `epoll_wait` of a loop returns, with what is to be done for the
channels it reports; a loop swaps its queue, or runs its next call; a thread calls a function of a
connection, or pushes what it was about to push. -/
inductive ServerStep where
  | poll (l : Nat) (reported : List Call)
  | swap (l : Nat)
  | run (l : Nat) (answer : Answer)
  | send (thread : Option Nat) (conn : Nat) (data : List UInt8)
  | push (j : Nat)
  | shutdown (thread : Option Nat) (conn : Nat)
  | forceClose (conn : Nat)
  | stopRead (thread : Option Nat) (conn : Nat)
  | startRead (thread : Option Nat) (conn : Nat)

/-- What loop `l` may do for an event: the acceptor, in the base loop, has a connection, or an
event of a connection of the loop. -/
def Reports (s : Server) (l : Nat) : Call → Prop
  | .newConnection => l = baseLoop_
  | .handleEvents conn revents_ =>
      ∃ c, s.conns[conn]? = some c ∧ c.loop_ = l ∧ c.tcp.channel_.Reports revents_
  | _ => False

/-- A write takes no more than it is given. -/
def Within (s : Server) (write : WriteResult) : Call → Prop
  | .task (.sendInLoop _ data) => write.Within data.length
  | .handleWrite conn => ∀ c, s.conns[conn]? = some c →
      write.Within c.tcp.outputBuffer_.readableBytes
  | _ => True

def enabled (s : Server) : ServerStep → Prop
  | .poll l reported => l ≤ s.numThreads_ ∧ (s.loops l).Idle ∧ ∀ k ∈ reported, s.Reports l k
  | .swap l => l ≤ s.numThreads_ ∧ (s.loops l).Idle
  | .run l answer => ∃ k, (s.loops l).next? = some k ∧ s.Within answer.write k
  | .push j => j < s.pushing.length
  | .send _ conn _ => s.Known conn
  | .shutdown _ conn => s.Known conn
  | .forceClose conn => s.Known conn
  | .stopRead _ conn => s.Known conn
  | .startRead _ conn => s.Known conn

/-- The next call `k` of loop `l` is taken, to be run. -/
def take (l : Nat) (k : Call) (s : Server) : Server :=
  { s.setLoop l (s.loops l).pop with ran := s.ran ++ [k] }

def perform (s : Server) : ServerStep → Run Server
  | .poll l reported => .ok (s.call l reported)
  | .swap l => .ok (s.setLoop l { s.loops l with queue := (s.loops l).queue.swap })
  | .run l answer =>
    match (s.loops l).next? with
    | some k => (s.take l k).runCall l answer k
    | none => .ok s
  | .send thread conn data => s.send thread conn data
  | .push j =>
    match s.pushing[j]? with
    | some (conn, data) => { s with pushing := s.pushing.eraseIdx j }.push conn data
    | none => .ok s
  | .shutdown thread conn => s.shutdown thread conn
  | .forceClose conn => s.forceClose conn
  | .stopRead thread conn => s.stopRead thread conn
  | .startRead thread conn => s.startRead thread conn

def machine : Machine Server ServerStep := ⟨enabled, perform⟩

end Server

end RpcLearning.Net
