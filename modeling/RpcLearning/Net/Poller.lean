import RpcLearning.Net.TcpConnection.Registration

/-!
# The poller and its channels

The channels of a loop belong to the loop and its timer queue, to acceptors, to connectors and to
connections.  A connector makes a file descriptor that it hands over to a connection, which has a
channel of its own for it.  The poller (`NetServer/EPoller.cpp`) has a set of descriptors in the
kernel, each with the channel that it was registered for.
-/

namespace RpcLearning.Net

/-! ## Acceptors and connectors -/

structure Acceptor where
  acceptChannel_ : Channel

namespace Acceptor

def new : Acceptor := ⟨Channel.new⟩

def listen (a : Acceptor) : Run Acceptor := do
  let acceptChannel_ ← a.acceptChannel_.enableRead
  .ok ⟨acceptChannel_⟩

end Acceptor

/-- What `::connect` answers: 0, or -1 with `EINPROGRESS` or another `errno`. -/
inductive ConnectResult where
  | connected
  | inProgress
  | failed
deriving DecidableEq, Repr

/-- A connector; `newConnectionCallback_` says whether it was set. -/
structure Connector where
  connected_ : Bool
  started_ : Bool
  newConnectionCallback_ : Bool
  channel_ : Channel

namespace Connector

def new (newConnectionCallback : Bool) : Connector :=
  ⟨false, false, newConnectionCallback, Channel.new⟩

/-- `handleWrite()`; `err` says whether `errno` is set after `getsockopt`.  `removeChannel` disables
all events. -/
def handleWrite (err : Bool) (c : Connector) : Run Connector :=
  if c.started_ then do
    let channel_ ← c.channel_.disableAll
    if err then .ok { c with channel_ }
    else if c.newConnectionCallback_ then .ok { c with channel_, connected_ := true }
    else .ok { c with channel_ }
  else .error .assertion

def start (result : ConnectResult) (err : Bool) (c : Connector) : Run Connector :=
  if c.started_ then .error .assertion
  else
    let c := { c with started_ := true }
    match result with
    | .failed => c.handleWrite err
    | .inProgress => do
      let channel_ ← c.channel_.enableWrite
      .ok { c with channel_ }
    | .connected => c.handleWrite err

end Connector

/-! ## The owners of channels -/

/-- An owner of a channel. -/
inductive Owner where
  /-- The `EventLoop` with its eventfd, or the `TimerQueue` with its timerfd. -/
  | internal (channel : Channel)
  | acceptor (a : Acceptor)
  | connector (c : Connector)
  /-- A connection, for which `connectEstablished` has been called or not. -/
  | connection (established : Bool) (w : Threads)

namespace Owner

def channel : Owner → Channel
  | .internal channel => channel
  | .acceptor a => a.acceptChannel_
  | .connector c => c.channel_
  | .connection _ w => w.conn.channel_

/-- The owner will close its descriptor. -/
def holds : Owner → Bool
  | .connector c => !c.connected_
  | _ => true

/-- The last line of the constructors of `EventLoop` and `TimerQueue`. -/
def enableRead : Owner → Run Owner
  | .internal channel => do
    let channel ← channel.enableRead
    .ok (.internal channel)
  | o => .ok o

def listen : Owner → Run Owner
  | .acceptor a => do
    let a ← a.listen
    .ok (.acceptor a)
  | o => .ok o

def start (result : ConnectResult) (err : Bool) : Owner → Run Owner
  | .connector c => do
    let c ← c.start result err
    .ok (.connector c)
  | o => .ok o

def handleWrite (err : Bool) : Owner → Run Owner
  | .connector c => do
    let c ← c.handleWrite err
    .ok (.connector c)
  | o => .ok o

def connectEstablished : Owner → Run Owner
  | .connection _ w => do
    let conn ← w.conn.connectEstablished
    .ok (.connection true { w with conn })
  | o => .ok o

def perform (a : ThreadStep) : Owner → Run Owner
  | .connection established w => do
    let w ← w.perform a
    .ok (.connection established w)
  | o => .ok o

end Owner

/-! ## The poller -/

structure Registrant where
  fd : Nat
  owner : Owner

/-- The owners that exist, each under a number, the descriptors in the set of the kernel, with the
number that the `data.ptr` of each stands for, and how many calls of `epoll_ctl` have failed. -/
structure Poller where
  owners : Nat → Option Registrant
  epoll : Nat → Option Nat
  errors : Nat

/-- What a connection is made with. -/
structure ConnectionOptions where
  highWaterMark : Nat
  writeCompleteCallback : Bool
  highWaterMarkCallback : Bool

def ConnectionOptions.new (o : ConnectionOptions) : TcpConnection :=
  TcpConnection.new o.highWaterMark o.writeCompleteCallback o.highWaterMarkCallback

inductive PollerStep where
  | internal (i fd : Nat)
  | acceptor (i fd : Nat)
  | connector (i fd : Nat) (newConnectionCallback : Bool)
  | connection (i fd : Nat) (options : ConnectionOptions)
  | listen (i : Nat)
  /-- A connector that has succeeded makes the connection `j`. -/
  | start (i : Nat) (result : ConnectResult) (err : Bool) (j : Nat) (options : ConnectionOptions)
  | handleWrite (i : Nat) (err : Bool) (j : Nat) (options : ConnectionOptions)
  | connectEstablished (i : Nat)
  | thread (i : Nat) (a : ThreadStep)
  | destroy (i : Nat)

namespace Poller

def empty : Poller := ⟨fun _ ↦ none, fun _ ↦ none, 0⟩

def epollCtl (fd i : Nat) (p : Poller) (ctl : EpollCtl) : Poller :=
  match ctl, p.epoll fd with
  | .ADD, none => { p with epoll := Function.update p.epoll fd (some i) }
  | .MOD, some _ => { p with epoll := Function.update p.epoll fd (some i) }
  | .DEL, some _ => { p with epoll := Function.update p.epoll fd none }
  | _, _ => { p with errors := p.errors + 1 }

def create (i : Nat) (r : Registrant) (p : Poller) : Poller :=
  { p with owners := Function.update p.owners i (some r) }

/-- What is left when `r` has become `owner`; the calls of `epoll_ctl` that its channel has made
meanwhile are carried out. -/
def set (i : Nat) (r : Registrant) (owner : Owner) (p : Poller) : Poller :=
  let ctls := owner.channel.ctls.drop r.owner.channel.ctls.length
  ctls.foldl (epollCtl r.fd i) (p.create i ⟨r.fd, owner⟩)

def call (i : Nat) (f : Owner → Run Owner) (p : Poller) : Run Poller :=
  match p.owners i with
  | some r => do
    let owner ← f r.owner
    .ok (p.set i r owner)
  | none => .ok p

/-- `newConnectionCallback_(sockfd_, local, peer_)`, where the connector has come to it. -/
def handOver (i j : Nat) (options : ConnectionOptions) (p : Poller) : Poller :=
  match p.owners i with
  | some ⟨fd, .connector c⟩ =>
    if c.connected_ then p.create j ⟨fd, .connection false (Threads.start options.new)⟩ else p
  | _ => p

/-- The destructor of a connection asserts that it is disconnected.  A descriptor that is closed
leaves the set. -/
def destroy (i : Nat) (p : Poller) : Run Poller :=
  match p.owners i with
  | some r =>
    let p' : Poller := ⟨Function.update p.owners i none,
      if r.owner.holds then Function.update p.epoll r.fd none else p.epoll, p.errors⟩
    match r.owner with
    | .connection _ w => if w.conn.state_ = .kDisconnected then .ok p' else .error .assertion
    | _ => .ok p'
  | none => .ok p

/-- The kernel gives out the descriptors that are not in use. -/
def Unused (p : Poller) (fd : Nat) : Prop :=
  ∀ i r, p.owners i = some r → r.owner.holds = true → r.fd ≠ fd

/-- A connector handles an event of its own descriptor.  The loop has nothing to do with a
connection before it is established. -/
def enabled (p : Poller) : PollerStep → Prop
  | .internal i fd => p.owners i = none ∧ p.Unused fd
  | .acceptor i fd => p.owners i = none ∧ p.Unused fd
  | .connector i fd _ => p.owners i = none ∧ p.Unused fd
  | .connection i fd _ => p.owners i = none ∧ p.Unused fd
  | .listen i => ∃ fd a, p.owners i = some ⟨fd, .acceptor a⟩
  | .start i _ _ j _ => (∃ fd c, p.owners i = some ⟨fd, .connector c⟩) ∧ p.owners j = none
  | .handleWrite i _ j _ =>
      (∃ fd c, p.owners i = some ⟨fd, .connector c⟩ ∧ p.epoll fd = some i) ∧ p.owners j = none
  | .connectEstablished i => ∃ fd w, p.owners i = some ⟨fd, .connection false w⟩
  | .thread i a => ∃ fd established w, p.owners i = some ⟨fd, .connection established w⟩ ∧
      w.enabled a ∧ (established = false → a.Elsewhere)
  | .destroy i => p.owners i ≠ none

def perform (p : Poller) : PollerStep → Run Poller
  | .internal i fd => (p.create i ⟨fd, .internal Channel.new⟩).call i Owner.enableRead
  | .acceptor i fd => .ok (p.create i ⟨fd, .acceptor Acceptor.new⟩)
  | .connector i fd newConnectionCallback =>
    .ok (p.create i ⟨fd, .connector (Connector.new newConnectionCallback)⟩)
  | .connection i fd options =>
    .ok (p.create i ⟨fd, .connection false (Threads.start options.new)⟩)
  | .listen i => p.call i Owner.listen
  | .start i result err j options => do
    let p ← p.call i (Owner.start result err)
    .ok (p.handOver i j options)
  | .handleWrite i err j options => do
    let p ← p.call i (Owner.handleWrite err)
    .ok (p.handOver i j options)
  | .connectEstablished i => p.call i Owner.connectEstablished
  | .thread i a => p.call i (Owner.perform a)
  | .destroy i => p.destroy i

def machine : Machine Poller PollerStep := ⟨enabled, perform⟩

/-- The assertions that a function makes before it does anything to its channel. -/
def Aborts (p : Poller) : PollerStep → Prop
  | .start i _ _ _ _ => ∃ fd c, p.owners i = some ⟨fd, .connector c⟩ ∧ c.started_ = true
  | .connectEstablished i =>
      ∃ fd w, p.owners i = some ⟨fd, .connection false w⟩ ∧ w.conn.state_ ≠ .kConnecting
  | .thread i a => ∃ fd established w, p.owners i = some ⟨fd, .connection established w⟩ ∧
      w.Aborts a
  | .destroy i => ∃ fd established w, p.owners i = some ⟨fd, .connection established w⟩ ∧
      w.conn.state_ ≠ .kDisconnected
  | _ => False

end Poller

end RpcLearning.Net
