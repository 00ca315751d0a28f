import RpcLearning.Net.Buffer
import RpcLearning.Net.Channel

/-!
# A connection

`TcpConnection` (`NetServer/TcpConnection.cpp`), as one thread at a time sees it: what each of its
functions does to the state, to the channel, to the output buffer and to the socket.  The outcome
of a system call is an argument of the function that makes it.
-/

namespace RpcLearning.Net

inductive ConnectionState where
  | kConnecting
  | kConnected
  | kDisconnecting
  | kDisconnected
deriving DecidableEq, Repr

inductive Errno where
  | EAGAIN
  | EPIPE
  | ECONNRESET
  | other
deriving DecidableEq, Repr

/-- What a `::write` answers: the number of bytes it has taken, or -1 with an `errno`. -/
inductive WriteResult where
  | wrote (n : Nat)
  | failed (errno : Errno)
deriving DecidableEq, Repr

/-- A write of `len` bytes does not take more than these. -/
def WriteResult.Within (len : Nat) : WriteResult → Prop
  | .wrote n => n ≤ len
  | .failed _ => True

/-- What `readFd` answers in `handleRead`: -1, 0 at the end of the stream, or a count of bytes. -/
inductive ReadResult where
  | failed
  | endOfStream
  | received
deriving DecidableEq, Repr

/-- The callbacks that are put into the loop's queue. -/
inductive Notice where
  | writeComplete
  | highWaterMark (newLen : Nat)
deriving DecidableEq, Repr

/-- A connection, with what it has done to its socket and its loop: the bytes `::write` has taken,
how often `SHUT_WR` was performed and `closeCallback_` was run, and the callbacks it has queued. -/
structure TcpConnection where
  state_ : ConnectionState
  channel_ : Channel
  outputBuffer_ : Buffer
  highWaterMark_ : Nat
  writeCompleteCallback_ : Bool
  highWaterMarkCallback_ : Bool
  accepted : List UInt8
  shutdowns : Nat
  closes : Nat
  notices : List Notice

namespace TcpConnection

/-- `TcpConnection(loop, sockfd, local, peer)`, with the callbacks that were set afterwards. -/
def new (highWaterMark : Nat) (writeCompleteCallback highWaterMarkCallback : Bool) :
    TcpConnection where
  state_ := .kConnecting
  channel_ := Channel.new
  outputBuffer_ := Buffer.new kInitialSize
  highWaterMark_ := highWaterMark
  writeCompleteCallback_ := writeCompleteCallback
  highWaterMarkCallback_ := highWaterMarkCallback
  accepted := []
  shutdowns := 0
  closes := 0
  notices := []

def connectEstablished (c : TcpConnection) : Run TcpConnection :=
  if c.state_ = .kConnecting then do
    let channel_ ← c.channel_.enableRead
    .ok { c with state_ := .kConnected, channel_ }
  else .error .assertion

/-- A connection that has been established. -/
def established (highWaterMark : Nat) (writeCompleteCallback highWaterMarkCallback : Bool) :
    TcpConnection :=
  { new highWaterMark writeCompleteCallback highWaterMarkCallback with
    state_ := .kConnected
    channel_ := ⟨EPOLLIN ||| EPOLLPRI, .IN, [.ADD]⟩ }

theorem connectEstablished_new (highWaterMark : Nat) (b b' : Bool) :
    (new highWaterMark b b').connectEstablished = .ok (established highWaterMark b b') := by
  have h : Channel.new.enableRead = .ok ⟨EPOLLIN ||| EPOLLPRI, .IN, [.ADD]⟩ := by decide
  simp [connectEstablished, new, established, h]

/-! ## Writing -/

def notifyComplete (c : TcpConnection) : TcpConnection :=
  if c.writeCompleteCallback_ then { c with notices := c.notices ++ [.writeComplete] } else c

def notifyHighWater (remain : Nat) (c : TcpConnection) : TcpConnection :=
  let oldLen := c.outputBuffer_.readableBytes
  let newLen := oldLen + remain
  if c.highWaterMarkCallback_ ∧ oldLen < c.highWaterMark_ ∧ c.highWaterMark_ ≤ newLen then
    { c with notices := c.notices ++ [.highWaterMark newLen] }
  else c

/-- The direct write of `sendInLoop`: how many bytes were taken, and whether the peer is gone. -/
def writeDirectly (data : List UInt8) (result : WriteResult) (c : TcpConnection) :
    Run ((Nat × Bool) × TcpConnection) :=
  if c.channel_.isWriting then .ok ((0, false), c)
  else if c.outputBuffer_.readableBytes ≠ 0 then .error .assertion
  else
    match result with
    | .failed errno => .ok ((0, errno = .EPIPE ∨ errno = .ECONNRESET), c)
    | .wrote n =>
      let c := { c with accepted := c.accepted ++ data.take n }
      .ok ((n, false), if data.length - n = 0 then c.notifyComplete else c)

/-- `sendInLoop(data, len)`, where a direct write has `result`. -/
def sendInLoop (data : List UInt8) (result : WriteResult) (c : TcpConnection) :
    Run TcpConnection :=
  -- `kDisconnecting` is let through
  if c.state_ = .kDisconnected then .ok c
  else do
    let ((n, faultError), c) ← c.writeDirectly data result
    let remain := data.length - n
    if faultError = false ∧ 0 < remain then do
      let c := c.notifyHighWater remain
      let outputBuffer_ ← c.outputBuffer_.append (data.drop n)
      let channel_ ← c.channel_.enableWrite
      .ok { c with outputBuffer_, channel_ }
    else .ok c

def shutdownInLoop (c : TcpConnection) : TcpConnection :=
  if c.state_ ≠ .kDisconnected ∧ c.channel_.isWriting = false then
    { c with shutdowns := c.shutdowns + 1 }
  else c

/-- `handleWrite()`, whose write has `result`. -/
def handleWrite (result : WriteResult) (c : TcpConnection) : Run TcpConnection :=
  if c.state_ = .kDisconnected then .ok c
  else if c.outputBuffer_.readableBytes = 0 then .error .assertion
  else if c.channel_.isWriting = false then .error .assertion
  else
    match result with
    | .failed _ => .ok c
    | .wrote n => do
      let taken := c.outputBuffer_.readable.take n
      let outputBuffer_ ← c.outputBuffer_.retrieve n
      let c := { c with outputBuffer_, accepted := c.accepted ++ taken }
      if c.outputBuffer_.readableBytes = 0 then do
        let channel_ ← c.channel_.disableWrite
        let c := { c with channel_ }
        let c := if c.state_ = .kDisconnecting then c.shutdownInLoop else c
        .ok c.notifyComplete
      else .ok c

/-! ## Closing -/

/-- `handleClose()`; `removeChannel` disables all events. -/
def handleClose (c : TcpConnection) : Run TcpConnection :=
  if c.state_ = .kConnected ∨ c.state_ = .kDisconnecting then do
    let channel_ ← c.channel_.disableAll
    .ok { c with state_ := .kDisconnected, channel_, closes := c.closes + 1 }
  else .error .assertion

def forceCloseInLoop (c : TcpConnection) : Run TcpConnection :=
  if c.state_ ≠ .kDisconnected then c.handleClose else .ok c

/-- `stateAtomicGetAndSet(kDisconnecting)`; the state that was replaced stays in the argument. -/
def disconnecting (c : TcpConnection) : TcpConnection := { c with state_ := .kDisconnecting }

/-! ## Reading -/

/-- The task of `stopRead()`. -/
def stopRead (c : TcpConnection) : Run TcpConnection :=
  if c.channel_.isReading then do
    let channel_ ← c.channel_.disableRead
    .ok { c with channel_ }
  else .ok c

/-- The task of `startRead()`. -/
def startRead (c : TcpConnection) : Run TcpConnection :=
  if c.channel_.isReading = false then do
    let channel_ ← c.channel_.enableRead
    .ok { c with channel_ }
  else .ok c

/-- `handleRead()`.  What was read goes to `messageCallback_`, whose calls on the connection are
not part of this function. -/
def handleRead (result : ReadResult) (c : TcpConnection) : Run TcpConnection :=
  if c.state_ = .kDisconnected then .error .assertion
  else
    match result with
    | .endOfStream => c.handleClose
    | .failed => .ok c
    | .received => .ok c

/-! ## What a write does -/

/-- The channel waits for `EPOLLOUT` exactly while there is something to write. -/
structure Buffered (c : TcpConnection) : Prop where
  polled : c.channel_.Polled
  writing : c.channel_.isWriting = true ↔ c.outputBuffer_.readable ≠ []

/-- What the socket has taken, and what is waiting to be written to it. -/
def stream (c : TcpConnection) : List UInt8 := c.accepted ++ c.outputBuffer_.readable

theorem buffered_established (highWaterMark : Nat) (b b' : Bool) :
    (established highWaterMark b b').Buffered where
  polled := by
    have h : EPOLLIN ||| EPOLLPRI ≠ 0 := by decide
    exact ⟨fun _ ↦ h, fun _ ↦ rfl⟩
  writing := by
    have hw : (established highWaterMark b b').channel_.isWriting = false := by
      change Channel.isWriting ⟨EPOLLIN ||| EPOLLPRI, .IN, [.ADD]⟩ = false
      decide
    have hr : (established highWaterMark b b').outputBuffer_.readable = [] :=
      Buffer.readable_new kInitialSize
    simp [hw, hr]

/-- A write in `sendInLoop` is either not tried, or it does not fail with one of the two errors
that say that the peer is gone. -/
def Reachable (result : WriteResult) (c : TcpConnection) : Prop :=
  c.channel_.isWriting = true ∨ (result ≠ .failed .EPIPE ∧ result ≠ .failed .ECONNRESET)

/-- `c'` is `c` after a write, to the socket or to the output buffer, of `data` that is new to the
stream. -/
structure Sent (data : List UInt8) (c c' : TcpConnection) : Prop where
  buffered : c'.Buffered
  stream : c'.stream = c.stream ++ data
  accepted : c.accepted <+: c'.accepted
  state : c'.state_ = c.state_
  closes : c'.closes = c.closes

/-- The two connections differ in their notices only. -/
structure SameOutput (c c' : TcpConnection) : Prop where
  state : c'.state_ = c.state_
  channel : c'.channel_ = c.channel_
  outputBuffer : c'.outputBuffer_ = c.outputBuffer_
  accepted : c'.accepted = c.accepted
  shutdowns : c'.shutdowns = c.shutdowns
  closes : c'.closes = c.closes

theorem sameOutput_notifyComplete (c : TcpConnection) : SameOutput c c.notifyComplete := by
  unfold notifyComplete
  split <;> exact ⟨rfl, rfl, rfl, rfl, rfl, rfl⟩

theorem sameOutput_notifyHighWater (remain : Nat) (c : TcpConnection) :
    SameOutput c (c.notifyHighWater remain) := by
  unfold notifyHighWater
  dsimp only
  split <;> exact ⟨rfl, rfl, rfl, rfl, rfl, rfl⟩

theorem SameOutput.sent {c c' : TcpConnection} (h : SameOutput c c') (hb : c.Buffered) :
    Sent [] c c' := by
  refine ⟨?_, ?_, ?_, h.state, h.closes⟩
  · constructor
    · rw [h.channel]
      exact hb.polled
    · rw [h.channel, h.outputBuffer]
      exact hb.writing
  · rw [List.append_nil, TcpConnection.stream, h.accepted, h.outputBuffer, TcpConnection.stream]
  · rw [h.accepted]

theorem readable_eq_nil_of_not_writing {c : TcpConnection} (h : c.Buffered)
    (hw : c.channel_.isWriting = false) : c.outputBuffer_.readable = [] := by
  by_contra hne
  rw [h.writing.mpr hne] at hw
  cases hw

/-- The direct write takes bytes only where nothing is waiting. -/
theorem exists_writeDirectly {data : List UInt8} {result : WriteResult} {c : TcpConnection}
    (hb : c.Buffered) (hr : result.Within data.length) (hg : c.Reachable result) :
    ∃ n c', c.writeDirectly data result = .ok ((n, false), c') ∧ n ≤ data.length ∧
      (n = 0 ∨ c.outputBuffer_.readable = []) ∧
      SameOutput { c with accepted := c.accepted ++ data.take n } c' := by
  by_cases hw : c.channel_.isWriting = true
  · refine ⟨0, c, if_pos hw, Nat.zero_le _, .inl rfl, ?_⟩
    rw [List.take_zero, List.append_nil]
    exact ⟨rfl, rfl, rfl, rfl, rfl, rfl⟩
  · have hnil := readable_eq_nil_of_not_writing hb (eq_false_of_ne_true hw)
    have hlen : ¬ c.outputBuffer_.readableBytes ≠ 0 := by
      rw [← Buffer.length_readable, hnil]
      simp
    have hne := hg.resolve_left hw
    unfold writeDirectly
    rw [if_neg hw, if_neg hlen]
    cases result with
    | failed errno =>
        have h1 : errno ≠ .EPIPE := fun h ↦ hne.1 (by rw [h])
        have h2 : errno ≠ .ECONNRESET := fun h ↦ hne.2 (by rw [h])
        refine ⟨0, c, by simp [h1, h2], Nat.zero_le _, .inl rfl, ?_⟩
        rw [List.take_zero, List.append_nil]
        exact ⟨rfl, rfl, rfl, rfl, rfl, rfl⟩
    | wrote n =>
        refine ⟨n, _, rfl, hr, .inr hnil, ?_⟩
        split
        · exact sameOutput_notifyComplete _
        · exact ⟨rfl, rfl, rfl, rfl, rfl, rfl⟩

/-- Sending adds `data` to the stream, and fails no assertion. -/
theorem exists_sendInLoop {data : List UInt8} {result : WriteResult} {c : TcpConnection}
    (hc : c.state_ ≠ .kDisconnected) (hb : c.Buffered) (hr : result.Within data.length)
    (hg : c.Reachable result) :
    ∃ c', c.sendInLoop data result = .ok c' ∧ Sent data c c' ∧ c'.shutdowns = c.shutdowns := by
  obtain ⟨n, c₁, hd, hn, hfirst, hs⟩ := exists_writeDirectly hb hr hg
  have hread : c₁.outputBuffer_.readable = c.outputBuffer_.readable := by rw [hs.outputBuffer]
  have hacc : c₁.accepted = c.accepted ++ data.take n := hs.accepted
  rw [sendInLoop, if_neg hc, hd, Exec.ok_bind]
  by_cases hrem : 0 < data.length - n
  · have hw := sameOutput_notifyHighWater (data.length - n) c₁
    obtain ⟨b, ha, hbr⟩ := Buffer.exists_append (data.drop n) c₁.outputBuffer_
    obtain ⟨ch, he, hwr, hp⟩ := Channel.exists_enableWrite c₁.channel_
    refine ⟨{ c₁.notifyHighWater (data.length - n) with outputBuffer_ := b, channel_ := ch },
      ?_, ?_, ?_⟩
    · simp only [hrem, and_self, if_true, hw.outputBuffer, hw.channel, ha, he, Exec.ok_bind]
    · have hne : b.readable ≠ [] := by
        rw [hbr]
        intro h0
        have hl := congrArg List.length (List.append_eq_nil_iff.mp h0).2
        simp only [List.length_drop, List.length_nil] at hl
        omega
      refine ⟨⟨hp, ?_⟩, ?_, ?_, ?_, ?_⟩
      · simpa [hwr] using hne
      · -- the direct write wrote nothing, or nothing was waiting before it
        simp only [TcpConnection.stream, hw.accepted, hacc, hbr, hread]
        rcases hfirst with rfl | h0
        · simp
        · simp [h0]
      · simp only [hw.accepted, hacc]
        exact List.prefix_append _ _
      · simp only [hw.state, hs.state]
      · simp only [hw.closes, hs.closes]
    · simp only [hw.shutdowns, hs.shutdowns]
  · refine ⟨c₁, by simp [hrem], ⟨⟨?_, ?_⟩, ?_, ?_, hs.state, hs.closes⟩, hs.shutdowns⟩
    · rw [hs.channel]
      exact hb.polled
    · rw [hs.channel, hread]
      exact hb.writing
    · have htake : data.take n = data := List.take_of_length_le (by omega)
      rw [TcpConnection.stream, hacc, hread, htake, TcpConnection.stream]
      rcases hfirst with rfl | h0
      · rw [← htake]
        simp
      · simp [h0]
    · rw [hacc]
      exact List.prefix_append _ _

theorem Sent.trans {d e : List UInt8} {c₁ c₂ c₃ : TcpConnection} (h : Sent d c₁ c₂)
    (h' : Sent e c₂ c₃) : Sent (d ++ e) c₁ c₃ where
  buffered := h'.buffered
  stream := by rw [h'.stream, h.stream, List.append_assoc]
  accepted := h.accepted.trans h'.accepted
  state := h'.state.trans h.state
  closes := h'.closes.trans h.closes

theorem sent_shutdownInLoop {c : TcpConnection} (hb : c.Buffered) :
    Sent [] c c.shutdownInLoop := by
  unfold shutdownInLoop
  split
  · exact ⟨⟨hb.polled, hb.writing⟩, (List.append_nil _).symm, List.prefix_refl _, rfl, rfl⟩
  · exact ⟨hb, (List.append_nil _).symm, List.prefix_refl _, rfl, rfl⟩

/-- What `handleWrite` does after the buffer has been drained. -/
theorem sent_afterDrain {c : TcpConnection} (hb : c.Buffered) :
    Sent [] c (if c.state_ = .kDisconnecting then c.shutdownInLoop else c).notifyComplete ∧
      (if c.state_ = .kDisconnecting then c.shutdownInLoop else c).notifyComplete.outputBuffer_ =
        c.outputBuffer_ ∧
      ((if c.state_ = .kDisconnecting then c.shutdownInLoop else c).notifyComplete.shutdowns =
        c.shutdowns ∨ c.state_ = .kDisconnecting) := by
  split
  · next h =>
    have hn := sameOutput_notifyComplete c.shutdownInLoop
    have hs := sent_shutdownInLoop hb
    refine ⟨hs.trans (hn.sent hs.buffered), ?_, .inr h⟩
    rw [hn.outputBuffer]
    unfold shutdownInLoop
    split <;> rfl
  · have hn := sameOutput_notifyComplete c
    exact ⟨hn.sent hb, hn.outputBuffer, .inl hn.shutdowns⟩

/-- Writing what is waiting keeps the stream, and fails no assertion.  It performs `SHUT_WR` only
where the connection is disconnecting and the write takes all that is waiting. -/
theorem exists_handleWrite {result : WriteResult} {c : TcpConnection}
    (hc : c.state_ ≠ .kDisconnected) (hb : c.Buffered) (hw : c.channel_.isWriting = true)
    (hr : result.Within c.outputBuffer_.readableBytes) :
    ∃ c', c.handleWrite result = .ok c' ∧ Sent [] c c' ∧
      (c'.shutdowns = c.shutdowns ∨
        (c.state_ = .kDisconnecting ∧ result = .wrote c.outputBuffer_.readableBytes ∧
          c'.outputBuffer_.readable = [])) := by
  have hne : c.outputBuffer_.readableBytes ≠ 0 := by
    rw [← Buffer.length_readable]
    exact fun h0 ↦ hb.writing.mp hw (List.length_eq_zero_iff.mp h0)
  unfold handleWrite
  rw [if_neg hc, if_neg hne, if_neg (by simp [hw])]
  cases result with
  | failed errno =>
      refine ⟨c, rfl, ⟨hb, (List.append_nil _).symm, List.prefix_refl _, rfl, rfl⟩, .inl rfl⟩
  | wrote n =>
      obtain ⟨b, hre, hbr⟩ := Buffer.exists_retrieve (b := c.outputBuffer_) hr
      have hstream : c.accepted ++ c.outputBuffer_.readable.take n ++ b.readable = c.stream := by
        rw [hbr, List.append_assoc, List.take_append_drop, TcpConnection.stream]
      simp only [hre, Exec.ok_bind]
      by_cases hb0 : b.readableBytes = 0
      · have hnil : b.readable = [] := by
          rw [← List.length_eq_zero_iff, Buffer.length_readable, hb0]
        obtain ⟨ch, hdw, hwr, hp⟩ := Channel.exists_disableWrite hb.polled hw
        have hsent : Sent [] c { c with
            outputBuffer_ := b, channel_ := ch,
            accepted := c.accepted ++ c.outputBuffer_.readable.take n } := by
          refine ⟨⟨hp, by simp [hwr, hnil]⟩, ?_, List.prefix_append _ _, rfl, rfl⟩
          rw [List.append_nil]
          exact hstream
        obtain ⟨hs, hbuf, hsh⟩ := sent_afterDrain hsent.buffered
        rw [if_pos hb0, hdw, Exec.ok_bind]
        refine ⟨_, rfl, hsent.trans hs, ?_⟩
        rcases hsh with hsh | hsh
        · exact .inl hsh
        · have hlen := congrArg List.length hbr
          rw [hnil, List.length_drop, Buffer.length_readable, List.length_nil] at hlen
          have hn : n = c.outputBuffer_.readableBytes := le_antisymm hr (by omega)
          exact .inr ⟨hsh, by rw [hn], by rw [hbuf]; exact hnil⟩
      · rw [if_neg hb0]
        refine ⟨_, rfl, ⟨⟨hb.polled, ?_⟩, ?_, List.prefix_append _ _, rfl, rfl⟩, .inl rfl⟩
        · have hne' : b.readable ≠ [] := by
            intro h0
            rw [← Buffer.length_readable, h0] at hb0
            exact hb0 rfl
          simp [hw, hne']
        · rw [List.append_nil]
          exact hstream

end TcpConnection

end RpcLearning.Net
