import RpcLearning.Net.TcpConnection.Threads

/-!
# The channel of a connection

`enableRead` makes the channel of a connection wait for urgent data too, and nothing but
`handleClose` ends that.  So the channel of a connection that is open is registered, and
`handleClose`, which takes the registration back, is not run on a connection that is closed: unless
a thread that looked at `state_` before the close exchanges it afterwards.
-/

namespace RpcLearning.Net

namespace TcpConnection

/-- The channel is as it was, or one operation other than `disableAll` was performed on it. -/
def Adjusted (c c' : Channel) : Prop :=
  c' = c ∨ ∃ op, op ≠ Channel.Op.disableAll ∧ c.apply op = .ok c'

/-- The channel is as it was, or one operation was performed on it. -/
def Moved (c c' : Channel) : Prop := c' = c ∨ ∃ op, c.apply op = .ok c'

theorem Adjusted.moved {c c' : Channel} (h : Adjusted c c') : Moved c c' :=
  h.imp_right fun ⟨op, _, hc⟩ ↦ ⟨op, hc⟩

theorem Moved.polled {c c' : Channel} (h : Moved c c') (hp : c.Polled) : c'.Polled := by
  rcases h with rfl | ⟨op, hc⟩
  · exact hp
  · obtain ⟨-, -, -, -, hp'⟩ := Channel.apply_registers hc
    exact hp'

theorem Adjusted.priority {c c' : Channel} (h : Adjusted c c')
    (hb : c.events_.getLsbD 1 = true) : c'.events_.getLsbD 1 = true := by
  rcases h with rfl | ⟨op, hop, hc⟩
  · exact hb
  · exact Channel.priority_apply hop hc hb

/-- The connection has been established and not closed. -/
structure Open (c : TcpConnection) : Prop where
  state : c.state_ = .kConnected ∨ c.state_ = .kDisconnecting
  buffered : c.Buffered
  priority : c.channel_.events_.getLsbD 1 = true

/-- The connection has been established, and it is open unless it is disconnected. -/
structure Live (c : TcpConnection) : Prop where
  polled : c.channel_.Polled
  opened : c.state_ ≠ .kDisconnected → c.Open

theorem live_established (highWaterMark : Nat) (b b' : Bool) :
    (established highWaterMark b b').Live := by
  have hb := buffered_established highWaterMark b b'
  refine ⟨hb.polled, fun _ ↦ ⟨.inl rfl, hb, ?_⟩⟩
  change (EPOLLIN ||| EPOLLPRI).getLsbD 1 = true
  decide

/-- What a call that neither exchanges the state nor closes the connection leaves. -/
structure Goes (c c' : TcpConnection) : Prop where
  moved : Moved c.channel_ c'.channel_
  live : c'.Live

variable {c c' : TcpConnection}

theorem Live.refl (h : c.Live) : Goes c c := ⟨.inl rfl, h⟩

/-- An operation that keeps the buffer in step with the channel. -/
theorem Live.adjust (h : c.Live) (ha : Adjusted c.channel_ c'.channel_)
    (hs : c'.state_ = c.state_) (hb : c.state_ ≠ .kDisconnected → c'.Buffered) : Goes c c' := by
  refine ⟨ha.moved, ha.moved.polled h.polled, fun hd ↦ ?_⟩
  rw [hs] at hd
  exact ⟨hs ▸ (h.opened hd).state, hb hd, ha.priority (h.opened hd).priority⟩

theorem Open.registered (h : c.Open) (hp : c.channel_.Polled) : c.channel_.state_ = .IN := by
  refine hp.mpr fun h0 ↦ ?_
  have hb := h.priority
  rw [h0] at hb
  exact absurd hb (by decide)

/-! ## Sending and writing -/

/-- A write that finds the peer gone leaves the connection as it is. -/
theorem sendInLoop_gone {data : List UInt8} {result : WriteResult}
    (hc : c.state_ ≠ .kDisconnected) (hb : c.Buffered) (hg : ¬ c.Reachable result) :
    c.sendInLoop data result = .ok c := by
  obtain ⟨hw, hr⟩ := not_or.mp hg
  have hw' : c.channel_.isWriting = false := Bool.eq_false_of_not_eq_true hw
  have hlen : c.outputBuffer_.readableBytes = 0 := by
    rw [← Buffer.length_readable, readable_eq_nil_of_not_writing hb hw', List.length_nil]
  have hgone : result = .failed .EPIPE ∨ result = .failed .ECONNRESET := by
    rcases not_and_or.mp hr with h | h
    · exact .inl (not_not.mp h)
    · exact .inr (not_not.mp h)
  have hdirect : c.writeDirectly data result = .ok ((0, true), c) := by
    rcases hgone with rfl | rfl
    · exact (if_neg hw).trans (if_neg (not_not.mpr hlen))
    · exact (if_neg hw).trans (if_neg (not_not.mpr hlen))
  rw [sendInLoop, if_neg hc, hdirect]
  rfl

theorem adjusted_sendInLoop {data : List UInt8} {result : WriteResult}
    (h : c.sendInLoop data result = .ok c') : Adjusted c.channel_ c'.channel_ := by
  unfold sendInLoop at h
  split at h
  · cases h
    exact .inl rfl
  obtain ⟨⟨⟨n, faultError⟩, c₁⟩, hd, h⟩ := Exec.bind_eq_ok.mp h
  have hch : c₁.channel_ = c.channel_ := by
    unfold writeDirectly at hd
    split at hd
    · cases hd
      rfl
    split at hd
    · cases hd
    cases result with
    | failed errno =>
        cases hd
        rfl
    | wrote n =>
        simp only [Except.ok.injEq, Prod.mk.injEq] at hd
        obtain ⟨-, rfl⟩ := hd
        split
        · exact (sameOutput_notifyComplete _).channel
        · rfl
  dsimp only at h
  split at h
  · obtain ⟨b, -, h⟩ := Exec.bind_eq_ok.mp h
    obtain ⟨ch, he, h⟩ := Exec.bind_eq_ok.mp h
    cases h
    rw [(sameOutput_notifyHighWater _ _).channel, hch] at he
    exact .inr ⟨.enableWrite, nofun, he⟩
  · cases h
    exact .inl hch

theorem Live.sendInLoop (h : c.Live) {data : List UInt8} {result : WriteResult}
    (hr : result.Within data.length) : ∃ c', c.sendInLoop data result = .ok c' ∧ Goes c c' := by
  by_cases hd : c.state_ = .kDisconnected
  · exact ⟨c, if_pos hd, h.refl⟩
  by_cases hg : c.Reachable result
  · obtain ⟨c', hok, hs, -⟩ := exists_sendInLoop hd (h.opened hd).buffered hr hg
    exact ⟨c', hok, h.adjust (adjusted_sendInLoop hok) hs.state fun _ ↦ hs.buffered⟩
  · exact ⟨c, sendInLoop_gone hd (h.opened hd).buffered hg, h.refl⟩

theorem Live.shutdownInLoop (h : c.Live) : Goes c c.shutdownInLoop := by
  unfold TcpConnection.shutdownInLoop
  split
  · refine h.adjust (.inl rfl) rfl fun hd ↦ ?_
    exact ⟨(h.opened hd).buffered.polled, (h.opened hd).buffered.writing⟩
  · exact h.refl

theorem adjusted_handleWrite {result : WriteResult} (h : c.handleWrite result = .ok c') :
    Adjusted c.channel_ c'.channel_ := by
  unfold handleWrite at h
  split at h
  · cases h
    exact .inl rfl
  split at h
  · cases h
  split at h
  · cases h
  cases result with
  | failed errno =>
      cases h
      exact .inl rfl
  | wrote n =>
      obtain ⟨b, -, h⟩ := Exec.bind_eq_ok.mp h
      dsimp only at h
      split at h
      · obtain ⟨ch, he, h⟩ := Exec.bind_eq_ok.mp h
        cases h
        refine .inr ⟨.disableWrite, nofun, ?_⟩
        rw [(sameOutput_notifyComplete _).channel]
        split
        · unfold TcpConnection.shutdownInLoop
          split <;> exact he
        · exact he
      · cases h
        exact .inl rfl

theorem Live.handleWrite (h : c.Live) {result : WriteResult}
    (hw : c.channel_.isWriting = true ∨ c.state_ = .kDisconnected)
    (hr : result.Within c.outputBuffer_.readableBytes) :
    ∃ c', c.handleWrite result = .ok c' ∧ Goes c c' := by
  by_cases hd : c.state_ = .kDisconnected
  · exact ⟨c, if_pos hd, h.refl⟩
  obtain ⟨c', hok, hs, -⟩ := exists_handleWrite hd (h.opened hd).buffered (hw.resolve_right hd) hr
  exact ⟨c', hok, h.adjust (adjusted_handleWrite hok) hs.state fun _ ↦ hs.buffered⟩

/-! ## Closing and reading -/

theorem Live.handleClose (h : c.Live) (hd : c.state_ ≠ .kDisconnected) :
    ∃ c', c.handleClose = .ok c' ∧ Goes c c' := by
  have ho := h.opened hd
  obtain ⟨ch, hch, -, he⟩ := Channel.exists_disableAll (ho.registered h.polled)
  refine ⟨_, by rw [TcpConnection.handleClose, if_pos ho.state, hch, Exec.ok_bind], ?_⟩
  have hmoved : Moved c.channel_ ch := .inr ⟨.disableAll, hch⟩
  exact ⟨hmoved, hmoved.polled h.polled, fun hn ↦ absurd rfl hn⟩

theorem Live.forceCloseInLoop (h : c.Live) : ∃ c', c.forceCloseInLoop = .ok c' ∧ Goes c c' := by
  by_cases hd : c.state_ = .kDisconnected
  · exact ⟨c, if_neg (not_not.mpr hd), h.refl⟩
  · obtain ⟨c', hok, hg⟩ := h.handleClose hd
    exact ⟨c', (if_pos hd).trans hok, hg⟩

theorem Live.handleRead (h : c.Live) (hd : c.state_ ≠ .kDisconnected) (result : ReadResult) :
    ∃ c', c.handleRead result = .ok c' ∧ Goes c c' := by
  unfold TcpConnection.handleRead
  rw [if_neg hd]
  cases result with
  | endOfStream => exact h.handleClose hd
  | failed => exact ⟨c, rfl, h.refl⟩
  | received => exact ⟨c, rfl, h.refl⟩

/-- Reading or not makes no difference to `EPOLLOUT`. -/
theorem buffered_adjust {op : Channel.Op} {ch : Channel} (hb : c.Buffered)
    (hop : op = .enableRead ∨ op = .disableRead) (h : c.channel_.apply op = .ok ch) :
    Buffered { c with channel_ := ch } := by
  obtain ⟨-, -, -, he, hp⟩ := Channel.apply_registers h
  refine ⟨hp, ?_⟩
  have hw : ch.isWriting = c.channel_.isWriting := by
    have hand : ch.events_ &&& EPOLLOUT = c.channel_.events_ &&& EPOLLOUT := by
      rw [he]
      rcases hop with rfl | rfl
      · have h0 : (EPOLLIN ||| EPOLLPRI) &&& EPOLLOUT = 0 := by decide
        rw [Channel.Op.events, BitVec.and_or_distrib_right, h0]
        exact BitVec.or_zero
      · have h0 : ~~~EPOLLIN &&& EPOLLOUT = EPOLLOUT := by decide
        rw [Channel.Op.events, BitVec.and_assoc, h0]
    rw [Channel.isWriting, Channel.isWriting, hand]
  rw [hw]
  exact hb.writing

theorem Live.stopRead (h : c.Live) : ∃ c', c.stopRead = .ok c' ∧ Goes c c' := by
  rw [TcpConnection.stopRead]
  by_cases hr : c.channel_.isReading = true
  · have hin := h.polled.mpr (Channel.events_ne_zero_of_isReading hr)
    obtain ⟨ch, hch, -, -⟩ := Channel.exists_update
      (c := { c.channel_ with events_ := c.channel_.events_ &&& ~~~EPOLLIN }) (.inl hin)
    refine ⟨{ c with channel_ := ch }, ?_, ?_⟩
    · rw [if_pos hr, Channel.disableRead, hch, Exec.ok_bind]
    · exact h.adjust (.inr ⟨.disableRead, nofun, hch⟩) rfl fun hd ↦
        buffered_adjust (h.opened hd).buffered (.inr rfl) hch
  · exact ⟨c, if_neg hr, h.refl⟩

theorem Live.startRead (h : c.Live) : ∃ c', c.startRead = .ok c' ∧ Goes c c' := by
  rw [TcpConnection.startRead]
  by_cases hr : c.channel_.isReading = false
  · obtain ⟨ch, hch, -⟩ := Channel.exists_enableRead c.channel_
    refine ⟨{ c with channel_ := ch }, by rw [if_pos hr, hch, Exec.ok_bind], ?_⟩
    exact h.adjust (.inr ⟨.enableRead, nofun, hch⟩) rfl fun hd ↦
      buffered_adjust (h.opened hd).buffered (.inl rfl) hch
  · exact ⟨c, if_neg hr, h.refl⟩

theorem Live.disconnecting (h : c.Live) (hd : c.state_ ≠ .kDisconnected) :
    Goes c c.disconnecting := by
  have ho := h.opened hd
  exact ⟨.inl rfl, h.polled, fun _ ↦ ⟨.inr rfl, ⟨ho.buffered.polled, ho.buffered.writing⟩,
    ho.priority⟩⟩

/-- The connection has not been established, but another thread may have exchanged its state. -/
def Unborn (c : TcpConnection) : Prop :=
  ∃ highWaterMark b b', c = new highWaterMark b b' ∨ c = (new highWaterMark b b').disconnecting

theorem Unborn.channel (h : c.Unborn) : c.channel_ = Channel.new := by
  obtain ⟨highWaterMark, b, b', rfl | rfl⟩ := h <;> rfl

theorem Unborn.not_disconnected (h : c.Unborn) : c.state_ ≠ .kDisconnected := by
  obtain ⟨highWaterMark, b, b', rfl | rfl⟩ := h <;> exact nofun

theorem Unborn.disconnecting (h : c.Unborn) : c.disconnecting.Unborn := by
  obtain ⟨highWaterMark, b, b', rfl | rfl⟩ := h <;> exact ⟨highWaterMark, b, b', .inr rfl⟩

theorem Unborn.connectEstablished (h : c.Unborn) (hc : c.state_ = .kConnecting) :
    ∃ c', c.connectEstablished = .ok c' ∧ Goes c c' := by
  obtain ⟨highWaterMark, b, b', rfl | rfl⟩ := h
  · have hop : Channel.new.apply .enableRead = .ok ⟨EPOLLIN ||| EPOLLPRI, .IN, [.ADD]⟩ := by decide
    exact ⟨_, connectEstablished_new highWaterMark b b',
      .inr ⟨.enableRead, hop⟩, live_established highWaterMark b b'⟩
  · cases hc

end TcpConnection

/-- The steps of the threads other than the loop's. -/
def ThreadStep.Elsewhere : ThreadStep → Prop
  | .send _ => True
  | .shutdown => True
  | .shutdownExchange _ => True
  | .forceClose => True
  | .forceCloseExchange => True
  | .stopRead => True
  | .startRead => True
  | .push _ => True
  | _ => False

namespace Threads

open TcpConnection

/-- No thread exchanges the state of a closed connection. -/
def ExchangesOpen (w : Threads) : ThreadStep → Prop
  | .shutdownExchange _ => w.conn.state_ ≠ .kDisconnected
  | .forceCloseExchange => w.conn.state_ ≠ .kDisconnected
  | _ => True

/-- The functions that assert that the connection is not closed. -/
def Aborts (w : Threads) : ThreadStep → Prop
  | .shutdown => w.conn.state_ = .kDisconnected
  | .shutdownHere => w.conn.state_ = .kDisconnected
  | .handleRead _ => w.conn.state_ = .kDisconnected
  | .handleClose => w.conn.state_ = .kDisconnected
  | _ => False

variable {w : Threads} {a : ThreadStep}

/-- Such a function fails its assertion before it does anything. -/
theorem perform_of_aborts (h : w.Aborts a) : w.perform a = .error .assertion := by
  cases a with
  | shutdown => exact if_pos h
  | shutdownHere => exact if_pos h
  | handleRead result =>
      have hd : w.conn.state_ = .kDisconnected := h
      have hr : w.conn.handleRead result = .error .assertion := if_pos hd
      rw [perform, hr]
      rfl
  | handleClose =>
      have hd : w.conn.state_ = .kDisconnected := h
      have hr : w.conn.handleClose = .error .assertion := by
        rw [TcpConnection.handleClose, hd]
        rfl
      rw [perform, hr]
      rfl
  | _ => exact h.elim

/-- On a connection that was established, a step that does not start with an assertion succeeds. -/
theorem exists_perform (h : w.conn.Live) (he : w.enabled a) (hx : w.ExchangesOpen a)
    (hn : ¬ w.Aborts a) : ∃ w', w.perform a = .ok w' ∧ Goes w.conn w'.conn := by
  cases a with
  | send data =>
      refine ⟨_, rfl, ?_⟩
      unfold Threads.send
      split <;> exact h.refl
  | shutdown => exact ⟨_, if_neg hn, h.refl⟩
  | shutdownExchange i =>
      have hg := h.disconnecting hx
      simp only [perform]
      split
      · refine ⟨_, rfl, ?_⟩
        unfold Threads.shutdownExchange
        split <;> exact hg
      · exact ⟨_, rfl, h.refl⟩
  | forceClose =>
      refine ⟨_, rfl, ?_⟩
      unfold Threads.forceClose
      split <;> exact h.refl
  | forceCloseExchange =>
      have hg := h.disconnecting hx
      refine ⟨_, rfl, ?_⟩
      unfold Threads.forceCloseExchange
      split <;> exact hg
  | stopRead => exact ⟨_, rfl, h.refl⟩
  | startRead => exact ⟨_, rfl, h.refl⟩
  | push i =>
      simp only [perform]
      split
      next t _ =>
        refine ⟨_, rfl, ?_⟩
        cases t <;> exact h.refl
      · exact ⟨_, rfl, h.refl⟩
  | sendHere data result =>
      simp only [perform, sendHere]
      split
      · exact ⟨_, rfl, h.refl⟩
      · have hr : result.Within data.length := he
        obtain ⟨c, hc, hg⟩ := h.sendInLoop hr
        exact ⟨_, by rw [hc, Exec.ok_bind], hg⟩
  | shutdownHere =>
      have hd : w.conn.state_ ≠ .kDisconnected := hn
      have hg := h.disconnecting hd
      simp only [perform, shutdownHere, if_neg hd]
      split
      · refine ⟨_, rfl, ?_⟩
        have hs := hg.live.shutdownInLoop
        exact ⟨hs.moved, hs.live⟩
      · exact ⟨_, rfl, hg⟩
  | forceCloseHere =>
      refine ⟨_, rfl, ?_⟩
      unfold Threads.forceCloseHere
      split
      next hd => exact h.disconnecting hd
      · exact h.refl
  | stopReadHere =>
      obtain ⟨c, hc, hg⟩ := h.stopRead
      exact ⟨_, by rw [perform, hc, Exec.ok_bind], hg⟩
  | startReadHere =>
      obtain ⟨c, hc, hg⟩ := h.startRead
      exact ⟨_, by rw [perform, hc, Exec.ok_bind], hg⟩
  | handleRead result =>
      obtain ⟨c, hc, hg⟩ := h.handleRead hn result
      exact ⟨_, by rw [perform, hc, Exec.ok_bind], hg⟩
  | handleWrite result =>
      obtain ⟨c, hc, hg⟩ := h.handleWrite he.2.1 he.2.2
      exact ⟨_, by rw [perform, hc, Exec.ok_bind], hg⟩
  | handleClose =>
      obtain ⟨c, hc, hg⟩ := h.handleClose hn
      exact ⟨_, by rw [perform, hc, Exec.ok_bind], hg⟩
  | swap => exact ⟨_, rfl, h.refl⟩
  | runTask result =>
      obtain ⟨t, ts, hq, hr⟩ := he
      simp only [perform, hq]
      cases t with
      | sendInLoop s =>
          obtain ⟨c, hc, hg⟩ := h.sendInLoop (hr s rfl)
          refine ⟨{ w with conn := c, queue.tasks := ts, executed := w.executed ++ [s] }, ?_, hg⟩
          simp only [runTask, hc, Exec.ok_bind]
      | shutdownInLoop => exact ⟨_, rfl, h.shutdownInLoop⟩
      | forceCloseInLoop =>
          obtain ⟨c, hc, hg⟩ := h.forceCloseInLoop
          refine ⟨{ w with conn := c, queue.tasks := ts }, ?_, hg⟩
          simp only [runTask, hc, Exec.ok_bind]
      | stopRead =>
          obtain ⟨c, hc, hg⟩ := h.stopRead
          refine ⟨{ w with conn := c, queue.tasks := ts }, ?_, hg⟩
          simp only [runTask, hc, Exec.ok_bind]
      | startRead =>
          obtain ⟨c, hc, hg⟩ := h.startRead
          refine ⟨{ w with conn := c, queue.tasks := ts }, ?_, hg⟩
          simp only [runTask, hc, Exec.ok_bind]

/-- Before the connection is established, other threads can do no more than exchange its state. -/
theorem exists_perform_elsewhere (h : w.conn.Unborn) (ha : a.Elsewhere) :
    ∃ w', w.perform a = .ok w' ∧ w'.conn.Unborn := by
  cases a with
  | send data =>
      refine ⟨_, rfl, ?_⟩
      unfold Threads.send
      split <;> exact h
  | shutdown => exact ⟨_, if_neg h.not_disconnected, h⟩
  | shutdownExchange i =>
      simp only [perform]
      split
      · refine ⟨_, rfl, ?_⟩
        unfold Threads.shutdownExchange
        split <;> exact h.disconnecting
      · exact ⟨_, rfl, h⟩
  | forceClose =>
      refine ⟨_, rfl, ?_⟩
      unfold Threads.forceClose
      split <;> exact h
  | forceCloseExchange =>
      refine ⟨_, rfl, ?_⟩
      unfold Threads.forceCloseExchange
      split <;> exact h.disconnecting
  | stopRead => exact ⟨_, rfl, h⟩
  | startRead => exact ⟨_, rfl, h⟩
  | push i =>
      simp only [perform]
      split
      next t _ =>
        refine ⟨_, rfl, ?_⟩
        cases t <;> exact h
      · exact ⟨_, rfl, h⟩
  | _ => exact ha.elim

end Threads

end RpcLearning.Net
