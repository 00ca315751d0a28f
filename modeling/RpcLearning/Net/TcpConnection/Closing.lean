import RpcLearning.Net.TcpConnection.Threads

/-!
# After the close

`handleClose` sets `state_` to `kDisconnected`.  Two things undo that: an exchange of `state_` by a
thread that had looked at it before the close, and a `startRead` that is run after the close.
-/

namespace RpcLearning.Net

namespace TcpConnection

/-! ## What a call does to the state -/

/-- The call has neither changed the state nor closed the connection. -/
structure KeepsState (c c' : TcpConnection) : Prop where
  state : c'.state_ = c.state_
  closes : c'.closes = c.closes

theorem KeepsState.refl (c : TcpConnection) : KeepsState c c := ⟨rfl, rfl⟩

theorem KeepsState.trans {c₁ c₂ c₃ : TcpConnection} (h : KeepsState c₁ c₂)
    (h' : KeepsState c₂ c₃) : KeepsState c₁ c₃ :=
  ⟨h'.state.trans h.state, h'.closes.trans h.closes⟩

theorem SameOutput.keepsState {c c' : TcpConnection} (h : SameOutput c c') : KeepsState c c' :=
  ⟨h.state, h.closes⟩

theorem keepsState_writeDirectly {data : List UInt8} {result : WriteResult} {c : TcpConnection}
    {x : Nat × Bool} {c' : TcpConnection} (h : c.writeDirectly data result = .ok (x, c')) :
    KeepsState c c' := by
  unfold writeDirectly at h
  split at h
  · cases h
    exact .refl c
  · split at h
    · cases h
    · cases result with
      | failed errno =>
          cases h
          exact .refl c
      | wrote n =>
          simp only [Except.ok.injEq, Prod.mk.injEq] at h
          obtain ⟨-, rfl⟩ := h
          split
          · refine KeepsState.trans ?_ (sameOutput_notifyComplete _).keepsState
            exact ⟨rfl, rfl⟩
          · exact ⟨rfl, rfl⟩

theorem keepsState_sendInLoop {data : List UInt8} {result : WriteResult} {c c' : TcpConnection}
    (h : c.sendInLoop data result = .ok c') : KeepsState c c' := by
  unfold sendInLoop at h
  split at h
  · cases h
    exact .refl c
  · obtain ⟨⟨⟨n, faultError⟩, c₁⟩, hd, h⟩ := Exec.bind_eq_ok.mp h
    have h₁ := keepsState_writeDirectly hd
    dsimp only at h
    split at h
    · obtain ⟨b, -, h⟩ := Exec.bind_eq_ok.mp h
      obtain ⟨ch, -, h⟩ := Exec.bind_eq_ok.mp h
      cases h
      have h₂ := (sameOutput_notifyHighWater (data.length - n) c₁).keepsState
      exact h₁.trans ⟨h₂.state, h₂.closes⟩
    · cases h
      exact h₁

theorem keepsState_shutdownInLoop (c : TcpConnection) : KeepsState c c.shutdownInLoop := by
  unfold shutdownInLoop
  split <;> exact ⟨rfl, rfl⟩

theorem keepsState_handleWrite {result : WriteResult} {c c' : TcpConnection}
    (h : c.handleWrite result = .ok c') : KeepsState c c' := by
  unfold handleWrite at h
  split at h
  · cases h
    exact .refl c
  split at h
  · cases h
  split at h
  · cases h
  cases result with
  | failed errno =>
      cases h
      exact .refl c
  | wrote n =>
      obtain ⟨b, -, h⟩ := Exec.bind_eq_ok.mp h
      dsimp only at h
      split at h
      · obtain ⟨ch, -, h⟩ := Exec.bind_eq_ok.mp h
        cases h
        refine KeepsState.trans ?_ (sameOutput_notifyComplete _).keepsState
        split
        · refine KeepsState.trans ?_ (keepsState_shutdownInLoop _)
          exact ⟨rfl, rfl⟩
        · exact ⟨rfl, rfl⟩
      · cases h
        exact ⟨rfl, rfl⟩

theorem keepsState_stopRead {c c' : TcpConnection} (h : c.stopRead = .ok c') :
    KeepsState c c' := by
  unfold stopRead at h
  split at h
  · obtain ⟨ch, -, h⟩ := Exec.bind_eq_ok.mp h
    cases h
    exact ⟨rfl, rfl⟩
  · cases h
    exact .refl c

theorem keepsState_startRead {c c' : TcpConnection} (h : c.startRead = .ok c') :
    KeepsState c c' := by
  unfold startRead at h
  split at h
  · obtain ⟨ch, -, h⟩ := Exec.bind_eq_ok.mp h
    cases h
    exact ⟨rfl, rfl⟩
  · cases h
    exact .refl c

/-! ## Closed connections -/

/-- The connection has been closed, once, and its channel is not registered any more. -/
structure Closed (c : TcpConnection) : Prop where
  state : c.state_ = .kDisconnected
  closes : c.closes = 1
  events : c.channel_.events_ = 0
  unregistered : c.channel_.state_ = .OUT

/-- Either the connection has not been closed yet, or it is closed. -/
def ClosedOnce (c : TcpConnection) : Prop :=
  c.Closed ∨ (c.state_ ≠ .kDisconnected ∧ c.closes = 0)

theorem KeepsState.closedOnce {c c' : TcpConnection} (h : KeepsState c c')
    (hc : c.state_ ≠ .kDisconnected ∧ c.closes = 0) : c'.ClosedOnce :=
  .inr ⟨by rw [h.state]; exact hc.1, by rw [h.closes]; exact hc.2⟩

theorem closed_handleClose {c c' : TcpConnection} (h : c.handleClose = .ok c')
    (hc : c.closes = 0) : c'.Closed := by
  unfold handleClose at h
  split at h
  · obtain ⟨ch, hd, h⟩ := Exec.bind_eq_ok.mp h
    cases h
    have hev : ch.events_ = 0 ∧ ch.state_ = .OUT := by
      unfold Channel.disableAll Channel.update at hd
      split at hd
      · cases hd
      · simp only [Channel.isNoneEvents, decide_true, Bool.true_eq_false, if_false,
          Except.ok.injEq] at hd
        rw [← hd]
        exact ⟨rfl, rfl⟩
    exact ⟨rfl, by simp [hc], hev.1, hev.2⟩
  · cases h

theorem closedOnce_handleRead {result : ReadResult} {c c' : TcpConnection}
    (h : c.handleRead result = .ok c') (hc : c.state_ ≠ .kDisconnected ∧ c.closes = 0) :
    c'.ClosedOnce := by
  unfold handleRead at h
  rw [if_neg hc.1] at h
  cases result with
  | endOfStream => exact .inl (closed_handleClose h hc.2)
  | failed =>
      cases h
      exact .inr hc
  | received =>
      cases h
      exact .inr hc

theorem closedOnce_forceCloseInLoop {c c' : TcpConnection} (h : c.forceCloseInLoop = .ok c')
    (hc : c.state_ ≠ .kDisconnected ∧ c.closes = 0) : c'.ClosedOnce := by
  unfold forceCloseInLoop at h
  rw [if_pos hc.1] at h
  exact .inl (closed_handleClose h hc.2)

namespace Closed

variable {c c' : TcpConnection} (hc : c.Closed)
include hc

theorem sendInLoop {data : List UInt8} {result : WriteResult} :
    c.sendInLoop data result = .ok c :=
  if_pos hc.state

theorem shutdownInLoop : c.shutdownInLoop = c := if_neg fun h ↦ h.1 hc.state

theorem forceCloseInLoop : c.forceCloseInLoop = .ok c := if_neg fun h ↦ h hc.state

theorem stopRead : c.stopRead = .ok c := by
  unfold TcpConnection.stopRead
  rw [Channel.isReading_of_events_eq_zero hc.events]
  rfl

theorem handleWrite {result : WriteResult} : c.handleWrite result = .ok c := if_pos hc.state

theorem handleRead {result : ReadResult} : c.handleRead result = .error .assertion :=
  if_pos hc.state

theorem handleClose : c.handleClose = .error .assertion := by
  refine if_neg fun h ↦ ?_
  rcases h with h | h
  · rw [hc.state] at h
    cases h
  · rw [hc.state] at h
    cases h

/-- `startRead` on a closed connection registers its channel again. -/
theorem exists_startRead : ∃ c', c.startRead = .ok c' ∧ c'.channel_.state_ = .IN := by
  have hr := Channel.isReading_of_events_eq_zero hc.events
  have hne : c.channel_.events_ ||| (EPOLLIN ||| EPOLLPRI) ≠ 0 := by
    rw [hc.events]
    decide
  obtain ⟨ch, hu, he, hp⟩ := Channel.exists_update
    (c := { c.channel_ with events_ := c.channel_.events_ ||| (EPOLLIN ||| EPOLLPRI) }) (.inr hne)
  refine ⟨{ c with channel_ := ch }, ?_, hp.mpr (by rw [he]; exact hne)⟩
  rw [TcpConnection.startRead, hr, if_pos rfl, Channel.enableRead, hu, Exec.ok_bind]

end Closed

end TcpConnection

namespace Threads

/-- No thread exchanges the state of a closed connection, and no `startRead` runs on one. -/
def KeepsClosed (w : Threads) : ThreadStep → Prop
  | .shutdownExchange _ => w.conn.state_ ≠ .kDisconnected
  | .forceCloseExchange => w.conn.state_ ≠ .kDisconnected
  | .startReadHere => w.conn.state_ ≠ .kDisconnected
  | .runTask _ => ∀ ts, w.queue.tasks = .startRead :: ts → w.conn.state_ ≠ .kDisconnected
  | _ => True

/-- Once the connection is disconnected it stays so, `closeCallback_` has run once and is not run
again, and there are no more calls of `epoll_ctl` for its channel, which is not registered. -/
def Final (m : Machine Threads ThreadStep) (w₀ : Threads) : Prop :=
  ∀ as w bs w', m.Runs w₀ as (.ok w) → w.conn.state_ = .kDisconnected → m.Runs w bs (.ok w') →
    w'.conn.state_ = .kDisconnected ∧ w'.conn.closes = 1 ∧
      w'.conn.channel_.ctls = w.conn.channel_.ctls ∧ w'.conn.channel_.state_ = .OUT

open TcpConnection

@[simp] theorem conn_push (t : ConnTask) (w : Threads) : (w.push t).conn = w.conn := by
  cases t <;> rfl

/-- What a step can do to the connection, and when it can change the state without a close. -/
inductive Effect (w : Threads) (a : ThreadStep) : TcpConnection → Prop
  | none : Effect w a w.conn
  | exchange (hk : w.KeepsClosed a → w.conn.state_ ≠ .kDisconnected) :
      Effect w a w.conn.disconnecting
  | shutdown (hd : w.conn.state_ ≠ .kDisconnected) :
      Effect w a w.conn.disconnecting.shutdownInLoop
  | sendInLoop {data : List UInt8} {result : WriteResult} {c : TcpConnection}
      (h : w.conn.sendInLoop data result = .ok c) : Effect w a c
  | shutdownInLoop : Effect w a w.conn.shutdownInLoop
  | forceCloseInLoop {c : TcpConnection} (h : w.conn.forceCloseInLoop = .ok c) : Effect w a c
  | stopRead {c : TcpConnection} (h : w.conn.stopRead = .ok c) : Effect w a c
  | startRead {c : TcpConnection} (hk : w.KeepsClosed a → w.conn.state_ ≠ .kDisconnected)
      (h : w.conn.startRead = .ok c) : Effect w a c
  | handleRead {result : ReadResult} {c : TcpConnection} (h : w.conn.handleRead result = .ok c) :
      Effect w a c
  | handleWrite {result : WriteResult} {c : TcpConnection}
      (h : w.conn.handleWrite result = .ok c) : Effect w a c
  | handleClose {c : TcpConnection} (h : w.conn.handleClose = .ok c) : Effect w a c

/-- A step of another thread touches the connection only where it exchanges the state. -/
theorem effect_perform {w w' : Threads} {a : ThreadStep} (h : w.perform a = .ok w') :
    Effect w a w'.conn := by
  cases a with
  | send data =>
      cases h
      unfold Threads.send
      split <;> exact .none
  | shutdown =>
      simp only [perform, Threads.shutdown] at h
      split at h
      · cases h
      · cases h
        exact .none
  | shutdownExchange i =>
      simp only [perform] at h
      split at h
      · cases h
        unfold Threads.shutdownExchange
        split <;> exact .exchange id
      · cases h
        exact .none
  | forceClose =>
      cases h
      unfold Threads.forceClose
      split <;> exact .none
  | forceCloseExchange =>
      cases h
      unfold Threads.forceCloseExchange
      split <;> exact .exchange id
  | stopRead =>
      cases h
      exact .none
  | startRead =>
      cases h
      exact .none
  | push i =>
      simp only [perform] at h
      split at h
      · cases h
        rw [conn_push]
        exact .none
      · cases h
        exact .none
  | sendHere data result =>
      simp only [perform, sendHere] at h
      split at h
      · cases h
        exact .none
      · obtain ⟨c, hs, h⟩ := Exec.bind_eq_ok.mp h
        cases h
        exact .sendInLoop hs
  | shutdownHere =>
      simp only [perform, shutdownHere] at h
      split at h
      · cases h
      next hd =>
        split at h
        · cases h
          exact .shutdown hd
        · cases h
          exact .exchange fun _ ↦ hd
  | forceCloseHere =>
      cases h
      unfold forceCloseHere
      split
      · next hd => exact .exchange fun _ ↦ hd
      · exact .none
  | stopReadHere =>
      obtain ⟨c, hs, h⟩ := Exec.bind_eq_ok.mp h
      cases h
      exact .stopRead hs
  | startReadHere =>
      obtain ⟨c, hs, h⟩ := Exec.bind_eq_ok.mp h
      cases h
      exact .startRead id hs
  | handleRead result =>
      obtain ⟨c, hs, h⟩ := Exec.bind_eq_ok.mp h
      cases h
      exact .handleRead hs
  | handleWrite result =>
      obtain ⟨c, hs, h⟩ := Exec.bind_eq_ok.mp h
      cases h
      exact .handleWrite hs
  | handleClose =>
      obtain ⟨c, hs, h⟩ := Exec.bind_eq_ok.mp h
      cases h
      exact .handleClose hs
  | swap =>
      cases h
      exact .none
  | runTask result =>
      simp only [perform] at h
      split at h
      · next t ts hq =>
        cases t with
        | sendInLoop s =>
            obtain ⟨c, hs, h⟩ := Exec.bind_eq_ok.mp h
            cases h
            exact .sendInLoop hs
        | shutdownInLoop =>
            cases h
            exact .shutdownInLoop
        | forceCloseInLoop =>
            obtain ⟨c, hs, h⟩ := Exec.bind_eq_ok.mp h
            cases h
            exact .forceCloseInLoop hs
        | stopRead =>
            obtain ⟨c, hs, h⟩ := Exec.bind_eq_ok.mp h
            cases h
            exact .stopRead hs
        | startRead =>
            obtain ⟨c, hs, h⟩ := Exec.bind_eq_ok.mp h
            cases h
            exact .startRead (fun hk ↦ hk ts hq) hs
      · cases h
        exact .none

/-- A closed connection stays as it is. -/
theorem Effect.conn_eq {w : Threads} {a : ThreadStep} {c : TcpConnection} (h : Effect w a c)
    (hc : w.conn.Closed) (hk : w.KeepsClosed a) : c = w.conn := by
  cases h with
  | none => rfl
  | exchange hd => exact absurd hc.state (hd hk)
  | shutdown hd => exact absurd hc.state hd
  | sendInLoop h => exact Except.ok.inj (h.symm.trans hc.sendInLoop)
  | shutdownInLoop => exact hc.shutdownInLoop
  | forceCloseInLoop h => exact Except.ok.inj (h.symm.trans hc.forceCloseInLoop)
  | stopRead h => exact Except.ok.inj (h.symm.trans hc.stopRead)
  | startRead hd h => exact absurd hc.state (hd hk)
  | handleRead h => cases h.symm.trans hc.handleRead
  | handleWrite h => exact Except.ok.inj (h.symm.trans hc.handleWrite)
  | handleClose h => cases h.symm.trans hc.handleClose

/-- A connection that was not closed is closed at most once. -/
theorem Effect.closedOnce {w : Threads} {a : ThreadStep} {c : TcpConnection} (h : Effect w a c)
    (hc : w.conn.state_ ≠ .kDisconnected ∧ w.conn.closes = 0) : c.ClosedOnce := by
  have hdis : w.conn.disconnecting.state_ ≠ .kDisconnected ∧ w.conn.disconnecting.closes = 0 :=
    ⟨nofun, hc.2⟩
  cases h with
  | none => exact .inr hc
  | exchange hd => exact .inr hdis
  | shutdown hd => exact (keepsState_shutdownInLoop w.conn.disconnecting).closedOnce hdis
  | sendInLoop h => exact (keepsState_sendInLoop h).closedOnce hc
  | shutdownInLoop => exact (keepsState_shutdownInLoop w.conn).closedOnce hc
  | forceCloseInLoop h => exact closedOnce_forceCloseInLoop h hc
  | stopRead h => exact (keepsState_stopRead h).closedOnce hc
  | startRead hd h => exact (keepsState_startRead h).closedOnce hc
  | handleRead h => exact closedOnce_handleRead h hc
  | handleWrite h => exact (keepsState_handleWrite h).closedOnce hc
  | handleClose h => exact .inl (closed_handleClose h hc.2)

/-- In runs whose steps keep what is closed, the close is final. -/
theorem final_of_keepsClosed {c : TcpConnection} (hc : c.state_ ≠ .kDisconnected)
    (hz : c.closes = 0) : Final (machine.restrict KeepsClosed) (start c) := by
  intro as w bs w' h hd h'
  have hw : w.conn.ClosedOnce := by
    refine h.preserves (I := fun _ w ↦ w.conn.ClosedOnce) (.inr ⟨hc, hz⟩) ?_
    rintro _ w a w' (hi | hi) he hp
    · rw [(effect_perform hp).conn_eq hi he.2]
      exact .inl hi
    · exact (effect_perform hp).closedOnce hi
  have hcl : w.conn.Closed := hw.resolve_right fun hn ↦ hn.1 hd
  have hsame : w'.conn = w.conn := by
    refine h'.preserves (I := fun _ w' ↦ w'.conn = w.conn) rfl ?_
    intro _ w₁ a w₂ hi he hp
    rw [(effect_perform hp).conn_eq (hi ▸ hcl) he.2, hi]
  rw [hsame]
  exact ⟨hd, hcl.closes, rfl, hcl.unregistered⟩

theorem final_of_keepsClosed_established :
    Final (machine.restrict KeepsClosed) (start (established 0 false false)) :=
  final_of_keepsClosed nofun rfl

/-- A thread looks at the state in `forceClose`, the peer closes the connection, and the thread
exchanges the state. -/
theorem not_final : ¬ Final machine (start (established 0 false false)) := by
  intro h
  let c := established 0 false false
  let c₂ : TcpConnection :=
    { c with state_ := .kDisconnected, channel_ := ⟨0, .OUT, [.ADD, .DEL]⟩, closes := 1 }
  let w₁ : Threads := { start c with forceCloses := 1 }
  let w₂ : Threads := { w₁ with conn := c₂ }
  have p₁ : machine.perform (start c) .forceClose = .ok w₁ := rfl
  have p₂ : machine.perform w₁ (.handleRead .endOfStream) = .ok w₂ := rfl
  have e₁ : machine.enabled (start c) .forceClose := trivial
  have e₂ : machine.enabled w₁ (.handleRead .endOfStream) := rfl
  have e₃ : machine.enabled w₂ .forceCloseExchange := Nat.one_pos
  have hr := h _ w₂ _ _ ((Machine.Runs.nil.then e₁ p₁).then e₂ p₂) rfl (Machine.Runs.nil.snoc e₃)
  cases hr.1

end Threads

end RpcLearning.Net
