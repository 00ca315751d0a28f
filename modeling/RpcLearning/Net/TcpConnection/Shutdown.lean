import RpcLearning.Net.TcpConnection.Threads

/-!
# Shutting down after sending

`SHUT_WR` is performed by the task `shutdownInLoop`, by a `shutdown` of the loop thread itself, and
by the `handleWrite` that empties the buffer of a disconnecting connection.  The task comes after
the sends that were queued before it; the other two do not look at the queue.
-/

namespace RpcLearning.Net.Threads

/-! ## What is to be shown -/

/-- The steps of sending and shutting down, in which no write of `sendInLoop` reports that the peer
is gone. -/
def Sending (w : Threads) : ThreadStep → Prop
  | .send _ => True
  | .shutdown => True
  | .shutdownExchange _ => True
  | .push _ => True
  | .sendHere _ result => w.conn.Reachable result
  | .shutdownHere => True
  | .handleWrite _ => True
  | .swap => True
  | .runTask result => ∀ t ts, w.queue.tasks = t :: ts →
      t = .shutdownInLoop ∨ ((∃ s, t = .sendInLoop s) ∧ w.conn.Reachable result)
  | _ => False

/-- The socket has taken every byte of the sends that are due. -/
def AllAccepted (w : Threads) : Prop :=
  ∃ before after, w.executed = before ++ after ∧
    (∀ s ∈ w.due, s.data ≠ [] → s ∈ before) ∧
    (before.map Send.data).flatten <+: w.conn.accepted

/-- One of the sends, of some bytes, is still in the queue. -/
def Queued (sends : List Send) (w : Threads) : Prop :=
  ∃ s ∈ sends, s.data ≠ [] ∧ .sendInLoop s ∈ w.queue.order

/-- A step that performs `SHUT_WR` without being a task of the queue finds no send in the queue
that had returned before the call of `shutdown`. -/
def Graceful (w : Threads) : ThreadStep → Prop
  | .shutdownHere => w.conn.state_ = .kConnected → w.conn.channel_.isWriting = false →
      ¬ w.Queued w.returned
  | .handleWrite result => w.conn.state_ = .kDisconnecting →
      result = .wrote w.conn.outputBuffer_.readableBytes → ¬ w.Queued w.due
  | _ => True

/-! ## The invariant -/

/-- The stream is what was executed, sends that returned are executed or queued, and where
`shutdownInLoop` is queued the sends that are due are executed or queued before it. -/
structure Orderly (w : Threads) : Prop where
  alive : w.conn.state_ = .kConnected ∨ w.conn.state_ = .kDisconnecting
  buffered : w.conn.Buffered
  stream : w.conn.stream = (w.executed.map Send.data).flatten
  returned : ∀ s ∈ w.returned, s ∈ w.executed ∨ .sendInLoop s ∈ w.queue.order
  calls : ∀ l ∈ w.shutdowns, l ⊆ w.returned
  due : w.due ⊆ w.returned
  connected : w.conn.state_ = .kConnected →
    .shutdownInLoop ∉ w.queue.order ++ w.pushing ∧ w.conn.shutdowns = 0
  first : ∀ pre post, w.queue.order = pre ++ .shutdownInLoop :: post →
    ∀ s ∈ w.due, s ∈ w.executed ∨ .sendInLoop s ∈ pre
  accepted : 0 < w.conn.shutdowns → w.AllAccepted

theorem AllAccepted.mono {w w' : Threads} (h : w.AllAccepted) (hd : w'.due = w.due)
    (he : w.executed <+: w'.executed) (ha : w.conn.accepted <+: w'.conn.accepted) :
    w'.AllAccepted := by
  obtain ⟨before, after, hsplit, hdue, hacc⟩ := h
  obtain ⟨more, he⟩ := he
  refine ⟨before, after ++ more, ?_, by rwa [hd], hacc.trans ha⟩
  rw [← he, hsplit, List.append_assoc]

/-- Where nothing waits in the buffer, all that was executed has been taken. -/
theorem allAccepted_of_empty {w : Threads}
    (hs : w.conn.stream = (w.executed.map Send.data).flatten)
    (hr : w.conn.outputBuffer_.readable = [])
    (hd : ∀ s ∈ w.due, s.data ≠ [] → s ∈ w.executed) : w.AllAccepted := by
  refine ⟨w.executed, [], (List.append_nil _).symm, hd, ?_⟩
  rw [← hs, TcpConnection.stream, hr, List.append_nil]

theorem Orderly.executed_of_not_queued {w : Threads} {sends : List Send} (h : w.Orderly)
    (hs : sends ⊆ w.returned) (hq : ¬ w.Queued sends) :
    ∀ s ∈ sends, s.data ≠ [] → s ∈ w.executed := by
  intro s hm hne
  refine (h.returned s (hs hm)).resolve_right fun hin ↦ hq ⟨s, hm, hne, hin⟩

theorem Orderly.not_disconnected {w : Threads} (h : w.Orderly) :
    w.conn.state_ ≠ .kDisconnected := by
  rcases h.alive with h | h <;> simp [h]

/-! ## Steps -/

/-- A write of nothing new, which does not perform `SHUT_WR`. -/
theorem Orderly.sent_nil {w : Threads} {c : TcpConnection} (h : w.Orderly)
    (hs : TcpConnection.Sent [] w.conn c) (hsh : c.shutdowns = w.conn.shutdowns) :
    Orderly { w with conn := c } where
  alive := by
    rw [hs.state]
    exact h.alive
  buffered := hs.buffered
  stream := by
    rw [hs.stream, List.append_nil]
    exact h.stream
  returned := h.returned
  calls := h.calls
  due := h.due
  connected hc := by
    rw [hs.state] at hc
    exact ⟨(h.connected hc).1, hsh.trans (h.connected hc).2⟩
  first := h.first
  accepted hpos := by
    rw [hsh] at hpos
    exact (h.accepted hpos).mono rfl (List.prefix_refl _) hs.accepted

/-- `SHUT_WR` on a connection that is not connected any more. -/
theorem Orderly.shut {w : Threads} {c : TcpConnection} (h : w.Orderly)
    (hs : TcpConnection.Sent [] w.conn c) (hc : w.conn.state_ = .kDisconnecting)
    (hr : c.outputBuffer_.readable = []) (hd : ∀ s ∈ w.due, s.data ≠ [] → s ∈ w.executed) :
    Orderly { w with conn := c } where
  alive := .inr (hs.state.trans hc)
  buffered := hs.buffered
  stream := by
    rw [hs.stream, List.append_nil]
    exact h.stream
  returned := h.returned
  calls := h.calls
  due := h.due
  connected hcon := by
    rw [hs.state, hc] at hcon
    cases hcon
  first := h.first
  accepted _ := by
    refine allAccepted_of_empty ?_ hr hd
    rw [hs.stream, List.append_nil]
    exact h.stream

/-- The exchange of a `shutdown` that finds another one was earlier. -/
theorem Orderly.disconnecting {w : Threads} (h : w.Orderly) (hc : w.conn.state_ ≠ .kConnected) :
    Orderly { w with conn := w.conn.disconnecting } := by
  have hs : w.conn.disconnecting = w.conn := by
    have hst := h.alive.resolve_left hc
    cases hw : w.conn
    simp only [hw] at hst
    simp [TcpConnection.disconnecting, hst]
  rw [hs]
  exact h

/-- Executing a send, whether or not it was in the queue. -/
theorem Orderly.execute {w : Threads} {c : TcpConnection} {s : Send} (h : w.Orderly)
    (hs : TcpConnection.Sent s.data w.conn c) (hsh : c.shutdowns = w.conn.shutdowns) :
    Orderly { w with conn := c, executed := w.executed ++ [s] } where
  alive := by
    rw [hs.state]
    exact h.alive
  buffered := hs.buffered
  stream := by simp [hs.stream, h.stream]
  returned r hr := (h.returned r hr).imp_left fun hm ↦ List.mem_append_left _ hm
  calls := h.calls
  due := h.due
  connected hc := by
    rw [hs.state] at hc
    exact ⟨(h.connected hc).1, hsh.trans (h.connected hc).2⟩
  first pre post ho r hr := (h.first pre post ho r hr).imp_left fun hm ↦ List.mem_append_left _ hm
  accepted hpos := by
    rw [hsh] at hpos
    exact (h.accepted hpos).mono rfl (List.prefix_append _ _) hs.accepted

/-- A send that has been executed returns. -/
theorem Orderly.record {w : Threads} {s : Send} {n : Nat} (h : w.Orderly) (hs : s ∈ w.executed) :
    Orderly { w with nextId := n, returned := w.returned ++ [s] } := by
  refine ⟨h.alive, h.buffered, h.stream, ?_, ?_, ?_, h.connected, h.first, h.accepted⟩
  · intro r hr
    rcases List.mem_append.mp hr with hr | hr
    · exact h.returned r hr
    · rw [List.mem_singleton.mp hr]
      exact .inl hs
  · exact fun l hl ↦ List.Subset.trans (h.calls l hl) (List.subset_append_left _ _)
  · exact List.Subset.trans h.due (List.subset_append_left _ _)

/-- The task at the head of the queue is dropped; if it is a send, it has been executed. -/
theorem Orderly.pop {w : Threads} {t : ConnTask} {ts : List ConnTask} (h : w.Orderly)
    (hq : w.queue.tasks = t :: ts) (he : ∀ s, t = .sendInLoop s → s ∈ w.executed) :
    Orderly { w with queue := ⟨w.queue.pendingTasks_, ts⟩ } := by
  have ho := TaskQueue.order_eq_cons hq
  have hin : ∀ s, ∀ l : List ConnTask, .sendInLoop s ∈ t :: l →
      s ∈ w.executed ∨ .sendInLoop s ∈ l := by
    intro s l hm
    rcases List.mem_cons.mp hm with hm | hm
    · exact .inl (he s hm.symm)
    · exact .inr hm
  refine ⟨h.alive, h.buffered, h.stream, ?_, h.calls, h.due, ?_, ?_, ?_⟩
  · intro s hs
    rcases h.returned s hs with hm | hm
    · exact .inl hm
    · rw [ho] at hm
      exact hin s _ hm
  · intro hc
    refine ⟨fun hm ↦ (h.connected hc).1 ?_, (h.connected hc).2⟩
    rw [ho]
    exact List.mem_cons_of_mem _ hm
  · intro pre post hp s hs
    have hp' : w.queue.order = (t :: pre) ++ .shutdownInLoop :: post := by
      rw [ho]
      exact congrArg (t :: ·) hp
    rcases h.first _ _ hp' s hs with hm | hm
    · exact .inl hm
    · exact hin s _ hm
  · exact fun hpos ↦ (h.accepted hpos).mono rfl (List.prefix_refl _) (List.prefix_refl _)

/-- A task that was waiting to be pushed is pushed. -/
theorem Orderly.push {w : Threads} {i : Nat} {t : ConnTask} (h : w.Orderly)
    (ht : w.pushing[i]? = some t) :
    Orderly ({ w with pushing := w.pushing.eraseIdx i }.push t) := by
  have hmem : t ∈ w.pushing := List.mem_of_getElem? ht
  have hsub : ∀ x ∈ w.pushing.eraseIdx i, x ∈ w.pushing := fun x hx ↦ List.mem_of_mem_eraseIdx hx
  -- what holds of every task that is pushed
  have hw : Orderly { w with pushing := w.pushing.eraseIdx i, queue := w.queue.push t } := by
    refine ⟨h.alive, h.buffered, h.stream, ?_, h.calls, h.due, ?_, ?_, ?_⟩
    · intro s hs
      refine (h.returned s hs).imp_right fun hm ↦ ?_
      rw [TaskQueue.order_push]
      exact List.mem_append_left _ hm
    · intro hc
      refine ⟨fun hm ↦ (h.connected hc).1 ?_, (h.connected hc).2⟩
      rw [TaskQueue.order_push] at hm
      rcases List.mem_append.mp hm with hm | hm
      · rcases List.mem_append.mp hm with hm | hm
        · exact List.mem_append_left _ hm
        · rw [List.mem_singleton.mp hm]
          exact List.mem_append_right _ hmem
      · exact List.mem_append_right _ (hsub _ hm)
    · intro pre post hp s hs
      rw [TaskQueue.order_push] at hp
      rcases List.eq_nil_or_concat post with rfl | ⟨post', x, rfl⟩
      · -- the task is `shutdownInLoop`, and everything else comes before it
        obtain ⟨hpre, -⟩ := List.append_inj' hp rfl
        rw [← hpre]
        exact h.returned s (h.due hs)
      · have hp' : w.queue.order ++ [t] = (pre ++ .shutdownInLoop :: post') ++ [x] := by
          simpa using hp
        obtain ⟨hord, -⟩ := List.append_inj' hp' rfl
        exact h.first pre post' hord s hs
    · exact fun hpos ↦ (h.accepted hpos).mono rfl (List.prefix_refl _) (List.prefix_refl _)
  cases t with
  | sendInLoop s =>
      refine ⟨hw.alive, hw.buffered, hw.stream, ?_, ?_, ?_, hw.connected, hw.first, ?_⟩
      · intro r hr
        rcases List.mem_append.mp hr with hr | hr
        · exact hw.returned r hr
        · rw [List.mem_singleton.mp hr]
          refine .inr ?_
          change _ ∈ (w.queue.push _).order
          rw [TaskQueue.order_push]
          exact List.mem_append_right _ (List.mem_singleton_self _)
      · exact fun l hl ↦ List.Subset.trans (hw.calls l hl) (List.subset_append_left _ _)
      · exact List.Subset.trans hw.due (List.subset_append_left _ _)
      · exact fun hpos ↦ (hw.accepted hpos).mono rfl (List.prefix_refl _) (List.prefix_refl _)
  | shutdownInLoop => exact hw
  | forceCloseInLoop => exact hw
  | stopRead => exact hw
  | startRead => exact hw

/-- The exchange of the `shutdown` that takes effect: no task `shutdownInLoop` is queued yet. -/
theorem Orderly.shutdownExchange {w : Threads} {due : List Send} (h : w.Orderly)
    (hd : due ⊆ w.returned) : (w.shutdownExchange due).Orderly := by
  unfold Threads.shutdownExchange
  split
  · next hc =>
    obtain ⟨hq, hz⟩ := h.connected hc
    refine ⟨.inr rfl, ⟨h.buffered.polled, h.buffered.writing⟩, h.stream, h.returned, h.calls, hd,
      nofun, ?_, ?_⟩
    · intro pre post hp
      refine absurd ?_ hq
      rw [hp]
      simp
    · intro hpos
      have : 0 < w.conn.shutdowns := hpos
      omega
  · next hc => exact h.disconnecting hc

/-- `shutdownInLoop`, called where all sends that are due have been executed. -/
theorem Orderly.shutdownInLoop {w : Threads} (h : w.Orderly)
    (hc : w.conn.state_ = .kDisconnecting)
    (hd : w.conn.channel_.isWriting = false → ∀ s ∈ w.due, s.data ≠ [] → s ∈ w.executed) :
    Orderly { w with conn := w.conn.shutdownInLoop } := by
  have hs := TcpConnection.sent_shutdownInLoop h.buffered
  by_cases hw : w.conn.channel_.isWriting = false
  · refine h.shut hs hc ?_ (hd hw)
    have hr := TcpConnection.readable_eq_nil_of_not_writing h.buffered hw
    unfold TcpConnection.shutdownInLoop
    split <;> exact hr
  · refine h.sent_nil hs ?_
    simp [TcpConnection.shutdownInLoop, hw]

theorem Orderly.shutdownHere {w : Threads} (h : w.Orderly) (hc : w.conn.state_ = .kConnected)
    (hg : w.conn.channel_.isWriting = false → ¬ w.Queued w.returned) :
    Orderly { w with conn := w.conn.disconnecting.shutdownInLoop, due := w.returned } := by
  have hx : Orderly { w with conn := w.conn.disconnecting, due := w.returned } := by
    obtain ⟨hq, hz⟩ := h.connected hc
    refine ⟨.inr rfl, ⟨h.buffered.polled, h.buffered.writing⟩, h.stream, h.returned, h.calls,
      List.Subset.refl _, nofun, ?_, ?_⟩
    · intro pre post hp
      refine absurd ?_ hq
      rw [hp]
      simp
    · intro hpos
      have : 0 < w.conn.shutdowns := hpos
      omega
  exact hx.shutdownInLoop rfl fun hw ↦ h.executed_of_not_queued (List.Subset.refl _) (hg hw)

/-- The task `shutdownInLoop`: the sends that are due came before it. -/
theorem Orderly.runShutdown {w : Threads} {ts : List ConnTask} (h : w.Orderly)
    (hq : w.queue.tasks = .shutdownInLoop :: ts) :
    Orderly { w with
      conn := w.conn.shutdownInLoop, queue := ⟨w.queue.pendingTasks_, ts⟩ } := by
  have hin : w.queue.order =
      [] ++ .shutdownInLoop :: (TaskQueue.mk w.queue.pendingTasks_ ts).order :=
    TaskQueue.order_eq_cons hq
  have hc : w.conn.state_ = .kDisconnecting := by
    refine h.alive.resolve_left fun hc ↦ (h.connected hc).1 ?_
    rw [hin]
    simp
  have hdue : ∀ s ∈ w.due, s ∈ w.executed := fun s hs ↦
    (h.first _ _ hin s hs).resolve_right List.not_mem_nil
  exact (h.shutdownInLoop hc fun _ s hs _ ↦ hdue s hs).pop hq nofun

/-- A step of sending and shutting down that is graceful keeps the order, and fails no
assertion. -/
theorem orderly_perform {w : Threads} {a : ThreadStep} (h : w.Orderly) (he : w.enabled a)
    (ha : w.Sending a) (hg : w.Graceful a) : ∃ w', w.perform a = .ok w' ∧ w'.Orderly := by
  have hnd := h.not_disconnected
  cases a with
  | send data =>
      refine ⟨w.send data, rfl, ?_⟩
      unfold Threads.send
      split
      · exact h
      · refine ⟨h.alive, h.buffered, h.stream, h.returned, h.calls, h.due, ?_, h.first, ?_⟩
        · intro hc
          simpa using h.connected hc
        · exact h.accepted
  | shutdown =>
      refine ⟨_, if_neg hnd, ⟨h.alive, h.buffered, h.stream, h.returned, ?_, h.due, h.connected,
        h.first, ?_⟩⟩
      · intro l hl
        rcases List.mem_append.mp hl with hl | hl
        · exact h.calls l hl
        · rw [List.mem_singleton.mp hl]
          exact List.Subset.refl _
      · exact h.accepted
  | shutdownExchange i =>
      have hi : w.shutdowns[i]? = some w.shutdowns[i] := List.getElem?_eq_getElem he
      have hx : Orderly { w with shutdowns := w.shutdowns.eraseIdx i } :=
        ⟨h.alive, h.buffered, h.stream, h.returned,
          fun l hl ↦ h.calls l (List.mem_of_mem_eraseIdx hl), h.due, h.connected, h.first,
          h.accepted⟩
      refine ⟨_, ?_, hx.shutdownExchange (h.calls _ (List.getElem_mem he))⟩
      simp only [perform, hi]
  | push i =>
      have hi : w.pushing[i]? = some w.pushing[i] := List.getElem?_eq_getElem he
      exact ⟨_, by simp only [perform, hi], h.push hi⟩
  | sendHere data result =>
      by_cases hc : w.conn.state_ = .kConnected
      · obtain ⟨c, hs, hsent, hsh⟩ := TcpConnection.exists_sendInLoop hnd h.buffered he ha
        refine ⟨_, ?_, (h.execute (s := ⟨w.nextId, data⟩) hsent hsh).record (n := w.nextId + 1)
          (List.mem_append_right _ (List.mem_singleton_self _))⟩
        simp only [perform, sendHere, hc, hs, Exec.ok_bind, ne_eq, not_true_eq_false, if_false]
      · exact ⟨w, by simp [perform, sendHere, hc], h⟩
  | shutdownHere =>
      by_cases hc : w.conn.state_ = .kConnected
      · refine ⟨_, ?_, h.shutdownHere hc (hg hc)⟩
        simp [perform, Threads.shutdownHere, hc]
      · exact ⟨_, by simp [perform, shutdownHere, hc, hnd], h.disconnecting hc⟩
  | handleWrite result =>
      obtain ⟨hq, hw, hr⟩ := he
      have hw := hw.resolve_right hnd
      obtain ⟨c, hp, hs, hsh⟩ := TcpConnection.exists_handleWrite hnd h.buffered hw hr
      refine ⟨{ w with conn := c }, by simp only [perform, hp, Exec.ok_bind], ?_⟩
      rcases hsh with hsh | ⟨hd, hres, hread⟩
      · exact h.sent_nil hs hsh
      · exact h.shut hs hd hread (h.executed_of_not_queued h.due (hg hd hres))
  | swap =>
      have ho : w.queue.swap.order = w.queue.order := TaskQueue.order_swap he
      refine ⟨_, rfl, h.alive, h.buffered, h.stream, ?_, h.calls, h.due, ?_, ?_, h.accepted⟩
      · simpa only [ho] using h.returned
      · simpa only [ho] using h.connected
      · simpa only [ho] using h.first
  | runTask result =>
      obtain ⟨t, ts, hq, hr⟩ := he
      rcases ha t ts hq with rfl | ⟨⟨s, rfl⟩, hreach⟩
      · refine ⟨_, ?_, h.runShutdown hq⟩
        simp only [perform, hq, runTask]
      · obtain ⟨c, hs, hsent, hsh⟩ :=
          TcpConnection.exists_sendInLoop hnd h.buffered (hr s rfl) hreach
        refine ⟨_, ?_, (h.execute hsent hsh).pop hq fun r hr ↦ ?_⟩
        · simp only [perform, hq, runTask, hs, Exec.ok_bind]
        · cases hr
          exact List.mem_append_right _ (List.mem_singleton_self _)
  | forceClose => exact ha.elim
  | forceCloseExchange => exact ha.elim
  | stopRead => exact ha.elim
  | startRead => exact ha.elim
  | forceCloseHere => exact ha.elim
  | stopReadHere => exact ha.elim
  | startReadHere => exact ha.elim
  | handleRead result => exact ha.elim
  | handleClose => exact ha.elim

theorem orderly_start (highWaterMark : Nat) (b b' : Bool) :
    (start (TcpConnection.established highWaterMark b b')).Orderly where
  alive := .inl rfl
  buffered := TcpConnection.buffered_established highWaterMark b b'
  stream := Buffer.readable_new kInitialSize
  returned := nofun
  calls := nofun
  due := List.nil_subset _
  connected _ := ⟨List.not_mem_nil, rfl⟩
  first _ _ _ := nofun
  accepted := nofun

/-- In a run whose steps are graceful, `SHUT_WR` is performed only after the socket has taken every
byte of the sends that had returned before `shutdown` was called. -/
theorem allAccepted_of_graceful {highWaterMark : Nat} {b b' : Bool} {as : List ThreadStep}
    {r : Run Threads}
    (h : ((machine.restrict Sending).restrict Graceful).Runs
      (start (TcpConnection.established highWaterMark b b')) as r) :
    ∃ w, r = .ok w ∧ w.conn.stream = (w.executed.map Send.data).flatten ∧
      (0 < w.conn.shutdowns → w.AllAccepted) := by
  obtain ⟨w, hr, ho⟩ := h.invariant (I := fun _ w ↦ w.Orderly) (orderly_start highWaterMark b b')
    fun _ w a ho he ↦ by exact orderly_perform ho he.1.1 he.1.2 he.2
  exact ⟨w, hr, ho.stream, ho.accepted⟩

/-- The loop thread sends and shuts down. -/
theorem allAccepted_of_graceful_here :
    ∃ w, ((machine.restrict Sending).restrict Graceful).Runs
        (start (TcpConnection.established 0 false false))
        [.sendHere [1] (.wrote 1), .shutdownHere] (.ok w) ∧
      w.conn.stream = (w.executed.map Send.data).flatten ∧
      (0 < w.conn.shutdowns → w.AllAccepted) := by
  let c := TcpConnection.established 0 false false
  let s : Send := ⟨0, [1]⟩
  let w : Threads := { start c with
    conn := { c with accepted := [1] }, nextId := 1, returned := [s], executed := [s] }
  let m := (machine.restrict Sending).restrict Graceful
  have hw : c.channel_.isWriting = false := by
    change Channel.isWriting ⟨EPOLLIN ||| EPOLLPRI, .IN, [.ADD]⟩ = false
    decide
  have hs : c.sendInLoop [1] (.wrote 1) = .ok { c with accepted := [1] } := by
    unfold TcpConnection.sendInLoop TcpConnection.writeDirectly
    rw [hw]
    rfl
  have e₁ : m.enabled (start c) (.sendHere [1] (.wrote 1)) :=
    ⟨⟨Nat.le_refl 1, .inr ⟨nofun, nofun⟩⟩, trivial⟩
  have p₁ : m.perform (start c) (.sendHere [1] (.wrote 1)) = .ok w := by
    change sendHere [1] (.wrote 1) (start c) = .ok w
    unfold sendHere
    rw [if_neg (by decide), show (start c).conn = c from rfl, hs]
    rfl
  have e₂ : m.enabled w .shutdownHere := by
    refine ⟨⟨trivial, trivial⟩, fun _ _ ↦ ?_⟩
    rintro ⟨r, -, -, hr⟩
    cases hr
  have hrun := (Machine.Runs.nil.then e₁ p₁).snoc e₂
  obtain ⟨w', hr, hstream, hacc⟩ := allAccepted_of_graceful hrun
  exact ⟨w', hr ▸ hrun, hstream, hacc⟩

/-- Another thread sends, the loop thread shuts down at once. -/
theorem not_allAccepted_of_shutdownHere :
    ∃ w, (machine.restrict Sending).Runs (start (TcpConnection.established 0 false false))
        [.send [1], .push 0, .shutdownHere] (.ok w) ∧
      0 < w.conn.shutdowns ∧ ¬ w.AllAccepted := by
  let c := TcpConnection.established 0 false false
  let s : Send := ⟨0, [1]⟩
  let w₁ : Threads := { start c with pushing := [.sendInLoop s], nextId := 1 }
  let w₂ : Threads := { w₁ with pushing := [], queue := ⟨[.sendInLoop s], []⟩, returned := [s] }
  let w₃ : Threads := { w₂ with conn := c.disconnecting.shutdownInLoop, due := [s] }
  let m := machine.restrict Sending
  have e₁ : m.enabled (start c) (.send [1]) := ⟨trivial, trivial⟩
  have p₁ : m.perform (start c) (.send [1]) = .ok w₁ := rfl
  have e₂ : m.enabled w₁ (.push 0) := ⟨Nat.one_pos, trivial⟩
  have p₂ : m.perform w₁ (.push 0) = .ok w₂ := rfl
  have e₃ : m.enabled w₂ .shutdownHere := ⟨trivial, trivial⟩
  have p₃ : m.perform w₂ .shutdownHere = .ok w₃ := rfl
  refine ⟨w₃, ((Machine.Runs.nil.then e₁ p₁).then e₂ p₂).then e₃ p₃, ?_, ?_⟩
  · have hw : c.disconnecting.channel_.isWriting = false := by
      change Channel.isWriting ⟨EPOLLIN ||| EPOLLPRI, .IN, [.ADD]⟩ = false
      decide
    have hs : c.disconnecting.shutdownInLoop.shutdowns = 1 := by
      unfold TcpConnection.shutdownInLoop
      rw [if_pos ⟨nofun, hw⟩]
      rfl
    change 0 < c.disconnecting.shutdownInLoop.shutdowns
    rw [hs]
    exact Nat.one_pos
  · -- nothing was executed
    rintro ⟨before, after, hsplit, hdue, -⟩
    have hnil : before = [] := (List.append_eq_nil_iff.mp hsplit.symm).1
    have hin := hdue s (List.mem_singleton_self _) (List.cons_ne_nil _ _)
    rw [hnil] at hin
    cases hin

end RpcLearning.Net.Threads
