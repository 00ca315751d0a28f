import RpcLearning.Net.TcpServer.Stages

/-!
# The life of a connection

What every step of the server does to the stages of the connections, and what follows for the
callbacks of a connection and for `connections_` in every run.
-/

namespace RpcLearning.Net

namespace Server

variable {s s' : Server} {i io n : Nat} {g : Stage} {place : Option Nat}

/-! ## What is run for a connection -/

theorem inConn_eq {l j : Nat} {f : TcpConnection → Run TcpConnection}
    (h : s.inConn l j f = .ok s') :
    ∃ c tcp, s.conns[j]? = some c ∧ l = c.loop_ ∧ f c.tcp = .ok tcp ∧
      s' = (s.setConn j { c with tcp }).call l
        (List.replicate (tcp.closes - c.tcp.closes) (.closeCallback_ j)) := by
  unfold inConn at h
  split at h
  next => cases h
  next c hc =>
    split at h
    next => cases h
    next hl =>
      obtain ⟨tcp, hf, h⟩ := Exec.bind_eq_ok.mp h
      cases h
      exact ⟨c, tcp, hc, not_not.mp hl, hf, rfl⟩

/-- A function of a connection is run, which concerns no other. -/
theorem Seen.inConn_ne (h : s.Seen i io g n place) {l j : Nat} (hj : j ≠ i)
    {f : TcpConnection → Run TcpConnection} (he : s.inConn l j f = .ok s') :
    s'.Seen i io g n place := by
  obtain ⟨c, tcp, -, -, -, rfl⟩ := inConn_eq he
  refine (h.setConn_ne hj _).adds_other (adds_call ..) fun m hm hmi ↦ ?_
  rw [List.eq_of_mem_replicate hm] at hmi
  exact hj (Option.some.inj hmi)

/-- A function that closes a connection that is up sees to it that `closeCallback_` is next. -/
theorem At.inConn (h : s.At i io g) (hg : g.callbacks ≠ []) {l : Nat}
    {f : TcpConnection → Run TcpConnection} (hf : TcpConnection.ClosesOnly f)
    (he : s.inConn l i f = .ok s') : ∃ g', s'.At i io g' := by
  obtain ⟨c, tcp, hc, rfl, ht, rfl⟩ := inConn_eq he
  have hfits := h.conn
  rw [hc] at hfits
  obtain ⟨rfl, hcb, hal⟩ := hfits
  rcases hf _ _ ht with hk | ⟨hs, hs', hcl⟩
  · -- nothing is called
    have hnil : List.replicate (tcp.closes - c.tcp.closes) (Call.closeCallback_ i) = [] := by
      rw [hk.closes, Nat.sub_self, List.replicate_zero]
    rw [hnil]
    have hs : (s.setConn i { c with tcp }).At i c.loop_ g :=
      Seen.setConn h hc ⟨rfl, hcb, Stage.allows_of_keepsState hg hk hal⟩ Iff.rfl id
    exact ⟨g, hs.adds_other (adds_call ..) fun m hm ↦ absurd hm List.not_mem_nil⟩
  · have hne : c.tcp.state_ ≠ .kDisconnected := by
      rcases hs with hs | hs <;> simp [hs]
    obtain rfl := Stage.eq_up hg hal hne
    have hone : List.replicate (tcp.closes - c.tcp.closes) (Call.closeCallback_ i) =
        [.closeCallback_ i] := by
      rw [hcl, Nat.add_sub_cancel_left, List.replicate_one]
    have htcp : Stage.closed.Allows tcp := ⟨hs', by rw [hcl, hal.2]⟩
    have hs : (s.setConn i { c with tcp }).Seen i c.loop_ .closed 2 none :=
      Seen.setConn h hc ⟨rfl, hcb, htcp⟩ Iff.rfl (absurd · (List.cons_ne_nil _ _))
    rw [hone]
    exact ⟨.closed, hs.sends (adds_call ..) rfl⟩

/-! ## What a call does -/

/-- Every connection is in some stage. -/
def Ordered (s : Server) : Prop := ∀ i, ∃ io g, s.At i io g

variable {l j : Nat} {k : Call} {f : TcpConnection → Run TcpConnection}

theorem mem_pending_of_next (hk : (s.loops l).next? = some k) : k ∈ s.pending l := by
  obtain ⟨rest, hl, -⟩ := pending_take hk
  rw [hl]
  exact List.mem_cons_self

/-- The user has a connection that a call other than those of its script is waiting for. -/
theorem Seen.known (h : s.Seen i io g n place) (hk : k ∈ s.pending l) (hki : k.conn? = some i)
    (hns : k ∉ script i) : g.callbacks ≠ [] :=
  fun hg ↦ hns ((h.quiet hg).1 l k hk hki)

/-- The next call of a connection is taken. -/
theorem At.take_script (h : s.At i io g) (hk : (s.loops l).next? = some k) (hki : k ∈ script i) :
    Stage.Next i io g k l ∧ (s.take l k).Seen i io g (g.done + 1) none := by
  obtain ⟨hp, hn, hs⟩ := Seen.take_script h hk hki
  exact ⟨Stage.next_of_place hp hn, hs⟩

theorem Seen.take_ne (h : s.Seen i io g n place) (hk : (s.loops l).next? = some k)
    (hki : k.conn? ≠ some i) : (s.take l k).Seen i io g n place :=
  h.take hk fun hm ↦ hki (conn_of_mem_script hm)

/-- A call that is none of the script runs a function of the connection. -/
theorem Ordered.inConn (h : s.Ordered) (hk : (s.loops l).next? = some k) (hj : k.conn? = some j)
    (hns : k ∉ script j) (hf : TcpConnection.ClosesOnly f)
    (he : (s.take l k).inConn l j f = .ok s') : s'.Ordered := by
  intro i
  obtain ⟨io, g, ha⟩ := h i
  by_cases hij : j = i
  · subst hij
    have hg := Seen.known ha (mem_pending_of_next hk) hj hns
    have ht : (s.take l k).At j io g := Seen.take ha hk hns
    exact ⟨io, ht.inConn hg hf he⟩
  · have ht := Seen.take_ne ha hk (by rw [hj]; exact fun he ↦ hij (Option.some.inj he))
    exact ⟨io, g, ht.inConn_ne hij he⟩

theorem Ordered.connectEstablished (h : s.Ordered)
    (hk : (s.loops l).next? = some (.task (.connectEstablished j)))
    (he : (s.take l (.task (.connectEstablished j))).connectEstablished l j = .ok s') :
    s'.Ordered := by
  obtain ⟨s₁, h₁, h₂⟩ := Exec.bind_eq_ok.mp he
  cases h₂
  intro i
  obtain ⟨io, g, ha⟩ := h i
  by_cases hij : j = i
  · subst hij
    obtain ⟨hnext, ht⟩ := ha.take_script hk (by simp [script])
    cases hnext
    obtain ⟨c, tcp, hc, rfl, htcp, rfl⟩ := inConn_eq h₁
    have hfits := ht.conn
    rw [hc] at hfits
    obtain ⟨-, hcb, hal⟩ := hfits
    obtain ⟨hst, hcl⟩ := TcpConnection.connectEstablished_ok htcp
    rw [hcl, Nat.sub_self, List.replicate_zero]
    have hs : ((s.take c.loop_ _).setConn j { c with tcp }).Seen j c.loop_ .established 1 none :=
      Seen.setConn ht hc ⟨rfl, hcb, hst, hcl.trans hal.2.1⟩ Iff.rfl fun _ ↦ rfl
    have hs' := hs.adds_other (adds_call c.loop_ [] _) fun m hm ↦ absurd hm List.not_mem_nil
    exact ⟨c.loop_, .established, hs'.sends (adds_call ..) rfl⟩
  · have hne : (Call.connectionCallback_ j).conn? ≠ some i := fun he ↦ hij (Option.some.inj he)
    have ht := (Seen.take_ne ha hk hne).inConn_ne hij h₁
    exact ⟨io, g, ht.adds_one (adds_call ..) hne⟩

theorem Ordered.connectionCallback (h : s.Ordered)
    (hk : (s.loops l).next? = some (.connectionCallback_ j))
    (he : (s.take l (.connectionCallback_ j)).connectionCallback j = .ok s') : s'.Ordered := by
  unfold Server.connectionCallback at he
  split at he
  next => cases he
  next c hc =>
    cases he
    intro i
    obtain ⟨io, g, ha⟩ := h i
    by_cases hij : j = i
    · subst hij
      obtain ⟨hnext, ht⟩ := ha.take_script hk (by simp [script])
      have hfits := ht.conn
      rw [hc] at hfits
      obtain ⟨hio, hcb, hal⟩ := hfits
      cases hnext with
      | established =>
          have hup : c.callbacks ++ [c.tcp.connected] = [true] := by
            rw [hcb]
            simp [Stage.callbacks, TcpConnection.connected, hal.1]
          exact ⟨_, .up, Seen.setConn ht hc ⟨hio, hup, .inl hal.1, hal.2⟩ Iff.rfl
            (absurd · (List.cons_ne_nil _ _))⟩
      | down =>
          have hdown : c.callbacks ++ [c.tcp.connected] = [true, false] := by
            rw [hcb]
            simp [Stage.callbacks, TcpConnection.connected, hal.1]
          exact ⟨_, .gone, Seen.setConn ht hc ⟨hio, hdown, hal⟩ Iff.rfl
            (absurd · (List.cons_ne_nil _ _))⟩
    · have ht := Seen.take_ne ha hk fun he ↦ hij (Option.some.inj he)
      exact ⟨io, g, ht.setConn_ne hij _⟩

theorem Ordered.closeConnection (h : s.Ordered)
    (hk : (s.loops l).next? = some (.closeCallback_ j)) :
    ((s.take l (.closeCallback_ j)).closeConnection l j).Ordered := by
  intro i
  obtain ⟨io, g, ha⟩ := h i
  by_cases hij : j = i
  · subst hij
    obtain ⟨hnext, ht⟩ := ha.take_script hk (by simp [script])
    cases hnext
    have hs : (s.take l (.closeCallback_ j)).Seen j l .closing 3 none :=
      ht.stage Stage.noConfusion rfl (fun _ h ↦ h) Iff.rfl
    exact ⟨l, .closing, hs.sends (adds_runInLoop ..) rfl⟩
  · have hne : (Call.closeCallback_ j).conn? ≠ some i := fun he ↦ hij (Option.some.inj he)
    have ht := Seen.take_ne ha hk hne
    exact ⟨io, g, ht.adds_one (adds_runInLoop ..) hne⟩

theorem Ordered.closeConnectionInLoop (h : s.Ordered)
    (hk : (s.loops l).next? = some (.task (.closeConnectionInLoop j)))
    (he : (s.take l (.task (.closeConnectionInLoop j))).closeConnectionInLoop l j = .ok s') :
    s'.Ordered := by
  unfold Server.closeConnectionInLoop at he
  split at he
  next => cases he
  next =>
    split at he
    next => cases he
    next =>
      cases he
      intro i
      obtain ⟨io, g, ha⟩ := h i
      by_cases hij : j = i
      · subst hij
        obtain ⟨hnext, ht⟩ := ha.take_script hk (by simp [script])
        cases hnext
        exact ⟨io, .removed, ht.erase.sends (adds_queueInLoop ..) rfl⟩
      · have hne : (Call.task (.connectDestroyed j)).conn? ≠ some i :=
          fun he ↦ hij (Option.some.inj he)
        have ht := (Seen.take_ne ha hk hne).erase_ne (Ne.symm hij)
        exact ⟨io, g, ht.adds_one (adds_queueInLoop ..) hne⟩

theorem Ordered.connectDestroyed (h : s.Ordered)
    (hk : (s.loops l).next? = some (.task (.connectDestroyed j))) :
    ((s.take l (.task (.connectDestroyed j))).connectDestroyed l j).Ordered := by
  intro i
  obtain ⟨io, g, ha⟩ := h i
  by_cases hij : j = i
  · subst hij
    obtain ⟨hnext, ht⟩ := ha.take_script hk (by simp [script])
    cases hnext
    have hs : (s.take baseLoop_ (.task (.connectDestroyed j))).Seen j io .down 5 none :=
      ht.stage Stage.noConfusion rfl (fun _ h ↦ h) Iff.rfl
    exact ⟨io, .down, hs.sends (adds_call ..) rfl⟩
  · have hne : (Call.connectionCallback_ j).conn? ≠ some i := fun he ↦ hij (Option.some.inj he)
    have ht := Seen.take_ne ha hk hne
    exact ⟨io, g, ht.adds_one (adds_call ..) hne⟩

/-- A connection is made by `newConnection`. -/
theorem Seen.addConn (h : s.Seen i io .unmade n place) (hi : i = s.conns.length) (l : Nat) :
    (s.addConn l).Seen i l .created n place := by
  subst hi
  refine ⟨?_, ?_, h.follows, fun _ ↦ h.quiet rfl⟩
  · rw [Server.addConn, List.getElem?_append_right le_rfl, Nat.sub_self]
    exact ⟨rfl, rfl, rfl, rfl, rfl⟩
  · exact ⟨fun _ ↦ trivial, fun _ ↦ Finset.mem_insert_self ..⟩

theorem Seen.addConn_ne (h : s.Seen i io g n place) (hi : i ≠ s.conns.length) (l : Nat) :
    (s.addConn l).Seen i io g n place := by
  refine ⟨?_, ?_, h.follows, h.quiet⟩
  · have hfits := h.conn
    rcases Nat.lt_or_gt_of_ne hi with hlt | hgt
    · rw [Server.addConn, List.getElem?_append_left hlt]
      exact hfits
    · rw [List.getElem?_eq_none (Nat.le_of_lt hgt)] at hfits
      rw [Server.addConn, List.getElem?_eq_none]
      · exact hfits
      · rw [List.length_append, List.length_singleton]
        exact hgt
  · rw [Server.addConn, Finset.mem_insert, ← h.listed]
    exact or_iff_right hi

theorem Seen.getNextLoop (h : s.Seen i io g n place) : s.getNextLoop.2.Seen i io g n place := by
  unfold Server.getNextLoop
  split
  · exact h
  · exact ⟨h.conn, h.listed, h.follows, h.quiet⟩

theorem At.unmade (h : s.At i io g) (hi : s.conns[i]? = none) : g = .unmade := by
  have hfits := h.conn
  rw [hi] at hfits
  exact hfits

theorem Ordered.newConnection (h : s.Ordered) (hk : (s.loops l).next? = some .newConnection)
    (he : (s.take l .newConnection).newConnection l = .ok s') : s'.Ordered := by
  have ht : ∀ i io g, s.At i io g → (s.take l .newConnection).getNextLoop.2.At i io g :=
    fun i io g ha ↦ (Seen.take_ne ha hk nofun).getNextLoop
  have hconns : (s.take l .newConnection).getNextLoop.2.conns = s.conns := by
    unfold Server.getNextLoop
    split <;> rfl
  unfold Server.newConnection at he
  generalize (s.take l .newConnection).getNextLoop = p at he ht hconns
  obtain ⟨ioLoop, s₁⟩ := p
  split at he
  next => cases he
  next =>
    cases he
    intro i
    obtain ⟨io, g, ha⟩ := h i
    by_cases hi : i = s₁.conns.length
    · obtain rfl := ha.unmade (List.getElem?_eq_none (by rw [hi, hconns]))
      have hs := Seen.addConn (ht i io _ ha) hi ioLoop
      exact ⟨ioLoop, .created, hs.sends (adds_runInLoop ..) (by rw [← hi]; rfl)⟩
    · have hs := Seen.addConn_ne (ht i io g ha) hi ioLoop
      exact ⟨io, g, hs.adds_one (adds_runInLoop ..) fun he ↦ hi (Option.some.inj he).symm⟩

theorem conn_handler (j : Nat) (cb : Channel.Callback) : (handler j cb).conn? = some j := by
  cases cb <;> rfl

theorem handler_not_mem_script (i j : Nat) (cb : Channel.Callback) : handler j cb ∉ script i := by
  cases cb <;> simp [handler, script]

theorem Ordered.handleEvents (h : s.Ordered) {revents_ : BitVec 32}
    (hk : (s.loops l).next? = some (.handleEvents j revents_)) :
    ((s.take l (.handleEvents j revents_)).handleEvents l j revents_).Ordered := by
  intro i
  obtain ⟨io, g, ha⟩ := h i
  have hns : Call.handleEvents j revents_ ∉ script i := by simp [script]
  refine ⟨io, g, (Seen.take ha hk hns).adds (adds_call ..) ?_ ?_⟩
  · intro m hm
    obtain ⟨cb, -, rfl⟩ := List.mem_map.mp hm
    exact handler_not_mem_script i j cb
  · intro hg m hm hmi
    obtain ⟨cb, -, rfl⟩ := List.mem_map.mp hm
    rw [conn_handler] at hmi
    exact Seen.known ha (mem_pending_of_next hk) hmi hns hg

open TcpConnection in
theorem Ordered.runTask (h : s.Ordered) {answer : Answer} {t : Task}
    (hk : (s.loops l).next? = some (.task t))
    (he : (s.take l (.task t)).runTask l answer t = .ok s') : s'.Ordered := by
  cases t with
  | connectEstablished j => exact h.connectEstablished hk he
  | sendInLoop j data =>
      exact h.inConn hk rfl (by simp [script])
        (closesOnly_of_keepsState fun _ _ ↦ keepsState_sendInLoop) he
  | shutdownInLoop j => exact h.inConn hk rfl (by simp [script]) closesOnly_shutdownInLoop he
  | forceCloseInLoop j =>
      exact h.inConn hk rfl (by simp [script]) closesOnly_forceCloseInLoop he
  | stopRead j =>
      exact h.inConn hk rfl (by simp [script])
        (closesOnly_of_keepsState fun _ _ ↦ keepsState_stopRead) he
  | startRead j =>
      exact h.inConn hk rfl (by simp [script])
        (closesOnly_of_keepsState fun _ _ ↦ keepsState_startRead) he
  | closeConnectionInLoop j => exact h.closeConnectionInLoop hk he
  | connectDestroyed j =>
      cases he
      exact h.connectDestroyed hk

open TcpConnection in
theorem Ordered.runCall (h : s.Ordered) {answer : Answer} (hk : (s.loops l).next? = some k)
    (he : (s.take l k).runCall l answer k = .ok s') : s'.Ordered := by
  cases k with
  | task t => exact h.runTask hk he
  | newConnection => exact h.newConnection hk he
  | handleEvents j revents_ =>
      cases he
      exact h.handleEvents hk
  | handleRead j =>
      exact h.inConn hk rfl (by simp [script]) (closesOnly_handleRead answer.read) he
  | handleWrite j =>
      exact h.inConn hk rfl (by simp [script])
        (closesOnly_of_keepsState fun _ _ ↦ keepsState_handleWrite) he
  | handleClose j => exact h.inConn hk rfl (by simp [script]) closesOnly_handleClose he
  | handleError j =>
      cases he
      intro i
      obtain ⟨io, g, ha⟩ := h i
      exact ⟨io, g, Seen.take ha hk (by simp [script])⟩
  | connectionCallback_ j => exact h.connectionCallback hk he
  | closeCallback_ j =>
      cases he
      exact h.closeConnection hk

/-! ## What the user and the poller do -/

theorem At.callbacks_ne (h : s.At i io g) (hk : s.Known i) : g.callbacks ≠ [] := by
  obtain ⟨c, hc, hne⟩ := hk
  have hfits := h.conn
  rw [hc] at hfits
  rw [← hfits.2.1]
  exact hne

/-- A call on a connection that the user has is put into a loop. -/
theorem Ordered.adds (h : s.Ordered) (hj : s.Known j) {x : Nat} {m : Call} (ha : Adds x [m] s s')
    (hm : m.conn? = some j) (hns : m ∉ script j) : s'.Ordered := by
  intro i
  obtain ⟨io, g, hi⟩ := h i
  by_cases hij : j = i
  · subst hij
    refine ⟨io, g, Seen.adds hi ha ?_ fun hg ↦ absurd hg (hi.callbacks_ne hj)⟩
    intro m' hm'
    rw [List.mem_singleton.mp hm']
    exact hns
  · refine ⟨io, g, Seen.adds_one hi ha ?_⟩
    rw [hm]
    exact fun he ↦ hij (Option.some.inj he)

/-- The exchange of the state of a connection that is not disconnected. -/
theorem Ordered.disconnecting (h : s.Ordered) (hj : s.Known j) {c : Conn}
    (hc : s.conns[j]? = some c) (hd : c.tcp.state_ ≠ .kDisconnected) :
    (s.setConn j { c with tcp := c.tcp.disconnecting }).Ordered ∧
      (s.setConn j { c with tcp := c.tcp.disconnecting }).Known j := by
  constructor
  · intro i
    obtain ⟨io, g, hi⟩ := h i
    by_cases hij : j = i
    · subst hij
      have hfits := hi.conn
      rw [hc] at hfits
      obtain ⟨hio, hcb, hal⟩ := hfits
      obtain rfl := Stage.eq_up (hi.callbacks_ne hj) hal hd
      exact ⟨io, .up, Seen.setConn hi hc ⟨hio, hcb, .inr rfl, hal.2⟩ Iff.rfl id⟩
    · exact ⟨io, g, Seen.setConn_ne hi hij _⟩
  · obtain ⟨c', hc', hne⟩ := hj
    obtain rfl : c = c' := Option.some.inj (hc.symm.trans hc')
    obtain ⟨hlt, -⟩ := List.getElem?_eq_some_iff.mp hc
    exact ⟨_, List.getElem?_set_self hlt, hne⟩

theorem onConn_eq {f : Conn → Run Server} (h : s.onConn j f = .ok s') :
    ∃ c, s.conns[j]? = some c ∧ f c = .ok s' := by
  unfold onConn at h
  split at h
  next => cases h
  next c hc => exact ⟨c, hc, h⟩

theorem Ordered.send (h : s.Ordered) {thread : Option Nat} {data : List UInt8}
    (hj : s.Known j) (he : s.send thread j data = .ok s') : s'.Ordered := by
  obtain ⟨c, -, he⟩ := onConn_eq he
  split at he
  next =>
    cases he
    exact h
  next =>
    split at he
    next =>
      cases he
      exact h.adds hj (adds_call ..) rfl (by simp [script])
    next =>
      cases he
      intro i
      obtain ⟨io, g, hi⟩ := h i
      refine ⟨io, g, Seen.setPushing hi fun hg p hp ↦ ?_⟩
      rcases List.mem_append.mp hp with hp | hp
      · exact (hi.quiet hg).2 p hp
      · rw [List.mem_singleton.mp hp]
        rintro rfl
        exact hi.callbacks_ne hj hg

theorem Ordered.push (h : s.Ordered) {n : Nat} {data : List UInt8}
    (hp : s.pushing[n]? = some (j, data))
    (he : { s with pushing := s.pushing.eraseIdx n }.push j data = .ok s') : s'.Ordered := by
  obtain ⟨c, -, he⟩ := onConn_eq he
  cases he
  intro i
  obtain ⟨io, g, hi⟩ := h i
  have hs : { s with pushing := s.pushing.eraseIdx n }.At i io g :=
    Seen.setPushing hi fun hg p hp ↦ (hi.quiet hg).2 p (List.mem_of_mem_eraseIdx hp)
  refine ⟨io, g, Seen.adds hs (adds_queueInLoop ..) ?_ ?_⟩
  · intro m hm
    rw [List.mem_singleton.mp hm]
    simp [script]
  · intro hg m hm hmi
    rw [List.mem_singleton.mp hm] at hmi
    exact (hi.quiet hg).2 _ (List.mem_of_getElem? hp) (Option.some.inj hmi)

theorem Ordered.shutdown (h : s.Ordered) {thread : Option Nat} (hj : s.Known j)
    (he : s.shutdown thread j = .ok s') : s'.Ordered := by
  obtain ⟨c, hc, he⟩ := onConn_eq he
  split at he
  next => cases he
  next hd =>
    obtain ⟨hs, hk⟩ := h.disconnecting hj hc hd
    dsimp only at he
    split at he
    next =>
      cases he
      exact hs.adds hk (adds_runInLoop ..) rfl (by simp [script])
    next =>
      cases he
      exact hs

theorem Ordered.forceClose (h : s.Ordered) (hj : s.Known j) (he : s.forceClose j = .ok s') :
    s'.Ordered := by
  obtain ⟨c, hc, he⟩ := onConn_eq he
  split at he
  next hd =>
    obtain ⟨hs, hk⟩ := h.disconnecting hj hc hd
    cases he
    exact hs.adds hk (adds_queueInLoop ..) rfl (by simp [script])
  next =>
    cases he
    exact h

/-- The user has a connection whose channel is reported. -/
theorem At.reported (h : s.At i io g) (hl : (s.loops l).Idle) (hr : s.Reports l k)
    (hki : k.conn? = some i) : g.callbacks ≠ [] := by
  cases k with
  | handleEvents conn revents_ =>
      cases hki
      obtain ⟨c, hc, rfl, hin, -⟩ := hr
      have hfits := h.conn
      rw [hc] at hfits
      obtain ⟨rfl, -, hal⟩ := hfits
      cases g with
      | unmade => exact hal.elim
      | created =>
          rw [hal.2.2] at hin
          cases hin
      | established =>
          -- its callback is still to be run, and is no task
          have hp : Call.connectionCallback_ i ∈ s.pending c.loop_ := h.follows.mem_queue rfl
          rw [pending, Loop.pending, hl.1, List.nil_append] at hp
          obtain ⟨t, -, ht⟩ := List.mem_map.mp hp
          cases ht
      | _ => exact List.cons_ne_nil _ _
  | newConnection => cases hki
  | _ => exact hr.elim

theorem Ordered.poll (h : s.Ordered) {reported : List Call} (hl : (s.loops l).Idle)
    (hr : ∀ k ∈ reported, s.Reports l k) : (s.call l reported).Ordered := by
  intro i
  obtain ⟨io, g, hi⟩ := h i
  refine ⟨io, g, Seen.adds hi (adds_call ..) ?_ ?_⟩
  · intro m hm
    have hm := hr m hm
    cases m with
    | handleEvents conn revents_ => simp [script]
    | newConnection => simp [script]
    | _ => exact hm.elim
  · exact fun hg m hm hmi ↦ hi.reported hl (hr m hm) hmi hg

theorem Ordered.swap (h : s.Ordered) (hl : (s.loops l).Idle) :
    (s.setLoop l { s.loops l with queue := (s.loops l).queue.swap }).Ordered := by
  have hp : (s.setLoop l { s.loops l with queue := (s.loops l).queue.swap }).pending =
      s.pending := by
    rw [pending_setLoop, Loop.pending, TaskQueue.order_swap hl.2]
    exact Function.update_eq_self l s.pending
  intro i
  obtain ⟨io, g, hi⟩ := h i
  refine ⟨io, g, hi.conn, hi.listed, ?_, fun hg ↦ ⟨?_, (hi.quiet hg).2⟩⟩
  · rw [hp]
    exact hi.follows
  · rw [hp]
    exact (hi.quiet hg).1

theorem Ordered.perform (h : s.Ordered) {a : ServerStep} (he : s.enabled a)
    (hp : s.perform a = .ok s') : s'.Ordered := by
  cases a with
  | poll l reported =>
      cases hp
      exact h.poll he.2.1 he.2.2
  | swap l =>
      cases hp
      exact h.swap he.2
  | run l answer =>
      obtain ⟨k, hk, -⟩ := he
      simp only [Server.perform, hk] at hp
      exact h.runCall hk hp
  | send thread conn data => exact h.send he hp
  | push n =>
      simp only [Server.perform] at hp
      split at hp
      next hn => exact h.push hn hp
      next =>
        cases hp
        exact h
  | shutdown thread conn => exact h.shutdown he hp
  | forceClose conn => exact h.forceClose he hp
  | stopRead thread conn =>
      obtain ⟨c, -, hp⟩ := onConn_eq hp
      cases hp
      exact h.adds he (adds_runInLoop ..) rfl (by simp [script])
  | startRead thread conn =>
      obtain ⟨c, -, hp⟩ := onConn_eq hp
      cases hp
      exact h.adds he (adds_runInLoop ..) rfl (by simp [script])

theorem ordered_start (numThreads_ : Nat) (writeCompleteCallback_ : Bool) :
    (start numThreads_ writeCompleteCallback_).Ordered := by
  intro i
  refine ⟨0, .unmade, rfl, ⟨nofun, nofun⟩, ?_, fun _ ↦ ⟨nofun, nofun⟩⟩
  exact Follows.start nofun nofun

/-- What holds of connection `i`, which is `c`.  Its connection callback has run at most twice,
with `connected()` true and then with `connected()` false; `closeCallback_` has run at most once;
and the connection is in `connections_` as long as its `closeConnectionInLoop` was not run. -/
structure Lifecycle (s : Server) (i : Nat) (c : Conn) : Prop where
  callbacks : c.callbacks <+: [true, false]
  closeCallback : s.ran.count (.closeCallback_ i) ≤ 1
  closes : c.tcp.closes ≤ 1
  listed : i ∈ s.connections_ ↔ Call.task (.closeConnectionInLoop i) ∉ s.ran

theorem At.lifecycle (h : s.At i io g) {c : Conn} (hc : s.conns[i]? = some c) :
    s.Lifecycle i c := by
  have hfits := h.conn
  rw [hc] at hfits
  obtain ⟨-, hcb, hal⟩ := hfits
  have hcount := h.follows.count_ran (m := .closeCallback_ i) (by simp [script])
  have hmem := h.follows.mem_ran (m := .task (.closeConnectionInLoop i)) (by simp [script])
  constructor
  · rw [hcb]
    cases g <;> simp [Stage.callbacks]
  · rw [hcount]
    cases g <;> simp [Stage.done, script]
  · cases g with
    | unmade => exact hal.elim
    | created => exact hal.2.1.trans_le (Nat.zero_le 1)
    | established => exact hal.2.trans_le (Nat.zero_le 1)
    | up => exact hal.2.trans_le (Nat.zero_le 1)
    | _ => exact hal.2.le
  · rw [h.listed, hmem]
    cases g with
    | unmade => exact hal.elim
    | _ => simp [Stage.Listed, Stage.done, script]

/-- Where `closeConnectionInLoop` is next, it fails no assertion. -/
theorem At.closeConnectionInLoop (h : s.At i io g)
    (hk : (s.loops l).next? = some (.task (.closeConnectionInLoop i))) :
    ∃ s', (s.take l (.task (.closeConnectionInLoop i))).closeConnectionInLoop l i = .ok s' := by
  obtain ⟨hnext, ht⟩ := h.take_script hk (by simp [script])
  cases hnext
  have hne : s.connections_ ≠ ∅ := Finset.ne_empty_of_mem (h.listed.mpr trivial)
  exact ⟨_, (if_neg (not_not.mpr rfl)).trans (if_neg hne)⟩

/-- In every state that a server reaches, every connection has the life it should, and
`closeConnectionInLoop` finds a connection wherever it is about to be run. -/
theorem lifecycle_of_runs {numThreads_ : Nat} {writeCompleteCallback_ : Bool}
    {as : List ServerStep}
    (h : machine.Runs (start numThreads_ writeCompleteCallback_) as (.ok s)) :
    (∀ i c, s.conns[i]? = some c → s.Lifecycle i c) ∧
      ∀ l i answer, (s.loops l).next? = some (.task (.closeConnectionInLoop i)) →
        ∃ s', s.perform (.run l answer) = .ok s' := by
  have ho : s.Ordered := h.preserves (I := fun _ s ↦ s.Ordered)
    (ordered_start numThreads_ writeCompleteCallback_) fun _ s a s' hs he hp ↦ hs.perform he hp
  constructor
  · intro i c hc
    obtain ⟨io, g, hi⟩ := ho i
    exact hi.lifecycle hc
  · intro l i answer hk
    obtain ⟨io, g, hi⟩ := ho i
    simp only [Server.perform, hk]
    exact hi.closeConnectionInLoop hk

/-- A connection of the one I/O loop is made, closed by `forceClose` and removed. -/
theorem lifecycle_of_runs_sample :
    ∃ (s₁ s₂ : Server) (c : Conn), (∃ s', s₁.perform (.run 0 ⟨.received, .wrote 0⟩) = .ok s') ∧
      s₁.connections_ = {0} ∧ s₂.connections_ = ∅ ∧ s₂.conns[0]? = some c ∧
      c.callbacks = [true, false] ∧ s₂.Lifecycle 0 c := by
  have hstart : machine.Runs (start 1 false) [] (.ok (start 1 false)) := .nil
  have hmade := (hstart.snoc (a := .poll 0 [.newConnection])
      ⟨Nat.zero_le 1, ⟨rfl, rfl⟩, fun k hk ↦ by rw [List.mem_singleton.mp hk]; rfl⟩).snoc
    (a := .run 0 ⟨.received, .wrote 0⟩) ⟨_, rfl, trivial⟩
  have hup := ((hmade.snoc (a := .swap 1) ⟨le_rfl, rfl, rfl⟩).snoc
    (a := .run 1 ⟨.received, .wrote 0⟩) ⟨_, rfl, trivial⟩).snoc
    (a := .run 1 ⟨.received, .wrote 0⟩) ⟨_, rfl, trivial⟩
  have hclosed := (((hup.snoc (a := .forceClose 0) ⟨_, rfl, List.cons_ne_nil _ _⟩).snoc
    (a := .swap 1) ⟨le_rfl, rfl, rfl⟩).snoc
    (a := .run 1 ⟨.received, .wrote 0⟩) ⟨_, rfl, trivial⟩).snoc
    (a := .run 1 ⟨.received, .wrote 0⟩) ⟨_, rfl, trivial⟩
  have hclosing := hclosed.snoc (a := .swap 0) ⟨Nat.zero_le 1, rfl, rfl⟩
  have hremoved := (hclosing.snoc (a := .run 0 ⟨.received, .wrote 0⟩) ⟨_, rfl, trivial⟩).snoc
    (a := .swap 0) ⟨Nat.zero_le 1, rfl, rfl⟩
  have hgone := (hremoved.snoc (a := .run 0 ⟨.received, .wrote 0⟩) ⟨_, rfl, trivial⟩).snoc
    (a := .run 0 ⟨.received, .wrote 0⟩) ⟨_, rfl, trivial⟩
  exact ⟨_, _, _, (lifecycle_of_runs hclosing).2 0 0 _ rfl, rfl, rfl, rfl, rfl,
    (lifecycle_of_runs hgone).1 0 _ rfl⟩

end Server

end RpcLearning.Net
