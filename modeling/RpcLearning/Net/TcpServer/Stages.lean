import RpcLearning.Lib.Script
import RpcLearning.Net.TcpServer

/-!
# The stages of a connection

The calls that make, close and remove a connection come in one order, whatever the threads do in
between: each of them is put into a queue, or called, by the one before.  How many of them were run
says what the connection looks like and where the next one waits.
-/

namespace RpcLearning.Net

/-! ## What a function of a connection does to its state -/

namespace TcpConnection

/-- The function keeps the state, or closes a connection that is open. -/
def ClosesOnly (f : TcpConnection → Run TcpConnection) : Prop :=
  ∀ c c', f c = .ok c' → KeepsState c c' ∨
    ((c.state_ = .kConnected ∨ c.state_ = .kDisconnecting) ∧ c'.state_ = .kDisconnected ∧
      c'.closes = c.closes + 1)

variable {f : TcpConnection → Run TcpConnection}

theorem closesOnly_of_keepsState (h : ∀ c c', f c = .ok c' → KeepsState c c') : ClosesOnly f :=
  fun c c' he ↦ .inl (h c c' he)

theorem closesOnly_handleClose : ClosesOnly handleClose := by
  intro c c' h
  unfold handleClose at h
  split at h
  next hs =>
    obtain ⟨ch, -, h⟩ := Exec.bind_eq_ok.mp h
    cases h
    exact .inr ⟨hs, rfl, rfl⟩
  next => cases h

theorem closesOnly_forceCloseInLoop : ClosesOnly forceCloseInLoop := by
  intro c c' h
  unfold forceCloseInLoop at h
  split at h
  next => exact closesOnly_handleClose c c' h
  next =>
    cases h
    exact .inl (.refl c)

theorem closesOnly_handleRead (result : ReadResult) : ClosesOnly (handleRead result) := by
  intro c c' h
  unfold handleRead at h
  split at h
  · cases h
  · cases result with
    | endOfStream => exact closesOnly_handleClose c c' h
    | failed =>
        cases h
        exact .inl (.refl c)
    | received =>
        cases h
        exact .inl (.refl c)

theorem closesOnly_shutdownInLoop : ClosesOnly fun c ↦ .ok c.shutdownInLoop := by
  intro c c' h
  cases h
  exact .inl (keepsState_shutdownInLoop c)

theorem connectEstablished_ok {c c' : TcpConnection} (h : c.connectEstablished = .ok c') :
    c'.state_ = .kConnected ∧ c'.closes = c.closes := by
  unfold connectEstablished at h
  split at h
  · obtain ⟨ch, -, h⟩ := Exec.bind_eq_ok.mp h
    cases h
    exact ⟨rfl, rfl⟩
  · cases h

end TcpConnection

/-! ## Stages -/

/-- The connection a call is about. -/
def Task.conn : Task → Nat
  | .connectEstablished conn => conn
  | .sendInLoop conn _ => conn
  | .shutdownInLoop conn => conn
  | .forceCloseInLoop conn => conn
  | .stopRead conn => conn
  | .startRead conn => conn
  | .closeConnectionInLoop conn => conn
  | .connectDestroyed conn => conn

@[inherit_doc Task.conn]
def Call.conn? : Call → Option Nat
  | .task t => some t.conn
  | .newConnection => none
  | .handleEvents conn _ => some conn
  | .handleRead conn => some conn
  | .handleWrite conn => some conn
  | .handleClose conn => some conn
  | .handleError conn => some conn
  | .connectionCallback_ conn => some conn
  | .closeCallback_ conn => some conn

/-- The calls that a connection lives through, in their order. -/
def script (conn : Nat) : List Call :=
  [.task (.connectEstablished conn), .connectionCallback_ conn, .closeCallback_ conn,
    .task (.closeConnectionInLoop conn), .task (.connectDestroyed conn),
    .connectionCallback_ conn]

theorem conn_of_mem_script {i : Nat} {k : Call} (h : k ∈ script i) : k.conn? = some i := by
  simp only [script, List.mem_cons, List.not_mem_nil, or_false] at h
  rcases h with rfl | rfl | rfl | rfl | rfl | rfl <;> rfl

/-- How far a connection has come. -/
inductive Stage where
  /-- `newConnection` has not made it yet. -/
  | unmade
  /-- `connectEstablished` is waiting. -/
  | created
  /-- The connection callback is the next of `connectEstablished`. -/
  | established
  | up
  /-- `closeCallback_` is the next of `handleClose`. -/
  | closed
  /-- `closeConnectionInLoop` is waiting. -/
  | closing
  /-- `connectDestroyed` is waiting. -/
  | removed
  /-- The connection callback is the next of `connectDestroyed`. -/
  | down
  | gone

namespace Stage

/-- The number of calls of the script that were run. -/
def done : Stage → Nat
  | .unmade => 0
  | .created => 0
  | .established => 1
  | .up => 2
  | .closed => 2
  | .closing => 3
  | .removed => 4
  | .down => 5
  | .gone => 6

/-- The loop in which the next of them waits, for a connection of loop `io`. -/
def place (io : Nat) : Stage → Option Nat
  | .created => some io
  | .established => some io
  | .closed => some io
  | .closing => some baseLoop_
  | .removed => some baseLoop_
  | .down => some baseLoop_
  | _ => none

def callbacks : Stage → List Bool
  | .unmade => []
  | .created => []
  | .established => []
  | .gone => [true, false]
  | _ => [true]

/-- The connection is in `connections_`. -/
def Listed : Stage → Prop
  | .created => True
  | .established => True
  | .up => True
  | .closed => True
  | .closing => True
  | _ => False

/-- What the connection looks like. -/
def Allows (c : TcpConnection) : Stage → Prop
  | .unmade => False
  | .created => c.state_ = .kConnecting ∧ c.closes = 0 ∧ c.channel_.state_ = .OUT
  | .established => c.state_ = .kConnected ∧ c.closes = 0
  | .up => (c.state_ = .kConnected ∨ c.state_ = .kDisconnecting) ∧ c.closes = 0
  | _ => c.state_ = .kDisconnected ∧ c.closes = 1

/-- The stage fits what stands at the place of the connection. -/
def Fits (io : Nat) (g : Stage) : Option Conn → Prop
  | none => g = .unmade
  | some c => c.loop_ = io ∧ c.callbacks = g.callbacks ∧ g.Allows c.tcp

variable {g : Stage} {c c' : TcpConnection}

theorem allows_of_keepsState (hg : g.callbacks ≠ []) (hk : c.KeepsState c') (h : g.Allows c) :
    g.Allows c' := by
  cases g with
  | unmade => exact absurd rfl hg
  | created => exact absurd rfl hg
  | established => exact absurd rfl hg
  | up =>
      unfold Allows at h ⊢
      rw [hk.state, hk.closes]
      exact h
  | _ => exact ⟨hk.state.trans h.1, hk.closes.trans h.2⟩

/-- A connection that the user has and that is not disconnected is up. -/
theorem eq_up (hg : g.callbacks ≠ []) (h : g.Allows c) (hs : c.state_ ≠ .kDisconnected) :
    g = .up := by
  cases g with
  | unmade => exact absurd rfl hg
  | created => exact absurd rfl hg
  | established => exact absurd rfl hg
  | up => rfl
  | _ => exact absurd h.1 hs

/-- The call that is next for connection `i` in each stage, and its loop. -/
inductive Next (i io : Nat) : Stage → Call → Nat → Prop
  | created : Next i io .created (.task (.connectEstablished i)) io
  | established : Next i io .established (.connectionCallback_ i) io
  | closed : Next i io .closed (.closeCallback_ i) io
  | closing : Next i io .closing (.task (.closeConnectionInLoop i)) baseLoop_
  | removed : Next i io .removed (.task (.connectDestroyed i)) baseLoop_
  | down : Next i io .down (.connectionCallback_ i) baseLoop_

theorem next_of_place {i io l : Nat} {k : Call} (hp : g.place io = some l)
    (hn : (script i)[g.done]? = some k) : Next i io g k l := by
  cases g with
  | created =>
      cases hp
      cases hn
      exact .created
  | established =>
      cases hp
      cases hn
      exact .established
  | closed =>
      cases hp
      cases hn
      exact .closed
  | closing =>
      cases hp
      cases hn
      exact .closing
  | removed =>
      cases hp
      cases hn
      exact .removed
  | down =>
      cases hp
      cases hn
      exact .down
  | _ => cases hp

end Stage

namespace Server

/-! ## What is waiting -/

/-- All that loop `l` has still to run. -/
def pending (s : Server) (l : Nat) : List Call := (s.loops l).pending

theorem pending_setLoop (s : Server) (l : Nat) (o : Loop) :
    (s.setLoop l o).pending = Function.update s.pending l o.pending := by
  funext x
  by_cases hx : x = l
  · subst hx
    simp [pending, setLoop]
  · simp [pending, setLoop, hx]

/-- The calls `ms` are put into loop `x`, and nothing else is done. -/
structure Adds (x : Nat) (ms : List Call) (s s' : Server) : Prop where
  pending : ∃ l r, s.pending x = l ++ r ∧ s'.pending = Function.update s.pending x (l ++ ms ++ r)
  conns : s'.conns = s.conns
  connections : s'.connections_ = s.connections_
  pushing : s'.pushing = s.pushing
  ran : s'.ran = s.ran

theorem adds_call (l : Nat) (ks : List Call) (s : Server) : Adds l ks s (s.call l ks) := by
  refine ⟨⟨[], s.pending l, rfl, ?_⟩, rfl, rfl, rfl, rfl⟩
  rw [call, pending_setLoop]
  simp [Loop.pending, pending]

theorem adds_queueInLoop (l : Nat) (t : Task) (s : Server) :
    Adds l [.task t] s (s.queueInLoop l t) := by
  refine ⟨⟨s.pending l, [], (List.append_nil _).symm, ?_⟩, rfl, rfl, rfl, rfl⟩
  rw [queueInLoop, pending_setLoop]
  simp [Loop.pending, pending]

theorem adds_runInLoop (thread : Option Nat) (l : Nat) (t : Task) (s : Server) :
    Adds l [.task t] s (s.runInLoop thread l t) := by
  unfold runInLoop
  split
  · exact adds_call l _ s
  · exact adds_queueInLoop l t s

theorem pending_take {s : Server} {l : Nat} {k : Call} (h : (s.loops l).next? = some k) :
    ∃ rest, s.pending l = k :: rest ∧ (s.take l k).pending = Function.update s.pending l rest :=
  ⟨_, Loop.pending_of_next h, pending_setLoop s l _⟩

/-! ## A connection in a state of the server -/

/-- Nothing but a call of its script is waiting that would work on the connection. -/
def Quiet (s : Server) (i : Nat) : Prop :=
  (∀ l, ∀ k ∈ s.pending l, k.conn? = some i → k ∈ script i) ∧ ∀ p ∈ s.pushing, p.1 ≠ i

/-- Connection `i`, of loop `io`, is in stage `g`; `n` calls of its script were run, and the next
one waits at `place`, or nowhere.  Before its connection callback has run it is quiet. -/
structure Seen (s : Server) (i io : Nat) (g : Stage) (n : Nat) (place : Option Nat) : Prop where
  conn : g.Fits io s.conns[i]?
  listed : i ∈ s.connections_ ↔ g.Listed
  follows : Follows (script i) n s.ran s.pending place
  quiet : g.callbacks = [] → s.Quiet i

/-- Between two steps the next call waits where the stage says. -/
def At (s : Server) (i io : Nat) (g : Stage) : Prop := s.Seen i io g g.done (g.place io)

variable {s s' : Server} {i io n : Nat} {g : Stage} {place : Option Nat}

theorem Adds.mem {x y : Nat} {ms : List Call} {k : Call} (ha : Adds x ms s s')
    (hk : k ∈ s'.pending y) : k ∈ s.pending y ∨ k ∈ ms := by
  obtain ⟨l, r, hx, hp⟩ := ha.pending
  rw [hp] at hk
  by_cases hy : y = x
  · subst hy
    rw [hx]
    simp only [Function.update_self, List.mem_append] at hk ⊢
    tauto
  · rw [Function.update_of_ne hy] at hk
    exact .inl hk

theorem Quiet.adds (h : s.Quiet i) {x : Nat} {ms : List Call} (ha : Adds x ms s s')
    (hms : ∀ m ∈ ms, m.conn? = some i → m ∈ script i) : s'.Quiet i := by
  constructor
  · intro y k hk hki
    rcases ha.mem hk with hk | hk
    · exact h.1 y k hk hki
    · exact hms k hk hki
  · rw [ha.pushing]
    exact h.2

theorem Quiet.take (h : s.Quiet i) {l : Nat} {k : Call} (hk : (s.loops l).next? = some k) :
    (s.take l k).Quiet i := by
  obtain ⟨rest, hl, hp⟩ := pending_take hk
  refine ⟨fun y m hm hmi ↦ h.1 y m ?_ hmi, h.2⟩
  rw [hp] at hm
  by_cases hy : y = l
  · subst hy
    rw [Function.update_self] at hm
    rw [hl]
    exact List.mem_cons_of_mem _ hm
  · rw [Function.update_of_ne hy] at hm
    exact hm

namespace Seen

/-- Calls are put into a loop that are none of the script. -/
theorem adds (h : s.Seen i io g n place) {x : Nat} {ms : List Call} (ha : Adds x ms s s')
    (hms : ∀ m ∈ ms, m ∉ script i) (hq : g.callbacks = [] → ∀ m ∈ ms, m.conn? ≠ some i) :
    s'.Seen i io g n place := by
  obtain ⟨l, r, hx, hp⟩ := ha.pending
  constructor
  · rw [ha.conns]
    exact h.conn
  · rw [ha.connections]
    exact h.listed
  · rw [ha.ran, hp]
    exact h.follows.insert hx hms
  · intro hg
    exact (h.quiet hg).adds ha fun m hm hmi ↦ absurd hmi (hq hg m hm)

/-- Calls are put into a loop that are about other connections. -/
theorem adds_other (h : s.Seen i io g n place) {x : Nat} {ms : List Call} (ha : Adds x ms s s')
    (hms : ∀ m ∈ ms, m.conn? ≠ some i) : s'.Seen i io g n place :=
  h.adds ha (fun m hm hmi ↦ hms m hm (conn_of_mem_script hmi)) fun _ ↦ hms

theorem adds_one (h : s.Seen i io g n place) {x : Nat} {m : Call} (ha : Adds x [m] s s')
    (hm : m.conn? ≠ some i) : s'.Seen i io g n place := by
  refine h.adds_other ha fun m' hm' ↦ ?_
  rw [List.mem_singleton.mp hm']
  exact hm

/-- The next call of the script is put into a loop. -/
theorem sends (h : s.Seen i io g n none) {x : Nat} {m : Call} (ha : Adds x [m] s s')
    (hm : (script i)[n]? = some m) : s'.Seen i io g n (some x) := by
  obtain ⟨l, r, hx, hp⟩ := ha.pending
  constructor
  · rw [ha.conns]
    exact h.conn
  · rw [ha.connections]
    exact h.listed
  · rw [ha.ran, hp]
    exact h.follows.send hx hm
  · intro hg
    refine (h.quiet hg).adds ha fun m' hm' _ ↦ ?_
    rw [List.mem_singleton.mp hm']
    exact List.mem_of_getElem? hm

/-- A call is taken that is none of the script. -/
theorem take (h : s.Seen i io g n place) {l : Nat} {k : Call} (hk : (s.loops l).next? = some k)
    (hki : k ∉ script i) : (s.take l k).Seen i io g n place := by
  obtain ⟨rest, hl, hp⟩ := pending_take hk
  refine ⟨h.conn, h.listed, ?_, fun hg ↦ (h.quiet hg).take hk⟩
  rw [hp]
  exact h.follows.pass hl hki

/-- The next call of the script is taken, from its place. -/
theorem take_script (h : s.Seen i io g n place) {l : Nat} {k : Call}
    (hk : (s.loops l).next? = some k) (hki : k ∈ script i) :
    place = some l ∧ (script i)[n]? = some k ∧ (s.take l k).Seen i io g (n + 1) none := by
  obtain ⟨rest, hl, hp⟩ := pending_take hk
  have hmem : k ∈ s.pending l := by
    rw [hl]
    exact List.mem_cons_self
  obtain ⟨hpl, hn⟩ := h.follows.next hmem hki
  refine ⟨hpl, hn, h.conn, h.listed, ?_, fun hg ↦ (h.quiet hg).take hk⟩
  rw [hp]
  exact h.follows.run hl hki

/-- Another connection changes. -/
theorem setConn_ne (h : s.Seen i io g n place) {j : Nat} (hj : j ≠ i) (c : Conn) :
    (s.setConn j c).Seen i io g n place := by
  refine ⟨?_, h.listed, h.follows, h.quiet⟩
  rw [setConn, List.getElem?_set_ne hj]
  exact h.conn

/-- The connection changes, and goes to stage `g'`. -/
theorem setConn (h : s.Seen i io g n place) {c c' : Conn} {g' : Stage} (hc : s.conns[i]? = some c)
    (hf : g'.Fits io (some c')) (hl : g'.Listed ↔ g.Listed)
    (hq : g'.callbacks = [] → g.callbacks = []) : (s.setConn i c').Seen i io g' n place := by
  obtain ⟨hi, -⟩ := List.getElem?_eq_some_iff.mp hc
  refine ⟨?_, h.listed.trans hl.symm, h.follows, fun hg ↦ h.quiet (hq hg)⟩
  rw [Server.setConn, List.getElem?_set_self hi]
  exact hf

/-- The stage changes with the calls only, not with the connection. -/
theorem stage (h : s.Seen i io g n place) {g' : Stage} (hg : g ≠ .unmade)
    (hc : g'.callbacks = g.callbacks) (ha : ∀ c, g.Allows c → g'.Allows c)
    (hl : g'.Listed ↔ g.Listed) : s.Seen i io g' n place := by
  refine ⟨?_, h.listed.trans hl.symm, h.follows, fun hq ↦ h.quiet (hc.symm.trans hq)⟩
  have hfits := h.conn
  cases ho : s.conns[i]? with
  | none =>
      rw [ho] at hfits
      exact absurd hfits hg
  | some c =>
      rw [ho] at hfits
      exact ⟨hfits.1, hfits.2.1.trans hc.symm, ha _ hfits.2.2⟩

/-- The connection is removed. -/
theorem erase (h : s.Seen i io .closing n place) :
    { s with connections_ := s.connections_.erase i }.Seen i io .removed n place := by
  refine ⟨?_, ?_, h.follows, nofun⟩
  · have hfits := h.conn
    cases ho : s.conns[i]? with
    | none =>
        rw [ho] at hfits
        cases hfits
    | some c =>
        rw [ho] at hfits
        exact hfits
  · exact ⟨fun hi ↦ absurd rfl (Finset.mem_erase.mp hi).1, nofun⟩

/-- Another connection is removed. -/
theorem erase_ne (h : s.Seen i io g n place) {j : Nat} (hj : i ≠ j) :
    { s with connections_ := s.connections_.erase j }.Seen i io g n place := by
  refine ⟨h.conn, ?_, h.follows, h.quiet⟩
  rw [Finset.mem_erase]
  exact ⟨fun hi ↦ h.listed.mp hi.2, fun hg ↦ ⟨hj, h.listed.mpr hg⟩⟩

/-- Another thread is about to push a task for the connection, which is known, or has pushed
one. -/
theorem setPushing (h : s.Seen i io g n place) {ps : List (Nat × List UInt8)}
    (hq : g.callbacks = [] → ∀ p ∈ ps, p.1 ≠ i) : { s with pushing := ps }.Seen i io g n place :=
  ⟨h.conn, h.listed, h.follows, fun hg ↦ ⟨(h.quiet hg).1, hq hg⟩⟩

end Seen

end Server

end RpcLearning.Net
