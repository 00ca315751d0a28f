import RpcLearning.Net.Buffer.ReadFd
import RpcLearning.Net.TcpConnection.Output
import RpcLearning.Rpc.BaseServer.Pipelined

/-!
# Requests over a connection

A client that sends through its `TcpConnection`, the bytes on their way, and the server's end, which
reads them into its `Buffer` and calls `onMessage`.  Writes take what they take, reads get what they
get, and the client may send whenever it likes: the server handles what was sent, in that order and
each message once.
-/

namespace RpcLearning.Rpc

open Json Net Frames

/-- Both ends of a connection. -/
structure Link (σ : Type) where
  client : TcpConnection
  /-- What `::readv` has taken out of the server's socket. -/
  received : Bytes
  buffer : Buffer
  /-- What `handleRequest` works on, and what it was called with. -/
  state : σ
  handled : List Bytes
  /-- What the last `onMessage` caught, and the messages with which requests were rejected. -/
  thrown : Option ServerException
  rejections : List Bytes

inductive LinkStep where
  /-- A message of `BaseClient::sendJson` reaches `sendInLoop`, from the call itself or out of the
  loop's queue; `result` answers a direct write. -/
  | sendJson (value : Value) (result : WriteResult)
  /-- The client's socket can be written to. -/
  | handleWrite (result : WriteResult)
  /-- The client calls `shutdown`. -/
  | disconnecting
  /-- The server's socket can be read from, and `::readv` gets `data`. -/
  | handleRead (data : Bytes)

namespace Link

variable {σ : Type}

def start (s : σ) (highWaterMark : Nat) (writeCompleteCallback highWaterMarkCallback : Bool) :
    Link σ where
  client := .established highWaterMark writeCompleteCallback highWaterMarkCallback
  received := []
  buffer := Buffer.new kInitialSize
  state := s
  handled := []
  thrown := none
  rejections := []

variable [DoubleText]

/-- The server's `handleRead`, with `onMessage` as the message callback. -/
def handleRead (handleRequest : Bytes → σ → Run (σ × Option ServerException)) (data : Bytes)
    (l : Link σ) : Run (Link σ) :=
  if h : data.length ≤ l.buffer.segments ∧ data.length < 2 ^ 63 then do
    let r ← l.buffer.readFd (.received data h.1 h.2)
    match Buffer.branch r.n with
    | .received => do
      let (((xs, s), b), thrown) ←
        BaseServer.framing.handleMessage (recorded handleRequest) (([], l.state), r.buffer)
      let message ← BaseServer.catchException thrown
      .ok { l with
        received := l.received ++ data, buffer := b, state := s, handled := l.handled ++ xs,
        thrown := thrown, rejections := l.rejections ++ message.toList }
    | _ => .ok l
  else .error .assertion

/-- What one can do: write no more than there is, write where the loop is told that the socket can
be written to, and read what has arrived and fits. -/
def enabled (l : Link σ) : LinkStep → Prop
  | .sendJson value result => result.Within (frame (text value)).length
  | .handleWrite result =>
    l.client.channel_.isWriting = true ∧ result.Within l.client.outputBuffer_.readableBytes
  | .disconnecting => True
  | .handleRead data =>
    data ≠ [] ∧ data.length ≤ l.buffer.segments ∧ data.length < 2 ^ 63 ∧
      l.received ++ data <+: l.client.accepted

def perform (handleRequest : Bytes → σ → Run (σ × Option ServerException)) (l : Link σ) :
    LinkStep → Run (Link σ)
  | .sendJson value result => do
    let message ← Rpc.sendJson value
    let c ← l.client.sendInLoop message result
    .ok { l with client := c }
  | .handleWrite result => do
    let c ← l.client.handleWrite result
    .ok { l with client := c }
  | .disconnecting => .ok { l with client := l.client.disconnecting }
  | .handleRead data => l.handleRead handleRequest data

def machine (handleRequest : Bytes → σ → Run (σ × Option ServerException)) :
    Machine (Link σ) LinkStep := ⟨enabled, perform handleRequest⟩

/-- No write of `sendJson` reports that the peer is gone. -/
def KeepsPeer (l : Link σ) : LinkStep → Prop
  | .sendJson _ result => l.client.Reachable result
  | _ => True

end Link

/-- The step is one of the two loops' own. -/
def LinkStep.OfLoops : LinkStep → Prop
  | .handleWrite _ | .handleRead _ => True
  | _ => False

/-- The text that a step sends. -/
def LinkStep.sent? [DoubleText] : LinkStep → Option Bytes
  | .sendJson value _ => some (text value)
  | _ => none

theorem LinkStep.OfLoops.sent?_eq [DoubleText] {a : LinkStep} (h : a.OfLoops) :
    a.sent? = none := by
  cases a with
  | sendJson value result => exact h.elim
  | _ => rfl

namespace Link

variable {σ : Type}

/-- Nothing is on its way, and the last `onMessage` took all it could. -/
structure Drained (l : Link σ) : Prop where
  written : l.client.outputBuffer_.readable = []
  arrived : l.received = l.client.accepted
  returned : l.thrown = none

/-- The texts that were sent are in the client's stream, those before the ones that wait at the
server are handled, and what waits is not complete unless an exception has cut `onMessage` off. -/
structure Ordered (texts : List Bytes) (l : Link σ) : Prop where
  state : l.client.state_ ≠ .kDisconnected
  buffered : l.client.Buffered
  stream : l.client.stream = encodeAll frame texts
  arrived : l.received <+: l.client.accepted
  handled : ∃ done rest, texts = done ++ rest ∧ l.handled = done.map (· ++ crlf) ∧
    l.received = encodeAll frame done ++ l.buffer.readable ∧
    (l.thrown = none → Partial frame rest l.buffer.readable)

theorem ordered_start (s : σ) (highWaterMark : Nat) (b b' : Bool) :
    (start s highWaterMark b b').Ordered [] where
  state := by
    intro h
    cases h
  buffered := TcpConnection.buffered_established highWaterMark b b'
  stream := Buffer.readable_new kInitialSize
  arrived := List.nil_prefix
  handled := ⟨[], [], rfl, rfl, (Buffer.readable_new kInitialSize).symm, fun _ ↦ .nil []⟩

/-- A step of the client leaves the server alone. -/
theorem Ordered.client {texts ts : List Bytes} {l : Link σ} (h : l.Ordered texts)
    {c : TcpConnection} (hc : c.state_ ≠ .kDisconnected) (hb : c.Buffered)
    (hs : c.stream = l.client.stream ++ encodeAll frame ts)
    (ha : l.client.accepted <+: c.accepted) :
    Ordered (texts ++ ts) { l with client := c } where
  state := hc
  buffered := hb
  stream := by rw [hs, h.stream, encodeAll_append]
  arrived := h.arrived.trans ha
  handled := by
    obtain ⟨done, rest, rfl, hdone, hrec, hp⟩ := h.handled
    refine ⟨done, rest ++ ts, List.append_assoc .., hdone, hrec, fun ht ↦ ?_⟩
    exact (hp ht).append ts

/-- Where nothing is on its way, all is handled. -/
theorem Ordered.handled_of_drained {texts : List Bytes} {l : Link σ} (h : l.Ordered texts)
    (hd : l.Drained) : l.handled = texts.map (· ++ crlf) := by
  obtain ⟨done, rest, rfl, hdone, hrec, hp⟩ := h.handled
  have hwait : l.buffer.readable = encodeAll frame rest := by
    have hs := h.stream
    rw [TcpConnection.stream, hd.written, List.append_nil, ← hd.arrived, hrec,
      encodeAll_append] at hs
    exact List.append_cancel_left hs
  cases rest with
  | nil => rw [hdone, List.append_nil]
  | cons t rest =>
      have hlt := (hp hd.returned).length_lt (by simp [frame, crlf])
      rw [hwait, encodeAll_cons, List.length_append] at hlt
      omega

variable [DoubleText]

/-- The texts of the messages sent, in this order. -/
def sent (as : List LinkStep) : List Bytes := as.filterMap LinkStep.sent?

theorem mem_sent_append {as as' : List LinkStep} {t : Bytes} (h : t ∈ sent as) :
    t ∈ sent (as ++ as') := by
  rw [sent, List.filterMap_append]
  exact List.mem_append_left _ h

theorem sent_append_of_loops {as more : List LinkStep} (h : ∀ a ∈ more, a.OfLoops) :
    sent (as ++ more) = sent as := by
  rw [sent, List.filterMap_append, List.filterMap_eq_nil_iff.mpr fun a ha ↦ (h a ha).sent?_eq,
    List.append_nil, sent]

theorem countable_of_short {value : Value}
    (h : (text value).length + 2 < BaseServer.kMaxMessageLen) : value.Countable := by
  refine countable_of_length_text ?_
  rw [BaseServer.kMaxMessageLen] at h
  omega

/-! ## One step -/

/-- What a read leads to is decided by the calls to `handleRequest` that it makes, each with a text
that was sent: `onMessage` returns, or it rejects a request with a text that is gone. -/
theorem Ordered.handleRead {handleRequest : Bytes → σ → Run (σ × Option ServerException)}
    {texts : List Bytes} (hlen : ∀ t ∈ texts, t.length + 2 < BaseServer.kMaxMessageLen)
    {l : Link σ} (h : l.Ordered texts) {data : Bytes} (he : l.enabled (.handleRead data)) :
    ∃ (ts : List Bytes) (r : Run (σ × Option ServerException)), (∀ t ∈ ts, t ∈ texts) ∧
      Calls handleRequest l.state (ts.map (· ++ crlf)) r ∧
      (∀ f, r = .error f → l.handleRead handleRequest data = .error f) ∧
      ∀ s t, r = .ok (s, t) →
        (∃ l', l.handleRead handleRequest data = .ok l' ∧ l'.Ordered texts ∧
          l'.thrown = t ∧ l'.client = l.client ∧ l'.received = l.received ++ data) ∨
        t ≠ none ∧ l.handleRead handleRequest data = .error .dangling := by
  obtain ⟨hne, hfits, hsigned, harr⟩ := he
  obtain ⟨done, rest, rfl, hdone, hrec, -⟩ := h.handled
  obtain ⟨b, hb, hread⟩ := Buffer.exists_readFd hfits hsigned
  -- what waits and what was read are the beginning of the texts that are not handled
  obtain ⟨y, hy⟩ : ∃ y, (l.buffer.readable ++ data) ++ y = encodeAll frame rest := by
    obtain ⟨y, hy⟩ := harr.trans (List.prefix_append _ l.client.outputBuffer_.readable)
    have hcat : encodeAll frame done ++ ((l.buffer.readable ++ data) ++ y) =
        encodeAll frame done ++ encodeAll frame rest := by
      rw [← encodeAll_append, ← h.stream, TcpConnection.stream, ← hy, hrec]
      simp only [List.append_assoc]
    exact ⟨y, List.append_cancel_left hcat⟩
  obtain ⟨ts, rest, p, rfl, hts, hp⟩ := exists_split hy
  have hlen' : ∀ t ∈ ts ++ rest, t.length + 2 < BaseServer.kMaxMessageLen :=
    fun t ht ↦ hlen t (List.mem_append_right done ht)
  obtain ⟨ts, left, r, b', rfl, hrun, hcalls, hleft, hst⟩ :=
    BaseServer.handleMessage_frames handleRequest l.state hlen' hp (hread.trans hts)
  have hpos : Buffer.branch (data.length : Int) = .received := by
    have := List.length_pos_iff.mpr hne
    rw [Buffer.branch, if_neg (by omega), if_neg (by omega)]
  have hstep : l.handleRead handleRequest data = (do
      let (((xs, s), b), thrown) ←
        r.map fun q ↦ (((ts.map (· ++ crlf), q.1), b'), q.2)
      let message ← BaseServer.catchException thrown
      .ok { l with
        received := l.received ++ data, buffer := b, state := s, handled := l.handled ++ xs,
        thrown := thrown, rejections := l.rejections ++ message.toList }) := by
    rw [Link.handleRead, dif_pos ⟨hfits, hsigned⟩, hb, Exec.ok_bind]
    dsimp only
    rw [hpos, ← hrun]
  refine ⟨ts, r, fun t ht ↦ by simp [ht], hcalls, ?_, ?_⟩
  · rintro f rfl
    exact hstep
  · rintro s t rfl
    rw [Except.map, Exec.ok_bind] at hstep
    dsimp only at hstep
    rcases BaseServer.catchException_cases t with ⟨message, hm⟩ | ⟨⟨e, rfl⟩, hm⟩
    swap
    · rw [hm, Exec.error_bind] at hstep
      exact .inr ⟨Option.some_ne_none _, hstep⟩
    refine .inl ⟨{ l with
      received := l.received ++ data, buffer := b', state := s,
      handled := l.handled ++ ts.map (· ++ crlf), thrown := t,
      rejections := l.rejections ++ message.toList }, ?_, ?_, rfl, rfl, rfl⟩
    · rw [hstep, hm, Exec.ok_bind]
    refine ⟨h.state, h.buffered, h.stream, harr, done ++ ts, left ++ rest, ?_, ?_, ?_, fun ht ↦ ?_⟩
    · simp only [List.append_assoc]
    · rw [hdone, List.map_append]
    · rw [hrec, hleft, List.append_assoc, hts, encodeAll_append, encodeAll_append]
      simp only [List.append_assoc]
    · obtain rfl : t = none := ht
      rcases hst with hst | rfl
      · exact absurd rfl (hst s)
      · rw [hleft]
        exact hp

/-- A step keeps the order. -/
theorem Ordered.step {handleRequest : Bytes → σ → Run (σ × Option ServerException)}
    {as : List LinkStep} {a : LinkStep}
    (hlen : ∀ t ∈ sent (as ++ [a]), t.length + 2 < BaseServer.kMaxMessageLen) {l l' : Link σ}
    (h : l.Ordered (sent as)) (he : l.enabled a) (hk : l.KeepsPeer a)
    (hp : l.perform handleRequest a = .ok l') : l'.Ordered (sent (as ++ [a])) := by
  rw [sent, List.filterMap_append] at hlen ⊢
  cases a with
  | sendJson value result =>
      have hv : value.Countable :=
        countable_of_short (hlen _ (List.mem_append_right _ List.mem_cons_self))
      obtain ⟨c, hc, hs, -⟩ := TcpConnection.exists_sendInLoop h.state h.buffered he hk
      rw [perform, sendJson_eq hv, Exec.ok_bind, hc, Exec.ok_bind] at hp
      cases hp
      refine h.client ?_ hs.buffered ?_ hs.accepted
      · rw [hs.state]
        exact h.state
      · rw [hs.stream]
        show _ = _ ++ (frame (text value) ++ [])
        rw [List.append_nil]
  | handleWrite result =>
      obtain ⟨c, hc, hs, -⟩ := TcpConnection.exists_handleWrite h.state h.buffered he.1 he.2
      rw [perform, hc, Exec.ok_bind] at hp
      cases hp
      refine h.client ?_ hs.buffered hs.stream hs.accepted
      rw [hs.state]
      exact h.state
  | disconnecting =>
      cases hp
      refine h.client ?_ ⟨h.buffered.polled, h.buffered.writing⟩ ?_ (List.prefix_refl _)
      · intro h0
        cases h0
      · exact (List.append_nil _).symm
  | handleRead data =>
      obtain ⟨ts, r, -, -, hfault, hok⟩ :=
        h.handleRead (fun t ht ↦ hlen t (List.mem_append_left _ ht)) he
      rcases r with f | ⟨s, t⟩
      · cases hp.symm.trans (hfault f rfl)
      · rcases hok s t rfl with ⟨l₁, hl₁, ho, -⟩ | ⟨-, hfault⟩
        · cases hp.symm.trans hl₁
          exact (List.append_nil (sent as)).symm ▸ ho
        · cases hp.symm.trans hfault

/-! ## Runs -/

theorem ordered_of_runs {handleRequest : Bytes → σ → Run (σ × Option ServerException)} {s : σ}
    {highWaterMark : Nat} {b b' : Bool} {as : List LinkStep} {l : Link σ}
    (hlen : ∀ t ∈ sent as, t.length + 2 < BaseServer.kMaxMessageLen)
    (h : ((machine handleRequest).restrict KeepsPeer).Runs (start s highWaterMark b b') as
      (.ok l)) : l.Ordered (sent as) := by
  refine h.preserves (I := fun as l ↦
    (∀ t ∈ sent as, t.length + 2 < BaseServer.kMaxMessageLen) → l.Ordered (sent as)) ?_ ?_ hlen
  · intro _
    exact ordered_start s highWaterMark b b'
  · intro as l a l' hi he hp hlen
    exact (hi fun t ht ↦ hlen t (mem_sent_append ht)).step hlen he.1 he.2 hp

/-! ## Nothing gets stuck -/

/-- Each of the texts is handled without an exception. -/
def Accepts (handleRequest : Bytes → σ → Run (σ × Option ServerException))
    (texts : List Bytes) : Prop :=
  ∀ t ∈ texts, ∀ s, ∃ s', handleRequest (t ++ crlf) s = .ok (s', none)

omit [DoubleText] in
theorem Accepts.returns {handleRequest : Bytes → σ → Run (σ × Option ServerException)}
    {texts ts : List Bytes} (h : Accepts handleRequest texts) (hts : ∀ t ∈ ts, t ∈ texts) {s : σ}
    {r : Run (σ × Option ServerException)}
    (hc : Calls handleRequest s (ts.map (· ++ crlf)) r) : ∃ s', r = .ok (s', none) := by
  refine hc.returns fun x hx s ↦ ?_
  obtain ⟨t, ht, rfl⟩ := List.mem_map.mp hx
  exact h t (hts t ht) s

/-- What is on its way, where bytes in the client's buffer count twice. -/
def pending (l : Link σ) : Nat :=
  2 * l.client.outputBuffer_.readable.length + (l.client.accepted.length - l.received.length)

/-- While something is on its way, a step of the loops brings it closer. -/
theorem Ordered.exists_step {handleRequest : Bytes → σ → Run (σ × Option ServerException)}
    {texts : List Bytes} (hlen : ∀ t ∈ texts, t.length + 2 < BaseServer.kMaxMessageLen)
    (hacc : Accepts handleRequest texts) {l : Link σ} (h : l.Ordered texts)
    (hret : l.thrown = none) (hd : ¬ l.Drained) :
    ∃ a l', l.enabled a ∧ l.KeepsPeer a ∧ a.OfLoops ∧ l.perform handleRequest a = .ok l' ∧
      l'.Ordered texts ∧ l'.thrown = none ∧ l'.pending < l.pending := by
  have hle := h.arrived.length_le
  by_cases hout : l.client.outputBuffer_.readable = []
  · -- what the socket has taken can be read, one byte at least
    have hne : l.received ≠ l.client.accepted := fun heq ↦ hd ⟨hout, heq, hret⟩
    obtain ⟨y, hy⟩ := h.arrived
    obtain ⟨c, y, rfl⟩ : ∃ c y', y = c :: y' := by
      cases y with
      | nil => exact absurd (by rw [← hy, List.append_nil]) hne
      | cons c y => exact ⟨c, y, rfl⟩
    have he : l.enabled (.handleRead [c]) := by
      refine ⟨List.cons_ne_nil c [], ?_, by simp, ⟨y, ?_⟩⟩
      · rw [Buffer.segments, List.length_singleton, Buffer.kExtrabuf]
        split <;> omega
      · rw [List.append_assoc, List.singleton_append, hy]
    obtain ⟨ts, r, hts, hcalls, -, hok⟩ := h.handleRead hlen he
    obtain ⟨s, rfl⟩ := hacc.returns hts hcalls
    obtain ⟨l', hl', ho, ht, hc, hr⟩ := (hok s none rfl).resolve_right fun hf ↦ hf.1 rfl
    refine ⟨.handleRead [c], l', he, trivial, trivial, hl', ho, ht, ?_⟩
    have hlt : l.received.length < l.client.accepted.length := by
      rw [← hy, List.length_append, List.length_cons]
      omega
    rw [pending, pending, hc, hr, List.length_append, List.length_singleton]
    omega
  · -- the channel waits for the socket, which can take all
    have hw := h.buffered.writing.mpr hout
    obtain ⟨c, hc, hs, hnil⟩ := TcpConnection.exists_handleWrite_all h.state h.buffered hw
    have ho : Ordered (texts ++ []) { l with client := c } := by
      refine h.client ?_ hs.buffered hs.stream hs.accepted
      rw [hs.state]
      exact h.state
    rw [List.append_nil] at ho
    refine ⟨.handleWrite (.wrote l.client.outputBuffer_.readableBytes), { l with client := c },
      ⟨hw, le_refl _⟩, trivial, trivial, by rw [perform, hc, Exec.ok_bind], ho, hret, ?_⟩
    have hstream := congrArg List.length hs.stream
    simp only [TcpConnection.stream, hnil, List.length_append, List.length_nil] at hstream
    have hpos := List.length_pos_iff.mpr hout
    simp only [pending, hnil, List.length_nil]
    omega

/-- Where every text is accepted, no exception is ever thrown. -/
theorem thrown_of_runs {handleRequest : Bytes → σ → Run (σ × Option ServerException)} {s : σ}
    {highWaterMark : Nat} {b b' : Bool} {as : List LinkStep} {l : Link σ}
    (hlen : ∀ t ∈ sent as, t.length + 2 < BaseServer.kMaxMessageLen)
    (hacc : Accepts handleRequest (sent as))
    (h : ((machine handleRequest).restrict KeepsPeer).Runs (start s highWaterMark b b') as
      (.ok l)) : l.Ordered (sent as) ∧ l.thrown = none := by
  refine h.preserves (I := fun as l ↦
    (∀ t ∈ sent as, t.length + 2 < BaseServer.kMaxMessageLen) → Accepts handleRequest (sent as) →
      l.Ordered (sent as) ∧ l.thrown = none) ?_ ?_ hlen hacc
  · intro _ _
    exact ⟨ordered_start s highWaterMark b b', rfl⟩
  · intro as l a l' hi he hp hlen hacc
    have hlen' : ∀ t ∈ sent as, t.length + 2 < BaseServer.kMaxMessageLen :=
      fun t ht ↦ hlen t (mem_sent_append ht)
    have hacc' : Accepts handleRequest (sent as) := fun t ht ↦ hacc t (mem_sent_append ht)
    obtain ⟨ho, hret⟩ := hi hlen' hacc'
    refine ⟨ho.step hlen he.1 he.2 hp, ?_⟩
    cases a with
    | sendJson value result =>
        obtain ⟨message, -, hp⟩ := Exec.bind_eq_ok.mp hp
        obtain ⟨c, -, hp⟩ := Exec.bind_eq_ok.mp hp
        cases hp
        exact hret
    | handleWrite result =>
        obtain ⟨c, -, hp⟩ := Exec.bind_eq_ok.mp hp
        cases hp
        exact hret
    | disconnecting =>
        cases hp
        exact hret
    | handleRead data =>
        obtain ⟨ts, r, hts, hcalls, -, hok⟩ := ho.handleRead hlen' he.1
        obtain ⟨s, rfl⟩ := hacc'.returns hts hcalls
        obtain ⟨l₁, hl₁, -, ht, -⟩ := (hok s none rfl).resolve_right fun hf ↦ hf.1 rfl
        cases hp.symm.trans hl₁
        exact ht

/-- The loops alone can go on until nothing is on its way. -/
theorem exists_drained {handleRequest : Bytes → σ → Run (σ × Option ServerException)} {s : σ}
    {highWaterMark : Nat} {b b' : Bool} {as : List LinkStep} {l : Link σ}
    (hlen : ∀ t ∈ sent as, t.length + 2 < BaseServer.kMaxMessageLen)
    (hacc : Accepts handleRequest (sent as))
    (h : ((machine handleRequest).restrict KeepsPeer).Runs (start s highWaterMark b b') as
      (.ok l)) :
    ∃ more l', ((machine handleRequest).restrict KeepsPeer).Runs (start s highWaterMark b b')
        (as ++ more) (.ok l') ∧ (∀ a ∈ more, a.OfLoops) ∧ l'.Ordered (sent as) ∧ l'.Drained := by
  obtain ⟨ho, hret⟩ := thrown_of_runs hlen hacc h
  have hstep : ∀ as' l', (∃ more, as' = as ++ more ∧ (∀ a ∈ more, a.OfLoops) ∧
      l'.Ordered (sent as) ∧ l'.thrown = none ∧ more.length + l'.pending ≤ l.pending) →
      ¬ l'.Drained →
      ∃ a l'', ((machine handleRequest).restrict KeepsPeer).enabled l' a ∧
        ((machine handleRequest).restrict KeepsPeer).perform l' a = .ok l'' ∧
        ∃ more, as' ++ [a] = as ++ more ∧ (∀ a ∈ more, a.OfLoops) ∧ l''.Ordered (sent as) ∧
          l''.thrown = none ∧ more.length + l''.pending ≤ l.pending := by
    rintro as' l' ⟨more, rfl, hloops, ho, hret, hle⟩ hd
    obtain ⟨a, l'', he, hk, ha, hp, ho', hret', hlt⟩ := ho.exists_step hlen hacc hret hd
    refine ⟨a, l'', ⟨he, hk⟩, hp, more ++ [a], List.append_assoc .., ?_, ho', hret', ?_⟩
    · intro a' ha'
      rcases List.mem_append.mp ha' with ha' | ha'
      · exact hloops a' ha'
      · rwa [List.mem_singleton.mp ha']
    · rw [List.length_append, List.length_singleton]
      omega
  obtain ⟨as', l', hrun, ⟨more, rfl, hloops, ho, -⟩, hd⟩ :=
    Machine.Runs.exists_goal (n := as.length + l.pending) (fun as' l' hi ↦ by
      obtain ⟨more, rfl, -, -, -, hle⟩ := hi
      rw [List.length_append]
      omega) hstep h
      ⟨[], (List.append_nil as).symm, List.forall_mem_nil _, ho, hret, le_of_eq (Nat.zero_add _)⟩
  exact ⟨more, l', hrun, hloops, ho, hd⟩

/-- A message more, of which the socket takes one byte, if it is asked. -/
theorem exists_runs_sendJson {handleRequest : Bytes → σ → Run (σ × Option ServerException)}
    {s : σ} {highWaterMark : Nat} {b b' : Bool} {as : List LinkStep} {l : Link σ}
    (hlen : ∀ t ∈ sent as, t.length + 2 < BaseServer.kMaxMessageLen)
    (h : ((machine handleRequest).restrict KeepsPeer).Runs (start s highWaterMark b b') as
      (.ok l)) (value : Value) (hv : (text value).length + 2 < BaseServer.kMaxMessageLen) :
    ∃ l', ((machine handleRequest).restrict KeepsPeer).Runs (start s highWaterMark b b')
      (as ++ [.sendJson value (.wrote 1)]) (.ok l') := by
  have ho := ordered_of_runs hlen h
  have hw : (WriteResult.wrote 1).Within (frame (text value)).length := by
    show 1 ≤ (frame _).length
    simp only [frame, crlf, List.length_append, List.length_cons]
    omega
  have hk : l.client.Reachable (.wrote 1) := by
    right
    constructor <;> intro h <;> cases h
  obtain ⟨c, hc, -⟩ := TcpConnection.exists_sendInLoop ho.state ho.buffered hw hk
  have hp : l.perform handleRequest (.sendJson value (.wrote 1)) =
      .ok { l with client := c } := by
    rw [perform, sendJson_eq (countable_of_short hv), Exec.ok_bind, hc, Exec.ok_bind]
  exact ⟨_, h.then ⟨hw, hk⟩ hp⟩

end Link

/-- Two messages. -/
theorem Link.exists_runs_two (handleRequest : Bytes → Nat → Run (Nat × Option ServerException)) :
    let _ := noDoubles
    ∃ as l, ((machine handleRequest).restrict KeepsPeer).Runs (start 0 0 false false) as (.ok l) ∧
      sent as = [lit "null", lit "true"] ∧
      ∀ t ∈ sent as, t.length + 2 < BaseServer.kMaxMessageLen := by
  let _ := noDoubles
  have hlen : ∀ t ∈ [lit "null", lit "true"], t.length + 2 < BaseServer.kMaxMessageLen := by
    decide +kernel
  have h₀ : ((machine handleRequest).restrict KeepsPeer).Runs (start 0 0 false false) []
      (.ok (start 0 0 false false)) := .nil
  obtain ⟨l₁, h₁⟩ := exists_runs_sendJson (List.forall_mem_nil _) h₀ .null
    (hlen _ List.mem_cons_self)
  have hfirst : ∀ t ∈ sent ([] ++ [.sendJson .null (.wrote 1)]),
      t.length + 2 < BaseServer.kMaxMessageLen :=
    fun t ht ↦ hlen t (List.mem_singleton.mp ht ▸ List.mem_cons_self)
  obtain ⟨l₂, h₂⟩ := exists_runs_sendJson hfirst h₁ (.bool true)
    (hlen _ (List.mem_cons_of_mem _ List.mem_cons_self))
  exact ⟨_, l₂, h₂, rfl, hlen⟩

namespace Link

variable {σ : Type} [DoubleText]

/-! ## What was sent is handled -/

/-- Messages are handled in the order in which they were sent, each once; and where nothing is on
its way any more, all of them. -/
theorem handled_of_runs (handleRequest : Bytes → σ → Run (σ × Option ServerException)) {s : σ}
    {highWaterMark : Nat} {b b' : Bool} {as : List LinkStep} {l : Link σ}
    (hlen : ∀ t ∈ sent as, t.length + 2 < BaseServer.kMaxMessageLen)
    (h : ((machine handleRequest).restrict KeepsPeer).Runs (start s highWaterMark b b') as
      (.ok l)) :
    l.handled <+: (sent as).map (· ++ crlf) ∧
      (l.Drained → l.handled = (sent as).map (· ++ crlf)) := by
  have ho := ordered_of_runs hlen h
  refine ⟨?_, ho.handled_of_drained⟩
  obtain ⟨done, rest, heq, hdone, -⟩ := ho.handled
  rw [heq, hdone, List.map_append]
  exact List.prefix_append _ _

end Link

/-- Two messages, which have arrived. -/
theorem Link.handled_of_runs_two :
    ∃ l : Link Nat, l.Drained ∧ l.handled = [lit "null" ++ crlf, lit "true" ++ crlf] := by
  let _ := noDoubles
  let handleRequest : Bytes → Nat → Run (Nat × Option ServerException) :=
    fun _ n ↦ .ok (n + 1, none)
  obtain ⟨as, l, hrun, hsent, hlen⟩ := exists_runs_two handleRequest
  obtain ⟨more, l', hrun', hloops, -, hd⟩ :=
    exists_drained hlen (fun _ _ n ↦ ⟨n + 1, rfl⟩) hrun
  have hsent' : sent (as ++ more) = sent as := sent_append_of_loops hloops
  have hall := (handled_of_runs handleRequest (hsent' ▸ hlen) hrun').2 hd
  rw [hsent', hsent] at hall
  exact ⟨l', hd, hall⟩

namespace Link

variable {σ : Type} [DoubleText]

/-- From every state that is reached the loops alone can get all that was sent handled. -/
theorem exists_handled_of_runs {handleRequest : Bytes → σ → Run (σ × Option ServerException)}
    {s : σ} {highWaterMark : Nat} {b b' : Bool} {as : List LinkStep} {l : Link σ}
    (hlen : ∀ t ∈ sent as, t.length + 2 < BaseServer.kMaxMessageLen)
    (hacc : Accepts handleRequest (sent as))
    (h : ((machine handleRequest).restrict KeepsPeer).Runs (start s highWaterMark b b') as
      (.ok l)) :
    ∃ more l', ((machine handleRequest).restrict KeepsPeer).Runs (start s highWaterMark b b')
        (as ++ more) (.ok l') ∧ (∀ a ∈ more, a.OfLoops) ∧
      l'.handled = (sent as).map (· ++ crlf) := by
  obtain ⟨more, l', hrun, hloops, ho, hd⟩ := exists_drained hlen hacc h
  exact ⟨more, l', hrun, hloops, ho.handled_of_drained hd⟩

end Link

/-- Both are handled in the end. -/
theorem Link.exists_handled_of_runs_two :
    ∃ (more : List LinkStep) (l : Link Nat), (∀ a ∈ more, a.OfLoops) ∧
      l.handled = [lit "null" ++ crlf, lit "true" ++ crlf] := by
  let _ := noDoubles
  let handleRequest : Bytes → Nat → Run (Nat × Option ServerException) :=
    fun _ n ↦ .ok (n + 1, none)
  obtain ⟨as, l, hrun, hsent, hlen⟩ := exists_runs_two handleRequest
  obtain ⟨more, l', -, hloops, hall⟩ :=
    exists_handled_of_runs hlen (fun _ _ n ↦ ⟨n + 1, rfl⟩) hrun
  rw [hsent] at hall
  exact ⟨more, l', hloops, hall⟩

end RpcLearning.Rpc
