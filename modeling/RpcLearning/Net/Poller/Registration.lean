import RpcLearning.Net.Poller

/-!
# The registration of descriptors

Every call of `updateChannel` makes the call of `epoll_ctl` that fits the state of the channel, and
changes the state accordingly, so that the set of the kernel is what the states say.  A call fails
its assertion where a channel that is not registered is to be taken out: in a connector whose
`::connect` has answered at once, and in a connection that is closed a second time.
-/

namespace RpcLearning.Net

/-! ## What is known about an owner -/

namespace Owner

/-- What holds of an owner between two steps. -/
def Sound : Owner → Prop
  | .internal _ => True
  | .acceptor _ => True
  | .connector c => (c.channel_.state_ = .IN → c.started_ = true) ∧
      (c.connected_ = true → c.started_ = true ∧ c.channel_.state_ = .OUT)
  | .connection true w => w.conn.Live
  | .connection false w => w.conn.Unborn

variable {o o' : Owner}

theorem Sound.holds (h : o.Sound) (hin : o.channel.state_ = .IN) : o.holds = true := by
  cases o with
  | connector c =>
      cases hc : c.connected_ with
      | false => exact congrArg not hc
      | true => cases hin.symm.trans (h.2 hc).2
  | _ => rfl

/-- What a step makes of an owner that holds its descriptor. -/
structure Becomes (o o' : Owner) : Prop where
  holds : o.holds = true
  moved : TcpConnection.Moved o.channel o'.channel
  sound : o'.Sound

theorem becomes_enableRead (channel : Channel) :
    ∃ o', (internal channel).enableRead = .ok o' ∧ Becomes (internal channel) o' := by
  obtain ⟨ch, hch, -⟩ := Channel.exists_enableRead channel
  refine ⟨.internal ch, by rw [enableRead, hch, Exec.ok_bind], rfl, ?_, trivial⟩
  exact .inr ⟨.enableRead, hch⟩

theorem becomes_listen (a : Acceptor) :
    ∃ o', (acceptor a).listen = .ok o' ∧ Becomes (acceptor a) o' := by
  obtain ⟨ch, hch, -⟩ := Channel.exists_enableRead a.acceptChannel_
  refine ⟨.acceptor ⟨ch⟩, ?_, rfl, ?_, trivial⟩
  · rw [listen, Acceptor.listen, hch, Exec.ok_bind, Exec.ok_bind]
  · exact .inr ⟨.enableRead, hch⟩

/-- A connector whose `::connect` goes on waits until its descriptor can be written to. -/
theorem becomes_start {c : Connector} (h : (connector c).Sound) (hs : c.started_ = false)
    (err : Bool) :
    ∃ c', (connector c).start .inProgress err = .ok (.connector c') ∧
      Becomes (.connector c) (.connector c') ∧ c'.connected_ = false := by
  have hc : c.connected_ = false :=
    Bool.eq_false_of_not_eq_true fun hc ↦ Bool.false_ne_true (hs.symm.trans (h.2 hc).1)
  obtain ⟨ch, hch, -, -⟩ := Channel.exists_enableWrite c.channel_
  refine ⟨{ c with started_ := true, channel_ := ch }, ?_, ⟨?_, ?_, fun _ ↦ rfl, ?_⟩, hc⟩
  · simp only [start, Connector.start, hs, Bool.false_eq_true, if_false, hch, Exec.ok_bind]
  · exact congrArg not hc
  · exact .inr ⟨.enableWrite, hch⟩
  · exact fun hc' ↦ absurd (hc.symm.trans hc') Bool.false_ne_true

/-- A connector that handles an event is registered, and takes its channel out. -/
theorem becomes_handleWrite {c : Connector} (h : (connector c).Sound)
    (hin : c.channel_.state_ = .IN) (err : Bool) :
    ∃ c', (connector c).handleWrite err = .ok (.connector c') ∧
      Becomes (.connector c) (.connector c') := by
  have hs := h.1 hin
  obtain ⟨ch, hch, hout, -⟩ := Channel.exists_disableAll hin
  have hm : TcpConnection.Moved c.channel_ ch := .inr ⟨.disableAll, hch⟩
  have hsound : ∀ connected, (connector ⟨connected, true, c.newConnectionCallback_, ch⟩).Sound :=
    fun _ ↦ ⟨fun _ ↦ rfl, fun _ ↦ ⟨rfl, hout⟩⟩
  simp only [handleWrite, Connector.handleWrite, hs, if_true, hch, Exec.ok_bind]
  split
  · exact ⟨_, rfl, h.holds hin, hm, hsound c.connected_⟩
  split
  · exact ⟨_, rfl, h.holds hin, hm, hsound true⟩
  · exact ⟨_, rfl, h.holds hin, hm, hsound c.connected_⟩

theorem becomes_connectEstablished {w : Threads} (h : (connection false w).Sound)
    (hc : w.conn.state_ = .kConnecting) :
    ∃ o', (connection false w).connectEstablished = .ok o' ∧
      Becomes (connection false w) o' := by
  obtain ⟨c, hok, hg⟩ := TcpConnection.Unborn.connectEstablished h hc
  exact ⟨.connection true { w with conn := c },
    by rw [connectEstablished, hok, Exec.ok_bind], rfl, hg.moved, hg.live⟩

theorem becomes_perform {established : Bool} {w : Threads} {a : ThreadStep}
    (h : (connection established w).Sound) (he : w.enabled a)
    (hb : established = false → a.Elsewhere) (hx : w.ExchangesOpen a) (hn : ¬ w.Aborts a) :
    ∃ o', (connection established w).perform a = .ok o' ∧
      Becomes (connection established w) o' := by
  cases established with
  | false =>
      obtain ⟨w', hok, hu⟩ := Threads.exists_perform_elsewhere h (hb rfl)
      refine ⟨.connection false w', by rw [perform, hok, Exec.ok_bind], rfl, .inl ?_, hu⟩
      exact hu.channel.trans (TcpConnection.Unborn.channel h).symm
  | true =>
      obtain ⟨w', hok, hg⟩ := Threads.exists_perform h he hx hn
      exact ⟨.connection true w', by rw [perform, hok, Exec.ok_bind], rfl, hg.moved, hg.live⟩

end Owner

namespace Poller

open Function (update)

/-! ## The set of the kernel -/

/-- The set of the kernel is what the states of the channels say. -/
structure Matched (p : Poller) : Prop where
  mine : ∀ i r, p.owners i = some r →
    (r.owner.channel.state_ = .IN ↔ p.epoll r.fd = some i)
  owned : ∀ fd i, p.epoll fd = some i → ∃ r, p.owners i = some r ∧ r.fd = fd
  apart : ∀ i j r r', p.owners i = some r → p.owners j = some r' → r.owner.holds = true →
    r'.owner.holds = true → r.fd = r'.fd → i = j
  sound : ∀ i r, p.owners i = some r → r.owner.Sound
  errors : p.errors = 0

theorem matched_empty : empty.Matched where
  mine _ _ h := by cases h
  owned _ _ h := by cases h
  apart _ _ _ _ h := by cases h
  sound _ _ h := by cases h
  errors := rfl

theorem update_eq_some {α : Type} {f : Nat → Option α} {i j : Nat} {x y : α}
    (h : update f i (some x) j = some y) : (j = i ∧ y = x) ∨ (j ≠ i ∧ f j = some y) := by
  by_cases hji : j = i
  · subst hji
    rw [Function.update_self] at h
    exact .inl ⟨rfl, (Option.some.inj h).symm⟩
  · rw [Function.update_of_ne hji] at h
    exact .inr ⟨hji, h⟩

variable {p : Poller} {i fd : Nat} {r : Registrant} {o : Owner}

/-- A descriptor is registered for the owner that holds it, or not at all. -/
theorem Matched.epoll_eq (h : p.Matched) (hi : p.owners i = some r) (hr : r.owner.holds = true) :
    p.epoll r.fd = none ∨ p.epoll r.fd = some i := by
  cases he : p.epoll r.fd with
  | none => exact .inl rfl
  | some j =>
      obtain ⟨r', hj, hfd⟩ := h.owned _ _ he
      have hin := (h.mine j r' hj).mpr (hfd ▸ he)
      exact .inr (congrArg some (h.apart j i r' r hj hi ((h.sound j r' hj).holds hin) hr hfd))

/-- An owner changes, together with the registration of the descriptor that it holds. -/
theorem Matched.replace (h : p.Matched) (hi : p.owners i = some r) (hr : r.owner.holds = true)
    (hs : o.Sound) {v : Option Nat} (hv : v = none ∨ v = some i)
    (hin : o.channel.state_ = .IN ↔ v = some i) :
    Matched ⟨update p.owners i (some ⟨r.fd, o⟩), update p.epoll r.fd v, p.errors⟩ := by
  have hself : update p.epoll r.fd v r.fd = v := Function.update_self ..
  -- every owner was there before, with the same descriptor, and holds it only if it did
  have hold : ∀ j r', update p.owners i (some ⟨r.fd, o⟩) j = some r' →
      ∃ r₀, p.owners j = some r₀ ∧ r₀.fd = r'.fd ∧
        (r'.owner.holds = true → r₀.owner.holds = true) := by
    intro j r' hj
    rcases update_eq_some hj with ⟨rfl, rfl⟩ | ⟨-, hj⟩
    · exact ⟨r, hi, rfl, fun _ ↦ hr⟩
    · exact ⟨r', hj, rfl, id⟩
  refine ⟨fun j r' hj ↦ ?_, fun fd j he ↦ ?_, fun j k r₁ r₂ hj hk h₁ h₂ hfd ↦ ?_, fun j r' hj ↦ ?_,
    h.errors⟩
  · rcases update_eq_some hj with ⟨rfl, rfl⟩ | ⟨hji, hj⟩
    · change _ ↔ update p.epoll r.fd v r.fd = some j
      rw [hself]
      exact hin
    · by_cases hfd : r'.fd = r.fd
      · refine iff_of_false (fun hin' ↦ ?_) fun he ↦ ?_
        · exact hji (h.apart j i r' r hj hi ((h.sound j r' hj).holds hin') hr hfd)
        · change update p.epoll r.fd v r'.fd = some j at he
          rw [hfd, hself] at he
          rcases hv with rfl | rfl
          · cases he
          · exact hji (Option.some.inj he).symm
      · change _ ↔ update p.epoll r.fd v r'.fd = some j
        rw [Function.update_of_ne hfd]
        exact h.mine j r' hj
  · by_cases hfd : fd = r.fd
    · subst hfd
      have hv' : v = some j := hself.symm.trans he
      have hji : j = i := by
        rcases hv with rfl | rfl
        · cases hv'
        · exact (Option.some.inj hv').symm
      subst hji
      exact ⟨⟨r.fd, o⟩, Function.update_self .., rfl⟩
    · obtain ⟨r', hj, rfl⟩ := h.owned _ _ ((Function.update_of_ne hfd ..).symm.trans he)
      have hji : j ≠ i := by
        rintro rfl
        cases hi.symm.trans hj
        exact hfd rfl
      exact ⟨r', (Function.update_of_ne hji ..).trans hj, rfl⟩
  · obtain ⟨r₁', hj', hfd₁, hh₁⟩ := hold j r₁ hj
    obtain ⟨r₂', hk', hfd₂, hh₂⟩ := hold k r₂ hk
    exact h.apart j k r₁' r₂' hj' hk' (hh₁ h₁) (hh₂ h₂) (hfd₁.trans (hfd.trans hfd₂.symm))
  · rcases update_eq_some hj with ⟨rfl, rfl⟩ | ⟨-, hj⟩
    · exact hs
    · exact h.sound j r' hj

/-- The calls of `epoll_ctl` do not fail, and register the descriptor exactly where the state of
the channel says so. -/
theorem Matched.set_eq (h : p.Matched) (hi : p.owners i = some r) (hb : r.owner.Becomes o) :
    ∃ v, p.set i r o = ⟨update p.owners i (some ⟨r.fd, o⟩), update p.epoll r.fd v, p.errors⟩ ∧
      (v = none ∨ v = some i) ∧ (o.channel.state_ = .IN ↔ v = some i) := by
  have hmine := h.mine i r hi
  have hepoll := h.epoll_eq hi hb.holds
  rcases hb.moved with hsame | ⟨op, hop⟩
  · refine ⟨p.epoll r.fd, ?_, hepoll, by rw [hsame]; exact hmine⟩
    rw [Function.update_eq_self, set, hsame, List.drop_length]
    rfl
  · obtain ⟨ctl, hreg, hctls, -, -⟩ := Channel.apply_registers hop
    have hset : p.set i r o = epollCtl r.fd i (p.create i ⟨r.fd, o⟩) ctl := by
      rw [set, hctls, List.drop_left]
      rfl
    rw [hset]
    generalize r.owner.channel.state_ = s at hreg hmine
    generalize o.channel.state_ = s' at hreg
    cases hreg with
    | add =>
        have hnone : p.epoll r.fd = none := hepoll.resolve_right fun he ↦ nomatch hmine.mpr he
        refine ⟨some i, ?_, .inr rfl, iff_of_true rfl rfl⟩
        simp only [epollCtl, create, hnone]
    | mod =>
        have hsome : p.epoll r.fd = some i := hmine.mp rfl
        refine ⟨some i, ?_, .inr rfl, iff_of_true rfl rfl⟩
        simp only [epollCtl, create, hsome]
    | del =>
        have hsome : p.epoll r.fd = some i := hmine.mp rfl
        refine ⟨none, ?_, .inl rfl, iff_of_false nofun nofun⟩
        simp only [epollCtl, create, hsome]

theorem Matched.set (h : p.Matched) (hi : p.owners i = some r) (hb : r.owner.Becomes o) :
    (p.set i r o).Matched := by
  obtain ⟨v, hset, hv, hin⟩ := h.set_eq hi hb
  rw [hset]
  exact h.replace hi hb.holds hb.sound hv hin

/-- A new owner, with a descriptor that nobody holds. -/
theorem Matched.create (h : p.Matched) (hi : p.owners i = none) (hu : p.Unused fd)
    (hs : o.Sound) (hout : o.channel.state_ = .OUT) : (p.create i ⟨fd, o⟩).Matched := by
  have hne : ∀ {j r'}, p.owners j = some r' → j ≠ i := by
    rintro j r' hj rfl
    cases hi.symm.trans hj
  refine ⟨fun j r' hj ↦ ?_, fun fd' j he ↦ ?_, fun j k r₁ r₂ hj hk h₁ h₂ hfd ↦ ?_, fun j r' hj ↦ ?_,
    h.errors⟩
  · rcases update_eq_some hj with ⟨rfl, rfl⟩ | ⟨-, hj⟩
    · refine iff_of_false (fun hin ↦ nomatch hout.symm.trans hin) fun he ↦ ?_
      obtain ⟨r'', hj', -⟩ := h.owned _ _ he
      exact hne hj' rfl
    · exact h.mine j r' hj
  · obtain ⟨r', hj, hfd⟩ := h.owned _ _ he
    exact ⟨r', (Function.update_of_ne (hne hj) ..).trans hj, hfd⟩
  · rcases update_eq_some hj with ⟨rfl, rfl⟩ | ⟨-, hj'⟩
    · rcases update_eq_some hk with ⟨rfl, -⟩ | ⟨-, hk'⟩
      · rfl
      · exact absurd hfd.symm (hu k r₂ hk' h₂)
    · rcases update_eq_some hk with ⟨rfl, rfl⟩ | ⟨-, hk'⟩
      · exact absurd hfd (hu j r₁ hj' h₁)
      · exact h.apart j k r₁ r₂ hj' hk' h₁ h₂ hfd
  · rcases update_eq_some hj with ⟨rfl, rfl⟩ | ⟨-, hj⟩
    · exact hs
    · exact h.sound j r' hj

/-- An owner goes, and closes the descriptor that it holds. -/
theorem Matched.remove (h : p.Matched) (hi : p.owners i = some r) :
    Matched ⟨update p.owners i none,
      if r.owner.holds then update p.epoll r.fd none else p.epoll, p.errors⟩ := by
  have hold : ∀ {j r'}, update p.owners i none j = some r' → j ≠ i ∧ p.owners j = some r' := by
    intro j r' hj
    by_cases hji : j = i
    · subst hji
      rw [Function.update_self] at hj
      cases hj
    · exact ⟨hji, (Function.update_of_ne hji ..).symm.trans hj⟩
  -- nothing is registered for it any more, and the registrations of the others are kept
  have hepoll : ∀ fd j, (if r.owner.holds then update p.epoll r.fd none else p.epoll) fd = some j ↔
      j ≠ i ∧ p.epoll fd = some j := by
    intro fd j
    cases hr : r.owner.holds with
    | true =>
        rw [if_pos rfl]
        by_cases hfd : fd = r.fd
        · subst hfd
          rw [Function.update_self]
          refine iff_of_false nofun fun ⟨hji, he⟩ ↦ ?_
          rcases h.epoll_eq hi hr with hnone | hsome
          · cases hnone.symm.trans he
          · cases hsome.symm.trans he
            exact hji rfl
        · rw [Function.update_of_ne hfd]
          refine ⟨fun he ↦ ⟨?_, he⟩, And.right⟩
          rintro rfl
          obtain ⟨r', hj, rfl⟩ := h.owned _ _ he
          cases hi.symm.trans hj
          exact hfd rfl
    | false =>
        rw [if_neg Bool.false_ne_true]
        refine ⟨fun he ↦ ⟨?_, he⟩, And.right⟩
        rintro rfl
        obtain ⟨r', hj, rfl⟩ := h.owned _ _ he
        cases hi.symm.trans hj
        have hin := (h.mine _ r hi).mpr he
        exact Bool.false_ne_true (hr.symm.trans ((h.sound _ r hi).holds hin))
  refine ⟨fun j r' hj ↦ ?_, fun fd j he ↦ ?_, fun j k r₁ r₂ hj hk h₁ h₂ hfd ↦ ?_, fun j r' hj ↦ ?_,
    h.errors⟩
  · obtain ⟨hji, hj⟩ := hold hj
    rw [hepoll, h.mine j r' hj]
    exact (and_iff_right hji).symm
  · obtain ⟨hji, he⟩ := (hepoll fd j).mp he
    obtain ⟨r', hj, hfd⟩ := h.owned _ _ he
    exact ⟨r', (Function.update_of_ne hji ..).trans hj, hfd⟩
  · exact h.apart j k r₁ r₂ (hold hj).2 (hold hk).2 h₁ h₂ hfd
  · exact h.sound j r' (hold hj).2

/-! ## Steps -/

theorem Matched.call (h : p.Matched) (hi : p.owners i = some r) {f : Owner → Run Owner}
    (hf : ∃ o, f r.owner = .ok o ∧ r.owner.Becomes o) :
    ∃ p', p.call i f = .ok p' ∧ p'.Matched := by
  obtain ⟨o, hok, hb⟩ := hf
  exact ⟨p.set i r o, by simp only [Poller.call, hi, hok, Exec.ok_bind], h.set hi hb⟩

theorem owners_call_ne {j : Nat} (h : p.Matched) (hi : p.owners i = some r)
    (hb : r.owner.Becomes o) (hji : j ≠ i) : (p.set i r o).owners j = p.owners j := by
  obtain ⟨v, hset, -⟩ := h.set_eq hi hb
  rw [hset]
  exact Function.update_of_ne hji ..

/-- A connector that has succeeded holds its descriptor no more, and a connection does. -/
theorem Matched.handOver {c c' : Connector} {j : Nat} (h : p.Matched)
    (hi : p.owners i = some ⟨fd, .connector c⟩) (hj : p.owners j = none)
    (hb : (Owner.connector c).Becomes (.connector c')) (options : ConnectionOptions) :
    ((p.set i ⟨fd, .connector c⟩ (.connector c')).handOver i j options).Matched := by
  have hset := h.set hi hb
  obtain ⟨v, heq, -, -⟩ := h.set_eq hi hb
  have hself : (p.set i ⟨fd, .connector c⟩ (.connector c')).owners i =
      some ⟨fd, .connector c'⟩ := by
    rw [heq]
    exact Function.update_self ..
  simp only [Poller.handOver, hself]
  split
  next hc =>
    have hji : j ≠ i := by
      rintro rfl
      cases hj.symm.trans hi
    refine hset.create ((owners_call_ne h hi hb hji).trans hj) ?_ ?_ rfl
    · intro k r' hk hr hfd
      by_cases hki : k = i
      · subst hki
        cases hself.symm.trans hk
        exact absurd hc (Bool.eq_false_iff.mp (Bool.not_eq_true' _ ▸ hr))
      · rw [owners_call_ne h hi hb hki] at hk
        exact hki (h.apart k i r' _ hk hi hr hb.holds hfd)
    · exact ⟨_, _, _, .inl rfl⟩
  · exact hset

theorem Matched.destroy (h : p.Matched) (hi : p.owners i = some r)
    (hn : ∀ established w, r.owner = .connection established w →
      w.conn.state_ = .kDisconnected) : ∃ p', p.destroy i = .ok p' ∧ p'.Matched := by
  refine ⟨_, ?_, h.remove hi⟩
  simp only [Poller.destroy, hi]
  split
  next established w ho => exact if_pos (hn established w ho)
  · rfl

/-- A `::connect` does not answer at once, and no thread exchanges the state of a closed
connection. -/
def Regular (p : Poller) : PollerStep → Prop
  | .start _ result _ _ _ => result = .inProgress
  | .thread i a => ∀ fd established w, p.owners i = some ⟨fd, .connection established w⟩ →
      w.ExchangesOpen a
  | _ => True

/-- A regular step that does not start with an assertion of its own succeeds, and leaves the set of
the kernel as the channels say. -/
theorem Matched.perform {a : PollerStep} (h : p.Matched) (he : p.enabled a) (hr : p.Regular a)
    (hn : ¬ p.Aborts a) : ∃ p', p.perform a = .ok p' ∧ p'.Matched := by
  cases a with
  | internal i fd =>
      have hc : (p.create i ⟨fd, .internal Channel.new⟩).Matched :=
        h.create he.1 he.2 trivial rfl
      exact hc.call (Function.update_self ..) (Owner.becomes_enableRead Channel.new)
  | acceptor i fd => exact ⟨_, rfl, h.create he.1 he.2 trivial rfl⟩
  | connector i fd newConnectionCallback =>
      exact ⟨_, rfl, h.create he.1 he.2 ⟨nofun, nofun⟩ rfl⟩
  | connection i fd options =>
      exact ⟨_, rfl, h.create he.1 he.2 ⟨_, _, _, .inl rfl⟩ rfl⟩
  | listen i =>
      obtain ⟨fd, a, hi⟩ := he
      exact h.call hi (Owner.becomes_listen a)
  | start i result err j options =>
      obtain ⟨⟨fd, c, hi⟩, hj⟩ := he
      have hs : c.started_ = false := Bool.eq_false_of_not_eq_true fun hs ↦ hn ⟨fd, c, hi, hs⟩
      cases hr
      obtain ⟨c', hok, hb, -⟩ := Owner.becomes_start (h.sound i _ hi) hs err
      refine ⟨_, ?_, h.handOver hi hj hb options⟩
      simp only [Poller.perform, Poller.call, hi, hok, Exec.ok_bind]
  | handleWrite i err j options =>
      obtain ⟨⟨fd, c, hi, hepoll⟩, hj⟩ := he
      have hin : c.channel_.state_ = .IN := (h.mine i _ hi).mpr hepoll
      obtain ⟨c', hok, hb⟩ := Owner.becomes_handleWrite (h.sound i _ hi) hin err
      refine ⟨_, ?_, h.handOver hi hj hb options⟩
      simp only [Poller.perform, Poller.call, hi, hok, Exec.ok_bind]
  | connectEstablished i =>
      obtain ⟨fd, w, hi⟩ := he
      have hc : w.conn.state_ = .kConnecting := Classical.not_not.mp fun hc ↦ hn ⟨fd, w, hi, hc⟩
      exact h.call hi (Owner.becomes_connectEstablished (h.sound i _ hi) hc)
  | thread i a =>
      obtain ⟨fd, established, w, hi, hw, hb⟩ := he
      exact h.call hi (Owner.becomes_perform (h.sound i _ hi) hw hb (hr fd established w hi)
        fun ha ↦ hn ⟨fd, established, w, hi, ha⟩)
  | destroy i =>
      obtain ⟨r, hi⟩ := Option.ne_none_iff_exists'.mp he
      refine h.destroy hi fun established w ho ↦ Classical.not_not.mp fun hd ↦ hn ?_
      exact ⟨r.fd, established, w, by rw [hi, ← ho], hd⟩

/-- An assertion that a function makes first ends the run. -/
theorem perform_of_aborts {a : PollerStep} (h : p.Aborts a) :
    p.perform a = .error .assertion := by
  cases a with
  | start i result err j options =>
      obtain ⟨fd, c, hi, hs⟩ := h
      simp only [Poller.perform, call, hi, Owner.start, Connector.start, hs, if_true]
      rfl
  | connectEstablished i =>
      obtain ⟨fd, w, hi, hc⟩ := h
      simp only [Poller.perform, call, hi, Owner.connectEstablished,
        TcpConnection.connectEstablished, hc, if_false]
      rfl
  | thread i a =>
      obtain ⟨fd, established, w, hi, ha⟩ := h
      simp only [Poller.perform, call, hi, Owner.perform, Threads.perform_of_aborts ha]
      rfl
  | destroy i =>
      obtain ⟨fd, established, w, hi, hd⟩ := h
      simp only [Poller.perform, Poller.destroy, hi, hd, if_false]
  | _ => exact h.elim

/-! ## Runs -/

/-- A channel is registered exactly while its state is `IN`, no call of `epoll_ctl` has failed, and
a descriptor that an owner holds is in the set for this owner's channel or not at all. -/
structure Registered (p : Poller) : Prop where
  mine : ∀ i r, p.owners i = some r →
    (r.owner.channel.state_ = .IN ↔ p.epoll r.fd = some i)
  held : ∀ i r, p.owners i = some r → r.owner.holds = true →
    (r.owner.channel.state_ = .IN ↔ p.epoll r.fd ≠ none)
  errors : p.errors = 0

theorem Matched.registered (h : p.Matched) : p.Registered where
  mine := h.mine
  held i r hi hr := by
    rw [h.mine i r hi]
    refine ⟨fun he ↦ by rw [he]; exact nofun, fun he ↦ ?_⟩
    exact (h.epoll_eq hi hr).resolve_left he
  errors := h.errors

/-- In runs of regular steps the channels are registered as their states say, and every step
succeeds, with all its calls of `updateChannel`, or it starts with an assertion of its own that
fails. -/
theorem registered_of_runs {as : List PollerStep}
    (h : (machine.restrict Regular).Runs empty as (.ok p)) :
    p.Registered ∧ ∀ a, p.enabled a → p.Regular a →
      (∃ p', p.perform a = .ok p') ∨ p.Aborts a := by
  have hm := h.preserves (I := fun _ p ↦ p.Matched) matched_empty
    fun _ p a p' hm ⟨he, hr⟩ hok ↦ by
      have hn : ¬ p.Aborts a := fun ha ↦ nomatch hok.symm.trans (perform_of_aborts ha)
      obtain ⟨p'', hok', hm'⟩ := hm.perform he hr hn
      cases hok'.symm.trans hok
      exact hm'
  refine ⟨hm.registered, fun a he hr ↦ ?_⟩
  by_cases hn : p.Aborts a
  · exact .inr hn
  · obtain ⟨p', hok, -⟩ := hm.perform he hr hn
    exact .inl ⟨p', hok⟩

/-- A connector succeeds, and the connection registers the descriptor again. -/
theorem registered_of_runs_sample : ∃ p : Poller, p.epoll 5 = some 1 ∧ p.Registered := by
  let c₁ : Owner := .connector ⟨false, true, true, ⟨EPOLLOUT, .IN, [.ADD]⟩⟩
  let c₂ : Owner := .connector ⟨true, true, true, ⟨0, .OUT, [.ADD, .DEL]⟩⟩
  let w : Owner := .connection false (Threads.start (TcpConnection.new 0 false false))
  let w₁ : Owner := .connection true (Threads.start (TcpConnection.established 0 false false))
  let p₁ := empty.create 0 ⟨5, .connector (Connector.new true)⟩
  let p₂ := p₁.set 0 ⟨5, .connector (Connector.new true)⟩ c₁
  let p₃ := (p₂.set 0 ⟨5, c₁⟩ c₂).create 1 ⟨5, w⟩
  have hnew : (machine.restrict Regular).Runs empty [] (.ok empty) := .nil
  have h₁ : (machine.restrict Regular).Runs empty _ (.ok p₁) :=
    hnew.then (a := PollerStep.connector 0 5 true)
      ⟨⟨rfl, fun _ _ h ↦ by cases h⟩, trivial⟩ rfl
  have h₂ : (machine.restrict Regular).Runs empty _ (.ok p₂) :=
    h₁.then (a := PollerStep.start 0 .inProgress false 1 ⟨0, false, false⟩)
      ⟨⟨⟨5, _, rfl⟩, rfl⟩, rfl⟩ rfl
  have h₃ : (machine.restrict Regular).Runs empty _ (.ok p₃) :=
    h₂.then (a := PollerStep.handleWrite 0 false 1 ⟨0, false, false⟩)
      ⟨⟨⟨5, _, rfl, rfl⟩, rfl⟩, trivial⟩ rfl
  have h₄ : (machine.restrict Regular).Runs empty _ (.ok (p₃.set 1 ⟨5, w⟩ w₁)) :=
    h₃.then (a := PollerStep.connectEstablished 1) ⟨⟨5, _, rfl⟩, trivial⟩ rfl
  exact ⟨_, rfl, (registered_of_runs h₄).1⟩

/-- `::connect` answers at once: the channel that is taken out of the poller was never in it. -/
theorem not_registered_connected :
    ¬ ∀ (as : List PollerStep) (p : Poller), machine.Runs empty as (.ok p) →
      ∀ a, p.enabled a → (∃ p', p.perform a = .ok p') ∨ p.Aborts a := by
  intro h
  let p₁ : Poller := empty.create 0 ⟨5, .connector (Connector.new true)⟩
  have hnew : machine.Runs empty [] (.ok empty) := .nil
  have hconnector : machine.Runs empty _ (.ok p₁) :=
    hnew.then (a := PollerStep.connector 0 5 true) ⟨rfl, fun _ _ h ↦ by cases h⟩ rfl
  have hfault : p₁.perform (.start 0 .connected false 1 ⟨0, false, false⟩) =
    .error .assertion := rfl
  rcases h _ p₁ hconnector (.start 0 .connected false 1 ⟨0, false, false⟩) ⟨⟨5, _, rfl⟩, rfl⟩ with
    ⟨p', hok⟩ | ⟨fd, c, hi, hs⟩
  · cases hfault.symm.trans hok
  · cases hi
    cases hs

end Poller

end RpcLearning.Net
