import RpcLearning.Lib.Exec

/-!
# Channels and the poller

A `Channel` (`NetServer/Channel.h`) holds the events its file descriptor waits for, and every
change of them goes to `EPoller::updateChannel` (`NetServer/EPoller.cpp`), which registers the
descriptor, changes its registration or takes it back.
-/

namespace RpcLearning.Net

def EPOLLIN : BitVec 32 := 1

def EPOLLPRI : BitVec 32 := 2

def EPOLLOUT : BitVec 32 := 4

def EPOLLERR : BitVec 32 := 8

def EPOLLHUP : BitVec 32 := 16

def EPOLLRDHUP : BitVec 32 := 0x2000

/-- What the poller has written into a channel: whether its descriptor is registered. -/
inductive PollerState where
  | IN
  | OUT
deriving DecidableEq, Repr

/-- The operations of `epoll_ctl`. -/
inductive EpollCtl where
  | ADD
  | MOD
  | DEL
deriving DecidableEq, Repr

/-- A channel, with the calls of `epoll_ctl` made for it. -/
structure Channel where
  events_ : BitVec 32
  state_ : PollerState
  ctls : List EpollCtl
deriving DecidableEq, Repr

namespace Channel

/-- `Channel(loop, fd)`. -/
def new : Channel := ⟨0, .OUT, []⟩

def isNoneEvents (c : Channel) : Bool := c.events_ = 0

def isReading (c : Channel) : Bool := c.events_ &&& EPOLLIN ≠ 0

def isWriting (c : Channel) : Bool := c.events_ &&& EPOLLOUT ≠ 0

/-- `update()`, which is `EPoller::updateChannel`. -/
def update (c : Channel) : Run Channel :=
  if c.state_ = .OUT then
    if c.isNoneEvents then .error .assertion
    else .ok { c with state_ := .IN, ctls := c.ctls ++ [.ADD] }
  else if c.isNoneEvents = false then .ok { c with ctls := c.ctls ++ [.MOD] }
  else .ok { c with state_ := .OUT, ctls := c.ctls ++ [.DEL] }

def enableRead (c : Channel) : Run Channel :=
  update { c with events_ := c.events_ ||| (EPOLLIN ||| EPOLLPRI) }

def enableWrite (c : Channel) : Run Channel :=
  update { c with events_ := c.events_ ||| EPOLLOUT }

def disableRead (c : Channel) : Run Channel :=
  update { c with events_ := c.events_ &&& ~~~EPOLLIN }

def disableWrite (c : Channel) : Run Channel :=
  update { c with events_ := c.events_ &&& ~~~EPOLLOUT }

def disableAll (c : Channel) : Run Channel :=
  update { c with events_ := 0 }

/-- The callbacks of a channel. -/
inductive Callback where
  | closeCallback_
  | errorCallback_
  | readCallback_
  | writeCallback_
deriving DecidableEq, Repr

/-- The callbacks that `handleEventsWithGuard()` calls, one after the other, for `revents_`. -/
def handleEventsWithGuard (revents_ : BitVec 32) : List Callback :=
  (if revents_ &&& EPOLLHUP ≠ 0 ∧ revents_ &&& EPOLLIN = 0 then [.closeCallback_] else []) ++
  (if revents_ &&& EPOLLERR ≠ 0 then [.errorCallback_] else []) ++
  (if revents_ &&& (EPOLLIN ||| EPOLLPRI ||| EPOLLRDHUP) ≠ 0 then [.readCallback_] else []) ++
  (if revents_ &&& EPOLLOUT ≠ 0 then [.writeCallback_] else [])

/-- What `epoll_wait` may report: the events a registered channel waits for, an error and a
hangup. -/
def Reports (c : Channel) (revents_ : BitVec 32) : Prop :=
  c.state_ = .IN ∧ revents_ &&& ~~~(c.events_ ||| EPOLLERR ||| EPOLLHUP) = 0

/-! ## What an update does -/

/-- A channel is registered exactly while it waits for something. -/
def Polled (c : Channel) : Prop := c.state_ = .IN ↔ c.events_ ≠ 0

/-- An update fails its assertion only where a channel that is not registered has no events; it
leaves the events as they are. -/
theorem exists_update {c : Channel} (h : c.state_ = .IN ∨ c.events_ ≠ 0) :
    ∃ c', c.update = .ok c' ∧ c'.events_ = c.events_ ∧ c'.Polled := by
  by_cases hs : c.state_ = .OUT
  · have he : c.events_ ≠ 0 := h.resolve_left (by simp [hs])
    refine ⟨_, (if_pos hs).trans (if_neg (by simpa [isNoneEvents] using he)), rfl, ?_⟩
    simpa [Polled] using he
  · have hin : c.state_ = .IN := by
      cases hc : c.state_ with
      | IN => rfl
      | OUT => exact absurd hc hs
    by_cases he : c.events_ = 0
    · refine ⟨_, (if_neg hs).trans (if_neg (by simp [isNoneEvents, he])), rfl, ?_⟩
      simp [Polled, he]
    · refine ⟨_, (if_neg hs).trans (if_pos (by simpa [isNoneEvents] using he)), rfl, ?_⟩
      simpa [Polled, hin] using he

/-- What a call of `epoll_ctl` does to the registration of a descriptor. -/
inductive Registers : EpollCtl → PollerState → PollerState → Prop
  | add : Registers .ADD .OUT .IN
  | mod : Registers .MOD .IN .IN
  | del : Registers .DEL .IN .OUT

/-- An update makes the call of `epoll_ctl` that fits the state it finds. -/
theorem update_registers {c c' : Channel} (h : c.update = .ok c') :
    ∃ ctl, Registers ctl c.state_ c'.state_ ∧ c'.ctls = c.ctls ++ [ctl] ∧
      c'.events_ = c.events_ ∧ c'.Polled := by
  have hne : c.isNoneEvents = false ↔ c.events_ ≠ 0 := by simp [isNoneEvents]
  obtain ⟨events_, state_, ctls⟩ := c
  unfold update at h
  cases state_ with
  | OUT =>
      simp only [if_true] at h
      split at h
      · cases h
      next he =>
        cases h
        refine ⟨_, .add, rfl, rfl, ?_⟩
        simpa [Polled] using hne.mp (Bool.eq_false_of_not_eq_true he)
  | IN =>
      simp only [reduceCtorEq, if_false] at h
      split at h
      next he =>
        cases h
        refine ⟨_, .mod, rfl, rfl, ?_⟩
        simpa [Polled] using hne.mp he
      next he =>
        cases h
        refine ⟨_, .del, rfl, rfl, ?_⟩
        simpa [Polled] using not_not.mp (mt hne.mpr he)

/-! ## The operations -/

/-- What an owner of a channel can ask for. -/
inductive Op where
  | enableRead
  | enableWrite
  | disableRead
  | disableWrite
  | disableAll
deriving DecidableEq, Repr

def Op.events (events : BitVec 32) : Op → BitVec 32
  | .enableRead => events ||| (EPOLLIN ||| EPOLLPRI)
  | .enableWrite => events ||| EPOLLOUT
  | .disableRead => events &&& ~~~EPOLLIN
  | .disableWrite => events &&& ~~~EPOLLOUT
  | .disableAll => 0

def apply (c : Channel) : Op → Run Channel
  | .enableRead => c.enableRead
  | .enableWrite => c.enableWrite
  | .disableRead => c.disableRead
  | .disableWrite => c.disableWrite
  | .disableAll => c.disableAll

theorem apply_eq (c : Channel) (op : Op) :
    c.apply op = update { c with events_ := op.events c.events_ } := by
  cases op <;> rfl

/-- Every operation makes one call of `epoll_ctl`, which fits the state. -/
theorem apply_registers {c c' : Channel} {op : Op} (h : c.apply op = .ok c') :
    ∃ ctl, Registers ctl c.state_ c'.state_ ∧ c'.ctls = c.ctls ++ [ctl] ∧
      c'.events_ = op.events c.events_ ∧ c'.Polled := by
  rw [apply_eq] at h
  exact update_registers h

/-- Enabling `EPOLLIN` fails no assertion. -/
theorem exists_enableRead (c : Channel) :
    ∃ c', c.enableRead = .ok c' ∧ c'.state_ = .IN := by
  have hb : (c.events_ ||| (EPOLLIN ||| EPOLLPRI)).getLsbD 0 = true := by
    rw [BitVec.getLsbD_or, show (EPOLLIN ||| EPOLLPRI).getLsbD 0 = true from rfl, Bool.or_true]
  have hne : c.events_ ||| (EPOLLIN ||| EPOLLPRI) ≠ 0 := by
    intro h0
    rw [h0] at hb
    exact absurd hb (by decide)
  obtain ⟨c', hu, he, hp⟩ := exists_update
    (c := { c with events_ := c.events_ ||| (EPOLLIN ||| EPOLLPRI) }) (.inr hne)
  exact ⟨c', hu, hp.mpr (by rw [he]; exact hne)⟩

/-- Disabling all events takes a registered channel out of the poller. -/
theorem exists_disableAll {c : Channel} (h : c.state_ = .IN) :
    ∃ c', c.disableAll = .ok c' ∧ c'.state_ = .OUT ∧ c'.events_ = 0 := by
  obtain ⟨c', hu, he, hp⟩ := exists_update (c := { c with events_ := 0 }) (.inl h)
  refine ⟨c', hu, ?_, he⟩
  cases hs : c'.state_ with
  | IN => exact absurd he (hp.mp hs)
  | OUT => rfl

/-- A channel that waits for urgent data goes on with it until all its events are disabled. -/
theorem priority_apply {c c' : Channel} {op : Op} (hop : op ≠ .disableAll)
    (h : c.apply op = .ok c') (hb : c.events_.getLsbD 1 = true) : c'.events_.getLsbD 1 = true := by
  obtain ⟨-, -, -, he, -⟩ := apply_registers h
  rw [he]
  cases op with
  | enableRead => simp [Op.events, hb]
  | enableWrite => simp [Op.events, hb]
  | disableRead => simp [Op.events, hb, EPOLLIN]
  | disableWrite => simp [Op.events, hb, EPOLLOUT]
  | disableAll => exact absurd rfl hop

/-! ## The bit of `EPOLLOUT` -/

theorem isWriting_of_getLsbD {c : Channel} (h : c.events_.getLsbD 2 = true) :
    c.isWriting = true := by
  refine decide_eq_true fun h0 ↦ ?_
  have h2 : (c.events_ &&& EPOLLOUT).getLsbD 2 = false := by rw [h0]; rfl
  rw [BitVec.getLsbD_and, h] at h2
  exact absurd h2 (by decide)

theorem events_ne_zero_of_isWriting {c : Channel} (h : c.isWriting = true) : c.events_ ≠ 0 := by
  intro h0
  simp [isWriting, h0] at h

theorem events_ne_zero_of_isReading {c : Channel} (h : c.isReading = true) : c.events_ ≠ 0 := by
  intro h0
  simp [isReading, h0] at h

theorem isReading_of_events_eq_zero {c : Channel} (h : c.events_ = 0) : c.isReading = false := by
  simp [isReading, h]

/-- Enabling `EPOLLOUT` fails no assertion. -/
theorem exists_enableWrite (c : Channel) :
    ∃ c', c.enableWrite = .ok c' ∧ c'.isWriting = true ∧ c'.Polled := by
  have hb : (c.events_ ||| EPOLLOUT).getLsbD 2 = true := by
    rw [BitVec.getLsbD_or, show EPOLLOUT.getLsbD 2 = true from rfl, Bool.or_true]
  have hne : c.events_ ||| EPOLLOUT ≠ 0 := by
    intro h0
    rw [h0] at hb
    exact absurd hb (by decide)
  obtain ⟨c', hu, he, hp⟩ := exists_update
    (c := { c with events_ := c.events_ ||| EPOLLOUT }) (.inr hne)
  exact ⟨c', hu, isWriting_of_getLsbD (he ▸ hb), hp⟩

/-- Disabling `EPOLLOUT` where it was enabled fails no assertion. -/
theorem exists_disableWrite {c : Channel} (h : c.Polled) (hw : c.isWriting = true) :
    ∃ c', c.disableWrite = .ok c' ∧ c'.isWriting = false ∧ c'.Polled := by
  have hin : c.state_ = .IN := h.mpr (events_ne_zero_of_isWriting hw)
  obtain ⟨c', hu, he, hp⟩ := exists_update
    (c := { c with events_ := c.events_ &&& ~~~EPOLLOUT }) (.inl hin)
  refine ⟨c', hu, ?_, hp⟩
  have he0 : c'.events_ &&& EPOLLOUT = 0 := by
    rw [he, BitVec.and_assoc]
    simp
  simp [isWriting, he0]

end Channel

end RpcLearning.Net
