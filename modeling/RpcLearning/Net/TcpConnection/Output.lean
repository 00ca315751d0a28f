import RpcLearning.Lib.Machine
import RpcLearning.Net.TcpConnection

/-!
# The outgoing stream

A connection that is sent to, in the loop thread, while its channel reports when the socket can be
written to.  As long as the peer is not found to be gone, what the socket has taken and what waits
in the buffer are together what was sent.
-/

namespace RpcLearning.Net.TcpConnection

/-- The calls and events of a connection that is neither closed nor destroyed. -/
inductive Output where
  | sendInLoop (data : List UInt8) (result : WriteResult)
  | handleWrite (result : WriteResult)
  | disconnecting

namespace Output

/-- The data that a step passes to `sendInLoop`. -/
def data : Output → List UInt8
  | .sendInLoop data _ => data
  | .handleWrite _ => []
  | .disconnecting => []

/-- No write of `sendInLoop` reports that the peer is gone. -/
def KeepsPeer (c : TcpConnection) : Output → Prop
  | .sendInLoop _ result => c.Reachable result
  | .handleWrite _ => True
  | .disconnecting => True

end Output

/-- A write takes no more than it is given, and `handleWrite` is called while `EPOLLOUT` is
enabled. -/
def output : Machine TcpConnection Output where
  enabled c
    | .sendInLoop data result => result.Within data.length
    | .handleWrite result =>
        c.channel_.isWriting = true ∧ result.Within c.outputBuffer_.readableBytes
    | .disconnecting => True
  perform
    | c, .sendInLoop data result => c.sendInLoop data result
    | c, .handleWrite result => c.handleWrite result
    | c, .disconnecting => .ok c.disconnecting

/-- A write that takes all that is waiting leaves nothing in the buffer. -/
theorem exists_handleWrite_all {c : TcpConnection} (hc : c.state_ ≠ .kDisconnected)
    (hb : c.Buffered) (hw : c.channel_.isWriting = true) :
    ∃ c', c.handleWrite (.wrote c.outputBuffer_.readableBytes) = .ok c' ∧ Sent [] c c' ∧
      c'.outputBuffer_.readable = [] := by
  have hr : (WriteResult.wrote c.outputBuffer_.readableBytes).Within
      c.outputBuffer_.readableBytes := le_refl _
  obtain ⟨c', h, hs, -⟩ := exists_handleWrite hc hb hw hr
  refine ⟨c', h, hs, ?_⟩
  have hne : c.outputBuffer_.readableBytes ≠ 0 := by
    rw [← Buffer.length_readable]
    exact fun h0 ↦ hb.writing.mp hw (List.length_eq_zero_iff.mp h0)
  obtain ⟨b, hre, hbr⟩ := Buffer.exists_retrieve (le_refl c.outputBuffer_.readableBytes)
  obtain ⟨ch, hdw, hwr, hp⟩ := Channel.exists_disableWrite hb.polled hw
  rw [← Buffer.length_readable, List.drop_length] at hbr
  have hb0 : b.readableBytes = 0 := by rw [← Buffer.length_readable, hbr, List.length_nil]
  have hbuf := (sent_afterDrain (c := { c with
    outputBuffer_ := b, channel_ := ch,
    accepted := c.accepted ++ c.outputBuffer_.readable.take c.outputBuffer_.readableBytes })
    ⟨hp, by simp [hwr, hbr]⟩).2.1
  rw [handleWrite, if_neg hc, if_neg hne, if_neg (by simp [hw])] at h
  simp only [hre, Exec.ok_bind, if_pos hb0, hdw] at h
  cases h
  rw [hbuf, hbr]

/-- A step adds its data to the stream. -/
theorem exists_output {c : TcpConnection} {a : Output} (hc : c.state_ ≠ .kDisconnected)
    (hb : c.Buffered) (he : output.enabled c a) (hk : Output.KeepsPeer c a) :
    ∃ c', output.perform c a = .ok c' ∧ c'.state_ ≠ .kDisconnected ∧ c'.Buffered ∧
      c'.stream = c.stream ++ a.data := by
  cases a with
  | sendInLoop data result =>
      obtain ⟨c', hs, h, -⟩ := exists_sendInLoop hc hb he hk
      exact ⟨c', hs, by rw [h.state]; exact hc, h.buffered, h.stream⟩
  | handleWrite result =>
      obtain ⟨c', hs, h, -⟩ := exists_handleWrite hc hb he.1 he.2
      exact ⟨c', hs, by rw [h.state]; exact hc, h.buffered, h.stream⟩
  | disconnecting =>
      exact ⟨c.disconnecting, rfl, nofun, ⟨hb.polled, hb.writing⟩, (List.append_nil _).symm⟩

/-- No assertion fails, nothing of what was sent is lost, repeated or reordered, and `EPOLLOUT` is
enabled exactly while something waits. -/
theorem output_eq_sent {highWaterMark : Nat} {b b' : Bool} {as : List Output}
    {r : Run TcpConnection}
    (h : (output.restrict Output.KeepsPeer).Runs (established highWaterMark b b') as r) :
    ∃ c, r = .ok c ∧ c.accepted ++ c.outputBuffer_.readable = (as.map Output.data).flatten ∧
      (c.channel_.isWriting = true ↔ c.outputBuffer_.readable ≠ []) := by
  obtain ⟨c, hr, -, hb, hs⟩ := h.invariant
    (I := fun as c ↦ c.state_ ≠ .kDisconnected ∧ c.Buffered ∧
      c.stream = (as.map Output.data).flatten)
    ⟨nofun, buffered_established highWaterMark b b', Buffer.readable_new kInitialSize⟩
    fun as c a hi he ↦ by
      obtain ⟨c', hp, hc, hb, hs⟩ := exists_output hi.1 hi.2.1 he.1 he.2
      exact ⟨c', hp, hc, hb, by simp [hs, hi.2.2]⟩
  exact ⟨c, hr, hs, hb.writing⟩

/-- The socket takes one byte of three, and then the others. -/
theorem output_eq_sent_drained :
    ∃ c, (output.restrict Output.KeepsPeer).Runs (established 0 false false)
        [.sendInLoop [1, 2, 3] (.wrote 1), .handleWrite (.wrote 2)] (.ok c) ∧
      c.accepted ++ c.outputBuffer_.readable = [1, 2, 3] ∧
      (c.channel_.isWriting = true ↔ c.outputBuffer_.readable ≠ []) := by
  have hwaits : ((established 0 false false).sendInLoop [1, 2, 3] (.wrote 1)).toOption.map
      (fun c ↦ (c.channel_.isWriting, c.outputBuffer_.readableBytes)) = some (true, 2) := by
    decide +kernel
  cases hc₁ : (established 0 false false).sendInLoop [1, 2, 3] (.wrote 1) with
  | error f =>
      rw [hc₁] at hwaits
      cases hwaits
  | ok c₁ =>
      rw [hc₁] at hwaits
      obtain ⟨hw, hlen⟩ := Prod.ext_iff.mp (Option.some.inj hwaits)
      have h₁ : (output.restrict Output.KeepsPeer).Runs (established 0 false false)
          [.sendInLoop [1, 2, 3] (.wrote 1)] (.ok c₁) :=
        Machine.Runs.nil.then ⟨show 1 ≤ 3 by decide, Or.inr ⟨nofun, nofun⟩⟩ hc₁
      have h₂ := h₁.snoc (a := .handleWrite (.wrote 2)) ⟨⟨hw, hlen.ge⟩, trivial⟩
      obtain ⟨c, hc, hs, hwriting⟩ := output_eq_sent h₂
      rw [hc] at h₂
      exact ⟨c, h₂, hs, hwriting⟩

end RpcLearning.Net.TcpConnection
