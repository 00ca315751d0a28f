import RpcLearning.Rpc.Call

/-!
# Requests behind one another

A request that was rejected ends the connection.  A notification that was rejected does not, but it
leaves the loop all the same: complete frames behind it stay in the buffer until the peer sends
more.
-/

namespace RpcLearning.Rpc.BaseServer

open Json Net Frames
open Framing (body)

variable {σ : Type}

theorem encodeAll_frame_append_ne (t : Bytes) (ts : List Bytes) (p : Bytes) :
    encodeAll frame (t :: ts) ++ p ≠ p := by
  intro h
  have hlen := congrArg List.length h
  simp only [encodeAll_cons, frame, crlf, List.length_append, List.length_cons] at hlen
  omega

section

variable [DoubleText]

/-- The loop calls the handler with the frames of `texts`, until a call stops or all have returned.
What has been handled is out of the buffer. -/
theorem handleMessage_frames (handleRequest : Bytes → σ → Run (σ × Option ServerException)) (s : σ)
    {texts rest : List Bytes} (hlen : ∀ t ∈ texts ++ rest, t.length + 2 < kMaxMessageLen)
    {p : Bytes} (hp : Partial frame rest p) {buffer : Buffer}
    (hb : buffer.readable = encodeAll frame texts ++ p) :
    ∃ done left r b, texts = done ++ left ∧
      framing.handleMessage (recorded handleRequest) (([], s), buffer) =
        r.map (fun q ↦ (((done.map (· ++ crlf), q.1), b), q.2)) ∧
      Calls handleRequest s (done.map (· ++ crlf)) r ∧
      b.readable = encodeAll frame left ++ p ∧ (Stopped r ∨ left = []) := by
  have hfuel : texts.length < buffer.readableBytes + 1 := by
    have := Framing.length_le_encodeAll_frame texts
    rw [← Buffer.length_readable, hb, List.length_append]
    omega
  have hnil : Calls (recorded handleRequest) ([], s) [] (.ok (([], s), none)) := .nil
  rcases Framing.messageLoop_frames takesBody_framing (by decide) hlen hp hfuel hnil hb with
    ⟨s', b, hrun, hcalls, hbp⟩ | ⟨done, left, b, r, rfl, hst, hrun, hcalls, hbp⟩
  · obtain ⟨r, hr, he⟩ := hcalls.of_recorded
    refine ⟨texts, [], r, b, (List.append_nil _).symm, ?_, hr, hbp, .inr rfl⟩
    rcases r with f | ⟨s'', t⟩
    · cases he
    · obtain ⟨rfl, rfl⟩ := Prod.mk.inj (Except.ok.inj he)
      exact hrun
  · obtain ⟨r', hr, rfl⟩ := hcalls.of_recorded
    refine ⟨done, left, r', b, rfl, ?_, hr, hbp, .inl ?_⟩
    · refine hrun.trans ?_
      cases r' <;> rfl
    · rintro s' rfl
      exact hst (_, s') rfl

/-- If `onMessage` returns without having called `shutdown`, all the frames of `texts` have been
passed to `handleRequest`, once and in order, and the tail `p` is all that is left. -/
def LeavesNone (handleRequest : Bytes → σ → Run (σ × Option ServerException)) (s : σ)
    (buffer : Buffer) (texts : List Bytes) (p : Bytes) : Prop :=
  ∀ xs s' b, onMessage (recorded handleRequest) (([], s), buffer) = .ok (((xs, s'), b), none) →
    xs = texts.map (· ++ crlf) ∧ b.readable = p

/-- It does so exactly when no frame that has another one behind it is rejected as a notification,
after all frames before it were handled. -/
theorem leavesNone_iff (handleRequest : Bytes → σ → Run (σ × Option ServerException)) (s : σ)
    {texts rest : List Bytes} (hlen : ∀ t ∈ texts ++ rest, t.length + 2 < kMaxMessageLen)
    {p : Bytes} (hp : Partial frame rest p) {buffer : Buffer}
    (hb : buffer.readable = encodeAll frame texts ++ p) :
    LeavesNone handleRequest s buffer texts p ↔
      ∀ done t next more s' e, texts = done ++ t :: next :: more →
        ¬ Calls handleRequest s ((done ++ [t]).map (· ++ crlf)) (.ok (s', some (.notify e))) := by
  obtain ⟨done, left, r, b, rfl, hrun, hcalls, hbp, hst⟩ :=
    handleMessage_frames handleRequest s hlen hp hb
  -- a rejected notification with a frame behind it is the call that has stopped
  have hstop : ∀ done' t next more s' e, done ++ left = done' ++ t :: next :: more →
      Calls handleRequest s ((done' ++ [t]).map (· ++ crlf)) (.ok (s', some (.notify e))) →
      left = next :: more ∧ r = .ok (s', some (.notify e)) := by
    intro done' t next more s' e hsplit hc
    have hsplit : done ++ left = (done' ++ [t]) ++ next :: more := by
      rw [hsplit, ← List.append_cons]
    have hpre : (done' ++ [t]).map (· ++ crlf) <+: (done ++ left).map (· ++ crlf) := by
      rw [hsplit]
      exact (List.prefix_append _ _).map _
    have hpre' : done.map (· ++ crlf) <+: (done ++ left).map (· ++ crlf) :=
      (List.prefix_append _ _).map _
    rcases hst with hst | rfl
    · obtain ⟨heq, rfl⟩ := hcalls.stopped_unique hc hst (stopped_thrown _ _) hpre' hpre
      have hdone : done = done' ++ [t] :=
        List.map_injective_iff.mpr (fun _ _ h ↦ List.append_cancel_right h) heq
      rw [hdone] at hsplit
      exact ⟨List.append_cancel_left hsplit, rfl⟩
    · -- all have returned, this one too
      rw [List.append_nil] at hsplit
      rw [hsplit, List.map_append] at hcalls
      obtain ⟨s'', hs⟩ := hcalls.of_append (by simp)
      cases hs.unique hc
  rcases r with f | ⟨s', t⟩
  · refine iff_of_true (fun xs s₁ b₁ hon ↦ ?_) fun done' t next more s₁ e hsplit hc ↦ ?_
    · unfold onMessage at hon
      rw [hrun] at hon
      cases hon
    · cases (hstop done' t next more s₁ e hsplit hc).2
  · rcases onMessage_of_handleMessage hrun with ⟨e, rfl, hsome⟩ | ⟨hne, hon⟩
    · refine iff_of_true (fun xs s₁ b₁ hon' ↦ ?_) fun done' t next more s₁ e' hsplit hc ↦ ?_
      · exact absurd rfl (hsome _ hon')
      · cases (hstop done' t next more s₁ e' hsplit hc).2
    cases left with
    | nil =>
        refine iff_of_true (fun xs s₁ b₁ hon' ↦ ?_) fun done' t' next more s₁ e' hsplit hc ↦ ?_
        · rw [hon] at hon'
          cases hon'
          exact ⟨by rw [List.append_nil], by simpa using hbp⟩
        · cases (hstop done' t' next more s₁ e' hsplit hc).1
    | cons next more =>
        -- a call has stopped, and what it threw was not for a request
        have hst := hst.resolve_right (List.cons_ne_nil _ _)
        obtain ⟨e, rfl⟩ : ∃ e, t = some (.notify e) := by
          match t, hst, hne with
          | none, hst, _ => exact absurd rfl (hst s')
          | some (.notify e), _, _ => exact ⟨e, rfl⟩
          | some (.request e), _, hne => exact absurd rfl (hne e)
        refine iff_of_false (fun hl ↦ ?_) fun hall ↦ ?_
        · have hempty := (hl _ _ _ hon).2
          exact encodeAll_frame_append_ne _ _ _ (hbp ▸ hempty)
        · rcases List.eq_nil_or_concat done with rfl | ⟨done', t, rfl⟩
          · cases calls_nil_iff.mp hcalls
          · rw [List.concat_eq_append] at hcalls
            exact hall done' t next more s' e (by simp) hcalls

end

/-- Two frames and the beginning of a third, at a handler that accepts everything. -/
theorem leavesNone_iff_sample :
    let _ := noDoubles
    let handleRequest : Bytes → Nat → Run (Nat × Option ServerException) :=
      fun _ n ↦ .ok (n + 1, none)
    ∃ buffer : Buffer, buffer.readable = encodeAll frame [[0x61], [0x62]] ++ [0x33] ∧
      (LeavesNone handleRequest 0 buffer [[0x61], [0x62]] [0x33] ↔
        ∀ done t next more s' e, [[0x61], [0x62]] = done ++ t :: next :: more →
          ¬ Calls handleRequest 0 ((done ++ [t]).map (· ++ crlf))
            (.ok (s', some (.notify e)))) := by
  let _ := noDoubles
  obtain ⟨buffer, -, hb⟩ :=
    Buffer.exists_append (encodeAll frame [[0x61], [0x62]] ++ [0x33]) (Buffer.new kInitialSize)
  rw [Buffer.readable_new, List.nil_append] at hb
  refine ⟨buffer, hb, ?_⟩
  have hp : Partial frame [[0x63]] [0x33] :=
    .cons (m := [0x63]) (q := (frame [0x63]).tail) rfl nofun
  have hlen : ∀ t ∈ ([[0x61], [0x62]] ++ [[0x63]] : List Bytes), t.length + 2 < kMaxMessageLen := by
    simp [kMaxMessageLen]
  exact leavesNone_iff _ 0 hlen hp hb

/-- A notification whose method has no dot. -/
def dotless : Value := notifyObject (lit "m")

theorem handleRequest_dotless [DoubleText] (log : List (Started Unit Unit)) :
    (RpcServer.new Unit Unit).handleRequest (body (text dotless)) log =
      .ok (log, some (.notify ⟨.RPC_INVALID_REQUEST, lit "missing service name in method"⟩)) := by
  rw [RpcServer.handleRequest, RpcServer.start, dotless, parse_notifyObject]
  rfl

/-- `RpcServer` rejects it as a notification, and leaves the frame behind it in the buffer. -/
theorem not_leavesNone_dotless :
    let _ := noDoubles
    ∃ buffer : Buffer, buffer.readable = encodeAll frame [text dotless, text dotless] ++ [] ∧
      ¬ LeavesNone (RpcServer.new Unit Unit).handleRequest [] buffer
        [text dotless, text dotless] [] := by
  let _ := noDoubles
  obtain ⟨buffer, -, hb⟩ :=
    Buffer.exists_append (encodeAll frame [text dotless, text dotless] ++ [])
      (Buffer.new kInitialSize)
  rw [Buffer.readable_new, List.nil_append] at hb
  refine ⟨buffer, hb, fun hl ↦ ?_⟩
  have hlen : (text dotless).length + 2 < kMaxMessageLen := by
    decide +kernel
  have hlens : ∀ t ∈ [text dotless, text dotless] ++ [], t.length + 2 < kMaxMessageLen := by
    simpa using hlen
  obtain ⟨done, left, r, b, hsplit, hrun, hcalls, hbp, hst⟩ :=
    handleMessage_frames (RpcServer.new Unit Unit).handleRequest [] hlens (.nil _) hb
  -- the first call has stopped, so there is no second one
  obtain ⟨rfl, rfl⟩ : done = [text dotless] ∧ left = [text dotless] := by
    match done, hsplit with
    | [], hsplit =>
        obtain rfl := calls_nil_iff.mp hcalls
        rcases hst with hst | rfl
        · exact absurd rfl (hst _)
        · cases hsplit
    | [_], hsplit =>
        cases hsplit
        exact ⟨rfl, rfl⟩
    | [_, _], hsplit =>
        cases hsplit
        have happend : Calls _ [] ([body (text dotless)] ++ [body (text dotless)]) r := hcalls
        obtain ⟨s', hs⟩ := happend.of_append (List.cons_ne_nil _ _)
        rw [calls_singleton_iff, handleRequest_dotless] at hs
        cases hs
    | _ :: _ :: _ :: _, hsplit => cases hsplit
  have hr : r = (RpcServer.new Unit Unit).handleRequest (body (text dotless)) [] :=
    calls_singleton_iff.mp hcalls
  rw [handleRequest_dotless] at hr
  subst hr
  rcases onMessage_of_handleMessage hrun with ⟨e, he, -⟩ | ⟨-, hon⟩
  · cases he
  · have hempty := (hl _ _ _ hon).2
    exact encodeAll_frame_append_ne _ _ _ (hbp ▸ hempty)

end RpcLearning.Rpc.BaseServer
