import RpcLearning.Rpc.Exception
import RpcLearning.Rpc.Framing

/-!
# The server's end of a connection

`BaseServer` (`RpcServer/Server/BaseServer.cpp`).  What a request does is left to `handleRequest`,
which is virtual in the source and a parameter here.
-/

namespace RpcLearning.Rpc.BaseServer

open Json Net Frames

def kMaxMessageLen : Nat := 100 * 1024 * 1024

/-- The server takes a body out and leaves what follows it. -/
def framing : Framing ServerException where
  kMaxMessageLen := kMaxMessageLen
  reject what := .anonymous .RPC_INVALID_REQUEST what
  takeBody := Buffer.retrieveAsString

/-- `wrapException`: the answer to a request that was rejected. -/
def wrapException (e : RequestException) : Run Value := do
  let value := Value.object []
  let value ← value.addMember (.string (lit "code")) (.int32 e.err.asCode)
  let value ← value.addMember (.string (lit "message")) (.string e.err.asString)
  let detail ← e.detail.read
  let value ← value.addMember (.string (lit "data")) (.string detail)
  let response := Value.object []
  let response ← response.addMember (.string (lit "jsonrpc")) (.string (lit "2.0"))
  response.addMember (.string (lit "error")) value

/-- The answer, with the text that was read. -/
def errorObject (err : Error) (detail : Bytes) : Value :=
  .object [(lit "error", .object [(lit "code", .int32 err.asCode), (lit "data", .string detail),
      (lit "message", .string err.asString)]),
    (lit "jsonrpc", .string (lit "2.0"))]

theorem wrapException_eq (e : RequestException) :
    wrapException e = (do
      let detail ← e.detail.read
      .ok (errorObject e.err detail)) := rfl

theorem wrapException_eq_ok {e : RequestException} {v : Value} :
    wrapException e = .ok v ↔ ∃ detail, e.detail.read = .ok detail ∧
      v = errorObject e.err detail := by
  rw [wrapException_eq, Exec.bind_eq_ok]
  constructor
  · rintro ⟨detail, hd, hv⟩
    cases hv
    exact ⟨detail, hd, rfl⟩
  · rintro ⟨detail, hd, rfl⟩
    exact ⟨detail, hd, rfl⟩

theorem countable_errorObject (err : Error) (detail : Bytes) :
    (errorObject err detail).Countable := by
  have hint : ∀ i, (Value.int32 i).Countable := .int32
  have hstring : ∀ s, (Value.string s).Countable := .string
  simp [errorObject, hint, hstring]

theorem wellFormed_errorObject (err : Error) (detail : Bytes) :
    (errorObject err detail).WellFormed := by
  have hstring : ∀ s, (Value.string s).WellFormed := .string
  refine .object ?_ ?_
  · show List.Pairwise (· < ·) [lit "error", lit "jsonrpc"]
    decide
  · rw [List.forall_mem_cons, List.forall_mem_singleton]
    refine ⟨.object ?_ ?_, hstring _⟩
    · show List.Pairwise (· < ·) [lit "code", lit "data", lit "message"]
      decide
    · simp [hstring, Value.WellFormed.int32]

theorem plain_errorObject (err : Error) (detail : Bytes) : Plain (errorObject err detail) := by
  have hk : ∀ k ∈ [lit "error", lit "jsonrpc", lit "code", lit "data", lit "message"],
      ∀ u ∈ k, PlainByte u := by
    decide +kernel
  simp only [List.mem_cons, List.not_mem_nil, or_false, forall_eq_or_imp, forall_eq] at hk
  obtain ⟨herror, hversion, hcode, hdata, hmessage⟩ := hk
  have hobject : Plain (.object [(lit "code", .int32 err.asCode), (lit "data", .string detail),
      (lit "message", .string err.asString)]) := by
    refine .object ?_ ?_ <;>
      simp only [List.mem_cons, List.not_mem_nil, or_false, forall_eq_or_imp, forall_eq]
    · exact ⟨hcode, hdata, hmessage⟩
    · exact ⟨.int32 _, .string _, .string _⟩
  refine .object ?_ ?_ <;>
    simp only [List.mem_cons, List.not_mem_nil, or_false, forall_eq_or_imp, forall_eq]
  · exact ⟨herror, hversion⟩
  · exact ⟨hobject, .string _⟩

variable {σ : Type}

section

variable [DoubleText]

/-- `handleMessage` on a chunk that has just arrived. -/
def receive (handleRequest : Bytes → σ → Run (σ × Option ServerException)) (chunk : Bytes)
    (s : σ × Buffer) : Run ((σ × Buffer) × Option ServerException) :=
  framing.receive handleRequest chunk s

/-- The `catch` of `onMessage`: the message with which it rejects a request. -/
def catchException : Option ServerException → Run (Option Bytes)
  | some (.request e) => do
    let value ← wrapException e
    let message ← sendJson value
    .ok (some message)
  | _ => .ok none

/-- `onMessage`.  It returns the message with which it has rejected a request, before it has called
`conn->shutdown()`; otherwise it does nothing on the connection itself. -/
def onMessage (handleRequest : Bytes → σ → Run (σ × Option ServerException)) (s : σ × Buffer) :
    Run ((σ × Buffer) × Option Bytes) := do
  let (s, thrown) ← framing.handleMessage handleRequest s
  let message ← catchException thrown
  .ok (s, message)

/-- A request is rejected with a message, if the text of its exception can be read. -/
theorem catchException_request (e : RequestException) :
    (∃ message, catchException (some (.request e)) = .ok (some message)) ∨
      catchException (some (.request e)) = .error .dangling := by
  rcases hd : e.detail.read with f | detail
  · have hf : f = .dangling := Detail.eq_of_read_eq_error hd
    right
    rw [catchException, wrapException_eq, hd, Exec.error_bind, Exec.error_bind, hf]
  · left
    refine ⟨frame (text (errorObject e.err detail)), ?_⟩
    rw [catchException, wrapException_eq, hd, Exec.ok_bind, Exec.ok_bind,
      sendJson_eq (countable_errorObject _ _), Exec.ok_bind]

theorem catchException_cases (thrown : Option ServerException) :
    (∃ message, catchException thrown = .ok message) ∨
      (∃ e, thrown = some (.request e)) ∧ catchException thrown = .error .dangling := by
  match thrown with
  | none => exact .inl ⟨none, rfl⟩
  | some (.notify _) => exact .inl ⟨none, rfl⟩
  | some (.request e) =>
      rcases catchException_request e with ⟨message, hm⟩ | hm
      · exact .inl ⟨some message, hm⟩
      · exact .inr ⟨⟨e, rfl⟩, hm⟩

/-- The outcome of the loop decides what `onMessage` does. -/
theorem onMessage_of_handleMessage {handleRequest : Bytes → σ → Run (σ × Option ServerException)}
    {s s' : σ × Buffer} {t : Option ServerException}
    (h : framing.handleMessage handleRequest s = .ok (s', t)) :
    (∃ e, t = some (.request e) ∧ ∀ r, onMessage handleRequest s = .ok r → r.2 ≠ none) ∨
      (∀ e, t ≠ some (.request e)) ∧ onMessage handleRequest s = .ok (s', none) := by
  have hon : onMessage handleRequest s = (do
      let message ← catchException t
      .ok (s', message)) := by
    rw [onMessage, h, Exec.ok_bind]
  rw [hon]
  match t with
  | none =>
      right
      constructor
      · intro e he
        cases he
      · rfl
  | some (.notify e) =>
      right
      constructor
      · intro e he
        cases he
      · rfl
  | some (.request e) =>
      refine .inl ⟨e, rfl, fun r hr ↦ ?_⟩
      rcases catchException_request e with ⟨message, hm⟩ | hm
      · rw [hm, Exec.ok_bind] at hr
        cases hr
        exact Option.some_ne_none message
      · rw [hm] at hr
        cases hr

end

/-! ## Frames in chunks -/

theorem takesBody_framing : framing.TakesBody := fun _ _ h ↦ Buffer.exists_retrieveAsString h

/-- Requests from the frames of `texts`, arriving in `chunks`, are handled one for each frame and in
order, with the frame's text and line break, until a call stops; what has been handled is out of
the buffer, and the rest of what has arrived is in it.  If no call stops, every frame that has
arrived is handled. -/
def HandlesInOrder [DoubleText] (handleRequest : Bytes → σ → Run (σ × Option ServerException))
    (s : σ) (texts chunks : List Bytes) : Prop :=
  let run := feed (receive (recorded handleRequest)) chunks (([], s), Buffer.new kInitialSize)
  (∃ done rest s' b, texts = done ++ rest ∧
      run = .ok (((done.map (· ++ crlf), s'), b), none) ∧
      Calls handleRequest s (done.map (· ++ crlf)) (.ok (s', none)) ∧
      chunks.flatten = encodeAll frame done ++ b.readable ∧ Partial frame rest b.readable) ∨
    ∃ n done rest r b, texts = done ++ rest ∧
      run = r.map (fun q ↦ (((done.map (· ++ crlf), q.1), b), q.2)) ∧ Stopped r ∧
      Calls handleRequest s (done.map (· ++ crlf)) r ∧
      (chunks.take n).flatten = encodeAll frame done ++ b.readable

/-- However a stream of frames is cut into chunks, the requests are handled in order. -/
theorem handlesInOrder [DoubleText] (handleRequest : Bytes → σ → Run (σ × Option ServerException))
    (s : σ) {texts : List Bytes} (hlen : ∀ t ∈ texts, t.length + 2 < kMaxMessageLen)
    {chunks : List Bytes} {y : Bytes} (h : chunks.flatten ++ y = encodeAll frame texts) :
    HandlesInOrder handleRequest s texts chunks := by
  rcases Framing.feed_receive (recorded handleRequest) takesBody_framing (by decide)
      hlen h (Buffer.readable_new kInitialSize) ([], s) with
    ⟨⟨s', b⟩, hrun, done, rest, hms, hx, hp, hc⟩ | ⟨n, done, rest, b, r, hms, hx, hst, hc, hrun⟩
  · obtain ⟨r, hr, he⟩ := hc.of_recorded
    obtain ⟨s'', rfl, rfl⟩ : ∃ s'', r = .ok (s'', none) ∧ s' = (done.map (· ++ crlf), s'') := by
      rcases r with f | ⟨s'', t⟩
      · cases he
      · obtain ⟨rfl, rfl⟩ := Prod.mk.inj (Except.ok.inj he)
        exact ⟨s'', rfl, rfl⟩
    exact .inl ⟨done, rest, s'', b, hms, hrun, hr, hx, hp⟩
  · obtain ⟨r', hr, rfl⟩ := hc.of_recorded
    refine .inr ⟨n, done, rest, r', b, hms, ?_, ?_, hr, hx⟩
    · refine hrun.trans ?_
      cases r' <;> rfl
    · rintro s' rfl
      exact hst (_, s') rfl

/-- Two texts, the second of which arrives in two pieces. -/
theorem handlesInOrder_sample :
    let handleRequest : Bytes → Nat → Run (Nat × Option ServerException) :=
      fun _ n ↦ .ok (n + 1, none)
    @HandlesInOrder _ noDoubles handleRequest 0 [[0x61], [0x62, 0x63]]
      [frame [0x61] ++ (frame [0x62, 0x63]).take 1, (frame [0x62, 0x63]).drop 1] := by
  refine @handlesInOrder _ noDoubles _ _ _ ?_ _ [] ?_
  · simp [kMaxMessageLen]
  · simp [-List.drop_one]

end RpcLearning.Rpc.BaseServer
