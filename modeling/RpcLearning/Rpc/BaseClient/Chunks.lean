import RpcLearning.Lib.Greedy
import RpcLearning.Rpc.BaseClient

/-!
# Responses in chunks

The client takes everything out of its buffer when a body is complete, so a response is handled as
it was sent only if nothing has arrived behind it yet.
-/

namespace RpcLearning.Rpc.BaseClient

open Json Net Frames
open Framing (body)

/-- A text that the client takes. -/
def Fits (text : Bytes) : Prop := text.length + 2 < kMaxMessageLen

variable {κ : Type}

section

variable [DoubleText]

/-- The reader does not abort on the body of a text's frame. -/
def Readable (text : Bytes) : Prop := ∃ q, Reader.parse (body text) = .ok q

variable (react : κ → Value → Bool → List (Call × κ))

theorem onMessage_of_handleMessage {s : BaseClient κ × Buffer} {c : BaseClient κ} {b : Buffer}
    {t : Option ResponseException}
    (h : framing.handleMessage (fun json c ↦ c.handleResponse react json) s = .ok ((c, b), t)) :
    onMessage react s = .ok (c.afterwards t, b) := by
  rw [onMessage, h, Exec.ok_bind]
  cases t <;> rfl

/-- The client only adds to what it has handled. -/
theorem receive_mono {s s' : BaseClient κ × Buffer} {chunk : Bytes}
    (h : receive react s chunk = .ok s') : s.1.handled <+: s'.1.handled := by
  obtain ⟨b, -, h⟩ := Exec.bind_eq_ok.mp h
  obtain ⟨⟨⟨c, b'⟩, t⟩, hm, -⟩ := Exec.bind_eq_ok.mp h
  rw [onMessage_of_handleMessage react hm] at h
  cases h
  rw [handled_afterwards]
  refine Framing.messageLoop_rel (R := fun c c' ↦ c.handled <+: c'.handled)
    (fun _ ↦ List.prefix_rfl) (fun _ _ _ ↦ List.IsPrefix.trans) ?_ hm
  intro json c₁ c₂ t hr
  exact ⟨[json], (handleResponse_eq_ok react hr).2.symm⟩

/-- A chunk after which the buffer holds the beginning of a frame is only put there. -/
theorem receive_of_partial {texts : List Bytes} (hf : ∀ t ∈ texts, Fits t)
    {s : BaseClient κ × Buffer} {chunk : Bytes}
    (h : Partial frame texts (s.2.readable ++ chunk)) :
    ∃ b, receive react s chunk = .ok (s.1, b) ∧ b.readable = s.2.readable ++ chunk := by
  obtain ⟨b, ha, hread⟩ := Buffer.exists_append chunk s.2
  have hm : framing.handleMessage (fun json c ↦ c.handleResponse react json) (s.1, b) =
      .ok ((s.1, b), none) := by
    rw [← hread] at h
    generalize hb : b.readable = p at h
    cases h with
    | nil => exact Framing.messageLoop_of_eq_none (by rw [hb]; rfl)
    | cons he hq =>
        exact Framing.messageLoop_partial hq he hb (hf _ (by simp)) (by decide)
  refine ⟨b, ?_, hread⟩
  rw [receive, ha, Exec.ok_bind, onMessage_of_handleMessage react hm]
  rfl

theorem receive_beginning {texts : List Bytes} (hf : ∀ t ∈ texts, Fits t)
    {s : BaseClient κ × Buffer} {chunk : Bytes}
    (h : Partial frame texts (s.2.readable ++ chunk)) :
    ∃ s', receive react s chunk = .ok s' ∧ s'.1.handled = s.1.handled ∧
      s'.2.readable = s.2.readable ++ chunk := by
  obtain ⟨b, hr, hread⟩ := receive_of_partial react hf h
  exact ⟨(s.1, b), hr, rfl, hread⟩

/-- A chunk that completes a frame makes the client handle its text together with what has come
behind it. -/
theorem receive_of_handleResponse {text : Bytes} (hf : Fits text) {s : BaseClient κ × Buffer}
    {chunk r : Bytes} (h : s.2.readable ++ chunk = frame text ++ r) :
    ∃ b : Buffer, b.readable = [] ∧
      (∀ c t, s.1.handleResponse react (body text ++ r) = .ok (c, t) →
        receive react s chunk = .ok (c.afterwards t, b)) ∧
      ∀ f, s.1.handleResponse react (body text ++ r) = .error f →
        receive react s chunk = .error f := by
  obtain ⟨b, ha, hread⟩ := Buffer.exists_append chunk s.2
  obtain ⟨fuel, hfuel⟩ : ∃ k, b.readableBytes = k + 1 := by
    have hlen := congrArg List.length (hread.trans h)
    rw [Buffer.length_readable] at hlen
    simp only [frame, crlf, List.length_append, List.length_cons] at hlen
    exact ⟨b.readableBytes - 1, by omega⟩
  have htake : ∀ b₁ : Buffer, b₁.readable = text ++ crlf ++ r →
      ∃ b₂, framing.takeBody (text.length + 2) b₁ = .ok (body text ++ r, b₂) ∧
        b₂.readable = [] := by
    intro b₁ hb₁
    obtain ⟨b₂, ht, hr⟩ := Buffer.exists_retrieveAllAsString b₁
    exact ⟨b₂, ht.trans (by rw [hb₁, body]), hr⟩
  obtain ⟨b', hempty, hnext, hstop⟩ := Framing.messageLoop_frame (F := framing)
    (fun json c ↦ handleResponse react json c) b.readableBytes s.1 (hread.trans h) hf (by decide)
    htake
  rw [receive, ha, Exec.ok_bind]
  refine ⟨b', hempty, ?_, ?_⟩
  · intro c t hc
    refine onMessage_of_handleMessage react ?_
    cases t with
    | none =>
        rw [Framing.handleMessage, hnext c hc, hfuel]
        exact Framing.messageLoop_of_eq_none (by rw [hempty]; rfl)
    | some e =>
        rw [Framing.handleMessage, hstop (by rw [hc]; exact stopped_thrown c e), hc]
        rfl
  · intro f hc
    have hm : framing.handleMessage (fun json c ↦ c.handleResponse react json) (s.1, b) =
        .error f := by
      rw [Framing.handleMessage, hstop (by rw [hc]; exact stopped_error f), hc]
      rfl
    rw [onMessage, hm, Exec.error_bind]

/-- It does so unless the reader aborts. -/
theorem receive_frame {text : Bytes} (hf : Fits text) {s : BaseClient κ × Buffer}
    {chunk r : Bytes} (h : s.2.readable ++ chunk = frame text ++ r) :
    (∃ s', receive react s chunk = .ok s' ∧ (∃ q, Reader.parse (body text ++ r) = .ok q) ∧
        s'.1.handled = s.1.handled ++ [body text ++ r] ∧ s'.2.readable = []) ∨
      ∃ f, receive react s chunk = .error f ∧ Reader.parse (body text ++ r) = .error f := by
  obtain ⟨b, hempty, hok, herror⟩ := receive_of_handleResponse react hf h
  cases hp : Reader.parse (body text ++ r) with
  | ok q =>
      obtain ⟨c, t, hc, hh⟩ := exists_handleResponse react hp s.1
      exact .inl ⟨_, hok c t hc, ⟨q, rfl⟩, (handled_afterwards c t).trans hh, hempty⟩
  | error f =>
      refine .inr ⟨f, herror f ?_, rfl⟩
      rw [handleResponse, hp, Exec.error_bind]

theorem greedy_receive :
    Greedy frame body Fits Readable (fun s : BaseClient κ × Buffer ↦ s.1.handled)
      (fun s ↦ s.2.readable) (receive react) where
  ne_nil m := by simp [frame, crlf]
  mono := receive_mono react
  beginning hf h := receive_beginning react hf h
  whole {m s c} hf h ho := by
    rcases receive_frame react (r := []) hf (by rw [h, List.append_nil]) with
      ⟨s', hs, -, hh, he⟩ | ⟨f, -, hp⟩
    · exact ⟨s', hs, by rw [hh, List.append_nil], he⟩
    · obtain ⟨q, hq⟩ := ho
      rw [List.append_nil, hq] at hp
      cases hp
  notOk {m s s' c} hf h hr := by
    rcases receive_frame react (r := []) hf (by rw [h, List.append_nil]) with
      ⟨s'', -, hq, -, -⟩ | ⟨f, he, -⟩
    · rwa [List.append_nil] at hq
    · rw [hr] at he
      cases he
  glued {m s s' c r} hf h hr := by
    rcases receive_frame react hf h with ⟨s'', hs, -, hh, -⟩ | ⟨f, he, -⟩
    · rw [hr] at hs
      cases hs
      rw [hh]
    · rw [hr] at he
      cases he

/-- The client, given `chunks` of a stream of frames, handles the text of each complete frame once
and as it was sent, and keeps the beginning of the next frame. -/
def HandlesExactly (react : κ → Value → Bool → List (Call × κ)) (c : BaseClient κ)
    (texts chunks : List Bytes) : Prop :=
  ∃ c' b, chunks.foldlM (receive react) (c, Buffer.new kInitialSize) = .ok (c', b) ∧
    ∃ done rest, texts = done ++ rest ∧ chunks.flatten = encodeAll frame done ++ b.readable ∧
      Partial frame rest b.readable ∧ c'.handled = c.handled ++ done.map (· ++ crlf)

theorem exact_iff_handlesExactly {c : BaseClient κ} {texts chunks : List Bytes} :
    Greedy.Exact frame body (fun s : BaseClient κ × Buffer ↦ s.1.handled) (fun s ↦ s.2.readable)
        (receive react) (c, Buffer.new kInitialSize) chunks texts ↔
      HandlesExactly react c texts chunks := by
  simp only [Greedy.Exact, Buffer.readable_new, List.nil_append]
  constructor
  · rintro ⟨⟨c', b⟩, hrun, hs⟩
    exact ⟨c', b, hrun, hs⟩
  · rintro ⟨c', b, hrun, hs⟩
    exact ⟨(c', b), hrun, hs⟩

/-- It does so exactly when every frame that arrives completely ends where a chunk ends, and the
reader does not abort on its text. -/
theorem handlesExactly_iff (react : κ → Value → Bool → List (Call × κ)) (c : BaseClient κ)
    {texts : List Bytes} (hf : ∀ t ∈ texts, t.length + 2 < kMaxMessageLen) {chunks : List Bytes}
    {y : Bytes} (h : chunks.flatten ++ y = encodeAll frame texts) :
    HandlesExactly react c texts chunks ↔
      ∀ done rest, texts = done ++ rest → encodeAll frame done <+: chunks.flatten →
        (∃ n, (chunks.take n).flatten = encodeAll frame done) ∧
          ∀ t ∈ done, ∃ q, Reader.parse (t ++ crlf) = .ok q := by
  have hb : (Buffer.new kInitialSize).readable = [] := Buffer.readable_new kInitialSize
  have hiff := (greedy_receive react).exact_iff (s := (c, Buffer.new kInitialSize))
    (y := y) hf (by rw [hb]; exact .nil texts) (by rw [hb]; exact h)
  rw [exact_iff_handlesExactly react] at hiff
  rw [hiff]
  simp only [EndsAreCuts, hb, List.nil_append]
  constructor
  · intro hs done rest hms hpre
    by_cases hd : done = []
    · subst hd
      exact ⟨⟨0, rfl⟩, by simp⟩
    · exact hs done rest hms hd hpre
  · intro hs done rest hms _ hpre
    exact hs done rest hms hpre

end

/-- Two responses, the first of which arrives in two pieces. -/
theorem handlesExactly_iff_sample :
    let _ := noDoubles
    let t := text (responseObject 0 .null)
    let u := text (responseObject 1 .null)
    HandlesExactly (fun (_ : Unit) _ _ ↦ []) (new Unit) [t, u]
      [(frame t).take 9, (frame t).drop 9, frame u] := by
  intro _ t u
  have ht : ∃ q, Reader.parse (t ++ crlf) = .ok q :=
    ⟨_, parse_body (wellFormed_responseObject 0 .null) (plain_responseObject 0 .null)⟩
  have hu : ∃ q, Reader.parse (u ++ crlf) = .ok q :=
    ⟨_, parse_body (wellFormed_responseObject 1 .null) (plain_responseObject 1 .null)⟩
  have hlen : ∀ x ∈ [t, u], x.length + 2 < kMaxMessageLen := by
    rw [List.forall_mem_cons, List.forall_mem_singleton]
    constructor <;> decide +kernel
  clear_value t u
  have hcut : [(frame t).take 9, (frame t).drop 9].flatten = encodeAll frame [t] := by
    simp [-List.drop_one]
  have hwhole : [(frame t).take 9, (frame t).drop 9, frame u].flatten = encodeAll frame [t, u] := by
    rw [List.flatten_cons, List.flatten_cons, List.flatten_singleton, ← List.append_assoc,
      List.take_append_drop]
    simp
  rw [handlesExactly_iff _ _ hlen ((List.append_nil _).trans hwhole)]
  intro done rest hsplit _
  match done with
  | [] => exact ⟨⟨0, rfl⟩, List.forall_mem_nil _⟩
  | [x] =>
      obtain ⟨rfl, -⟩ := List.cons.inj hsplit
      exact ⟨⟨2, hcut⟩, List.forall_mem_singleton.mpr ht⟩
  | [x, y] =>
      obtain ⟨rfl, htail⟩ := List.cons.inj hsplit
      obtain ⟨rfl, -⟩ := List.cons.inj htail
      exact ⟨⟨3, hwhole⟩, List.forall_mem_cons.mpr ⟨ht, List.forall_mem_singleton.mpr hu⟩⟩
  | x :: y :: z :: done => simp at hsplit

/-- Two responses to nobody in one chunk: the first is handled together with the second. -/
theorem not_handlesExactly_two_frames :
    let response := Value.object
      [(lit "id", .int32 0), (lit "jsonrpc", .string (lit "2.0")), (lit "result", .null)]
    let t := @text noDoubles response
    validateResponse response = .ok () ∧ t.length + 2 < kMaxMessageLen ∧
      ¬ @HandlesExactly Unit noDoubles (fun _ _ _ ↦ []) (new Unit) [t, t] [frame t ++ frame t] := by
  intro response t
  have ht : t.length + 2 < kMaxMessageLen := by
    decide +kernel
  refine ⟨rfl, ht, ?_⟩
  let := noDoubles
  have hglued : (Buffer.new kInitialSize).readable ++ (frame t ++ frame t) =
      frame t ++ frame t := by
    rw [Buffer.readable_new, List.nil_append]
  rw [← exact_iff_handlesExactly]
  exact (greedy_receive fun _ _ _ ↦ []).not_exact_glued ht hglued (by simp [frame, crlf])

end RpcLearning.Rpc.BaseClient
