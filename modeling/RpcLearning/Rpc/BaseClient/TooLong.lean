import RpcLearning.Rpc.BaseClient.Chunks
import RpcLearning.Rpc.BaseServer

/-!
# Responses that are too long for the client

The server sends texts of any length, and takes requests up to `BaseServer.kMaxMessageLen`.  The
client raises an exception for a header that announces `BaseClient.kMaxMessageLen` bytes or more,
and leaves the frame in its buffer: it finds it there again at every chunk that follows.
-/

namespace RpcLearning.Rpc.BaseClient

open Json Net Frames
open Framing (body)

variable {κ : Type}

section

variable [DoubleText] (react : κ → Value → Bool → List (Call × κ))

/-- With too long a frame in front, a chunk is put behind it and nothing else happens. -/
theorem receive_tooLong {text : Bytes} (hf : ¬ Fits text) (hint : text.length + 2 < 2 ^ 31)
    {s : BaseClient κ × Buffer} {chunk r : Bytes} (h : s.2.readable ++ chunk = frame text ++ r) :
    ∃ b, receive react s chunk = .ok (s.1, b) ∧ b.readable = frame text ++ r := by
  obtain ⟨b, ha, hread⟩ := Buffer.exists_append chunk s.2
  have hb : b.readable = header text ++ (crlf ++ (text ++ crlf ++ r)) := by
    rw [hread, h, frame]
    simp only [List.append_assoc]
  have hm : framing.handleMessage (fun json c ↦ c.handleResponse react json) (s.1, b) =
      .ok ((s.1, b), some (framing.reject (lit "message is too long"))) :=
    Framing.messageLoop_tooLong hb (not_lt.mp hf) hint
  refine ⟨b, ?_, hread.trans h⟩
  rw [receive, ha, Exec.ok_bind]
  exact onMessage_of_handleMessage react hm

/-- From then on no chunk is handled. -/
theorem foldlM_receive_tooLong {text : Bytes} (hf : ¬ Fits text) (hint : text.length + 2 < 2 ^ 31)
    (chunks : List Bytes) {s : BaseClient κ × Buffer} {r : Bytes}
    (h : s.2.readable = frame text ++ r) :
    ∃ b r', chunks.foldlM (receive react) s = .ok (s.1, b) ∧ b.readable = frame text ++ r' := by
  induction chunks generalizing s r with
  | nil => exact ⟨s.2, r, rfl, h⟩
  | cons chunk chunks ih =>
      have hchunk : s.2.readable ++ chunk = frame text ++ (r ++ chunk) := by
        rw [h, List.append_assoc]
      obtain ⟨b, hr, hb⟩ := receive_tooLong react hf hint hchunk
      obtain ⟨b', r', hfold, hb'⟩ := ih (s := (s.1, b)) hb
      refine ⟨b', r', ?_, hb'⟩
      rw [List.foldlM_cons, hr]
      exact hfold

/-- Frames that arrive one in each chunk: every `onMessage` returns, and in the end all of them are
out of the buffer and have been passed to `handleResponse`. -/
def GetsThrough (texts : List Bytes) (s : BaseClient κ × Buffer) : Prop :=
  ∃ s', (texts.map frame).foldlM (receive react) s = .ok s' ∧
    s'.2.readable = [] ∧ s'.1.handled = s.1.handled ++ texts.map body

theorem getsThrough_cons {text : Bytes} {texts : List Bytes} {s s₁ : BaseClient κ × Buffer}
    (hr : receive react s (frame text) = .ok s₁) (hh : s₁.1.handled = s.1.handled ++ [body text]) :
    GetsThrough react (text :: texts) s ↔ GetsThrough react texts s₁ := by
  unfold GetsThrough
  rw [List.map_cons, List.foldlM_cons, hr]
  simp only [hh, List.map_cons, List.append_assoc, List.singleton_append]
  rfl

/-- They get through exactly when each of them is short enough for the client, and the reader does
not abort on it. -/
theorem getsThrough_iff {texts : List Bytes} (hint : ∀ t ∈ texts, t.length + 2 < 2 ^ 31)
    {s : BaseClient κ × Buffer} (hb : s.2.readable = []) :
    GetsThrough react texts s ↔ ∀ t ∈ texts, t.length + 2 < kMaxMessageLen ∧
      ∃ q, Reader.parse (t ++ crlf) = .ok q := by
  induction texts generalizing s with
  | nil => exact iff_of_true ⟨s, rfl, hb, (List.append_nil _).symm⟩ (List.forall_mem_nil _)
  | cons t texts ih =>
      have hwhole : s.2.readable ++ frame t = frame t ++ [] := by
        rw [hb, List.nil_append, List.append_nil]
      rw [List.forall_mem_cons]
      by_cases hf : Fits t
      swap
      · -- the first frame stays in the buffer
        refine iff_of_false ?_ fun hall ↦ hf hall.1.1
        rintro ⟨s', hfold, hempty, -⟩
        obtain ⟨b, hr, hbr⟩ := receive_tooLong react hf (hint t List.mem_cons_self) hwhole
        obtain ⟨b', r', hfold', hb'⟩ := foldlM_receive_tooLong react hf
          (hint t List.mem_cons_self) (texts.map frame) (s := (s.1, b)) hbr
        rw [List.map_cons, List.foldlM_cons, hr, Exec.ok_bind, hfold'] at hfold
        cases hfold
        rw [hb'] at hempty
        simp [frame, crlf] at hempty
      rcases receive_frame react hf hwhole with ⟨s₁, hr, hq, hh, hb₁⟩ | ⟨f, hr, hp⟩
      · rw [List.append_nil] at hq hh
        rw [getsThrough_cons react hr hh, ih (fun x hx ↦ hint x (List.mem_cons_of_mem t hx)) hb₁]
        exact ⟨fun hall ↦ ⟨⟨hf, hq⟩, hall⟩, fun hall ↦ hall.2⟩
      · -- the reader aborts
        rw [List.append_nil] at hp
        refine iff_of_false ?_ ?_
        · rintro ⟨s', hfold, -⟩
          rw [List.map_cons, List.foldlM_cons, hr] at hfold
          cases hfold
        · rintro ⟨⟨-, q, hq⟩, -⟩
          rw [body, hq] at hp
          cases hp

end

/-- An error that is nobody's, and a response. -/
theorem getsThrough_iff_short :
    let _ := noDoubles
    let t := text (BaseServer.errorObject .RPC_INVALID_REQUEST [])
    let u := text (responseObject 0 .null)
    GetsThrough (fun (_ : Unit) _ _ ↦ []) [t, u] (new Unit, Buffer.new kInitialSize) := by
  intro _ t u
  have ht : t.length + 2 < kMaxMessageLen := by decide +kernel
  have hu : u.length + 2 < kMaxMessageLen := by decide +kernel
  have hint : ∀ x ∈ [t, u], x.length + 2 < 2 ^ 31 := by
    rw [kMaxMessageLen] at ht hu
    rw [List.forall_mem_cons, List.forall_mem_singleton]
    omega
  rw [getsThrough_iff _ hint (Buffer.readable_new kInitialSize), List.forall_mem_cons,
    List.forall_mem_singleton]
  exact ⟨⟨ht, _, parse_body (BaseServer.wellFormed_errorObject _ _)
      (BaseServer.plain_errorObject _ _)⟩,
    hu, _, parse_body (wellFormed_responseObject 0 .null) (plain_responseObject 0 .null)⟩

/-- A result of many letters. -/
def longResponse (n : Nat) : Value :=
  .object [(lit "id", .int32 0), (lit "jsonrpc", .string (lit "2.0")),
    (lit "result", .string (List.replicate n 0x61))]

theorem length_text_longResponse (n : Nat) :
    (@text noDoubles (longResponse n)).length = n + 39 := by
  have hescape : FastWriter.escape 0x61 = [0x61] := rfl
  have hletters : ((List.replicate n (0x61 : UInt8)).flatMap FastWriter.escape).length = n := by
    induction n with
    | zero => rfl
    | succ n ih => simp [List.replicate_succ, hescape, ih]
  have hresult : (FastWriter.quoted (List.replicate n 0x61)).length = n + 2 := by
    simp [FastWriter.quoted, hletters]
  have hid : (Numeral.to_string 0).length = 1 := by decide +kernel
  have hversion : (FastWriter.quoted (lit "2.0")).length = 5 := by decide +kernel
  have hliterals : (lit "id").length = 2 ∧ (lit "jsonrpc").length = 7 ∧
      (lit "result").length = 6 ∧ (lit "i32").length = 3 ∧ (lit ",").length = 1 ∧
      (lit ":").length = 1 := ⟨rfl, rfl, rfl, rfl, rfl, rfl⟩
  simp [longResponse, text, membersText, hresult, hid, hversion, hliterals]
  omega

theorem countable_longResponse (n : Nat) : (longResponse n).Countable :=
  countable_responseObject.mpr (.string _)

/-- A result of 65536 letters stays in the client's buffer. -/
theorem not_getsThrough_long :
    letI := noDoubles
    let t := text (longResponse 65536)
    validateResponse (longResponse 65536) = .ok () ∧
      t.length + 2 < BaseServer.kMaxMessageLen ∧
      sendJson (longResponse 65536) = .ok (frame t) ∧
      ¬ GetsThrough (fun (_ : Unit) _ _ ↦ []) [t] (new Unit, Buffer.new kInitialSize) := by
  let _ := noDoubles
  intro t
  have hlen : t.length = 65575 := length_text_longResponse 65536
  refine ⟨rfl, by rw [hlen]; decide, sendJson_eq (countable_longResponse 65536), ?_⟩
  rintro ⟨s', hfold, hempty, -⟩
  have hf : ¬ Fits t := by
    rw [Fits, hlen]
    decide
  have hchunk : (Buffer.new kInitialSize).readable ++ frame t = frame t ++ [] := by
    rw [Buffer.readable_new, List.nil_append, List.append_nil]
  obtain ⟨b, hr, hb⟩ := receive_tooLong (fun (_ : Unit) _ _ ↦ []) hf (by rw [hlen]; decide)
    (s := (new Unit, Buffer.new kInitialSize)) hchunk
  rw [List.map_cons, List.foldlM_cons, hr] at hfold
  cases hfold
  rw [hb] at hempty
  simp [frame, crlf] at hempty

end RpcLearning.Rpc.BaseClient
