import RpcLearning.Json.RoundTrip
import RpcLearning.Net.Buffer
import RpcLearning.Lib.Frames

/-!
# Frames

Both ends of a connection put a message between a line with its length and a line break
(`BaseClient::sendJson`, `BaseServer::sendJson`), and both take frames out of their buffers in the
same loop (`BaseServer::handleMessage`, `BaseClient::handleMessage`): find a line break, read the
length in front of it with the JSON reader, wait until the body is there, take it out, hand it on.
The ends differ in the longest message they take, in the exception they raise, and in how they
take the body out.
-/

namespace RpcLearning.Rpc

open Json Net Frames

def crlf : Bytes := [0x0d, 0x0a]

/-- `std::to_string(size + 2)` with the suffix of an `int32`: the header without its line break. -/
def header (text : Bytes) : Bytes := Numeral.toDecimal (text.length + 2) ++ lit "i32"

/-- The message `sendJson` sends for a text. -/
def frame (text : Bytes) : Bytes := header text ++ crlf ++ text ++ crlf

/-- `sendJson`: the bytes handed to `conn->send`. -/
def sendJson [DoubleText] (value : Value) : Run Bytes := do
  let fw ← value.writeTo FastWriter.new
  .ok (frame fw.ws_)

theorem sendJson_eq [DoubleText] {value : Value} (h : value.Countable) :
    sendJson value = .ok (frame (text value)) := by
  rw [sendJson, FastWriter.writeTo_new h, Exec.ok_bind]

/-- How one end takes frames out of its buffer. -/
structure Framing (ε : Type) where
  kMaxMessageLen : Nat
  reject : Bytes → ε
  takeBody : Nat → Buffer → Run (Bytes × Buffer)

namespace Framing

variable {ε σ : Type}

/-- The body's length, unless the header was not parsed or is not a positive `int32`. -/
def bodyLen? (err : ParseError) (header : Option Value) : Option Nat :=
  match err, header with
  | .PARSE_OK, some (.int32 n) => if n ≤ 0 then none else some n.toInt.toNat
  | _, _ => none

/-- The `while(true)` of `handleMessage`.  The handler of a body runs on a state of its own, which
it leaves behind also when it throws. -/
def messageLoop [DoubleText] (F : Framing ε) (handle : Bytes → σ → Run (σ × Option ε)) :
    Nat → σ × Buffer → Run ((σ × Buffer) × Option ε)
  | 0, _ => .error .fuel
  | fuel + 1, (s, buffer) =>
    match buffer.findCRLF with
    | none => .ok ((s, buffer), none)
    | some crlf => do
      let headerLen := crlf + 2
      let (err, header) ← Reader.parse (buffer.readable.take headerLen)
      match bodyLen? err header with
      | none => do
        let buffer ← buffer.retrieve headerLen
        .ok ((s, buffer), some (F.reject (lit "invalid message length")))
      | some bodyLen =>
        if bodyLen ≥ F.kMaxMessageLen then
          .ok ((s, buffer), some (F.reject (lit "message is too long")))
        else if buffer.readableBytes < headerLen + bodyLen then .ok ((s, buffer), none)
        else do
          let buffer ← buffer.retrieve headerLen
          let (json, buffer) ← F.takeBody bodyLen buffer
          let (s, thrown) ← handle json s
          match thrown with
          | some e => .ok ((s, buffer), some e)
          | none => messageLoop F handle fuel (s, buffer)

/-- `handleMessage`.  A round takes a byte at least, so there are no more rounds than bytes. -/
def handleMessage [DoubleText] (F : Framing ε) (handle : Bytes → σ → Run (σ × Option ε))
    (s : σ × Buffer) : Run ((σ × Buffer) × Option ε) :=
  messageLoop F handle (s.2.readableBytes + 1) s

end Framing

/-! ## Finding the line break -/

theorem searchCRLF_append {h : Bytes} (hc : ∀ c ∈ h, c ≠ 0x0d) (r : Bytes) :
    Buffer.searchCRLF (h ++ (crlf ++ r)) = some h.length := by
  induction h with
  | nil => rfl
  | cons c h ih =>
      have hne : c ≠ 0x0d := hc c (by simp)
      have ih := ih fun d hd ↦ hc d (by simp [hd])
      rw [List.cons_append, Buffer.searchCRLF.eq_2 _ _ (by simp [hne]), ih]
      rfl

theorem searchCRLF_eq_none {h : Bytes} (hc : ∀ c ∈ h, c ≠ 0x0d) :
    Buffer.searchCRLF h = none ∧ Buffer.searchCRLF (h ++ [0x0d]) = none := by
  induction h with
  | nil => exact ⟨rfl, rfl⟩
  | cons c h ih =>
      have hne : c ≠ 0x0d := hc c (by simp)
      obtain ⟨ih₁, ih₂⟩ := ih fun d hd ↦ hc d (by simp [hd])
      rw [List.cons_append, Buffer.searchCRLF.eq_2 _ _ (by simp [hne]),
        Buffer.searchCRLF.eq_2 _ _ (by simp [hne]), ih₁, ih₂]
      exact ⟨rfl, rfl⟩

/-! ## The header -/

theorem ne_cr_of_mem_header {text : Bytes} : ∀ c ∈ header text, c ≠ 0x0d := by
  intro c hc
  rcases List.mem_append.mp hc with h | h
  · have hd := (Numeral.natText_toDecimal _).isDigit c h
    rintro rfl
    exact absurd hd (by decide)
  · have hs : ∀ d ∈ lit "i32", d ≠ 0x0d := by
      simp only [show lit "i32" = [0x69, 0x33, 0x32] from rfl, List.mem_cons, List.not_mem_nil,
        or_false, forall_eq_or_imp, forall_eq]
      decide
    exact hs c h

theorem ws_crlf : Ws crlf := by
  simp only [crlf, ws_cons]
  exact ⟨by decide, by decide, ws_nil⟩

/-- The header of a text that is not too long is parsed. -/
theorem parse_header [DoubleText] {text : Bytes} (h : text.length + 2 < 2 ^ 31) :
    Reader.parse (header text ++ crlf) =
      .ok (.PARSE_OK, some (.int32 (Int32.ofInt (text.length + 2 : Nat)))) := by
  have hs : Numeral.IntText (Numeral.toDecimal (text.length + 2)) (text.length + 2 : Nat) := by
    have hs := Numeral.intText_to_string (text.length + 2 : Nat)
    rwa [Numeral.to_string_natCast] at hs
  have hn := ReadsNumber.int32 (r := crlf) hs (by omega)
  have hr := Reader.parse_of_reads ws_nil ws_crlf (.scalar (.number hn))
  rwa [List.nil_append, ← List.append_assoc] at hr

theorem bodyLen?_int32 {n : Nat} (h0 : 0 < n) (h : n < 2 ^ 31) :
    Framing.bodyLen? .PARSE_OK (some (.int32 (Int32.ofInt n))) = some n := by
  have hi : (Int32.ofInt n).toInt = n := Int32.toInt_ofInt_of_le (by omega) (by omega)
  have hpos : ¬ Int32.ofInt n ≤ 0 := by
    rw [Int32.le_iff_toInt_le, hi, Int32.toInt_zero]
    omega
  simp only [Framing.bodyLen?, if_neg hpos, hi, Int.toNat_natCast]

/-! ## One round of the loop -/

namespace Framing

section Round

variable [DoubleText] {ε σ : Type} {F : Framing ε} {handle : Bytes → σ → Run (σ × Option ε)}
  {fuel : Nat} {s : σ} {buffer : Buffer} {text : Bytes}

/-- Without a line break there is nothing to do yet. -/
theorem messageLoop_of_eq_none (h : Buffer.searchCRLF buffer.readable = none) :
    F.messageLoop handle (fuel + 1) (s, buffer) = .ok ((s, buffer), none) := by
  rw [messageLoop, Buffer.findCRLF, h]

/-- With a header in front, the round comes down to how long the body is, and whether it is
there. -/
theorem messageLoop_cases {r : Bytes} (hb : buffer.readable = header text ++ (crlf ++ r))
    (hint : text.length + 2 < 2 ^ 31) :
    F.messageLoop handle (fuel + 1) (s, buffer) =
      (if F.kMaxMessageLen ≤ text.length + 2 then
        .ok ((s, buffer), some (F.reject (lit "message is too long")))
      else if r.length < text.length + 2 then .ok ((s, buffer), none)
      else do
        let buffer ← buffer.retrieve ((header text).length + 2)
        let (json, buffer) ← F.takeBody (text.length + 2) buffer
        let (s, thrown) ← handle json s
        match thrown with
        | some e => .ok ((s, buffer), some e)
        | none => F.messageLoop handle fuel (s, buffer)) := by
  have htake : (header text ++ (crlf ++ r)).take ((header text).length + 2) =
      header text ++ crlf := by
    rw [← List.append_assoc]
    exact List.take_left' (by simp [crlf])
  have hbytes : buffer.readableBytes = (header text).length + 2 + r.length := by
    rw [← Buffer.length_readable, hb]
    simp only [List.length_append, crlf, List.length_cons, List.length_nil]
    omega
  rw [messageLoop, Buffer.findCRLF, hb, searchCRLF_append ne_cr_of_mem_header]
  simp only [htake, parse_header hint, Exec.ok_bind]
  rw [bodyLen?_int32 (by omega) hint]
  simp only [ge_iff_le, hbytes, Nat.add_lt_add_iff_left]

theorem messageLoop_header {r : Bytes} (hb : buffer.readable = header text ++ (crlf ++ r))
    (hlen : text.length + 2 < F.kMaxMessageLen) (hmax : F.kMaxMessageLen ≤ 2 ^ 31) :
    F.messageLoop handle (fuel + 1) (s, buffer) =
      (if r.length < text.length + 2 then .ok ((s, buffer), none)
      else do
        let buffer ← buffer.retrieve ((header text).length + 2)
        let (json, buffer) ← F.takeBody (text.length + 2) buffer
        let (s, thrown) ← handle json s
        match thrown with
        | some e => .ok ((s, buffer), some e)
        | none => F.messageLoop handle fuel (s, buffer)) := by
  rw [messageLoop_cases hb (lt_of_lt_of_le hlen hmax), if_neg (not_le.mpr hlen)]

/-- A header that announces too long a body is left where it is. -/
theorem messageLoop_tooLong {r : Bytes} (hb : buffer.readable = header text ++ (crlf ++ r))
    (hlen : F.kMaxMessageLen ≤ text.length + 2) (hint : text.length + 2 < 2 ^ 31) :
    F.messageLoop handle (fuel + 1) (s, buffer) =
      .ok ((s, buffer), some (F.reject (lit "message is too long"))) := by
  rw [messageLoop_cases hb hint, if_pos hlen]

variable (handle fuel s) in
/-- A round that finds a frame hands on what the end takes for the body.  If the handler returns,
the loop goes on; otherwise its outcome is that of the loop. -/
theorem messageLoop_frame {json r : Bytes} {P : Buffer → Prop}
    (hb : buffer.readable = frame text ++ r) (hlen : text.length + 2 < F.kMaxMessageLen)
    (hmax : F.kMaxMessageLen ≤ 2 ^ 31)
    (ht : ∀ b : Buffer, b.readable = text ++ crlf ++ r →
      ∃ b', F.takeBody (text.length + 2) b = .ok (json, b') ∧ P b') :
    ∃ b', P b' ∧
      (∀ s', handle json s = .ok (s', none) →
        F.messageLoop handle (fuel + 1) (s, buffer) = F.messageLoop handle fuel (s', b')) ∧
      (Stopped (handle json s) →
        F.messageLoop handle (fuel + 1) (s, buffer) =
          (handle json s).map fun q ↦ ((q.1, b'), q.2)) := by
  have hb' : buffer.readable = header text ++ (crlf ++ (text ++ crlf ++ r)) := by
    rw [hb, frame]
    simp only [List.append_assoc]
  have hle : (header text).length + 2 ≤ buffer.readableBytes := by
    rw [← Buffer.length_readable, hb']
    simp [crlf]
  obtain ⟨b, hr, hread⟩ := Buffer.exists_retrieve hle
  obtain ⟨b', htake, hp⟩ := ht b (by
    rw [hread, hb', ← List.append_assoc]
    exact List.drop_left' (by simp [crlf]))
  rw [messageLoop_header hb' hlen hmax, if_neg (by simp [crlf]), hr, Exec.ok_bind, htake,
    Exec.ok_bind]
  refine ⟨b', hp, ?_, ?_⟩
  · intro s' hs
    simp only [hs, Exec.ok_bind]
  · intro hs
    rcases hh : handle json s with f | ⟨s', _ | e⟩
    · simp only [hh, Exec.error_bind, Except.map]
    · exact absurd hh (hs s')
    · simp only [hh, Exec.ok_bind, Except.map]

/-- A round that finds the beginning of a frame leaves everything as it is. -/
theorem messageLoop_partial {p q : Bytes} (hq : q ≠ []) (hp : frame text = p ++ q)
    (hb : buffer.readable = p) (hlen : text.length + 2 < F.kMaxMessageLen)
    (hmax : F.kMaxMessageLen ≤ 2 ^ 31) :
    F.messageLoop handle (fuel + 1) (s, buffer) = .ok ((s, buffer), none) := by
  rw [frame, List.append_assoc, List.append_assoc] at hp
  rcases List.append_eq_append_iff.mp hp.symm with ⟨h, hh, -⟩ | ⟨p', rfl, hp'⟩
  · -- the beginning ends in the length
    refine messageLoop_of_eq_none ?_
    rw [hb]
    exact (searchCRLF_eq_none fun c hc ↦ ne_cr_of_mem_header c (hh ▸ List.mem_append_left h hc)).1
  · rcases List.append_eq_append_iff.mp hp'.symm with ⟨h, hh, -⟩ | ⟨r, rfl, hr⟩
    · -- it ends in the line break
      match p', hh with
      | [], _ =>
          refine messageLoop_of_eq_none ?_
          rw [hb, List.append_nil]
          exact (searchCRLF_eq_none ne_cr_of_mem_header).1
      | [c], hh =>
          obtain rfl : c = 0x0d := (List.cons.inj hh).1.symm
          refine messageLoop_of_eq_none ?_
          rw [hb]
          exact (searchCRLF_eq_none ne_cr_of_mem_header).2
      | c :: d :: t, hh =>
          obtain ⟨rfl, rfl, rfl, rfl⟩ : c = 0x0d ∧ d = 0x0a ∧ t = [] ∧ h = [] := by
            simpa [crlf, eq_comm] using hh
          rw [messageLoop_header (r := []) hb hlen hmax, if_pos (by simp)]
    · -- it ends in the body
      have hlen' := congrArg List.length hr
      have hpos := List.length_pos_iff.mpr hq
      simp only [List.length_append, crlf, List.length_cons, List.length_nil] at hlen'
      rw [messageLoop_header hb hlen hmax, if_pos (by omega)]

/-- What every call keeps, the loop keeps. -/
theorem messageLoop_rel {R : σ → σ → Prop} (hrefl : ∀ s, R s s)
    (htrans : ∀ s s' s'', R s s' → R s' s'' → R s s'')
    (hcall : ∀ json s s' t, handle json s = .ok (s', t) → R s s') {b' : Buffer} {s' : σ}
    {t : Option ε} (h : F.messageLoop handle fuel (s, buffer) = .ok ((s', b'), t)) : R s s' := by
  induction fuel generalizing s buffer with
  | zero => cases h
  | succ fuel ih =>
      rw [messageLoop] at h
      cases hcr : buffer.findCRLF with
      | none =>
          rw [hcr] at h
          cases h
          exact hrefl _
      | some n =>
          rw [hcr] at h
          obtain ⟨⟨err, header⟩, -, h⟩ := Exec.bind_eq_ok.mp h
          dsimp only at h
          cases hlen : bodyLen? err header with
          | none =>
              rw [hlen] at h
              obtain ⟨b, -, h⟩ := Exec.bind_eq_ok.mp h
              cases h
              exact hrefl _
          | some len =>
              rw [hlen] at h
              dsimp only at h
              split at h
              · cases h
                exact hrefl _
              · split at h
                · cases h
                  exact hrefl _
                · obtain ⟨b, -, h⟩ := Exec.bind_eq_ok.mp h
                  obtain ⟨⟨json, b⟩, -, h⟩ := Exec.bind_eq_ok.mp h
                  obtain ⟨⟨s₁, t₁⟩, hr, h⟩ := Exec.bind_eq_ok.mp h
                  have h₁ := hcall json s s₁ t₁ hr
                  cases t₁ with
                  | none => exact htrans _ _ _ h₁ (ih h)
                  | some e =>
                      cases h
                      exact h₁

end Round

/-! ## Whole frames -/

section Loop

variable {ε σ : Type}

/-- The body is taken out, and what follows it stays. -/
def TakesBody (F : Framing ε) : Prop :=
  ∀ n (b : Buffer), n ≤ b.readableBytes → ∃ b' : Buffer,
    F.takeBody n b = .ok (b.readable.take n, b') ∧ b'.readable = b.readable.drop n

/-- What the handler is given for a text. -/
def body (text : Bytes) : Bytes := text ++ crlf

theorem TakesBody.of_readable {F : Framing ε} (hF : F.TakesBody) (text r : Bytes) (b : Buffer)
    (hb : b.readable = text ++ crlf ++ r) :
    ∃ b', F.takeBody (text.length + 2) b = .ok (body text, b') ∧ b'.readable = r := by
  obtain ⟨b', ht, hr⟩ := hF (text.length + 2) b (by
    rw [← Buffer.length_readable, hb]
    simp only [List.length_append, crlf, List.length_cons, List.length_nil]
    omega)
  rw [hb, List.take_left' (by simp [crlf])] at ht
  rw [hb, List.drop_left' (by simp [crlf])] at hr
  exact ⟨b', ht, hr⟩

theorem length_le_encodeAll_frame (ms : List Bytes) :
    ms.length ≤ (encodeAll frame ms).length := by
  induction ms with
  | nil => rfl
  | cons m ms ih =>
      simp only [encodeAll_cons, List.length_append, List.length_cons, frame, crlf]
      omega

variable [DoubleText] {F : Framing ε} {handle : Bytes → σ → Run (σ × Option ε)} {s₀ : σ}

/-- The loop handles the frames in the buffer until a call stops it, and leaves the beginning of
the next frame alone. -/
theorem messageLoop_frames (hF : F.TakesBody) (hmax : F.kMaxMessageLen ≤ 2 ^ 31)
    {ms rest : List Bytes} (hlen : ∀ m ∈ ms ++ rest, m.length + 2 < F.kMaxMessageLen) {p : Bytes}
    (hp : Partial frame rest p) {fuel : Nat} (hfuel : ms.length < fuel) {xs : List Bytes} {s : σ}
    (hc : Calls handle s₀ xs (.ok (s, none))) {buffer : Buffer}
    (hb : buffer.readable = encodeAll frame ms ++ p) :
    (∃ s' b, F.messageLoop handle fuel (s, buffer) = .ok ((s', b), none) ∧
        Calls handle s₀ (xs ++ ms.map body) (.ok (s', none)) ∧ b.readable = p) ∨
      ∃ done ms' b r, ms = done ++ ms' ∧ Stopped r ∧
        F.messageLoop handle fuel (s, buffer) = r.map (fun q ↦ ((q.1, b), q.2)) ∧
        Calls handle s₀ (xs ++ done.map body) r ∧ b.readable = encodeAll frame ms' ++ p := by
  obtain ⟨fuel, rfl⟩ : ∃ k, fuel = k + 1 := ⟨fuel - 1, by omega⟩
  induction ms generalizing fuel xs s buffer with
  | nil =>
      refine .inl ⟨s, buffer, ?_, by simpa using hc, hb⟩
      cases hp with
      | nil => exact messageLoop_of_eq_none (by rw [hb]; rfl)
      | cons he hq => exact messageLoop_partial hq he hb (hlen _ (by simp)) hmax
  | cons m ms ih =>
      have hm : m.length + 2 < F.kMaxMessageLen := hlen m (by simp)
      rw [encodeAll_cons, List.append_assoc] at hb
      obtain ⟨b, hread, hnext, hstop⟩ := messageLoop_frame handle fuel s hb hm hmax
        (hF.of_readable m _)
      have hcall := hc.snoc (body m)
      rcases returned_or_stopped (handle (body m) s) with ⟨s', hs⟩ | hs
      · rw [hs] at hcall
        rw [List.length_cons] at hfuel
        obtain ⟨fuel, rfl⟩ : ∃ k, fuel = k + 1 := ⟨fuel - 1, by omega⟩
        rw [hnext s' hs]
        rcases ih (fun k hk ↦ hlen k (List.mem_cons_of_mem m hk)) hcall hread fuel (by omega) with
          ⟨s'', b', hl, hcs, hbp⟩ | ⟨done, ms', b', r, rfl, hst, hl, hcs, hbp⟩
        · exact .inl ⟨s'', b', hl, by simpa using hcs, hbp⟩
        · exact .inr ⟨m :: done, ms', b', r, rfl, hst, hl, by simpa using hcs, hbp⟩
      · exact .inr ⟨[m], ms, b, _, rfl, hs, hstop hs, hcall, hread⟩

variable (handle) in
/-- One frame alone in the buffer: the outcome of the loop is the handler's. -/
theorem handleMessage_frame (hF : F.TakesBody) (hmax : F.kMaxMessageLen ≤ 2 ^ 31) {text : Bytes}
    (hlen : text.length + 2 < F.kMaxMessageLen) {buffer : Buffer}
    (hb : buffer.readable = frame text) (s : σ) :
    ∃ b, F.handleMessage handle (s, buffer) =
        (handle (body text) s).map (fun q ↦ ((q.1, b), q.2)) ∧ b.readable = [] := by
  have hb' : buffer.readable = encodeAll frame [text] ++ [] := by simp [hb]
  have hfuel : [text].length < buffer.readableBytes + 1 := by
    rw [← Buffer.length_readable, hb]
    simp [frame, crlf]
  have hnil : Calls handle s [] (.ok (s, none)) := .nil
  rcases messageLoop_frames hF hmax (by simpa using hlen) (.nil []) hfuel hnil hb' with
    ⟨s', b, hrun, hc, hread⟩ | ⟨done, left, b, r, hsplit, hst, hrun, hc, hread⟩
  · have hh : .ok (s', none) = handle (body text) s := calls_singleton_iff.mp hc
    exact ⟨b, by rw [← hh]; exact hrun, hread⟩
  · rcases List.append_eq_singleton_iff.mp hsplit.symm with ⟨rfl, rfl⟩ | ⟨rfl, rfl⟩
    · exact absurd (calls_nil_iff.mp hc) (hst s)
    · obtain rfl := calls_singleton_iff.mp hc
      exact ⟨b, hrun, by simpa using hread⟩

/-- A chunk put behind what is in the buffer, and `handleMessage`. -/
def receive (F : Framing ε) (handle : Bytes → σ → Run (σ × Option ε)) (chunk : Bytes)
    (s : σ × Buffer) : Run ((σ × Buffer) × Option ε) := do
  let buffer ← s.2.append chunk
  F.handleMessage handle (s.1, buffer)

/-- After the bytes `x` of a stream of frames: the handler has been called with the bodies of the
complete ones, it has returned each time, and the buffer holds the beginning of the next. -/
def Served (handle : Bytes → σ → Run (σ × Option ε)) (s₀ : σ) (ms : List Bytes) (x : Bytes)
    (s : σ × Buffer) : Prop :=
  ∃ done rest, ms = done ++ rest ∧ x = encodeAll frame done ++ s.2.readable ∧
    Partial frame rest s.2.readable ∧ Calls handle s₀ (done.map body) (.ok (s.1, none))

/-- After the bytes `x` of a stream of frames: the handler has been called with the bodies of some
of them, the last call stopped, and these frames are out of the buffer. -/
def Halted (handle : Bytes → σ → Run (σ × Option ε)) (s₀ : σ) (ms : List Bytes) (x : Bytes)
    (outcome : Run ((σ × Buffer) × Option ε)) : Prop :=
  ∃ done rest b r, ms = done ++ rest ∧ x = encodeAll frame done ++ b.readable ∧ Stopped r ∧
    Calls handle s₀ (done.map body) r ∧ outcome = r.map fun q ↦ ((q.1, b), q.2)

/-- One more chunk of the stream. -/
theorem receive_of_served (hF : F.TakesBody) (hmax : F.kMaxMessageLen ≤ 2 ^ 31) {ms : List Bytes}
    (hlen : ∀ m ∈ ms, m.length + 2 < F.kMaxMessageLen) {x c y : Bytes} {s : σ × Buffer}
    (h : x ++ (c ++ y) = encodeAll frame ms) (hs : Served handle s₀ ms x s) :
    (∃ s', F.receive handle c s = .ok (s', none) ∧ Served handle s₀ ms (x ++ c) s') ∨
      Stopped (F.receive handle c s) ∧
        Halted handle s₀ ms (x ++ c) (F.receive handle c s) := by
  obtain ⟨done, rest, rfl, rfl, -, hcalls⟩ := hs
  obtain ⟨b, ha, hread⟩ := Buffer.exists_append c s.2
  -- what the buffer and the chunk hold together
  rw [encodeAll_append, List.append_assoc, List.append_cancel_left_eq, ← List.append_assoc,
    ← hread] at h
  obtain ⟨ms, rest, p, rfl, hb, hp⟩ := exists_split h
  have hfuel : ms.length < b.readableBytes + 1 := by
    have := length_le_encodeAll_frame ms
    rw [← Buffer.length_readable, hb, List.length_append]
    omega
  have hx : encodeAll frame done ++ s.2.readable ++ c =
      encodeAll frame done ++ (encodeAll frame ms ++ p) := by
    rw [List.append_assoc, ← hread, hb]
  rw [receive, ha, Exec.ok_bind, handleMessage, hx]
  rcases messageLoop_frames hF hmax (fun m hm ↦ hlen m (by simp_all)) hp hfuel hcalls hb with
    ⟨s', b', hl, hc, hbp⟩ | ⟨done', ms', b', r, rfl, hst, hl, hc, hbp⟩
  · refine .inl ⟨(s', b'), hl, done ++ ms, rest, ?_, ?_, ?_, ?_⟩
    · rw [List.append_assoc]
    · simp [hbp]
    · rwa [hbp]
    · rwa [List.map_append]
  · refine .inr ⟨?_, done ++ done', ms' ++ rest, b', r, ?_, ?_, hst, ?_, hl⟩
    · rw [hl]
      rintro ⟨s', b''⟩ hr
      rcases r with f | ⟨s'', t⟩
      · cases hr
      · obtain ⟨-, rfl⟩ := Prod.mk.inj (Except.ok.inj hr)
        exact hst s'' rfl
    · simp
    · simp [hbp]
    · rwa [List.map_append]

variable (handle) in
/-- A stream of frames in chunks of any sizes. -/
theorem feed_receive (hF : F.TakesBody) (hmax : F.kMaxMessageLen ≤ 2 ^ 31) {ms : List Bytes}
    (hlen : ∀ m ∈ ms, m.length + 2 < F.kMaxMessageLen) {chunks : List Bytes} {y : Bytes}
    (h : chunks.flatten ++ y = encodeAll frame ms) {buffer : Buffer} (hb : buffer.readable = [])
    (s : σ) :
    (∃ s', feed (F.receive handle) chunks (s, buffer) = .ok (s', none) ∧
        Served handle s ms chunks.flatten s') ∨
      ∃ n, Halted handle s ms (chunks.take n).flatten
        (feed (F.receive handle) chunks (s, buffer)) := by
  have hs : Served handle s ms [] (s, buffer) :=
    ⟨[], ms, rfl, by simp [hb], by rw [hb]; exact .nil ms, .nil⟩
  exact feed_rule (fun _ _ _ _ ↦ receive_of_served hF hmax hlen) (x := []) h hs

/-- One frame on its own. -/
theorem feed_receive_frame (hF : F.TakesBody) (hmax : F.kMaxMessageLen ≤ 2 ^ 31) {text : Bytes}
    (hlen : text.length + 2 < F.kMaxMessageLen) {chunks : List Bytes}
    (h : chunks.flatten = frame text) {buffer : Buffer} (hb : buffer.readable = []) {s s' : σ}
    (hh : handle (body text) s = .ok (s', none)) :
    ∃ b, feed (F.receive handle) chunks (s, buffer) = .ok ((s', b), none) ∧ b.readable = [] := by
  have h' : chunks.flatten ++ [] = encodeAll frame [text] := by simp [h]
  rcases feed_receive handle hF hmax (by simpa using hlen) h' hb s with
    ⟨⟨s₁, b⟩, hrun, done, rest, hms, hx, hp, hc⟩ | ⟨n, done, rest, b, r, hms, -, hst, hc, -⟩
  · rcases List.append_eq_singleton_iff.mp hms.symm with ⟨rfl, rfl⟩ | ⟨rfl, rfl⟩
    · have hlt := hp.length_lt (by simp [frame, crlf])
      rw [← h, hx, encodeAll_nil, List.nil_append] at hlt
      exact absurd hlt (lt_irrefl _)
    · rw [List.map_singleton, calls_singleton_iff, hh] at hc
      obtain ⟨rfl, -⟩ := Prod.mk.inj (Except.ok.inj hc)
      rw [h, encodeAll_cons, encodeAll_nil, List.append_nil] at hx
      exact ⟨b, hrun, List.append_right_eq_self.mp hx.symm⟩
  · rcases List.append_eq_singleton_iff.mp hms.symm with ⟨rfl, rfl⟩ | ⟨rfl, rfl⟩
    · exact absurd (calls_nil_iff.mp hc) (hst s)
    · rw [List.map_singleton, calls_singleton_iff, hh] at hc
      exact absurd hc (hst s')

end Loop

end Framing

end RpcLearning.Rpc
