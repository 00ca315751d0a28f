import RpcLearning.Json.Renderings
import RpcLearning.Json.Tokens
import RpcLearning.Lib.Layout

/-!
# Writing and reading back

The compact text of a value is read back as that value, also with whitespace between its tokens.
Strings survive whatever bytes they hold, because every escape the writer uses is one the reader
undoes; keys survive when they need no escape, because the writer puts them as they are; doubles
are left out, since what they survive depends on the conversions of the C library.  A value whose
containers the writer cannot count is not written at all.
-/

namespace RpcLearning.Json

open FastWriter (escape hexDigit quoted)
open Layout (Between)

/-! ## Strings -/

theorem hexDigit_spec {n : Nat} (h : n < 16) : HexDigit (hexDigit n) n := by
  unfold hexDigit
  by_cases hn : n < 10
  · rw [if_pos hn]
    exact .digit hn
  · rw [if_neg hn]
    have hl := HexDigit.lower (n := n - 10) (by omega)
    rwa [Nat.add_sub_cancel' (by omega : 10 ≤ n)] at hl

/-- A control character as an escape of four digits. -/
theorem rendersChars_control {u : UInt8} (hu : u < 0x20) {b t : Bytes} (h : RendersChars b t) :
    RendersChars (u :: b)
      (0x5c :: 0x75 ::
        (0x30 :: 0x30 :: [hexDigit (u.toNat / 16), hexDigit (u.toNat % 16)] ++ t)) := by
  have hlt : u.toNat < 0x20 := UInt8.lt_iff_toNat_lt.mp hu
  have hv : u.toNat.isValidChar := .inl (by omega)
  have hzero : HexDigit 0x30 0 := .digit (n := 0) (by omega)
  have hh : HexText (0x30 :: 0x30 :: [hexDigit (u.toNat / 16), hexDigit (u.toNat % 16)])
      (0 * 16 ^ 3 + 0 * 16 ^ 2 + u.toNat / 16 * 16 + u.toNat % 16) :=
    .mk hzero hzero (hexDigit_spec (by omega)) (hexDigit_spec (by omega))
  rw [show 0 * 16 ^ 3 + 0 * 16 ^ 2 + u.toNat / 16 * 16 + u.toNat % 16 = u.toNat by omega] at hh
  have hc := RendersChars.unicode (c := Char.ofNatAux u.toNat hv) hh h
  have he : String.utf8EncodeChar (Char.ofNatAux u.toNat hv) = [u] := by
    have he := Utf8.encode_of_lt (v := u.toNat) (by omega)
    rwa [UInt8.ofNat_toNat] at he
  rwa [he] at hc

/-- What the writer puts for a character is one of the ways to write it. -/
theorem rendersChars_escape (u : UInt8) {b t : Bytes} (h : RendersChars b t) :
    RendersChars (u :: b) (escape u ++ t) := by
  unfold escape
  split
  · exact .short (e := 0x22) (by decide) h
  · exact .short (e := 0x5c) (by decide) h
  · exact .short (e := 0x62) (by decide) h
  · exact .short (e := 0x66) (by decide) h
  · exact .short (e := 0x6e) (by decide) h
  · exact .short (e := 0x72) (by decide) h
  · exact .short (e := 0x74) (by decide) h
  · split
    · rename_i hu
      exact rendersChars_control hu h
    · rename_i hu
      exact .raw (not_lt.mp hu) ‹_› ‹_› h

theorem rendersString_quoted (s : Bytes) : RendersString s (quoted s) := by
  refine .mk ?_
  induction s with
  | nil => exact .nil
  | cons u s ih =>
      rw [List.flatMap_cons]
      exact rendersChars_escape u ih

/-- A character that the writer puts into a string as it is. -/
def PlainByte (u : UInt8) : Prop := escape u = [u]

instance : DecidablePred PlainByte := fun u ↦ inferInstanceAs (Decidable (escape u = [u]))

/-- A key without special characters is put as a string would be. -/
theorem quoted_of_plain {key : Bytes} (h : ∀ u ∈ key, PlainByte u) :
    quoted key = 0x22 :: (key ++ [0x22]) := by
  have he : key.flatMap escape = key := by
    induction key with
    | nil => rfl
    | cons u key ih =>
        rw [List.flatMap_cons, h u (by simp), ih fun v hv ↦ h v (by simp [hv])]
        rfl
  rw [quoted, he]

theorem rendersString_key {key : Bytes} (h : ∀ u ∈ key, PlainByte u) :
    RendersString key (0x22 :: (key ++ [0x22])) := by
  rw [← quoted_of_plain h]
  exact rendersString_quoted key

/-! ## Values -/

/-- A value without doubles whose keys hold no character that the writer would escape in a
string. -/
inductive Plain : Value → Prop
  | null : Plain .null
  | bool (b : Bool) : Plain (.bool b)
  | int32 (i : Int32) : Plain (.int32 i)
  | int64 (i : Int64) : Plain (.int64 i)
  | string (s : Bytes) : Plain (.string s)
  | array {xs : List Value} (h : ∀ x ∈ xs, Plain x) : Plain (.array xs)
  | object {ms : List (Bytes × Value)} (hk : ∀ m ∈ ms, ∀ u ∈ m.1, PlainByte u)
      (h : ∀ m ∈ ms, Plain m.2) : Plain (.object ms)

section

variable [DoubleText]

/-- What is to be shown of a value: its tokens with whitespace between them are a text of it. -/
def Spaced (v : Value) : Prop := ∀ s, Between Ws (tokens v) s → Renders (.value v) s

theorem renders_elements {xs : List Value} {x : Value} (hx : Spaced x) (hxs : ∀ y ∈ xs, Spaced y)
    {s w : Bytes} (h : Between Ws (tokens x ++ elementsTokens true xs) s) (hw : Ws w) :
    Renders (.items (x :: xs)) (s ++ w) := by
  induction xs generalizing x s with
  | nil =>
      rw [elementsTokens, List.append_nil] at h
      exact .item (hx s h) hw
  | cons y ys ih =>
      -- the value, the comma, and the rest
      rw [elementsTokens, if_pos rfl, List.singleton_append] at h
      obtain ⟨s₁, w₁, s₂, rfl, h₁, hw₁, h₂⟩ := h.of_append (tokens_ne_nil x) (List.cons_ne_nil _ _)
      obtain ⟨w₂, s₃, rfl, hw₂, h₃⟩ := h₂.of_cons (by simp [tokens_ne_nil])
      have hrest := ih (hxs y List.mem_cons_self) (fun z hz ↦ hxs z (List.mem_cons_of_mem y hz)) h₃
      have h := Renders.items (hx s₁ h₁) hw₁ hw₂ hrest
      simpa using h

theorem renders_members {ms : List (Bytes × Value)} {key : Bytes} {x : Value}
    (hk : ∀ u ∈ key, PlainByte u) (hx : Spaced x) (hks : ∀ m ∈ ms, ∀ u ∈ m.1, PlainByte u)
    (hxs : ∀ m ∈ ms, Spaced m.2) {s w : Bytes}
    (h : Between Ws ((0x22 :: (key ++ [0x22])) :: [0x3a] :: (tokens x ++ membersTokens true ms)) s)
    (hw : Ws w) : Renders (.members ((key, x) :: ms)) (s ++ w) := by
  induction ms generalizing key x s with
  | nil =>
      rw [membersTokens, List.append_nil] at h
      obtain ⟨w₁, s₁, rfl, hw₁, h₁⟩ := h.of_cons (List.cons_ne_nil _ _)
      obtain ⟨w₂, s₂, rfl, hw₂, h₂⟩ := h₁.of_cons (tokens_ne_nil x)
      have h := Renders.member (rendersString_key hk) hw₁ hw₂ (hx s₂ h₂) hw
      simpa using h
  | cons m ms ih =>
      obtain ⟨key', x'⟩ := m
      rw [membersTokens, if_pos rfl, List.singleton_append] at h
      obtain ⟨w₁, s₁, rfl, hw₁, h₁⟩ := h.of_cons (List.cons_ne_nil _ _)
      obtain ⟨w₂, s₂, rfl, hw₂, h₂⟩ := h₁.of_cons (by simp [tokens_ne_nil])
      obtain ⟨s₃, w₃, s₄, rfl, h₃, hw₃, h₄⟩ :=
        h₂.of_append (tokens_ne_nil x) (List.cons_ne_nil _ _)
      obtain ⟨w₄, s₅, rfl, hw₄, h₅⟩ := h₄.of_cons (List.cons_ne_nil _ _)
      have hrest := ih (hks (key', x') List.mem_cons_self) (hxs (key', x') List.mem_cons_self)
        (fun m hm ↦ hks m (List.mem_cons_of_mem _ hm))
        (fun m hm ↦ hxs m (List.mem_cons_of_mem _ hm)) h₅
      have h := Renders.members (rendersString_key hk) hw₁ hw₂ (hx s₃ h₃) hw₃ hw₄ hrest
      simpa using h

/-- Whitespace may stand in every gap. -/
theorem spaced {v : Value} (hw : v.WellFormed) (hp : Plain v) : Spaced v := by
  induction hw with
  | null =>
      intro s h
      obtain rfl := Between.singleton_iff.mp h
      exact .null
  | bool b =>
      intro s h
      obtain rfl := Between.singleton_iff.mp h
      cases b with
      | false => exact .false
      | true => exact .true
  | int32 i =>
      intro s h
      obtain rfl := Between.singleton_iff.mp h
      exact .int32 (Numeral.intText_to_string i.toInt)
  | int64 i =>
      intro s h
      obtain rfl := Between.singleton_iff.mp h
      exact .int64 (Numeral.intText_to_string i.toInt)
  | double d => cases hp
  | string b =>
      intro s h
      obtain rfl := Between.singleton_iff.mp h
      exact .string (rendersString_quoted b)
  | @array xs _ ih =>
      intro s h
      cases hp with
      | array hp =>
          rw [tokens] at h
          obtain ⟨w, s₁, rfl, hw, h₁⟩ := h.of_cons (by simp)
          cases xs with
          | nil =>
              obtain rfl := Between.singleton_iff.mp h₁
              have h := Renders.emptyArray hw
              simpa using h
          | cons x xs =>
              obtain ⟨s₂, w', s₃, rfl, h₂, hw', h₃⟩ :=
                h₁.of_append (by simp [elementsTokens, tokens_ne_nil]) (List.cons_ne_nil _ _)
              obtain rfl := Between.singleton_iff.mp h₃
              have hxs : ∀ y ∈ xs, Spaced y := fun y hy ↦
                ih y (List.mem_cons_of_mem x hy) (hp y (List.mem_cons_of_mem x hy))
              have hx : Spaced x := ih x List.mem_cons_self (hp x List.mem_cons_self)
              have hitems := renders_elements hx hxs (by simpa [elementsTokens] using h₂) hw'
              have h := Renders.array hw hitems
              simpa using h
  | @object ms hs _ ih =>
      intro s h
      cases hp with
      | object hk hp =>
          rw [tokens] at h
          obtain ⟨w, s₁, rfl, hw, h₁⟩ := h.of_cons (by simp)
          cases ms with
          | nil =>
              obtain rfl := Between.singleton_iff.mp h₁
              have h := Renders.emptyObject hw
              simpa using h
          | cons m ms =>
              obtain ⟨key, x⟩ := m
              obtain ⟨s₂, w', s₃, rfl, h₂, hw', h₃⟩ :=
                h₁.of_append (by simp [membersTokens]) (List.cons_ne_nil _ _)
              obtain rfl := Between.singleton_iff.mp h₃
              have hxs : ∀ m ∈ ms, Spaced m.2 := fun m hm ↦
                ih m (List.mem_cons_of_mem _ hm) (hp m (List.mem_cons_of_mem _ hm))
              have hx : Spaced x :=
                ih (key, x) List.mem_cons_self (hp (key, x) List.mem_cons_self)
              have hm := renders_members (hk (key, x) List.mem_cons_self) hx
                (fun m hm ↦ hk m (List.mem_cons_of_mem _ hm)) hxs
                (by simpa [membersTokens] using h₂) hw'
              have h := Renders.object hs (List.Perm.refl _) hw hm
              simpa using h

theorem renders_text {v : Value} (hw : v.WellFormed) (hp : Plain v) :
    Renders (.value v) (text v) := by
  rw [← flatten_tokens v]
  exact spaced hw hp _ (.flatten ws_nil (tokens_ne_nil v))

/-- A plain value, written into a fresh writer and read back, is the value it was, exactly if its
containers can be counted. -/
theorem parse_writeTo_iff {v : Value} (hw : v.WellFormed) (hp : Plain v) :
    (∃ w : FastWriter, v.writeTo FastWriter.new = .ok w ∧
      Reader.parse w.ws_ = .ok (.PARSE_OK, some v)) ↔ v.Countable := by
  constructor
  · rintro ⟨w, hv, -⟩
    exact FastWriter.countable_of_writeTo_new hv
  · intro hv
    refine ⟨_, FastWriter.writeTo_new hv, ?_⟩
    have h := parse_of_renders ws_nil (renders_text hw hp) ws_nil
    rwa [List.nil_append, List.append_nil] at h

end

/-- An object with an array of an integer and a string of a quote and a zero byte. -/
theorem parse_writeTo_iff_sample :
    let v := Value.object [(lit "k", .array [.int32 7, .string [0x22, 0]])]
    (∃ w : FastWriter, @Value.writeTo _ (@FastWriter.instWriterOfDoubleText noDoubles) v
        FastWriter.new = .ok w ∧
      @Reader.parse noDoubles w.ws_ = .ok (.PARSE_OK, some v)) ↔ v.Countable := by
  refine @parse_writeTo_iff noDoubles _ (.object (by decide) ?_) (.object ?_ ?_)
  · simpa using .array (by simp [Value.WellFormed.int32, Value.WellFormed.string])
  · simp only [List.mem_singleton, forall_eq, show lit "k" = [0x6b] from rfl]
    decide
  · simpa using .array (by simp [Plain.int32, Plain.string])

/-- An array with one `null` more than an `int` can count. -/
theorem not_parse_writeTo_nulls :
    let _ := noDoubles
    let v := Value.array (List.replicate (2 ^ 31) .null)
    v.WellFormed ∧ Plain v ∧ ¬ ∃ w : FastWriter, v.writeTo FastWriter.new = .ok w ∧
      Reader.parse w.ws_ = .ok (.PARSE_OK, some v) := by
  intro _ v
  refine ⟨.array fun x hx ↦ ?_, .array fun x hx ↦ ?_, ?_⟩
  · rw [List.eq_of_mem_replicate hx]
    exact .null
  · rw [List.eq_of_mem_replicate hx]
    exact .null
  · rintro ⟨w, hw, -⟩
    exact Value.not_countable_nulls (FastWriter.countable_of_writeTo_new hw)

end RpcLearning.Json
