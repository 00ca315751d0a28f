import RpcLearning.Json.RoundTrip

/-!
# Keys on the wire

`FastWriter` puts strings and keys by two functions, `Reader::parseString` reads both.  A string
comes back whatever it holds.  A key comes back when it needs no escape, and only then: a string
literal yields as many bytes as it has characters only if it holds no escape at all.
-/

namespace RpcLearning.Json

open FastWriter (quoted)

/-- The characters that stand for themselves in a string literal. -/
def Unescaped (u : UInt8) : Prop := 0x20 ≤ u ∧ u ≠ 0x22 ∧ u ≠ 0x5c

instance : DecidablePred Unescaped := fun u ↦
  inferInstanceAs (Decidable (0x20 ≤ u ∧ u ≠ 0x22 ∧ u ≠ 0x5c))

theorem charsText_of_unescaped {t : Bytes} (h : ∀ u ∈ t, Unescaped u) : CharsText t t := by
  induction t with
  | nil => exact .nil
  | cons u t ih =>
      obtain ⟨hc, hq, hb⟩ := h u List.mem_cons_self
      exact .raw hc hq hb (ih fun v hv ↦ h v (List.mem_cons_of_mem u hv))

/-! ## What an escape costs -/

theorem length_encodeUtf8 {u : Nat} {b : Bytes} (h : Reader.encodeUtf8 u = .ok b) :
    b.length ≤ 4 := by
  unfold Reader.encodeUtf8 at h
  split_ifs at h
  · cases h
    exact Nat.le_add_left 1 3
  · cases h
    exact Nat.le_add_left 2 2
  · cases h
    exact Nat.le_add_left 3 1
  · simp only [Exec.bind_eq_ok] at h
    obtain ⟨_, -, h⟩ := h
    cases h
    exact le_rfl

theorem Hex4.length {h : Bytes} {u : Nat} (hh : Hex4 h u) : h.length = 4 := by
  cases hh
  rfl

/-- An escape is longer than what it stands for. -/
theorem EscapeText.length_lt {e b : Bytes} (h : EscapeText e b) : b.length < e.length := by
  cases h with
  | short _ => exact Nat.lt_succ_self 1
  | codePoint ht hb =>
      have hb := length_encodeUtf8 hb
      cases ht with
      | single hh _ =>
          have hh := hh.length
          simp only [List.length_cons]
          omega
      | pair hh _ _ _ =>
          have hh := hh.length
          simp only [List.length_cons, List.length_append]
          omega

theorem CharsText.length_le {t b : Bytes} (h : CharsText t b) : b.length ≤ t.length := by
  induction h with
  | nil => exact le_rfl
  | raw _ _ _ _ ih => exact Nat.succ_le_succ ih
  | escape he _ ih =>
      have he := he.length_lt
      simp only [List.length_append]
      omega

/-- The inside of a literal that yields as many bytes as it has characters has no escape. -/
theorem CharsText.unescaped {t b : Bytes} (h : CharsText t b) (hlen : b.length = t.length) :
    ∀ u ∈ t, Unescaped u := by
  induction h with
  | nil => exact fun u hu ↦ absurd hu List.not_mem_nil
  | raw hc hq hb _ ih =>
      intro u hu
      rcases List.mem_cons.mp hu with rfl | hu
      · exact ⟨hc, hq, hb⟩
      · exact ih (Nat.succ.inj hlen) u hu
  | escape he ht _ =>
      have he := he.length_lt
      have ht := ht.length_le
      simp only [List.length_append] at hlen
      omega

/-! ## Keys and strings -/

/-- Put between quotes, a key is read back exactly if all its characters stand for themselves. -/
theorem parseString_quotes_iff {k r : Bytes} :
    Reader.parseString (0x22 :: (k ++ [0x22]) ++ r) = .ok (.string k, r) ↔
      ∀ u ∈ k, Unescaped u := by
  rw [List.cons_append, Reader.parseString_eq_ok]
  constructor
  · rintro (⟨s, b, hs, he, hv⟩ | ⟨-, hv, -⟩)
    · obtain rfl : k = b := Value.string.inj hv
      cases hs with
      | mk h =>
          -- the literal ends where the rest begins, so its inside is the key
          simp only [List.cons_append, List.cons.injEq, true_and] at he
          have he := List.append_cancel_right he
          have he := List.append_cancel_right he
          subst he
          exact h.unescaped rfl
    · exact absurd hv (by simp)
  · intro h
    left
    exact ⟨_, k, .mk (charsText_of_unescaped h), rfl, rfl⟩

/-- What a function of the writer puts for `k`, after the separator due there, is a string literal
of its own: whatever comes after it, `parseString` reads `k` from it and stops behind it. -/
def Survives (emit : Bytes → FastWriter → Run FastWriter) (k r : Bytes) : Prop :=
  ∀ w : FastWriter, w.Ready .TYPE_STRING → ∃ t, emit k w = .ok (w.counted.put t) ∧
    Reader.parseString (t ++ r) = .ok (.string k, r)

theorem survives_string (k r : Bytes) : Survives FastWriter.string k r := by
  intro w hw
  refine ⟨quoted k, FastWriter.token_eq hw _, ?_⟩
  have hk := (rendersString_quoted k).stringText
  obtain ⟨t, ht⟩ := hk.exists_cons
  rw [ht, List.cons_append, Reader.parseString_eq_ok, ← List.cons_append, ← ht]
  left
  exact ⟨_, k, hk, rfl, rfl⟩

theorem survives_key_iff {k r : Bytes} :
    Survives FastWriter.key k r ↔ ∀ u ∈ k, Unescaped u := by
  constructor
  · intro h
    have hnew : FastWriter.new.Ready .TYPE_STRING := FastWriter.ready_new.of_null _
    obtain ⟨t, ht, hp⟩ := h FastWriter.new hnew
    have he : FastWriter.new.key k = .ok (FastWriter.new.counted.put (0x22 :: (k ++ [0x22]))) :=
      FastWriter.token_eq hnew _
    rw [he, Except.ok.injEq] at ht
    have ht : 0x22 :: (k ++ [0x22]) = t := List.append_cancel_left (congrArg (·.ws_) ht)
    rw [← ht] at hp
    exact parseString_quotes_iff.mp hp
  · intro h w hw
    exact ⟨_, FastWriter.token_eq hw _, parseString_quotes_iff.mpr h⟩

/-- A string survives, whatever it holds; a key exactly if it has no quote, no backslash and no
control character. -/
theorem survives_string_and_key_iff (k r : Bytes) :
    Survives FastWriter.string k r ∧ (Survives FastWriter.key k r ↔ ∀ u ∈ k, Unescaped u) := by
  constructor
  · exact survives_string k r
  · exact survives_key_iff

/-- A key that is a quote: the literal is closed before it. -/
theorem not_survives_key : ¬ Survives FastWriter.key [0x22] [] := by
  intro h
  exact (survives_key_iff.mp h 0x22 (List.mem_singleton_self _)).2.1 rfl

end RpcLearning.Json
