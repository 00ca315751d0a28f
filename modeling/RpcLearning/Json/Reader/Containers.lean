import RpcLearning.Json.Reader.Rounds

/-!
# The reader against `Reads`

`parseValue` and the container loops return exactly what `Reads` describes, and the bound that
`parse` gives them is never used up.  The one value they return beyond that is the `null` of a
string that the end of the text leaves open.
-/

namespace RpcLearning.Json

/-! ## Texts that are read are not empty -/

theorem ScalarText.front_ne {t : Bytes} (h : ScalarText t) (r : Bytes) {d : UInt8}
    (hd : d ∉ lit "ntf\"-") (hd' : ¬ Numeral.isDigit d) : Stream.front (t ++ r) ≠ d := by
  have letter : ∀ c ∈ lit "ntf\"-", c ≠ d := fun c hc he ↦ hd (he ▸ hc)
  have numeral : ∀ {s u : Bytes} {i : Int}, Numeral.IntText s i → Stream.front (s ++ u) ≠ d := by
    intro s u i hs
    obtain ⟨c, ds, rfl, rfl | hc⟩ := hs.exists_cons
    · exact letter 0x2d (by decide)
    · exact fun he ↦ hd' (he ▸ hc)
  cases h with
  | null => exact letter 0x6e (by decide)
  | true => exact letter 0x74 (by decide)
  | false => exact letter 0x66 (by decide)
  | string ht =>
      obtain ⟨u, rfl⟩ := ht.exists_cons
      exact letter 0x22 (by decide)
  | int32 hs _ =>
      rw [List.append_assoc]
      exact numeral hs
  | int64 hs _ =>
      rw [List.append_assoc]
      exact numeral hs
  | double h =>
      obtain ⟨hs, -, -, -⟩ := h
      rw [List.append_assoc, List.append_assoc]
      exact numeral hs

theorem Unterminated.noWs {s : Bytes} (h : Unterminated s) : Reader.NoWs s := by
  obtain ⟨t, rfl⟩ := h.exists_cons
  exact Reader.noWs_cons.mpr (by decide)

variable [DoubleText]

theorem ReadsNumber.exists_scalarText {s r : Bytes} {v : Value} (h : ReadsNumber s v r) :
    ∃ t, ScalarText t ∧ s = t ++ r := by
  cases h with
  | int32 hs hi => exact ⟨_, .int32 hs hi, by simp⟩
  | int64 hs hi => exact ⟨_, .int64 hs hi, by simp⟩
  | double h _ _ _ => exact ⟨_, .double h, rfl⟩

theorem ReadsScalar.exists_scalarText {s r : Bytes} {v : Value} (h : ReadsScalar s v r) :
    ∃ t, ScalarText t ∧ s = t ++ r := by
  cases h with
  | null => exact ⟨_, .null, rfl⟩
  | true => exact ⟨_, .true, rfl⟩
  | false => exact ⟨_, .false, rfl⟩
  | string ht => exact ⟨_, .string ht, rfl⟩
  | number hn => exact hn.exists_scalarText

theorem ReadsNumber.length_lt {s r : Bytes} {v : Value} (h : ReadsNumber s v r) :
    r.length < s.length := by
  obtain ⟨type, -, hs, -⟩ := Reader.exists_scanned h
  exact hs.length_lt

theorem ReadsScalar.length_lt {s r : Bytes} {v : Value} (h : ReadsScalar s v r) :
    r.length < s.length := by
  cases h with
  | null =>
      simp only [lit, List.length_append, String.length_toList, List.length_map]
      exact Nat.lt_add_of_pos_left (by decide)
  | true =>
      simp only [lit, List.length_append, String.length_toList, List.length_map]
      exact Nat.lt_add_of_pos_left (by decide)
  | false =>
      simp only [lit, List.length_append, String.length_toList, List.length_map]
      exact Nat.lt_add_of_pos_left (by decide)
  | string ht =>
      obtain ⟨u, rfl⟩ := ht.exists_cons
      simp
  | number hn => exact hn.length_lt

/-- Reading takes at least one character. -/
theorem Reads.length_lt {n : Reading} {s r : Bytes} {b : Bool} {v : Value}
    (h : Reads n s b v r) : r.length < s.length := by
  induction h with
  | scalar h => exact h.length_lt
  | emptyArray hs _ =>
      simp only [hs, List.length_cons, List.length_append]
      omega
  | array hs _ _ ih =>
      simp only [hs, List.length_cons, List.length_append]
      omega
  | emptyObject hs _ =>
      simp only [hs, List.length_cons, List.length_append]
      omega
  | object hs _ _ ih =>
      simp only [hs, List.length_cons, List.length_append]
      omega
  | lastItem _ ht _ ih =>
      simp only [ht, List.length_cons, List.length_append] at ih
      omega
  | nextItem _ ht _ _ ih ih' =>
      simp only [ht, List.length_append] at ih
      omega
  | lastMember hs _ _ _ hu _ ih =>
      simp only [hu, List.length_cons, List.length_append] at ih
      simp only [hs, List.length_append]
      omega
  | nextMember hs _ _ _ hu _ _ _ ih ih' =>
      simp only [hu, List.length_cons, List.length_append] at ih
      simp only [hs, List.length_append]
      omega

/-! ## First characters -/

open Reader (NoWs noWs_cons)

/-- A scalar begins with a letter, a quote, a sign or a digit. -/
theorem ReadsScalar.front_ne {s r : Bytes} {v : Value} (h : ReadsScalar s v r) {d : UInt8}
    (hd : d ∉ lit "ntf\"-") (hd' : ¬ Numeral.isDigit d) : Stream.front s ≠ d := by
  obtain ⟨t, ht, rfl⟩ := h.exists_scalarText
  exact ht.front_ne r hd hd'

theorem ReadsScalar.noWs {s r : Bytes} {v : Value} (h : ReadsScalar s v r) : NoWs s :=
  Reader.noWs_of_front_ne (h.front_ne (by decide) (by decide)) (h.front_ne (by decide) (by decide))
    (h.front_ne (by decide) (by decide)) (h.front_ne (by decide) (by decide))

/-- What is read starts right away, and with no closing bracket. -/
theorem Reads.start {n : Reading} {s r : Bytes} {b : Bool} {v : Value} (h : Reads n s b v r) :
    NoWs s ∧ Stream.front s ≠ 0x5d ∧ Stream.front s ≠ 0x7d := by
  have bracket : ∀ {c : UInt8} {t : Bytes}, Reader.isWhitespace c = false → c ≠ 0x5d → c ≠ 0x7d →
      NoWs (c :: t) ∧ Stream.front (c :: t) ≠ 0x5d ∧ Stream.front (c :: t) ≠ 0x7d :=
    fun hw h5d h7d ↦ ⟨noWs_cons.mpr hw, h5d, h7d⟩
  have member : ∀ {k key t : Bytes}, KeyText k key →
      NoWs (k ++ t) ∧ Stream.front (k ++ t) ≠ 0x5d ∧ Stream.front (k ++ t) ≠ 0x7d := by
    intro k key t hk
    obtain ⟨u, rfl⟩ := hk.exists_cons
    exact bracket (by decide) (by decide) (by decide)
  induction h with
  | scalar h =>
      exact ⟨h.noWs, h.front_ne (by decide) (by decide), h.front_ne (by decide) (by decide)⟩
  | emptyArray hs _ => exact hs ▸ bracket (by decide) (by decide) (by decide)
  | array hs _ _ _ => exact hs ▸ bracket (by decide) (by decide) (by decide)
  | emptyObject hs _ => exact hs ▸ bracket (by decide) (by decide) (by decide)
  | object hs _ _ _ => exact hs ▸ bracket (by decide) (by decide) (by decide)
  | lastItem _ _ _ ih => exact ih
  | nextItem _ _ _ _ ih _ => exact ih
  | lastMember hs hk _ _ _ _ _ => exact hs ▸ member hk
  | nextMember hs hk _ _ _ _ _ _ _ _ => exact hs ▸ member hk

/-! ## Soundness and completeness -/

namespace Reader

/-- The function that reads a nonterminal. -/
def run : Reading → Nat → Stream → Parse (Value × Stream)
  | .value => parseValue
  | .items xs => fun fuel ↦ parseArrayLoop fuel (.array xs)
  | .members ms => fun fuel ↦ parseObjectLoop fuel (.object ms)

/-- Rounds that suffice for a nonterminal. -/
def cost : Reading → Stream → Nat
  | .value, is => 2 * is.length + 1
  | .items _, is => 2 * is.length + 2
  | .members _, is => 2 * is.length + 2

/-- What is read leads the reader to its value. -/
theorem run_of_reads {n : Reading} {s r : Stream} {b : Bool} {v : Value}
    (h : Reads n s b v r) {fuel : Nat} (hf : cost n s ≤ fuel) : run n fuel s = .ok (v, r) := by
  induction h generalizing fuel with
  | scalar h =>
      cases fuel with
      | zero => simp [cost] at hf
      | succ fuel =>
          exact (parseValue_leaf_eq_ok (h.front_ne (by decide) (by decide))
            (h.front_ne (by decide) (by decide))).mpr (.inl h)
  | @emptyArray s w r hs hw =>
      subst hs
      cases fuel with
      | zero => simp [cost] at hf
      | succ fuel => exact parseValue_emptyArray hw fuel r
  | @array s w t r b v hs hw h ih =>
      subst hs
      cases fuel with
      | zero => simp [cost] at hf
      | succ fuel =>
          refine (parseValue_array hw h.start.1 h.start.2.1 fuel).trans (ih ?_)
          simp only [cost, List.length_cons, List.length_append] at hf ⊢
          omega
  | @emptyObject s w r hs hw =>
      subst hs
      cases fuel with
      | zero => simp [cost] at hf
      | succ fuel => exact parseValue_emptyObject hw fuel r
  | @object s w t r b v hs hw h ih =>
      subst hs
      cases fuel with
      | zero => simp [cost] at hf
      | succ fuel =>
          refine (parseValue_object hw h.start.1 h.start.2.2 fuel).trans (ih ?_)
          simp only [cost, List.length_cons, List.length_append] at hf ⊢
          omega
  | lastItem h ht hw ih =>
      subst ht
      cases fuel with
      | zero => simp [cost] at hf
      | succ fuel => exact parseArrayLoop_close (ih (by simpa [cost] using hf)) hw
  | @nextItem xs s t u t' r b b' b'' x v h ht hu h' ih ih' =>
      subst ht
      cases fuel with
      | zero => simp [cost] at hf
      | succ fuel =>
          refine (parseArrayLoop_next (ih (by simpa [cost] using hf)) hu (.inr h'.start.1)).trans
            (ih' ?_)
          have hlt := h.length_lt
          simp only [cost, List.length_append] at hf hlt ⊢
          omega
  | @lastMember ms s k key t u w r b x hs hk h hkey hu hw ih =>
      subst hs hu
      cases fuel with
      | zero => simp [cost] at hf
      | succ fuel =>
          refine parseObjectLoop_close hk h.start.1 (ih ?_) hkey hw
          simp only [cost, List.length_append] at hf ⊢
          omega
  | @nextMember ms s k key t u w w' t' r b b' x v hs hk h hkey hu hw hw' h' ih ih' =>
      subst hs hu
      have hlt := h.length_lt
      cases fuel with
      | zero => simp [cost] at hf
      | succ fuel =>
          refine (parseObjectLoop_next hk h.start.1 (ih ?_) hkey hw hw' h'.start.1).trans (ih' ?_)
          · simp only [cost, List.length_append] at hf ⊢
            omega
          · simp only [cost, List.length_append, List.length_cons] at hf hlt ⊢
            omega

theorem parseValue_of_unterminated {s : Stream} (h : Unterminated s) (fuel : Nat) :
    parseValue (fuel + 1) s = .ok (.null, []) := by
  have hs : s.front = 0x22 := by
    cases h
    rfl
  exact (parseValue_leaf_eq_ok (by rw [hs]; decide) (by rw [hs]; decide)).mpr
    (.inr ⟨h, rfl, rfl⟩)

/-- What the reader returns, it has read, unless it is the `null` of an open string. -/
theorem reads_of_run {fuel : Nat} {n : Reading} {s r : Stream} {v : Value}
    (h : run n fuel s = .ok (v, r)) :
    (∃ b, Reads n s b v r) ∨ n = .value ∧ Unterminated s ∧ v = .null ∧ r = [] := by
  induction fuel generalizing n s v r with
  | zero => cases n <;> cases h
  | succ fuel ih =>
      have inside : ∀ {n : Reading} {s r : Stream} {v : Value}, n ≠ .value ∨ r ≠ [] →
          run n fuel s = .ok (v, r) → ∃ b, Reads n s b v r := by
        intro n s r v hrd h
        refine (ih h).resolve_right ?_
        rintro ⟨hv, -, -, hr⟩
        exact hrd.elim (absurd hv) (absurd hr)
      cases n with
      | value =>
          rcases parseValue_eq_ok h with hs | ⟨hu, rfl, rfl⟩ | ⟨w, hw, rfl, rfl⟩ |
            ⟨w, t, hw, rfl, h'⟩ | ⟨w, hw, rfl, rfl⟩ | ⟨w, t, hw, rfl, h'⟩
          · exact .inl ⟨_, .scalar hs⟩
          · exact .inr ⟨rfl, hu, rfl, rfl⟩
          · exact .inl ⟨_, .emptyArray rfl hw⟩
          · obtain ⟨b, hb⟩ := inside (n := .items []) (.inl (by simp)) h'
            exact .inl ⟨b, .array rfl hw hb⟩
          · exact .inl ⟨_, .emptyObject rfl hw⟩
          · obtain ⟨b, hb⟩ := inside (n := .members []) (.inl (by simp)) h'
            exact .inl ⟨b, .object rfl hw hb⟩
      | items xs =>
          obtain ⟨x, t, hne, hv, ⟨w, hw, rfl, rfl⟩ | ⟨u, b', t', hu, rfl, h'⟩⟩ :=
            parseArrayLoop_eq_ok h
          · obtain ⟨b, hb⟩ := inside (n := .value) (.inr hne) hv
            exact .inl ⟨b, .lastItem hb rfl hw⟩
          · obtain ⟨b, hb⟩ := inside (n := .value) (.inr hne) hv
            obtain ⟨b'', hb'⟩ := inside (n := .items _) (.inl (by simp)) h'
            exact .inl ⟨_, .nextItem hb rfl hu hb'⟩
      | members ms =>
          obtain ⟨k, key, t, x, u, hk, rfl, hkey, hne, hv, ⟨w, hw, rfl, rfl⟩ |
            ⟨w, w', t', hw, hw', rfl, h'⟩⟩ := parseObjectLoop_eq_ok h
          · obtain ⟨b, hb⟩ := inside (n := .value) (.inr hne) hv
            exact .inl ⟨b, .lastMember rfl hk hb hkey rfl hw⟩
          · obtain ⟨b, hb⟩ := inside (n := .value) (.inr hne) hv
            obtain ⟨b', hb'⟩ := inside (n := .members _) (.inl (by simp)) h'
            exact .inl ⟨_, .nextMember rfl hk hb hkey rfl hw hw' hb'⟩

end Reader

end RpcLearning.Json
