import RpcLearning.Json.Reader.Containers
import RpcLearning.Json.Reader.Errors

/-!
# The reader against the grammar

A text that is read with commas alone between the elements of its arrays derives from the grammar;
and a text of the grammar can be read in no other way.  So the texts the reader accepts beyond the
grammar are exactly those it reads with some other separator, and the strings left open.
-/

namespace RpcLearning.Json

open Numeral (IntText DoubleNumeral EndsNumeral)
open Reader (NoWs noWs_cons isWhitespace)

/-- The nonterminal of the grammar behind a reading. -/
def Reading.symbol : Reading → Symbol
  | .value => .value
  | .items _ => .items
  | .members _ => .members

/-- What ends the text of a nonterminal. -/
def Symbol.closing : Symbol → Bytes
  | .value => []
  | .items => [0x5d]
  | .members => [0x7d]

/-! ## Where one piece ends and the next begins -/

/-- Both of two texts that follow whitespace. -/
theorem Ws.append_inj {w w' : Bytes} {t t' : Stream} (hw : Ws w) (hw' : Ws w') (ht : NoWs t)
    (ht' : NoWs t') (h : w ++ t = w' ++ t') : t = t' := by
  have hp := congrArg Reader.parseWhitespace h
  rwa [Reader.parseWhitespace_append_noWs hw ht, Reader.parseWhitespace_append_noWs hw' ht'] at hp

theorem StringText.append_inj {s s' b b' r r' : Bytes} (hs : StringText s b)
    (hs' : StringText s' b') (h : s ++ r = s' ++ r') : b = b' ∧ r = r' := by
  obtain ⟨u, rfl⟩ := hs.exists_cons
  have h₁ := (Reader.parseString_eq_ok (r := r)).mpr (.inl ⟨_, b, hs, rfl, rfl⟩)
  have h₂ := Reader.parseString_eq_ok.mpr (.inl ⟨s', b', hs', h, rfl⟩)
  simpa using h₁.symm.trans h₂

/-- A closed string is not an open one. -/
theorem StringText.not_unterminated {s b r : Bytes} (hs : StringText s b) :
    ¬ Unterminated (s ++ r) := by
  intro h
  obtain ⟨u, rfl⟩ := hs.exists_cons
  have h₁ := (Reader.parseString_eq_ok (r := r)).mpr (.inl ⟨_, b, hs, rfl, rfl⟩)
  have h₂ := Reader.parseString_eq_ok.mpr (.inr ⟨h, rfl, rfl⟩)
  cases h₁.symm.trans h₂

theorem KeyText.append_inj {k k' key key' : Bytes} {t t' : Stream} (hk : KeyText k key)
    (hk' : KeyText k' key') (ht : NoWs t) (ht' : NoWs t') (h : k ++ t = k' ++ t') :
    key = key' ∧ t = t' := by
  obtain ⟨hs, hw₁, hw₂⟩ := hk
  obtain ⟨hs', hw₁', hw₂'⟩ := hk'
  simp only [List.append_assoc, List.cons_append] at h
  obtain ⟨rfl, h⟩ := hs.append_inj hs' h
  have h := hw₁.append_inj hw₁' (noWs_cons.mpr (by decide)) (noWs_cons.mpr (by decide)) h
  exact ⟨rfl, hw₂.append_inj hw₂' ht ht' (List.cons.inj h).2⟩

/-- What may come after a value in a text of the grammar. -/
def Follow (r : Bytes) : Prop :=
  ∀ c ∈ r.head?, isWhitespace c ∨ c = 0x2c ∨ c = 0x5d ∨ c = 0x7d

theorem follow_append {w : Bytes} (hw : Ws w) {c : UInt8} (hc : c = 0x2c ∨ c = 0x5d ∨ c = 0x7d)
    (r : Bytes) : Follow (w ++ c :: r) := by
  cases w with
  | nil => simpa [Follow] using .inr hc
  | cons d w =>
      have hd := (ws_cons.mp hw).1
      simpa [Follow] using .inl hd

theorem Ws.follow {w : Bytes} (hw : Ws w) : Follow w := by
  intro c hc
  exact .inl (hw c (List.mem_of_mem_head? hc))

theorem Follow.ne {r : Bytes} (h : Follow r) {d : UInt8} (hd : ¬ isWhitespace d)
    (hd' : d ∉ lit ",]\x7d") : ∀ c ∈ r.head?, c ≠ d := by
  rintro c hc rfl
  rcases h c hc with hw | rfl | rfl | rfl
  · exact hd hw
  · exact hd' (by decide)
  · exact hd' (by decide)
  · exact hd' (by decide)

theorem Follow.endsNumeral {r : Bytes} (h : Follow r) (e : Bytes) : EndsNumeral e r where
  noDigit c hc := by
    rw [← Bool.not_eq_true]
    intro hd
    rcases h c hc with hw | rfl | rfl | rfl
    · revert hd
      simp only [isWhitespace, Bool.or_eq_true, beq_iff_eq, or_assoc] at hw
      rcases hw with rfl | rfl | rfl | rfl <;> decide
    · exact absurd hd (by decide)
    · exact absurd hd (by decide)
    · exact absurd hd (by decide)
  noExponent _ c hc := ⟨h.ne (by decide) (by decide) c hc, h.ne (by decide) (by decide) c hc⟩

theorem Follow.front_ne {r : Bytes} (h : Follow r) {d : UInt8} (h0 : d ≠ 0)
    (hd : ¬ isWhitespace d) (hd' : d ∉ lit ",]\x7d") : Stream.front r ≠ d :=
  (Reader.front_ne_of_head? h0).mpr (h.ne hd hd')

/-- The scanners take one numeral. -/
theorem Reader.Scanned.unique {s r r' : Bytes} {type type' : ValueType}
    (h : Reader.Scanned s type r) (h' : Reader.Scanned s type' r') (ht : type ≠ .TYPE_NULL)
    (ht' : type' ≠ .TYPE_NULL) : r = r' := by
  obtain ⟨is₁, is₂, is₃, frac, exp, h₁, h₂, h₃, h₄⟩ := h.scan ht
  obtain ⟨is₁', is₂', is₃', frac', exp', h₁', h₂', h₃', h₄'⟩ := h'.scan ht'
  obtain rfl : is₁ = is₁' := by simpa using h₁.symm.trans h₁'
  obtain ⟨rfl, rfl⟩ : frac = frac' ∧ is₂ = is₂' := by simpa using h₂.symm.trans h₂'
  obtain ⟨rfl, rfl⟩ : exp = exp' ∧ is₃ = is₃' := by simpa using h₃.symm.trans h₃'
  have h₅ := h₄.symm.trans h₄'
  simp only [Except.ok.injEq, Prod.mk.injEq] at h₅
  exact h₅.2

theorem Derives.start {sym : Symbol} {t : Bytes} (h : Derives sym t) (r : Bytes) :
    NoWs (t ++ r) ∧ Stream.front (t ++ r) ≠ 0x5d ∧ Stream.front (t ++ r) ≠ 0x7d := by
  have bracket : ∀ {c : UInt8} {u : Bytes}, isWhitespace c = false → c ≠ 0x5d → c ≠ 0x7d →
      NoWs (c :: u) ∧ Stream.front (c :: u) ≠ 0x5d ∧ Stream.front (c :: u) ≠ 0x7d :=
    fun hw h5d h7d ↦ ⟨noWs_cons.mpr hw, h5d, h7d⟩
  induction h generalizing r with
  | scalar h =>
      exact ⟨Reader.noWs_of_front_ne (h.front_ne r (by decide) (by decide))
        (h.front_ne r (by decide) (by decide)) (h.front_ne r (by decide) (by decide))
        (h.front_ne r (by decide) (by decide)), h.front_ne r (by decide) (by decide),
        h.front_ne r (by decide) (by decide)⟩
  | emptyArray _ => exact bracket (by decide) (by decide) (by decide)
  | array _ _ _ => exact bracket (by decide) (by decide) (by decide)
  | emptyObject _ => exact bracket (by decide) (by decide) (by decide)
  | object _ _ _ => exact bracket (by decide) (by decide) (by decide)
  | item _ _ ih =>
      rw [List.append_assoc]
      exact ih _
  | items _ _ _ _ ih _ =>
      rw [List.append_assoc, List.append_assoc]
      exact ih _
  | member hk _ _ _ _ _ =>
      obtain ⟨u, rfl⟩ := hk.exists_cons
      exact bracket (by decide) (by decide) (by decide)
  | members hk _ _ _ _ _ _ _ _ =>
      obtain ⟨u, rfl⟩ := hk.exists_cons
      exact bracket (by decide) (by decide) (by decide)

/-- Behind whitespace there is one character only. -/
theorem Ws.append_cons_ne {w w' r r' : Bytes} {c d : UInt8} (hw : Ws w) (hw' : Ws w')
    (hc : isWhitespace c = false) (hd : isWhitespace d = false) (hne : d ≠ c) :
    w ++ c :: r ≠ w' ++ d :: r' := by
  intro h
  have h := hw.append_inj hw' (noWs_cons.mpr hc) (noWs_cons.mpr hd) h
  exact hne (List.cons.inj h).1.symm

variable [DoubleText]

/-! ## From what is read to the grammar -/

theorem Reads.exists_derives {n : Reading} {s r : Bytes} {b : Bool} {v : Value}
    (h : Reads n s b v r) (hb : b = false) :
    ∃ t, Derives n.symbol t ∧ s = t ++ (n.symbol.closing ++ r) := by
  induction h with
  | scalar h =>
      obtain ⟨t, ht, rfl⟩ := h.exists_scalarText
      exact ⟨t, .scalar ht, rfl⟩
  | @emptyArray s w r hs hw =>
      exact ⟨_, .emptyArray hw, by simp [hs, Reading.symbol, Symbol.closing]⟩
  | array hs hw _ ih =>
      obtain ⟨t, ht, rfl⟩ := ih hb
      exact ⟨_, .array hw ht, by simp [hs, Reading.symbol, Symbol.closing]⟩
  | emptyObject hs hw => exact ⟨_, .emptyObject hw, by simp [hs, Reading.symbol, Symbol.closing]⟩
  | object hs hw _ ih =>
      obtain ⟨t, ht, rfl⟩ := ih hb
      exact ⟨_, .object hw ht, by simp [hs, Reading.symbol, Symbol.closing]⟩
  | lastItem _ ht hw ih =>
      obtain ⟨t, hd, rfl⟩ := ih hb
      exact ⟨_, .item hd hw, by simp [ht, Reading.symbol, Symbol.closing]⟩
  | nextItem _ ht hu _ ih ih' =>
      simp only [Bool.or_eq_false_iff] at hb
      obtain ⟨⟨hb, rfl⟩, hb''⟩ := hb
      obtain ⟨t, hd, rfl⟩ := ih hb
      obtain ⟨t', hd', rfl⟩ := ih' hb''
      cases hu with
      | comma hw hw' =>
          exact ⟨_, .items hd hw hw' hd', by simp [ht, Reading.symbol, Symbol.closing]⟩
  | lastMember hs hk _ _ hu hw ih =>
      obtain ⟨t, hd, rfl⟩ := ih hb
      obtain ⟨hk, hw₁, hw₂⟩ := hk
      exact ⟨_, .member hk hw₁ hw₂ hd hw, by simp [hs, hu, Reading.symbol, Symbol.closing]⟩
  | nextMember hs hk _ _ hu hw hw' _ ih ih' =>
      simp only [Bool.or_eq_false_iff] at hb
      obtain ⟨t, hd, rfl⟩ := ih hb.1
      obtain ⟨t', hd', rfl⟩ := ih' hb.2
      obtain ⟨hk, hw₁, hw₂⟩ := hk
      exact ⟨_, .members hk hw₁ hw₂ hd hw hw' hd',
        by simp [hs, hu, Reading.symbol, Symbol.closing]⟩

/-! ## No other way to read a text of the grammar -/

theorem ReadsScalar.unique {s r r' : Bytes} {v v' : Value} (h : ReadsScalar s v r)
    (h' : ReadsScalar s v' r') : r = r' := by
  have h₁ := Reader.run_of_reads (.scalar h) le_rfl
  have h₂ := Reader.run_of_reads (.scalar h') le_rfl
  have h₃ := h₁.symm.trans h₂
  simp only [Except.ok.injEq, Prod.mk.injEq] at h₃
  exact h₃.2

/-- Reading a scalar of the grammar takes exactly its text. -/
theorem ScalarText.unique {t r r' : Bytes} {v : Value} (h : ScalarText t) (hr : Follow r)
    (h' : ReadsScalar (t ++ r) v r') : r' = r := by
  cases h with
  | null => exact h'.unique .null
  | true => exact h'.unique .true
  | false => exact h'.unique .false
  | string ht => exact h'.unique (.string ht)
  | int32 hs hi =>
      rw [List.append_assoc] at h'
      exact h'.unique (.number (.int32 hs hi))
  | int64 hs hi =>
      rw [List.append_assoc] at h'
      exact h'.unique (.number (.int64 hs hi))
  | @double s f e h =>
      have hscan : Reader.Scanned (s ++ f ++ e ++ r) .TYPE_DOUBLE r := by
        rw [show s ++ f ++ e ++ r = s ++ (f ++ (e ++ r)) by simp]
        exact .double h (hr.endsNumeral e) (hr.front_ne (by decide) (by decide) (by decide))
      -- the range of `strtod` does not matter for where the numeral ends
      obtain ⟨c, u, hc, hnum⟩ :
          ∃ c u, s ++ f ++ e ++ r = c :: u ∧ (c = 0x2d ∨ Numeral.isDigit c) := by
        obtain ⟨hs, -, -, -⟩ := h
        obtain ⟨c, ds, rfl, hc⟩ := hs.exists_cons
        exact ⟨c, _, rfl, hc⟩
      have hp : Reader.parseValue (0 + 1) (s ++ f ++ e ++ r) = .ok (v, r') :=
        (Reader.parseValue_leaf_eq_ok (h'.front_ne (by decide) (by decide))
          (h'.front_ne (by decide) (by decide))).mpr (.inl h')
      rw [hc, Reader.parseValue_numeral _ hnum, ← hc, Reader.parseNumber_eq_ok] at hp
      obtain ⟨type, ht, hscan', -⟩ := Reader.exists_scanned hp
      exact hscan'.unique hscan ht (by simp)

/-- What reading does behind an opening square bracket. -/
theorem Reads.bracket {w r : Bytes} {t : Stream} {b : Bool} {v : Value}
    (h : Reads .value (0x5b :: (w ++ t)) b v r) (hw : Ws w) (ht : NoWs t) :
    (b = false ∧ t = 0x5d :: r) ∨ Stream.front t ≠ 0x5d ∧ Reads (.items []) t b v r := by
  cases h with
  | scalar h => exact absurd rfl (h.front_ne (d := 0x5b) (by decide) (by decide))
  | emptyArray hs hw' =>
      have he := hw.append_inj hw' ht (noWs_cons.mpr (by decide)) (List.cons.inj hs).2
      exact .inl ⟨rfl, he⟩
  | array hs hw' h' =>
      obtain rfl := hw.append_inj hw' ht h'.start.1 (List.cons.inj hs).2
      exact .inr ⟨h'.start.2.1, h'⟩
  | emptyObject hs _ => exact absurd (List.cons.inj hs).1 (by decide)
  | object hs _ _ => exact absurd (List.cons.inj hs).1 (by decide)

/-- What reading does behind an opening curly bracket. -/
theorem Reads.brace {w r : Bytes} {t : Stream} {b : Bool} {v : Value}
    (h : Reads .value (0x7b :: (w ++ t)) b v r) (hw : Ws w) (ht : NoWs t) :
    (b = false ∧ t = 0x7d :: r) ∨ Stream.front t ≠ 0x7d ∧ Reads (.members []) t b v r := by
  cases h with
  | scalar h => exact absurd rfl (h.front_ne (d := 0x7b) (by decide) (by decide))
  | emptyArray hs _ => exact absurd (List.cons.inj hs).1 (by decide)
  | array hs _ _ => exact absurd (List.cons.inj hs).1 (by decide)
  | emptyObject hs hw' =>
      have he := hw.append_inj hw' ht (noWs_cons.mpr (by decide)) (List.cons.inj hs).2
      exact .inl ⟨rfl, he⟩
  | object hs hw' h' =>
      obtain rfl := hw.append_inj hw' ht h'.start.1 (List.cons.inj hs).2
      exact .inr ⟨h'.start.2.2, h'⟩

/-- What reading does with the members behind a key. -/
theorem Reads.members_key {ms : List (Bytes × Value)} {k key r : Bytes} {t : Stream} {b : Bool}
    {v : Value} (h : Reads (.members ms) (k ++ t) b v r) (hk : KeyText k key) (ht : NoWs t) :
    ∃ b' x u, Reads .value t b' x u ∧
      ((b = b' ∧ ∃ w, Ws w ∧ u = w ++ 0x7d :: r) ∨
        ∃ w w' t' b'', Ws w ∧ Ws w' ∧ u = w ++ 0x2c :: (w' ++ t') ∧ b = (b' || b'') ∧
          Reads (.members (OrderedMap.emplace key x ms)) t' b'' v r) := by
  cases h with
  | lastMember hs hk' h _ hu hw =>
      obtain ⟨-, rfl⟩ := hk.append_inj hk' ht h.start.1 hs
      exact ⟨_, _, _, h, .inl ⟨rfl, _, hw, hu⟩⟩
  | nextMember hs hk' h _ hu hw hw' h' =>
      obtain ⟨rfl, rfl⟩ := hk.append_inj hk' ht h.start.1 hs
      exact ⟨_, _, _, h, .inr ⟨_, _, _, _, hw, hw', hu, rfl, h'⟩⟩

/-- A text of the grammar is read with commas alone, up to its end. -/
theorem Derives.reads_unique {sym : Symbol} {t : Bytes} (h : Derives sym t) {n : Reading}
    (hrd : n.symbol = sym) {r r' : Bytes} {b : Bool} {v : Value}
    (hr : Follow (sym.closing ++ r)) (h' : Reads n (t ++ (sym.closing ++ r)) b v r') :
    b = false ∧ r' = r := by
  induction h generalizing n r r' b v with
  | scalar h =>
      obtain rfl : n = .value := by cases n <;> simp [Reading.symbol] at hrd ⊢
      have h5b := h.front_ne r (d := 0x5b) (by decide) (by decide)
      have h7b := h.front_ne r (d := 0x7b) (by decide) (by decide)
      cases h' with
      | scalar h' => exact ⟨rfl, h.unique hr h'⟩
      | emptyArray hs _ => exact absurd (congrArg Stream.front hs) h5b
      | array hs _ _ => exact absurd (congrArg Stream.front hs) h5b
      | emptyObject hs _ => exact absurd (congrArg Stream.front hs) h7b
      | object hs _ _ => exact absurd (congrArg Stream.front hs) h7b
  | emptyArray hw =>
      obtain rfl : n = .value := by cases n <;> simp [Reading.symbol] at hrd ⊢
      simp only [Symbol.closing, List.nil_append, List.cons_append, List.append_assoc] at h'
      rcases h'.bracket hw (noWs_cons.mpr (by decide)) with ⟨rfl, he⟩ | ⟨hf, -⟩
      · exact ⟨rfl, (List.cons.inj he).2.symm⟩
      · exact absurd rfl hf
  | array hw ht ih =>
      obtain rfl : n = .value := by cases n <;> simp [Reading.symbol] at hrd ⊢
      simp only [Symbol.closing, List.nil_append, List.cons_append, List.append_assoc] at h'
      rcases h'.bracket hw (ht.start _).1 with ⟨-, he⟩ | ⟨-, h'⟩
      · exact absurd (congrArg Stream.front he) (ht.start _).2.1
      · exact ih rfl (follow_append ws_nil (.inr (.inl rfl)) r) h'
  | emptyObject hw =>
      obtain rfl : n = .value := by cases n <;> simp [Reading.symbol] at hrd ⊢
      simp only [Symbol.closing, List.nil_append, List.cons_append, List.append_assoc] at h'
      rcases h'.brace hw (noWs_cons.mpr (by decide)) with ⟨rfl, he⟩ | ⟨hf, -⟩
      · exact ⟨rfl, (List.cons.inj he).2.symm⟩
      · exact absurd rfl hf
  | object hw ht ih =>
      obtain rfl : n = .value := by cases n <;> simp [Reading.symbol] at hrd ⊢
      simp only [Symbol.closing, List.nil_append, List.cons_append, List.append_assoc] at h'
      rcases h'.brace hw (ht.start _).1 with ⟨-, he⟩ | ⟨-, h'⟩
      · exact absurd (congrArg Stream.front he) (ht.start _).2.2
      · exact ih rfl (follow_append ws_nil (.inr (.inr rfl)) r) h'
  | item ht hw ih =>
      obtain ⟨xs, rfl⟩ : ∃ xs, n = .items xs := by cases n <;> simp [Reading.symbol] at hrd ⊢
      simp only [Symbol.closing, List.cons_append, List.nil_append, List.append_assoc] at h'
      cases h' with
      | lastItem h ht' hw' =>
          obtain ⟨rfl, rfl⟩ := ih rfl (follow_append hw (.inr (.inl rfl)) r) h
          have he := hw.append_inj hw' (noWs_cons.mpr (by decide)) (noWs_cons.mpr (by decide)) ht'
          exact ⟨rfl, (List.cons.inj he).2.symm⟩
      | nextItem h ht' hu h' =>
          obtain ⟨rfl, rfl⟩ := ih rfl (follow_append hw (.inr (.inl rfl)) r) h
          -- a closing bracket separates nothing
          cases hu with
          | comma hw₁ hw₂ =>
              rw [List.append_assoc] at ht'
              exact absurd ht' (hw.append_cons_ne hw₁ (by decide) (by decide) (by decide))
          | other hw₁ hc h2c h5d =>
              rw [List.append_assoc] at ht'
              exact absurd ht' (hw.append_cons_ne hw₁ (by decide) hc h5d)
  | items ht hw hw' ht₂ ih ih' =>
      obtain ⟨xs, rfl⟩ : ∃ xs, n = .items xs := by cases n <;> simp [Reading.symbol] at hrd ⊢
      simp only [Symbol.closing, List.cons_append, List.nil_append, List.append_assoc] at h'
      cases h' with
      | lastItem h ht' hw₁ =>
          obtain ⟨rfl, rfl⟩ := ih rfl (follow_append hw (.inl rfl) _) h
          exact absurd ht' (hw.append_cons_ne hw₁ (by decide) (by decide) (by decide))
      | nextItem h ht' hu h' =>
          obtain ⟨rfl, rfl⟩ := ih rfl (follow_append hw (.inl rfl) _) h
          cases hu with
          | comma hw₁ hw₂ =>
              rw [List.append_assoc] at ht'
              have he := hw.append_inj hw₁ (noWs_cons.mpr (by decide))
                (noWs_cons.mpr (by decide)) ht'
              obtain rfl := hw'.append_inj hw₂ (ht₂.start _).1 h'.start.1 (List.cons.inj he).2
              obtain ⟨rfl, rfl⟩ := ih' rfl (follow_append ws_nil (.inr (.inl rfl)) r) h'
              exact ⟨rfl, rfl⟩
          | other hw₁ hc h2c h5d =>
              rw [List.append_assoc] at ht'
              exact absurd ht' (hw.append_cons_ne hw₁ (by decide) hc h2c)
  | @member k key w₁ w₂ t w hk hw₁ hw₂ ht hw ih =>
      obtain ⟨ms, rfl⟩ : ∃ ms, n = .members ms := by cases n <;> simp [Reading.symbol] at hrd ⊢
      have hs : k ++ w₁ ++ 0x3a :: (w₂ ++ t ++ w) ++ (Symbol.members.closing ++ r) =
          (k ++ w₁ ++ 0x3a :: w₂) ++ (t ++ (w ++ 0x7d :: r)) := by simp [Symbol.closing]
      rw [hs] at h'
      obtain ⟨b', x, u, h, h''⟩ := h'.members_key (.mk hk hw₁ hw₂) (ht.start _).1
      obtain ⟨rfl, rfl⟩ := ih rfl (follow_append hw (.inr (.inr rfl)) r) h
      rcases h'' with ⟨rfl, w', hw', he⟩ | ⟨w', _, _, _, hw', -, he, -, -⟩
      · have he := hw.append_inj hw' (noWs_cons.mpr (by decide)) (noWs_cons.mpr (by decide)) he
        exact ⟨rfl, (List.cons.inj he).2.symm⟩
      · exact absurd he (hw.append_cons_ne hw' (by decide) (by decide) (by decide))
  | @members k key w₁ w₂ t w w' t' hk hw₁ hw₂ ht hw hw' ht' ih ih' =>
      obtain ⟨ms, rfl⟩ : ∃ ms, n = .members ms := by cases n <;> simp [Reading.symbol] at hrd ⊢
      have hs : k ++ w₁ ++ 0x3a :: (w₂ ++ t ++ w ++ 0x2c :: (w' ++ t')) ++
          (Symbol.members.closing ++ r) =
          (k ++ w₁ ++ 0x3a :: w₂) ++ (t ++ (w ++ 0x2c :: (w' ++ (t' ++ 0x7d :: r)))) := by
        simp [Symbol.closing]
      rw [hs] at h'
      obtain ⟨b', x, u, h, h''⟩ := h'.members_key (.mk hk hw₁ hw₂) (ht.start _).1
      obtain ⟨rfl, rfl⟩ := ih rfl (follow_append hw (.inl rfl) _) h
      rcases h'' with ⟨rfl, w₃, hw₃, he⟩ | ⟨w₃, w₄, t₄, b'', hw₃, hw₄, he, rfl, h''⟩
      · exact absurd he (hw.append_cons_ne hw₃ (by decide) (by decide) (by decide))
      · have he := hw.append_inj hw₃ (noWs_cons.mpr (by decide)) (noWs_cons.mpr (by decide)) he
        obtain rfl := hw'.append_inj hw₄ (ht'.start _).1 h''.start.1 (List.cons.inj he).2
        obtain ⟨rfl, rfl⟩ := ih' rfl (follow_append ws_nil (.inr (.inr rfl)) r) h''
        exact ⟨rfl, rfl⟩

end RpcLearning.Json
