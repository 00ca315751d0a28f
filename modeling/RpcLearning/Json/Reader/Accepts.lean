import RpcLearning.Json.Reader.Strict

/-!
# The texts `parse` accepts

`parse` answers `PARSE_OK` on the texts that can be read, with whitespace around them, and on
strings left open.  Of these, the ones outside the grammar are named here.
-/

namespace RpcLearning.Json

open Reader (NoWs parse)

/-- A text that is accepted although it is not in the grammar: a string left open, or a value in
which some array has a separator other than a comma. -/
inductive Sloppy [DoubleText] : Bytes → Prop
  | openString {w s : Bytes} (hw : Ws w) (h : Unterminated s) : Sloppy (w ++ s)
  | separator {w s w' : Bytes} {v : Value} (hw : Ws w) (h : Reads .value s true v w')
      (hw' : Ws w') : Sloppy (w ++ s)

theorem ScalarText.not_unterminated {t : Bytes} (h : ScalarText t) (r : Bytes) :
    ¬ Unterminated (t ++ r) := by
  have numeral : ∀ {s u : Bytes} {i : Int}, Numeral.IntText s i → ¬ Unterminated (s ++ u) := by
    intro s u i hs hu
    obtain ⟨c, ds, rfl, hc⟩ := hs.exists_cons
    obtain ⟨t, ht⟩ := hu.exists_cons
    obtain rfl : c = 0x22 := (List.cons.inj ht).1
    exact absurd hc (by decide)
  have letter : ∀ {c : UInt8} {u : Bytes}, c ≠ 0x22 → ¬ Unterminated (c :: u) := by
    intro c u hc hu
    obtain ⟨t, ht⟩ := hu.exists_cons
    exact hc (List.cons.inj ht).1
  cases h with
  | null => exact letter (by decide)
  | true => exact letter (by decide)
  | false => exact letter (by decide)
  | string ht => exact ht.not_unterminated
  | int32 hs _ =>
      rw [List.append_assoc]
      exact numeral hs
  | int64 hs _ =>
      rw [List.append_assoc]
      exact numeral hs
  | double h =>
      obtain ⟨hs, -, -, -⟩ := h
      rw [List.append_assoc, List.append_assoc]
      exact numeral hs

theorem Derives.not_unterminated {t : Bytes} (h : Derives .value t) (r : Bytes) :
    ¬ Unterminated (t ++ r) := by
  cases h with
  | scalar h => exact h.not_unterminated r
  | _ =>
      intro hu
      obtain ⟨u, hu⟩ := hu.exists_cons
      exact absurd (List.cons.inj hu).1 (by decide)

namespace Reader

theorem parseWhitespace_of_ws {w : Bytes} (hw : Ws w) : parseWhitespace w = [] := by
  have := parseWhitespace_append_noWs hw noWs_nil
  rwa [List.append_nil] at this

theorem ws_of_parseWhitespace {w : Bytes} (h : parseWhitespace w = []) : Ws w := by
  obtain ⟨w', hw', he, -⟩ := exists_parseWhitespace w
  rw [h, List.append_nil] at he
  exact he ▸ hw'

variable [DoubleText]

/-- What `parse` makes of a value and what follows it. -/
theorem parse_of_parseValue {w t r : Stream} {v : Value} (hw : Ws w) (ht : NoWs t) (hr : Ws r)
    (h : parseValue (bound t) t = .ok (v, r)) : parse (w ++ t) = .ok (.PARSE_OK, some v) := by
  simp [parse, parseWhitespace_append_noWs hw ht, h, parseWhitespace_of_ws hr, Stream.hasNext,
    Exec.catchAll]

theorem parse_of_reads {w t r : Stream} {b : Bool} {v : Value} (hw : Ws w) (hr : Ws r)
    (h : Reads .value t b v r) : parse (w ++ t) = .ok (.PARSE_OK, some v) :=
  parse_of_parseValue hw h.start.1 hr (run_of_reads h le_rfl)

theorem parse_of_unterminated {w t : Stream} (hw : Ws w) (h : Unterminated t) :
    parse (w ++ t) = .ok (.PARSE_OK, some .null) :=
  parse_of_parseValue hw h.noWs ws_nil (parseValue_of_unterminated h _)

/-- The answer `PARSE_OK` comes with a value that was read to the end of the text. -/
theorem exists_parseValue_of_parse {s : Bytes} {out : Option Value}
    (h : parse s = .ok (.PARSE_OK, out)) :
    ∃ w t v r, Ws w ∧ s = w ++ t ∧ parseValue (bound t) t = .ok (v, r) ∧ Ws r ∧ out = some v := by
  obtain ⟨w, hw, hs, -⟩ := exists_parseWhitespace s
  cases hv : parseValue (bound (parseWhitespace s)) (parseWhitespace s) with
  | error e =>
      cases e with
      | fault f => simp [parse, hv, Exec.catchAll] at h
      | thrown e =>
          have he : e.1 = .PARSE_OK := by
            simp only [parse, hv, Exec.error_bind, Exec.catchAll, Except.ok.injEq,
              Prod.mk.injEq] at h
            exact h.1
          exact absurd he ((throws_parse _).1 _ e hv)
  | ok p =>
      obtain ⟨v, r⟩ := p
      by_cases hr : parseWhitespace r = []
      · simp [parse, hv, hr, Stream.hasNext, Exec.catchAll] at h
        exact ⟨w, _, v, r, hw, hs, hv, ws_of_parseWhitespace hr, h.symm⟩
      · simp [parse, hv, hr, Stream.hasNext, Exec.catchAll] at h

theorem parse_eq_ok {s : Bytes} {out : Option Value} (h : parse s = .ok (.PARSE_OK, out)) :
    (∃ w t b v r, Ws w ∧ s = w ++ t ∧ Reads .value t b v r ∧ Ws r ∧ out = some v) ∨
      ∃ w t, Ws w ∧ s = w ++ t ∧ Unterminated t ∧ out = some .null := by
  obtain ⟨w, t, v, r, hw, rfl, hv, hr, rfl⟩ := exists_parseValue_of_parse h
  have hv' : run .value (bound t) t = .ok (v, r) := hv
  rcases reads_of_run hv' with ⟨b, hb⟩ | ⟨-, hu, rfl, -⟩
  · exact .inl ⟨w, t, b, v, r, hw, rfl, hb, hr, rfl⟩
  · exact .inr ⟨w, t, hw, rfl, hu, rfl⟩

end Reader

section

variable [DoubleText]

/-- A sloppy text is accepted. -/
theorem Sloppy.exists_parse {s : Bytes} (h : Sloppy s) :
    ∃ out, parse s = .ok (.PARSE_OK, out) := by
  cases h with
  | openString hw h => exact ⟨_, Reader.parse_of_unterminated hw h⟩
  | separator hw h hw' => exact ⟨_, Reader.parse_of_reads hw hw' h⟩

/-- No text of the grammar is sloppy. -/
theorem Document.not_sloppy {s : Bytes} (h : Document s) : ¬ Sloppy s := by
  obtain @⟨w, t, w', hw, ht, hw'⟩ := h
  rw [List.append_assoc]
  generalize hs : w ++ (t ++ w') = s
  intro h
  cases h with
  | openString hw₁ h =>
      obtain rfl := hw.append_inj hw₁ (ht.start _).1 h.noWs hs
      exact ht.not_unterminated _ h
  | separator hw₁ h hw₂ =>
      obtain rfl := hw.append_inj hw₁ (ht.start _).1 h.start.1 hs
      exact Bool.noConfusion (ht.reads_unique rfl hw'.follow h).1

/-- A text that is accepted derives from the grammar, unless it is sloppy: the reader takes more
than its grammar on exactly the sloppy texts. -/
theorem document_of_parse_iff (s : Bytes) :
    (∀ out, parse s = .ok (.PARSE_OK, out) → Document s) ↔ ¬ Sloppy s := by
  constructor
  · intro h hs
    obtain ⟨out, hp⟩ := hs.exists_parse
    exact (h out hp).not_sloppy hs
  · intro hs out hp
    rcases Reader.parse_eq_ok hp with ⟨w, t, b, v, r, hw, rfl, h, hr, -⟩ | ⟨w, t, hw, rfl, h, -⟩
    · cases b with
      | true => exact absurd (.separator hw h hr) hs
      | false =>
          obtain ⟨t', ht', rfl⟩ := h.exists_derives rfl
          have hd := Document.mk hw ht' hr
          rwa [List.append_assoc] at hd
    · exact absurd (.openString hw h) hs

end

/-- A string left open is accepted, and so is an array with another separator. -/
theorem parse_ok_not_document :
    (@parse noDoubles (lit "\"abc") = .ok (.PARSE_OK, some .null) ∧ ¬ Document (lit "\"abc")) ∧
    (@parse noDoubles (lit "[1i32x2i32]") =
        .ok (.PARSE_OK, some (.array [.int32 1, .int32 2])) ∧
      ¬ Document (lit "[1i32x2i32]")) := by
  let _ := noDoubles
  have open_ : Unterminated (lit "\"abc") :=
    .mk (.raw (by decide) (by decide) (by decide) (.raw (by decide) (by decide) (by decide)
      (.raw (by decide) (by decide) (by decide) .nil)))
  have parse_open := Reader.parse_of_unterminated ws_nil open_
  have digit : ∀ {c : UInt8}, Numeral.isDigit19 c → Numeral.IntText [c] (Numeral.decimal [c]) :=
    fun hc ↦ .nonneg (.digits hc (by simp))
  have one : Reads .value (lit "1i32x2i32]") false (.int32 1) (lit "x2i32]") := by
    have h := ReadsNumber.int32 (r := lit "x2i32]") (digit (c := 0x31) (by decide)) (by decide)
    rw [show Int32.ofInt (Numeral.decimal [0x31] : Nat) = 1 by decide] at h
    exact .scalar (.number h)
  have two : Reads .value (lit "2i32]") false (.int32 2) (lit "]") := by
    have h := ReadsNumber.int32 (r := lit "]") (digit (c := 0x32) (by decide)) (by decide)
    rw [show Int32.ofInt (Numeral.decimal [0x32] : Nat) = 2 by decide] at h
    exact .scalar (.number h)
  have sep : Separator (lit "x") true := .other ws_nil (by decide) (by decide) (by decide)
  have items : Reads (.items []) (lit "1i32x2i32]") true (.array [.int32 1, .int32 2]) [] :=
    .nextItem one rfl sep (.lastItem two rfl ws_nil)
  have array : Reads .value (lit "[1i32x2i32]") true (.array [.int32 1, .int32 2]) [] :=
    .array (w := []) rfl ws_nil items
  have parse_array := Reader.parse_of_reads ws_nil ws_nil array
  refine ⟨⟨parse_open, fun h ↦ ?_⟩, ⟨parse_array, fun h ↦ ?_⟩⟩
  · exact h.not_sloppy (.openString ws_nil open_)
  · exact h.not_sloppy (.separator ws_nil array ws_nil)

end RpcLearning.Json
