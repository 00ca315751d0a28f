import RpcLearning.Json.Reader.Strings

/-!
# One round of `parseValue` and of the container loops

What each function does in one round, as equations: the leaf or the loop that the first character
selects, and what a loop does with what follows an element or a member.  A step is a function of
what it calls, so the equations serve every instance of the reader.  Everything that is proved about
whole texts goes through these.
-/

namespace RpcLearning.Json.Reader

/-! ## Whitespace before a closing character -/

/-- After the whitespace there is a given character or something else. -/
theorem ws_cases {c : UInt8} (hc : c ≠ 0) (is : Stream) :
    (∃ w r, Ws w ∧ is = w ++ c :: r) ∨
      ∃ w t, Ws w ∧ is = w ++ t ∧ NoWs t ∧ t.front ≠ c := by
  obtain ⟨w, hw, he, hn⟩ := exists_parseWhitespace is
  by_cases hf : (parseWhitespace is).front = c
  · obtain ⟨r, hr⟩ := Stream.eq_cons_of_front hf hc
    exact .inl ⟨w, r, hw, hr ▸ he⟩
  · exact .inr ⟨w, _, hw, he, hn, hf⟩

theorem parseWhitespace_append_cons {w : Bytes} {c : UInt8} (hw : Ws w)
    (hc : isWhitespace c = false) (r : Stream) : parseWhitespace (w ++ c :: r) = c :: r := by
  rw [parseWhitespace_append hw]
  exact parseWhitespace_of_noWs (noWs_cons.mpr hc)

theorem parseWhitespace_append_noWs {w : Bytes} {t : Stream} (hw : Ws w) (ht : NoWs t) :
    parseWhitespace (w ++ t) = t := by
  rw [parseWhitespace_append hw]
  exact parseWhitespace_of_noWs ht

theorem isWhitespace_eq_false_5d : isWhitespace 0x5d = false := rfl

theorem isWhitespace_eq_false_2c : isWhitespace 0x2c = false := rfl

theorem isWhitespace_eq_false_7d : isWhitespace 0x7d = false := rfl

theorem isWhitespace_eq_false_3a : isWhitespace 0x3a = false := rfl

/-- What can come after an item: the closing bracket, a separator, or the end of the text. -/
theorem item_cases (t : Stream) :
    (∃ w r, Ws w ∧ t = w ++ 0x5d :: r) ∨
      (∃ u b t', Separator u b ∧ t = u ++ t' ∧ (b = true ∨ NoWs t')) ∨ Ws t := by
  rcases ws_cases (c := 0x5d) (by decide) t with h | ⟨w, t₁, hw, rfl, hn, hf⟩
  · exact .inl h
  · cases t₁ with
    | nil =>
        rw [List.append_nil]
        exact .inr (.inr hw)
    | cons c t₁ =>
        by_cases hc : c = 0x2c
        · subst hc
          obtain ⟨w', hw', he, hn'⟩ := exists_parseWhitespace t₁
          refine .inr (.inl ⟨w ++ 0x2c :: w', false, _, .comma hw hw', ?_, .inr hn'⟩)
          rw [List.append_assoc, List.cons_append, ← he]
        · exact .inr (.inl ⟨w ++ [c], true, t₁, .other hw (noWs_cons.mp hn) hc hf, by simp,
            .inl rfl⟩)

/-- What can come after a member. -/
theorem member_cases (t : Stream) :
    (∃ w r, Ws w ∧ t = w ++ 0x7d :: r) ∨
      (∃ w w' t', Ws w ∧ Ws w' ∧ t = w ++ 0x2c :: (w' ++ t') ∧ NoWs t') ∨
      (parseWhitespace t).front ≠ 0x2c ∧ (parseWhitespace t).front ≠ 0x7d := by
  rcases ws_cases (c := 0x7d) (by decide) t with h | ⟨w, t₁, hw, rfl, hn, hf⟩
  · exact .inl h
  · by_cases hc : t₁.front = 0x2c
    · obtain ⟨t₂, rfl⟩ := Stream.eq_cons_of_front hc (by decide)
      obtain ⟨w', hw', he, hn'⟩ := exists_parseWhitespace t₂
      exact .inr (.inl ⟨w, w', _, hw, hw', he ▸ rfl, hn'⟩)
    · rw [parseWhitespace_append_noWs hw hn]
      exact .inr (.inr ⟨hc, hf⟩)

/-- The opening of a value: a leaf, an empty container, or the inside of one. -/
theorem value_cases (is : Stream) :
    (is.front ≠ 0x5b ∧ is.front ≠ 0x7b) ∨
      (∃ w r, Ws w ∧ is = 0x5b :: (w ++ 0x5d :: r)) ∨
      (∃ w t, Ws w ∧ is = 0x5b :: (w ++ t) ∧ NoWs t ∧ t.front ≠ 0x5d) ∨
      (∃ w r, Ws w ∧ is = 0x7b :: (w ++ 0x7d :: r)) ∨
      ∃ w t, Ws w ∧ is = 0x7b :: (w ++ t) ∧ NoWs t ∧ t.front ≠ 0x7d := by
  by_cases h5b : is.front = 0x5b
  · obtain ⟨u, rfl⟩ := Stream.eq_cons_of_front h5b (by decide)
    rcases ws_cases (c := 0x5d) (by decide) u with ⟨w, r, hw, rfl⟩ | ⟨w, t, hw, rfl, hn, hf⟩
    · exact .inr (.inl ⟨w, r, hw, rfl⟩)
    · exact .inr (.inr (.inl ⟨w, t, hw, rfl, hn, hf⟩))
  by_cases h7b : is.front = 0x7b
  · obtain ⟨u, rfl⟩ := Stream.eq_cons_of_front h7b (by decide)
    rcases ws_cases (c := 0x7d) (by decide) u with ⟨w, r, hw, rfl⟩ | ⟨w, t, hw, rfl, hn, hf⟩
    · exact .inr (.inr (.inr (.inl ⟨w, r, hw, rfl⟩)))
    · exact .inr (.inr (.inr (.inr ⟨w, t, hw, rfl, hn, hf⟩)))
  · exact .inl ⟨h5b, h7b⟩

/-! ## Steps -/

section Steps

/-- A step of `parseValue`, given how it reads numbers and the insides of containers. -/
def valueStep (number : Stream → Parse (Value × Stream))
    (arrayLoop objectLoop : Value → Stream → Parse (Value × Stream)) (is : Stream) :
    Parse (Value × Stream) :=
  match is.front with
  | 0x6e => parseLiteral is (lit "null") .TYPE_NULL
  | 0x74 => parseLiteral is (lit "true") .TYPE_BOOL
  | 0x66 => parseLiteral is (lit "false") .TYPE_BOOL
  | 0x22 => parseString is
  | 0x5b => parseArray arrayLoop is
  | 0x7b => parseObject objectLoop is
  | _ => number is

/-- A step of the loop of `parseArray`, given how it reads elements and goes on. -/
def arrayStep (read : Stream → Parse (Value × Stream))
    (loop : Value → Stream → Parse (Value × Stream)) (value : Value) (is : Stream) :
    Parse (Value × Stream) := do
  let (temp, is) ← within value (read is)
  let value ← Exec.ofRun (value.addValue temp)
  match (parseWhitespace is).next with
  | (0x2c, is) => loop value (parseWhitespace is)
  | (0x5d, is) => .ok (value, is)
  | (_, is) => loop value is

/-- A step of the loop of `parseObject`. -/
def objectStep (read : Stream → Parse (Value × Stream))
    (loop : Value → Stream → Parse (Value × Stream)) (object : Value) (is : Stream) :
    Parse (Value × Stream) :=
  if is.front ≠ 0x22 then .throw (.PARSE_MISS_KEY, object)
  else do
    let (key, is) ← within object (parseString is)
    match (parseWhitespace is).next with
    | (0x3a, is) =>
      let (value, is) ← within object (read (parseWhitespace is))
      let object ← Exec.ofRun (object.addMember key value)
      let is := parseWhitespace is
      if is.front = 0x2c then do
        let is ← is.pop
        loop object (parseWhitespace is)
      else if is.front = 0x7d then do
        let is ← is.pop
        .ok (object, is)
      else .throw (.PARSE_MISS_COMMA_OR_CURLY_BRACKET, object)
    | _ => .throw (.PARSE_MISS_COLON, object)

variable {number read : Stream → Parse (Value × Stream)}
  {arrayLoop objectLoop loop : Value → Stream → Parse (Value × Stream)}

theorem valueStep_number {is : Stream} (h6e : is.front ≠ 0x6e) (h74 : is.front ≠ 0x74)
    (h66 : is.front ≠ 0x66) (h22 : is.front ≠ 0x22) (h5b : is.front ≠ 0x5b)
    (h7b : is.front ≠ 0x7b) : valueStep number arrayLoop objectLoop is = number is := by
  rw [valueStep]
  split <;> first | rfl | exact absurd ‹_› ‹_›

theorem valueStep_emptyArray {w : Bytes} (hw : Ws w) (r : Stream) :
    valueStep number arrayLoop objectLoop (0x5b :: (w ++ 0x5d :: r)) = .ok (.array [], r) := by
  simp [valueStep, parseArray, parseWhitespace_append_cons hw isWhitespace_eq_false_5d]

theorem valueStep_array {w : Bytes} {t : Stream} (hw : Ws w) (ht : NoWs t)
    (hf : t.front ≠ 0x5d) :
    valueStep number arrayLoop objectLoop (0x5b :: (w ++ t)) = arrayLoop (.array []) t := by
  simp [valueStep, parseArray, parseWhitespace_append_noWs hw ht, hf]

theorem valueStep_emptyObject {w : Bytes} (hw : Ws w) (r : Stream) :
    valueStep number arrayLoop objectLoop (0x7b :: (w ++ 0x7d :: r)) = .ok (.object [], r) := by
  simp [valueStep, parseObject, parseWhitespace_append_cons hw isWhitespace_eq_false_7d]

theorem valueStep_object {w : Bytes} {t : Stream} (hw : Ws w) (ht : NoWs t)
    (hf : t.front ≠ 0x7d) :
    valueStep number arrayLoop objectLoop (0x7b :: (w ++ t)) = objectLoop (.object []) t := by
  simp [valueStep, parseObject, parseWhitespace_append_noWs hw ht, hf]

section Array

variable {xs : List Value} {is : Stream} {x : Value}

theorem arrayStep_close {w r : Bytes} (h : read is = .ok (x, w ++ 0x5d :: r)) (hw : Ws w) :
    arrayStep read loop (.array xs) is = .ok (.array (xs ++ [x]), r) := by
  simp [arrayStep, h, Exec.ofRun, within, parseWhitespace_append_cons hw isWhitespace_eq_false_5d]

theorem arrayStep_next {u t : Stream} {b : Bool} (h : read is = .ok (x, u ++ t))
    (hu : Separator u b) (ht : b = true ∨ NoWs t) :
    arrayStep read loop (.array xs) is = loop (.array (xs ++ [x])) t := by
  cases hu with
  | @comma w w' hw hw' =>
      rw [List.append_assoc, List.cons_append] at h
      have hn : NoWs t := ht.resolve_left (by simp)
      simp [arrayStep, h, within, Exec.ofRun,
        parseWhitespace_append_cons hw isWhitespace_eq_false_2c,
        parseWhitespace_append_noWs hw' hn]
  | @other w c hw hc h2c h5d =>
      rw [List.append_assoc, List.singleton_append] at h
      simp [arrayStep, h, within, Exec.ofRun, parseWhitespace_append_cons hw hc]

/-- At the end of the text the loop goes on as after any other separator. -/
theorem arrayStep_end {t : Stream} (h : read is = .ok (x, t)) (ht : Ws t) :
    arrayStep read loop (.array xs) is = loop (.array (xs ++ [x])) [] := by
  have hw : parseWhitespace t = [] := by
    have := parseWhitespace_append_noWs ht noWs_nil
    rwa [List.append_nil] at this
  simp [arrayStep, h, within, Exec.ofRun, hw]

theorem arrayStep_fault {value : Value} {f : Fault} (h : read is = .error (.fault f)) :
    arrayStep read loop value is = .error (.fault f) := by
  simp [arrayStep, h, within]

theorem arrayStep_thrown {value : Value} {e : ParseError × Value}
    (h : read is = .error (.thrown e)) :
    arrayStep read loop value is = .error (.thrown (e.1, value)) := by
  simp [arrayStep, h, within]

end Array

/-- A round on a key and its colon goes on with the member's value. -/
theorem objectStep_key {k key t : Bytes} (hk : KeyText k key) (ht : NoWs t) (object : Value) :
    objectStep read loop object (k ++ t) = (do
      let (value, is) ← within object (read t)
      let object ← Exec.ofRun (object.addMember (.string key) value)
      let is := parseWhitespace is
      if is.front = 0x2c then do
        let is ← is.pop
        loop object (parseWhitespace is)
      else if is.front = 0x7d then do
        let is ← is.pop
        .ok (object, is)
      else .throw (.PARSE_MISS_COMMA_OR_CURLY_BRACKET, object)) := by
  obtain @⟨s, _, w₁, w₂, hs, hw₁, hw₂⟩ := hk
  obtain ⟨u, rfl⟩ := hs.exists_cons
  have hp : parseString (0x22 :: (u ++ (w₁ ++ 0x3a :: (w₂ ++ t)))) =
      .ok (.string key, w₁ ++ 0x3a :: (w₂ ++ t)) :=
    parseString_eq_ok.mpr (.inl ⟨0x22 :: u, key, hs, rfl, rfl⟩)
  simp [objectStep, hp, within, parseWhitespace_append_cons hw₁ isWhitespace_eq_false_3a,
    parseWhitespace_append_noWs hw₂ ht]

theorem objectStep_noColon (object : Value) {t r : Stream} {key : Value}
    (hp : parseString (0x22 :: t) = .ok (key, r)) (hr : (parseWhitespace r).next.1 ≠ 0x3a) :
    objectStep read loop object (0x22 :: t) = .error (.thrown (.PARSE_MISS_COLON, object)) := by
  rw [objectStep, if_neg (by simp), hp]
  simp only [within, Exec.mapThrown_ok, Exec.ok_bind]
  split
  · rename_i he
    rw [he] at hr
    exact absurd rfl hr
  · rfl

section Member

variable {ms : List (Bytes × Value)} {k key t u : Bytes} {x : Value}

theorem objectStep_repeat (hk : KeyText k key) (ht : NoWs t) (h : read t = .ok (x, u))
    (hkey : key ∈ OrderedMap.keys ms) :
    objectStep read loop (.object ms) (k ++ t) = .error (.fault .assertion) := by
  simp [objectStep_key hk ht, h, within, Value.addMember_of_mem hkey, Exec.ofRun]

theorem objectStep_close {w r : Bytes} (hk : KeyText k key) (ht : NoWs t)
    (h : read t = .ok (x, w ++ 0x7d :: r)) (hkey : key ∉ OrderedMap.keys ms) (hw : Ws w) :
    objectStep read loop (.object ms) (k ++ t) =
      .ok (.object (OrderedMap.emplace key x ms), r) := by
  simp [objectStep_key hk ht, h, within, Value.addMember_of_notMem hkey, Exec.ofRun,
    parseWhitespace_append_cons hw isWhitespace_eq_false_7d]

theorem objectStep_next {w w' t' : Bytes} (hk : KeyText k key) (ht : NoWs t)
    (h : read t = .ok (x, w ++ 0x2c :: (w' ++ t'))) (hkey : key ∉ OrderedMap.keys ms)
    (hw : Ws w) (hw' : Ws w') (ht' : NoWs t') :
    objectStep read loop (.object ms) (k ++ t) =
      loop (.object (OrderedMap.emplace key x ms)) t' := by
  simp [objectStep_key hk ht, h, within, Value.addMember_of_notMem hkey, Exec.ofRun,
    parseWhitespace_append_cons hw isWhitespace_eq_false_2c, parseWhitespace_append_noWs hw' ht']

theorem objectStep_noComma (hk : KeyText k key) (ht : NoWs t) (h : read t = .ok (x, u))
    (hkey : key ∉ OrderedMap.keys ms) (h2c : (parseWhitespace u).front ≠ 0x2c)
    (h7d : (parseWhitespace u).front ≠ 0x7d) :
    objectStep read loop (.object ms) (k ++ t) = .error (.thrown
      (.PARSE_MISS_COMMA_OR_CURLY_BRACKET, .object (OrderedMap.emplace key x ms))) := by
  simp [objectStep_key hk ht, h, within, Value.addMember_of_notMem hkey, Exec.ofRun, h2c,
    h7d, Exec.throw]

theorem objectStep_fault {f : Fault} (hk : KeyText k key) (ht : NoWs t)
    (h : read t = .error (.fault f)) :
    objectStep read loop (.object ms) (k ++ t) = .error (.fault f) := by
  simp [objectStep_key hk ht, h, within]

theorem objectStep_thrown {e : ParseError × Value} (hk : KeyText k key) (ht : NoWs t)
    (h : read t = .error (.thrown e)) :
    objectStep read loop (.object ms) (k ++ t) = .error (.thrown (e.1, .object ms)) := by
  simp [objectStep_key hk ht, h, within]

end Member

end Steps

/-- A round finds a key and its colon, or leaves with an error code. -/
theorem objectStep_cases (object : Value) (is : Stream) :
    (∃ k key t, KeyText k key ∧ is = k ++ t ∧ NoWs t) ∨
      ∃ e, ∀ read loop, objectStep read loop object is = .error (.thrown e) := by
  by_cases h22 : is.front = 0x22
  · obtain ⟨t, rfl⟩ := Stream.eq_cons_of_front h22 (by decide)
    cases hp : parseString (0x22 :: t) with
    | error e =>
        cases e with
        | fault f => exact absurd hp (parseString_ne_fault f)
        | thrown e =>
            exact .inr ⟨(e.1, object), fun _ _ ↦ by simp [objectStep, hp, within]⟩
    | ok p =>
        obtain ⟨v, r⟩ := p
        rcases parseString_eq_ok.mp hp with ⟨s, key, hs, he, rfl⟩ | ⟨-, rfl, rfl⟩
        · rcases ws_cases (c := 0x3a) (by decide) r with ⟨w, r', hw, rfl⟩ | ⟨w, r', hw, rfl, hn, hf⟩
          · obtain ⟨w', hw', he', hn⟩ := exists_parseWhitespace r'
            refine .inl ⟨s ++ w ++ 0x3a :: w', key, _, .mk hs hw hw', ?_, hn⟩
            rw [List.append_assoc, List.cons_append, ← he', List.append_assoc]
            exact he
          · refine .inr ⟨_, fun _ _ ↦ objectStep_noColon object hp ?_⟩
            rw [parseWhitespace_append_noWs hw hn]
            cases r' with
            | nil => decide
            | cons c r' => exact hf
        · exact .inr ⟨_, fun _ _ ↦ objectStep_noColon object hp (by decide)⟩
  · exact .inr ⟨(.PARSE_MISS_KEY, object), fun _ _ ↦ by simp [objectStep, h22, Exec.throw]⟩

/-! ## The leaves -/

/-- The characters of the literals are not `'\0'`. -/
theorem ne_zero_of_mem_null : ∀ l ∈ (lit "null").tail, l ≠ 0 := by simp [lit]; decide

theorem ne_zero_of_mem_true : ∀ l ∈ (lit "true").tail, l ≠ 0 := by simp [lit]; decide

theorem ne_zero_of_mem_false : ∀ l ∈ (lit "false").tail, l ≠ 0 := by simp [lit]; decide

variable [DoubleText]

theorem parseValue_succ (fuel : Nat) : parseValue (fuel + 1) =
    valueStep parseNumber (parseArrayLoop fuel) (parseObjectLoop fuel) :=
  rfl

theorem parseValue_null (fuel : Nat) (t : Stream) :
    parseValue (fuel + 1) (0x6e :: t) = parseLiteral (0x6e :: t) (lit "null") .TYPE_NULL := by
  simp [parseValue]

theorem parseValue_true (fuel : Nat) (t : Stream) :
    parseValue (fuel + 1) (0x74 :: t) = parseLiteral (0x74 :: t) (lit "true") .TYPE_BOOL := by
  simp [parseValue]

theorem parseValue_false (fuel : Nat) (t : Stream) :
    parseValue (fuel + 1) (0x66 :: t) = parseLiteral (0x66 :: t) (lit "false") .TYPE_BOOL := by
  simp [parseValue]

theorem parseValue_quote (fuel : Nat) (t : Stream) :
    parseValue (fuel + 1) (0x22 :: t) = parseString (0x22 :: t) := by
  simp [parseValue]

theorem parseValue_number (fuel : Nat) {is : Stream} (h6e : is.front ≠ 0x6e)
    (h74 : is.front ≠ 0x74) (h66 : is.front ≠ 0x66) (h22 : is.front ≠ 0x22)
    (h5b : is.front ≠ 0x5b) (h7b : is.front ≠ 0x7b) :
    parseValue (fuel + 1) is = parseNumber is :=
  valueStep_number h6e h74 h66 h22 h5b h7b

theorem parseValue_numeral (fuel : Nat) {c : UInt8} {t : Stream}
    (hc : c = 0x2d ∨ Numeral.isDigit c) :
    parseValue (fuel + 1) (c :: t) = parseNumber (c :: t) := by
  have hne : ∀ d : UInt8, d ≠ 0x2d → ¬ Numeral.isDigit d → Stream.front (c :: t) ≠ d := by
    rintro d h2d hd rfl
    exact hc.elim h2d hd
  exact parseValue_number fuel (hne 0x6e (by decide) (by decide)) (hne 0x74 (by decide) (by decide))
    (hne 0x66 (by decide) (by decide)) (hne 0x22 (by decide) (by decide))
    (hne 0x5b (by decide) (by decide)) (hne 0x7b (by decide) (by decide))

/-- A first character other than an opening bracket selects a leaf. -/
theorem parseValue_leaf_eq_ok {fuel : Nat} {is r : Stream} {v : Value}
    (h5b : is.front ≠ 0x5b) (h7b : is.front ≠ 0x7b) :
    parseValue (fuel + 1) is = .ok (v, r) ↔
      ReadsScalar is v r ∨ Unterminated is ∧ v = .null ∧ r = [] := by
  constructor
  · intro h
    by_cases h6e : is.front = 0x6e
    · obtain ⟨t, rfl⟩ := Stream.eq_cons_of_front h6e (by decide)
      rw [parseValue_null] at h
      obtain ⟨rfl, rfl⟩ := (parseLiteral_eq_ok ne_zero_of_mem_null).mp h
      exact .inl .null
    by_cases h74 : is.front = 0x74
    · obtain ⟨t, rfl⟩ := Stream.eq_cons_of_front h74 (by decide)
      rw [parseValue_true] at h
      obtain ⟨rfl, rfl⟩ := (parseLiteral_eq_ok ne_zero_of_mem_true).mp h
      exact .inl .true
    by_cases h66 : is.front = 0x66
    · obtain ⟨t, rfl⟩ := Stream.eq_cons_of_front h66 (by decide)
      rw [parseValue_false] at h
      obtain ⟨rfl, rfl⟩ := (parseLiteral_eq_ok ne_zero_of_mem_false).mp h
      exact .inl .false
    by_cases h22 : is.front = 0x22
    · obtain ⟨t, rfl⟩ := Stream.eq_cons_of_front h22 (by decide)
      rw [parseValue_quote, parseString_eq_ok] at h
      rcases h with ⟨s, b, hs, he, rfl⟩ | h
      · exact .inl (he ▸ .string hs)
      · exact .inr h
    · rw [parseValue_number fuel h6e h74 h66 h22 h5b h7b, parseNumber_eq_ok] at h
      exact .inl (.number h)
  · rintro (h | ⟨hu, rfl, rfl⟩)
    · cases h with
      | null =>
          refine (parseValue_null fuel _).trans ?_
          exact (parseLiteral_eq_ok ne_zero_of_mem_null).mpr ⟨rfl, rfl⟩
      | true =>
          refine (parseValue_true fuel _).trans ?_
          exact (parseLiteral_eq_ok ne_zero_of_mem_true).mpr ⟨rfl, rfl⟩
      | false =>
          refine (parseValue_false fuel _).trans ?_
          exact (parseLiteral_eq_ok ne_zero_of_mem_false).mpr ⟨rfl, rfl⟩
      | @string t b _ hs =>
          obtain ⟨u, ht⟩ := hs.exists_cons
          rw [ht, List.cons_append, parseValue_quote, parseString_eq_ok]
          exact .inl ⟨t, b, hs, by rw [ht]; rfl, rfl⟩
      | number hn =>
          obtain ⟨c, t, rfl, hc⟩ := ReadsNumber.exists_cons hn
          rw [parseValue_numeral fuel hc]
          exact parseNumber_eq_ok.mpr hn
    · obtain ⟨t, rfl⟩ : ∃ t, is = 0x22 :: t := by
        cases hu
        exact ⟨_, rfl⟩
      rw [parseValue_quote, parseString_eq_ok]
      exact .inr ⟨hu, rfl, rfl⟩

theorem parseValue_leaf_ne_fault {fuel : Nat} {is : Stream} (h5b : is.front ≠ 0x5b)
    (h7b : is.front ≠ 0x7b) (f : Fault) : parseValue (fuel + 1) is ≠ .error (.fault f) := by
  by_cases h6e : is.front = 0x6e
  · obtain ⟨t, rfl⟩ := Stream.eq_cons_of_front h6e (by decide)
    rw [parseValue_null]
    exact parseLiteral_ne_fault ne_zero_of_mem_null f
  by_cases h74 : is.front = 0x74
  · obtain ⟨t, rfl⟩ := Stream.eq_cons_of_front h74 (by decide)
    rw [parseValue_true]
    exact parseLiteral_ne_fault ne_zero_of_mem_true f
  by_cases h66 : is.front = 0x66
  · obtain ⟨t, rfl⟩ := Stream.eq_cons_of_front h66 (by decide)
    rw [parseValue_false]
    exact parseLiteral_ne_fault ne_zero_of_mem_false f
  by_cases h22 : is.front = 0x22
  · obtain ⟨t, rfl⟩ := Stream.eq_cons_of_front h22 (by decide)
    rw [parseValue_quote]
    exact parseString_ne_fault f
  · rw [parseValue_number fuel h6e h74 h66 h22 h5b h7b]
    exact parseNumber_ne_fault is f

/-! ## Arrays -/

theorem parseValue_emptyArray {w : Bytes} (hw : Ws w) (fuel : Nat) (r : Stream) :
    parseValue (fuel + 1) (0x5b :: (w ++ 0x5d :: r)) = .ok (.array [], r) := by
  rw [parseValue_succ]
  exact valueStep_emptyArray hw r

theorem parseValue_array {w : Bytes} {t : Stream} (hw : Ws w) (ht : NoWs t)
    (hf : t.front ≠ 0x5d) (fuel : Nat) :
    parseValue (fuel + 1) (0x5b :: (w ++ t)) = parseArrayLoop fuel (.array []) t := by
  rw [parseValue_succ]
  exact valueStep_array hw ht hf

section Item

variable {fuel : Nat} {xs : List Value} {is : Stream} {x : Value}

theorem parseArrayLoop_close {w r : Bytes} (h : parseValue fuel is = .ok (x, w ++ 0x5d :: r))
    (hw : Ws w) : parseArrayLoop (fuel + 1) (.array xs) is = .ok (.array (xs ++ [x]), r) :=
  arrayStep_close h hw

theorem parseArrayLoop_next {u t : Stream} {b : Bool} (h : parseValue fuel is = .ok (x, u ++ t))
    (hu : Separator u b) (ht : b = true ∨ NoWs t) :
    parseArrayLoop (fuel + 1) (.array xs) is = parseArrayLoop fuel (.array (xs ++ [x])) t :=
  arrayStep_next h hu ht

theorem parseArrayLoop_end {t : Stream} (h : parseValue fuel is = .ok (x, t)) (ht : Ws t) :
    parseArrayLoop (fuel + 1) (.array xs) is = parseArrayLoop fuel (.array (xs ++ [x])) [] :=
  arrayStep_end h ht

theorem parseArrayLoop_fault {value : Value} {f : Fault}
    (h : parseValue fuel is = .error (.fault f)) :
    parseArrayLoop (fuel + 1) value is = .error (.fault f) :=
  arrayStep_fault h

theorem parseArrayLoop_thrown {value : Value} {e : ParseError × Value}
    (h : parseValue fuel is = .error (.thrown e)) :
    parseArrayLoop (fuel + 1) value is = .error (.thrown (e.1, value)) :=
  arrayStep_thrown h

end Item

/-! ## Objects -/

theorem parseValue_emptyObject {w : Bytes} (hw : Ws w) (fuel : Nat) (r : Stream) :
    parseValue (fuel + 1) (0x7b :: (w ++ 0x7d :: r)) = .ok (.object [], r) := by
  rw [parseValue_succ]
  exact valueStep_emptyObject hw r

theorem parseValue_object {w : Bytes} {t : Stream} (hw : Ws w) (ht : NoWs t)
    (hf : t.front ≠ 0x7d) (fuel : Nat) :
    parseValue (fuel + 1) (0x7b :: (w ++ t)) = parseObjectLoop fuel (.object []) t := by
  rw [parseValue_succ]
  exact valueStep_object hw ht hf

theorem key_cases (fuel : Nat) (object : Value) (is : Stream) :
    (∃ k key t, KeyText k key ∧ is = k ++ t ∧ NoWs t) ∨
      ∃ e, parseObjectLoop (fuel + 1) object is = .error (.thrown e) := by
  rcases objectStep_cases object is with h | ⟨e, he⟩
  · exact .inl h
  · exact .inr ⟨e, he (parseValue fuel) (parseObjectLoop fuel)⟩

section Member

variable {fuel : Nat} {ms : List (Bytes × Value)} {k key t u : Bytes} {x : Value}

theorem parseObjectLoop_repeat (hk : KeyText k key) (ht : NoWs t)
    (h : parseValue fuel t = .ok (x, u)) (hkey : key ∈ OrderedMap.keys ms) :
    parseObjectLoop (fuel + 1) (.object ms) (k ++ t) = .error (.fault .assertion) :=
  objectStep_repeat hk ht h hkey

theorem parseObjectLoop_close {w r : Bytes} (hk : KeyText k key) (ht : NoWs t)
    (h : parseValue fuel t = .ok (x, w ++ 0x7d :: r)) (hkey : key ∉ OrderedMap.keys ms)
    (hw : Ws w) :
    parseObjectLoop (fuel + 1) (.object ms) (k ++ t) =
      .ok (.object (OrderedMap.emplace key x ms), r) :=
  objectStep_close hk ht h hkey hw

theorem parseObjectLoop_next {w w' t' : Bytes} (hk : KeyText k key) (ht : NoWs t)
    (h : parseValue fuel t = .ok (x, w ++ 0x2c :: (w' ++ t'))) (hkey : key ∉ OrderedMap.keys ms)
    (hw : Ws w) (hw' : Ws w') (ht' : NoWs t') :
    parseObjectLoop (fuel + 1) (.object ms) (k ++ t) =
      parseObjectLoop fuel (.object (OrderedMap.emplace key x ms)) t' :=
  objectStep_next hk ht h hkey hw hw' ht'

theorem parseObjectLoop_noComma (hk : KeyText k key) (ht : NoWs t)
    (h : parseValue fuel t = .ok (x, u)) (hkey : key ∉ OrderedMap.keys ms)
    (h2c : (parseWhitespace u).front ≠ 0x2c) (h7d : (parseWhitespace u).front ≠ 0x7d) :
    ∃ e, parseObjectLoop (fuel + 1) (.object ms) (k ++ t) = .error (.thrown e) :=
  ⟨_, objectStep_noComma hk ht h hkey h2c h7d⟩

theorem parseObjectLoop_fault {f : Fault} (hk : KeyText k key) (ht : NoWs t)
    (h : parseValue fuel t = .error (.fault f)) :
    parseObjectLoop (fuel + 1) (.object ms) (k ++ t) = .error (.fault f) :=
  objectStep_fault hk ht h

theorem parseObjectLoop_thrown {e : ParseError × Value} (hk : KeyText k key) (ht : NoWs t)
    (h : parseValue fuel t = .error (.thrown e)) :
    parseObjectLoop (fuel + 1) (.object ms) (k ++ t) = .error (.thrown (e.1, .object ms)) :=
  objectStep_thrown hk ht h

end Member

/-! ## What a round that returns has done -/

/-- There is no value at the end of the text. -/
theorem parseValue_nil (fuel : Nat) :
    parseValue (fuel + 1) [] = .error (.thrown (.PARSE_INVALID_VALUE, .null)) := by
  simp [parseValue, parseNumber, scanInteger, scanNatural, Numeral.isDigit19, invalidValue,
    Exec.throw]

theorem parseArrayLoop_nil_ne_ok (fuel : Nat) (value : Value) (p : Value × Stream) :
    parseArrayLoop fuel value [] ≠ .ok p := by
  cases fuel with
  | zero => simp [parseArrayLoop, Exec.fault]
  | succ fuel =>
      cases fuel with
      | zero => simp [parseArrayLoop, parseValue, within, Exec.fault]
      | succ fuel => simp [parseArrayLoop_thrown (parseValue_nil fuel)]

theorem parseValue_eq_ok {fuel : Nat} {is r : Stream} {v : Value}
    (h : parseValue (fuel + 1) is = .ok (v, r)) :
    ReadsScalar is v r ∨ (Unterminated is ∧ v = .null ∧ r = []) ∨
      (∃ w, Ws w ∧ is = 0x5b :: (w ++ 0x5d :: r) ∧ v = .array []) ∨
      (∃ w t, Ws w ∧ is = 0x5b :: (w ++ t) ∧ parseArrayLoop fuel (.array []) t = .ok (v, r)) ∨
      (∃ w, Ws w ∧ is = 0x7b :: (w ++ 0x7d :: r) ∧ v = .object []) ∨
      ∃ w t, Ws w ∧ is = 0x7b :: (w ++ t) ∧ parseObjectLoop fuel (.object []) t = .ok (v, r) := by
  rcases value_cases is with ⟨h5b, h7b⟩ | ⟨w, t, hw, rfl⟩ | ⟨w, t, hw, rfl, hn, hf⟩ |
    ⟨w, t, hw, rfl⟩ | ⟨w, t, hw, rfl, hn, hf⟩
  · rcases (parseValue_leaf_eq_ok h5b h7b).mp h with h | h
    · exact .inl h
    · exact .inr (.inl h)
  · cases (parseValue_emptyArray hw fuel t).symm.trans h
    exact .inr (.inr (.inl ⟨w, hw, rfl, rfl⟩))
  · have h' := (parseValue_array hw hn hf fuel).symm.trans h
    exact .inr (.inr (.inr (.inl ⟨w, t, hw, rfl, h'⟩)))
  · cases (parseValue_emptyObject hw fuel t).symm.trans h
    exact .inr (.inr (.inr (.inr (.inl ⟨w, hw, rfl, rfl⟩))))
  · have h' := (parseValue_object hw hn hf fuel).symm.trans h
    exact .inr (.inr (.inr (.inr (.inr ⟨w, t, hw, rfl, h'⟩))))

theorem parseArrayLoop_eq_ok {fuel : Nat} {xs : List Value} {is r : Stream} {v : Value}
    (h : parseArrayLoop (fuel + 1) (.array xs) is = .ok (v, r)) :
    ∃ x t, t ≠ [] ∧ parseValue fuel is = .ok (x, t) ∧
      ((∃ w, Ws w ∧ t = w ++ 0x5d :: r ∧ v = .array (xs ++ [x])) ∨
        ∃ u b t', Separator u b ∧ t = u ++ t' ∧
          parseArrayLoop fuel (.array (xs ++ [x])) t' = .ok (v, r)) := by
  cases hv : parseValue fuel is with
  | error e =>
      cases e with
      | fault f => cases (parseArrayLoop_fault hv).symm.trans h
      | thrown e => cases (parseArrayLoop_thrown hv).symm.trans h
  | ok p =>
      obtain ⟨x, t⟩ := p
      rcases item_cases t with ⟨w, r', hw, rfl⟩ | ⟨u, b, t', hu, rfl, hn⟩ | ht
      · cases (parseArrayLoop_close hv hw).symm.trans h
        exact ⟨x, _, by simp, rfl, .inl ⟨w, hw, rfl, rfl⟩⟩
      · have h' := (parseArrayLoop_next hv hu hn).symm.trans h
        refine ⟨x, _, ?_, rfl, .inr ⟨u, b, t', hu, rfl, h'⟩⟩
        obtain ⟨c, u', rfl⟩ := hu.exists_cons
        simp
      · exact absurd ((parseArrayLoop_end hv ht).symm.trans h) (parseArrayLoop_nil_ne_ok _ _ _)

theorem parseObjectLoop_eq_ok {fuel : Nat} {ms : List (Bytes × Value)} {is r : Stream}
    {v : Value} (h : parseObjectLoop (fuel + 1) (.object ms) is = .ok (v, r)) :
    ∃ k key t x u, KeyText k key ∧ is = k ++ t ∧ key ∉ OrderedMap.keys ms ∧ u ≠ [] ∧
      parseValue fuel t = .ok (x, u) ∧
      ((∃ w, Ws w ∧ u = w ++ 0x7d :: r ∧ v = .object (OrderedMap.emplace key x ms)) ∨
        ∃ w w' t', Ws w ∧ Ws w' ∧ u = w ++ 0x2c :: (w' ++ t') ∧
          parseObjectLoop fuel (.object (OrderedMap.emplace key x ms)) t' = .ok (v, r)) := by
  rcases key_cases fuel (.object ms) is with ⟨k, key, t, hk, rfl, hn⟩ | ⟨e, he⟩
  · cases hv : parseValue fuel t with
    | error e =>
        cases e with
        | fault f => cases (parseObjectLoop_fault hk hn hv).symm.trans h
        | thrown e => cases (parseObjectLoop_thrown hk hn hv).symm.trans h
    | ok p =>
        obtain ⟨x, u⟩ := p
        by_cases hkey : key ∈ OrderedMap.keys ms
        · cases (parseObjectLoop_repeat hk hn hv hkey).symm.trans h
        · rcases member_cases u with ⟨w, r', hw, rfl⟩ | ⟨w, w', t', hw, hw', rfl, hn'⟩ |
            ⟨h2c, h7d⟩
          · cases (parseObjectLoop_close hk hn hv hkey hw).symm.trans h
            exact ⟨k, key, t, x, _, hk, rfl, hkey, by simp, hv, .inl ⟨w, hw, rfl, rfl⟩⟩
          · have h' := (parseObjectLoop_next hk hn hv hkey hw hw' hn').symm.trans h
            exact ⟨k, key, t, x, _, hk, rfl, hkey, by simp, hv,
              .inr ⟨w, w', t', hw, hw', rfl, h'⟩⟩
          · obtain ⟨e, he⟩ := parseObjectLoop_noComma hk hn hv hkey h2c h7d
            cases he.symm.trans h
  · cases he.symm.trans h

/-! ## What a round that faults has done -/

theorem parseValue_eq_fault {fuel : Nat} {is : Stream} {f : Fault}
    (h : parseValue (fuel + 1) is = .error (.fault f)) :
    (∃ w t, Ws w ∧ is = 0x5b :: (w ++ t) ∧
        parseArrayLoop fuel (.array []) t = .error (.fault f)) ∨
      ∃ w t, Ws w ∧ is = 0x7b :: (w ++ t) ∧
        parseObjectLoop fuel (.object []) t = .error (.fault f) := by
  rcases value_cases is with ⟨h5b, h7b⟩ | ⟨w, t, hw, rfl⟩ | ⟨w, t, hw, rfl, hn, hf⟩ |
    ⟨w, t, hw, rfl⟩ | ⟨w, t, hw, rfl, hn, hf⟩
  · exact absurd h (parseValue_leaf_ne_fault h5b h7b f)
  · cases (parseValue_emptyArray hw fuel t).symm.trans h
  · exact .inl ⟨w, t, hw, rfl, (parseValue_array hw hn hf fuel).symm.trans h⟩
  · cases (parseValue_emptyObject hw fuel t).symm.trans h
  · exact .inr ⟨w, t, hw, rfl, (parseValue_object hw hn hf fuel).symm.trans h⟩

theorem parseArrayLoop_eq_fault {fuel : Nat} {xs : List Value} {is : Stream} {f : Fault}
    (h : parseArrayLoop (fuel + 1) (.array xs) is = .error (.fault f)) :
    parseValue fuel is = .error (.fault f) ∨
      ∃ x u t', parseValue fuel is = .ok (x, u ++ t') ∧
        ((∃ b, Separator u b) ∨ t' = []) ∧
        parseArrayLoop fuel (.array (xs ++ [x])) t' = .error (.fault f) := by
  cases hv : parseValue fuel is with
  | error e =>
      cases e with
      | fault f' =>
          cases (parseArrayLoop_fault hv).symm.trans h
          exact .inl rfl
      | thrown e => cases (parseArrayLoop_thrown hv).symm.trans h
  | ok p =>
      obtain ⟨x, t⟩ := p
      rcases item_cases t with ⟨w, r', hw, rfl⟩ | ⟨u, b, t', hu, rfl, hn⟩ | ht
      · cases (parseArrayLoop_close hv hw).symm.trans h
      · exact .inr ⟨x, u, t', rfl, .inl ⟨b, hu⟩, (parseArrayLoop_next hv hu hn).symm.trans h⟩
      · exact .inr ⟨x, t, [], by simp, .inr rfl, (parseArrayLoop_end hv ht).symm.trans h⟩

theorem parseObjectLoop_eq_fault {fuel : Nat} {ms : List (Bytes × Value)} {is : Stream}
    {f : Fault} (h : parseObjectLoop (fuel + 1) (.object ms) is = .error (.fault f)) :
    ∃ k key t, KeyText k key ∧ is = k ++ t ∧
      (parseValue fuel t = .error (.fault f) ∨
        ∃ x u, parseValue fuel t = .ok (x, u) ∧
          (key ∈ OrderedMap.keys ms ∨
            ∃ w w' t', Ws w ∧ Ws w' ∧ u = w ++ 0x2c :: (w' ++ t') ∧
              parseObjectLoop fuel (.object (OrderedMap.emplace key x ms)) t' =
                .error (.fault f))) := by
  rcases key_cases fuel (.object ms) is with ⟨k, key, t, hk, rfl, hn⟩ | ⟨e, he⟩
  · refine ⟨k, key, t, hk, rfl, ?_⟩
    cases hv : parseValue fuel t with
    | error e =>
        cases e with
        | fault f' =>
            cases (parseObjectLoop_fault hk hn hv).symm.trans h
            exact .inl rfl
        | thrown e => cases (parseObjectLoop_thrown hk hn hv).symm.trans h
    | ok p =>
        obtain ⟨x, u⟩ := p
        refine .inr ⟨x, u, rfl, ?_⟩
        by_cases hkey : key ∈ OrderedMap.keys ms
        · exact .inl hkey
        · rcases member_cases u with ⟨w, r', hw, rfl⟩ | ⟨w, w', t', hw, hw', rfl, hn'⟩ |
            ⟨h2c, h7d⟩
          · cases (parseObjectLoop_close hk hn hv hkey hw).symm.trans h
          · have h' := (parseObjectLoop_next hk hn hv hkey hw hw' hn').symm.trans h
            exact .inr ⟨w, w', t', hw, hw', rfl, h'⟩
          · obtain ⟨e, he⟩ := parseObjectLoop_noComma hk hn hv hkey h2c h7d
            cases he.symm.trans h
  · cases he.symm.trans h

end RpcLearning.Json.Reader
