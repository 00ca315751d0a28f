import RpcLearning.Json.FileReader

/-!
# Where the two readers part

The reader on a file does what the reader on a string does, until it comes to an unsuffixed numeral
that ends the file; there it leaves the characters it was given.
-/

namespace RpcLearning.Json

open FileReadStream (Junk Ends readStream cleared bufSize)
open Reader (NoWs noWs_cons valueStep arrayStep objectStep cost)

theorem Unsuffixed.front_ne {s : Bytes} (h : Unsuffixed s) {d : UInt8} (hd : d ≠ 0x2d)
    (hd' : ¬ Numeral.isDigit d) : Stream.front s ≠ d := by
  obtain ⟨c, t, rfl, hc⟩ := h.exists_cons
  rintro rfl
  exact hc.elim hd hd'

theorem Unsuffixed.start {s : Bytes} (h : Unsuffixed s) :
    NoWs s ∧ Stream.front s ≠ 0x5d ∧ Stream.front s ≠ 0x7d := by
  refine ⟨Reader.noWs_of_front_ne ?_ ?_ ?_ ?_, ?_, ?_⟩ <;> exact h.front_ne (by decide) (by decide)

theorem KeyText.start {k key : Bytes} (hk : KeyText k key) (t : Bytes) :
    NoWs (k ++ t) ∧ Stream.front (k ++ t) ≠ 0x5d ∧ Stream.front (k ++ t) ≠ 0x7d := by
  obtain ⟨u, rfl⟩ := hk.exists_cons
  exact ⟨noWs_cons.mpr (by decide), by simp, by simp⟩

section

variable [DoubleText]

/-- Reading from here comes to an unsuffixed numeral that ends the text. -/
inductive Overruns : Spot → Bytes → Prop
  | number {s : Bytes} (h : Unsuffixed s) : Overruns .value s
  | array {s w t : Bytes} (hs : s = 0x5b :: (w ++ t)) (hw : Ws w) (h : Overruns .items t) :
      Overruns .value s
  | object {s w t : Bytes} (hs : s = 0x7b :: (w ++ t)) (hw : Ws w) (h : Overruns (.members ∅) t) :
      Overruns .value s
  | item {s : Bytes} (h : Overruns .value s) : Overruns .items s
  | laterItem {s u t : Bytes} {b b' : Bool} {x : Value} (hx : Reads .value s b x (u ++ t))
      (hu : Separator u b') (h : Overruns .items t) : Overruns .items s
  | member {seen : Set Bytes} {s k key t : Bytes} (hs : s = k ++ t) (hk : KeyText k key)
      (h : Overruns .value t) : Overruns (.members seen) s
  | laterMember {seen : Set Bytes} {s k key t w w' t' : Bytes} {b : Bool} {x : Value}
      (hs : s = k ++ t) (hk : KeyText k key) (hkey : key ∉ seen)
      (hx : Reads .value t b x (w ++ 0x2c :: (w' ++ t'))) (hw : Ws w) (hw' : Ws w')
      (h : Overruns (.members (insert key seen)) t') : Overruns (.members seen) s

/-- The text ends in an unsuffixed numeral that the reader comes to. -/
inductive ReadsPast : Bytes → Prop
  | mk {w s : Bytes} (hw : Ws w) (h : Overruns .value s) : ReadsPast (w ++ s)

theorem Overruns.start {sp : Spot} {s : Bytes} (h : Overruns sp s) :
    NoWs s ∧ Stream.front s ≠ 0x5d ∧ Stream.front s ≠ 0x7d := by
  induction h with
  | number h => exact h.start
  | array hs _ _ _ => exact hs ▸ ⟨noWs_cons.mpr (by decide), by simp, by simp⟩
  | object hs _ _ _ => exact hs ▸ ⟨noWs_cons.mpr (by decide), by simp, by simp⟩
  | item _ ih => exact ih
  | laterItem hx _ _ _ => exact hx.start
  | member hs hk _ _ => exact hs ▸ hk.start _
  | laterMember hs hk _ _ _ _ _ _ => exact hs ▸ hk.start _

/-- Such a value begins as a number or a container does. -/
theorem Overruns.front {s : Bytes} (h : Overruns .value s) :
    Stream.front s = 0x2d ∨ Numeral.isDigit (Stream.front s) ∨ Stream.front s = 0x5b ∨
      Stream.front s = 0x7b := by
  cases h with
  | number h =>
      obtain ⟨c, t, rfl, hc | hc⟩ := h.exists_cons
      · exact .inl hc
      · exact .inr (.inl hc)
  | array hs _ _ => exact .inr (.inr (.inl (by rw [hs, Stream.front_cons])))
  | object hs _ _ => exact .inr (.inr (.inr (by rw [hs, Stream.front_cons])))

theorem Overruns.ne_nil {sp : Spot} {s : Bytes} (h : Overruns sp s) : s ≠ [] := by
  induction h with
  | number h =>
      obtain ⟨c, t, rfl, -⟩ := h.exists_cons
      exact List.cons_ne_nil c t
  | array hs _ _ _ => exact hs ▸ List.cons_ne_nil _ _
  | object hs _ _ _ => exact hs ▸ List.cons_ne_nil _ _
  | item _ ih => exact ih
  | laterItem hx _ _ _ => exact List.ne_nil_of_length_pos (Nat.zero_lt_of_lt hx.length_lt)
  | member hs _ _ ih => exact fun he ↦ ih (List.append_eq_nil_iff.mp (hs.symm.trans he)).2
  | laterMember hs _ _ hx _ _ _ _ =>
      have hlt := hx.length_lt
      refine List.ne_nil_of_length_pos ?_
      rw [hs, List.length_append]
      omega

namespace FileReader

def run : Reading → Nat → Stream → Parse (Value × Stream)
  | .value, fuel, is => parseValue fuel is
  | .items xs, fuel, is => parseArrayLoop fuel (.array xs) is
  | .members ms, fuel, is => parseObjectLoop fuel (.object ms) is

omit [DoubleText] in
/-- A first character other than an opening bracket selects a leaf or a number. -/
theorem valueStep_cases {is : Stream} (h5b : is.front ≠ 0x5b) (h7b : is.front ≠ 0x7b) :
    (∀ number arrayLoop objectLoop, valueStep number arrayLoop objectLoop is = number is) ∨
      ∀ number number' arrayLoop arrayLoop' objectLoop objectLoop',
        valueStep number arrayLoop objectLoop is = valueStep number' arrayLoop' objectLoop' is := by
  by_cases h6e : is.front = 0x6e
  · exact .inr fun _ _ _ _ _ _ ↦ by simp [valueStep, h6e]
  by_cases h74 : is.front = 0x74
  · exact .inr fun _ _ _ _ _ _ ↦ by simp [valueStep, h74]
  by_cases h66 : is.front = 0x66
  · exact .inr fun _ _ _ _ _ _ ↦ by simp [valueStep, h66]
  by_cases h22 : is.front = 0x22
  · exact .inr fun _ _ _ _ _ _ ↦ by simp [valueStep, h22]
  · exact .inl fun _ _ _ ↦ Reader.valueStep_number h6e h74 h66 h22 h5b h7b

theorem parseValue_of_unsuffixed {s : Stream} (h : Unsuffixed s) (fuel : Nat) :
    parseValue (fuel + 1) s = .error (.fault .pastEnd) := by
  refine Eq.trans ?_ (parseNumber_of_unsuffixed h)
  apply Reader.valueStep_number <;> exact h.front_ne (by decide) (by decide)

theorem parseValue_succ (fuel : Nat) :
    parseValue (fuel + 1) = valueStep parseNumber (parseArrayLoop fuel) (parseObjectLoop fuel) :=
  rfl

theorem parseValue_array {w : Bytes} {t : Stream} (hw : Ws w) (ht : NoWs t)
    (hf : t.front ≠ 0x5d) (fuel : Nat) :
    parseValue (fuel + 1) (0x5b :: (w ++ t)) = parseArrayLoop fuel (.array []) t := by
  rw [parseValue_succ]
  exact Reader.valueStep_array hw ht hf

theorem parseValue_object {w : Bytes} {t : Stream} (hw : Ws w) (ht : NoWs t)
    (hf : t.front ≠ 0x7d) (fuel : Nat) :
    parseValue (fuel + 1) (0x7b :: (w ++ t)) = parseObjectLoop fuel (.object []) t := by
  rw [parseValue_succ]
  exact Reader.valueStep_object hw ht hf

theorem parseArrayLoop_next {fuel : Nat} {xs : List Value} {is u t : Stream} {b : Bool} {x : Value}
    (h : parseValue fuel is = .ok (x, u ++ t)) (hu : Separator u b) (ht : b = true ∨ NoWs t) :
    parseArrayLoop (fuel + 1) (.array xs) is = parseArrayLoop fuel (.array (xs ++ [x])) t :=
  Reader.arrayStep_next h hu ht

theorem parseObjectLoop_next {fuel : Nat} {ms : List (Bytes × Value)} {k key t w w' t' : Bytes}
    {x : Value} (hk : KeyText k key) (ht : NoWs t)
    (h : parseValue fuel t = .ok (x, w ++ 0x2c :: (w' ++ t'))) (hkey : key ∉ OrderedMap.keys ms)
    (hw : Ws w) (hw' : Ws w') (ht' : NoWs t') :
    parseObjectLoop (fuel + 1) (.object ms) (k ++ t) =
      parseObjectLoop fuel (.object (OrderedMap.emplace key x ms)) t' :=
  Reader.objectStep_next hk ht h hkey hw hw' ht'

/-- Reading a nonterminal from a file comes out as reading it from a string, or leaves the file. -/
def Parts (n : Reading) (fuel : Nat) (s : Stream) : Prop :=
  run n fuel s = Reader.run n fuel s ∨
    run n fuel s = .error (.fault .pastEnd) ∧ Overruns n.spot s

/-- A round that goes on at the same place for both readers. -/
theorem Parts.next {n n' : Reading} {fuel : Nat} {s t : Stream} (ht : Parts n' fuel t)
    (h : run n (fuel + 1) s = run n' fuel t)
    (h' : Reader.run n (fuel + 1) s = Reader.run n' fuel t)
    (ho : Overruns n'.spot t → Overruns n.spot s) : Parts n (fuel + 1) s := by
  rw [Parts, h, h']
  exact ht.imp_right fun hp ↦ ⟨hp.1, ho hp.2⟩

section Round

variable {fuel : Nat} (ih : ∀ n s, Parts n fuel s)

include ih

theorem parts_value (s : Stream) : Parts .value (fuel + 1) s := by
  rcases Reader.value_cases s with ⟨h5b, h7b⟩ | ⟨w, t, hw, rfl⟩ | ⟨w, t, hw, rfl, hn, hf⟩ |
    ⟨w, t, hw, rfl⟩ | ⟨w, t, hw, rfl, hn, hf⟩
  · rcases valueStep_cases h5b h7b with h | h
    · by_cases hu : Unsuffixed s
      · exact .inr ⟨parseValue_of_unsuffixed hu fuel, .number hu⟩
      · have hp : run .value (fuel + 1) s = parseNumber s := h _ _ _
        have hp' : Reader.run .value (fuel + 1) s = Reader.parseNumber s := h _ _ _
        exact .inl (by rw [hp, hp', parseNumber_of_not_unsuffixed hu])
    · exact .inl (h _ _ _ _ _ _)
  · have h : parseValue (fuel + 1) (0x5b :: (w ++ 0x5d :: t)) = .ok (.array [], t) := by
      rw [parseValue_succ]
      exact Reader.valueStep_emptyArray hw t
    exact .inl (h.trans (Reader.parseValue_emptyArray hw fuel t).symm)
  · exact .next (ih (.items []) t) (parseValue_array hw hn hf fuel)
      (Reader.parseValue_array hw hn hf fuel) (.array rfl hw)
  · have h : parseValue (fuel + 1) (0x7b :: (w ++ 0x7d :: t)) = .ok (.object [], t) := by
      rw [parseValue_succ]
      exact Reader.valueStep_emptyObject hw t
    exact .inl (h.trans (Reader.parseValue_emptyObject hw fuel t).symm)
  · have hspot : (Reading.members []).spot = .members ∅ := by
      simp [Reading.spot, OrderedMap.keys]
    exact .next (ih (.members []) t) (parseValue_object hw hn hf fuel)
      (Reader.parseValue_object hw hn hf fuel) fun ho ↦ .object rfl hw (hspot ▸ ho)

theorem parts_items (xs : List Value) (s : Stream) : Parts (.items xs) (fuel + 1) s := by
  rcases ih .value s with hv | ⟨hv, ho⟩
  · cases hr : Reader.parseValue fuel s with
    | error e =>
        have hv : parseValue fuel s = .error e := hv.trans hr
        cases e with
        | fault f =>
            exact .inl ((Reader.arrayStep_fault hv).trans (Reader.arrayStep_fault hr).symm)
        | thrown e =>
            exact .inl ((Reader.arrayStep_thrown hv).trans (Reader.arrayStep_thrown hr).symm)
    | ok p =>
        have hv : parseValue fuel s = .ok p := hv.trans hr
        obtain ⟨x, t⟩ := p
        rcases Reader.item_cases t with ⟨w, r, hw, rfl⟩ | ⟨u, b, t', hu, rfl, hn⟩ | ht
        · exact .inl ((Reader.arrayStep_close hv hw).trans (Reader.arrayStep_close hr hw).symm)
        · refine .next (ih (.items (xs ++ [x])) t') (parseArrayLoop_next hv hu hn)
            (Reader.parseArrayLoop_next hr hu hn) fun ho ↦ ?_
          have hr' : Reader.run .value fuel s = .ok (x, u ++ t') := hr
          rcases Reader.reads_of_run hr' with ⟨b', hx⟩ | ⟨-, -, -, hnil⟩
          · exact .laterItem hx hu ho
          · exact absurd (List.append_eq_nil_iff.mp hnil).2 ho.ne_nil
        · have h : run (.items xs) (fuel + 1) s = run (.items (xs ++ [x])) fuel [] :=
            Reader.arrayStep_end hv ht
          exact .next (ih _ []) h (Reader.parseArrayLoop_end hr ht) fun ho ↦ absurd rfl ho.ne_nil
  · exact .inr ⟨Reader.arrayStep_fault hv, .item ho⟩

theorem parts_members (ms : List (Bytes × Value)) (s : Stream) :
    Parts (.members ms) (fuel + 1) s := by
  rcases Reader.objectStep_cases (.object ms) s with ⟨k, key, t, hk, rfl, hn⟩ | ⟨e, he⟩
  · rcases ih .value t with hv | ⟨hv, ho⟩
    · cases hr : Reader.parseValue fuel t with
      | error e =>
          have hv : parseValue fuel t = .error e := hv.trans hr
          cases e with
          | fault f =>
              exact .inl ((Reader.objectStep_fault hk hn hv).trans
                (Reader.objectStep_fault hk hn hr).symm)
          | thrown e =>
              exact .inl ((Reader.objectStep_thrown hk hn hv).trans
                (Reader.objectStep_thrown hk hn hr).symm)
      | ok p =>
          have hv : parseValue fuel t = .ok p := hv.trans hr
          obtain ⟨x, u⟩ := p
          by_cases hkey : key ∈ OrderedMap.keys ms
          · exact .inl ((Reader.objectStep_repeat hk hn hv hkey).trans
              (Reader.objectStep_repeat hk hn hr hkey).symm)
          rcases Reader.member_cases u with ⟨w, r, hw, rfl⟩ | ⟨w, w', t', hw, hw', rfl, hn'⟩ |
            ⟨h2c, h7d⟩
          · exact .inl ((Reader.objectStep_close hk hn hv hkey hw).trans
              (Reader.objectStep_close hk hn hr hkey hw).symm)
          · refine .next (ih (.members (OrderedMap.emplace key x ms)) t')
              (parseObjectLoop_next hk hn hv hkey hw hw' hn')
              (Reader.parseObjectLoop_next hk hn hr hkey hw hw' hn') fun ho ↦ ?_
            have hr' : Reader.run .value fuel t = .ok (x, w ++ 0x2c :: (w' ++ t')) := hr
            rw [Reading.spot_emplace] at ho
            rcases Reader.reads_of_run hr' with ⟨b, hx⟩ | ⟨-, -, -, hnil⟩
            · exact .laterMember rfl hk hkey hx hw hw' ho
            · exact absurd hnil (by simp)
          · exact .inl ((Reader.objectStep_noComma hk hn hv hkey h2c h7d).trans
              (Reader.objectStep_noComma hk hn hr hkey h2c h7d).symm)
    · exact .inr ⟨Reader.objectStep_fault hk hn hv, .member rfl hk ho⟩
  · exact .inl ((he _ _).trans (he _ _).symm)

end Round

theorem run_parts (fuel : Nat) (n : Reading) (s : Stream) : Parts n fuel s := by
  induction fuel generalizing n s with
  | zero => cases n <;> exact .inl rfl
  | succ fuel ih =>
      cases n with
      | value => exact parts_value ih s
      | items xs => exact parts_items ih xs s
      | members ms => exact parts_members ih ms s

/-- Where the string reader returns, the file reader returns the same or leaves the file. -/
theorem parseValue_of_reads {s r : Stream} {b : Bool} {x : Value} (hx : Reads .value s b x r)
    {fuel : Nat} (hf : cost .value s ≤ fuel) :
    parseValue fuel s = .ok (x, r) ∨ parseValue fuel s = .error (.fault .pastEnd) := by
  rcases run_parts fuel .value s with h | ⟨h, -⟩
  · exact .inl (h.trans (Reader.run_of_reads hx hf))
  · exact .inr h

/-- An unsuffixed numeral at the end leads the reader out of the file. -/
theorem run_of_overruns {sp : Spot} {s : Stream} (h : Overruns sp s) {n : Reading}
    (hrd : n.spot = sp) {fuel : Nat} (hf : cost n s ≤ fuel) :
    run n fuel s = .error (.fault .pastEnd) := by
  induction h generalizing n fuel with
  | number h =>
      obtain rfl : n = .value := by cases n <;> simp [Reading.spot] at hrd ⊢
      cases fuel with
      | zero => simp [cost] at hf
      | succ fuel => exact parseValue_of_unsuffixed h fuel
  | @array s w t hs hw h ih =>
      subst hs
      obtain rfl : n = .value := by cases n <;> simp [Reading.spot] at hrd ⊢
      cases fuel with
      | zero => simp [cost] at hf
      | succ fuel =>
          refine (parseValue_array hw h.start.1 h.start.2.1 fuel).trans
            (ih (n := .items []) rfl ?_)
          simp only [cost, List.length_cons, List.length_append] at hf ⊢
          omega
  | @object s w t hs hw h ih =>
      subst hs
      obtain rfl : n = .value := by cases n <;> simp [Reading.spot] at hrd ⊢
      cases fuel with
      | zero => simp [cost] at hf
      | succ fuel =>
          refine (parseValue_object hw h.start.1 h.start.2.2 fuel).trans
            (ih (n := .members []) (by simp [Reading.spot, OrderedMap.keys]) ?_)
          simp only [cost, List.length_cons, List.length_append] at hf ⊢
          omega
  | @item s h ih =>
      obtain ⟨xs, rfl⟩ : ∃ xs, n = .items xs := by cases n <;> simp [Reading.spot] at hrd ⊢
      cases fuel with
      | zero => simp [cost] at hf
      | succ fuel =>
          exact Reader.arrayStep_fault (ih (n := .value) rfl (by simpa [cost] using hf))
  | @laterItem s u t b b' x hx hu h ih =>
      obtain ⟨xs, rfl⟩ : ∃ xs, n = .items xs := by cases n <;> simp [Reading.spot] at hrd ⊢
      have hlt := hx.length_lt
      cases fuel with
      | zero => simp [cost] at hf
      | succ fuel =>
          have hs : cost .value s ≤ fuel := by simpa [cost] using hf
          rcases parseValue_of_reads hx hs with hv | hv
          · refine (parseArrayLoop_next hv hu (.inr h.start.1)).trans (ih (n := .items _) rfl ?_)
            simp only [cost, List.length_append] at hf hlt ⊢
            omega
          · exact Reader.arrayStep_fault hv
  | @member seen s k key t hs hk h ih =>
      subst hs
      obtain ⟨ms, rfl⟩ : ∃ ms, n = .members ms := by cases n <;> simp [Reading.spot] at hrd ⊢
      cases fuel with
      | zero => simp [cost] at hf
      | succ fuel =>
          refine Reader.objectStep_fault hk h.start.1 (ih (n := .value) rfl ?_)
          simp only [cost, List.length_append] at hf ⊢
          omega
  | @laterMember seen s k key t w w' t' b x hs hk hkey hx hw hw' h ih =>
      subst hs
      obtain ⟨ms, rfl⟩ : ∃ ms, n = .members ms := by cases n <;> simp [Reading.spot] at hrd ⊢
      have hlt := hx.length_lt
      have hkey : key ∉ OrderedMap.keys ms := by
        cases hrd
        exact hkey
      cases fuel with
      | zero => simp [cost] at hf
      | succ fuel =>
          have ht : cost .value t ≤ fuel := by
            simp only [cost, List.length_append] at hf ⊢
            omega
          rcases parseValue_of_reads hx ht with hv | hv
          · refine (parseObjectLoop_next hk hx.start.1 hv hkey hw hw' h.start.1).trans
              (ih (n := .members _) ?_ ?_)
            · cases hrd
              exact Reading.spot_emplace key x ms
            · simp only [cost, List.length_append, List.length_cons] at hf hlt ⊢
              omega
          · exact Reader.objectStep_fault hk hx.start.1 hv

/-- The two readers agree on a text exactly if it does not end in an unsuffixed numeral that they
come to. -/
theorem parse_eq_iff (s : Bytes) : parse s = Reader.parse s ↔ ¬ ReadsPast s := by
  obtain ⟨w, hw, hs, hn⟩ := Reader.exists_parseWhitespace s
  constructor
  · rintro h @⟨w', t, hw', ho⟩
    have hrun : parseValue (Reader.bound t) t = .error (.fault .pastEnd) :=
      run_of_overruns ho (n := .value) rfl le_rfl
    have hp : parse (w' ++ t) = .error .pastEnd := by
      simp [parse, Reader.parseWhitespace_append_noWs hw' ho.start.1, hrun, Exec.catchAll]
    have hf := ((Reader.parse_eq_error_iff (w' ++ t) .pastEnd).mp (h ▸ hp)).1
    cases hf
  · intro hnot
    have hrun : parseValue (Reader.bound (Reader.parseWhitespace s)) (Reader.parseWhitespace s) =
        Reader.parseValue (Reader.bound (Reader.parseWhitespace s)) (Reader.parseWhitespace s) := by
      rcases run_parts (Reader.bound (Reader.parseWhitespace s)) .value
        (Reader.parseWhitespace s) with h | ⟨-, ho⟩
      · exact h
      · have hpast := ReadsPast.mk hw ho
        rw [← hs] at hpast
        exact absurd hpast hnot
    simp only [parse, Reader.parse, hrun]

/-- `Reader<FileReadStream>` on a file with the given content. -/
def parseFile (junk : FileReadStream.Junk) (content : Bytes) : Run (ParseError × Option Value) := do
  let buffer_ ← FileReadStream.readStream junk content
  parse buffer_

end FileReader

/-- A file comes to the reader as it is, and is read as the string would be, exactly if the byte
behind it in the buffer is NUL and no unsuffixed numeral ends it. -/
theorem parseFile_same_iff (junk : Junk) {content : Bytes} (h0 : 0 ∉ content) :
    readStream junk content = .ok content ∧
        FileReader.parseFile junk content = Reader.parse content ↔
      Ends junk content.length ∧ ¬ ReadsPast content := by
  rw [FileReadStream.delivers_iff junk h0]
  refine and_congr_right fun hends ↦ ?_
  have hd := (FileReadStream.delivers_iff junk h0).mpr hends
  rw [FileReader.parseFile, hd, ← FileReader.parse_eq_iff]
  rfl

end

/-- A stack that holds one byte before NULs only, behind the part that is cleared. -/
def strayByte : Junk :=
  ⟨0x21 :: List.replicate (bufSize - cleared - 1) 0, by
    rw [List.length_cons, List.length_replicate, Nat.sub_add_cancel]
    simp [bufSize, cleared]⟩

theorem parseFile_same_null :
    0 ∉ lit "null" ∧ readStream strayByte (lit "null") = .ok (lit "null") ∧
      @FileReader.parseFile noDoubles strayByte (lit "null") =
        @Reader.parse noDoubles (lit "null") := by
  let _ := noDoubles
  have h0 : 0 ∉ lit "null" := by decide
  have hends : Ends strayByte (lit "null").length := .inl (by decide)
  have hpast : ¬ ReadsPast (lit "null") := by
    generalize hs : lit "null" = s
    rintro @⟨w, t, hw, ho⟩
    have ht := Reader.parseWhitespace_append_noWs hw ho.start.1
    rw [← hs] at ht
    obtain rfl : lit "null" = t := ht
    exact absurd ho.front (by decide)
  exact ⟨h0, (parseFile_same_iff strayByte h0).mpr ⟨hends, hpast⟩⟩

/-- A file that fills the cleared part takes the next byte of the stack with it. -/
theorem not_parseFile_same_padded :
    0 ∉ lit "null" ++ List.replicate 1020 0x20 ∧
      ¬ (readStream strayByte (lit "null" ++ List.replicate 1020 0x20) =
            .ok (lit "null" ++ List.replicate 1020 0x20) ∧
          @FileReader.parseFile noDoubles strayByte (lit "null" ++ List.replicate 1020 0x20) =
            @Reader.parse noDoubles (lit "null" ++ List.replicate 1020 0x20)) := by
  have h0 : 0 ∉ lit "null" ++ List.replicate 1020 0x20 := by
    rw [List.mem_append, not_or, List.mem_replicate]
    exact ⟨by decide, fun h ↦ absurd h.2 (by decide)⟩
  refine ⟨h0, fun h ↦ ?_⟩
  have hlen : (lit "null" ++ List.replicate 1020 0x20).length = cleared := by
    rw [List.length_append, List.length_replicate]
    rfl
  have hends := (FileReadStream.delivers_iff strayByte h0).mp h.1
  rw [hlen] at hends
  rcases hends with hlt | hnul
  · exact absurd hlt (lt_irrefl cleared)
  · have hhead : strayByte.val[0]? = some 0x21 := rfl
    rw [Nat.sub_self, hhead] at hnul
    exact absurd (Option.some.inj hnul) (by decide)

end RpcLearning.Json
