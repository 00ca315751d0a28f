import RpcLearning.Json.Reader.Faults

/-!
# The reader ends

A reader that does not end would use up every bound.  None does: a value takes at least one
character, so that each round of the two `while(true)` loops takes at least one too, or is the last
one.
-/

namespace RpcLearning.Json.Reader

open Exec (Cut)

/-- How a round of a loop ends, unless with an error code. -/
inductive Round where
  | done (value : Value) (is : Stream)
  | again (value : Value) (is : Stream)

/-- After a round, the loop ends or goes on. -/
def Round.next (loop : Value → Stream → Parse (Value × Stream)) : Round → Parse (Value × Stream)
  | .done value is => .ok (value, is)
  | .again value is => loop value is

theorem length_next_le (is : Stream) : is.next.2.length ≤ is.length := by
  cases is with
  | nil => exact le_rfl
  | cons c is => exact Nat.le_succ _

theorem length_pop_lt {is is' : Stream} (h : is.pop = .ok is') : is'.length < is.length := by
  cases is with
  | nil => cases h
  | cons c is =>
      cases h
      exact Nat.lt_succ_self _

theorem within_eq_ok {α : Type} {value : Value} {x : Parse α} {a : α} :
    within value x = .ok a ↔ x = .ok a := Exec.mapThrown_eq_ok

theorem cut_next {loop loop' : Value → Stream → Parse (Value × Stream)}
    (h : ∀ value is, Cut (loop value is) (loop' value is)) (r : Round) :
    Cut (r.next loop) (r.next loop') := by
  cases r with
  | done value is => exact .refl _
  | again value is => exact h value is

theorem cut_parseArray {loop loop' : Value → Stream → Parse (Value × Stream)}
    (h : ∀ value is, Cut (loop value is) (loop' value is)) (is : Stream) :
    Cut (parseArray loop is) (parseArray loop' is) :=
  Cut.bind (.refl _) fun _ ↦ .ite (.refl _) (h _ _)

theorem cut_parseObject {loop loop' : Value → Stream → Parse (Value × Stream)}
    (h : ∀ value is, Cut (loop value is) (loop' value is)) (is : Stream) :
    Cut (parseObject loop is) (parseObject loop' is) :=
  Cut.bind (.refl _) fun _ ↦ .ite (.refl _) (h _ _)

variable [DoubleText]

/-- The body of the `while(true)` of `parseArray`. -/
def arrayRound (fuel : Nat) (value : Value) (is : Stream) : Parse Round := do
  let (temp, is) ← within value (parseValue fuel is)
  let value ← Exec.ofRun (value.addValue temp)
  match (parseWhitespace is).next with
  | (0x2c, is) => .ok (.again value (parseWhitespace is))
  | (0x5d, is) => .ok (.done value is)
  | (_, is) => .ok (.again value is)

/-- The body of the `while(true)` of `parseObject`. -/
def objectRound (fuel : Nat) (object : Value) (is : Stream) : Parse Round :=
  if is.front ≠ 0x22 then .throw (.PARSE_MISS_KEY, object)
  else do
    let (key, is) ← within object (parseString is)
    match (parseWhitespace is).next with
    | (0x3a, is) =>
      let (value, is) ← within object (parseValue fuel (parseWhitespace is))
      let object ← Exec.ofRun (object.addMember key value)
      let is := parseWhitespace is
      if is.front = 0x2c then do
        let is ← is.pop
        .ok (.again object (parseWhitespace is))
      else if is.front = 0x7d then do
        let is ← is.pop
        .ok (.done object is)
      else .throw (.PARSE_MISS_COMMA_OR_CURLY_BRACKET, object)
    | _ => .throw (.PARSE_MISS_COLON, object)

/-- A loop is made of rounds, of which each one but the last takes something from the stream. -/
structure Descends (loop : Nat → Value → Stream → Parse (Value × Stream))
    (round : Nat → Value → Stream → Parse Round) : Prop where
  unfold (fuel : Nat) (value : Value) (is : Stream) :
    loop (fuel + 1) value is = round fuel value is >>= Round.next (loop fuel)
  shorter {fuel : Nat} {value value' : Value} {is is' : Stream} :
    round fuel value is = .ok (.again value' is') → is'.length < is.length

theorem parseArrayLoop_succ (fuel : Nat) (value : Value) (is : Stream) :
    parseArrayLoop (fuel + 1) value is =
      arrayRound fuel value is >>= Round.next (parseArrayLoop fuel) := by
  rw [parseArrayLoop, arrayRound]
  cases within value (parseValue fuel is) with
  | error s => rfl
  | ok p =>
      simp only [Exec.ok_bind]
      cases (Exec.ofRun (value.addValue p.1) : Parse Value) with
      | error s => rfl
      | ok value' =>
          simp only [Exec.ok_bind]
          split <;> simp only [*, Exec.ok_bind, Round.next]

theorem parseObjectLoop_succ (fuel : Nat) (object : Value) (is : Stream) :
    parseObjectLoop (fuel + 1) object is =
      objectRound fuel object is >>= Round.next (parseObjectLoop fuel) := by
  rw [parseObjectLoop, objectRound]
  by_cases hquote : is.front ≠ 0x22
  · rw [if_pos hquote, if_pos hquote]
    rfl
  rw [if_neg hquote, if_neg hquote]
  cases within object (parseString is) with
  | error s => rfl
  | ok p =>
      simp only [Exec.ok_bind]
      obtain ⟨c, is'⟩ := (parseWhitespace p.2).next
      by_cases hc : c = 0x3a
      · subst hc
        simp only
        cases within object (parseValue fuel (parseWhitespace is')) with
        | error s => rfl
        | ok q =>
            simp only [Exec.ok_bind]
            cases (Exec.ofRun (object.addMember p.1 q.1) : Parse Value) with
            | error s => rfl
            | ok object' =>
                simp only [Exec.ok_bind]
                by_cases hcomma : (parseWhitespace q.2).front = 0x2c
                · rw [if_pos hcomma, if_pos hcomma]
                  cases Stream.pop (parseWhitespace q.2) <;> rfl
                rw [if_neg hcomma, if_neg hcomma]
                by_cases hclose : (parseWhitespace q.2).front = 0x7d
                · rw [if_pos hclose, if_pos hclose]
                  cases Stream.pop (parseWhitespace q.2) <;> rfl
                · rw [if_neg hclose, if_neg hclose]
                  rfl
      · simp [hc, Exec.throw]

/-! ## What is left of the stream -/

/-- `parseValue` does not return without having taken a character. -/
theorem length_parseValue_lt {fuel : Nat} {is r : Stream} {v : Value}
    (h : parseValue fuel is = .ok (v, r)) : r.length < is.length := by
  rcases reads_of_run (n := .value) h with ⟨b, hr⟩ | ⟨-, ⟨ht⟩, -, rfl⟩
  · exact hr.length_lt
  · exact Nat.succ_pos _

theorem length_parseString_lt {is r : Stream} {v : Value} (hquote : is.front = 0x22)
    (h : parseString is = .ok (v, r)) : r.length < is.length := by
  have hv : parseValue 1 is = parseString is := by
    rw [parseValue, hquote]
    rfl
  exact length_parseValue_lt (hv.trans h)

theorem length_arrayRound_lt {fuel : Nat} {value value' : Value} {is is' : Stream}
    (h : arrayRound fuel value is = .ok (.again value' is')) : is'.length < is.length := by
  obtain ⟨⟨temp, r⟩, hv, h⟩ := Exec.bind_eq_ok.mp h
  obtain ⟨value'', -, h⟩ := Exec.bind_eq_ok.mp h
  have hlt := length_parseValue_lt (within_eq_ok.mp hv)
  have hws := length_parseWhitespace_le r
  have hnext := length_next_le (parseWhitespace r)
  split at h
  · rename_i r' hq
    cases h
    rw [hq] at hnext
    have hws' := length_parseWhitespace_le r'
    dsimp only at hnext
    omega
  · cases h
  · rename_i r' _ _ hq
    cases h
    rw [hq] at hnext
    dsimp only at hnext
    omega

theorem length_objectRound_lt {fuel : Nat} {object object' : Value} {is is' : Stream}
    (h : objectRound fuel object is = .ok (.again object' is')) : is'.length < is.length := by
  unfold objectRound at h
  split at h
  · cases h
  rename_i hquote
  obtain ⟨⟨key, r⟩, hs, h⟩ := Exec.bind_eq_ok.mp h
  have hlt := length_parseString_lt (not_not.mp hquote) (within_eq_ok.mp hs)
  have hws := length_parseWhitespace_le r
  have hnext := length_next_le (parseWhitespace r)
  dsimp only at h
  split at h
  · rename_i r₁ hq
    rw [hq] at hnext
    dsimp only at hnext
    obtain ⟨⟨value, r₂⟩, hv, h⟩ := Exec.bind_eq_ok.mp h
    obtain ⟨object'', -, h⟩ := Exec.bind_eq_ok.mp h
    have hlt₁ := length_parseValue_lt (within_eq_ok.mp hv)
    have hws₁ := length_parseWhitespace_le r₁
    have hws₂ := length_parseWhitespace_le r₂
    dsimp only at h
    split at h
    · obtain ⟨r₃, hp, h⟩ := Exec.bind_eq_ok.mp h
      cases h
      have hpop := length_pop_lt hp
      have hws₃ := length_parseWhitespace_le r₃
      omega
    · split at h
      · obtain ⟨r₃, hp, h⟩ := Exec.bind_eq_ok.mp h
        cases h
      · cases h
  · cases h

/-! ## The bound -/

theorem cut_arrayRound {fuel : Nat} (h : ∀ is, Cut (parseValue fuel is) (parseValue (fuel + 1) is))
    (value : Value) (is : Stream) :
    Cut (arrayRound fuel value is) (arrayRound (fuel + 1) value is) :=
  ((h is).mapThrown _).bind fun _ ↦ .refl _

theorem cut_objectRound {fuel : Nat} (h : ∀ is, Cut (parseValue fuel is) (parseValue (fuel + 1) is))
    (object : Value) (is : Stream) :
    Cut (objectRound fuel object is) (objectRound (fuel + 1) object is) := by
  refine .ite (.refl _) (Cut.bind (.refl _) fun p ↦ ?_)
  dsimp only
  split
  · exact ((h _).mapThrown _).bind fun _ ↦ .refl _
  · exact .refl _

/-- One more round changes nothing but an exhausted bound. -/
theorem cut_succ (fuel : Nat) :
    (∀ is, Cut (parseValue fuel is) (parseValue (fuel + 1) is)) ∧
      (∀ value is, Cut (parseArrayLoop fuel value is) (parseArrayLoop (fuel + 1) value is)) ∧
      ∀ object is, Cut (parseObjectLoop fuel object is) (parseObjectLoop (fuel + 1) object is) := by
  induction fuel with
  | zero =>
      refine ⟨fun is ↦ ?_, fun value is ↦ ?_, fun object is ↦ ?_⟩
      · rw [parseValue]
        exact Exec.cut_fuel _
      · rw [parseArrayLoop]
        exact Exec.cut_fuel _
      · rw [parseObjectLoop]
        exact Exec.cut_fuel _
  | succ fuel ih =>
      obtain ⟨hvalue, harray, hobject⟩ := ih
      refine ⟨fun is ↦ ?_, fun value is ↦ ?_, fun object is ↦ ?_⟩
      · rw [parseValue, parseValue]
        split
        · exact .refl _
        · exact .refl _
        · exact .refl _
        · exact .refl _
        · exact cut_parseArray harray is
        · exact cut_parseObject hobject is
        · exact .refl _
      · rw [parseArrayLoop_succ, parseArrayLoop_succ]
        exact (cut_arrayRound hvalue value is).bind (cut_next harray)
      · rw [parseObjectLoop_succ, parseObjectLoop_succ]
        exact (cut_objectRound hvalue object is).bind (cut_next hobject)

theorem parseValue_bound_ne_fuel (is : Stream) :
    parseValue (bound is) is ≠ .error (.fault .fuel) := by
  intro h
  have hrun := (run_eq_fault_iff (n := .value) (s := is) le_rfl .fuel).mp h
  cases hrun.1

/-- From the bound on, the number of rounds does not matter, and is never used up. -/
theorem parseValue_of_le {is : Stream} {fuel : Nat} (h : bound is ≤ fuel) :
    parseValue fuel is = parseValue (bound is) is :=
  Cut.of_le (fun n ↦ (cut_succ n).1 is) h (parseValue_bound_ne_fuel is)

theorem arrayRound_nil (fuel : Nat) (value : Value) :
    arrayRound (fuel + 1) value [] = .throw (.PARSE_INVALID_VALUE, value) := by
  rw [arrayRound, parseValue_nil]
  rfl

theorem objectRound_nil (fuel : Nat) (object : Value) :
    objectRound fuel object [] = .throw (.PARSE_MISS_KEY, object) :=
  if_pos (by decide)

/-- The reader ends on every text. -/
theorem parse_terminates (json : Bytes) :
    parse json ≠ .error .fuel ∧
      (∀ is fuel, bound is ≤ fuel → parseValue fuel is ≠ .error (.fault .fuel) ∧
        parseValue fuel is = parseValue (bound is) is) ∧
      (∀ fuel is v r, parseValue fuel is = .ok (v, r) → r.length < is.length) ∧
      Descends parseArrayLoop arrayRound ∧ Descends parseObjectLoop objectRound ∧
      (∀ fuel value, arrayRound (fuel + 1) value [] = .throw (.PARSE_INVALID_VALUE, value)) ∧
      ∀ fuel object, objectRound fuel object [] = .throw (.PARSE_MISS_KEY, object) := by
  refine ⟨fun h ↦ ?_, fun is fuel hle ↦ ?_, fun _ _ _ _ h ↦ length_parseValue_lt h,
    ⟨parseArrayLoop_succ, length_arrayRound_lt⟩, ⟨parseObjectLoop_succ, length_objectRound_lt⟩,
    arrayRound_nil, objectRound_nil⟩
  · cases ((parse_eq_error_iff json .fuel).mp h).1
  · rw [parseValue_of_le hle]
    exact ⟨parseValue_bound_ne_fuel is, rfl⟩

end RpcLearning.Json.Reader
