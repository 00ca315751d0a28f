import RpcLearning.LogServer.LogLine

/-!
# What is printed is what was streamed

`stringify` reads a line back value by value.  The text of a `std::string` is copied by its length
and read up to the first `'\0'`, so that one inside the text leaves the rest of it to be read as
tags and values.
-/

namespace RpcLearning.LogServer

open Json (Bytes Double lit)

namespace Arg

open LogLine (raw)

/-- What is printed for a string, which is nothing if it is empty. -/
def charsField (str : Bytes) : Option (UInt8 × Bytes) :=
  if str.length = 0 then none else some (7, str)

/-- The tag and the text of a value, if it leaves something in the line. -/
def field? [LogText] : Arg → Option (UInt8 × Bytes)
  | .char arg => some (0, [arg])
  | .uint32 arg => some (1, Numeral.toDecimal arg.toNat)
  | .uint64 arg => some (2, Numeral.toDecimal arg.toNat)
  | .int32 arg => some (3, Numeral.to_string arg.toInt)
  | .int64 arg => some (4, Numeral.to_string arg.toInt)
  | .double arg => some (5, LogText.double arg)
  | .cString none => none
  | .cString (some arg) => charsField arg
  | .string arg => charsField arg
  | .array arg => some (6, (LogText.cString arg).getD [])

/-- What a string leaves in the buffer. -/
def charsBytes (str : Bytes) : Bytes := if str.length = 0 then [] else 7 :: (str ++ [0])

/-- What a value leaves in the buffer. -/
def bytes : Arg → Bytes
  | .char arg => 0 :: raw (n := 1) arg.toBitVec
  | .uint32 arg => 1 :: raw (n := 4) arg.toBitVec
  | .uint64 arg => 2 :: raw (n := 8) arg.toBitVec
  | .int32 arg => 3 :: raw (n := 4) arg.toBitVec
  | .int64 arg => 4 :: raw (n := 8) arg.toBitVec
  | .double arg => 5 :: raw (n := 8) arg.bits.toBitVec
  | .cString none => []
  | .cString (some arg) => charsBytes arg
  | .string arg => charsBytes arg
  | .array arg => 6 :: raw (n := 8) arg

/-- The operator for the value returns. -/
def Returns : Arg → Prop
  | .array _ => False
  | _ => True

/-- A string without a `'\0'` inside it, or a value of another type whose operator returns. -/
def Intact : Arg → Prop
  | .string arg => 0 ∉ arg
  | .array _ => False
  | _ => True

theorem Intact.returns {arg : Arg} (h : arg.Intact) : arg.Returns := by
  cases arg with
  | array arg => exact h
  | _ => exact trivial

end Arg

namespace LogLine

variable {l l' : LogLine}

/-! ## The buffer -/

theorem length_memory (l : LogLine) : l.memory.length = l.m_buffer_size := l.size_eq

theorem length_content (l : LogLine) : l.content.length = l.m_buffer_used := by
  rw [content, List.length_take, length_memory]
  exact Nat.min_eq_left l.used_le_size

theorem take_overwrite {pos : Nat} {data b : Bytes} (h : pos ≤ b.length) :
    (overwrite pos data b).take (pos + data.length) = b.take pos ++ data := by
  refine List.take_left' ?_
  rw [List.length_append, List.length_take, Nat.min_eq_left h]

/-- What fits is put behind what is there. -/
theorem exists_put {data : Bytes} (h : l.m_buffer_used + data.length ≤ l.m_buffer_size) :
    ∃ l', l.put data = .ok l' ∧ l'.content = l.content ++ data ∧
      l'.m_buffer_size = l.m_buffer_size := by
  refine ⟨_, dif_pos h, ?_, rfl⟩
  have hlen := l.size_eq
  have hused := l.used_le_size
  simp only [content, memory]
  cases hheap : l.m_heap_buffer with
  | none =>
      rw [hheap, Option.getD_none] at hlen
      exact take_overwrite (by omega)
  | some b =>
      rw [hheap, Option.getD_some] at hlen
      exact take_overwrite (by omega)

/-- After `resize_if_need`, there is room, and the content has been copied. -/
theorem resize_if_need_spec (n : Nat) (l : LogLine) :
    (l.resize_if_need n).content = l.content ∧
      (l.resize_if_need n).m_buffer_used + n ≤ (l.resize_if_need n).m_buffer_size := by
  unfold resize_if_need
  by_cases h : l.m_buffer_used + n ≤ l.m_buffer_size
  · simp only [if_pos h]
    exact ⟨trivial, h⟩
  · simp only [if_neg h]
    constructor
    · exact List.take_left' l.length_content
    · split <;> omega

/-- Room that `resize_if_need` has made takes a tag and what belongs to it. -/
theorem exists_put_tagged (type_id : UInt8) (data : Bytes) {n : Nat} (hn : n = 1 + data.length)
    (l : LogLine) :
    ∃ l₁ l₂, (l.resize_if_need n).put [type_id] = .ok l₁ ∧ l₁.put data = .ok l₂ ∧
      l₂.content = l.content ++ type_id :: data := by
  obtain ⟨hcontent, hroom⟩ := resize_if_need_spec n l
  have hone : [type_id].length = 1 := rfl
  have hfirst : (l.resize_if_need n).m_buffer_used + [type_id].length ≤
      (l.resize_if_need n).m_buffer_size := by omega
  obtain ⟨l₁, h₁, hc₁, hs₁⟩ := exists_put hfirst
  have hused : l₁.m_buffer_used = (l.resize_if_need n).m_buffer_used + 1 := by
    rw [← length_content, hc₁, List.length_append, length_content, hone]
  have hsecond : l₁.m_buffer_used + data.length ≤ l₁.m_buffer_size := by omega
  obtain ⟨l₂, h₂, hc₂, -⟩ := exists_put hsecond
  refine ⟨l₁, l₂, h₁, h₂, ?_⟩
  rw [hc₂, hc₁, hcontent, List.append_assoc, List.singleton_append]

theorem length_raw {n : Nat} (arg : BitVec (8 * n)) : (raw arg).length = n := by
  rw [raw, List.length_reverse, BigEndian.length_ofWord]

theorem exists_encodeTagged {n : Nat} (arg : BitVec (8 * n)) (type_id : UInt8) (l : LogLine) :
    ∃ l', l.encodeTagged arg type_id = .ok l' ∧ l'.content = l.content ++ type_id :: raw arg := by
  have hn : n + 1 = 1 + (raw arg).length := by rw [length_raw, add_comm]
  obtain ⟨l₁, l₂, h₁, h₂, hc⟩ := exists_put_tagged type_id (raw arg) hn l
  refine ⟨l₂, ?_, hc⟩
  simp only [encodeTagged, h₁, Exec.ok_bind]
  exact h₂

theorem exists_encode_c_str (str : Bytes) (l : LogLine) :
    ∃ l', l.encode_c_str str = .ok l' ∧ l'.content = l.content ++ Arg.charsBytes str := by
  rw [encode_c_str, Arg.charsBytes]
  by_cases h : str.length = 0
  · rw [if_pos h, if_pos h]
    exact ⟨l, rfl, (List.append_nil _).symm⟩
  · rw [if_neg h, if_neg h]
    have hn : 1 + str.length + 1 = 1 + (str ++ [0]).length := by
      rw [List.length_append, List.length_singleton, add_assoc]
    obtain ⟨l₁, l₂, h₁, h₂, hc⟩ := exists_put_tagged 7 (str ++ [0]) hn l
    refine ⟨l₂, ?_, hc⟩
    simp only [h₁, Exec.ok_bind]
    exact h₂

/-- A value leaves its bytes behind what is there, and is never too much. -/
theorem exists_shl (l : LogLine) {arg : Arg} (h : arg.Returns) :
    ∃ l', l.shl arg = .ok l' ∧ l'.content = l.content ++ arg.bytes := by
  cases arg with
  | array arg => exact h.elim
  | char arg => exact exists_encodeTagged (n := 1) arg.toBitVec 0 l
  | uint32 arg => exact exists_encodeTagged (n := 4) arg.toBitVec 1 l
  | uint64 arg => exact exists_encodeTagged (n := 8) arg.toBitVec 2 l
  | int32 arg => exact exists_encodeTagged (n := 4) arg.toBitVec 3 l
  | int64 arg => exact exists_encodeTagged (n := 8) arg.toBitVec 4 l
  | double arg => exact exists_encodeTagged (n := 8) arg.bits.toBitVec 5 l
  | cString arg =>
      cases arg with
      | none => exact ⟨l, rfl, (List.append_nil _).symm⟩
      | some arg => exact exists_encode_c_str arg l
  | string arg => exact exists_encode_c_str arg l

theorem returns_of_shl {arg : Arg} (h : l.shl arg = .ok l') : arg.Returns := by
  cases arg with
  | array arg =>
      obtain ⟨l₁, -, h⟩ := Exec.bind_eq_ok.mp h
      cases h
  | _ => exact trivial

theorem exists_foldlM_shl {args : List Arg} (h : ∀ arg ∈ args, arg.Returns) (l : LogLine) :
    ∃ l', args.foldlM shl l = .ok l' ∧ l'.content = l.content ++ args.flatMap Arg.bytes := by
  induction args generalizing l with
  | nil => exact ⟨l, rfl, (List.append_nil _).symm⟩
  | cons arg args ih =>
      rw [List.forall_mem_cons] at h
      obtain ⟨l₁, h₁, hc₁⟩ := exists_shl l h.1
      obtain ⟨l₂, h₂, hc₂⟩ := ih h.2 l₁
      refine ⟨l₂, ?_, ?_⟩
      · rw [List.foldlM_cons, h₁, Exec.ok_bind, h₂]
      · rw [hc₂, hc₁, List.append_assoc, List.flatMap_cons]

theorem exists_encode {n : Nat} (arg : BitVec (8 * n)) {l : LogLine} {k : Nat}
    (hk : l.m_buffer_used = k) (hs : l.m_buffer_size = 256) (h : k + n ≤ 256) :
    ∃ l', l.encode arg = .ok l' ∧ l'.content = l.content ++ raw arg ∧ l'.m_buffer_used = k + n ∧
      l'.m_buffer_size = 256 := by
  have hfits : l.m_buffer_used + (raw arg).length ≤ l.m_buffer_size := by
    rw [length_raw]
    omega
  obtain ⟨l', hok, hc, hs'⟩ := exists_put hfits
  refine ⟨l', hok, hc, ?_, hs'.trans hs⟩
  rw [← length_content, hc, List.length_append, length_content, length_raw, hk]

/-! ## Reading back -/

theorem read_raw {n : Nat} (arg : BitVec (8 * n)) (bs : Bytes) :
    read n (raw arg ++ bs) = .ok (arg, bs) := by
  have hlen := length_raw arg
  rw [read, if_pos (by rw [List.length_append, hlen]; omega), List.take_left' hlen,
    List.drop_left' hlen, raw, List.reverse_reverse, BigEndian.toWord_ofWord]

theorem decodeArg_raw {n : Nat} (print : BitVec (8 * n) → Bytes) (arg : BitVec (8 * n))
    (bs : Bytes) : decodeArg n print (raw arg ++ bs) = .ok (print arg, bs) := by
  rw [decodeArg, read_raw, Exec.ok_bind]

/-- A text is read up to its first `'\0'`. -/
theorem decodeChars_append {s : Bytes} (h : 0 ∉ s) (bs : Bytes) :
    decodeChars (s ++ 0 :: bs) = .ok (s, bs) := by
  induction s with
  | nil => rfl
  | cons c s ih =>
      rw [List.mem_cons, not_or] at h
      rw [List.cons_append, decodeChars, if_pos (Ne.symm h.1), ih h.2, Exec.ok_bind]

variable [LogText]

/-! ## What every line begins with -/

def Header.bytes (h : Header) : Bytes :=
  raw (n := 8) h.timestamp ++ raw (n := 8) h.threadid ++ raw (n := 8) h.file ++
    raw (n := 8) h.function ++ raw (n := 4) h.line ++ raw (n := 1) h.level.code

/-- What is printed for it. -/
def Header.text (h : Header) : Bytes :=
  LogText.format_timestamp h.timestamp ++ lit "[" ++ LogLevel.to_string h.level.code ++ lit "]" ++
    lit "[" ++ LogText.threadId h.threadid ++ lit "]" ++
    lit "[" ++ (LogText.cString h.file).getD [] ++ lit ":" ++
      (LogText.cString h.function).getD [] ++ lit ":" ++ Numeral.toDecimal h.line.toNat ++ lit "]"

/-- The stack has room for what a line begins with. -/
theorem exists_new (h : Header) : ∃ l, new h = .ok l ∧ l.content = h.bytes := by
  obtain ⟨l₁, h₁, hc₁, hu₁, hs₁⟩ :=
    exists_encode (n := 8) h.timestamp (l := empty) (k := 0) rfl rfl (by decide)
  obtain ⟨l₂, h₂, hc₂, hu₂, hs₂⟩ := exists_encode (n := 8) h.threadid hu₁ hs₁ (by decide)
  obtain ⟨l₃, h₃, hc₃, hu₃, hs₃⟩ := exists_encode (n := 8) h.file hu₂ hs₂ (by decide)
  obtain ⟨l₄, h₄, hc₄, hu₄, hs₄⟩ := exists_encode (n := 8) h.function hu₃ hs₃ (by decide)
  obtain ⟨l₅, h₅, hc₅, hu₅, hs₅⟩ := exists_encode (n := 4) h.line hu₄ hs₄ (by decide)
  obtain ⟨l₆, h₆, hc₆, -, -⟩ := exists_encode (n := 1) h.level.code hu₅ hs₅ (by decide)
  refine ⟨l₆, ?_, ?_⟩
  · rw [new, h₁, Exec.ok_bind, h₂, Exec.ok_bind, h₃, Exec.ok_bind, h₄, Exec.ok_bind, h₅,
      Exec.ok_bind, h₆]
  · rw [hc₆, hc₅, hc₄, hc₃, hc₂, hc₁]
    rfl

theorem exists_log (h : Header) {args : List Arg} (hr : ∀ arg ∈ args, arg.Returns) :
    ∃ l, log h args = .ok l ∧ l.content = h.bytes ++ args.flatMap Arg.bytes := by
  obtain ⟨l₁, h₁, hc₁⟩ := exists_new h
  obtain ⟨l₂, h₂, hc₂⟩ := exists_foldlM_shl hr l₁
  refine ⟨l₂, ?_, ?_⟩
  · rw [log, h₁, Exec.ok_bind, h₂]
  · rw [hc₂, hc₁]

theorem returns_of_log {h : Header} {args : List Arg} (hl : log h args = .ok l) :
    ∀ arg ∈ args, arg.Returns := by
  obtain ⟨l₁, -, hl⟩ := Exec.bind_eq_ok.mp hl
  exact Exec.forall_of_foldlM_eq_ok (g := shl) (fun _ _ _ ↦ returns_of_shl) hl

/-! ## The loop -/

/-- What the loop makes of a value that leaves bytes in the line: it reads the value back if it is
intact, and prints something else if it is not. -/
structure ReadsBack (arg : Arg) (type_id : UInt8) (body text : Bytes) : Prop where
  bytes : arg.bytes = type_id :: body
  field : arg.field? = some (type_id, text)
  intact : arg.Intact → ∀ bs, decode type_id (body ++ bs) = .ok (text, bs)
  broken : ¬ arg.Intact → ∀ bs, ∃ text' bs', decode type_id (body ++ bs) = .ok (text', bs') ∧
    text' ≠ text

theorem decode_chars {s : Bytes} (h : 0 ∉ s) (bs : Bytes) :
    decode 7 ((s ++ [0]) ++ bs) = .ok (s, bs) := by
  rw [List.append_assoc]
  exact decodeChars_append h bs

/-- A text with a `'\0'` in it is printed up to there. -/
theorem decode_chars_broken {s : Bytes} (h : 0 ∈ s) (bs : Bytes) :
    ∃ text' bs', decode 7 ((s ++ [0]) ++ bs) = .ok (text', bs') ∧ text' ≠ s := by
  obtain ⟨t, u, rfl, ht⟩ := List.eq_append_cons_of_mem h
  refine ⟨t, u ++ [0] ++ bs, ?_, fun heq ↦ ?_⟩
  · have happend : t ++ 0 :: u ++ [0] ++ bs = t ++ 0 :: (u ++ [0] ++ bs) := by simp
    rw [happend]
    exact decodeChars_append ht _
  · have hlen := congrArg List.length heq
    rw [List.length_append, List.length_cons] at hlen
    omega

theorem readsBack_raw {arg : Arg} {n : Nat} (print : BitVec (8 * n) → Bytes) {x : BitVec (8 * n)}
    {type_id : UInt8} (hb : arg.bytes = type_id :: raw x)
    (hf : arg.field? = some (type_id, print x)) (hi : arg.Intact)
    (hd : ∀ bs, decode type_id bs = decodeArg n print bs) :
    ReadsBack arg type_id (raw x) (print x) where
  bytes := hb
  field := hf
  intact _ bs := (hd _).trans (decodeArg_raw print x bs)
  broken h := absurd hi h

/-- A value leaves nothing in the line, and nothing is printed for it, or the loop comes to it. -/
theorem readsBack_cases {arg : Arg} (h : arg.Returns) :
    arg.bytes = [] ∧ arg.field? = none ∧ arg.Intact ∨
      ∃ type_id body text, ReadsBack arg type_id body text := by
  cases arg with
  | array arg => exact h.elim
  | char arg =>
      exact .inr ⟨_, _, _, readsBack_raw (n := 1) (fun x ↦ [⟨x⟩]) rfl rfl trivial fun _ ↦ rfl⟩
  | uint32 arg =>
      exact .inr ⟨_, _, _, readsBack_raw (n := 4) (fun x ↦ Numeral.toDecimal x.toNat)
        rfl rfl trivial fun _ ↦ rfl⟩
  | uint64 arg =>
      exact .inr ⟨_, _, _, readsBack_raw (n := 8) (fun x ↦ Numeral.toDecimal x.toNat)
        rfl rfl trivial fun _ ↦ rfl⟩
  | int32 arg =>
      exact .inr ⟨_, _, _, readsBack_raw (n := 4) (fun x ↦ Numeral.to_string x.toInt)
        rfl rfl trivial fun _ ↦ rfl⟩
  | int64 arg =>
      exact .inr ⟨_, _, _, readsBack_raw (n := 8) (fun x ↦ Numeral.to_string x.toInt)
        rfl rfl trivial fun _ ↦ rfl⟩
  | double arg =>
      exact .inr ⟨_, _, _, readsBack_raw (n := 8) (fun x ↦ LogText.double ⟨⟨x⟩⟩)
        rfl rfl trivial fun _ ↦ rfl⟩
  | cString arg =>
      cases arg with
      | none => exact .inl ⟨rfl, rfl, trivial⟩
      | some arg =>
          by_cases h : arg.val.length = 0
          · exact .inl ⟨if_pos h, if_pos h, trivial⟩
          · exact .inr ⟨_, _, _, if_neg h, if_neg h, fun _ ↦ decode_chars arg.property,
              fun hi ↦ absurd trivial hi⟩
  | string arg =>
      by_cases h : arg.length = 0
      · refine .inl ⟨if_pos h, if_pos h, ?_⟩
        obtain rfl := List.length_eq_zero_iff.mp h
        exact List.not_mem_nil
      · exact .inr ⟨_, _, _, if_neg h, if_neg h, decode_chars,
          fun hi ↦ decode_chars_broken (not_not.mp hi)⟩

/-- The loop reads intact values back, and ends where they do. -/
theorem stringifyLoop_of_intact {args : List Arg} (h : ∀ arg ∈ args, arg.Intact) {fuel : Nat}
    (hf : (args.flatMap Arg.bytes).length ≤ fuel) :
    stringifyLoop fuel (args.flatMap Arg.bytes) = .ok (args.filterMap Arg.field?) := by
  induction args generalizing fuel with
  | nil => cases fuel <;> rfl
  | cons arg args ih =>
      rw [List.forall_mem_cons] at h
      rw [List.flatMap_cons] at hf ⊢
      rcases readsBack_cases h.1.returns with ⟨hb, hfield, -⟩ | ⟨type_id, body, text, hr⟩
      · rw [hb, List.nil_append] at hf ⊢
        rw [List.filterMap_cons_none hfield]
        exact ih h.2 hf
      · rw [hr.bytes, List.cons_append] at hf ⊢
        rw [List.length_cons, List.length_append] at hf
        obtain ⟨fuel, rfl⟩ : ∃ k, fuel = k + 1 := ⟨fuel - 1, by omega⟩
        rw [List.filterMap_cons_some hr.field, stringifyLoop, hr.intact h.1, Exec.ok_bind]
        simp only
        rw [ih h.2 (by omega), Exec.ok_bind]

/-- Where the loop has read everything back, everything was intact. -/
theorem intact_of_stringifyLoop {args : List Arg} (hret : ∀ arg ∈ args, arg.Returns) {fuel : Nat}
    (h : stringifyLoop fuel (args.flatMap Arg.bytes) = .ok (args.filterMap Arg.field?)) :
    ∀ arg ∈ args, arg.Intact := by
  induction args generalizing fuel with
  | nil => exact nofun
  | cons arg args ih =>
      rw [List.flatMap_cons] at h
      rw [List.forall_mem_cons] at hret
      rcases readsBack_cases hret.1 with ⟨hb, hfield, hi⟩ | ⟨type_id, body, text, hr⟩
      · rw [hb, List.nil_append, List.filterMap_cons_none hfield] at h
        exact List.forall_mem_cons.mpr ⟨hi, ih hret.2 h⟩
      · rw [hr.bytes, List.cons_append, List.filterMap_cons_some hr.field] at h
        cases fuel with
        | zero => cases h
        | succ fuel =>
            obtain ⟨⟨text', bs'⟩, hd, h⟩ := Exec.bind_eq_ok.mp h
            obtain ⟨fields, hloop, h⟩ := Exec.bind_eq_ok.mp h
            cases h
            by_cases hi : arg.Intact
            · cases (hr.intact hi _).symm.trans hd
              exact List.forall_mem_cons.mpr ⟨hi, ih hret.2 hloop⟩
            · obtain ⟨text'', bs'', hd', hne⟩ := hr.broken hi (args.flatMap Arg.bytes)
              cases hd'.symm.trans hd
              exact absurd rfl hne

/-- `stringify` reads what every line begins with, and leaves the rest to the loop. -/
theorem stringify_eq (h : Header) {l : LogLine} {bs : Bytes} (hl : l.content = h.bytes ++ bs) :
    l.stringify = (do
      let fields ← stringifyLoop bs.length bs
      .ok (h.text, fields)) := by
  obtain ⟨file, hfile⟩ := Option.isSome_iff_exists.mp h.file_literal
  obtain ⟨function, hfunction⟩ := Option.isSome_iff_exists.mp h.function_literal
  have hp : pstr h.file = .ok file := by rw [pstr, hfile]
  have hp' : pstr h.function = .ok function := by rw [pstr, hfunction]
  rw [stringify, hl, Header.bytes, Header.text, hfile, hfunction]
  simp only [List.append_assoc, read_raw, Exec.ok_bind, hp, hp', Option.getD_some]

/-- A line prints the values that were streamed into it, completely and in order, when no string
among them has a `'\0'` in it and none of them is an array. -/
theorem stringify_log_iff (h : Header) (args : List Arg) :
    (∃ l, log h args = .ok l ∧ l.stringify = .ok (h.text, args.filterMap Arg.field?)) ↔
      ∀ arg ∈ args, arg.Intact := by
  constructor
  · rintro ⟨l, hlog, hs⟩
    have hr := returns_of_log hlog
    obtain ⟨l', hlog', hcontent⟩ := exists_log h hr
    cases hlog.symm.trans hlog'
    rw [stringify_eq h hcontent] at hs
    obtain ⟨fields, hloop, hs⟩ := Exec.bind_eq_ok.mp hs
    cases hs
    exact intact_of_stringifyLoop hr hloop
  · intro hi
    obtain ⟨l, hlog, hcontent⟩ := exists_log h fun arg harg ↦ (hi arg harg).returns
    refine ⟨l, hlog, ?_⟩
    rw [stringify_eq h hcontent, stringifyLoop_of_intact hi le_rfl, Exec.ok_bind]

omit [LogText] in
/-- In the string "a\0b", the 'b' is taken for a tag, and the `'\0'` behind it for that of a
character, which would lie behind the end. -/
theorem stringify_embedded :
    let _ : LogText := ⟨fun _ ↦ [], fun _ ↦ [], fun _ ↦ [], fun _ ↦ some []⟩
    let h : Header := ⟨0, 0, 0, 0, 0, .INFO, rfl, rfl⟩
    ∃ l, log h [.string [0x61, 0, 0x62]] = .ok l ∧ l.stringify = .error .pastEnd := by
  intro _ h
  have hr : ∀ arg ∈ [Arg.string [0x61, 0, 0x62]], arg.Returns :=
    List.forall_mem_singleton.mpr trivial
  obtain ⟨l, hlog, hcontent⟩ := exists_log h hr
  refine ⟨l, hlog, ?_⟩
  rw [stringify_eq h hcontent]
  rfl

end LogLine

end RpcLearning.LogServer
