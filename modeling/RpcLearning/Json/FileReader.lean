import RpcLearning.Json.FileReadStream
import RpcLearning.Json.Reader.Faults

/-!
# The reader on a file

`Reader<FileReadStream>`.  Its characters lie in a `std::vector<char>`, and `strtol` and `strtod`
are given a pointer into that.  Nothing ends the text for them there: a numeral that reaches the end
of the file is read past it.  Behind the characters of a `std::string` there is a NUL.  Everything
else the reader does is the same for both streams.
-/

namespace RpcLearning.Json

open Numeral (isDigit skipDigits takeSign strtodRest isspace Digits IntText DoubleNumeral NoDigit)
open Reader (scanNatural scanInteger scanFraction scanExponent scanSuffix invalidValue)

/-! ## The functions -/

namespace FileReader

/-- What `strtod` or `strtol` leaves unread of the characters from `start`. -/
def numberRest (expectType : ValueType) (start : Stream) : Option Stream :=
  match expectType with
  | .TYPE_DOUBLE => strtodRest start
  | _ => some (skipDigits (takeSign (start.dropWhile isspace)).2)

variable [DoubleText]

def convert (expectType : ValueType) (start end_ : Stream) : Parse Value :=
  if numberRest expectType start = some [] then .fault .pastEnd
  else Reader.convert expectType start end_

def parseNumber (start : Stream) : Parse (Value × Stream) := do
  let is ← scanInteger start
  let (frac, is) ← scanFraction is
  let (exp, is) ← scanExponent is
  let (expectType, is) ← scanSuffix (if frac ∨ exp then .TYPE_DOUBLE else .TYPE_NULL) is
  if is.length = start.length then invalidValue
  else
    let value ← convert expectType start is
    .ok (value, is)

mutual

def parseValue : Nat → Stream → Parse (Value × Stream)
  | 0, _ => .fault .fuel
  | fuel + 1, is => Reader.valueStep parseNumber (parseArrayLoop fuel) (parseObjectLoop fuel) is

def parseArrayLoop : Nat → Value → Stream → Parse (Value × Stream)
  | 0, _, _ => .fault .fuel
  | fuel + 1, value, is => Reader.arrayStep (parseValue fuel) (parseArrayLoop fuel) value is

def parseObjectLoop : Nat → Value → Stream → Parse (Value × Stream)
  | 0, _, _ => .fault .fuel
  | fuel + 1, object, is => Reader.objectStep (parseValue fuel) (parseObjectLoop fuel) object is

end

/-- `Reader<FileReadStream>::parse` on what the stream delivers. -/
def parse (buffer_ : Bytes) : Run (ParseError × Option Value) :=
  let is := Reader.parseWhitespace buffer_
  Exec.catchAll (fun e ↦ .ok (e.1, some e.2)) do
    let (value, is) ← parseValue (Reader.bound is) is
    if (Reader.parseWhitespace is).hasNext then .ok (.PARSE_ROOT_NOT_SINGULAR, none)
    else .ok (.PARSE_OK, some value)

end FileReader

/-! ## Numerals at the end of a file -/

/-- A text that the C library reads as a number to its end, with no suffix for the reader to find:
digits after an optional minus sign, or a double. -/
inductive Unsuffixed : Bytes → Prop
  | nonneg {ds : Bytes} (h : Digits ds) : Unsuffixed ds
  | neg {ds : Bytes} (h : Digits ds) : Unsuffixed (0x2d :: ds)
  | double {s f e : Bytes} (h : DoubleNumeral s f e) : Unsuffixed (s ++ f ++ e)

theorem Unsuffixed.exists_cons {s : Bytes} (h : Unsuffixed s) :
    ∃ c t, s = c :: t ∧ (c = 0x2d ∨ isDigit c) := by
  cases h with
  | nonneg h =>
      obtain ⟨c, cs, rfl, hc⟩ := h.exists_cons
      exact ⟨c, cs, rfl, .inr hc⟩
  | neg h => exact ⟨0x2d, _, rfl, .inl rfl⟩
  | double h =>
      obtain ⟨hs, -, -, -⟩ := h
      obtain ⟨c, ds, rfl, hc⟩ := hs.exists_cons
      exact ⟨c, _, rfl, hc⟩

namespace FileReader

open Reader (Scanned scanned_of_scan scanFraction_eq_ok scanExponent_eq_ok scanSuffix_eq_ok)

theorem takeSign_digits {ds : Bytes} (h : Digits ds) :
    takeSign (ds.dropWhile isspace) = (false, ds) := by
  obtain ⟨c, cs, rfl, hc⟩ := h.exists_cons
  rw [List.dropWhile_cons_of_neg (by simp [Numeral.isspace_of_isDigit hc])]
  exact Numeral.takeSign_of_isDigit hc cs

theorem skipDigits_eq_nil {ds : Bytes} : skipDigits ds = [] ↔ ∀ c ∈ ds, isDigit c :=
  List.dropWhile_eq_nil_iff

/-- A run of digits is scanned up to a run of digits: a zero in front is taken alone. -/
theorem scanNatural_digits {ds : Bytes} (h : Digits ds) :
    ∃ r, scanNatural ds = .ok r ∧ r.length < ds.length ∧ ∀ c ∈ r, isDigit c := by
  obtain ⟨c, cs, rfl, hc⟩ := h.exists_cons
  by_cases h0 : c = 0x30
  · refine ⟨cs, ?_, Nat.lt_succ_self _, fun d hd ↦ h.2 d (List.mem_cons_of_mem c hd)⟩
    simp [scanNatural, h0]
  · refine ⟨[], ?_, Nat.succ_pos _, fun d hd ↦ absurd hd List.not_mem_nil⟩
    have h19 : Numeral.isDigit19 c = true := Numeral.isDigit19_of_isDigit hc h0
    simp [scanNatural, h0, h19, skipDigits_eq_nil.mpr h.2]

theorem front_ne_of_digits {r : Stream} (h : ∀ c ∈ r, isDigit c) {d : UInt8} (h0 : d ≠ 0)
    (hd : ¬ isDigit d) : r.front ≠ d := by
  cases r with
  | nil => exact Ne.symm h0
  | cons c t =>
      rintro rfl
      exact hd (h c List.mem_cons_self)

theorem numberRest_digits {ds : Bytes} (h : Digits ds) : numberRest .TYPE_NULL ds = some [] := by
  simp [numberRest, takeSign_digits h, skipDigits_eq_nil.mpr h.2]

theorem numberRest_neg (ds : Bytes) :
    numberRest .TYPE_NULL (0x2d :: ds) = some (skipDigits ds) := rfl

theorem numberRest_append {s : Bytes} {i : Int} (hs : IntText s i) {type : ValueType}
    (ht : type ≠ .TYPE_DOUBLE) (r : Bytes) : numberRest type (s ++ r) = some (skipDigits r) := by
  obtain ⟨neg, t, hsign, htext, -⟩ := hs.takeSign r
  have hskip : skipDigits (t ++ r) = skipDigits r := by
    rw [skipDigits, List.dropWhile_append_of_pos htext.isDigit, skipDigits]
  cases type <;> first | exact absurd rfl ht | simp [numberRest, hsign, hskip]

/-- Where the scanners succeed, the C library stays within the text unless that is unsuffixed. -/
theorem numberRest_ne_nil {start r : Stream} {type : ValueType} (h : Scanned start type r)
    (hu : ¬ Unsuffixed start) : numberRest type start ≠ some [] := by
  cases h with
  | @plain s r i hs =>
      rw [numberRest_append hs (by simp), Ne, Option.some.injEq, skipDigits_eq_nil]
      intro hr
      have digits : ∀ {t : Bytes}, Numeral.NatText t → Digits (t ++ r) := by
        intro t ht
        obtain ⟨c, ds, he, -⟩ := ht.exists_cons
        refine ⟨by simp [he], fun c hc ↦ ?_⟩
        exact (List.mem_append.mp hc).elim (ht.isDigit c) (hr c)
      cases hs with
      | nonneg ht => exact hu (.nonneg (digits ht))
      | neg ht => exact hu (.neg (digits ht))
  | @int32 s r i hs =>
      have hrest := numberRest_append hs (by simp : ValueType.TYPE_INT32 ≠ .TYPE_DOUBLE)
        (lit "i32" ++ r)
      rw [hrest, Numeral.skipDigits_of_noDigit (Reader.noDigit_i32 r)]
      simp [lit]
  | @int64 s r i hs =>
      have hrest := numberRest_append hs (by simp : ValueType.TYPE_INT64 ≠ .TYPE_DOUBLE)
        (lit "i64" ++ r)
      rw [hrest, Numeral.skipDigits_of_noDigit (Reader.noDigit_i64 r)]
      simp [lit]
  | @double s f e _ h hr hi =>
      rw [numberRest, Numeral.strtodRest_append h hr, Ne, Option.some.injEq]
      rintro rfl
      rw [show s ++ (f ++ (e ++ [])) = s ++ f ++ e by simp] at hu
      exact hu (.double h)

variable [DoubleText]

/-- Behind a run of digits the scanners find nothing more. -/
theorem parseNumber_digits {start is : Stream} (h : scanInteger start = .ok is)
    (hlen : is.length < start.length) (hd : ∀ c ∈ is, isDigit c)
    (hrest : numberRest .TYPE_NULL start = some []) :
    parseNumber start = .error (.fault .pastEnd) := by
  have hne {d : UInt8} (h0 : d ≠ 0) (hd' : ¬ isDigit d) : is.front ≠ d :=
    front_ne_of_digits hd h0 hd'
  have hf : scanFraction is = .ok (false, is) :=
    scanFraction_eq_ok.mpr (.inl ⟨rfl, rfl, hne (by decide) (by decide)⟩)
  have he : scanExponent is = .ok (false, is) :=
    scanExponent_eq_ok.mpr
      (.inl ⟨rfl, rfl, hne (by decide) (by decide), hne (by decide) (by decide)⟩)
  have hs : scanSuffix .TYPE_NULL is = .ok (.TYPE_NULL, is) :=
    scanSuffix_eq_ok.mpr (.inl ⟨hne (by decide) (by decide), rfl, rfl⟩)
  simp [parseNumber, h, hf, he, hs, ne_of_lt hlen, convert, hrest, Exec.fault]

theorem parseNumber_of_scanned {start r : Stream} {type : ValueType} (h : Scanned start type r)
    (ht : type ≠ .TYPE_NULL) (hrest : numberRest type start = some []) :
    parseNumber start = .error (.fault .pastEnd) := by
  have hlen := ne_of_lt h.length_lt
  obtain ⟨is₁, is₂, is₃, frac, exp, h₁, h₂, h₃, h₄⟩ := h.scan ht
  simp [parseNumber, h₁, h₂, h₃, h₄, hlen, convert, hrest, Exec.fault]

/-- An unsuffixed numeral is read past the end of the file. -/
theorem parseNumber_of_unsuffixed {s : Stream} (h : Unsuffixed s) :
    parseNumber s = .error (.fault .pastEnd) := by
  cases h with
  | nonneg h =>
      obtain ⟨r, hr, hlen, hd⟩ := scanNatural_digits h
      have hscan : scanInteger s = .ok r := by
        rw [scanInteger, if_neg (front_ne_of_digits h.2 (by decide) (by decide))]
        exact hr
      exact parseNumber_digits hscan hlen hd (numberRest_digits h)
  | @neg ds h =>
      obtain ⟨r, hr, hlen, hd⟩ := scanNatural_digits h
      have hscan : scanInteger (0x2d :: ds) = .ok r := hr
      refine parseNumber_digits hscan (Nat.lt_succ_of_lt hlen) hd ?_
      rw [numberRest_neg, skipDigits_eq_nil.mpr h.2]
  | @double s f e h =>
      have hend : Numeral.EndsNumeral e [] :=
        ⟨Numeral.noDigit_nil, fun _ c hc ↦ absurd hc (by simp)⟩
      have hscan := Scanned.double h hend (by decide : Stream.front [] ≠ 0x69)
      have hrest : numberRest .TYPE_DOUBLE (s ++ (f ++ (e ++ []))) = some [] :=
        Numeral.strtodRest_append h hend
      rw [show s ++ f ++ e = s ++ (f ++ (e ++ [])) by simp]
      exact parseNumber_of_scanned hscan (by simp) hrest

/-- Every other number is read as from a string. -/
theorem parseNumber_of_not_unsuffixed {s : Stream} (hu : ¬ Unsuffixed s) :
    parseNumber s = Reader.parseNumber s := by
  simp only [parseNumber, Reader.parseNumber]
  refine Exec.bind_congr fun is₁ h₁ ↦ Exec.bind_congr fun p h₂ ↦ ?_
  obtain ⟨frac, is₂⟩ := p
  refine Exec.bind_congr fun p h₃ ↦ ?_
  obtain ⟨exp, is₃⟩ := p
  refine Exec.bind_congr fun p h₄ ↦ ?_
  obtain ⟨type, is₄⟩ := p
  have hrest := numberRest_ne_nil (scanned_of_scan h₁ h₂ h₃ h₄) hu
  simp only [convert, if_neg hrest]

end FileReader

end RpcLearning.Json
