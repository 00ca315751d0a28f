import RpcLearning.Lib.Exec
import RpcLearning.Lib.OrderedMap

/-!
# JSON values

`json::Value` (`JsonServer/Value.h`) as a tree.  The blocks that copies of a value share through
their reference counts are invisible to the operations below, so a value is modelled by what it
denotes.  An object is the entry list of its `std::map`, in the map's order: `operator<` compares
keys as `std::string`s, which is the lexicographic order on bytes.
-/

namespace RpcLearning.Json

abbrev Bytes := List UInt8

/-- Bytes in the order `std::char_traits` compares them: as unsigned numbers. -/
instance instLinearOrderByte : LinearOrder UInt8 where
  le_refl := UInt8.le_refl
  le_trans _ _ _ := UInt8.le_trans
  lt_iff_le_not_ge a b := by
    simp only [UInt8.lt_iff_toNat_lt, UInt8.le_iff_toNat_le]
    omega
  le_antisymm _ _ := UInt8.le_antisymm
  le_total := UInt8.le_total
  toDecidableLE := inferInstance

/-- The bytes of an ASCII literal of the source. -/
def lit (s : String) : Bytes := s.toList.map Char.toUInt8

/-- An IEEE 754 double, by its bit pattern. -/
structure Double where
  bits : UInt64
deriving DecidableEq, Repr

/-- The conversions between doubles and text that the C library supplies.  `strtod` is given the
characters it converts, as delimited by `Reader`, and answers nothing when it sets `ERANGE`. -/
class DoubleText where
  strtod : Bytes → Option Double
  to_string : Double → Bytes

/-- Conversions that serve where no double occurs. -/
@[reducible] def noDoubles : DoubleText where
  strtod _ := none
  to_string _ := []

inductive ValueType where
  | TYPE_NULL
  | TYPE_BOOL
  | TYPE_INT32
  | TYPE_INT64
  | TYPE_DOUBLE
  | TYPE_STRING
  | TYPE_ARRAY
  | TYPE_OBJECT
deriving DecidableEq, Repr

inductive Value where
  | null
  | bool (b : Bool)
  | int32 (i : Int32)
  | int64 (i : Int64)
  | double (d : Double)
  | string (s : Bytes)
  | array (xs : List Value)
  | object (ms : List (Bytes × Value))
deriving Repr

instance : Inhabited Value := ⟨.null⟩

/-- Induction on values: a container holds for what holds for everything in it. -/
@[elab_as_elim]
theorem Value.induction {motive : Value → Prop} (null : motive .null)
    (bool : ∀ b, motive (.bool b)) (int32 : ∀ i, motive (.int32 i))
    (int64 : ∀ i, motive (.int64 i)) (double : ∀ d, motive (.double d))
    (string : ∀ s, motive (.string s)) (array : ∀ xs, (∀ x ∈ xs, motive x) → motive (.array xs))
    (object : ∀ ms, (∀ m ∈ ms, motive m.2) → motive (.object ms)) (v : Value) : motive v :=
  @Value.rec motive (fun xs ↦ ∀ x ∈ xs, motive x) (fun ms ↦ ∀ m ∈ ms, motive m.2)
    (fun m ↦ motive m.2) null bool int32 int64 double string array object
    (fun _ h ↦ nomatch h)
    (fun _ _ hx hxs _ h ↦ (List.mem_cons.mp h).elim (fun he ↦ he ▸ hx) (hxs _))
    (fun _ h ↦ nomatch h)
    (fun _ _ hm hms _ h ↦ (List.mem_cons.mp h).elim (fun he ↦ he ▸ hm) (hms _))
    (fun _ _ h ↦ h) v

namespace Value

def getType : Value → ValueType
  | .null => .TYPE_NULL
  | .bool _ => .TYPE_BOOL
  | .int32 _ => .TYPE_INT32
  | .int64 _ => .TYPE_INT64
  | .double _ => .TYPE_DOUBLE
  | .string _ => .TYPE_STRING
  | .array _ => .TYPE_ARRAY
  | .object _ => .TYPE_OBJECT

def getSize : Value → Nat
  | .array xs => xs.length
  | .object ms => ms.length
  | _ => 1

/-- The members of an object.  The source reads the union field without a check, so on another
type the result means nothing; there is no member then. -/
def members : Value → List (Bytes × Value)
  | .object ms => ms
  | _ => []

/-- `object_->data_.find(key)` -/
def find (v : Value) (key : Bytes) : Option Value := OrderedMap.find key v.members

def hasMember (v : Value) (key : Bytes) : Bool := (v.find key).isSome

/-- `operator[](const std::string&)`: both assertions, then the member. -/
def get (v : Value) (key : Bytes) : Run Value :=
  match v with
  | .object _ =>
    match v.find key with
    | some m => .ok m
    | none => .error .assertion
  | _ => .error .assertion

def getInt32 : Value → Run Int32
  | .int32 i => .ok i
  | _ => .error .assertion

def getString : Value → Run Bytes
  | .string s => .ok s
  | _ => .error .assertion

def getArray : Value → Run (List Value)
  | .array xs => .ok xs
  | _ => .error .assertion

/-- `getObject`: the members in the order of the map. -/
def getObject : Value → Run (List (Bytes × Value))
  | .object ms => .ok ms
  | _ => .error .assertion

/-- The elements that `operator[](size_t)` gives for the indices below `getSize()`. -/
def items : Value → List Value
  | .array xs => xs
  | _ => []

/-- `addValue`: asserts the type, then `emplace_back`. -/
def addValue (v x : Value) : Run Value :=
  match v with
  | .array xs => .ok (.array (xs ++ [x]))
  | _ => .error .assertion

/-- `addMember`: asserts the type and the absence of the key, then `emplace`.  Comparing keys runs
`getString`, which asserts that the key is a string. -/
def addMember (v key x : Value) : Run Value :=
  match v, key with
  | .object ms, .string k =>
    if v.hasMember k then .error .assertion else .ok (.object (OrderedMap.emplace k x ms))
  | _, _ => .error .assertion

@[simp] theorem members_object (ms : List (Bytes × Value)) : (object ms).members = ms := rfl

@[simp] theorem getSize_object (ms : List (Bytes × Value)) : (object ms).getSize = ms.length := rfl

theorem get_of_find {v x : Value} {key : Bytes} (h : v.find key = some x) : v.get key = .ok x := by
  cases v with
  | object ms => simp only [get, h]
  | _ => simp [find, members] at h

theorem find_of_hasMember {v : Value} {key : Bytes} (h : v.hasMember key) :
    ∃ x, v.find key = some x := Option.isSome_iff_exists.mp h

theorem getType_eq_int32 {v : Value} (h : v.getType = .TYPE_INT32) : ∃ i, v = .int32 i := by
  cases v with
  | int32 i => exact ⟨i, rfl⟩
  | _ => cases h

theorem getType_eq_string {v : Value} (h : v.getType = .TYPE_STRING) : ∃ s, v = .string s := by
  cases v with
  | string s => exact ⟨s, rfl⟩
  | _ => cases h

theorem getType_eq_object {v : Value} (h : v.getType = .TYPE_OBJECT) : ∃ ms, v = .object ms := by
  cases v with
  | object ms => exact ⟨ms, rfl⟩
  | _ => cases h

@[simp] theorem addValue_array (xs : List Value) (x : Value) :
    addValue (.array xs) x = .ok (.array (xs ++ [x])) := rfl

theorem hasMember_object {ms : List (Bytes × Value)} {k : Bytes} :
    (object ms).hasMember k ↔ k ∈ OrderedMap.keys ms := OrderedMap.find_isSome

theorem addMember_of_notMem {ms : List (Bytes × Value)} {k : Bytes} {x : Value}
    (h : k ∉ OrderedMap.keys ms) :
    addMember (.object ms) (.string k) x = .ok (.object (OrderedMap.emplace k x ms)) := by
  have hk : ¬ (object ms).hasMember k := fun hc ↦ h (hasMember_object.mp hc)
  simp [addMember, hk]

theorem addMember_of_mem {ms : List (Bytes × Value)} {k : Bytes} {x : Value}
    (h : k ∈ OrderedMap.keys ms) :
    addMember (.object ms) (.string k) x = .error .assertion := by
  have hk : (object ms).hasMember k := hasMember_object.mpr h
  simp [addMember, hk]

/-- Every object in the tree lists its members in the order of its map. -/
inductive WellFormed : Value → Prop
  | null : WellFormed .null
  | bool (b : Bool) : WellFormed (.bool b)
  | int32 (i : Int32) : WellFormed (.int32 i)
  | int64 (i : Int64) : WellFormed (.int64 i)
  | double (d : Double) : WellFormed (.double d)
  | string (s : Bytes) : WellFormed (.string s)
  | array {xs : List Value} (h : ∀ x ∈ xs, WellFormed x) : WellFormed (.array xs)
  | object {ms : List (Bytes × Value)} (hs : OrderedMap.Sorted ms)
      (h : ∀ m ∈ ms, WellFormed m.2) : WellFormed (.object ms)

end Value

end RpcLearning.Json
