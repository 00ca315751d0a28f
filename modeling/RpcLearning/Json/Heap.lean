import RpcLearning.Json.Value
import RpcLearning.Lib.Machine
import RpcLearning.Lib.RefCount

/-!
# Values on the heap

A `Value` (`JsonServer/Value.h`) holds a null, a bool, a number, or a pointer to a `Json` block,
which is a string, an array of `Value`s or an object of them.  Copies share the block, and
`refCount` counts the `Value`s that point to it.
-/

namespace RpcLearning.Json

/-- `JsonStr`, `JsonArray` and `JsonObject`. -/
inductive BlockType where
  | str
  | array
  | object
deriving DecidableEq, Repr

abbrev Pointer := Addr BlockType

/-- A `Value`: its `type_`, and the member of its union. -/
inductive Cell where
  | null
  | bool (b_ : Bool)
  | int32 (i32_ : Int32)
  | int64 (i64_ : Int64)
  | double (d_ : Double)
  | ref (p : Pointer)
deriving DecidableEq, Repr

/-- The block that a `Value` points to. -/
def Cell.out : Cell → List Pointer
  | .ref p => [p]
  | _ => []

/-- The `data_` of a `Json` block.  An entry of an object has the key and the value; the text of the
key, which `operator<` compares, stands before them: a string does not change. -/
inductive BlockData where
  | str (data_ : Bytes)
  | array (data_ : List Cell)
  | object (data_ : List (Bytes × Cell × Cell))

namespace BlockData

def type : BlockData → BlockType
  | str _ => .str
  | array _ => .array
  | object _ => .object

def out : BlockData → List Pointer
  | str _ => []
  | array cs => cs.flatMap Cell.out
  | object ms => ms.flatMap fun m ↦ m.2.1.out ++ m.2.2.out

instance instLinkedBlockData : Linked BlockData BlockType := ⟨type, out⟩

/-- The `i`-th element of an array, or the value of the `i`-th member of an object. -/
def get? : BlockData → Nat → Option Cell
  | str _, _ => none
  | array cs, i => cs[i]?
  | object ms, i => ms[i]?.map fun m ↦ m.2.2

def set (i : Nat) (c : Cell) : BlockData → BlockData
  | str s => str s
  | array cs => array (cs.set i c)
  | object ms =>
    match ms[i]? with
    | some (text, key, _) => object (ms.set i (text, key, c))
    | none => object ms

/-- The keys of an object. -/
def texts : BlockData → List Bytes
  | object ms => OrderedMap.keys ms
  | _ => []

end BlockData

/-- The variables that were made, without those that were destroyed, and the blocks. -/
structure Heap where
  vars : List (Option Cell)
  blocks : Store BlockData

/-- Where a `Value` is: a variable, or an element or a member inside a block. -/
inductive Loc where
  | var (n : Nat)
  | inside (p : Pointer) (i : Nat)
deriving DecidableEq, Repr

/-- What a constructor of `Value` is given. -/
inductive Init where
  | null
  | bool (b : Bool)
  | int32 (i32 : Int32)
  | int64 (i64 : Int64)
  | double (d : Double)
  | string (str : Bytes)
  | array
  | object
  | copy (rhs : Loc)
  | move (rhs : Loc)
deriving DecidableEq, Repr

namespace Heap

def empty : Heap := ⟨[], Store.empty⟩

def read (l : Loc) (h : Heap) : Run Cell :=
  match l with
  | .var n =>
    match h.vars[n]?.join with
    | some c => .ok c
    | none => .error .dangling
  | .inside p i =>
    match h.blocks.block? p with
    | some block =>
      match block.data_.get? i with
      | some c => .ok c
      | none => .error .pastEnd
    | none => .error .dangling

def write (l : Loc) (c : Cell) (h : Heap) : Run Heap :=
  match l with
  | .var n =>
    match h.vars[n]?.join with
    | some _ => .ok { h with vars := h.vars.set n (some c) }
    | none => .error .dangling
  | .inside p i =>
    match h.blocks.block? p with
    | some block =>
      match block.data_.get? i with
      | some _ =>
        .ok { h with blocks := h.blocks.put p (some ⟨block.refCount, block.data_.set i c⟩) }
      | none => .error .pastEnd
    | none => .error .dangling

/-- The `incrAndGet` of the block that `c` points to.  The counter is an `atomic_int`.  If it came
round it would count no more, and that is a fault here. -/
def incrAndGet (c : Cell) (h : Heap) : Run Heap :=
  match c with
  | .ref p =>
    match h.blocks.block? p with
    | some block =>
      if block.refCount = 0 then .error .assertion
      else if block.refCount + 1 < 2 ^ 31 then
        .ok { h with blocks := h.blocks.put p (some ⟨block.refCount + 1, block.data_⟩) }
      else .error .overflow
    | none => .error .dangling
  | _ => .ok h

/-- What `~Value()` does to the blocks: a block that is not pointed to any more is deleted, and its
`Value`s are destroyed in their order. -/
def drop (c : Cell) (h : Heap) : Run Heap := do
  let blocks ← h.blocks.release (c.out.length + h.blocks.refs.length) c.out
  .ok { h with blocks }

/-- `this->~Value()`; what is left in the place counts for nothing. -/
def destroy (this : Loc) (h : Heap) : Run Heap := do
  let c ← h.read this
  let h ← h.write this .null
  h.drop c

def alloc (d : BlockData) (h : Heap) : Cell × Heap :=
  (.ref (h.blocks.alloc d).1, { h with blocks := (h.blocks.alloc d).2 })

/-- The constructors of `Value`. -/
def construct (init : Init) (h : Heap) : Run (Cell × Heap) :=
  match init with
  | .null => .ok (.null, h)
  | .bool b => .ok (.bool b, h)
  | .int32 i32 => .ok (.int32 i32, h)
  | .int64 i64 => .ok (.int64 i64, h)
  | .double d => .ok (.double d, h)
  | .string str => .ok (h.alloc (.str str))
  | .array => .ok (h.alloc (.array []))
  | .object => .ok (h.alloc (.object []))
  | .copy rhs => do
    let c ← h.read rhs
    let h ← h.incrAndGet c
    .ok (c, h)
  | .move rhs => do
    let c ← h.read rhs
    let h ← h.write rhs .null
    .ok (c, h)

/-! ## Operations -/

/-- A variable is made. -/
def make (init : Init) (h : Heap) : Run Heap := do
  let (c, h) ← h.construct init
  .ok { h with vars := h.vars ++ [some c] }

/-- A variable goes out of scope. -/
def unmake (n : Nat) (h : Heap) : Run Heap := do
  let c ← h.read (.var n)
  drop c { h with vars := h.vars.set n none }

/-- `operator=(Value& rhs)` -/
def assign (this rhs : Loc) (h : Heap) : Run Heap :=
  if this = rhs then .error .assertion
  else do
    let h ← h.destroy this
    let c ← h.read rhs
    let h ← h.write this c
    h.incrAndGet c

/-- `operator=(Value&& rhs)` -/
def moveAssign (this rhs : Loc) (h : Heap) : Run Heap :=
  if this = rhs then .error .assertion
  else do
    let h ← h.destroy this
    let c ← h.read rhs
    let h ← h.write this c
    h.write rhs .null

/-- `setNull()` and the others: `this->~Value()`, and a placement new. -/
def set (this : Loc) (init : Init) (h : Heap) : Run Heap := do
  let h ← h.destroy this
  let (c, h) ← h.construct init
  h.write this c

/-- A vector gets more room: its elements are copied, since the move constructor is not `noexcept`,
and the old ones are destroyed. -/
def reallocate (cs : List Cell) (h : Heap) : Run Heap := do
  let h ← cs.foldlM (fun h c ↦ h.incrAndGet c) h
  cs.foldlM (fun h c ↦ h.drop c) h

/-- `array_->data_.emplace_back(args)`.  A vector that is full is reallocated after the new element
is constructed. -/
def addValue (this : Loc) (args : Init) (full : Bool) (h : Heap) : Run Heap := do
  match ← h.read this with
  | .ref p =>
    if p.kind = .array then do
      let (c, h) ← h.construct args
      match h.blocks.block? p with
      | some ⟨_, .array cs⟩ => do
        let h ← if full then h.reallocate cs else .ok h
        match h.blocks.block? p with
        | some block =>
          .ok { h with blocks := h.blocks.put p (some ⟨block.refCount, .array (cs ++ [c])⟩) }
        | none => .error .dangling
      | _ => .error .dangling
    else .error .assertion
  | _ => .error .assertion

/-- The text of a string. -/
def getString (c : Cell) (h : Heap) : Run Bytes :=
  match c with
  | .ref p =>
    match h.blocks.block? p with
    | some ⟨_, .str s⟩ => .ok s
    | some _ => .error .assertion
    | none => .error .dangling
  | _ => .error .assertion

/-- `addMember(Value&& key, args)`.  The overload for a `std::string` makes a `Value` of it that
goes out of scope afterwards. -/
def addMember (this key : Loc) (args : Init) (h : Heap) : Run Heap := do
  match ← h.read this with
  | .ref p =>
    match h.blocks.block? p with
    | some ⟨_, .object ms⟩ => do
      let k ← h.read key
      let text ← h.getString k
      if text ∈ OrderedMap.keys ms then .error .assertion
      else do
        -- the pair is constructed from both arguments
        let h ← h.write key .null
        let (c, h) ← h.construct args
        match h.blocks.block? p with
        | some ⟨refCount, .object ms⟩ =>
          let ms := OrderedMap.emplace text (k, c) ms
          .ok { h with blocks := h.blocks.put p (some ⟨refCount, .object ms⟩) }
        | _ => .error .dangling
    | some _ => .error .assertion
    | none => .error .dangling
  | _ => .error .assertion

end Heap

/-- The operations on `Value`s, at any place of a live `Value`.  Whether the vector of an array is
full depends on how the library lets it grow. -/
inductive HeapStep where
  | make (init : Init)
  | unmake (n : Nat)
  | assign (this rhs : Loc)
  | moveAssign (this rhs : Loc)
  | set (this : Loc) (init : Init)
  | addValue (this : Loc) (args : Init) (full : Bool)
  | addMember (this key : Loc) (args : Init)
deriving DecidableEq, Repr

namespace Heap

/-- There is a `Value`. -/
def Live (h : Heap) (l : Loc) : Prop := ∃ c, h.read l = .ok c

/-- A `Value` that is copied or moved is there. -/
def Given (h : Heap) : Init → Prop
  | .copy rhs => h.Live rhs
  | .move rhs => h.Live rhs
  | _ => True

/-- The place has a `Value` of the type. -/
def HasType (h : Heap) (l : Loc) (type : BlockType) : Prop :=
  ∃ p : Pointer, p.kind = type ∧ h.read l = .ok (.ref p)

/-- The callers keep the assertions on types, on self-assignment and on members that are there. -/
def enabled (h : Heap) : HeapStep → Prop
  | .make init => h.Given init
  | .unmake n => h.Live (.var n)
  | .assign this rhs => h.Live this ∧ h.Live rhs ∧ this ≠ rhs
  | .moveAssign this rhs => h.Live this ∧ h.Live rhs ∧ this ≠ rhs
  | .set this init => h.Live this ∧ (∀ rhs, init ≠ .copy rhs) ∧ ∀ rhs, init ≠ .move rhs
  | .addValue this args _ => h.HasType this .array ∧ h.Given args
  | .addMember this key args => h.HasType this .object ∧ h.HasType key .str ∧ h.Given args ∧
      ∀ p q block text, h.read this = .ok (.ref p) → h.blocks.block? p = some block →
        h.read key = .ok (.ref q) → h.getString (.ref q) = .ok text → text ∉ block.data_.texts

def perform (h : Heap) : HeapStep → Run Heap
  | .make init => h.make init
  | .unmake n => h.unmake n
  | .assign this rhs => h.assign this rhs
  | .moveAssign this rhs => h.moveAssign this rhs
  | .set this init => h.set this init
  | .addValue this args full => h.addValue this args full
  | .addMember this key args => h.addMember this key args

def machine : Machine Heap HeapStep := ⟨enabled, perform⟩

end Heap

end RpcLearning.Json
