import Mathlib

/-!
# Words as bytes, the highest first

The bytes of a word of `n` bytes in the order of a network, and the word that bytes in this order
denote.
-/

namespace RpcLearning.BigEndian

/-- The lowest `n` bytes of a number, the highest of them first. -/
def bytes : Nat → Nat → List UInt8
  | 0, _ => []
  | n + 1, v => bytes n (v / 256) ++ [UInt8.ofNat v]

/-- The number that bytes denote, the highest first. -/
def value (s : List UInt8) : Nat := s.foldl (fun v c ↦ 256 * v + c.toNat) 0

@[simp] theorem length_bytes (n v : Nat) : (bytes n v).length = n := by
  induction n generalizing v with
  | zero => rfl
  | succ n ih => simp [bytes, ih]

@[simp] theorem value_concat (s : List UInt8) (c : UInt8) :
    value (s ++ [c]) = 256 * value s + c.toNat := by
  simp [value]

theorem value_bytes (n v : Nat) : value (bytes n v) = v % 256 ^ n := by
  induction n generalizing v with
  | zero => simp [bytes, value, Nat.mod_one]
  | succ n ih =>
      have h : (UInt8.ofNat v).toNat = v % 256 := UInt8.toNat_ofNat'
      rw [bytes, value_concat, ih, h, pow_succ' 256 n, Nat.mod_mul, add_comm]

/-! ## Words -/

variable {n : Nat}

/-- A word of `n` bytes in memory. -/
def ofWord (x : BitVec (8 * n)) : List UInt8 := bytes n x.toNat

def toWord (n : Nat) (s : List UInt8) : BitVec (8 * n) := BitVec.ofNat (8 * n) (value s)

@[simp] theorem length_ofWord (x : BitVec (8 * n)) : (ofWord x).length = n := length_bytes _ _

@[simp] theorem toWord_ofWord (x : BitVec (8 * n)) : toWord n (ofWord x) = x := by
  have h256 : 256 ^ n = 2 ^ (8 * n) := by
    rw [pow_mul]
    rfl
  have hlt : x.toNat < 256 ^ n := by
    rw [h256]
    exact x.isLt
  rw [toWord, ofWord, value_bytes, Nat.mod_eq_of_lt hlt, BitVec.ofNat_toNat, BitVec.setWidth_eq]

end RpcLearning.BigEndian
