import Mathlib.Algebra.Ring.Nat

/-!
# Little-endian bytes

The bytes of an integer of fixed width, from the least significant one on, and the integer read back
from them.
-/

namespace Gqe.LittleEndian

/-- The `n` least significant bytes of a number. -/
def bytesOfNat : Nat → Nat → List UInt8
  | 0, _ => []
  | n + 1, v => UInt8.ofNat v :: bytesOfNat n (v / 256)

/-- The number with the given bytes. -/
def natOfBytes : List UInt8 → Nat
  | [] => 0
  | b :: bs => b.toNat + 256 * natOfBytes bs

@[simp] lemma length_bytesOfNat (n v : Nat) : (bytesOfNat n v).length = n := by
  induction n generalizing v with
  | zero => rfl
  | succ n ih => rw [bytesOfNat, List.length_cons, ih]

lemma natOfBytes_bytesOfNat (n v : Nat) : natOfBytes (bytesOfNat n v) = v % 256 ^ n := by
  induction n generalizing v with
  | zero => rw [bytesOfNat, natOfBytes, pow_zero, Nat.mod_one]
  | succ n ih =>
    have hbyte : (UInt8.ofNat v).toNat = v % 256 := UInt8.toNat_ofNat'
    rw [bytesOfNat, natOfBytes, ih, hbyte, pow_succ', Nat.mod_mul]

lemma natOfBytes_lt (bytes : List UInt8) : natOfBytes bytes < 256 ^ bytes.length := by
  induction bytes with
  | nil => simp [natOfBytes]
  | cons b bytes ih =>
    have hb := b.toNat_lt
    rw [natOfBytes, List.length_cons]
    omega

/-- The bytes of an integer of `n` bytes. -/
def toBytes {n : Nat} (v : BitVec (8 * n)) : List UInt8 := bytesOfNat n v.toNat

/-- Read an integer of `n` bytes, `none` if there are fewer. -/
def ofBytes (n : Nat) (bytes : List UInt8) : Option (BitVec (8 * n)) :=
  if n ≤ bytes.length then some (.ofNat _ (natOfBytes (bytes.take n))) else none

/-- An integer is read back from its bytes. -/
theorem ofBytes_toBytes {n : Nat} (v : BitVec (8 * n)) : ofBytes n (toBytes v) = some v := by
  have hlen : (toBytes v).length = n := length_bytesOfNat n v.toNat
  have hwidth : 256 ^ n = 2 ^ (8 * n) := (pow_mul 2 8 n).symm
  rw [ofBytes, if_pos (Nat.le_of_eq hlen.symm), List.take_of_length_le (Nat.le_of_eq hlen),
    toBytes, natOfBytes_bytesOfNat, hwidth, Nat.mod_eq_of_lt v.isLt, BitVec.ofNat_toNat,
    BitVec.setWidth_eq]

end Gqe.LittleEndian
