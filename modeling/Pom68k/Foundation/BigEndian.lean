import Mathlib.Data.BitVec

/-! # Big-endian numbers

Numbers as sequences of bytes, the high byte first.
-/

namespace Pom68k.Foundation

/-- The last bytes of a number. -/
def bigEndian : Nat → Nat → List (BitVec 8)
  | 0, _ => []
  | n + 1, v => bigEndian n (v / 256) ++ [BitVec.ofNat 8 v]

/-- The number of a sequence of bytes. -/
def number (bytes : List (BitVec 8)) : Nat := bytes.foldl (fun v byte => v * 256 + byte.toNat) 0

@[simp] theorem length_bigEndian (n v : Nat) : (bigEndian n v).length = n := by
  induction n generalizing v with
  | zero => rfl
  | succ n ih => rw [bigEndian, List.length_append, ih, List.length_singleton]

theorem number_concat (bytes : List (BitVec 8)) (byte : BitVec 8) :
    number (bytes ++ [byte]) = number bytes * 256 + byte.toNat := by
  rw [number, List.foldl_append]
  rfl

theorem number_bigEndian (n v : Nat) : number (bigEndian n v) = v % 256 ^ n := by
  induction n generalizing v with
  | zero => rw [Nat.pow_zero, Nat.mod_one]; rfl
  | succ n ih =>
    have low : v % 256 ^ (n + 1) = v % 256 + 256 * (v / 256 % 256 ^ n) := by
      rw [Nat.pow_succ, Nat.mul_comm (256 ^ n), Nat.mod_mul]
    rw [bigEndian, number_concat, ih, BitVec.toNat_ofNat]
    omega

/-- A number that fits is read back from its bytes. -/
theorem number_bigEndian_of_lt {n v : Nat} (fits : v < 256 ^ n) : number (bigEndian n v) = v := by
  rw [number_bigEndian, Nat.mod_eq_of_lt fits]

theorem number_lt (bytes : List (BitVec 8)) : number bytes < 256 ^ bytes.length := by
  induction bytes using List.reverseRecOn with
  | nil => exact Nat.one_pos
  | append_singleton bytes byte ih =>
    rw [number_concat, List.length_append, List.length_singleton]
    omega

end Pom68k.Foundation
