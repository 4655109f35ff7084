import Mathlib.Data.BitVec

/-! # Little-endian words

Words as sequences of bytes, the low byte first.
-/

namespace Pom68k.Foundation

variable {w : Nat}

/-- The first bytes of a word. -/
def putBytes (n : Nat) (v : BitVec w) : List (BitVec 8) :=
  (List.range n).map fun i => (v >>> (8 * i)).setWidth 8

/-- The word of a sequence of bytes. -/
def getBytes (w : Nat) : List (BitVec 8) → BitVec w
  | [] => 0#w
  | byte :: rest => byte.setWidth w ||| getBytes w rest <<< 8

@[simp] theorem length_putBytes (n : Nat) (v : BitVec w) : (putBytes n v).length = n := by
  rw [putBytes, List.length_map, List.length_range]

theorem getLsbD_getBytes (bytes : List (BitVec 8)) (j : Nat) :
    (getBytes w bytes).getLsbD j = (decide (j < w) && (bytes.getD (j / 8) 0#8).getLsbD (j % 8)) := by
  induction bytes generalizing j with
  | nil => simp [getBytes]
  | cons byte rest ih =>
    rw [getBytes, BitVec.getLsbD_or, BitVec.getLsbD_setWidth, BitVec.getLsbD_shiftLeft]
    by_cases low : j < 8
    · have first : j / 8 = 0 := by omega
      have offset : j % 8 = j := by omega
      rw [first, offset]
      simp [low]
    · have later : j / 8 = (j - 8) / 8 + 1 := by omega
      have offset : j % 8 = (j - 8) % 8 := by omega
      have high : byte.getLsbD j = false := BitVec.getLsbD_of_ge _ _ (by omega)
      rw [ih, later, offset, List.getD_cons_succ, high]
      by_cases inside : j < w
      · simp [low, show j - 8 < w by omega]
      · simp [inside]

/-- A word can be read back from its bytes. -/
theorem getBytes_putBytes {n : Nat} (v : BitVec w) (wide : w ≤ 8 * n) :
    getBytes w (putBytes n v) = v := by
  refine BitVec.eq_of_getLsbD_eq fun j inside => ?_
  have byte : j / 8 < n := by omega
  have there : (putBytes n v).getD (j / 8) 0#8 = (v >>> (8 * (j / 8))).setWidth 8 := by
    rw [putBytes, List.getD_eq_getElem?_getD, List.getElem?_map, List.getElem?_range byte]
    rfl
  have small : j % 8 < 8 := Nat.mod_lt _ (by decide)
  have position : 8 * (j / 8) + j % 8 = j := Nat.div_add_mod j 8
  rw [getLsbD_getBytes, there, BitVec.getLsbD_setWidth, BitVec.getLsbD_ushiftRight, position]
  simp [inside, small]

/-- The bytes of a word are the bytes it was read from. -/
theorem putBytes_getBytes {n : Nat} {bytes : List (BitVec 8)} (size : bytes.length = n)
    (narrow : 8 * n ≤ w) : putBytes n (getBytes w bytes) = bytes := by
  refine List.ext_getElem (by rw [length_putBytes, size]) fun i inside there => ?_
  simp only [putBytes, List.getElem_map, List.getElem_range]
  refine BitVec.eq_of_getLsbD_eq fun j low => ?_
  have word : 8 * i + j < w := by omega
  have byte : (8 * i + j) / 8 = i := by omega
  have offset : (8 * i + j) % 8 = j := by omega
  rw [BitVec.getLsbD_setWidth, BitVec.getLsbD_ushiftRight, getLsbD_getBytes, byte, offset,
    List.getD_eq_getElem?_getD, List.getElem?_eq_getElem there]
  simp [low, word]

end Pom68k.Foundation
