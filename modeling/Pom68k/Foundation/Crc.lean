import Pom68k.Foundation.Serial

/-! # Cyclic redundancy checks of sixteen bits

A register is shifted bit by bit. Octets may be mixed in whole or one bit at a time, and a
message with its own check behind it leaves nothing.
-/

namespace Pom68k.Foundation

variable (poly : BitVec 16)

/-- One shift of the register. -/
def crcShift (crc : BitVec 16) : BitVec 16 :=
  if crc.msb then crc <<< 1 ^^^ poly else crc <<< 1

/-- One bit of the message. -/
def crcBit (crc : BitVec 16) (bit : Bool) : BitVec 16 :=
  if crc.msb ^^ bit then crc <<< 1 ^^^ poly else crc <<< 1

/-- One octet of the message, mixed in at the top and shifted through. -/
def crcOctet (crc : BitVec 16) (octet : BitVec 8) : BitVec 16 :=
  (crcShift poly)^[8] (crc ^^^ octet.setWidth 16 <<< 8)

def crcOctets (crc : BitVec 16) (octets : List (BitVec 8)) : BitVec 16 :=
  octets.foldl (crcOctet poly) crc

variable {poly}

theorem up_shift (octet : BitVec 8) :
    (octet.setWidth 16 <<< 8) <<< 1 = (octet <<< 1).setWidth 16 <<< 8 := by
  decide +revert

theorem msb_up (octet : BitVec 8) : (octet.setWidth 16 <<< 8).msb = octet.msb := by
  decide +revert

variable (crc : BitVec 16)

/-- A shift takes the top bit of an octet in and moves the others up. -/
theorem crcShift_up (octet : BitVec 8) :
    crcShift poly (crc ^^^ octet.setWidth 16 <<< 8) =
      crcBit poly crc octet.msb ^^^ (octet <<< 1).setWidth 16 <<< 8 := by
  rw [crcShift, crcBit, BitVec.msb_xor, msb_up, BitVec.shiftLeft_xor_distrib, up_shift]
  split_ifs
  · rw [BitVec.xor_assoc, BitVec.xor_assoc, BitVec.xor_comm poly]
  · rfl

theorem crcShift_iterate (octet : BitVec 8) (k : Nat) :
    (crcShift poly)^[k] (crc ^^^ octet.setWidth 16 <<< 8) =
      ((List.range k).map octet.getMsbD).foldl (crcBit poly) crc ^^^
        (octet <<< k).setWidth 16 <<< 8 := by
  induction k with
  | zero => simp
  | succ k ih =>
    have top : (octet <<< k).msb = octet.getMsbD k := by
      simp
    rw [Function.iterate_succ_apply', ih, crcShift_up, top, ← BitVec.shiftLeft_add,
      List.range_succ, List.map_append, List.foldl_append]
    rfl

/-- Octet by octet is bit by bit. -/
theorem crcOctet_eq (octet : BitVec 8) :
    crcOctet poly crc octet = (msbFirst octet).foldl (crcBit poly) crc := by
  have gone : (octet <<< 8).setWidth 16 <<< 8 = 0#16 := by
    rw [BitVec.shiftLeft_eq_zero (Nat.le_refl 8), BitVec.setWidth_zero, BitVec.zero_shiftLeft]
  rw [crcOctet, crcShift_iterate, gone, BitVec.xor_zero, msbFirst]

/-- An octet at the bottom moves up unchanged. -/
theorem crcShift_low (octet : BitVec 8) :
    (crcShift poly)^[8] (octet.setWidth 16) = octet.setWidth 16 <<< 8 := by
  have clear (k : Nat) (small : k < 8) : (octet.setWidth 16 <<< k).msb = false := by
    rw [BitVec.msb_eq_getLsbD_last, BitVec.getLsbD_shiftLeft, BitVec.getLsbD_setWidth,
      BitVec.getLsbD_of_ge octet (16 - 1 - k) (by omega), Bool.and_false, Bool.and_false]
  have moved (k : Nat) (small : k ≤ 8) :
      (crcShift poly)^[k] (octet.setWidth 16) = octet.setWidth 16 <<< k := by
    induction k with
    | zero => simp
    | succ k ih =>
      rw [Function.iterate_succ_apply', ih (by omega), crcShift, clear k (by omega),
        if_neg Bool.false_ne_true, ← BitVec.shiftLeft_add]
  exact moved 8 (Nat.le_refl _)

/-- A check behind its message clears the register. -/
theorem crcOctets_self : crcOctets poly crc [(crc >>> 8).setWidth 8, crc.setWidth 8] = 0#16 := by
  have low : crc ^^^ ((crc >>> 8).setWidth 8).setWidth 16 <<< 8 = (crc.setWidth 8).setWidth 16 := by
    refine BitVec.eq_of_getLsbD_eq fun i inside => ?_
    by_cases small : i < 8
    · simp [small, inside]
    · have : 8 + (i - 8) = i := by omega
      simp [small, inside, this, show i - 8 < 8 by omega]
  have zero : (crcShift poly)^[8] 0#16 = 0#16 := crcShift_low 0#8
  rw [crcOctets, List.foldl_cons, List.foldl_cons, List.foldl_nil, crcOctet, crcOctet, low,
    crcShift_low, BitVec.xor_self, zero]

end Pom68k.Foundation
