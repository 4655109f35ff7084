import Pom68k.Foundation.LittleEndian
import Mathlib.Tactic.IntervalCases

/-! # The archive of save states

A writer appends fixed-width words, buffers of known size and variable-length
integers to a byte string. A reader takes them off again; a read past the end sets
its failure flag and yields zeros, and the first reason given for a refusal stays.
-/

namespace Pom68k.Disk

open Foundation

abbrev Byte := BitVec 8

/-- A buffer whose size is known from its context. -/
abbrev Block (n : Nat) := { bytes : List Byte // bytes.length = n }

/-- `Writer::varint`: seven bits a byte, the low ones first, with the top bit set in
every byte but the last. Ten bytes hold any word. -/
def putVarint : Nat → BitVec 64 → List Byte
  | 0, _ => []
  | fuel + 1, v =>
    if v >>> 7 = 0#64 then [(v &&& 0x7F#64).setWidth 8]
    else ((v &&& 0x7F#64).setWidth 8 ||| 0x80#8) :: putVarint fuel (v >>> 7)

def varintBytes (v : BitVec 64) : List Byte := putVarint 10 v

/-- A reader: the bytes after its cursor, whether every read succeeded, and the reason
of the refusal if one was given. -/
structure Reader where
  rest : List Byte
  ok : Bool
  reason : String
deriving DecidableEq

namespace Reader

def fail (r : Reader) : Reader := { r with ok := false }

def failWith (r : Reader) (why : String) : Reader :=
  { r with ok := false, reason := if r.ok && r.reason.isEmpty then why else r.reason }

/-- `Reader::bytes`. -/
def bytes (r : Reader) (n : Nat) : Block n × Reader :=
  if there : r.ok = true ∧ n ≤ r.rest.length then
    (⟨r.rest.take n, by rw [List.length_take]; exact Nat.min_eq_left there.2⟩,
      { r with rest := r.rest.drop n })
  else (⟨List.replicate n 0#8, List.length_replicate⟩, r.fail)

/-- An unsigned integer of `n` bytes. -/
def word (w n : Nat) (r : Reader) : BitVec w × Reader :=
  (getBytes w (r.bytes n).1.1, (r.bytes n).2)

def varintLoop : Nat → Nat → BitVec 64 → Reader → BitVec 64 × Reader
  | 0, _, _, r => (0#64, r.fail)
  | fuel + 1, shift, v, r =>
    match r.word 8 1 with
    | (byte, r') =>
      if r'.ok = false then (0#64, r')
      else
        let v' := v ||| (byte &&& 0x7F#8).setWidth 64 <<< shift
        if byte &&& 0x80#8 = 0#8 then (v', r') else varintLoop fuel (shift + 7) v' r'

/-- `Reader::varint`: at most ten bytes are read. -/
def varint (r : Reader) : BitVec 64 × Reader := varintLoop 10 0 0#64 r

theorem bytes_append {n : Nat} (block : Block n) (rest : List Byte) (why : String) :
    (⟨block.1 ++ rest, true, why⟩ : Reader).bytes n = (block, ⟨rest, true, why⟩) := by
  obtain ⟨written, rfl⟩ := block
  have there : (⟨written ++ rest, true, why⟩ : Reader).ok = true ∧
      written.length ≤ (⟨written ++ rest, true, why⟩ : Reader).rest.length :=
    ⟨rfl, by rw [List.length_append]; omega⟩
  rw [bytes, dif_pos there]
  simp only [List.take_left, List.drop_left]

/-- A word that was written is read back, and only its bytes are taken. -/
theorem word_putBytes {w n : Nat} (v : BitVec w) (wide : w ≤ 8 * n) (rest : List Byte)
    (why : String) :
    (⟨putBytes n v ++ rest, true, why⟩ : Reader).word w n = (v, ⟨rest, true, why⟩) := by
  have read := bytes_append ⟨putBytes n v, length_putBytes n v⟩ rest why
  rw [word, read, getBytes_putBytes v wide]

theorem word_byte (byte : Byte) (rest : List Byte) (why : String) :
    (⟨byte :: rest, true, why⟩ : Reader).word 8 1 = (byte, ⟨rest, true, why⟩) := by
  have read : (⟨byte :: rest, true, why⟩ : Reader).bytes 1 = (⟨[byte], rfl⟩, ⟨rest, true, why⟩) :=
    bytes_append ⟨[byte], rfl⟩ rest why
  rw [word, read]
  simp [getBytes]

end Reader

theorem getLsbD_low_bits (j : Nat) : (0x7F#64).getLsbD j = decide (j < 7) := by
  by_cases inside : j < 64
  · interval_cases j <;> rfl
  · rw [BitVec.getLsbD_of_ge _ _ (by omega), eq_comm, decide_eq_false_iff_not]
    omega

variable (v : BitVec 64)

theorem and_low_bits (j : Nat) : (v &&& 0x7F#64).getLsbD j = (v.getLsbD j && decide (j < 7)) := by
  rw [BitVec.getLsbD_and, getLsbD_low_bits]

theorem low_eq : v &&& 0x7F#64 = (v.setWidth 7).setWidth 64 := by
  refine BitVec.eq_of_getLsbD_eq fun j inside => ?_
  rw [and_low_bits, BitVec.getLsbD_setWidth, BitVec.getLsbD_setWidth]
  simp [inside, Bool.and_comm]

/-- The low bits of a continuation byte are those of the word. -/
theorem continuation_low :
    (((v &&& 0x7F#64).setWidth 8 ||| 0x80#8) &&& 0x7F#8).setWidth 64 = v &&& 0x7F#64 := by
  rw [low_eq]
  generalize v.setWidth 7 = low
  decide +revert

theorem last_low : ((v &&& 0x7F#64).setWidth 8 &&& 0x7F#8).setWidth 64 = v &&& 0x7F#64 := by
  rw [low_eq]
  generalize v.setWidth 7 = low
  decide +revert

theorem continuation_top : ((v &&& 0x7F#64).setWidth 8 ||| 0x80#8) &&& 0x80#8 ≠ 0#8 := by
  rw [low_eq]
  generalize v.setWidth 7 = low
  decide +revert

theorem last_top : (v &&& 0x7F#64).setWidth 8 &&& 0x80#8 = 0#8 := by
  rw [low_eq]
  generalize v.setWidth 7 = low
  decide +revert

/-- A word is its low bits and the rest of it, put in place. -/
theorem low_or_high (shift : Nat) :
    (v &&& 0x7F#64) <<< shift ||| (v >>> 7) <<< (shift + 7) = v <<< shift := by
  refine BitVec.eq_of_getLsbD_eq fun j inside => ?_
  rw [BitVec.getLsbD_or, BitVec.getLsbD_shiftLeft, and_low_bits, BitVec.getLsbD_shiftLeft,
    BitVec.getLsbD_shiftLeft]
  by_cases below : j < shift
  · simp [below, show j < shift + 7 by omega]
  · by_cases low : j - shift < 7
    · simp [low, show j < shift + 7 by omega]
    · have position : 7 + (j - (shift + 7)) = j - shift := by omega
      simp [below, low, show ¬ j < shift + 7 by omega, position]

theorem low_of_no_high {v : BitVec 64} (short : v >>> 7 = 0#64) : v &&& 0x7F#64 = v := by
  refine BitVec.eq_of_getLsbD_eq fun j inside => ?_
  rw [and_low_bits]
  by_cases low : j < 7
  · simp [low]
  · have bit := congrArg (BitVec.getLsbD · (j - 7)) short
    rw [BitVec.getLsbD_ushiftRight, show 7 + (j - 7) = j by omega] at bit
    simpa [low] using bit

theorem varintLoop_last (fuel shift : Nat) {v : BitVec 64} (acc : BitVec 64) (rest : List Byte)
    (why : String) (last : v >>> 7 = 0#64) :
    Reader.varintLoop (fuel + 1) shift acc ⟨(v &&& 0x7F#64).setWidth 8 :: rest, true, why⟩ =
      (acc ||| v <<< shift, ⟨rest, true, why⟩) := by
  rw [Reader.varintLoop, Reader.word_byte]
  simp only [Bool.true_eq_false, if_false, last_top, if_true, last_low]
  rw [low_of_no_high last]

/-- The reader undoes the writer from any position on. -/
theorem varintLoop_putVarint (fuel shift : Nat) (v acc : BitVec 64) (rest : List Byte)
    (why : String) (short : v.toNat < 2 ^ (7 * (fuel + 1))) :
    Reader.varintLoop (fuel + 1) shift acc ⟨putVarint (fuel + 1) v ++ rest, true, why⟩ =
      (acc ||| v <<< shift, ⟨rest, true, why⟩) := by
  induction fuel generalizing shift v acc with
  | zero =>
    have last : v >>> 7 = 0#64 := by
      refine BitVec.eq_of_toNat_eq ?_
      rw [BitVec.toNat_ushiftRight, Nat.shiftRight_eq_div_pow]
      exact Nat.div_eq_of_lt short
    rw [putVarint, if_pos last]
    exact varintLoop_last 0 shift acc rest why last
  | succ fuel ih =>
    rw [putVarint]
    by_cases last : v >>> 7 = 0#64
    · rw [if_pos last]
      exact varintLoop_last (fuel + 1) shift acc rest why last
    · rw [if_neg last, List.cons_append, Reader.varintLoop, Reader.word_byte]
      have smaller : (v >>> 7).toNat < 2 ^ (7 * (fuel + 1)) := by
        rw [BitVec.toNat_ushiftRight, Nat.shiftRight_eq_div_pow]
        refine Nat.div_lt_of_lt_mul ?_
        rw [← Nat.pow_add]
        exact lt_of_lt_of_eq short (by congr 1; omega)
      simp only [Bool.true_eq_false, if_false, continuation_top, continuation_low]
      rw [ih _ _ _ smaller, BitVec.or_assoc, low_or_high]

/-- Every word written as a variable-length integer is read back. -/
theorem varint_varintBytes (rest : List Byte) (why : String) :
    (⟨varintBytes v ++ rest, true, why⟩ : Reader).varint = (v, ⟨rest, true, why⟩) := by
  have short : v.toNat < 2 ^ (7 * (9 + 1)) := lt_trans v.isLt (by decide)
  have read := varintLoop_putVarint 9 0 v 0#64 rest why short
  rwa [BitVec.zero_or, BitVec.shiftLeft_zero] at read

end Pom68k.Disk
