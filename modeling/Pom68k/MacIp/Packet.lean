import Mathlib.Algebra.Group.Nat.Defs
import Pom68k.Foundation.Checked

/-! # Octets of a datagram

Words with the high octet first, the Internet checksum, and the order of sequence numbers.
What a guest sent is only looked at through checked accesses: a result is missing just if
an octet outside of the buffer was asked for.
-/

namespace Pom68k.MacIp

open Foundation

abbrev Octet := BitVec 8

def rd16 (p : List Octet) (i : Nat) : Option (BitVec 16) := do
  let a ← p[i]?
  let b ← p[i + 1]?
  return a ++ b

def rd32 (p : List Octet) (i : Nat) : Option (BitVec 32) := do
  let a ← rd16 p i
  let b ← rd16 p (i + 2)
  return a ++ b

/-- The octets of a word. -/
def octets16 (v : BitVec 16) : List Octet := [v.extractLsb' 8 8, v.extractLsb' 0 8]

def octets32 (v : BitVec 32) : List Octet :=
  octets16 (v.extractLsb' 16 16) ++ octets16 (v.extractLsb' 0 16)

def wr16 (p : List Octet) (i : Nat) (v : BitVec 16) : Option (List Octet) :=
  writeAt p i (octets16 v)

def wr32 (p : List Octet) (i : Nat) (v : BitVec 32) : Option (List Octet) :=
  writeAt p i (octets32 v)

/-! ## Checksums -/

/-- The sum of the words; an odd octet is the high half of one. -/
def wordSum : List Octet → BitVec 32 → BitVec 32
  | a :: b :: rest, acc => wordSum rest (acc + (a ++ b).setWidth 32)
  | [a], acc => acc + (a ++ 0#8).setWidth 32
  | [], acc => acc

theorem carry_lt {acc : BitVec 32} (carry : acc >>> 16 ≠ 0#32) :
    ((acc &&& 0xFFFF#32) + (acc >>> 16)).toNat < acc.toNat := by
  have high : acc.toNat / 65536 ≠ 0 := by
    intro none
    refine carry (BitVec.eq_of_toNat_eq ?_)
    rwa [BitVec.toNat_ushiftRight, Nat.shiftRight_eq_div_pow]
  have low : acc.toNat &&& 65535 = acc.toNat % 65536 := Nat.and_two_pow_sub_one_eq_mod _ 16
  rw [BitVec.toNat_add, BitVec.toNat_ushiftRight, Nat.shiftRight_eq_div_pow]
  change ((acc.toNat &&& 65535) + acc.toNat / 65536) % 4294967296 < acc.toNat
  rw [Nat.mod_eq_of_lt (by omega)]
  omega

/-- The carries are added back until there are none. -/
def foldCarry (acc : BitVec 32) : BitVec 32 :=
  if acc >>> 16 = 0#32 then acc else foldCarry ((acc &&& 0xFFFF#32) + (acc >>> 16))
termination_by acc.toNat
decreasing_by exact carry_lt ‹_›

def checksum (octets : List Octet) (acc : BitVec 32) : BitVec 16 :=
  ~~~(foldCarry (wordSum octets acc)).setWidth 16

/-- `csum` of a range of a buffer, all of which it reads. -/
def csum (p : List Octet) (offset n : Nat) : Option (BitVec 16) :=
  (readAt p offset n).map fun range => checksum range 0#32

/-- The checksum of a segment with its pseudo-header. -/
def l4sum (src dst : BitVec 32) (proto : Octet) (seg : List Octet) : BitVec 16 :=
  checksum seg ((src >>> 16) + (src &&& 0xFFFF#32) + (dst >>> 16) + (dst &&& 0xFFFF#32) +
    proto.setWidth 32 + BitVec.ofNat 32 seg.length)

/-- `a` comes before `b`, as sequence numbers. -/
def seqLt (a b : BitVec 32) : Bool := 2 ^ 31 ≤ (a - b).toNat

theorem seqLt_iff {a b : BitVec 32} :
    seqLt a b = true ↔ 1 ≤ (b - a).toNat ∧ (b - a).toNat ≤ 2 ^ 31 := by
  rw [seqLt, decide_eq_true_iff]
  bv_omega

/-! ## Accesses inside -/

variable {i : Nat} {p : List Octet}

theorem rd16_inside (inside : i + 2 ≤ p.length) : ∃ v, rd16 p i = some v := by
  obtain ⟨a, first⟩ := getElem?_inside (show i < p.length by omega)
  obtain ⟨b, second⟩ := getElem?_inside (show i + 1 < p.length by omega)
  exact ⟨a ++ b, by rw [rd16, first, second]; rfl⟩

theorem rd32_inside (inside : i + 4 ≤ p.length) : ∃ v, rd32 p i = some v := by
  obtain ⟨a, first⟩ := rd16_inside (show i + 2 ≤ p.length by omega)
  obtain ⟨b, second⟩ := rd16_inside (show i + 2 + 2 ≤ p.length by omega)
  exact ⟨a ++ b, by rw [rd32, first, second]; rfl⟩

theorem wr16_inside (inside : i + 2 ≤ p.length) (v : BitVec 16) :
    ∃ q, wr16 p i v = some q ∧ q.length = p.length ∧ ∀ j, j < i ∨ i + 2 ≤ j → q[j]? = p[j]? :=
  writeAt_spec inside

theorem wr32_inside (inside : i + 4 ≤ p.length) (v : BitVec 32) :
    ∃ q, wr32 p i v = some q ∧ q.length = p.length ∧ ∀ j, j < i ∨ i + 4 ≤ j → q[j]? = p[j]? :=
  writeAt_spec inside

theorem csum_inside {offset n : Nat} (inside : offset + n ≤ p.length) :
    ∃ sum, csum p offset n = some sum :=
  ⟨_, by rw [csum, readAt_inside inside]; rfl⟩

theorem csum_isSome {offset n : Nat} : (csum p offset n).isSome ↔ offset + n ≤ p.length := by
  rw [csum, Option.isSome_map]
  exact readAt_isSome

end Pom68k.MacIp
