import Mathlib.Tactic.IntervalCases
import Pom68k.Foundation.Serial

/-! # The group code of sector data

Six bits of data become one nibble of the medium. A sector is written in groups of three
bytes under a rolling checksum that also scrambles them.
-/

namespace Pom68k.Floppy

open Foundation

abbrev Byte := BitVec 8

/-- The nibbles that stand for six bits. -/
def kGcr6 : List Byte :=
  [0x96#8, 0x97#8, 0x9A#8, 0x9B#8, 0x9D#8, 0x9E#8, 0x9F#8, 0xA6#8,
   0xA7#8, 0xAB#8, 0xAC#8, 0xAD#8, 0xAE#8, 0xAF#8, 0xB2#8, 0xB3#8,
   0xB4#8, 0xB5#8, 0xB6#8, 0xB7#8, 0xB9#8, 0xBA#8, 0xBB#8, 0xBC#8,
   0xBD#8, 0xBE#8, 0xBF#8, 0xCB#8, 0xCD#8, 0xCE#8, 0xCF#8, 0xD3#8,
   0xD6#8, 0xD7#8, 0xD9#8, 0xDA#8, 0xDB#8, 0xDC#8, 0xDD#8, 0xDE#8,
   0xDF#8, 0xE5#8, 0xE6#8, 0xE7#8, 0xE9#8, 0xEA#8, 0xEB#8, 0xEC#8,
   0xED#8, 0xEE#8, 0xEF#8, 0xF2#8, 0xF3#8, 0xF4#8, 0xF5#8, 0xF6#8,
   0xF7#8, 0xF9#8, 0xFA#8, 0xFB#8, 0xFC#8, 0xFD#8, 0xFE#8, 0xFF#8]

/-- The nibble of the low six bits. -/
def gcr6 (v : Byte) : Byte := kGcr6.getD (v &&& 0x3F#8).toNat 0#8

/-- What a nibble stands for, if it is one of data. -/
def gcr6Inv (nibble : Byte) : Option Byte := (kGcr6.idxOf? nibble).map (BitVec.ofNat 8)

/-- The high bits of three bytes. -/
def gcr6High (va vb vc : Byte) : Byte :=
  (va >>> 2 &&& 0x30#8) ||| (vb >>> 4 &&& 0x0C#8) ||| (vc >>> 6 &&& 0x03#8)

/-- Three bytes, their high bits first; the last group has no third byte. -/
def gcr6Encode (va vb vc : Byte) (lastGroup : Bool) : List Byte :=
  [gcr6 (gcr6High va vb vc), gcr6 va, gcr6 vb] ++ if lastGroup then [] else [gcr6 vc]

/-- A byte from its low six bits and its place among the high bits of the group. -/
def gcr6Join (place : Nat) (high low : Byte) : Byte :=
  (low &&& 0x3F#8) ||| (high <<< place &&& 0xC0#8)

/-! ## The checksum -/

/-- The three running sums over a sector. -/
structure Sums where
  ca : Byte := 0#8
  cb : Byte := 0#8
  cc : Byte := 0#8
deriving DecidableEq

namespace Sums

def rotated (s : Sums) : Byte := s.cc <<< 1 ||| s.cc >>> 7

/-- The first sum, with the bit rotated out of the third one. -/
def suma (s : Sums) (va : Byte) : BitVec 16 :=
  s.ca.setWidth 16 + va.setWidth 16 + (s.rotated &&& 1#8).setWidth 16

/-- The second sum, with the carry of the first. -/
def sumb (s : Sums) (va vb : Byte) : BitVec 16 :=
  s.cb.setWidth 16 + vb.setWidth 16 + s.suma va >>> 8

/-- The sums behind a group. -/
def add (s : Sums) (va vb : Byte) (vc : Option Byte) : Sums where
  ca := (s.suma va).setWidth 8
  cb := (s.sumb va vb).setWidth 8
  cc :=
    match vc with
    | some vc => s.rotated + vc + (s.sumb va vb >>> 8).setWidth 8
    | none => s.rotated

/-- A group is scrambled with the sums before it is written. -/
def encode (s : Sums) (va vb : Byte) (vc : Option Byte) : Sums × List Byte :=
  let next := s.add va vb vc
  (next, gcr6Encode (va ^^^ s.rotated) (vb ^^^ next.ca) (vc.getD 0#8 ^^^ next.cb) vc.isNone)

/-- A group as it is read, byte by byte: each sum is needed for the next byte. -/
def decode (s : Sums) (va vb : Byte) (vc : Option Byte) : Sums × List Byte :=
  let va := va ^^^ s.rotated
  let vb := vb ^^^ (s.suma va).setWidth 8
  let vc := vc.map fun vc => vc ^^^ (s.sumb va vb).setWidth 8
  (s.add va vb vc, [va, vb] ++ vc.toList)

end Sums

/-- The groups of a sector. -/
def encodeGroups : Sums → List Byte → Sums × List Byte
  | s, [va, vb] => s.encode va vb none
  | s, va :: vb :: vc :: rest =>
    let r := s.encode va vb (some vc)
    let later := encodeGroups r.1 rest
    (later.1, r.2 ++ later.2)
  | s, _ => (s, [])

/-- The groups of a sector and its sums. -/
def encodeSums (bytes : List Byte) : List Byte :=
  let r := encodeGroups {} bytes
  r.2 ++ gcr6Encode r.1.ca r.1.cb r.1.cc false

/-- Some groups of four nibbles and one of three; nothing if a nibble is not of data. -/
def decodeGroups : Nat → Sums → List Byte → Option (Sums × List Byte × List Byte)
  | 0, s, h :: a :: b :: rest => do
      let h ← gcr6Inv h
      let a ← gcr6Inv a
      let b ← gcr6Inv b
      let r := s.decode (gcr6Join 2 h a) (gcr6Join 4 h b) none
      some (r.1, r.2, rest)
  | n + 1, s, h :: a :: b :: c :: rest => do
      let h ← gcr6Inv h
      let a ← gcr6Inv a
      let b ← gcr6Inv b
      let c ← gcr6Inv c
      let r := s.decode (gcr6Join 2 h a) (gcr6Join 4 h b) (some (gcr6Join 6 h c))
      let (sums, data, behind) ← decodeGroups n r.1 rest
      some (sums, r.2 ++ data, behind)
  | _, _, _ => none

/-- The sums as they were written. -/
def decodeSums : List Byte → Option Sums
  | h :: a :: b :: c :: _ => do
      let h ← gcr6Inv h
      let a ← gcr6Inv a
      let b ← gcr6Inv b
      let c ← gcr6Inv c
      some ⟨gcr6Join 2 h a, gcr6Join 4 h b, gcr6Join 6 h c⟩
  | _ => none

/-! ## What is read back -/

theorem gcr6Inv_gcr6 (v : Byte) : gcr6Inv (gcr6 v) = some (v &&& 0x3F#8) := by
  have each : ∀ i < 64, gcr6Inv (kGcr6.getD i 0#8) = some (BitVec.ofNat 8 i) := by decide +kernel
  have small : (v &&& 0x3F#8).toNat < 64 := by
    exact Nat.lt_succ_of_le Nat.and_le_right
  rw [gcr6, each _ small, BitVec.ofNat_toNat, BitVec.setWidth_eq]

/-- Data nibbles keep the framing bit, and are not those marks begin with. -/
theorem gcr6_spec : ∀ v : Byte, (gcr6 v).msb = true ∧ gcr6 v ≠ 0xD5#8 := by
  decide +kernel

theorem gcr6Join_masked (place : Nat) (high low : Byte) :
    gcr6Join place high (low &&& 0x3F#8) = gcr6Join place high low := by
  rw [gcr6Join, gcr6Join, BitVec.and_assoc, BitVec.and_self]

/-- A byte and the part of it that stands at its place among the high bits. -/
theorem gcr6Join_eq {place : Nat} {high low : Byte}
    (same : high <<< place &&& 0xC0#8 = low &&& 0xC0#8) : gcr6Join place high low = low := by
  rw [gcr6Join, same, ← BitVec.and_or_distrib_left]
  exact BitVec.and_allOnes

theorem gcr6Join_high (va vb vc : Byte) :
    gcr6Join 2 (gcr6High va vb vc &&& 0x3F#8) va = va ∧
      gcr6Join 4 (gcr6High va vb vc &&& 0x3F#8) vb = vb ∧
      gcr6Join 6 (gcr6High va vb vc &&& 0x3F#8) vc = vc := by
  refine ⟨gcr6Join_eq ?_, gcr6Join_eq ?_, gcr6Join_eq ?_⟩ <;>
  · refine BitVec.eq_of_getLsbD_eq fun i inside => ?_
    interval_cases i <;> simp [gcr6High]

/-- What was scrambled is recovered, and the sums go on as they did. -/
theorem Sums.decode_scrambled (s : Sums) (va vb : Byte) (vc : Option Byte) :
    s.decode (va ^^^ s.rotated) (vb ^^^ (s.add va vb vc).ca)
      (vc.map fun c => c ^^^ (s.add va vb vc).cb) = (s.add va vb vc, [va, vb] ++ vc.toList) := by
  have undone (x key : Byte) : x ^^^ key ^^^ key = x := by
    rw [BitVec.xor_assoc, BitVec.xor_self, BitVec.xor_zero]
  cases vc <;> simp only [Sums.decode, Sums.add, Option.map_some, Option.map_none, undone]

/-- The last group can be read back. -/
theorem decodeGroups_last (s : Sums) (va vb : Byte) (rest : List Byte) :
    decodeGroups 0 s ((s.encode va vb none).2 ++ rest) =
      some ((s.encode va vb none).1, [va, vb], rest) := by
  have plain := s.decode_scrambled va vb none
  obtain ⟨a, b, -⟩ := gcr6Join_high (va ^^^ s.rotated) (vb ^^^ (s.add va vb none).ca)
    (0#8 ^^^ (s.add va vb none).cb)
  simp only [Sums.encode, gcr6Encode, Option.getD_none, List.cons_append, decodeGroups, gcr6Inv_gcr6,
    Option.bind_eq_bind, Option.bind_some, gcr6Join_masked, a, b]
  rw [Option.map_none] at plain
  rw [plain]
  rfl

/-- A group before others can be read back. -/
theorem decodeGroups_succ (n : Nat) (s : Sums) (va vb vc : Byte) (rest : List Byte) :
    decodeGroups (n + 1) s ((s.encode va vb (some vc)).2 ++ rest) =
      (decodeGroups n (s.encode va vb (some vc)).1 rest).map fun r =>
        (r.1, va :: vb :: vc :: r.2.1, r.2.2) := by
  have plain := s.decode_scrambled va vb (some vc)
  obtain ⟨a, b, c⟩ := gcr6Join_high (va ^^^ s.rotated) (vb ^^^ (s.add va vb (some vc)).ca)
    (vc ^^^ (s.add va vb (some vc)).cb)
  simp only [Sums.encode, gcr6Encode, Option.getD_some, Option.isNone_some, Bool.false_eq_true,
    if_false, List.cons_append, List.nil_append, decodeGroups, gcr6Inv_gcr6,
    Option.bind_eq_bind, Option.bind_some, gcr6Join_masked, a, b, c]
  rw [Option.map_some] at plain
  rw [plain]
  cases decodeGroups n (s.add va vb (some vc)) rest <;> rfl

variable {bytes : List Byte} {s : Sums} {nibble : Byte}

/-- The groups of a sector can be read back. -/
theorem decodeGroups_encodeGroups (n : Nat) (size : bytes.length = 3 * n + 2) (rest : List Byte) :
    decodeGroups n s ((encodeGroups s bytes).2 ++ rest) =
      some ((encodeGroups s bytes).1, bytes, rest) := by
  induction n generalizing s bytes with
  | zero =>
    match bytes, size with
    | [va, vb], _ => exact decodeGroups_last s va vb rest
  | succ n ih =>
    match bytes, size with
    | va :: vb :: vc :: later, size =>
      have size' : later.length = 3 * n + 2 := by
        simp only [List.length_cons] at size
        omega
      have unfolded : encodeGroups s (va :: vb :: vc :: later) =
          ((encodeGroups (s.encode va vb (some vc)).1 later).1,
            (s.encode va vb (some vc)).2 ++
              (encodeGroups (s.encode va vb (some vc)).1 later).2) := rfl
      rw [unfolded, List.append_assoc, decodeGroups_succ, ih size', Option.map_some]

theorem decodeSums_encode (ca cb cc : Byte) (rest : List Byte) :
    decodeSums (gcr6Encode ca cb cc false ++ rest) = some ⟨ca, cb, cc⟩ := by
  obtain ⟨a, b, c⟩ := gcr6Join_high ca cb cc
  simp only [gcr6Encode, Bool.false_eq_true, if_false, List.cons_append, List.nil_append,
    decodeSums, gcr6Inv_gcr6, Option.bind_eq_bind, Option.bind_some,
    gcr6Join_masked, a, b, c]

/-- Everything of a sector is a data nibble. -/
theorem mem_gcr6Encode {va vb vc : Byte} {lastGroup : Bool}
    (inside : nibble ∈ gcr6Encode va vb vc lastGroup) : ∃ v, nibble = gcr6 v := by
  simp only [gcr6Encode, List.mem_append, List.mem_cons, List.not_mem_nil, or_false] at inside
  rcases inside with (rfl | rfl | rfl) | last
  · exact ⟨_, rfl⟩
  · exact ⟨_, rfl⟩
  · exact ⟨_, rfl⟩
  · cases lastGroup with
    | true => cases last
    | false => exact ⟨vc, List.mem_singleton.mp last⟩

theorem mem_encodeGroups (inside : nibble ∈ (encodeGroups s bytes).2) : ∃ v, nibble = gcr6 v := by
  fun_induction encodeGroups s bytes with
  | case1 s va vb => exact mem_gcr6Encode inside
  | case2 s va vb vc rest r later ih =>
    rcases List.mem_append.mp inside with inside | inside
    · exact mem_gcr6Encode inside
    · exact ih inside
  | case3 s bytes => cases inside

theorem mem_encodeSums (inside : nibble ∈ encodeSums bytes) : ∃ v, nibble = gcr6 v := by
  rcases List.mem_append.mp inside with inside | inside
  · exact mem_encodeGroups inside
  · exact mem_gcr6Encode inside

theorem length_encodeGroups (n : Nat)
    (size : bytes.length = 3 * n + 2) : (encodeGroups s bytes).2.length = 4 * n + 3 := by
  induction n generalizing s bytes with
  | zero =>
    match bytes, size with
    | [va, vb], _ => rfl
  | succ n ih =>
    match bytes, size with
    | va :: vb :: vc :: later, size =>
      have size' : later.length = 3 * n + 2 := by
        simp only [List.length_cons] at size
        omega
      have rest := ih (s := (s.encode va vb (some vc)).1) size'
      change (_ ++ _ : List Byte).length = _
      rw [List.length_append]
      change 4 + _ = _
      omega

end Pom68k.Floppy
