import Pom68k.Disk.Archive
import Pom68k.Foundation.Overwrite

/-! # The personality of a disk image

How a SCSI disk serves an image file depends on its content. A dump of a partitioned
disc without a driver is cut down to its HFS partition, and a bare HFS volume gets a
synthesised partition map and driver in front, taken from a template disk.
-/

namespace Pom68k.Disk

open Foundation

/-- `kBlockSize`. -/
def sectorSize : Nat := 512

/-- `kFacadePrefixBlocks`. -/
def facadePrefixBlocks : Nat := 96

def byteAt (bytes : List Byte) (i : Nat) : Byte := bytes.getD i 0#8

/-- A word with the high byte first. -/
def be16 (bytes : List Byte) (i : Nat) : Nat :=
  (byteAt bytes i).toNat * 256 + (byteAt bytes (i + 1)).toNat

def be32 (bytes : List Byte) (i : Nat) : Nat := be16 bytes i * 65536 + be16 bytes (i + 2)

def putBe16 (bytes : List Byte) (i v : Nat) : List Byte :=
  overwrite bytes i [BitVec.ofNat 8 (v / 256), BitVec.ofNat 8 v]

def putBe32 (bytes : List Byte) (i v : Nat) : List Byte :=
  overwrite bytes i [BitVec.ofNat 8 (v / 2 ^ 24), BitVec.ofNat 8 (v / 2 ^ 16),
    BitVec.ofNat 8 (v / 256), BitVec.ofNat 8 v]

/-- Two characters at an offset. -/
def marked (bytes : List Byte) (i : Nat) (first second : Byte) : Bool :=
  byteAt bytes i = first && byteAt bytes (i + 1) = second

/-- The type of the partition map entry at an offset is `Apple_HFS`. -/
def isAppleHfs (bytes : List Byte) (b : Nat) : Bool :=
  (bytes.drop (b + 48)).take 10 =
    [0x41#8, 0x70#8, 0x70#8, 0x6C#8, 0x65#8, 0x5F#8, 0x48#8, 0x46#8, 0x53#8, 0#8]

/-- Boot blocks start with `LK`; a volume without any has `BD` at its MDB and no driver
map in front. -/
def looksBareHfs (img : List Byte) : Bool :=
  (decide (2 ≤ img.length) && marked img 0 0x4C#8 0x4B#8) ||
    (decide (0x402 ≤ img.length) && marked img 0x400 0x42#8 0x44#8 && !marked img 0 0x45#8 0x52#8)

/-- The first `Apple_HFS` entry of a partition map: where it starts and how long it is. -/
def findApplePartition (img : List Byte) : Nat → Nat → Nat × Nat
  | 0, _ => (0, 0)
  | fuel + 1, i =>
    let b := i * sectorSize
    if img.length < b + 80 ∨ marked img b 0x50#8 0x4D#8 = false then (0, 0)
    else if isAppleHfs img b then (be32 img (b + 8), be32 img (b + 12))
    else findApplePartition img fuel (i + 1)

/-- The HFS partition of a dump with a driver map of 512-byte blocks and no driver. -/
def unwrapDriverless512Dump (img : List Byte) : Option (List Byte) :=
  if img.length < 0x600 ∨ marked img 0 0x45#8 0x52#8 = false ∨ be16 img 2 ≠ 512 ∨
      be16 img 0x10 ≠ 0 then none
  else
    let (start, len) := findApplePartition img 63 1
    let off := start * 512
    let bytes := min (len * 512) (img.length - off)
    if start = 0 ∨ len = 0 ∨ img.length ≤ off ∨ bytes < 0x402 ∨
        marked img (off + 0x400) 0x42#8 0x44#8 = false then none
    else some ((img.drop off).take bytes)

/-- The first bytes of a template disk, if it is long enough and starts with a driver
map. -/
def loadTemplateHead (template : List Byte) : Option (List Byte) :=
  if facadePrefixBlocks * sectorSize ≤ template.length ∧ marked template 0 0x45#8 0x52#8 = true then
    some (template.take (facadePrefixBlocks * sectorSize))
  else none

/-- The template among the files the host has at the candidate paths. -/
def findDdmTemplate (candidates : List (Option (List Byte))) : Option (List Byte) :=
  candidates.findSome? fun file => file.bind loadTemplateHead

/-- A driver entry of the type newer machines look for, copied from the first one. -/
def addDriverEntry (head : List Byte) : List Byte :=
  let count := be16 head 0x10
  let dst := 0x12 + count * 8
  let present := (List.range (min count 61)).any fun i => be16 head (0x12 + i * 8 + 6) = 0x6A
  if present = false ∧ 1 ≤ count ∧ dst + 8 ≤ sectorSize then
    let copied := overwrite head dst ((head.drop 0x12).take 8)
    putBe16 (overwrite (overwrite copied (dst + 6) [0#8]) (dst + 7) [0x6A#8]) 0x10 (count + 1)
  else head

/-- Points the `Apple_HFS` entries at the volume behind the prefix. -/
def patchPartitions (hfsBlocks : Nat) : Nat → Nat → List Byte → List Byte
  | 0, _, head => head
  | fuel + 1, i, head =>
    let b := i * sectorSize
    if head.length < b + 88 ∨ marked head b 0x50#8 0x4D#8 = false then head
    else
      patchPartitions hfsBlocks fuel (i + 1)
        (if isAppleHfs head b then
          putBe32 (putBe32 (putBe32 head (b + 8) facadePrefixBlocks) (b + 12) hfsBlocks) (b + 84)
            hfsBlocks
        else head)

/-- The synthesised prefix for a volume of some blocks. -/
def facadeHead (template : List Byte) (hfsBlocks : Nat) : List Byte :=
  patchPartitions hfsBlocks 63 1
    (addDriverEntry (putBe32 template 4 (facadePrefixBlocks + hfsBlocks)))

/-- `applyFlatHfsFacade`: the prefix of a bare HFS volume, if there is a template. -/
def flatHfsPrefix (candidates : List (Option (List Byte))) (img : List Byte) :
    Option (List Byte) :=
  if looksBareHfs img = true ∧ img.length % sectorSize = 0 then
    (findDdmTemplate candidates).map fun head => facadeHead head (img.length / sectorSize)
  else none

/-! ## The prefix has its size -/

theorem length_putBe16 {bytes : List Byte} {i : Nat} (room : i + 2 ≤ bytes.length) (v : Nat) :
    (putBe16 bytes i v).length = bytes.length :=
  length_overwrite room

theorem length_putBe32 {bytes : List Byte} {i : Nat} (room : i + 4 ≤ bytes.length) (v : Nat) :
    (putBe32 bytes i v).length = bytes.length :=
  length_overwrite room

theorem length_addDriverEntry {head : List Byte} (long : sectorSize ≤ head.length) :
    (addDriverEntry head).length = head.length := by
  rw [addDriverEntry]
  split
  · next fits =>
      have room := fits.2.2
      have entry : ((head.drop 0x12).take 8).length = 8 := by
        rw [List.length_take, List.length_drop]
        omega
      have copied : (overwrite head (0x12 + be16 head 0x10 * 8)
          ((head.drop 0x12).take 8)).length = head.length :=
        length_overwrite (by omega)
      have first : (overwrite (overwrite head (0x12 + be16 head 0x10 * 8)
          ((head.drop 0x12).take 8)) (0x12 + be16 head 0x10 * 8 + 6) [0#8]).length =
            head.length := by
        rw [length_overwrite (by rw [List.length_singleton]; omega), copied]
      have second : (overwrite (overwrite (overwrite head (0x12 + be16 head 0x10 * 8)
          ((head.drop 0x12).take 8)) (0x12 + be16 head 0x10 * 8 + 6) [0#8])
            (0x12 + be16 head 0x10 * 8 + 7) [0x6A#8]).length = head.length := by
        rw [length_overwrite (by rw [List.length_singleton]; omega), first]
      rw [length_putBe16 (by omega), second]
  · rfl

theorem length_patchPartitions (hfsBlocks fuel i : Nat) (head : List Byte) :
    (patchPartitions hfsBlocks fuel i head).length = head.length := by
  induction fuel generalizing i head with
  | zero => rfl
  | succ fuel ih =>
    rw [patchPartitions]
    split
    · rfl
    next inside =>
      rw [ih]
      split
      · rw [length_putBe32, length_putBe32, length_putBe32]
        · omega
        · rw [length_putBe32 (by omega)]
          omega
        · rw [length_putBe32, length_putBe32 (by omega)]
          · omega
          · rw [length_putBe32 (by omega)]
            omega
      · rfl

theorem length_flatHfsPrefix {candidates : List (Option (List Byte))} {img head : List Byte}
    (found : flatHfsPrefix candidates img = some head) :
    head.length = facadePrefixBlocks * sectorSize := by
  rw [flatHfsPrefix] at found
  split at found
  · obtain ⟨template, listed, rfl⟩ := Option.map_eq_some_iff.mp found
    obtain ⟨file, _, loaded⟩ := List.exists_of_findSome?_eq_some listed
    obtain ⟨bytes, _, taken⟩ := Option.bind_eq_some_iff.mp loaded
    rw [loadTemplateHead] at taken
    split at taken
    · next long =>
        cases taken
        have size : (bytes.take (facadePrefixBlocks * sectorSize)).length =
            facadePrefixBlocks * sectorSize := by
          rw [List.length_take]
          exact Nat.min_eq_left long.1
        have first : (putBe32 (bytes.take (facadePrefixBlocks * sectorSize)) 4
            (facadePrefixBlocks + img.length / sectorSize)).length =
              facadePrefixBlocks * sectorSize := by
          rw [length_putBe32 (by rw [size]; decide), size]
        rw [facadeHead, length_patchPartitions, length_addDriverEntry (by rw [first]; decide), first]
    · cases taken
  · cases found

end Pom68k.Disk
