import Pom68k.Foundation.Crc
import Pom68k.Foundation.Overwrite
import Pom68k.Floppy.Gcr

/-! # The drive and its tracks

A drive holds an image of sectors and lays the track under its head out as a stream of
bytes, as cells and as flux. Times are in ticks, 1024 to a clock of the controller.
-/

namespace Pom68k.Floppy

open Foundation

def kSize800K : Nat := 819200
def kSize400K : Nat := 409600
def kSize1440K : Nat := 1474560

def kSubCell : Nat := 1024

/-- A byte written without a clock, as the sync of a field is. -/
def kMark : BitVec 16 := 0x100#16

/-- A byte followed by two empty cells. -/
def kSync : BitVec 16 := 0x200#16

/-- A physical track that was written or came with the medium. -/
structure Track where
  present : Bool := false
  revolution : Nat := 0
  decodeClock : Int := 0
  edges : List Int := []

structure SonyDrive where
  image : List Byte := []
  tags : List Byte := []
  dirty : Bool := false
  native : Bool := false
  tracks : Nat → Track := fun _ => {}
  activeTrack : Option Nat := none
  activeTrackWritten : Bool := false
  stream : List (BitVec 16) := []
  streamPos : Nat := 0
  flux : List Int := []
  fluxRev : Nat := 0
  cells : List Bool := []
  cellsDirty : Bool := true
  decodeWriteCellBegin : Option Nat := none
  decodeWriteCellEnd : Option Nat := none
  decodeCellTicks : Int := 0
  decodeStartTick : Int := 0
  decodeSpanTicks : Int := 0
  inFluxCommit : Bool := false
  track : Nat := 0
  side1 : Bool := false
  doubleSided : Bool := true
  hd : Bool := false
  mfmMode : Bool := false
  writeProtected : Bool := false
  pwmSpindle : Bool := false
  pwmRpm : Nat := 300

/-! ## Geometry -/

/-- The zones: twelve sectors on the outer tracks, eight on the inner ones. -/
def sectorsInTrack (track : Nat) : Nat := 12 - track >>> 4

def sectorsInTrackHd : Nat := 18

namespace SonyDrive

def hasDisk (d : SonyDrive) : Bool := d.native || !d.image.isEmpty

def sectorsOnCurrentTrack (d : SonyDrive) : Nat :=
  if d.hd then sectorsInTrackHd else sectorsInTrack d.track

/-- The head that is selected. -/
def side (d : SonyDrive) : Nat := d.side1.toNat

/-- Whether the medium is read and written in MFM. -/
def mediaMfm (d : SonyDrive) : Bool := d.mfmMode && d.hd

/-- The image goes by cylinder, then head, then sector. -/
def imageOffset (d : SonyDrive) (track side sector : Nat) : Nat :=
  if d.hd then track * 2 * 18 * 512 + side * 18 * 512 + sector * 512
  else
    ((List.range track).map fun t => sectorsInTrack t * (if d.doubleSided then 2 else 1) * 512).sum +
      (if side ≠ 0 then sectorsInTrack track * 512 else 0) + sector * 512

def rpmNow (d : SonyDrive) : Nat :=
  if d.mfmMode ∧ d.hd then 300
  else if d.pwmSpindle then d.pwmRpm
  else [394, 429, 472, 525, 590].getD (d.track >>> 4) 0

def cellCycles (d : SonyDrive) : Nat := if d.mfmMode ∧ d.hd then 16 else 31

def nominalCells (d : SonyDrive) : Nat := 15667200 * 60 / (d.rpmNow * d.cellCycles)

def fluxCellTicks (d : SonyDrive) : Nat := d.cellCycles * kSubCell

/-! ## A track as a stream of bytes -/

/-- Where each sector of a track goes, with every other place left free at first. -/
def interleave (ns : Nat) : List Nat :=
  let place (r : List Nat × Nat) (i : Nat) : List Nat × Nat :=
    let si := (r.2 + 2) % ns
    (r.1.set r.2 i, if si = 0 then si + 1 else si)
  ((List.range ns).foldl place (List.replicate 12 0, 0)).1.take ns

def plain (bytes : List Byte) : List (BitVec 16) := bytes.map fun b => b.setWidth 16

def syncs (n : Nat) : List (BitVec 16) := List.replicate n (kSync ||| 0xFF#16)

/-- The tags of a sector, as far as the medium has some. -/
def sectorTags (d : SonyDrive) (sector : Nat) : List Byte :=
  let tag := d.imageOffset d.track d.side sector / 512 * 12
  if tag + 12 ≤ d.tags.length then (d.tags.drop tag).take 12 else List.replicate 12 0#8

/-- The data of a sector; a sector behind the image is blank. -/
def sectorData (d : SonyDrive) (sector : Nat) : List Byte :=
  let off := d.imageOffset d.track d.side sector
  if off + 512 ≤ d.image.length then (d.image.drop off).take 512 else List.replicate 512 0#8

def sideByte (d : SonyDrive) : Byte :=
  (if d.side1 then 0x20#8 else 0#8) ||| (if d.track &&& 0x40 ≠ 0 then 1#8 else 0#8)

def format (d : SonyDrive) : Byte := if d.doubleSided then 0x22#8 else 0x02#8

def addressGcr (d : SonyDrive) (sector : Nat) : List (BitVec 16) :=
  let track := BitVec.ofNat 8 d.track
  let number := BitVec.ofNat 8 sector
  syncs 38 ++ plain [0xD5#8, 0xAA#8, 0x96#8, gcr6 track, gcr6 number, gcr6 d.sideByte,
    gcr6 d.format, gcr6 (track ^^^ number ^^^ d.sideByte ^^^ d.format), 0xDE#8, 0xAA#8] ++ syncs 1

def dataGcr (d : SonyDrive) (sector : Nat) : List (BitVec 16) :=
  syncs 6 ++ plain ([0xD5#8, 0xAA#8, 0xAD#8, gcr6 (BitVec.ofNat 8 sector)] ++
    encodeSums (d.sectorTags sector ++ d.sectorData sector) ++ [0xDE#8, 0xAA#8]) ++ syncs 2

def encodeTrackGcr (d : SonyDrive) : List (BitVec 16) :=
  (interleave (sectorsInTrack d.track)).flatMap fun sector =>
    d.addressGcr sector ++ d.dataGcr sector

def crcPoly : BitVec 16 := 0x1021#16

/-- The check of an MFM field, over its marks as well. -/
def crcCcitt (bytes : List Byte) : BitVec 16 := crcOctets crcPoly 0xFFFF#16 bytes

/-- A check as it is written, the high byte first. -/
def crcBytes (crc : BitVec 16) : List Byte := [(crc >>> 8).setWidth 8, crc.setWidth 8]

def gap (n : Nat) (fill : Byte) : List (BitVec 16) := plain (List.replicate n fill)

def marksA1 : List (BitVec 16) := List.replicate 3 (kMark ||| 0xA1#16)

/-- A field is checked with the three marks before it. -/
def fieldMfm (bytes : List Byte) : List (BitVec 16) :=
  marksA1 ++ plain (bytes ++ crcBytes (crcCcitt ([0xA1#8, 0xA1#8, 0xA1#8] ++ bytes)))

/-- The address of a sector; sectors count from one on the medium. -/
def addressMfm (d : SonyDrive) (sector : Nat) : List Byte :=
  [0xFE#8, BitVec.ofNat 8 d.track, BitVec.ofNat 8 d.side, BitVec.ofNat 8 (sector + 1), 0x02#8]

def sectorMfm (d : SonyDrive) (sector : Nat) : List (BitVec 16) :=
  gap 12 0x00#8 ++ fieldMfm (d.addressMfm sector) ++ gap 22 0x4E#8 ++ gap 12 0x00#8 ++
    fieldMfm (0xFB#8 :: d.sectorData sector) ++ gap 84 0x4E#8

def encodeTrackMfm (d : SonyDrive) : List (BitVec 16) :=
  gap 80 0x4E#8 ++ (List.range 18).flatMap d.sectorMfm ++ gap 200 0x4E#8

/-! ## A track as cells -/

/-- A bit of data behind its clock, which is set only between two zeros. -/
def clocked (last bit : Bool) : Bool × List Bool := (bit, [!last && !bit, bit])

/-- A byte in MFM. A mark lacks one of its clocks. -/
def mfmCells (last : Bool) (v : BitVec 16) : Bool × List Bool :=
  if v &&& kMark ≠ 0#16 then (true, msbFirst 0x4489#16)
  else feed clocked last (msbFirst (v.setWidth 8))

/-- A byte in GCR. -/
def gcrCells (v : BitVec 16) : List Bool :=
  msbFirst (v.setWidth 8) ++ if v &&& kSync ≠ 0#16 then [false, false] else []

/-- The cells that fill a track up to a turn: gap bytes in MFM, sync groups in GCR. -/
def padFormattedTrack (cells : List Bool) (target : Nat) (mfm : Bool) : List Bool :=
  let room := target - cells.length
  if mfm then
    let last := cells.getLastD false
    cells ++ (feed mfmCells last (gap (room / 16 + 1) 0x4E#8)).2.take room
  else
    cells ++ ((syncs (room / 10)).flatMap gcrCells ++ List.replicate (room % 10) false)

def buildCells (d : SonyDrive) : SonyDrive :=
  let cells :=
    if d.mediaMfm then (feed mfmCells false d.stream).2 else d.stream.flatMap gcrCells
  { d with cells := padFormattedTrack cells d.nominalCells d.mediaMfm, cellsDirty := false }

/-! ## A track as flux -/

/-- The flux of cells at their nominal rate: a transition in the middle of each that is
set. -/
def edgesFrom (ticks : Nat) : Nat → List Bool → List Int
  | _, [] => []
  | i, cell :: rest =>
    (if cell then [(i * ticks + ticks / 2 : Int)] else []) ++ edgesFrom ticks (i + 1) rest

def fluxSeedFromCells (d : SonyDrive) : SonyDrive :=
  { d with
    flux := edgesFrom d.fluxCellTicks 0 d.cells
    fluxRev := d.cells.length * d.fluxCellTicks
    decodeCellTicks := 0
    decodeStartTick := 0
    decodeSpanTicks := 0
    decodeWriteCellBegin := none
    decodeWriteCellEnd := none }

/-! ## The track under the head -/

def physical (d : SonyDrive) : Nat := d.track * 2 + d.side

/-- A written track stays as it is. -/
def retainActiveTrack (d : SonyDrive) : SonyDrive :=
  match d.activeTrack with
  | some index =>
    if (d.activeTrackWritten ∨ d.native) ∧ index < 160 ∧ 0 < d.fluxRev then
      { d with
        tracks := Function.update d.tracks index ⟨true, d.fluxRev, d.decodeCellTicks, d.flux⟩ }
    else d
  | none => d

def refreshStream (d : SonyDrive) : SonyDrive :=
  if d.hasDisk = false ∨ d.native then { d with stream := [] }
  else
    let stream := if d.hd then d.encodeTrackMfm else d.encodeTrackGcr
    { d with
      stream := stream
      streamPos := if stream.length ≤ d.streamPos then 0 else d.streamPos }

/-- The track under the head: as it was written, or laid out from the image. -/
def encodeTrack (d : SonyDrive) : SonyDrive :=
  let d := d.retainActiveTrack.refreshStream
  if d.hasDisk = false then { d with cells := [], flux := [], fluxRev := 0 }
  else
    let d := { d with activeTrack := some d.physical, activeTrackWritten := false }
    let physical := d.tracks d.physical
    if physical.present ∨ d.native then
      { d with
        flux := physical.edges
        fluxRev :=
          if physical.present then physical.revolution else d.nominalCells * d.fluxCellTicks
        decodeCellTicks := physical.decodeClock
        cellsDirty := true }
    else d.buildCells.fluxSeedFromCells

/-! ## Moving the head and changing the medium -/

/-- A mechanism of one side has no second head. -/
def selectSide (d : SonyDrive) (side1 : Bool) : SonyDrive :=
  let side1 := side1 && d.doubleSided
  if side1 = d.side1 then d else { d with side1 := side1 }.encodeTrack

def stepHead (d : SonyDrive) (toZero : Bool) : SonyDrive :=
  { d with track := if toZero then d.track - 1 else min (d.track + 1) 79 }.encodeTrack

/-- A raw image of one of the three sizes. -/
def insertImage (d : SonyDrive) (data : List Byte) : Option SonyDrive :=
  if data.length ≠ kSize800K ∧ data.length ≠ kSize400K ∧ data.length ≠ kSize1440K then none
  else
    let hd : Bool := data.length = kSize1440K
    some { d with
      dirty := false
      native := false
      tracks := fun _ => {}
      activeTrack := none
      activeTrackWritten := false
      hd := hd
      doubleSided := data.length ≠ kSize400K
      mfmMode := hd
      image := data
      tags := List.replicate (if hd then 0 else data.length / 512 * 12) 0#8
      track := 0
      side1 := false }.encodeTrack

end SonyDrive

end Pom68k.Floppy
