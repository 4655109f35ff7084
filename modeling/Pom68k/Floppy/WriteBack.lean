import Mathlib.Data.List.Destutter
import Pom68k.Foundation.FirstBy
import Pom68k.Floppy.Separator

/-! # Writing back

What a controller has written is read off the track again, and every sector that checks
goes to the image.
-/

namespace Pom68k.Floppy

open Foundation

namespace SonyDrive

/-- Whether there is such a sector to write to. -/
def Accepts (d : SonyDrive) (track side : Nat) (sector : Int) : Prop :=
  d.hasDisk = true ∧ d.writeProtected = false ∧ track ≤ 79 ∧
    side ≤ (if d.doubleSided then 1 else 0) ∧ 0 ≤ sector ∧
    sector < (if d.hd then sectorsInTrackHd else sectorsInTrack track : Nat) ∧
    d.imageOffset track side sector.toNat + 512 ≤ d.image.length

instance (d : SonyDrive) (track side : Nat) (sector : Int) :
    Decidable (d.Accepts track side sector) :=
  inferInstanceAs (Decidable (_ ∧ _))

/-- The track of a sector that changed is laid out anew, unless the flux of a write is what
changed it. -/
def sectorChanged (d : SonyDrive) (track side : Nat) : SonyDrive :=
  let physical := track * 2 + side
  let d :=
    if d.inFluxCommit then d
    else
      { d with
        tracks := Function.update d.tracks physical {}
        activeTrack := if d.activeTrack = some physical then none else d.activeTrack
        activeTrackWritten := if d.activeTrack = some physical then false else d.activeTrackWritten }
  if track = d.track ∧ decide (side ≠ 0) = d.side1 then
    if d.inFluxCommit then d.refreshStream else d.encodeTrack
  else d

def writeSector (d : SonyDrive) (track side : Nat) (sector : Int) (data : List Byte) :
    SonyDrive × Bool :=
  if d.Accepts track side sector then
    ({ d with
      image := overwrite d.image (d.imageOffset track side sector.toNat) data
      dirty := true }.sectorChanged track side, true)
  else (d, false)

/-! ## Group coded tracks -/

/-- The shift register of the framer: a byte is whole when its top bit is set. -/
def frameGcr (sr : Byte) (cell : Bool) : Byte × List Byte :=
  let sr := sr <<< 1 ||| (if cell then 1#8 else 0#8)
  if sr &&& 0x80#8 ≠ 0#8 then (0#8, [sr]) else (sr, [])

structure GcrField where
  sector : Nat
  tag : List Byte
  data : List Byte
deriving DecidableEq

/-- A data field, if one begins here and its checksum is right. -/
def decodeField (ns : Nat) : List Byte → Option GcrField
  | d5 :: aa :: ad :: number :: nibbles =>
    if d5 = 0xD5#8 ∧ aa = 0xAA#8 ∧ ad = 0xAD#8 then do
      let sector ← gcr6Inv number
      if ns ≤ sector.toNat then none
      else
        let (sums, bytes, behind) ← decodeGroups 174 {} nibbles
        let written ← decodeSums behind
        if sums = written then some ⟨sector.toNat, bytes.take 12, bytes.drop 12⟩ else none
    else none
  | _ => none

/-- The data fields one after the other, each of 707 nibbles. -/
def gcrFields (ns : Nat) (nibbles : List Byte) : List GcrField :=
  if nibbles.length < 707 then []
  else
    match decodeField ns nibbles with
    | some field => field :: gcrFields ns (nibbles.drop 707)
    | none => gcrFields ns nibbles.tail
termination_by nibbles.length
decreasing_by
  · rw [List.length_drop]
    omega
  · rw [List.length_tail]
    omega

/-- The fields that are committed, the first of each sector. The image is not looked at, so
that all of them can be found before one is committed. -/
def gcrCommits (ns : Nat) (nibbles : List Byte) : List GcrField :=
  firstBy GcrField.sector (gcrFields ns nibbles)

def writeTags (d : SonyDrive) (side : Nat) (f : GcrField) : SonyDrive :=
  let tag := d.imageOffset d.track side f.sector / 512 * 12
  if d.writeProtected = false ∧ tag + 12 ≤ d.tags.length then
    { d with tags := overwrite d.tags tag f.tag }
  else d

/-- A field is committed under the head, tags and data. -/
def commitField (side1 : Bool) (r : SonyDrive × Nat) (f : GcrField) : SonyDrive × Nat :=
  let d := r.1.writeTags side1.toNat f
  let w := d.writeSector d.track side1.toNat f.sector f.data
  (w.1, if w.2 then r.2 + 1 else r.2)

/-- The drive, and how many sectors were committed. -/
def decodeGcrBytes (d : SonyDrive) (nibbles : List Byte) (side1 : Bool) : SonyDrive × Nat :=
  if d.writeProtected ∨ (side1 ∧ d.doubleSided = false) then (d, 0)
  else (gcrCommits (sectorsInTrack d.track) nibbles).foldl (commitField side1) (d, 0)

/-- What the framer makes of the cells in two turns. -/
def gcrBytes (cells : List Bool) : List Byte := (feed frameGcr 0#8 (cells ++ cells)).2

def decodeGcrCells (d : SonyDrive) (turns : Nat) : Option SonyDrive := do
  let d ← d.cellsView turns
  if d.cells = [] then some d
  else
    let r := d.decodeGcrBytes (gcrBytes d.cells) d.side1
    some (if r.2 = 0 ∧ r.1.inFluxCommit = false then r.1.encodeTrack else r.1)

/-! ## MFM tracks -/

/-- A byte of an MFM track: whether it is a mark, and whether a field that checks ends
with it. -/
structure TByte where
  val : Byte
  mark : Bool
  crcOk : Bool
deriving DecidableEq

/-- The reader: below 64 it looks for the preamble, above it counts the cells of a byte. -/
structure MfmReader where
  sr : BitVec 16 := 0#16
  crc : BitVec 16 := 0xCDB4#16
  tss : Byte := 0#8
  sync : Nat := 0
deriving DecidableEq

/-- A cell inside of a byte. -/
def MfmReader.shifted (s : MfmReader) (bit : Bool) : MfmReader :=
  let fresh : Bool := s.sync = 65 ∨ s.sync = 81
  let sr := if fresh then 0#16 else s.sr
  let tss := if fresh then 0xFF#8 else s.tss
  let odd : Bool := s.sync % 2 = 1
  let bitIn : BitVec 16 := if bit then 1#16 else 0#16
  let sr := if odd then sr ||| bitIn <<< ((96 - s.sync) / 2 % 8) else sr
  let crc := if odd then crcBit crcPoly s.crc bit else s.crc
  let tss := tss <<< 1 ||| bitIn.setWidth 8
  let sr := if tss &&& 0x0F#8 = 1#8 ∧ odd = false then sr ||| kMark else sr
  ⟨sr, crc, tss, s.sync + 1⟩

/-- The end of a byte. -/
def MfmReader.closed (s : MfmReader) : MfmReader × List TByte :=
  let mark : Bool := s.sr &&& kMark ≠ 0#16
  if s.sync = 80 then
    if mark then ({ s with crc := 0xCDB4#16 }, [⟨s.sr.setWidth 8, true, false⟩])
    else ({ s with sync := 0 }, [])
  else if s.sync = 96 then
    ({ s with sync := 80, crc := if mark then 0xCDB4#16 else s.crc },
      [⟨s.sr.setWidth 8, mark, !mark && decide (s.crc = 0#16)⟩])
  else (s, [])

/-- One cell; at a splice the reader starts over. -/
def readMfm (s : MfmReader) (cell : Bool × Bool) : MfmReader × List TByte :=
  let s := if cell.1 then {} else s
  let bit := cell.2
  if s.sync < 64 then
    ({ s with sync := if bit ≠ decide (s.sync % 2 = 1) then s.sync + 1 else 0 }, [])
  else if s.sync = 64 ∧ bit then ({ s with sync := 63 }, [])
  else (s.shifted bit).closed

/-- The cells of a turn, and where a write was spliced in. -/
def splicedCells (d : SonyDrive) : List (Bool × Bool) :=
  d.cells.zipIdx.map fun (cell, pos) =>
    (decide (d.decodeWriteCellBegin = some pos ∨ d.decodeWriteCellEnd = some pos), cell)

def mfmBytes (d : SonyDrive) : List TByte :=
  (feed readMfm {} (d.splicedCells ++ d.splicedCells)).2

/-- Three marks and a byte that says what follows. -/
def fieldBegins (kind : Byte) : List TByte → Bool
  | a :: b :: c :: k :: _ =>
    a.mark && decide (a.val = 0xA1#8) && (b.mark && decide (b.val = 0xA1#8)) &&
      (c.mark && decide (c.val = 0xA1#8)) && (!k.mark && decide (k.val = kind))
  | _ => false

structure Pending where
  t : Nat
  h : Nat
  s : Int
  data : List Byte
deriving DecidableEq

/-- The first data field that checks, in a window behind an address. -/
def dataField : Nat → List TByte → Option (List Byte)
  | 0, _ => none
  | window + 1, bytes =>
    if bytes.length ≤ 517 then none
    else if fieldBegins 0xFB#8 bytes = true ∧ (bytes[517]?.map TByte.crcOk).getD false = true then
      some (((bytes.drop 4).take 512).map TByte.val)
    else dataField window bytes.tail

/-- The sector of an address that checks, with the data behind it. -/
def sectorAt (bytes : List TByte) : Option Pending :=
  if fieldBegins 0xFE#8 bytes = true ∧ (bytes[9]?.map TByte.crcOk).getD false = true then do
    let c ← bytes[4]?
    let h ← bytes[5]?
    let s ← bytes[6]?
    let data ← dataField 70 (bytes.drop 10)
    some ⟨c.val.toNat, (h.val &&& 1#8).toNat, s.val.toNat - 1, data⟩
  else none

/-- All sectors on the track. -/
def mfmSectors : List TByte → List Pending
  | [] => []
  | byte :: rest =>
    if rest.length < 10 then []
    else (sectorAt (byte :: rest)).toList ++ mfmSectors rest

def Pending.slot (p : Pending) : Nat × Nat × Int := (p.t, p.h, p.s)

/-- The first copy of each sector the cells of the track hold. -/
def pending (d : SonyDrive) : List Pending := firstBy Pending.slot (mfmSectors d.mfmBytes)

def commitPending (d : SonyDrive) (pending : List Pending) : SonyDrive :=
  pending.foldl (fun d p => (d.writeSector p.t p.h p.s p.data).1) d

def decodeMfmCells (d : SonyDrive) (turns : Nat) : Option SonyDrive := do
  let d ← d.cellsView turns
  if d.cells = [] then some d
  else
    let r := d.commitPending d.pending
    some (if d.pending = [] ∧ r.inFluxCommit = false then r.encodeTrack else r)

/-! ## The write of a controller -/

structure FluxWrite where
  startTick : Int
  totalTicks : Int
  atTicks : List Int
  mfm : Bool
  cellTicks : Int := 0

/-- A time into the turn. -/
def wrap (rev t : Int) : Int := if t.tmod rev < 0 then t.tmod rev + rev else t.tmod rev

namespace FluxWrite

def span (w : FluxWrite) (rev : Int) : Int := min w.totalTicks rev

/-- What a later pass of the same write has overwritten. -/
def discarded (w : FluxWrite) (rev : Int) : Int := w.totalTicks - w.span rev

/-- Where the last pass begins. -/
def origin (w : FluxWrite) (rev : Int) : Int := wrap rev (w.startTick + w.discarded rev)

def Erases (w : FluxWrite) (rev t : Int) : Prop :=
  (w.origin rev ≤ t ∧ t < w.origin rev + w.span rev) ∨
    (rev < w.origin rev + w.span rev ∧ t < w.origin rev + w.span rev - rev)

instance (w : FluxWrite) (rev t : Int) : Decidable (w.Erases rev t) :=
  inferInstanceAs (Decidable (_ ∨ _))

/-- The transitions of the write that stay. -/
def laid (w : FluxWrite) (rev : Int) : List Int :=
  (w.atTicks.filter fun t => w.discarded rev ≤ t ∧ t < w.totalTicks).map fun t =>
    wrap rev (w.origin rev + t - w.discarded rev)

/-- The flux behind a write: what it erased is gone, its own transitions are in. -/
def splice (w : FluxWrite) (rev : Int) (flux : List Int) : List Int :=
  let next := (flux.filter fun t => ¬w.Erases rev t) ++ w.laid rev
  (next.mergeSort fun a b => a ≤ b).destutter (· ≠ ·)

end FluxWrite

/-- The track with a write on it, before it is read back. -/
def spliced (d : SonyDrive) (w : FluxWrite) : SonyDrive :=
  { d with
    flux := w.splice d.fluxRev d.flux
    activeTrackWritten := true
    cellsDirty := true
    decodeCellTicks := if 0 < w.cellTicks then w.cellTicks else 0 }

/-- The track as the decoder is to see it: an MFM write brings a byte phase of its own. -/
def verified (d : SonyDrive) (w : FluxWrite) : SonyDrive :=
  { d.spliced w with
    decodeStartTick := if d.mediaMfm then w.origin d.fluxRev else 0
    decodeSpanTicks := if d.mediaMfm then w.span d.fluxRev else 0
    inFluxCommit := true }

def commitFlux (d : SonyDrive) (w : FluxWrite) (turns : Nat) : Option SonyDrive :=
  if d.hasDisk = false ∨ d.writeProtected ∨ d.fluxRev = 0 ∨ w.totalTicks ≤ 0 then some d
  else if d.native = false ∧ w.mfm ≠ d.mediaMfm then some d
  else if d.native then some { d.spliced w with dirty := true }
  else
    let decoded :=
      if d.mediaMfm then (d.verified w).decodeMfmCells turns
      else (d.verified w).decodeGcrCells turns
    decoded.map fun d => { d with inFluxCommit := false, decodeStartTick := 0, decodeSpanTicks := 0 }

end SonyDrive

end Pom68k.Floppy
