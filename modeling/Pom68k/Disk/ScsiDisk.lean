import Pom68k.Disk.Facade
import Pom68k.Disk.SameProcess
import Pom68k.Disk.RewindExact

/-! # A SCSI disk over an image file

The disk serves an image in memory, writes through to its backing file behind the
synthesised prefix, and logs every write with its timeline first.
-/

namespace Pom68k.Disk

open Foundation

/-- The geometry of a disk of 512-byte blocks. -/
def sectors (blocks : BitVec 32) : Geometry :=
  ⟨sectorSize, blocks.toNat, by decide, by decide, blocks.isLt⟩

/-- A block of an image. -/
def sector (img : List Byte) (lba : Nat) : Block sectorSize :=
  ⟨slice sectorSize 0#8 img lba, length_slice ..⟩

/-- An image as the timeline sees it. -/
def sectorsOf (blocks : BitVec 32) (img : List Byte) : Image (sectors blocks) :=
  fun lba => sector img lba

/-- The guest state a snapshot carries besides the disk: sense data, the selected unit,
the read counters and the audio transport. -/
structure ScsiRegs where
  senseKey : BitVec 8 := 0#8
  senseAsc : BitVec 8 := 0#8
  senseAscq : BitVec 8 := 0#8
  identifyLun : BitVec 8 := 0xFF#8
  readCommands : BitVec 64 := 0#64
  readBlocks : BitVec 64 := 0#64
  audio : BitVec 8 := 0#8
  audioLba : BitVec 32 := 0#32
  audioEnd : BitVec 32 := 0#32
  audioFrac : BitVec 64 := 0#64
  audioCycAcc : BitVec 64 := 0#64
deriving DecidableEq

/-- What the host offers when a disk is opened: the files at the template paths, whether
the backing file can be written, and the names of the journal and the medium. -/
structure ScsiHost where
  candidates : List (Option (List Byte))
  writable : Bool := true
  journalPath : String
  name : String

/-- A disk in a process: the image with its prefix, the backing file, and the timeline,
which was attached with `count` blocks. -/
structure ScsiDisk (count : BitVec 32) where
  image : List Byte
  blocks : BitVec 32
  hfsPrefixBlocks : BitVec 32
  writeBack : Bool
  file : List Byte
  regs : ScsiRegs
  timeline : Timeline (sectors count)

namespace ScsiDisk

/-- The image `open` serves for a file: cut down, or with a prefix of some blocks. -/
def serve (candidates : List (Option (List Byte))) (file : List Byte) : List Byte × Nat :=
  let img := (unwrapDriverless512Dump file).getD file
  match flatHfsPrefix candidates img with
  | some head => (head ++ img, facadePrefixBlocks)
  | none => (img, 0)

/-- The number of blocks of an image. -/
def countOf (img : List Byte) : BitVec 32 := BitVec.ofNat 32 (img.length / sectorSize)

/-- `open` in a new process, for a file that can be read and is served with some blocks.
An image without a whole block leaves the timeline detached. -/
def openAs (count : BitVec 32) (host : ScsiHost) (writeBack : Bool) (file : List Byte)
    (undo : Option (List Byte)) (journal : JournalHost) : ScsiDisk count :=
  let served := serve host.candidates file
  let writeBack := writeBack && (unwrapDriverless512Dump file).isNone && decide (count ≠ 0#32) &&
    host.writable
  { image := served.1
    blocks := count
    hfsPrefixBlocks := BitVec.ofNat 32 served.2
    writeBack := writeBack
    file := file
    regs := {}
    timeline :=
      if count = 0#32 then { file := undo }
      else ({ file := undo } : Timeline (sectors count)).attach (sectorsOf count served.1)
        (if writeBack then host.journalPath else "") host.name journal }

def openImage (host : ScsiHost) (writeBack : Bool) (file : List Byte) (undo : Option (List Byte))
    (journal : JournalHost) : ScsiDisk (countOf (serve host.candidates file).1) :=
  openAs _ host writeBack file undo journal

variable {count : BitVec 32}

/-- How the host carries out the writes of one request: journal records by block, and
the write to the backing file, which may stop after some bytes. -/
structure StoreHost where
  journal : Nat → Option Nat := fun _ => none
  file : Option Nat := none

/-- The bytes a request writes: not beyond the image, and not more than were given. -/
def writable (d : ScsiDisk count) (lba length : Nat) (data : List Byte) : Nat :=
  min (min (length * sectorSize) (d.image.length - lba * sectorSize)) data.length

/-- The new content of a block of a request; a short last block keeps its tail. -/
def nextSector (img : List Byte) (lba k size : Nat) (data : List Byte) : Block sectorSize :=
  let n := min (size - k * sectorSize) sectorSize
  ⟨slice sectorSize 0#8 (overwrite (sector img (lba + k)).1 0 ((data.drop (k * sectorSize)).take n))
    0, length_slice ..⟩

/-- The number of blocks some bytes take. -/
def blocksFor (size : Nat) : Nat := (size + (sectorSize - 1)) / sectorSize

/-- The history of a request, before anything is written. -/
def logRequest (d : ScsiDisk count) (lba size : Nat) (data : List Byte) (host : StoreHost) :
    Timeline (sectors count) :=
  (List.range (blocksFor size)).foldl
    (fun t k => t.willWrite (lba + k) (sector d.image (lba + k))
      (nextSector d.image lba k size data) (host.journal (lba + k)))
    d.timeline

/-- Writes through to the backing file. -/
def writeFile (d : ScsiDisk count) (offset : Nat) (data : List Byte) (host : StoreHost) :
    ScsiDisk count :=
  match host.file with
  | none => { d with file := overwrite d.file offset data }
  | some n => { d with file := overwrite d.file offset (data.take n), writeBack := false }

/-- The write-back of a request: the prefix is not in the file. -/
def writeThrough (d : ScsiDisk count) (lba length size : Nat) (data : List Byte)
    (host : StoreHost) : ScsiDisk count :=
  let skip := d.hfsPrefixBlocks.toNat - lba
  if d.writeBack = false ∨ size = 0 then d
  else if d.hfsPrefixBlocks ≠ 0#32 ∧ lba < d.hfsPrefixBlocks.toNat then
    if length ≤ skip ∨ size ≤ skip * sectorSize then d
    else d.writeFile 0 ((data.take size).drop (skip * sectorSize)) host
  else d.writeFile ((lba - d.hfsPrefixBlocks.toNat) * sectorSize) (data.take size) host

/-- `store`: log, copy, write through. -/
def store (d : ScsiDisk count) (lba length : Nat) (data : List Byte) (host : StoreHost) :
    ScsiDisk count :=
  if d.image.length ≤ lba * sectorSize then d
  else
    let size := d.writable lba length data
    { d with
      timeline := if d.timeline.attached then d.logRequest lba size data host else d.timeline
      image := overwrite d.image (lba * sectorSize) (data.take size) }.writeThrough lba length size
        data host

/-- A guest write: a request past the last block is refused and changes nothing. -/
def guestWrite (d : ScsiDisk count) (lba length : Nat) (data : List Byte) (host : StoreHost) :
    ScsiDisk count :=
  if lba + length ≤ d.blocks.toNat then d.store lba length data host else d

/-- The words of `visit` in front of the timeline. -/
def regBytes (d : ScsiDisk count) : List Byte :=
  putBytes 4 d.blocks ++ (putBytes 4 d.hfsPrefixBlocks ++ (putBytes 1 d.regs.senseKey ++
    (putBytes 1 d.regs.senseAsc ++ (putBytes 1 d.regs.senseAscq ++ (putBytes 1 d.regs.identifyLun ++
      (putBytes 8 d.regs.readCommands ++ (putBytes 8 d.regs.readBlocks ++ (putBytes 1 d.regs.audio ++
        (putBytes 4 d.regs.audioLba ++ (putBytes 4 d.regs.audioEnd ++
          (putBytes 8 d.regs.audioFrac ++ putBytes 8 d.regs.audioCycAcc)))))))))))

/-- The bytes `visit` writes. -/
def state (d : ScsiDisk count) : List Byte :=
  d.regBytes ++ d.timeline.chunk (sectorsOf count d.image)

/-- What saving does to the disk. -/
def save (d : ScsiDisk count) (landed : Option Nat) : ScsiDisk count :=
  { d with timeline := d.timeline.save (sectorsOf count d.image) landed }

/-- The words of `visit`, read back. -/
def readRegs (d : ScsiDisk count) (r : Reader) : ScsiDisk count × Reader :=
  let (blocks, r) := r.word 32 4
  let (hfsPrefixBlocks, r) := r.word 32 4
  let (senseKey, r) := r.word 8 1
  let (senseAsc, r) := r.word 8 1
  let (senseAscq, r) := r.word 8 1
  let (identifyLun, r) := r.word 8 1
  let (readCommands, r) := r.word 64 8
  let (readBlocks, r) := r.word 64 8
  let (audio, r) := r.word 8 1
  let (audioLba, r) := r.word 32 4
  let (audioEnd, r) := r.word 32 4
  let (audioFrac, r) := r.word 64 8
  let (audioCycAcc, r) := r.word 64 8
  ({ d with
    blocks := blocks
    hfsPrefixBlocks := hfsPrefixBlocks
    regs :=
      { senseKey, senseAsc, senseAscq, identifyLun, readCommands, readBlocks, audio, audioLba,
        audioEnd, audioFrac, audioCycAcc } }, r)

/-- The blocks of a plan, written as requests of one block. -/
def storePlan (d : ScsiDisk count) (plan : List (Nat × List Byte)) (host : StoreHost) :
    ScsiDisk count :=
  plan.foldl (fun d b => d.store b.1 1 b.2 host) d

/-- The end of `visit` with a reader: the plan goes through `store`, and the log follows
unless the state was refused. -/
def applyLoaded (d : ScsiDisk count) (loaded : Timeline.Loaded (sectors count))
    (host : StoreHost) : ScsiDisk count :=
  let plan : List (Nat × List Byte) := loaded.plan.map fun b => (b.1.val, b.2.1)
  let d := { d with timeline := loaded.timeline }.storePlan plan host
  if loaded.reader.ok then
    { d with timeline := d.timeline.commitLoad (sectorsOf count d.image) }
  else d

/-- `visit` with a reader. -/
def load (d : ScsiDisk count) (r : Reader) (host : StoreHost) : ScsiDisk count × Reader :=
  let (d, r) := d.readRegs r
  if 1000000 ≤ d.regs.audioFrac.toNat then (d, r.fail)
  else
    let loaded := d.timeline.load (sectorsOf count d.image) r
    (d.applyLoaded loaded host, loaded.reader)

end ScsiDisk

end Pom68k.Disk
