import Pom68k.Disk.ScsiStore

/-! # The commands of a SCSI target

One target serves three kinds of media: fixed disks, CD-ROM drives, and discs dumped with
512-byte blocks, which are removable disks. A command block is checked for its length, its
logical unit and a pending unit attention; a CD-ROM drive then answers what it does
differently, and the rest is shared.
-/

namespace Pom68k.Disk

open Foundation
open ScsiDisk (StoreHost)

inductive ScsiKind where
  | disk | cdrom | removable
deriving DecidableEq

inductive ScsiStatus where
  | good | check
deriving DecidableEq

def kNoSense : Byte := 0x00#8
def kNotReady : Byte := 0x02#8
def kIllegalRequest : Byte := 0x05#8
def kUnitAttention : Byte := 0x06#8
def kDataProtect : Byte := 0x07#8
def kMiscompare : Byte := 0x0E#8

def kAscLunNotSupported : Byte := 0x25#8

def kNoIdentify : Byte := 0xFF#8

/-- The operation codes the target knows. -/
inductive ScsiOp where
  | testUnitReady | rezeroUnit | requestSense | formatUnit | reassignBlocks | read6 | write6
  | seek6 | inquiry | modeSelect6 | modeSense6 | startStopUnit | sendDiagnostic
  | preventAllowRemoval | readCapacity | read10 | write10 | seek10 | writeAndVerify | verify
  | synchronizeCache | readDefectData | readSubChannel | readToc | playAudio | pauseResume
  | playAudioMsf | modeSelect10 | modeSense10 | unknown
deriving DecidableEq

def ScsiOp.ofByte (op : Byte) : ScsiOp :=
  match op.toNat with
  | 0x00 => .testUnitReady
  | 0x01 => .rezeroUnit
  | 0x03 => .requestSense
  | 0x04 => .formatUnit
  | 0x07 => .reassignBlocks
  | 0x08 => .read6
  | 0x0A => .write6
  | 0x0B => .seek6
  | 0x12 => .inquiry
  | 0x15 => .modeSelect6
  | 0x1A => .modeSense6
  | 0x1B => .startStopUnit
  | 0x1D => .sendDiagnostic
  | 0x1E => .preventAllowRemoval
  | 0x25 => .readCapacity
  | 0x28 => .read10
  | 0x2A => .write10
  | 0x2B => .seek10
  | 0x2E => .writeAndVerify
  | 0x2F => .verify
  | 0x35 => .synchronizeCache
  | 0x37 => .readDefectData
  | 0x42 => .readSubChannel
  | 0x43 => .readToc
  | 0x45 => .playAudio
  | 0x47 => .playAudioMsf
  | 0x4B => .pauseResume
  | 0x55 => .modeSelect10
  | 0x5A => .modeSense10
  | _ => .unknown

/-! ## Fields of a command block -/

/-- The length the group of an operation code fixes. -/
def groupLength (op : Byte) : Nat :=
  [6, 10, 10, 6, 16, 12, 6, 6].getD (op >>> 5).toNat 6

def cdbLba6 (cdb : List Byte) : Nat :=
  (byteAt cdb 1 &&& 0x1F#8).toNat * 65536 + be16 cdb 2

def cdbCount6 (cdb : List Byte) : Nat :=
  if byteAt cdb 4 = 0#8 then 256 else (byteAt cdb 4).toNat

def cdbLba10 (cdb : List Byte) : Nat := be32 cdb 2

def cdbCount10 (cdb : List Byte) : Nat := be16 cdb 7

/-- An allocation length of one byte, with what it is if none is given. -/
def cdbAlloc (cdb : List Byte) (default : Nat) : Nat :=
  if byteAt cdb 4 = 0#8 then default else (byteAt cdb 4).toNat

def bit (b mask : Byte) : Bool := b &&& mask ≠ 0#8

def be16Bytes (v : Nat) : List Byte := [BitVec.ofNat 8 (v / 256), BitVec.ofNat 8 v]

def be32Bytes (v : Nat) : List Byte := be16Bytes (v / 65536) ++ be16Bytes v

def textBytes (text : String) : List Byte := text.toList.map fun c => BitVec.ofNat 8 c.toNat

/-- A reply cut down to an allocation length of two bytes; zero leaves it whole. -/
def truncated (alloc : Nat) (reply : List Byte) : List Byte :=
  if alloc = 0 then reply else reply.take alloc

/-! ## The target -/

/-- A track as the cue sheet of a disc describes it. -/
structure CdTrack where
  number : Byte
  audio : Bool
  startLba : BitVec 32
  extentLba : BitVec 32
  flags : Byte

def CdTrack.adrControl (t : CdTrack) : Byte :=
  0x10#8 ||| t.flags ||| if t.audio then 0#8 else 0x04#8

/-- A target: the disk with its kind, and for a disc what its sheet says. -/
structure ScsiUnit (count : BitVec 32) where
  disk : ScsiDisk count
  kind : ScsiKind
  unitAttention : Bool := false
  audioOnly : Bool := false
  dataStartLba : BitVec 32 := 0#32
  discLba : BitVec 32 := 0#32
  tracks : List CdTrack := []
  ownInquiry : Bool := false

/-- What a command comes to. -/
structure ScsiOutcome (count : BitVec 32) where
  unit : ScsiUnit count
  status : ScsiStatus
  dataOut : List Byte

namespace ScsiUnit

variable {count : BitVec 32}

def dataEnd (u : ScsiUnit count) : Nat := u.dataStartLba.toNat + u.disk.blocks.toNat

def discLoaded (u : ScsiUnit count) : Bool := u.disk.blocks ≠ 0#32 || u.audioOnly

def blockSize (u : ScsiUnit count) : Nat := if u.kind = .cdrom then 2048 else sectorSize

def setRegs (u : ScsiUnit count) (regs : ScsiRegs) : ScsiUnit count :=
  { u with disk := { u.disk with regs := regs } }

def setSense (u : ScsiUnit count) (key asc : Byte) : ScsiUnit count :=
  u.setRegs { u.disk.regs with senseKey := key, senseAsc := asc, senseAscq := 0#8 }

/-- CHECK CONDITION with its sense. -/
def refuse (u : ScsiUnit count) (key asc : Byte) : ScsiOutcome count :=
  ⟨u.setSense key asc, .check, []⟩

def reply (u : ScsiUnit count) (dataOut : List Byte) : ScsiOutcome count := ⟨u, .good, dataOut⟩

/-- A command that needs a disc in the drive. -/
def whenLoaded (u : ScsiUnit count) (loaded : ScsiOutcome count) : ScsiOutcome count :=
  if u.discLoaded then loaded else u.refuse kNotReady 0x3A#8

/-- A command whose range must end on the medium. -/
def within (u : ScsiUnit count) (last : Nat) (inside : ScsiOutcome count) : ScsiOutcome count :=
  if last ≤ u.dataEnd then inside else u.refuse kIllegalRequest 0x24#8

/-- The logical unit of a command: that of the IDENTIFY message if one was sent. -/
def effectiveLun (u : ScsiUnit count) (cdb : List Byte) : Byte :=
  if u.disk.regs.identifyLun ≠ kNoIdentify then u.disk.regs.identifyLun &&& 0x07#8
  else (byteAt cdb 1 >>> 5) &&& 0x07#8

def selectLun (u : ScsiUnit count) (lun : Byte) : ScsiUnit count :=
  u.setRegs { u.disk.regs with identifyLun := lun }

/-- The bytes `read` returns, zeros where the image has none. -/
def readImage (u : ScsiUnit count) (lba blocks : Nat) : List Byte :=
  if u.kind = .cdrom then
    if lba < u.dataStartLba.toNat then List.replicate (blocks * 2048) 0#8
    else (u.disk.image.drop ((lba - u.dataStartLba.toNat) * 2048)).takeD (blocks * 2048) 0#8
  else (u.disk.image.drop (lba * sectorSize)).takeD (blocks * sectorSize) 0#8

def read (u : ScsiUnit count) (lba blocks : Nat) : ScsiOutcome count :=
  (u.setRegs { u.disk.regs with
    readCommands := u.disk.regs.readCommands + 1#64
    readBlocks := u.disk.regs.readBlocks + BitVec.ofNat 64 blocks }).reply (u.readImage lba blocks)

def write (u : ScsiUnit count) (lba blocks : Nat) (dataIn : List Byte) (host : StoreHost) :
    ScsiOutcome count :=
  { u with disk := u.disk.store lba blocks dataIn host }.reply []

/-- The drive is emptied; a removable disk leaves an empty CD-ROM drive behind. -/
def eject (u : ScsiUnit count) : ScsiUnit count :=
  { u with
    kind := if u.kind = .removable then .cdrom else u.kind
    disk := { u.disk with
      image := []
      blocks := 0#32
      hfsPrefixBlocks := 0#32
      writeBack := false
      timeline := u.disk.timeline.detach
      regs := { u.disk.regs with
        audio := 0#8, audioLba := 0#32, audioEnd := 0#32
        senseKey := kNotReady, senseAsc := 0x3A#8, senseAscq := 0#8 } }
    tracks := []
    discLba := 0#32
    audioOnly := false
    dataStartLba := 0#32
    unitAttention := false }

/-! ## Media -/

/-- The block size an Apple image declares, if it does. -/
def appleImageBlockSize (img : List Byte) : Option Nat :=
  if img.length < 1026 then none
  else if marked img 0 0x45#8 0x52#8 then
    if be16 img 2 = 512 ∨ be16 img 2 = 2048 then some (be16 img 2) else none
  else if marked img 1024 0x42#8 0x44#8 then some 512
  else none

/-- The user data of raw sectors. -/
def deframeMode1 (img : List Byte) : Option (List Byte) :=
  let sync : List Byte := 0x00#8 :: (List.replicate 10 0xFF#8 ++ [0x00#8])
  if img.length < 2352 ∨ img.length % 2352 ≠ 0 ∨ img.take 12 ≠ sync then none
  else
    some ((List.range (img.length / 2352)).flatMap fun i => (img.drop (i * 2352 + 16)).take 2048)

/-- What the host has for a disc: nothing it can read, an image, or a sheet with its
tracks and the data track. -/
inductive DiscFile where
  | missing
  | flat (bytes : List Byte)
  | sheet (tracks : List CdTrack) (leadOut dataStartLba : BitVec 32) (sectorBytes : Nat)
      (data : List Byte)

/-- A CD-ROM drive without a disc. -/
def emptied (u : ScsiUnit count) : ScsiUnit count :=
  { u with
    kind := .cdrom
    disk := { u.disk with
      image := []
      blocks := 0#32
      hfsPrefixBlocks := 0#32
      writeBack := false
      timeline := u.disk.timeline.detach
      regs := { u.disk.regs with audio := 0#8, audioLba := 0#32, audioEnd := 0#32 } }
    tracks := []
    discLba := 0#32
    audioOnly := false
    dataStartLba := 0#32
    unitAttention := false }

/-- The data of a disc is put in: its blocks decide the kind, and a bare HFS volume of
512-byte blocks gets its prefix. A drive that was there before owes a unit attention. -/
def load (u : ScsiUnit count) (candidates : List (Option (List Byte))) (image : List Byte)
    (change : Bool) : ScsiUnit count :=
  let size := if u.tracks ≠ [] then 2048 else (appleImageBlockSize image).getD 2048
  let blocks := image.length / size
  let head := if size = 512 ∧ blocks ≠ 0 then flatHfsPrefix candidates image else none
  { u with
    kind := if size = 2048 then .cdrom else .removable
    disk := { u.disk with
      image := head.getD [] ++ image
      blocks := BitVec.ofNat 32 (if head.isSome then facadePrefixBlocks + blocks else blocks)
      hfsPrefixBlocks := if head.isSome then BitVec.ofNat 32 facadePrefixBlocks else 0#32 }
    unitAttention := change && decide (blocks ≠ 0) }

/-- `openCdrom`. -/
def openCdrom (u : ScsiUnit count) (candidates : List (Option (List Byte))) (disc : DiscFile) :
    ScsiUnit count :=
  let change : Bool := u.kind ≠ .disk
  match disc with
  | .missing => u.emptied
  | .flat bytes =>
    if bytes = [] then u.emptied
    else if bytes.length % 2048 ≠ 0 then
      match deframeMode1 bytes with
      | none => u.emptied
      | some image => u.emptied.load candidates image change
    else u.emptied.load candidates ((deframeMode1 bytes).getD bytes) change
  | .sheet tracks leadOut dataStartLba sectorBytes data =>
    let drive :=
      { u.emptied with tracks := tracks, discLba := leadOut, dataStartLba := dataStartLba }
    if tracks ≠ [] ∧ tracks.all (fun t => t.audio) then
      { drive with audioOnly := true, unitAttention := change }
    else if sectorBytes = 2352 then
      match deframeMode1 data with
      | none => { u.emptied with dataStartLba := dataStartLba }
      | some image => drive.load candidates image change
    else drive.load candidates data change

/-! ## Mode pages -/

/-- A mode page of a disk. Asked for what can be changed, it says so. -/
def diskModePage (u : ScsiUnit count) (changeable : Bool) (page : Nat) : Option (List Byte) :=
  let zeros (n : Nat) : List Byte := List.replicate n 0#8
  let cylinders := u.disk.blocks.toNat / 8 / 25
  match page with
  | 0x01 => some ([0x01#8, 0x0A#8] ++ zeros 10)
  | 0x02 => some ([0x02#8, 0x0E#8] ++ zeros 14)
  | 0x03 =>
    some (if changeable then [0x83#8, 0x16#8] ++ zeros 10 ++ [0xFF#8, 0xFF#8] ++ zeros 10
      else [0x83#8, 0x16#8, 0#8, 0x08#8] ++ zeros 7 ++ [0x19#8] ++ be16Bytes sectorSize ++ zeros 10)
  | 0x04 =>
    some ([0x04#8, 0x16#8] ++
      if changeable then zeros 22
      else (be32Bytes cylinders).drop 1 ++ [0x08#8] ++ zeros 18)
  | 0x08 => some ([0x08#8, 0x0A#8] ++ zeros 10)
  | 0x30 =>
    some ([0x30#8, 0x1C#8] ++
      if changeable then zeros 28 else zeros 8 ++ textBytes "APPLE COMPUTER, INC.")
  | _ => none

/-- A mode page of a CD-ROM drive: the audio control, and the signature its driver looks
for. -/
def cdModePage (changeable : Bool) (page : Nat) : Option (List Byte) :=
  let hidden (body : List Byte) : List Byte :=
    if changeable then List.replicate body.length 0#8 else body
  match page with
  | 0x0E =>
    some ([0x8E#8, 0x0E#8] ++ hidden [0x04#8, 0x00#8, 0x00#8, 0x00#8, 0x00#8, 0x00#8, 0x01#8,
      0xFF#8, 0x02#8, 0xFF#8, 0x04#8, 0xFF#8, 0x08#8, 0xFF#8])
  | 0x30 => some ([0x30#8, 0x00#8] ++ hidden (textBytes "APPLE COMPUTER, INC   "))
  | _ => none

/-- The pages a command asks for, or nothing if the target does not have the page. -/
def modePages (u : ScsiUnit count) (changeable : Bool) (page : Nat) : Option (List Byte) :=
  if u.kind = .cdrom then
    if page = 0x3F then some ([0x0E, 0x30].flatMap fun p => (cdModePage changeable p).getD [])
    else cdModePage changeable page
  else if page = 0x3F then
    some ([0x01, 0x02, 0x03, 0x04, 0x08, 0x30].flatMap fun p =>
      (u.diskModePage changeable p).getD [])
  else u.diskModePage changeable page

/-- The block descriptor. A CD-ROM drive names its last block. -/
def blockDescriptor (u : ScsiUnit count) : List Byte :=
  let blocks :=
    if u.kind = .cdrom then
      if u.disk.blocks = 0#32 then 0 else u.disk.blocks.toNat - 1
    else u.disk.blocks.toNat
  [0x00#8] ++ (be32Bytes blocks).drop 1 ++ [0x00#8] ++ (be32Bytes u.blockSize).drop 1

/-- `modeSense`, with the header of six or of ten bytes. -/
def modeSense (u : ScsiUnit count) (cdb : List Byte) (ten : Bool) : ScsiOutcome count :=
  let page := (byteAt cdb 2 &&& 0x3F#8).toNat
  let changeable : Bool := (byteAt cdb 2 >>> 6) &&& 0x03#8 = 1#8
  match u.modePages changeable page with
  | none => u.refuse kIllegalRequest 0x24#8
  | some body =>
    let protect : Byte := if u.kind = .cdrom then 0x80#8 else 0x00#8
    let descriptor := if bit (byteAt cdb 1) 0x08#8 then [] else u.blockDescriptor
    let length : Byte := BitVec.ofNat 8 descriptor.length
    if ten then
      let out := [0#8, protect, 0#8, 0#8, 0#8, length] ++ descriptor ++ body
      u.reply (truncated (cdbCount10 cdb) (be16Bytes out.length ++ out))
    else
      let out := [0#8, protect, length] ++ descriptor ++ body
      u.reply (truncated (cdbAlloc cdb 4) (BitVec.ofNat 8 out.length :: out))

/-! ## The table of contents -/

/-- The tracks of a disc: control, number and start. A disc without a sheet is one data
track. -/
def tocEntries (u : ScsiUnit count) : List (Byte × Byte × BitVec 32) :=
  if u.tracks = [] then [(0x14#8, 1#8, 0#32)]
  else u.tracks.map fun t => (t.adrControl, t.number, t.startLba)

def leadOut (u : ScsiUnit count) : BitVec 32 :=
  if u.tracks ≠ [] ∧ u.discLba ≠ 0#32 then u.discLba else u.disk.blocks

/-- Minutes, seconds and frames of a count of frames. -/
def msfBytes (frames : BitVec 32) : List Byte :=
  [BitVec.ofNat 8 (frames.toNat / (60 * 75)), BitVec.ofNat 8 (frames.toNat / 75 % 60),
    BitVec.ofNat 8 (frames.toNat % 75)]

/-- A disc address in four bytes. -/
def addressBytes (msf : Bool) (lba : BitVec 32) : List Byte :=
  if msf then 0#8 :: msfBytes (lba + 150#32) else be32Bytes lba.toNat

/-- The descriptor of the raw table of contents for a point. -/
def tocPoint (control point : Byte) (position : List Byte) : List Byte :=
  [1#8, control, 0#8, point, 0#8, 0#8, 0#8, 0#8] ++ position

/-- The answer to READ TOC in the format asked for. -/
def toc (u : ScsiUnit count) (msf : Bool) (format : Nat) : Option (List Byte) :=
  let entries := u.tocEntries
  let first := entries.headD (0x14#8, 1#8, 0#32)
  let last := entries.getLastD (0x14#8, 1#8, 0#32)
  let sized (body : List Byte) : List Byte := be16Bytes body.length ++ body
  match format with
  | 0 =>
    some (sized ([first.2.1, last.2.1] ++
      (entries ++ [(last.1, 0xAA#8, u.leadOut)]).flatMap fun e =>
        [0#8, e.1, e.2.1, 0#8] ++ addressBytes msf e.2.2))
  | 1 =>
    some ([0#8, 10#8, 1#8, 1#8, 0#8, first.1, first.2.1, 0#8] ++ addressBytes msf first.2.2)
  | 2 =>
    some (sized ([1#8, 1#8] ++
      (tocPoint first.1 0xA0#8 [first.2.1, 0#8, 0#8] ++
        (tocPoint last.1 0xA1#8 [last.2.1, 0#8, 0#8] ++
          (tocPoint last.1 0xA2#8 (msfBytes (u.leadOut + 150#32)) ++
            entries.flatMap fun e => tocPoint e.1 e.2.1 (msfBytes (e.2.2 + 150#32)))))))
  | _ => none

def readToc (u : ScsiUnit count) (cdb : List Byte) : ScsiOutcome count :=
  let low := (byteAt cdb 2 &&& 0x0F#8).toNat
  let format := if low = 0 then (byteAt cdb 9 >>> 6).toNat else low
  match u.toc (bit (byteAt cdb 1) 0x02#8) format with
  | none => u.refuse kIllegalRequest 0x24#8
  | some bytes => u.reply (truncated (cdbCount10 cdb) bytes)

/-! ## CD audio -/

/-- The track a disc address lies in, if a sheet names one. -/
def trackAt (u : ScsiUnit count) (lba : BitVec 32) : Option CdTrack :=
  u.tracks.foldl (fun found t => if t.extentLba ≤ lba then some t else found) none

def playAudio (u : ScsiUnit count) (start stop : BitVec 32) : ScsiOutcome count :=
  if (u.trackAt start).any fun t => t.audio then
    let stop := if start ≤ stop then stop else start
    (u.setRegs { u.disk.regs with
      audioLba := start
      audioEnd := stop
      audioFrac := 0#64
      audio := if start < stop then 1#8 else 3#8 }).reply []
  else u.refuse kIllegalRequest 0x64#8

/-- The end of the disc, where a play without a length stops. -/
def discEnd (u : ScsiUnit count) : BitVec 32 :=
  if u.discLba ≠ 0#32 then u.discLba else u.disk.blocks

/-- The range of PLAY AUDIO(10). -/
def playRange (u : ScsiUnit count) (cdb : List Byte) : BitVec 32 × BitVec 32 :=
  let start := BitVec.ofNat 32 (cdbLba10 cdb)
  let length := cdbCount10 cdb
  (start, if length = 0 then u.discEnd else start + BitVec.ofNat 32 length)

/-- The block of three bytes of minutes, seconds and frames. -/
def msfLba (cdb : List Byte) (i : Nat) : BitVec 32 :=
  let frames := ((byteAt cdb i).toNat * 60 + (byteAt cdb (i + 1)).toNat) * 75 +
    (byteAt cdb (i + 2)).toNat
  BitVec.ofNat 32 (if 150 ≤ frames then frames - 150 else 0)

def pauseResume (u : ScsiUnit count) (resume : Bool) : ScsiOutcome count :=
  let audio := u.disk.regs.audio
  if audio = 0#8 then u.refuse kIllegalRequest 0x64#8
  else
    (u.setRegs { u.disk.regs with
      audio :=
        if resume then if audio = 2#8 then 1#8 else audio
        else if audio = 1#8 then 2#8 else audio }).reply []

/-- The current position of READ SUB-CHANNEL. -/
def subChannel (u : ScsiUnit count) (msf : Bool) : List Byte :=
  let lba := u.disk.regs.audioLba
  let position (frames : BitVec 32) : List Byte :=
    if msf then 0#8 :: msfBytes frames else be32Bytes frames.toNat
  let base := ((u.trackAt lba).map CdTrack.startLba).getD 0#32
  let index : Byte := if (u.trackAt lba).isSome ∧ lba < base then 0#8 else 1#8
  [12#8, 0x01#8, ((u.trackAt lba).map CdTrack.adrControl).getD 0x14#8,
    ((u.trackAt lba).map CdTrack.number).getD 1#8,
    if u.disk.regs.audio = 0#8 then 0#8 else index] ++
    (position (lba + if msf then 150#32 else 0#32) ++
      position (if msf ∧ lba < base then base - lba else lba - base))

def readSubChannel (u : ScsiUnit count) (cdb : List Byte) : ScsiOutcome count :=
  let alloc := cdbCount10 cdb
  let size := if alloc = 0 then 4 else alloc
  let state : Byte :=
    if u.disk.regs.audio = 1#8 then 0x11#8
    else if u.disk.regs.audio = 2#8 then 0x12#8
    else if u.disk.regs.audio = 3#8 then 0x13#8
    else 0x15#8
  let head := (List.replicate size 0#8).set 1 state
  if bit (byteAt cdb 2) 0x40#8 ∧ byteAt cdb 3 = 0x01#8 ∧ 16 ≤ size then
    u.reply (overwrite head 3 (u.subChannel (bit (byteAt cdb 1) 0x02#8)))
  else u.reply head

/-! ## The commands -/

/-- What START/STOP UNIT asks a CD-ROM drive for: stop and eject. -/
def ejects (cdb : List Byte) : Bool := bit (byteAt cdb 4) 0x02#8 && !bit (byteAt cdb 4) 0x01#8

/-- A read of a CD-ROM drive. There is no user data in audio tracks. -/
def refuseRead (u : ScsiUnit count) (lba : Nat) : Option (ScsiOutcome count) :=
  if u.discLoaded = false then some (u.refuse kNotReady 0x3A#8)
  else if u.audioOnly = true ∨ lba < u.dataStartLba.toNat then
    some (u.refuse kIllegalRequest 0x64#8)
  else none

/-- What a CD-ROM drive answers differently. -/
def cdCommand (u : ScsiUnit count) (cdb : List Byte) : ScsiOp → Option (ScsiOutcome count)
  | .testUnitReady => some (u.whenLoaded (u.reply []))
  | .inquiry =>
    some (u.reply (([0x05#8, 0x80#8, 0x02#8, 0x02#8, 0x20#8, 0#8, 0#8, 0#8] ++
      textBytes "SONY    CD-ROM CDU-8003A1.0i").takeD (cdbAlloc cdb 36) 0#8))
  | .readCapacity =>
    some (u.whenLoaded (u.reply (be32Bytes (u.discEnd - 1#32).toNat ++ be32Bytes 2048)))
  | .playAudio => some (u.whenLoaded (u.playAudio (u.playRange cdb).1 (u.playRange cdb).2))
  | .playAudioMsf => some (u.whenLoaded (u.playAudio (msfLba cdb 3) (msfLba cdb 6)))
  | .pauseResume => some (u.pauseResume (bit (byteAt cdb 8) 0x01#8))
  | .readToc => some (u.whenLoaded (u.readToc cdb))
  | .readSubChannel => some (u.whenLoaded (u.readSubChannel cdb))
  | .startStopUnit => some ((if ejects cdb then u.eject else u).reply [])
  | .modeSelect6 | .modeSelect10 | .preventAllowRemoval | .seek10 => some (u.reply [])
  | .write6 | .write10 | .writeAndVerify => some (u.refuse kDataProtect 0x27#8)
  | .reassignBlocks | .readDefectData => some (u.refuse kIllegalRequest 0x20#8)
  | .verify => some (u.whenLoaded (u.within (cdbLba10 cdb + cdbCount10 cdb) (u.reply [])))
  | .read6 => u.refuseRead (cdbLba6 cdb)
  | .read10 => u.refuseRead (cdbLba10 cdb)
  | _ => none

/-- The sense data, at most 18 bytes. -/
def senseData (u : ScsiUnit count) (cdb : List Byte) : List Byte :=
  let alloc := min (cdbAlloc cdb 4) 18
  [0x70#8, 0#8, u.disk.regs.senseKey &&& 0x0F#8, 0#8, 0#8, 0#8, 0#8,
    BitVec.ofNat 8 (min (alloc - 8) 10), 0#8, 0#8, 0#8, 0#8, u.disk.regs.senseAsc,
    u.disk.regs.senseAscq, 0#8, 0#8, 0#8, 0#8].take alloc

/-- A write to a medium that is not a dumped disc. -/
def writeUnlessRemovable (u : ScsiUnit count) (lba blocks : Nat) (dataIn : List Byte)
    (host : StoreHost) : ScsiOutcome count :=
  if u.kind = .removable then u.refuse kDataProtect 0x27#8
  else u.within (lba + blocks) (u.write lba blocks dataIn host)

/-- VERIFY with the bytes to compare. -/
def compares (u : ScsiUnit count) (cdb dataIn : List Byte) : Bool :=
  let off := cdbLba10 cdb * sectorSize
  let n := cdbCount10 cdb * sectorSize
  decide (off + n ≤ u.disk.image.length) && decide (n ≤ dataIn.length) &&
    decide ((u.disk.image.drop off).take n = dataIn.take n)

def diskCommand (u : ScsiUnit count) (cdb dataIn : List Byte) (host : StoreHost) :
    ScsiOp → ScsiOutcome count
  | .testUnitReady =>
    if u.kind = .removable ∧ u.disk.blocks = 0#32 then u.refuse kNotReady 0x3A#8
    else u.reply []
  | .requestSense => (u.setSense kNoSense 0x00#8).reply (u.senseData cdb)
  | .inquiry =>
    let removable : Byte := if u.kind = .removable then 0x80#8 else 0x00#8
    let id :=
      if u.ownInquiry then "POM68K  POM68K HD DISK  1.0 " else " SEAGATE          ST225N1.0 "
    u.reply (([0x00#8, removable, 0x01#8, 0#8, 31#8, 0#8, 0#8, 0#8] ++ textBytes id).takeD
      (cdbAlloc cdb 36) 0#8)
  | .readCapacity => u.reply (be32Bytes (u.disk.blocks.toNat - 1) ++ be32Bytes sectorSize)
  | .read6 => u.within (cdbLba6 cdb + cdbCount6 cdb) (u.read (cdbLba6 cdb) (cdbCount6 cdb))
  | .read10 => u.within (cdbLba10 cdb + cdbCount10 cdb) (u.read (cdbLba10 cdb) (cdbCount10 cdb))
  | .modeSense6 => u.modeSense cdb false
  | .modeSense10 => u.modeSense cdb true
  | .write6 => u.writeUnlessRemovable (cdbLba6 cdb) (cdbCount6 cdb) dataIn host
  | .write10 => u.writeUnlessRemovable (cdbLba10 cdb) (cdbCount10 cdb) dataIn host
  -- the medium is not asked for here
  | .writeAndVerify =>
    u.within (cdbLba10 cdb + cdbCount10 cdb)
      (u.write (cdbLba10 cdb) (cdbCount10 cdb) dataIn host)
  | .modeSelect6 | .modeSelect10 | .rezeroUnit | .sendDiagnostic | .preventAllowRemoval
  | .startStopUnit | .reassignBlocks | .synchronizeCache => u.reply []
  | .seek6 => u.within (cdbLba6 cdb + 1) (u.reply [])
  | .seek10 => u.within (cdbLba10 cdb + 1) (u.reply [])
  | .verify =>
    u.within (cdbLba10 cdb + cdbCount10 cdb)
      (if bit (byteAt cdb 1) 0x02#8 = true ∧ u.compares cdb dataIn = false then
        u.refuse kMiscompare 0x1D#8
      else u.reply [])
  | .readDefectData =>
    u.reply (truncated (cdbCount10 cdb) [0#8, byteAt cdb 2 &&& 0x1F#8, 0#8, 0#8])
  | .formatUnit => if u.kind = .disk then u.reply [] else u.refuse kIllegalRequest 0x20#8
  | _ => u.refuse kIllegalRequest 0x20#8

/-- A command that has passed the checks of its block. A medium change is reported once
before anything but INQUIRY and REQUEST SENSE. -/
def execute (u : ScsiUnit count) (cdb dataIn : List Byte) (host : StoreHost) (op : ScsiOp) :
    ScsiOutcome count :=
  if u.kind ≠ .disk ∧ u.unitAttention = true ∧ op ≠ .requestSense ∧ op ≠ .inquiry then
    { u with unitAttention := false }.refuse kUnitAttention 0x28#8
  else if u.kind = .cdrom then (u.cdCommand cdb op).getD (u.diskCommand cdb dataIn host op)
  else u.diskCommand cdb dataIn host op

/-- The pending sense belongs to the command before. -/
def clearSense (u : ScsiUnit count) (op : ScsiOp) : ScsiUnit count :=
  if op = .requestSense then u else u.setSense kNoSense 0x00#8

def command (u : ScsiUnit count) (cdb dataIn : List Byte) (host : StoreHost) :
    ScsiOutcome count :=
  let op := ScsiOp.ofByte (byteAt cdb 0)
  let u' := u.clearSense op
  if cdb = [] then u.refuse kIllegalRequest 0x20#8
  else if cdb.length < groupLength (byteAt cdb 0) then u'.refuse kIllegalRequest 0x20#8
  else if u'.effectiveLun cdb ≠ 0#8 then
    if op = .inquiry then u'.reply ([0x7F#8, 0#8, 0#8, 0#8, 0x20#8].takeD (cdbAlloc cdb 36) 0#8)
    else if op = .requestSense then
      (u'.setSense kIllegalRequest kAscLunNotSupported).execute cdb dataIn host op
    else u'.refuse kIllegalRequest kAscLunNotSupported
  else u'.execute cdb dataIn host op

end ScsiUnit

end Pom68k.Disk
