import Pom68k.Disk.ScsiDisk

/-! # An ATA drive

The drive behind an IDE port: a task file of registers, a sector buffer the data port
reads and writes a word at a time, and the medium. One path stores sectors: history
first, then memory, then the backing file.
-/

namespace Pom68k.Disk

open Foundation
open ScsiDisk (StoreHost)

/-! ## Registers and commands -/

def kBsy : Byte := 0x80#8
def kDrdy : Byte := 0x40#8
def kDsc : Byte := 0x10#8
def kDrq : Byte := 0x08#8
def kErr : Byte := 0x01#8

def kAbrt : Byte := 0x04#8
def kIdnf : Byte := 0x10#8

/-- The task file by its register numbers. Number 1 is the error register when read and
the features when written, 7 is status and command, 14 the alternate status and the
device control. -/
inductive AtaReg where
  | error | sectorCount | lbaLow | lbaMid | lbaHigh | device | status | altStatus | unused
deriving DecidableEq

def AtaReg.ofByte (reg : Byte) : AtaReg :=
  match reg.toNat with
  | 1 => .error
  | 2 => .sectorCount
  | 3 => .lbaLow
  | 4 => .lbaMid
  | 5 => .lbaHigh
  | 6 => .device
  | 7 => .status
  | 14 => .altStatus
  | _ => .unused

/-- The commands the drive knows. -/
inductive AtaCommand where
  | identify | readSectors | writeSectors | readVerify | initParameters | readBuffer
  | writeBuffer | diagnostic | flushCache | setFeatures | unknown
deriving DecidableEq

def AtaCommand.ofByte (op : Byte) : AtaCommand :=
  match op.toNat with
  | 0xEC => .identify
  | 0x20 | 0x21 => .readSectors
  | 0x30 | 0x31 => .writeSectors
  | 0x40 | 0x41 => .readVerify
  | 0x91 => .initParameters
  | 0xE4 => .readBuffer
  | 0xE8 => .writeBuffer
  | 0x90 => .diagnostic
  | 0xE7 | 0xEA => .flushCache
  | 0xEF => .setFeatures
  | _ => .unknown

/-- The registers a snapshot carries. -/
structure AtaRegs where
  status : Byte := 0#8
  error : Byte := 0#8
  features : Byte := 0#8
  sectorCountReg : Byte := 0#8
  lbaLow : Byte := 0#8
  lbaMid : Byte := 0#8
  lbaHigh : Byte := 0#8
  device : Byte := 0#8
  pending : BitVec 32 := 0#32
  writing : Bool := false
  irq : Bool := false
  nIen : Bool := false
  srstHeld : Bool := false
  bufferAt : BitVec 64 := 0#64
  currentLba : BitVec 32 := 0#32
  heads : Byte := 16#8
  sectorsPerTrack : Byte := 63#8
  cylinders : BitVec 32 := 0#32
deriving DecidableEq

/-! ## The sector buffer -/

/-- The buffer behind the data port is empty or holds one sector. -/
abbrev PioBuffer := { bytes : List Byte // bytes = [] ∨ bytes.length = sectorSize }

namespace PioBuffer

def empty : PioBuffer := ⟨[], .inl rfl⟩

def ofBlock (data : Block sectorSize) : PioBuffer := ⟨data.1, .inr data.2⟩

def zeros : PioBuffer := ofBlock ⟨List.replicate sectorSize 0#8, List.length_replicate⟩

theorem size_set {bytes : List Byte} (size : bytes = [] ∨ bytes.length = sectorSize) (i : Nat)
    (byte : Byte) : bytes.set i byte = [] ∨ (bytes.set i byte).length = sectorSize := by
  rwa [List.length_set, List.set_eq_nil_iff]

/-- A word goes into the buffer with its low byte first. -/
def putWord (buffer : PioBuffer) (i : Nat) (w : BitVec 16) : PioBuffer :=
  ⟨(buffer.1.set i (w.setWidth 8)).set (i + 1) ((w >>> 8).setWidth 8),
    size_set (size_set buffer.2 i _) (i + 1) _⟩

def word (buffer : PioBuffer) (i : Nat) : BitVec 16 :=
  (buffer.1.getD i 0#8).setWidth 16 ||| (buffer.1.getD (i + 1) 0#8).setWidth 16 <<< 8

/-- The buffer as a sector, the missing bytes zero. -/
def sector (buffer : PioBuffer) : Block sectorSize :=
  ⟨buffer.1.takeD sectorSize 0#8, List.takeD_length ..⟩

end PioBuffer

/-! ## The medium -/

/-- The medium of a drive: the image with its history, and the backing file. -/
structure AtaMedium (count : BitVec 32) where
  world : World (sectors count)
  writeBack : Bool
  file : List Byte

namespace AtaMedium

variable {count : BitVec 32}

/-- The bytes of a sector, zeros outside the image. -/
def sector (m : AtaMedium count) (lba : Nat) : Block sectorSize :=
  if inside : lba < count.toNat then m.world.image ⟨lba, inside⟩
  else ⟨List.replicate sectorSize 0#8, List.length_replicate⟩

/-- `storeSector`. The file is opened for each sector; a host that cannot write all of it
leaves the first bytes. -/
def storeSector (m : AtaMedium count) (lba : Nat) (data : Block sectorSize) (host : StoreHost) :
    AtaMedium count :=
  if inside : lba < count.toNat then
    { m with
      world := m.world.write ⟨lba, inside⟩ data (host.journal lba)
      file :=
        if m.writeBack then
          overwrite m.file (lba * sectorSize) (data.1.take (host.file.getD sectorSize))
        else m.file }
  else m

/-- The medium's part of `visit` with a reader. -/
def restore (m : AtaMedium count) (r : Reader) (host : StoreHost) : AtaMedium count × Reader :=
  let loaded := m.world.timeline.load m.world.image r
  let m := { m with world := { m.world with timeline := loaded.timeline } }
  let m := loaded.plan.foldl (fun m b => m.storeSector b.1 b.2 host) m
  let world :=
    if loaded.reader.ok then
      { m.world with timeline := m.world.timeline.commitLoad m.world.image }
    else m.world
  ({ m with world := world }, loaded.reader)

end AtaMedium

/-! ## The drive -/

structure AtaDisk (count : BitVec 32) extends AtaRegs where
  buffer : PioBuffer
  medium : AtaMedium count

namespace AtaDisk

variable {count : BitVec 32}

/-- A drive is there when it has sectors. -/
def present (_ : AtaDisk count) : Bool := count ≠ 0#32

/-- The reset leaves the device signature in the task file. -/
def reset (d : AtaDisk count) : AtaDisk count :=
  { d with
    status := if d.present then kDrdy ||| kDsc else 0#8
    error := if d.present then 1#8 else 0#8
    sectorCountReg := if d.present then 1#8 else 0#8
    lbaLow := if d.present then 1#8 else 0#8
    lbaMid := 0#8
    lbaHigh := 0#8
    device := 0#8
    features := 0#8
    buffer := .empty
    bufferAt := 0#64
    pending := 0#32
    writing := false
    irq := false }

/-- The geometry `open` gives an image: heads, sectors of a track, cylinders. -/
def chs (count : BitVec 32) : Byte × Byte × BitVec 32 :=
  let cylinders := count / (16#32 * 63#32)
  if cylinders = 0#32 then (1#8, 1#8, count) else (16#8, 63#8, cylinders)

/-- `open` of a file with some sectors. Without one the port stays as it was made. -/
def openAs (count : BitVec 32) (path name : String) (writeBack : Bool) (file : List Byte)
    (undo : Option (List Byte)) (journal : JournalHost) : AtaDisk count :=
  let world := World.initial path name (sectorsOf count file) undo
  if count = 0#32 then
    { buffer := .empty, medium := { world := world, writeBack := false, file := file } }
  else
    { heads := (chs count).1
      sectorsPerTrack := (chs count).2.1
      cylinders := (chs count).2.2
      buffer := .empty
      medium :=
        { world := world.step (.attach writeBack journal), writeBack := writeBack, file := file }
      : AtaDisk count }.reset

/-- `open`: a file that is empty or not a whole number of sectors is not taken. -/
def openImage (path name : String) (writeBack : Bool) (file : List Byte)
    (undo : Option (List Byte)) (journal : JournalHost) :
    Option (AtaDisk (ScsiDisk.countOf file)) :=
  if file = [] ∨ file.length % sectorSize ≠ 0 then none
  else some (openAs _ path name writeBack file undo journal)

/-! ### Register access -/

def lbaMode (d : AtaDisk count) : Bool := d.device &&& 0x40#8 ≠ 0#8

/-- Where the next transfer starts, by block or by cylinder, head and sector. -/
def address (d : AtaDisk count) : BitVec 32 :=
  if d.lbaMode then
    (d.device &&& 0x0F#8).setWidth 32 <<< 24 ||| d.lbaHigh.setWidth 32 <<< 16 |||
      d.lbaMid.setWidth 32 <<< 8 ||| d.lbaLow.setWidth 32
  else
    let c := d.lbaHigh.setWidth 32 <<< 8 ||| d.lbaMid.setWidth 32
    let h := (d.device &&& 0x0F#8).setWidth 32
    let s := if d.lbaLow = 0#8 then 1#32 else d.lbaLow.setWidth 32
    (c * d.heads.setWidth 32 + h) * d.sectorsPerTrack.setWidth 32 + (s - 1#32)

def setAddress (d : AtaDisk count) (lba : BitVec 32) : AtaDisk count :=
  if d.lbaMode then
    { d with
      lbaLow := lba.setWidth 8
      lbaMid := (lba >>> 8).setWidth 8
      lbaHigh := (lba >>> 16).setWidth 8
      device := (d.device &&& 0xF0#8) ||| ((lba >>> 24).setWidth 8 &&& 0x0F#8) }
  else d

def raiseIrq (d : AtaDisk count) : AtaDisk count :=
  { d with irq := if d.nIen then d.irq else true }

def fail (d : AtaDisk count) (error : Byte) : AtaDisk count :=
  { d with
    status := d.status &&& ~~~(kDrq ||| kBsy) ||| kErr ||| kDrdy
    error := error
    buffer := .empty
    bufferAt := 0#64
    pending := 0#32
    writing := false }.raiseIrq

/-- A command that is done at once. -/
def done (d : AtaDisk count) : AtaDisk count := { d with status := kDrdy ||| kDsc }.raiseIrq

/-- The words of `identify`: a text is space-padded, the first of two characters high. -/
def identifyText (first words : Nat) (text : String) : List (Nat × BitVec 16) :=
  let char (i : Nat) : BitVec 16 := BitVec.ofNat 16 (text.toList.getD i ' ').toNat
  (List.range words).map fun i => (first + i, char (2 * i) <<< 8 ||| char (2 * i + 1))

def identifyWords (d : AtaDisk count) : List (Nat × BitVec 16) :=
  let cylinders : BitVec 16 :=
    if 65535 < d.cylinders.toNat then 65535#16 else d.cylinders.setWidth 16
  let heads := d.heads.setWidth 16
  let track := d.sectorsPerTrack.setWidth 16
  let low : BitVec 16 := count.setWidth 16
  let high : BitVec 16 := (count >>> 16).setWidth 16
  [(0, 0x0040#16), (1, cylinders), (3, heads), (6, track)] ++
    (identifyText 10 10 "POM68K-ATA-0001" ++ (identifyText 23 4 "1.0" ++
      (identifyText 27 20 "POM68K ATA Disk" ++
        [(47, 0x8001#16), (49, 0x0200#16), (53, 0x0003#16), (54, cylinders), (55, heads),
          (56, track), (57, low), (58, high), (60, low), (61, high)])))

def identifyData (d : AtaDisk count) : PioBuffer :=
  d.identifyWords.foldl (fun buffer w => buffer.putWord (2 * w.1) w.2) .zeros

def identify (d : AtaDisk count) : AtaDisk count :=
  { d with
    buffer := d.identifyData
    bufferAt := 0#64
    pending := 0#32
    writing := false
    status := kDrdy ||| kDsc ||| kDrq }.raiseIrq

def loadSector (d : AtaDisk count) : AtaDisk count :=
  { d with
    buffer := .ofBlock (d.medium.sector d.currentLba.toNat)
    bufferAt := 0#64
    status := kDrdy ||| kDsc ||| kDrq }.raiseIrq

/-- The number of sectors a command asks for. -/
def requested (d : AtaDisk count) : BitVec 32 :=
  if d.sectorCountReg = 0#8 then 256#32 else d.sectorCountReg.setWidth 32

/-- Whether the range of a command lies on the medium. -/
def inRange (d : AtaDisk count) : Bool :=
  d.address.toNat + d.requested.toNat ≤ count.toNat

/-- A command that moves sectors takes its range from the task file. -/
def aim (d : AtaDisk count) : AtaDisk count :=
  { d with currentLba := d.address, pending := d.requested }

def startRead (d : AtaDisk count) : AtaDisk count :=
  if d.inRange then { d.aim with writing := false }.loadSector else d.aim.fail kIdnf

def startWrite (d : AtaDisk count) : AtaDisk count :=
  if d.inRange then
    { d.aim with
      writing := true
      buffer := .zeros
      bufferAt := 0#64
      status := kDrdy ||| kDsc ||| kDrq }
  else d.aim.fail kIdnf

def initParameters (d : AtaDisk count) : AtaDisk count :=
  let heads := (d.device &&& 0x0F#8) + 1#8
  let track := if d.sectorCountReg = 0#8 then 1#8 else d.sectorCountReg
  { d with
    heads := heads
    sectorsPerTrack := track
    cylinders := count / (heads.setWidth 32 * track.setWidth 32) }.done

def readBuffer (d : AtaDisk count) : AtaDisk count :=
  { d with
    bufferAt := 0#64
    buffer := if d.buffer.1.length = sectorSize then d.buffer else .zeros
    writing := false
    pending := 0#32
    status := kDrdy ||| kDsc ||| kDrq }.raiseIrq

def writeBuffer (d : AtaDisk count) : AtaDisk count :=
  { d with
    buffer := .zeros
    bufferAt := 0#64
    writing := true
    pending := 0#32
    status := kDrdy ||| kDsc ||| kDrq }

def execute (d : AtaDisk count) : AtaCommand → AtaDisk count
  | .identify => d.identify
  | .readSectors => d.startRead
  | .writeSectors => d.startWrite
  | .readVerify => d.done
  | .initParameters => d.initParameters
  | .readBuffer => d.readBuffer
  | .writeBuffer => d.writeBuffer
  | .diagnostic => { d with error := 1#8 }.done
  | .flushCache => d.done
  | .setFeatures => d.done
  | .unknown => d.fail kAbrt

def clearError (d : AtaDisk count) : AtaDisk count :=
  { d with error := 0#8, status := d.status &&& ~~~kErr }

/-- `command`: the error of the last one is cleared before anything else. -/
def command (d : AtaDisk count) (op : Byte) : AtaDisk count :=
  if d.present then d.clearError.execute (AtaCommand.ofByte op) else d.clearError.fail kAbrt

/-- A read of the status register also takes the interrupt away. -/
def readRegister (d : AtaDisk count) (reg : Byte) : Byte × AtaDisk count :=
  match AtaReg.ofByte reg with
  | .error => (d.error, d)
  | .sectorCount => (d.sectorCountReg, d)
  | .lbaLow => (d.lbaLow, d)
  | .lbaMid => (d.lbaMid, d)
  | .lbaHigh => (d.lbaHigh, d)
  | .device => (d.device, d)
  | .status => (d.status, { d with irq := false })
  | .altStatus => (d.status, d)
  | .unused => (0#8, d)

/-- The device control register: a software reset is held, then released. -/
def deviceControl (d : AtaDisk count) (v : Byte) : AtaDisk count :=
  let d :=
    if v &&& 0x04#8 ≠ 0#8 then { d with srstHeld := true }
    else if d.srstHeld then { d with srstHeld := false }.reset
    else d
  { d with nIen := v &&& 0x02#8 ≠ 0#8 }

def writeRegister (d : AtaDisk count) (reg v : Byte) : AtaDisk count :=
  match AtaReg.ofByte reg with
  | .error => { d with features := v }
  | .sectorCount => { d with sectorCountReg := v }
  | .lbaLow => { d with lbaLow := v }
  | .lbaMid => { d with lbaMid := v }
  | .lbaHigh => { d with lbaHigh := v }
  | .device => { d with device := v }
  | .status => d.command v
  | .altStatus => d.deviceControl v
  | .unused => d

/-! ### The data port -/

/-- One sector of a command is done. -/
def countDown (d : AtaDisk count) : AtaDisk count :=
  { d with pending := if d.pending = 0#32 then 0#32 else d.pending - 1#32 }

def nextLba (d : AtaDisk count) : AtaDisk count :=
  { d with currentLba := d.currentLba + 1#32 }.setAddress (d.currentLba + 1#32)

/-- The buffer was read to its end: the next sector of the command, or none. -/
def nextReadSector (d : AtaDisk count) : AtaDisk count :=
  if d.writing then d
  else if d.countDown.pending = 0#32 then
    { d.countDown with buffer := .empty, bufferAt := 0#64, status := kDrdy ||| kDsc }.setAddress
      d.currentLba
  else d.countDown.nextLba.loadSector

/-- The index of the buffer goes on by a word. -/
def advance (d : AtaDisk count) : AtaDisk count := { d with bufferAt := d.bufferAt + 2#64 }

def readData (d : AtaDisk count) : BitVec 16 × AtaDisk count :=
  if d.buffer.1 = [] then (0#16, d)
  else
    (if d.bufferAt.toNat + 1 < d.buffer.1.length then d.buffer.word d.bufferAt.toNat else 0#16,
      if d.buffer.1.length ≤ d.advance.bufferAt.toNat then d.advance.nextReadSector
      else d.advance)

def storeBuffer (d : AtaDisk count) (host : StoreHost) : AtaDisk count :=
  { d with medium := d.medium.storeSector d.currentLba.toNat d.buffer.sector host }

/-- The buffer was written to its end: the sector goes onto the medium, unless it was the
drive's own buffer that was written. -/
def commitWrittenSector (d : AtaDisk count) (host : StoreHost) : AtaDisk count :=
  if d.pending = 0#32 then
    { d with bufferAt := 0#64, writing := false, status := kDrdy ||| kDsc }.raiseIrq
  else if (d.storeBuffer host).countDown.pending = 0#32 then
    ({ (d.storeBuffer host).countDown with
      buffer := .empty
      bufferAt := 0#64
      writing := false
      status := kDrdy ||| kDsc }.setAddress d.currentLba).raiseIrq
  else
    { (d.storeBuffer host).countDown.nextLba with
      buffer := .zeros
      bufferAt := 0#64
      status := kDrdy ||| kDsc ||| kDrq }.raiseIrq

/-- A word goes into the buffer, if it has room left. -/
def latch (d : AtaDisk count) (w : BitVec 16) : AtaDisk count :=
  { d with
    buffer :=
      if d.bufferAt.toNat + 1 < d.buffer.1.length then d.buffer.putWord d.bufferAt.toNat w
      else d.buffer }

def writeData (d : AtaDisk count) (w : BitVec 16) (host : StoreHost) : AtaDisk count :=
  if d.writing = false ∨ d.buffer.1 = [] then d
  else if (d.latch w).advance.buffer.1.length ≤ (d.latch w).advance.bufferAt.toNat then
    (d.latch w).advance.commitWrittenSector host
  else (d.latch w).advance

/-- The accesses of a guest. -/
inductive Access where
  | readRegister (reg : Byte)
  | writeRegister (reg v : Byte)
  | readData
  | writeData (w : BitVec 16) (host : StoreHost)

def step (d : AtaDisk count) : Access → AtaDisk count
  | .readRegister reg => (d.readRegister reg).2
  | .writeRegister reg v => d.writeRegister reg v
  | .readData => d.readData.2
  | .writeData w host => d.writeData w host

/-! ### Save states -/

/-- A flag in an archive. -/
def flagByte (b : Bool) : List Byte := putBytes 1 (if b then 1#8 else 0#8)

def readFlag (r : Reader) : Bool × Reader := (decide ((r.word 8 1).1 ≠ 0#8), (r.word 8 1).2)

end AtaDisk

namespace AtaRegs

/-- The words of `visit` in front of the buffer. -/
def bytes (regs : AtaRegs) : List Byte :=
  putBytes 1 regs.status ++ (putBytes 1 regs.error ++ (putBytes 1 regs.features ++
    (putBytes 1 regs.sectorCountReg ++ (putBytes 1 regs.lbaLow ++ (putBytes 1 regs.lbaMid ++
      (putBytes 1 regs.lbaHigh ++ (putBytes 1 regs.device ++ (putBytes 4 regs.pending ++
        (AtaDisk.flagByte regs.writing ++ (AtaDisk.flagByte regs.irq ++
          (AtaDisk.flagByte regs.nIen ++ (AtaDisk.flagByte regs.srstHeld ++
            (putBytes 8 regs.bufferAt ++ (putBytes 4 regs.currentLba ++ (putBytes 1 regs.heads ++
              (putBytes 1 regs.sectorsPerTrack ++ putBytes 4 regs.cylinders))))))))))))))))

/-- The words of `visit`, read back. -/
def read (r : Reader) : AtaRegs × Reader :=
  let (status, r) := r.word 8 1
  let (error, r) := r.word 8 1
  let (features, r) := r.word 8 1
  let (sectorCountReg, r) := r.word 8 1
  let (lbaLow, r) := r.word 8 1
  let (lbaMid, r) := r.word 8 1
  let (lbaHigh, r) := r.word 8 1
  let (device, r) := r.word 8 1
  let (pending, r) := r.word 32 4
  let (writing, r) := AtaDisk.readFlag r
  let (irq, r) := AtaDisk.readFlag r
  let (nIen, r) := AtaDisk.readFlag r
  let (srstHeld, r) := AtaDisk.readFlag r
  let (bufferAt, r) := r.word 64 8
  let (currentLba, r) := r.word 32 4
  let (heads, r) := r.word 8 1
  let (sectorsPerTrack, r) := r.word 8 1
  let (cylinders, r) := r.word 32 4
  ({ status, error, features, sectorCountReg, lbaLow, lbaMid, lbaHigh, device, pending, writing,
     irq, nIen, srstHeld, bufferAt, currentLba, heads, sectorsPerTrack, cylinders }, r)

/-- What the loader asks of the registers of a drive with some sectors. -/
@[mk_iff] structure Sound (count : BitVec 32) (regs : AtaRegs) : Prop where
  even : regs.bufferAt &&& 1#64 = 0#64
  heads : regs.heads ≠ 0#8 ∧ regs.heads.toNat ≤ 16
  track : regs.sectorsPerTrack ≠ 0#8
  few : regs.pending.toNat ≤ 256
  range : regs.pending ≠ 0#32 → regs.currentLba.toNat + regs.pending.toNat ≤ count.toNat

/-- What it asks of registers that come with a buffer of some size. -/
@[mk_iff] structure Accepted (count : BitVec 32) (size : Nat) (regs : AtaRegs) : Prop
    extends Sound count regs where
  sector : size = 0 ∨ size = sectorSize
  room : regs.bufferAt.toNat ≤ size

instance (count : BitVec 32) (regs : AtaRegs) : Decidable (Sound count regs) :=
  decidable_of_iff' _ (sound_iff count regs)

instance (count : BitVec 32) (size : Nat) (regs : AtaRegs) :
    Decidable (Accepted count size regs) :=
  decidable_of_iff' _ (accepted_iff count size regs)

end AtaRegs

namespace AtaDisk

variable {count : BitVec 32}

/-- The bytes `visit` writes. -/
def state (d : AtaDisk count) : List Byte :=
  d.toAtaRegs.bytes ++ (varintBytes (BitVec.ofNat 64 d.buffer.1.length) ++ (d.buffer.1 ++
    d.medium.world.timeline.chunk d.medium.world.image))

/-- What saving does to the drive. -/
def save (d : AtaDisk count) (landed : Option Nat) : AtaDisk count :=
  { d with medium := { d.medium with world := d.medium.world.step (.save landed) } }

/-- The buffer of a state, of a size that was accepted. -/
def readPio (size : Nat) (r : Reader) : PioBuffer × Reader :=
  if size = 0 then (.empty, r) else (.ofBlock (r.bytes sectorSize).1, (r.bytes sectorSize).2)

/-- `visit` with a reader. The registers are in place before they are looked at. -/
def load (d : AtaDisk count) (r : Reader) (host : StoreHost) : AtaDisk count × Reader :=
  let (regs, r) := AtaRegs.read r
  let (size, r) := r.varint
  let d := { d with toAtaRegs := regs }
  if r.ok = true ∧ regs.Accepted count size.toNat then
    let (buffer, r) := readPio size.toNat r
    let (medium, r) := d.medium.restore r host
    ({ d with buffer := buffer, medium := medium }, r)
  else (d, r.fail)

end AtaDisk

end Pom68k.Disk
