import Pom68k.Scsi.Target

/-! # The 53C96 controller

A command-driven SCSI controller. The processor loads a descriptor block into a FIFO of
sixteen bytes, issues commands through a queue of two, and moves the payload through the
FIFO register or the pseudo-DMA port. Positions into the FIFO and the queue are integers
here, as they are in the source: an access outside either is written down, not ruled out.
-/

namespace Pom68k.Scsi

open Disk (Byte)

/-! ## The interrupt side -/

/-- The registers that no transfer depends on: configuration, status, the interrupt lines
and the countdown of a deferred interrupt. -/
structure Lines where
  config1 : Byte := 0
  config2 : Byte := 0
  config3 : Byte := 0
  clockConv : Byte := 2
  syncPeriod : Byte := 5
  syncOffset : Byte := 0
  busId : Byte := 0
  selectTimeout : Byte := 0
  seq : Byte := 0
  status : Byte := 0
  istatus : Byte := 0
  scsiId : Byte := 7
  irq : Bool := false
  drq : Bool := false
  latency : Int := 0
  pendDelay : Int := 0
  pendBits : Byte := 0
  testMode : Bool := false
  tcount : BitVec 32 := 0
  lastCmd : Byte := 0
deriving DecidableEq

def S_TC0 : Byte := 0x10

def S_GROSS_ERROR : Byte := 0x40

/-- `S_GROSS_ERROR | S_PARITY | S_TCC`: what reading the status clears. -/
def S_READ_CLEARS : Byte := 0x68

def I_FUNCTION : Byte := 0x08

def I_BUS : Byte := 0x10

def I_DISCONNECT : Byte := 0x20

def I_ILLEGAL : Byte := 0x40

def I_SCSI_RESET : Byte := 0x80

namespace Lines

variable (l : Lines)

/-- `Ncr53c96::raiseIrq`. -/
def raiseIrq (bits : Byte) : Lines :=
  { l with
    pendBits := l.pendBits &&& ~~~bits
    pendDelay := if l.pendBits &&& ~~~bits = 0 then 0 else l.pendDelay
    istatus := l.istatus ||| bits
    irq := l.istatus ||| bits != 0 }

/-- `Ncr53c96::raiseIrqDeferred`. -/
def raiseIrqDeferred (bits : Byte) (modelCycles : Int) : Lines :=
  let d := if 0 < l.latency then l.latency else if l.latency < 0 then modelCycles else 0
  if d ≤ 0 then l.raiseIrq bits
  else { l with pendBits := l.pendBits ||| bits, pendDelay := d }

/-- `Ncr53c96::scsiClocksToCpu_`. -/
def scsiClocksToCpu (clocks : Int) : Int := (clocks * 5 + 7).tdiv 8

/-- `Ncr53c96::selectionDelayCpu_`. -/
def selectionDelayCpu (bytes : Nat) : Int :=
  let conv := if l.clockConv = 0 then 8 else l.clockConv.toNat
  let per := if l.syncPeriod = 0 then 5 else l.syncPeriod.toNat
  scsiClocksToCpu (19 * conv + 6 + bytes * per)

/-- `Ncr53c96::xferDelayCpu_`. -/
def xferDelayCpu (bytes : Nat) : Int :=
  let per := if l.syncPeriod = 0 then 5 else l.syncPeriod.toNat
  scsiClocksToCpu (bytes * per + 2)

/-- `Ncr53c96::tick`. -/
def tick (cycles : Int) : Lines :=
  if 0 < l.pendDelay then
    let l := { l with pendDelay := l.pendDelay - cycles }
    if l.pendDelay ≤ 0 ∧ l.pendBits ≠ 0 then { l.raiseIrq l.pendBits with pendBits := 0 } else l
  else l

def setTc0 : Lines := { l with status := l.status ||| S_TC0 }

def clearTc0 : Lines := { l with status := l.status &&& ~~~S_TC0 }

end Lines

/-! ## Registers, commands and phases -/

/-- The register a transfer addresses; four address bits are decoded. -/
inductive Reg where
  | tclow | tcmid | fifo | command | status | istat | seq | flags
  | config1 | clock | test | config2 | config3 | reserved | tchigh | fifoAlign
deriving DecidableEq

/-- The registers a write only sets. -/
def Lines.put (l : Lines) (v : Byte) : Reg → Lines
  | .tclow => { l with tcount := (l.tcount &&& ~~~0xFF#32) ||| v.setWidth 32 }
  | .tcmid => { l with tcount := (l.tcount &&& ~~~0xFF00#32) ||| (v.setWidth 32 <<< 8) }
  | .tchigh => { l with tcount := (l.tcount &&& ~~~0xFF0000#32) ||| (v.setWidth 32 <<< 16) }
  | .status => { l with busId := v &&& 7 }
  | .istat => { l with selectTimeout := v }
  | .seq => { l with syncPeriod := v &&& 0x1F }
  | .flags => { l with syncOffset := v &&& 0x0F }
  | .config1 =>
    { l with config1 := v, scsiId := v &&& 7, testMode := l.testMode || v &&& 8 != 0 }
  | .clock => { l with clockConv := v &&& 7 }
  | .config2 => { l with config2 := v }
  | .config3 => { l with config3 := v }
  | _ => l

/-- What the low seven bits of a command byte ask for. -/
inductive Op where
  | nop | flushFifo | reset | resetBus
  | select | selectAtn | selectAtnStop | enableSel | disableSel
  | xfer | complete | msgAccept | pad | setAtn | resetAtn
  | other
deriving DecidableEq

/-- The operation of a command byte. -/
def Op.decode (c : Byte) : Op :=
  match (c &&& 0x7F).toNat with
  | 0x00 => .nop
  | 0x01 => .flushFifo
  | 0x02 => .reset
  | 0x03 => .resetBus
  | 0x41 => .select
  | 0x42 => .selectAtn
  | 0x43 => .selectAtnStop
  | 0x44 => .enableSel
  | 0x45 => .disableSel
  | 0x10 => .xfer
  | 0x11 => .complete
  | 0x12 => .msgAccept
  | 0x18 => .pad
  | 0x1A => .setAtn
  | 0x1B => .resetAtn
  | _ => .other

/-- The bus phase; a value that names none can be read from a save state only. -/
inductive Phase where
  | busFree | msgOut | command | dataIn | dataOut | status | msgIn
  | unnamed (raw : BitVec 32)
deriving DecidableEq

/-- The controller and the bus behind it. The last fields are what the model writes down
and the source has no place for. -/
structure Ncr53c96 (δ : Type) where
  lines : Lines := {}
  targets : Fin 7 → Option Nat := fun _ => none
  disk : Option Nat := none
  devices : δ
  mailbox : Mailbox := {}
  selCdbWait : Bool := false
  cmdQueue : Vector Byte 2 := Vector.replicate 2 0
  cmdQueuePos : Int := 0
  tcounter : BitVec 32 := 0
  dmaCommand : Bool := false
  fifo : Vector Byte 16 := Vector.replicate 16 0
  fifoPos : Int := 0
  dataXfer : Bool := false
  phase : Phase := .busFree
  cmd : List Byte := []
  dataIn : List Byte := []
  dataInPos : Nat := 0
  dataOut : List Byte := []
  dataOutExpected : Nat := 0
  targetStatus : Byte := 0
  msgInLeft : Int := 0
  selects : Nat := 0
  /-- An access fell outside the FIFO, the queue or a transfer buffer, or a chain of
  commands had no end. -/
  stray : Bool := false
  /-- How many bytes at the front of the FIFO the controller put there itself. -/
  latched : Nat := 0
  /-- The descriptor block being collected holds such a byte. -/
  tainted : Bool := false
  /-- The bytes supplied for the write since its descriptor block, and not taken back. -/
  given : List Byte := []
  /-- The status the target gave since it was selected. -/
  answered : Option Byte := none
  calls : List Call := []

namespace Ncr53c96

variable {δ : Type} (bus : Targets δ) (s : Ncr53c96 δ)

/-- The bytes in the FIFO, the oldest first. -/
def contents : List Byte := s.fifo.toList.take s.fifoPos.toNat

/-- The bytes of the target's reply that were not read. -/
def residue : List Byte := s.dataIn.drop s.dataInPos

/-- An operation on the interrupt side. -/
def onLines (f : Lines → Lines) : Ncr53c96 δ := { s with lines := f s.lines }

def raiseIrq (bits : Byte) : Ncr53c96 δ := s.onLines (·.raiseIrq bits)

def raiseIrqDeferred (bits : Byte) (modelCycles : Int) : Ncr53c96 δ :=
  s.onLines (·.raiseIrqDeferred bits modelCycles)

def setSeq (seq : Byte) : Ncr53c96 δ := s.onLines fun l => { l with seq := seq }

/-- The level `updateDrq` drives. -/
def drqLevel : Bool :=
  s.dmaCommand &&
    if s.dataInPos < s.dataIn.length ∧ (s.phase = .dataIn ∨ s.phase = .status) then true
    else if s.phase = .dataOut then decide (s.dataOut.length < s.dataOutExpected)
    else s.selCdbWait && decide (s.phase = .command)

def updateDrq : Ncr53c96 δ := s.onLines fun l => { l with drq := s.drqLevel }

/-! ## The target -/

/-- `dispatch`: what the command in the accumulator comes back with. -/
def ask (payload : List Byte) : Answer (δ × Mailbox) :=
  match s.disk with
  | none => ⟨0x02, [], s.devices, s.mailbox⟩
  | some d =>
    if Mailbox.handles s.cmd then
      let a := s.mailbox.command s.cmd payload
      ⟨a.status, a.data, s.devices, a.device⟩
    else
      let a := bus.command s.devices d s.cmd payload
      ⟨a.status, a.data, a.device, s.mailbox⟩

/-- A command carried out, with its status latched. -/
def dispatch (payload : List Byte) : Ncr53c96 δ :=
  let a := s.ask bus payload
  { s with
    targetStatus := a.status
    devices := a.device.1
    mailbox := a.device.2
    answered := if s.disk.isSome then some a.status else s.answered
    calls := if s.disk.isSome then s.calls ++ [⟨s.cmd, s.tainted, payload, s.given⟩]
      else s.calls }

/-- `Ncr53c96::writeByteCount`. -/
def writeByteCount : Int :=
  match s.disk with
  | none => 0
  | some d =>
    if s.cmd = [] then 0
    else if Mailbox.handles s.cmd then Mailbox.writeByteCount s.cmd
    else bus.writeByteCount s.devices d s.cmd

/-- `Ncr53c96::runTarget`. -/
def runTarget : Ncr53c96 δ :=
  let s := { s with dataIn := [], dataInPos := 0, dataXfer := false }
  if 0 < s.writeByteCount bus then
    { s with phase := .dataOut, dataOut := [], dataOutExpected := (s.writeByteCount bus).toNat }
  else
    let a := s.ask bus []
    { s.dispatch bus [] with
      dataIn := a.data
      phase := if a.data = [] then .status else .dataIn }

/-- `Ncr53c96::advanceToStatus`. -/
def advanceToStatus : Ncr53c96 δ :=
  let s := if s.phase = .dataOut then s.dispatch bus s.dataOut else s
  updateDrq { s with phase := .status }

/-- The transfer counter moves by one, and says when it runs out under DMA. -/
def countDown : Ncr53c96 δ :=
  if s.tcounter = 0 then s
  else
    let s := { s with tcounter := s.tcounter - 1 }
    if s.dmaCommand && decide (s.tcounter = 0) then s.onLines Lines.setTc0 else s

/-- The number of payload bytes the target asks for, once it has seen some of them. -/
def extended : Nat :=
  match s.disk with
  | none => s.dataOutExpected
  | some d =>
    if s.cmd = [] ∨ Mailbox.handles s.cmd then s.dataOutExpected
    else bus.extendDataOut s.devices d s.cmd s.dataOut s.dataOutExpected

/-- A byte of the payload gathered and counted, and the length asked for again. -/
def gather (v : Byte) : Ncr53c96 δ :=
  let s := countDown { s with dataOut := s.dataOut ++ [v] }
  { s with dataOutExpected := s.extended bus }

/-- The transfer command ends: the interrupt that tells it, and no more payload taken. -/
def endTransfer : Ncr53c96 δ := raiseIrq { s with dataXfer := false } I_BUS

/-- `Ncr53c96::acceptDataOutByte_`. -/
def acceptDataOutByte (v : Byte) : Ncr53c96 δ :=
  let s := s.gather bus v
  updateDrq <|
    if s.dataOutExpected ≤ s.dataOut.length then (s.advanceToStatus bus).endTransfer
    else if s.tcounter = 0 then s.endTransfer
    else s

/-! ## The FIFO -/

/-- A byte stored at the end of the FIFO; the store is outside when the position is below
the first byte, and dropped when the FIFO is full. -/
def store (v : Byte) : Ncr53c96 δ :=
  if s.fifoPos < 16 then
    { s with
      fifo := s.fifo.setIfInBounds s.fifoPos.toNat v
      fifoPos := s.fifoPos + 1
      stray := s.stray || decide (s.fifoPos < 0) }
  else s

/-- A byte of a descriptor block that comes straight from the bus side of the FIFO
register. A block that is complete is carried out at once. -/
def acceptCommandByte (v : Byte) : Ncr53c96 δ :=
  let s := { s with cmd := s.cmd ++ [v] }
  updateDrq <|
    if whole s.cmd then
      let waited := s.selCdbWait
      let s := setSeq { s with selCdbWait := false, given := [] } 4
      let s := s.runTarget bus
      if waited then s.raiseIrqDeferred (I_BUS ||| I_FUNCTION) (s.lines.xferDelayCpu s.cmd.length)
      else s
    else s

/-- `Ncr53c96::fifoPush`. -/
def fifoPush (v : Byte) : Ncr53c96 δ :=
  if s.phase = .command ∧ s.disk.isSome then s.acceptCommandByte bus v
  else if s.phase = .dataOut ∧ s.dataXfer then s.acceptDataOutByte bus v
  else (s.store v).updateDrq

/-- The first bytes moved down by one. -/
def moveDown (fifo : Vector Byte 16) (n : Nat) : Vector Byte 16 :=
  Vector.ofFn fun i => if i.val < n then fifo.toList.getD (i.val + 1) 0 else fifo[i]

/-- `Ncr53c96::fifoPop`: the first byte, and the controller without it. Moving the rest
down reads and writes outside unless the position was one of the sixteen. -/
def fifoPop : Byte × Ncr53c96 δ :=
  (s.fifo[0], updateDrq <|
    if s.fifoPos = 0 then s
    else
      { s with
        fifoPos := s.fifoPos - 1
        fifo := moveDown s.fifo (s.fifoPos - 1).toNat
        stray := s.stray || decide (s.fifoPos < 1 ∨ 16 < s.fifoPos)
        latched := s.latched - 1
        given := s.given.eraseIdx (s.given.length - s.fifoPos.toNat) })

/-- Bytes of the FIFO into the accumulator, until the descriptor block is complete; with
the number of bytes moved. -/
def drainCdb : Nat → Ncr53c96 δ → Nat × Ncr53c96 δ
  | 0, s => (0, s)
  | n + 1, s =>
    let tainted := s.tainted || decide (0 < s.latched)
    let s := { s.fifoPop.2 with cmd := s.cmd ++ [s.fifoPop.1], tainted := tainted }
    if whole s.cmd then (1, s)
    else
      let r := drainCdb n s
      (r.1 + 1, r.2)

/-- A descriptor block complete in the accumulator is carried out; what is left in the FIFO
is the front of its payload. -/
def runDrained : Ncr53c96 δ :=
  runTarget bus { s with given := s.contents.drop s.latched }

/-! ## Commands -/

/-- `Ncr53c96::selectTarget`, for a target that does not answer. -/
def selectNobody : Ncr53c96 δ :=
  raiseIrq { s with phase := .busFree, disk := none } I_DISCONNECT

/-- The message byte that goes out with a selection, and the unit it names. -/
def sendIdentify (withAtn : Bool) : Byte × Nat × Ncr53c96 δ :=
  if withAtn = true ∧ 0 < s.fifoPos then
    let r := s.fifoPop
    (if r.1 &&& 0x80 = 0 then kNoIdentify else r.1 &&& 0x07, 1, r.2.setSeq 2)
  else (kNoIdentify, 0, s)

/-- A target taken for the session, with nothing of its command yet. -/
def connect (t : Nat) : Ncr53c96 δ :=
  { s with disk := some t, cmd := [], tainted := false, answered := none }

/-- The selected target is told the unit. -/
def selectLun (t : Nat) (lun : Byte) : Ncr53c96 δ :=
  { s with devices := bus.selectLun s.devices t lun }

/-- The COMMAND phase, with the descriptor block still to come. -/
def awaitCdb : Ncr53c96 δ := { s with phase := .command, selCdbWait := true }

/-- `Ncr53c96::selectTarget`, for a target that answers. -/
def selectAnswered (t : Nat) (withAtn stopAfterMsg : Bool) : Ncr53c96 δ :=
  let sent := (s.connect t).sendIdentify withAtn
  let s := sent.2.2.selectLun bus t sent.1
  if stopAfterMsg then
    let s := s.awaitCdb.setSeq 2
    updateDrq (s.raiseIrqDeferred (I_BUS ||| I_FUNCTION) (s.lines.selectionDelayCpu sent.2.1))
  else
    let s := (drainCdb s.fifoPos.toNat s).2
    if whole s.cmd then
      let s := (s.setSeq 4).runDrained bus
      updateDrq (s.raiseIrqDeferred (I_BUS ||| I_FUNCTION)
        (s.lines.selectionDelayCpu (sent.2.1 + s.cmd.length)))
    else updateDrq (s.awaitCdb.setSeq 1)

/-- The object at the address a selection goes to. -/
def addressed : Option Nat :=
  if inside : s.lines.busId.toNat < 7 then s.targets ⟨s.lines.busId.toNat, inside⟩ else none

/-- `Ncr53c96::selectTarget`. -/
def selectTarget (withAtn stopAfterMsg : Bool) : Ncr53c96 δ :=
  let s := setSeq { s with selects := s.selects + 1 } 0
  match s.addressed with
  | none => s.selectNobody
  | some t =>
    if bus.present s.devices t then s.selectAnswered bus t withAtn stopAfterMsg
    else s.selectNobody

/-- A chunk of the reply is fetched: the interrupt for it is due after its bytes. -/
def fetchChunk : Ncr53c96 δ :=
  let remaining : BitVec 32 := BitVec.ofNat 32 (s.dataIn.length - s.dataInPos)
  let chunk := if s.tcounter = 0 then 1 else min s.tcounter.toNat remaining.toNat
  onLines { s with dataXfer := true } fun l =>
    let l := if s.dmaCommand && decide (s.tcounter ≤ remaining) then l.setTc0 else l
    l.raiseIrqDeferred I_BUS (l.xferDelayCpu chunk)

/-- The bytes a fetch counts for. -/
def fetchLength : Nat := if s.tcounter = 0 then 1 else s.tcounter.toNat

/-- `transferInfo` in the DATA IN phase. The phase moves on before the bytes are read. -/
def transferIn : Ncr53c96 δ :=
  updateDrq <|
    if s.dataInPos < s.dataIn.length then
      if s.dataIn.length ≤ s.dataInPos + s.fetchLength then
        s.fetchChunk.advanceToStatus bus
      else s.fetchChunk
    else s

/-- The counter a transfer without DMA runs on. -/
def outCounter : BitVec 32 :=
  if s.fifoPos ≠ 0 then BitVec.ofInt 32 s.fifoPos
  else if s.lines.tcount ≠ 0 then s.lines.tcount
  else BitVec.ofNat 32 (s.dataOutExpected - s.dataOut.length)

/-- The transfer command is taken up in the DATA OUT phase. -/
def armOut : Ncr53c96 δ :=
  if s.dmaCommand then { s with dataXfer := true }
  else onLines { s with dataXfer := true, tcounter := s.outCounter } Lines.clearTc0

/-- `transferInfo` in the DATA OUT phase: what was preloaded goes out first. -/
def transferOut : Ncr53c96 δ :=
  let s := s.armOut
  updateDrq <|
    if 0 < s.fifoPos then
      s.contents.foldl (fun s v => s.acceptDataOutByte bus v) { s with fifoPos := 0 }
    else s

/-- `transferInfo` in the COMMAND phase. -/
def transferCommand : Ncr53c96 δ :=
  let r := drainCdb s.fifoPos.toNat s
  let s := if 0 < r.1 ∧ whole r.2.cmd then r.2.runDrained bus else r.2
  s.raiseIrqDeferred I_BUS (s.lines.xferDelayCpu (if r.1 = 0 then 1 else r.1))

/-- `Ncr53c96::transferInfo`. -/
def transferInfo : Ncr53c96 δ :=
  let s := s.setSeq 0
  match s.phase with
  | .dataIn => s.transferIn bus
  | .dataOut => s.transferOut bus
  | .command => s.transferCommand bus
  | _ => s.raiseIrqDeferred I_BUS (s.lines.xferDelayCpu 1)

/-- Zero bytes for a write, up to the announced number, and whether the counter ran out
first. -/
def padLoop : Nat → Ncr53c96 δ → Bool × Ncr53c96 δ
  | 0, s => (false, s)
  | n + 1, s =>
    let s := { s with dataOut := s.dataOut ++ [0], given := s.given ++ [0] }
    if s.tcounter = 0 then padLoop n s
    else
      let s := { s with tcounter := s.tcounter - 1 }
      if s.tcounter = 0 then (true, s) else padLoop n s

/-- Transfer Pad in the DATA OUT phase. -/
def padOut : Bool × Ncr53c96 δ :=
  let r := padLoop (s.dataOutExpected - s.dataOut.length) s
  (r.1, if r.2.dataOutExpected ≤ r.2.dataOut.length then r.2.advanceToStatus bus else r.2)

/-- `dataIn_.size() - dataInPos_`, in unsigned words. -/
def unread : Nat :=
  if s.dataInPos ≤ s.dataIn.length then s.dataIn.length - s.dataInPos
  else 2 ^ 64 - (s.dataInPos - s.dataIn.length)

/-- The bytes of the reply a pad discards. -/
def padCount : Nat := if s.tcounter = 0 then s.unread else min s.tcounter.toNat s.unread

/-- Bytes of the reply discarded and counted. -/
def discard : Ncr53c96 δ :=
  { s with
    dataInPos :=
      if s.dataInPos ≤ s.dataIn.length then s.dataInPos + s.padCount
      else (s.dataInPos + s.padCount) % 2 ^ 64
    tcounter := if s.tcounter = 0 then 0 else s.tcounter - BitVec.ofNat 32 s.padCount }

/-- Transfer Pad in any other phase, and whether the counter ran out first. -/
def padIn : Bool × Ncr53c96 δ :=
  let r := s.discard
  (decide (s.tcounter ≠ 0 ∧ r.tcounter = 0),
    if r.dataIn.length ≤ r.dataInPos ∧ r.phase = .dataIn then r.advanceToStatus bus else r)

/-- A pad ends with the counter, or with the phase and the queue behind it. -/
def endPad (hit : Bool) : Ncr53c96 δ :=
  updateDrq <|
    if hit then raiseIrq (s.onLines Lines.setTc0) I_FUNCTION
    else raiseIrq { s with cmdQueuePos := 0 } I_BUS

/-- Transfer Pad. -/
def pad : Ncr53c96 δ :=
  if s.phase = .dataOut then (s.padOut bus).2.endPad (s.padOut bus).1
  else (s.padIn bus).2.endPad (s.padIn bus).1

/-- The FIFO emptied for the report; a descriptor block being collected takes the report
for its own bytes. -/
def clearFifo : Ncr53c96 δ :=
  { s with
    fifoPos := 0, latched := 0
    tainted := s.tainted || decide (s.phase = Phase.command) }

/-- The status and the message, pushed like bytes of the processor. -/
def latch : Ncr53c96 δ :=
  let s := (s.fifoPush bus s.targetStatus).fifoPush bus 0
  { s with phase := .msgIn, msgInLeft := 0, latched := s.fifoPos.toNat }

/-- Initiator Command Complete. -/
def complete : Ncr53c96 δ :=
  let s := s.clearFifo
  let s :=
    if s.phase = .status ∨ s.phase = .dataIn ∨ s.phase = .dataOut ∨ s.phase = .command then
      s.latch bus
    else s
  (s.setSeq 0).raiseIrq I_FUNCTION

/-- `Ncr53c96::reset`. The latency and the targets are wiring and stay. -/
def reset : Ncr53c96 δ :=
  { s with
    lines := { s.lines with
      clockConv := 2, syncPeriod := 5, syncOffset := 0, seq := 0
      config1 := s.lines.config1 &&& 7, config2 := 0, config3 := 0
      status := 0, istatus := 0, irq := false, drq := false, testMode := false
      tcount := 0, pendDelay := 0, pendBits := 0 }
    fifoPos := 0, fifo := Vector.replicate 16 0, tcounter := 0
    phase := .busFree, disk := none, cmd := [], dataIn := [], dataInPos := 0
    dataOut := [], dataOutExpected := 0, targetStatus := 0, msgInLeft := 0
    dmaCommand := false, selCdbWait := false, dataXfer := false
    cmdQueuePos := 0, cmdQueue := Vector.replicate 2 0
    latched := 0, tainted := false, given := [], answered := none }

/-- The bus reset command. -/
def resetBus : Ncr53c96 δ :=
  let s := { s with
    phase := .busFree, disk := none, cmd := [], dataIn := [], dataInPos := 0
    dataOut := [], dataOutExpected := 0, targetStatus := 0, msgInLeft := 0
    selCdbWait := false, dataXfer := false, cmdQueuePos := 0
    tainted := false, given := [], answered := none }
  let s := updateDrq (s.onLines fun l => { l with pendBits := 0, pendDelay := 0 })
  if s.lines.config1 &&& 0x40 = 0 then
    s.raiseIrqDeferred I_SCSI_RESET
      (Lines.scsiClocksToCpu (130 * (if s.lines.clockConv = 0 then 8 else s.lines.clockConv.toNat)))
  else s

/-- The flush command: what the processor preloaded is withdrawn. -/
def flush : Ncr53c96 δ :=
  updateDrq { s with
    fifoPos := 0, latched := 0, given := s.given.take (s.given.length - s.fifoPos.toNat) }

/-- `Ncr53c96::checkValidCommand_`. -/
def checkValidCommand (c : Byte) : Bool :=
  let modeI := s.disk.isSome && decide (s.phase ≠ .busFree)
  let sub := (c &&& 0x0F).toNat
  match (c &&& 0x7F).toNat / 16 with
  | 0 => sub ≤ 3
  | 4 => !modeI && decide (sub ≤ 6)
  | 1 => modeI && decide (sub ≤ 2 ∨ sub = 8 ∨ sub = 10 ∨ sub = 11)
  | _ => false

/-- The counter a command begins with. -/
def loadCounter (c : Byte) : Ncr53c96 δ :=
  if c &&& 0x80 = 0 then { s with dmaCommand := false, tcounter := 0 }
  else
    onLines { s with
      dmaCommand := true
      tcounter := if s.lines.tcount = 0 then 0x10000 else s.lines.tcount } Lines.clearTc0

/-- A valid command, and whether the next one is started behind it. -/
def perform : Op → Bool × Ncr53c96 δ
  | .nop => (true, s)
  | .flushFifo => (true, s.flush)
  | .reset => (false, s.reset)
  | .resetBus => (false, s.resetBus)
  | .select => (false, s.selectTarget bus false false)
  | .selectAtn => (false, s.selectTarget bus true false)
  | .selectAtnStop => (false, s.selectTarget bus true true)
  | .enableSel => (true, s)
  | .disableSel => (true, s.raiseIrq I_FUNCTION)
  | .xfer => (false, s.transferInfo bus)
  | .complete => (false, s.complete bus)
  | .msgAccept => (false, raiseIrq { s with phase := .busFree, disk := none } I_DISCONNECT)
  | .pad => (false, s.pad bus)
  | .setAtn => (true, s)
  | .resetAtn => (true, s)
  | .other => (false, s.raiseIrq I_ILLEGAL)

/-- The command is noted, and its counter loaded if it is valid. -/
def prepare (c : Byte) : Ncr53c96 δ :=
  loadCounter (s.onLines fun l => { l with lastCmd := c }) c

/-- `startCommand` up to the point where it goes back to the queue. -/
def start (c : Byte) : Bool × Ncr53c96 δ :=
  if s.checkValidCommand c then (s.prepare c).perform bus (Op.decode c)
  else (false, raiseIrq (s.onLines fun l => { l with lastCmd := c }) I_ILLEGAL)

/-- The finished command leaves the queue. -/
def popQueue : Ncr53c96 δ :=
  { s with cmdQueuePos := s.cmdQueuePos - 1 }

/-- The queued command moves to the front. -/
def advanceQueue : Ncr53c96 δ :=
  { s with cmdQueue := s.cmdQueue.set 0 s.cmdQueue[1] }

/-- `Ncr53c96::commandPopAndChain`, from a queue of some length on: a command that has
nothing to wait for goes back to the queue itself. -/
def chain : Nat → Ncr53c96 δ → Ncr53c96 δ
  | 0, s => s
  | n + 1, s =>
    if s.popQueue.cmdQueuePos = 0 then s.popQueue
    else
      let s := s.popQueue.advanceQueue
      let r := s.start bus s.cmdQueue[0]
      if r.1 then chain n r.2 else r.2

/-- `Ncr53c96::commandPopAndChain`. Below zero the position never comes to an end, and the
calls leave the stack. -/
def commandPopAndChain : Ncr53c96 δ :=
  if s.cmdQueuePos < 0 then { s with stray := true } else chain bus s.cmdQueuePos.toNat s

/-- `Ncr53c96::startCommand`. -/
def startCommand (c : Byte) : Ncr53c96 δ :=
  let r := s.start bus c
  if r.1 then r.2.commandPopAndChain bus else r.2

/-- The command byte stored at the end of the queue, which a reset command empties first. -/
def enqueue (c : Byte) : Ncr53c96 δ :=
  let pos := if Op.decode c = .reset ∨ Op.decode c = .resetBus then 0 else s.cmdQueuePos
  { s with
    cmdQueue := s.cmdQueue.setIfInBounds pos.toNat c
    cmdQueuePos := pos + 1
    stray := s.stray || decide (pos < 0 ∨ 1 < pos) }

/-- `Ncr53c96::commandWrite`. -/
def commandWrite (c : Byte) : Ncr53c96 δ :=
  if s.cmdQueuePos = 2 then
    s.onLines fun l => { l with status := l.status ||| S_GROSS_ERROR }
  else
    let s := s.enqueue c
    if s.cmdQueuePos = 1 then s.startCommand bus c else s

/-! ## The register file and the DMA port -/

/-- `Ncr53c96::phaseStatusBits`. -/
def phaseStatusBits : Byte :=
  match s.phase with
  | .command => 0x02
  | .dataIn => 0x01
  | .dataOut => 0
  | .status => 0x03
  | .msgIn => 0x07
  | .msgOut => 0x06
  | _ => 0

/-- The next byte of the target's reply, and the controller without it. -/
def takeDataIn : Byte × Ncr53c96 δ :=
  (s.dataIn.getD s.dataInPos 0, countDown { s with
    dataInPos := s.dataInPos + 1
    stray := s.stray || decide (s.dataIn.length ≤ s.dataInPos) })

/-- A read of the FIFO register: the reply comes before the FIFO, in every phase. -/
def readFifo : Byte × Ncr53c96 δ :=
  if s.dataInPos < s.dataIn.length then
    let r := s.takeDataIn
    (r.1, updateDrq <|
      if r.2.dataIn.length ≤ r.2.dataInPos then (r.2.advanceToStatus bus).raiseIrq I_BUS else r.2)
  else if s.fifoPos = 0 then (0, s)
  else s.fifoPop

/-- A read of the status register. -/
def readStatus : Byte × Ncr53c96 δ :=
  ((if s.lines.irq then 0x80 else 0) ||| (s.lines.status &&& 0x70) ||| s.phaseStatusBits,
    if s.lines.irq then s.onLines fun l => { l with status := l.status &&& ~~~S_READ_CLEARS }
    else s)

/-- A read of the interrupt status ends the interrupt and the command it was for. -/
def readIstat : Byte × Ncr53c96 δ :=
  let s' := if s.lines.irq then
      s.onLines fun l =>
        { l with status := l.status &&& ~~~S_READ_CLEARS, istatus := 0, seq := 0, irq := false }
    else s
  (s.lines.istatus, if s.lines.istatus = 0 then s' else s'.commandPopAndChain bus)

/-- The count the flags register shows. -/
def flagsCount : Byte :=
  if s.dataXfer ∧ s.dataInPos < s.dataIn.length then
    BitVec.ofNat 8 (min (s.dataIn.length - s.dataInPos) 16)
  else BitVec.ofInt 8 s.fifoPos

/-- `Ncr53c96::read`. -/
def read : Reg → Byte × Ncr53c96 δ
  | .tclow => (s.tcounter.setWidth 8, s)
  | .tcmid => ((s.tcounter >>> 8).setWidth 8, s)
  | .tchigh => ((s.tcounter >>> 16).setWidth 8, s)
  | .fifo => s.readFifo bus
  | .command => (s.lines.lastCmd, s)
  | .status => s.readStatus
  | .istat => s.readIstat bus
  | .seq => (s.lines.seq, s)
  | .flags => ((s.flagsCount &&& 0x1F) ||| (s.lines.seq <<< 5), s)
  | .config1 => (s.lines.config1, s)
  | .config2 => (s.lines.config2, s)
  | .config3 => (s.lines.config3, s)
  | _ => (0xFF, s)

/-- A byte of the processor on its way into the FIFO; in the DATA OUT phase it is supplied
for the write. -/
def supply (v : Byte) : Ncr53c96 δ :=
  if s.phase = .dataOut then { s with given := s.given ++ [v] } else s

/-- `Ncr53c96::write`. -/
def write (reg : Reg) (v : Byte) : Ncr53c96 δ :=
  match reg with
  | .fifo => (s.supply v).fifoPush bus v
  | .command => s.commandWrite bus v
  | reg => s.onLines (·.put v reg)

/-- `Ncr53c96::dmaRead`. -/
def dmaRead : Byte × Ncr53c96 δ :=
  if s.dataInPos < s.dataIn.length then
    let r := s.takeDataIn
    let done := decide (r.2.dataIn.length ≤ r.2.dataInPos)
    (r.1, updateDrq <|
      if r.2.tcounter = 0 ∨ done = true then
        raiseIrq (if done then r.2.advanceToStatus bus else r.2) I_BUS
      else r.2)
  else if s.fifoPos = 0 then (0, s)
  else s.fifoPop

/-- `Ncr53c96::dmaWrite`. -/
def dmaWrite (v : Byte) : Ncr53c96 δ :=
  let s' := s.supply v
  if s.phase = .dataOut then s'.acceptDataOutByte bus v else s'.fifoPush bus v

/-! ## The wiring -/

/-- `Ncr53c96::attach`. -/
def attach (id : Fin 7) (target : Option Nat) : Ncr53c96 δ :=
  { s with targets := Function.update s.targets id target }

/-- `Ncr53c96::sessionOn`. -/
def sessionOn (id : Fin 7) : Bool :=
  (s.targets id).isSome && decide (s.disk = s.targets id) && decide (s.phase ≠ .busFree)

/-- `Ncr53c96::detach`. -/
def detach (id : Fin 7) : Ncr53c96 δ :=
  if (s.targets id).isNone ∨ s.sessionOn id then s
  else
    { s with
      disk := if s.disk = s.targets id then none else s.disk
      targets := Function.update s.targets id none }

/-- What may happen to the controller. -/
inductive Access where
  | read (reg : Reg)
  | write (reg : Reg) (v : Byte)
  | dmaRead
  | dmaWrite (v : Byte)
  | tick (cycles : Int)
  | reset
  | setLatency (cycles : Int)
  | attach (id : Fin 7) (target : Option Nat)
  | detach (id : Fin 7)
  | post (kind id : Byte)
deriving DecidableEq

/-- One access. -/
def step (s : Ncr53c96 δ) : Access → Ncr53c96 δ
  | .read reg => (s.read bus reg).2
  | .write reg v => s.write bus reg v
  | .dmaRead => (s.dmaRead bus).2
  | .dmaWrite v => s.dmaWrite bus v
  | .tick cycles => s.onLines (·.tick cycles)
  | .reset => s.reset
  | .setLatency cycles => s.onLines fun l => { l with latency := cycles }
  | .attach id target => s.attach id target
  | .detach id => s.detach id
  | .post kind id => { s with mailbox := s.mailbox.post kind id }

/-- The controller as it is made, with devices on the bus. -/
def fresh (devices : δ) : Ncr53c96 δ := { devices := devices }

end Ncr53c96

end Pom68k.Scsi
