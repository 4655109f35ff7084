import Pom68k.Scsi.Target
import Pom68k.Foundation.Runs

/-! # The 5380 controller

The processor drives this controller signal by signal: it raises and lowers ACK for each
byte, or moves bytes through the pseudo-DMA port. There is no FIFO and no queue; the bytes
of a session are in buffers of their own, and every look into them is behind a comparison.
-/

namespace Pom68k.Scsi

open Disk (Byte)
open Foundation

namespace Ncr5380

/-- The bus phase; a value that names none can be read from a save state only. -/
inductive Phase where
  | busFree | arbitration | selection | command | dataIn | dataOut | status | msgIn | msgOut
  | unnamed (raw : BitVec 32)
deriving DecidableEq

inductive Reg where
  | data | icr | mode | tcr | csr | bsr | idr | rpi
deriving DecidableEq

def ICR_SEL : Byte := 0x04

def ICR_BSY : Byte := 0x08

def ICR_ACK : Byte := 0x10

def ICR_RST : Byte := 0x80

def ICR_WRITE : Byte := 0x9F

def MODE_ARBITRATE : Byte := 0x01

def MODE_DMA : Byte := 0x02

def MODE_TARGET : Byte := 0x40

/-- Whether a word has a bit of a mask. -/
def has (v mask : Byte) : Bool := v &&& mask != 0

end Ncr5380

/-- The controller and the bus behind it. The last two fields are what the model writes
down and the source has no place for. -/
structure Ncr5380 (δ : Type) where
  targets : Fin 7 → Option Nat := fun _ => none
  disk : Option Nat := none
  devices : δ
  mailbox : Mailbox := {}
  odr : Byte := 0
  icr : Byte := 0
  mode : Byte := 0
  tcr : Byte := 0
  selEnable : Byte := 0
  phase : Ncr5380.Phase := .busFree
  req : Bool := false
  reqGap : Bool := false
  irq : Bool := false
  cmd : List Byte := []
  dataIn : List Byte := []
  dataOut : List Byte := []
  dataPos : Nat := 0
  dataOutExpected : Nat := 0
  cmdLen : Int := 0
  status : Byte := 0
  lastCmd : Byte := 0
  /-- A look fell outside a buffer. -/
  stray : Bool := false
  calls : List Call := []

namespace Ncr5380

variable {δ : Type} (bus : Targets δ) (s : Ncr5380 δ)

/-- `Ncr5380::reset`. -/
def reset : Ncr5380 δ :=
  { s with
    odr := 0, icr := 0, mode := 0, tcr := 0, selEnable := 0
    phase := .busFree, req := false, reqGap := false, irq := false, disk := none
    cmd := [], dataIn := [], dataPos := 0, cmdLen := 0, status := 0 }

/-- `Ncr5380::phaseSignals`. -/
def phaseSignals : Byte :=
  match s.phase with
  | .command => 0x08
  | .dataIn => 0x04
  | .dataOut => 0
  | .status => 0x0C
  | .msgIn => 0x1C
  | .msgOut => 0x18
  | _ => 0

/-- A phase the target is driving. -/
def Phase.isTarget : Phase → Bool
  | .command | .dataIn | .dataOut | .status | .msgIn => true
  | _ => false

/-- `Ncr5380::phaseMatch`. -/
def phaseMatch : Bool :=
  s.phase.isTarget && s.phaseSignals &&& 0x1C == ((s.tcr &&& 0x07) <<< 2) &&& 0x1C

/-- `Ncr5380::drqActive`. -/
def drqActive : Bool :=
  has s.mode MODE_DMA &&
    match s.phase with
    | .dataIn => decide (s.dataPos < s.dataIn.length)
    | .dataOut => decide (s.dataOut.length < s.dataOutExpected)
    | .status | .msgIn | .command => s.req && (s.phaseMatch || !has s.tcr 0x01)
    | _ => false

/-! ## Phases -/

def enterCommand : Ncr5380 δ :=
  { s with irq := false, phase := .command, cmd := [], cmdLen := 0, req := true }

def enterBusFree : Ncr5380 δ := { s with phase := .busFree, req := false }

def enterStatus : Ncr5380 δ :=
  { s with irq := s.irq || has s.mode MODE_DMA, phase := .status, dataPos := 0, req := true }

def enterMsgIn : Ncr5380 δ := { s with phase := .msgIn, req := true }

/-! ## The target -/

/-- `dispatch`: what the command in the accumulator comes back with. -/
def ask (payload : List Byte) : Answer (δ × Mailbox) :=
  match s.disk with
  | none => ⟨0x02, [], s.devices, s.mailbox⟩
  | some d =>
    if Mailbox.handles s.cmd then
      let a := s.mailbox.command s.cmd payload
      ⟨a.status, a.data, s.devices, a.device⟩
    else
      let a := bus.command s.devices d s.cmd payload
      ⟨a.status, a.data, a.device, s.mailbox⟩

/-- A command carried out, with its status latched. -/
def dispatch (payload : List Byte) : Ncr5380 δ :=
  let a := s.ask bus payload
  { s with
    status := a.status
    devices := a.device.1
    mailbox := a.device.2
    calls := if s.disk.isSome then s.calls ++ [⟨s.cmd, false, payload, payload⟩] else s.calls }

/-- The number of payload bytes of the command in the accumulator. -/
def writeByteCount : Int :=
  match s.disk with
  | none => 0
  | some d =>
    if Mailbox.handles s.cmd then Mailbox.writeByteCount s.cmd
    else bus.writeByteCount s.devices d s.cmd

/-- `Ncr5380::extendDataOut`. -/
def extendDataOut : Ncr5380 δ :=
  match s.disk with
  | none => s
  | some d =>
    if s.cmd = [] ∨ Mailbox.handles s.cmd then s
    else { s with
      dataOutExpected := bus.extendDataOut s.devices d s.cmd s.dataOut s.dataOutExpected }

/-- `Ncr5380::execute`. -/
def execute : Ncr5380 δ :=
  let s := { s with lastCmd := s.cmd.headD 0 }
  if 0 < s.writeByteCount bus then
    { s with
      phase := .dataOut, dataOut := [], dataOutExpected := (s.writeByteCount bus).toNat
      req := true }
  else
    let a := s.ask bus []
    let s := { s.dispatch bus [] with dataIn := a.data, dataPos := 0 }
    if a.data = [] then s.enterStatus else { s with phase := .dataIn, req := true }

/-- `Ncr5380::finishWrite`. -/
def finishWrite : Ncr5380 δ := (s.dispatch bus s.dataOut).enterStatus

/-- The first target on the data bus that is there. -/
def answering : Option Nat :=
  (List.finRange 7).findSome? fun id =>
    if s.odr.getLsbD id.val then
      match s.targets id with
      | some t => if bus.present s.devices t then some t else none
      | none => none
    else none

/-- `Ncr5380::trySelect`. -/
def trySelect : Ncr5380 δ :=
  match s.answering bus with
  | none => s.enterBusFree
  | some t =>
    enterCommand { s with disk := some t, devices := bus.selectLun s.devices t kNoIdentify }

/-- A byte for the descriptor block; the first one says how long it is. -/
def pushCommand (v : Byte) : Ncr5380 δ :=
  { s with
    cmd := s.cmd ++ [v]
    cmdLen := if s.cmd = [] then cdbLength v else s.cmdLen }

/-- The descriptor block is complete. -/
def ready : Bool := decide (0 < s.cmdLen ∧ s.cmdLen ≤ s.cmd.length)

/-- `Ncr5380::ackRising`. -/
def ackRising : Ncr5380 δ :=
  { (match s.phase with
      | .command => s.pushCommand s.odr
      | .dataOut => { s with dataOut := s.dataOut ++ [s.odr] }
      | _ => { s with dataPos := (s.dataPos + 1) % 2 ^ 64 }) with
    req := false }

/-- A payload that is complete is handed over. -/
def tryFinish : Ncr5380 δ × Bool :=
  let s := s.extendDataOut bus
  if s.dataOutExpected ≤ s.dataOut.length then (s.finishWrite bus, true) else (s, false)

/-- `Ncr5380::ackFalling`. -/
def ackFalling : Ncr5380 δ :=
  match s.phase with
  | .command => if s.ready then s.execute bus else { s with req := true }
  | .dataIn => if s.dataIn.length ≤ s.dataPos then s.enterStatus else { s with req := true }
  | .dataOut =>
    if (s.tryFinish bus).2 then (s.tryFinish bus).1 else { (s.tryFinish bus).1 with req := true }
  | .status => s.enterMsgIn
  | .msgIn => s.enterBusFree
  | _ => s

/-! ## The register file and the DMA port -/

/-- The byte of the reply at the position, and the controller with the look written down. -/
def look : Byte × Ncr5380 δ :=
  (s.dataIn.getD s.dataPos 0, { s with stray := s.stray || decide (s.dataIn.length ≤ s.dataPos) })

/-- `Ncr5380::liveBusStatus`. -/
def liveBusStatus : Byte :=
  let rst : Byte := if has s.icr ICR_RST then 0x80 else 0
  match s.phase with
  | .busFree => rst
  | .arbitration | .selection => rst ||| 0x40
  | _ => rst ||| 0x40 ||| s.phaseSignals ||| (if s.req then 0x20 else 0)

/-- `Ncr5380::busAndStatus`. -/
def busAndStatus : Byte :=
  (if s.phaseMatch then 0x08 else 0) ||| (if s.drqActive then 0x40 else 0) |||
    (if s.irq then 0x10 else 0) ||| (if has s.icr ICR_ACK then 0x01 else 0) |||
    (if has s.icr 0x02 then 0x02 else 0)

/-- REQ comes back after the gap one read of the bus status sees. -/
def closeGap : Ncr5380 δ :=
  if s.reqGap then
    { s with
      reqGap := false
      req := s.req || decide (s.phase = .dataIn ∧ s.dataPos < s.dataIn.length) ||
        decide (s.phase = .dataOut ∧ s.dataOut.length < s.dataOutExpected) }
  else s

/-- `Ncr5380::read`. -/
def read : Reg → Byte × Ncr5380 δ
  | .data =>
    if s.phase = .dataIn ∧ s.dataPos < s.dataIn.length then s.look
    else if s.phase = .status then (s.status, s)
    else if s.phase = .msgIn then (0, s)
    else (s.odr, s)
  | .icr => (s.icr ||| (if s.phase = .arbitration then 0x40 else 0), s)
  | .mode => (s.mode, s)
  | .tcr => (s.tcr, s)
  | .csr => (s.liveBusStatus, s.closeGap)
  | .bsr => (s.busAndStatus, s)
  | .idr => if s.phase = .dataIn ∧ s.dataPos < s.dataIn.length then s.look else (0, s)
  | .rpi => (0, { s with irq := false })

/-- The edges of ACK, in the phases the target drives. -/
def ackEdges (dif v : Byte) : Ncr5380 δ :=
  if s.phase.isTarget then
    let s := if has (dif &&& v) ICR_ACK then s.ackRising else s
    if has (dif &&& ~~~v) ICR_ACK then s.ackFalling bus else s
  else s

/-- A write of the initiator command register. -/
def writeIcr (v : Byte) : Ncr5380 δ :=
  let v := v &&& ICR_WRITE
  if has v ICR_RST then
    { (if has s.icr ICR_RST then s else { s.reset with irq := true }) with icr := v }
  else
    let dif := s.icr ^^^ v
    let s := { s with icr := v }
    let s := if has v ICR_SEL && !has v ICR_BSY &&
        decide (s.phase = .busFree ∨ s.phase = .arbitration) then s.trySelect bus
      else s
    s.ackEdges bus dif v

/-- A write of the mode register. -/
def writeMode (v : Byte) : Ncr5380 δ :=
  let old := s.mode
  let s := { s with mode := v }
  let s := if has v MODE_ARBITRATE ∧ s.phase = .busFree then { s with phase := .arbitration }
    else s
  if has (old &&& ~~~v) MODE_ARBITRATE ∧ s.phase = .arbitration then { s with phase := .busFree }
  else s

/-- `Ncr5380::write`. -/
def write (reg : Reg) (v : Byte) : Ncr5380 δ :=
  match reg with
  | .data => { s with odr := v }
  | .icr => s.writeIcr bus v
  | .mode => s.writeMode v
  | .tcr => { s with tcr := v }
  | .csr => { s with selEnable := v }
  | .bsr | .idr => s
  | .rpi => if has s.mode MODE_DMA && !has s.mode MODE_TARGET then { s with irq := false } else s

/-- The byte of the reply `dmaRead` takes: zero behind its end. -/
def lookIn : Byte × Ncr5380 δ := if s.dataPos < s.dataIn.length then s.look else (0, s)

/-- The reply moves on by a byte. -/
def passIn : Ncr5380 δ :=
  let s := { s with dataPos := (s.dataPos + 1) % 2 ^ 64 }
  if s.dataIn.length ≤ s.dataPos then s.enterStatus else { s with req := false, reqGap := true }

/-- `Ncr5380::dmaRead`. -/
def dmaRead : Byte × Ncr5380 δ :=
  match s.phase with
  | .dataIn => (s.lookIn.1, s.lookIn.2.passIn)
  | .status => (s.status, if s.drqActive then s.enterMsgIn else s)
  | .msgIn => (0, if s.drqActive then s.enterBusFree else s)
  | _ => (0, s)

/-- `Ncr5380::dmaWrite`. -/
def dmaWrite (v : Byte) : Ncr5380 δ :=
  match s.phase with
  | .command =>
    let s := s.pushCommand v
    if s.ready then s.execute bus else s
  | .dataOut =>
    let r := tryFinish bus { s with dataOut := s.dataOut ++ [v] }
    if r.2 then r.1 else { r.1 with req := false, reqGap := true }
  | _ => s

/-! ## The wiring -/

def attach (id : Fin 7) (target : Option Nat) : Ncr5380 δ :=
  { s with targets := Function.update s.targets id target }

/-- `Ncr5380::sessionOn`. -/
def sessionOn (id : Fin 7) : Bool :=
  (s.targets id).isSome && decide (s.disk = s.targets id) && decide (s.phase ≠ .busFree)

/-- `Ncr5380::detach`. -/
def detach (id : Fin 7) : Ncr5380 δ :=
  if (s.targets id).isNone ∨ s.sessionOn id then s
  else
    { s with
      disk := if s.disk = s.targets id then none else s.disk
      targets := Function.update s.targets id none }

/-- What may happen to the controller. -/
inductive Access where
  | read (reg : Reg)
  | write (reg : Reg) (v : Byte)
  | dmaRead
  | dmaWrite (v : Byte)
  | reset
  | attach (id : Fin 7) (target : Option Nat)
  | detach (id : Fin 7)
  | post (kind id : Byte)
deriving DecidableEq

/-- One access. -/
def step (s : Ncr5380 δ) : Access → Ncr5380 δ
  | .read reg => (s.read reg).2
  | .write reg v => s.write bus reg v
  | .dmaRead => s.dmaRead.2
  | .dmaWrite v => s.dmaWrite bus v
  | .reset => s.reset
  | .attach id target => s.attach id target
  | .detach id => s.detach id
  | .post kind id => { s with mailbox := s.mailbox.post kind id }

/-! ## Bounds -/

variable {b : Targets δ} {s next : Ncr5380 δ}

/-- The value is one of the enumeration. -/
def Phase.Named : Phase → Prop
  | .unnamed _ => False
  | _ => True

/-- The phase is a phase, and one the target drives has a target. -/
def Bounded (s : Ncr5380 δ) : Prop :=
  s.phase.Named ∧ (s.phase.isTarget → s.disk.isSome)

/-- Nothing fell outside, and the bounds hold if they held. -/
structure Onward (s next : Ncr5380 δ) : Prop where
  inside : s.stray = false → next.stray = false
  bounded : s.Bounded → next.Bounded

theorem Onward.refl (s : Ncr5380 δ) : Onward s s := ⟨id, id⟩

theorem Onward.trans {a b c : Ncr5380 δ} (first : Onward a b) (second : Onward b c) : Onward a c :=
  ⟨second.inside ∘ first.inside, second.bounded ∘ first.bounded⟩

/-- A phase entered without looking into a buffer. -/
theorem Onward.enter (stray : next.stray = s.stray) (named : next.phase.Named)
    (driven : s.Bounded → next.phase.isTarget → next.disk.isSome) : Onward s next :=
  ⟨stray.trans, fun bounded => ⟨named, driven bounded⟩⟩

/-- Nothing changes that the bounds are about. -/
theorem Onward.alike (stray : next.stray = s.stray) (phase : next.phase = s.phase)
    (disk : next.disk = s.disk) : Onward s next :=
  ⟨stray.trans, fun bounded => by
    unfold Bounded at bounded ⊢
    rwa [phase, disk]⟩

theorem onward_reset : Onward s s.reset :=
  .enter rfl trivial nofun

theorem onward_enterBusFree : Onward s s.enterBusFree :=
  .enter rfl trivial nofun

/-- From a phase the target drives, every other one can be entered. -/
theorem onward_enterStatus (driven : s.phase.isTarget) : Onward s s.enterStatus :=
  .enter rfl trivial fun bounded _ => bounded.2 driven

theorem onward_enterMsgIn (driven : s.phase.isTarget) : Onward s s.enterMsgIn :=
  .enter rfl trivial fun bounded _ => bounded.2 driven

theorem onward_execute (driven : s.phase.isTarget) : Onward s (s.execute b) := by
  unfold execute
  dsimp only
  split
  · exact .enter rfl trivial fun bounded _ => bounded.2 driven
  · split
    · exact .enter rfl trivial fun bounded _ => bounded.2 driven
    · exact .enter rfl trivial fun bounded _ => bounded.2 driven

theorem extendDataOut_alike :
    (s.extendDataOut b).stray = s.stray ∧ (s.extendDataOut b).phase = s.phase ∧
      (s.extendDataOut b).disk = s.disk := by
  unfold extendDataOut
  split
  · exact ⟨rfl, rfl, rfl⟩
  · split <;> exact ⟨rfl, rfl, rfl⟩

theorem onward_tryFinish (driven : s.phase.isTarget) : Onward s (s.tryFinish b).1 := by
  obtain ⟨stray, phase, disk⟩ := extendDataOut_alike
  have extended : Onward s (s.extendDataOut b) := .alike stray phase disk
  unfold tryFinish
  dsimp only
  split
  · refine extended.trans (.enter rfl trivial fun bounded _ => bounded.2 ?_)
    rwa [phase]
  · exact extended

theorem onward_trySelect : Onward s (s.trySelect b) := by
  unfold trySelect
  split
  · exact onward_enterBusFree
  · exact .enter rfl trivial fun _ _ => rfl

theorem onward_pushCommand (v : Byte) : Onward s (s.pushCommand v) := .alike rfl rfl rfl

theorem onward_ackRising : Onward s s.ackRising := by
  unfold ackRising
  split <;> exact .alike rfl rfl rfl

theorem onward_ackFalling : Onward s (s.ackFalling b) := by
  unfold ackFalling
  split
  next phase =>
    split
    · exact onward_execute (by rw [phase]; rfl)
    · exact .alike rfl rfl rfl
  next phase =>
    split
    · exact onward_enterStatus (by rw [phase]; rfl)
    · exact .alike rfl rfl rfl
  next phase =>
    have tried : Onward s (s.tryFinish b).1 := onward_tryFinish (by rw [phase]; rfl)
    split
    · exact tried
    · exact tried.trans (.alike rfl rfl rfl)
  next phase => exact onward_enterMsgIn (by rw [phase]; rfl)
  next => exact onward_enterBusFree
  next => exact .refl s

theorem onward_ackEdges (dif v : Byte) : Onward s (s.ackEdges b dif v) := by
  unfold ackEdges
  dsimp only
  split_ifs
  · exact onward_ackRising.trans onward_ackFalling
  · exact onward_ackFalling
  · exact onward_ackRising
  · exact .refl s
  · exact .refl s

theorem onward_writeIcr (v : Byte) : Onward s (s.writeIcr b v) := by
  unfold writeIcr
  dsimp only
  have latched : Onward s { s with icr := v &&& ICR_WRITE } := .alike rfl rfl rfl
  split
  · split
    · exact latched
    · exact onward_reset.trans (.alike rfl rfl rfl)
  · refine Onward.trans ?_ (onward_ackEdges _ _)
    split
    · exact latched.trans onward_trySelect
    · exact latched

theorem onward_writeMode (v : Byte) : Onward s (s.writeMode v) := by
  unfold writeMode
  dsimp only
  split_ifs
  · exact .enter rfl trivial nofun
  · exact .enter rfl trivial nofun
  · exact .enter rfl trivial nofun
  · exact .alike rfl rfl rfl

/-- A look behind the comparison. -/
theorem onward_look (more : s.dataPos < s.dataIn.length) : Onward s s.look.2 := by
  refine ⟨fun inside => ?_, id⟩
  unfold look
  rw [inside, Bool.false_or, decide_eq_false_iff_not]
  omega

theorem onward_read (reg : Reg) : Onward s (s.read reg).2 := by
  cases reg with
  | data =>
    unfold read
    dsimp only
    split_ifs with more
    · exact onward_look more.2
    · exact .refl s
    · exact .refl s
    · exact .refl s
  | idr =>
    unfold read
    dsimp only
    split_ifs with more
    · exact onward_look more.2
    · exact .refl s
  | csr =>
    unfold read closeGap
    dsimp only
    split
    · exact .alike rfl rfl rfl
    · exact .refl s
  | rpi => exact .alike rfl rfl rfl
  | _ => exact .refl s

theorem onward_write (reg : Reg) (v : Byte) : Onward s (s.write b reg v) := by
  cases reg with
  | icr => exact onward_writeIcr v
  | mode => exact onward_writeMode v
  | rpi =>
    unfold write
    dsimp only
    split
    · exact .alike rfl rfl rfl
    · exact .refl s
  | _ => exact .alike rfl rfl rfl

theorem onward_lookIn : Onward s s.lookIn.2 ∧ s.lookIn.2.phase = s.phase := by
  unfold lookIn
  split
  next more => exact ⟨onward_look more, rfl⟩
  next => exact ⟨.refl s, rfl⟩

theorem onward_passIn (driven : s.phase.isTarget) : Onward s s.passIn := by
  unfold passIn
  dsimp only
  split
  · exact .enter rfl trivial fun bounded _ => bounded.2 driven
  · exact .alike rfl rfl rfl

theorem onward_dmaRead : Onward s s.dmaRead.2 := by
  unfold dmaRead
  split
  next phase => exact onward_lookIn.1.trans (onward_passIn (by rw [onward_lookIn.2, phase]; rfl))
  next phase =>
    split
    · exact onward_enterMsgIn (by rw [phase]; rfl)
    · exact .refl s
  next =>
    split
    · exact onward_enterBusFree
    · exact .refl s
  next => exact .refl s

theorem onward_dmaWrite (v : Byte) : Onward s (s.dmaWrite b v) := by
  unfold dmaWrite
  dsimp only
  split
  next phase =>
    have pushed := onward_pushCommand (s := s) v
    split
    · exact pushed.trans (onward_execute (by
        change s.phase.isTarget
        rw [phase]
        rfl))
    · exact pushed
  next phase =>
    have gathered : Onward s { s with dataOut := s.dataOut ++ [v] } := .alike rfl rfl rfl
    have tried := gathered.trans (onward_tryFinish (b := b) (by
      rw [phase]
      rfl))
    split
    · exact tried
    · exact tried.trans (.alike rfl rfl rfl)
  next => exact .refl s

/-- A target leaves the bus between sessions only. -/
theorem onward_detach (id : Fin 7) : Onward s (s.detach id) := by
  unfold detach
  split
  · exact .refl s
  next leaves =>
    refine ⟨fun inside => inside, fun bounded => ⟨bounded.1, fun driven => ?_⟩⟩
    have connected := bounded.2 driven
    split
    next same =>
      have active : s.phase ≠ .busFree := by
        intro free
        have impossible : Phase.busFree.isTarget := free ▸ driven
        cases impossible
      refine absurd (Or.inr ?_) leaves
      unfold sessionOn
      rw [← same, connected, decide_eq_true rfl, decide_eq_true active]
      rfl
    next => exact connected

theorem onward_step (access : Access) : Onward s (s.step b access) := by
  cases access with
  | read reg => exact onward_read reg
  | write reg v => exact onward_write reg v
  | dmaRead => exact onward_dmaRead
  | dmaWrite v => exact onward_dmaWrite v
  | reset => exact onward_reset
  | attach | post => exact .alike rfl rfl rfl
  | detach id => exact onward_detach id

/-- No access of a run falls outside, whatever state it begins in. -/
theorem inside_run (inside : s.stray = false) (accesses : List Access) :
    (run (step b) s accesses).stray = false :=
  run_invariant (I := fun s : Ncr5380 δ => s.stray = false) (fun _ access kept =>
    (onward_step access).inside kept) inside accesses

end Ncr5380

end Pom68k.Scsi
