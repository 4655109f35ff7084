import Pom68k.Scsi.Bounds
import Pom68k.Scsi.Ncr5380

/-! # Controllers restored from a save state

The visitors of both controllers take their fields off the archive one after the other. An
integer is taken as it stands, an enumeration is the integer of its value, and the selected
target is an address that is looked up again. Nothing compares what was read with the
arrays it will index.
-/

namespace Pom68k.Scsi

open Disk (Byte Reader Block)
open Foundation

/-! ## Fields -/

namespace Take

def u8 : StateM Reader Byte := fun r => r.word 8 1

def u32 : StateM Reader (BitVec 32) := fun r => r.word 32 4

def u64 : StateM Reader (BitVec 64) := fun r => r.word 64 8

def bool : StateM Reader Bool := do return (← u8) != 0

/-- A signed integer of four bytes. -/
def int : StateM Reader Int := do return (← u32).toInt

/-- A position or a size. -/
def size : StateM Reader Nat := do return (← u64).toNat

def int8 : StateM Reader Int := do return (← u8).toInt

/-- An array of known length. -/
def array (n : Nat) : StateM Reader (Vector Byte n) := fun r =>
  (⟨(r.bytes n).1.1.toArray, by rw [List.size_toArray]; exact (r.bytes n).1.2⟩, (r.bytes n).2)

/-- A sequence behind its length. A length that cannot be there is refused before anything
is made for it. -/
def bytes : StateM Reader (List Byte) := fun r =>
  let n := r.varint
  if n.2.ok = false ∨ n.2.rest.length + 1 < n.1.toNat then ([], n.2.fail)
  else ((n.2.bytes n.1.toNat).1.1, (n.2.bytes n.1.toNat).2)

end Take

open Take

/-- The object a selected address stands for. -/
def resolve (targets : Fin 7 → Option Nat) (sel : Int) : Option Nat :=
  if inside : 0 ≤ sel ∧ sel < 7 then targets ⟨sel.toNat, by omega⟩ else none

/-! ## The 53C96 -/

/-- The enumeration value of an integer. -/
def Phase.ofRaw (raw : BitVec 32) : Phase :=
  match raw.toNat with
  | 0 => .busFree
  | 1 => .msgOut
  | 2 => .command
  | 3 => .dataIn
  | 4 => .dataOut
  | 5 => .status
  | 6 => .msgIn
  | _ => .unnamed raw

namespace Ncr53c96

/-- What the archive of a 53C96 holds, in the order of the visitor. -/
structure Image where
  lines : Lines
  selCdbWait : Bool
  tcounter : BitVec 32
  dmaCommand : Bool
  fifo : Vector Byte 16
  fifoPos : Int
  dataXfer : Bool
  phase : BitVec 32
  cmd : List Byte
  dataIn : List Byte
  dataInPos : Nat
  dataOut : List Byte
  dataOutExpected : Nat
  targetStatus : Byte
  msgInLeft : Int
  selects : Nat
  cmdQueue : Vector Byte 2
  cmdQueuePos : Int
  sel : Int

/-- `Ncr53c96::visit`, loading. The latency belongs to the environment, and of the counters
only the selections are kept. -/
def Image.take (latency : Int) : StateM Reader Image := do
  let config1 ← u8
  let config2 ← u8
  let config3 ← u8
  let clockConv ← u8
  let syncPeriod ← u8
  let syncOffset ← u8
  let busId ← u8
  let selectTimeout ← u8
  let seq ← u8
  let status ← u8
  let istatus ← u8
  let scsiId ← u8
  let irq ← bool
  let drq ← bool
  let pendDelay ← int
  let pendBits ← u8
  let selCdbWait ← bool
  let testMode ← bool
  let tcount ← u32
  let tcounter ← u32
  let dmaCommand ← bool
  let fifo ← array 16
  let fifoPos ← int
  let dataXfer ← bool
  let phase ← u32
  let cmd ← bytes
  let dataIn ← bytes
  let dataInPos ← size
  let dataOut ← bytes
  let dataOutExpected ← size
  let targetStatus ← u8
  let msgInLeft ← int
  let _reads ← u64
  let _writes ← u64
  let selects ← size
  let _commands ← u64
  let _dmaBytes ← u64
  let lastCmd ← u8
  let cmdQueue ← array 2
  let cmdQueuePos ← int
  let sel ← int8
  return {
    lines := {
      config1, config2, config3, clockConv, syncPeriod, syncOffset, busId, selectTimeout, seq
      status, istatus, scsiId, irq, drq, latency, pendDelay, pendBits, testMode, tcount, lastCmd }
    selCdbWait, tcounter, dmaCommand, fifo, fifoPos, dataXfer, phase, cmd, dataIn, dataInPos
    dataOut, dataOutExpected, targetStatus, msgInLeft, selects, cmdQueue, cmdQueuePos, sel }

variable {δ : Type} {bus : Targets δ}

/-- The fields put in place. The targets and the mailbox are the machine's and stay. -/
def restore (s : Ncr53c96 δ) (image : Image) : Ncr53c96 δ where
  lines := image.lines
  targets := s.targets
  disk := resolve s.targets image.sel
  devices := s.devices
  mailbox := s.mailbox
  selCdbWait := image.selCdbWait
  cmdQueue := image.cmdQueue
  cmdQueuePos := image.cmdQueuePos
  tcounter := image.tcounter
  dmaCommand := image.dmaCommand
  fifo := image.fifo
  fifoPos := image.fifoPos
  dataXfer := image.dataXfer
  phase := Phase.ofRaw image.phase
  cmd := image.cmd
  dataIn := image.dataIn
  dataInPos := image.dataInPos
  dataOut := image.dataOut
  dataOutExpected := image.dataOutExpected
  targetStatus := image.targetStatus
  msgInLeft := image.msgInLeft
  selects := image.selects
  calls := s.calls

/-- The image of a byte string that is accepted, whatever stands behind it. -/
def accept (s : Ncr53c96 δ) (bytes : List Byte) : Option Image :=
  let r := Image.take s.lines.latency ⟨bytes, true, ""⟩
  if r.2.ok then some r.1 else none

/-- The integers of an image index the arrays they are for, and a phase with a target has
one on the bus. -/
@[mk_iff] structure Image.InRange (image : Image) (targets : Fin 7 → Option Nat) : Prop where
  fifo : 0 ≤ image.fifoPos ∧ image.fifoPos ≤ 16
  queue : 0 ≤ image.cmdQueuePos ∧ image.cmdQueuePos ≤ 2
  reply : image.dataInPos ≤ image.dataIn.length
  phase : image.phase.toNat < 7
  target : image.phase.toNat ∈ [2, 3, 4, 6] → ∃ id : Fin 7, image.sel = id.val ∧ (targets id).isSome

instance (image : Image) (targets : Fin 7 → Option Nat) : Decidable (image.InRange targets) :=
  decidable_of_iff' _ (Image.inRange_iff image targets)

end Ncr53c96

theorem Phase.named_ofRaw (raw : BitVec 32) : (Phase.ofRaw raw).Named ↔ raw.toNat < 7 := by
  unfold Phase.ofRaw
  split <;> simp only [Phase.Named] <;> grind

theorem Phase.needsTarget_ofRaw (raw : BitVec 32) :
    (Phase.ofRaw raw).NeedsTarget ↔ raw.toNat ∈ [2, 3, 4, 6] := by
  unfold Phase.ofRaw
  split <;> simp only [Phase.NeedsTarget] <;> grind

/-- What a load that is accepted leads to, by what was read. -/
theorem loaded_iff {α β : Type} {accepted : Option α} {restore : α → β} {restored : β}
    {P : β → Prop} {Q : α → Prop} (loaded : accepted.map restore = some restored)
    (same : ∀ image, P (restore image) ↔ Q image) :
    P restored ↔ ∃ image, accepted = some image ∧ Q image := by
  obtain ⟨image, rfl, rfl⟩ := Option.map_eq_some_iff.mp loaded
  rw [same]
  exact ⟨fun range => ⟨image, rfl, range⟩, fun ⟨other, found, range⟩ => Option.some.inj found ▸ range⟩

theorem resolve_isSome (targets : Fin 7 → Option Nat) (sel : Int) :
    (resolve targets sel).isSome ↔ ∃ id : Fin 7, sel = id.val ∧ (targets id).isSome := by
  unfold resolve
  split
  next inside =>
    constructor
    · exact fun there => ⟨⟨sel.toNat, by omega⟩, by dsimp only; omega, there⟩
    · rintro ⟨id, rfl, there⟩
      exact there
  next outside =>
    refine iff_of_false Bool.false_ne_true ?_
    rintro ⟨id, rfl, -⟩
    exact outside ⟨by omega, by omega⟩

namespace Ncr53c96

variable {δ : Type} {bus : Targets δ}

/-- The controller after a load that is accepted. -/
def load (s : Ncr53c96 δ) (bytes : List Byte) : Option (Ncr53c96 δ) :=
  (s.accept bytes).map s.restore

/-- A byte string is accepted, and what it holds is in range. -/
def Fits (s : Ncr53c96 δ) (bytes : List Byte) : Prop :=
  ∃ image, s.accept bytes = some image ∧ image.InRange s.targets

theorem bounded_restore (s : Ncr53c96 δ) (image : Image) :
    (s.restore image).Bounded ↔ image.InRange s.targets := by
  constructor
  · intro bounded
    refine ⟨bounded.fifo, bounded.queue, bounded.reply, (Phase.named_ofRaw _).mp bounded.named,
      fun needs => ?_⟩
    exact (resolve_isSome _ _).mp (bounded.target ((Phase.needsTarget_ofRaw _).mpr needs))
  · intro range
    refine ⟨range.fifo, range.queue, range.reply, (Phase.named_ofRaw _).mpr range.phase,
      fun needs => ?_⟩
    exact (resolve_isSome _ _).mpr (range.target ((Phase.needsTarget_ofRaw _).mp needs))

section

variable {s restored : Ncr53c96 δ} {bytes : List Byte} (loaded : s.load bytes = some restored)
include loaded

/-- A restored controller is within its bounds exactly if the byte string fits it. -/
theorem bounded_load : restored.Bounded ↔ s.Fits bytes := loaded_iff loaded s.bounded_restore

/-- A restored controller within its bounds is as good as one that was run there. -/
theorem sound_load (bounded : restored.Bounded) : restored.Sound := by
  obtain ⟨image, -, rfl⟩ := Option.map_eq_some_iff.mp loaded
  exact ⟨bounded, rfl, .inl rfl⟩

end

end Ncr53c96

/-! ## The 5380 -/

/-- The enumeration value of an integer. -/
def Ncr5380.Phase.ofRaw (raw : BitVec 32) : Ncr5380.Phase :=
  match raw.toNat with
  | 0 => .busFree
  | 1 => .arbitration
  | 2 => .selection
  | 3 => .command
  | 4 => .dataIn
  | 5 => .dataOut
  | 6 => .status
  | 7 => .msgIn
  | 8 => .msgOut
  | _ => .unnamed raw

namespace Ncr5380

/-- What the archive of a 5380 holds, in the order of the visitor. -/
structure Image where
  odr : Byte
  icr : Byte
  mode : Byte
  tcr : Byte
  selEnable : Byte
  phase : BitVec 32
  req : Bool
  reqGap : Bool
  irq : Bool
  cmd : List Byte
  dataIn : List Byte
  dataOut : List Byte
  dataPos : Nat
  dataOutExpected : Nat
  cmdLen : Int
  status : Byte
  lastCmd : Byte
  sel : Int

/-- `Ncr5380::visit`, loading. The counters are not kept. -/
def Image.take : StateM Reader Image := do
  let odr ← u8
  let icr ← u8
  let mode ← u8
  let tcr ← u8
  let selEnable ← u8
  let phase ← u32
  let req ← bool
  let reqGap ← bool
  let irq ← bool
  let cmd ← bytes
  let dataIn ← bytes
  let dataOut ← bytes
  let dataPos ← size
  let dataOutExpected ← size
  let cmdLen ← int
  let status ← u8
  let _reads ← u64
  let _writes ← u64
  let _selects ← u64
  let _commands ← u64
  let _dmaBytes ← u64
  let lastCmd ← u8
  let sel ← int8
  return {
    odr, icr, mode, tcr, selEnable, phase, req, reqGap, irq, cmd, dataIn, dataOut, dataPos
    dataOutExpected, cmdLen, status, lastCmd, sel }

variable {δ : Type} {bus : Targets δ}

/-- The fields put in place. The targets and the mailbox are the machine's and stay. -/
def restore (s : Ncr5380 δ) (image : Image) : Ncr5380 δ where
  targets := s.targets
  disk := resolve s.targets image.sel
  devices := s.devices
  mailbox := s.mailbox
  odr := image.odr
  icr := image.icr
  mode := image.mode
  tcr := image.tcr
  selEnable := image.selEnable
  phase := Phase.ofRaw image.phase
  req := image.req
  reqGap := image.reqGap
  irq := image.irq
  cmd := image.cmd
  dataIn := image.dataIn
  dataOut := image.dataOut
  dataPos := image.dataPos
  dataOutExpected := image.dataOutExpected
  cmdLen := image.cmdLen
  status := image.status
  lastCmd := image.lastCmd
  calls := s.calls

/-- The image of a byte string that is accepted, whatever stands behind it. -/
def accept (bytes : List Byte) : Option Image :=
  let r := Image.take ⟨bytes, true, ""⟩
  if r.2.ok then some r.1 else none

/-- The phase is a phase, and one the target drives has a target on the bus. -/
@[mk_iff] structure Image.InRange (image : Image) (targets : Fin 7 → Option Nat) : Prop where
  phase : image.phase.toNat < 9
  target : image.phase.toNat ∈ [3, 4, 5, 6, 7] →
    ∃ id : Fin 7, image.sel = id.val ∧ (targets id).isSome

instance (image : Image) (targets : Fin 7 → Option Nat) : Decidable (image.InRange targets) :=
  decidable_of_iff' _ (Image.inRange_iff image targets)

theorem Phase.named_ofRaw (raw : BitVec 32) : (Phase.ofRaw raw).Named ↔ raw.toNat < 9 := by
  unfold Phase.ofRaw
  split <;> simp only [Phase.Named] <;> grind

theorem Phase.isTarget_ofRaw (raw : BitVec 32) :
    (Phase.ofRaw raw).isTarget ↔ raw.toNat ∈ [3, 4, 5, 6, 7] := by
  unfold Phase.ofRaw
  split <;> simp only [Phase.isTarget, List.mem_cons] <;> grind

/-- The controller after a load that is accepted. -/
def load (s : Ncr5380 δ) (bytes : List Byte) : Option (Ncr5380 δ) :=
  (accept bytes).map s.restore

/-- A byte string is accepted, and what it holds is in range. -/
def Fits (s : Ncr5380 δ) (bytes : List Byte) : Prop :=
  ∃ image, accept bytes = some image ∧ image.InRange s.targets

theorem bounded_restore (s : Ncr5380 δ) (image : Image) :
    (s.restore image).Bounded ↔ image.InRange s.targets := by
  rw [Image.inRange_iff]
  exact and_congr (Phase.named_ofRaw _) (imp_congr (Phase.isTarget_ofRaw _) (resolve_isSome _ _))

section

variable {s restored : Ncr5380 δ} {bytes : List Byte} (loaded : s.load bytes = some restored)
include loaded

/-- A restored controller is within its bounds exactly if the byte string fits it. -/
theorem bounded_load : restored.Bounded ↔ s.Fits bytes := loaded_iff loaded s.bounded_restore

theorem inside_load : restored.stray = false := by
  obtain ⟨image, -, rfl⟩ := Option.map_eq_some_iff.mp loaded
  rfl

end

end Ncr5380

/-! ## What a load leads to -/

section Load

variable {δ : Type} (bus : Targets δ)

/-- The restored 53C96 is within the bounds of every reachable state, and no later access
falls outside. -/
def Ncr53c96.Safe (s : Ncr53c96 δ) : Prop :=
  s.Bounded ∧ ∀ accesses, (run (Ncr53c96.step bus) s accesses).stray = false

/-- The restored 5380 is within the bounds of every reachable state, and no later access
falls outside. -/
def Ncr5380.Safe (s : Ncr5380 δ) : Prop :=
  s.Bounded ∧ ∀ accesses, (run (Ncr5380.step bus) s accesses).stray = false

/-- Whatever byte strings are accepted, the restored controllers are safe exactly if the
integers in them are in range; a 5380 never looks outside its buffers. -/
theorem restored_controllers_safe {turbo turboAfter : Ncr53c96 δ} {plain plainAfter : Ncr5380 δ}
    {first second : List Byte} (loaded : turbo.load first = some turboAfter)
    (loadedToo : plain.load second = some plainAfter) :
    (turboAfter.Safe bus ↔ turbo.Fits first) ∧ (plainAfter.Safe bus ↔ plain.Fits second) ∧
      ∀ accesses, (run (Ncr5380.step bus) plainAfter accesses).stray = false := by
  have inside := Ncr5380.inside_run (b := bus) (Ncr5380.inside_load loadedToo)
  refine ⟨⟨fun safe => (Ncr53c96.bounded_load loaded).mp safe.1, fun fits => ?_⟩,
    ⟨fun safe => (Ncr5380.bounded_load loadedToo).mp safe.1, fun fits => ?_⟩, inside⟩
  · have bounded := (Ncr53c96.bounded_load loaded).mpr fits
    exact ⟨bounded, fun accesses => ((Ncr53c96.sound_load loaded bounded).run accesses).2.1⟩
  · exact ⟨(Ncr5380.bounded_load loadedToo).mpr fits, inside⟩

/-- Both controllers are safe in every state that accesses lead to from power-on. -/
theorem powered_controllers_safe (devices : δ) (first : List Ncr53c96.Access)
    (second : List Ncr5380.Access) :
    (run (Ncr53c96.step bus) (.fresh devices) first).Safe bus ∧
      (run (Ncr5380.step bus) { devices := devices } second).Safe bus := by
  have sound := (Ncr53c96.sound_fresh devices).run (b := bus) first
  refine ⟨⟨sound.1, fun later => (sound.run later).2.1⟩, ?_, fun later => ?_⟩
  · exact run_invariant (fun _ access => (Ncr5380.onward_step access).bounded)
      ⟨trivial, nofun⟩ second
  · exact Ncr5380.inside_run (Ncr5380.inside_run rfl second) later

end Load

namespace Sample

/-- A byte string for the 53C96 that holds zeros everywhere but at the FIFO position. -/
def turboBytes (fifoPos : Byte) : List Byte :=
  List.replicate 46 0 ++ fifoPos :: List.replicate 80 0

/-- A byte string for the 5380 that holds zeros everywhere. -/
def plainBytes : List Byte := List.replicate 90 0

/-- The 5380 as it is made. -/
def plain : Ncr5380 Unit := { devices := () }

end Sample

/-- Zeros, and a FIFO with three bytes in it: both controllers come back safe. -/
theorem restored_controllers_safe_idle :
    ∃ turboAfter plainAfter,
      (Ncr53c96.fresh ()).load (Sample.turboBytes 3) = some turboAfter ∧
      Sample.plain.load Sample.plainBytes = some plainAfter ∧
      turboAfter.Safe (Sample.targets 0 []) ∧ plainAfter.Safe (Sample.targets 0 []) := by
  have turbo : ((Ncr53c96.fresh ()).accept (Sample.turboBytes 3)).any
      (fun image => decide (image.InRange fun _ => none)) = true := by decide +kernel
  have plain : (Ncr5380.accept Sample.plainBytes).any
      (fun image => decide (image.InRange fun _ => none)) = true := by decide +kernel
  obtain ⟨image, accepted, range⟩ := (Option.any_eq_true _ _).mp turbo
  obtain ⟨other, acceptedToo, rangeToo⟩ := (Option.any_eq_true _ _).mp plain
  have loaded : (Ncr53c96.fresh ()).load (Sample.turboBytes 3) =
      some ((Ncr53c96.fresh ()).restore image) := by rw [Ncr53c96.load, accepted]; rfl
  have loadedToo : Sample.plain.load Sample.plainBytes = some (Sample.plain.restore other) := by
    rw [Ncr5380.load, acceptedToo]; rfl
  obtain ⟨first, second, -⟩ := restored_controllers_safe (Sample.targets 0 []) loaded loadedToo
  exact ⟨_, _, loaded, loadedToo, first.mpr ⟨image, accepted, of_decide_eq_true range⟩,
    second.mpr ⟨other, acceptedToo, of_decide_eq_true rangeToo⟩⟩

/-- A byte string with a FIFO position of a hundred is accepted. The next read of the FIFO
register moves ninety-nine bytes down inside an array of sixteen. -/
theorem restored_fifo_outside :
    ∃ restored, (Ncr53c96.fresh ()).load (Sample.turboBytes 100) = some restored ∧
      ¬ restored.Bounded ∧ (restored.step (Sample.targets 0 []) (.read .fifo)).stray = true := by
  have outside : ((Ncr53c96.fresh ()).load (Sample.turboBytes 100)).any (fun restored =>
      decide (16 < restored.fifoPos) && (restored.step (Sample.targets 0 []) (.read .fifo)).stray) =
        true := by decide +kernel
  obtain ⟨restored, loaded, found⟩ := (Option.any_eq_true _ _).mp outside
  rw [Bool.and_eq_true, decide_eq_true_eq] at found
  exact ⟨restored, loaded, fun bounded => absurd bounded.fifo.2 (by omega), found.2⟩

end Pom68k.Scsi
