import Pom68k.Scsi.Ncr53c96
import Pom68k.Foundation.Runs

/-! # No access of the 53C96 falls outside

The positions into the FIFO, the command queue and the reply keep their bounds, and every
phase that needs a target has one, whatever accesses are made. From such a state on, no
access reads or writes outside.
-/

namespace Pom68k.Scsi

open Disk (Byte)
open Foundation

namespace Phase

/-- The value is one of the enumeration. -/
def Named : Phase → Prop
  | .unnamed _ => False
  | _ => True

/-- In these phases a target is asked. The STATUS phase is left by way of the FIFO only. -/
def NeedsTarget : Phase → Prop
  | .command | .dataIn | .dataOut | .msgIn => True
  | _ => False

end Phase

/-- The operations of the initiator group. -/
def Op.initiator : Op → Bool
  | .xfer | .complete | .msgAccept | .pad | .setAtn | .resetAtn => true
  | _ => false

/-- The bounds, over the values they are about. -/
structure Bounds (fifoPos cmdQueuePos : Int) (replyLength dataInPos : Nat) (phase : Phase)
    (disk : Option Nat) : Prop where
  fifo : 0 ≤ fifoPos ∧ fifoPos ≤ 16
  queue : 0 ≤ cmdQueuePos ∧ cmdQueuePos ≤ 2
  reply : dataInPos ≤ replyLength
  named : phase.Named
  target : phase.NeedsTarget → disk.isSome

theorem within_zero : (0 : Int) ≤ 0 ∧ (0 : Int) ≤ 16 := by decide

theorem queued_zero : (0 : Int) ≤ 0 ∧ (0 : Int) ≤ 2 := by decide

namespace Ncr53c96

variable {δ : Type} {b : Targets δ} {s : Ncr53c96 δ} {c : Byte}

def Bounded (s : Ncr53c96 δ) : Prop :=
  Bounds s.fifoPos s.cmdQueuePos s.dataIn.length s.dataInPos s.phase s.disk

/-- The bounds hold, no access was outside, and the status latched is the one the target
gave. -/
def Sound (s : Ncr53c96 δ) : Prop :=
  s.Bounded ∧ s.stray = false ∧ (s.answered = none ∨ s.answered = some s.targetStatus)

theorem Sound.target (sound : s.Sound) (needs : s.phase.NeedsTarget) : s.disk.isSome :=
  sound.1.target needs

/-! ## What stays -/

theorem disk_fifoPop : s.fifoPop.2.disk = s.disk := by
  unfold Ncr53c96.fifoPop
  split_ifs <;> rfl

theorem padCount_le (within : s.dataInPos ≤ s.dataIn.length) :
    s.padCount ≤ s.dataIn.length - s.dataInPos := by
  have left : s.unread = s.dataIn.length - s.dataInPos := if_pos within
  unfold padCount
  rw [left]
  split_ifs
  · exact le_refl _
  · exact Nat.min_le_right _ _

theorem disk_advanceToStatus : (s.advanceToStatus b).disk = s.disk := by
  unfold Ncr53c96.advanceToStatus
  split_ifs <;> rfl

theorem disk_gather (v : Byte) : (s.gather b v).disk = s.disk := by
  unfold Ncr53c96.gather Ncr53c96.countDown
  dsimp only
  split_ifs <;> rfl

theorem disk_runTarget : (s.runTarget b).disk = s.disk := by
  unfold Ncr53c96.runTarget
  dsimp only
  split_ifs <;> rfl

theorem disk_fifoPush (v : Byte) : (s.fifoPush b v).disk = s.disk := by
  unfold Ncr53c96.fifoPush
  split_ifs
  · unfold Ncr53c96.acceptCommandByte
    dsimp only
    split_ifs
    · exact disk_runTarget
    · exact disk_runTarget
    · rfl
  · unfold Ncr53c96.acceptDataOutByte
    dsimp only
    split_ifs
    · change (Ncr53c96.advanceToStatus b (s.gather b v)).disk = s.disk
      rw [disk_advanceToStatus]
      exact disk_gather v
    · exact disk_gather (b := b) v
    · exact disk_gather (b := b) v
  · unfold Ncr53c96.store
    split_ifs <;> rfl

theorem disk_prepare (c : Byte) : (s.prepare c).disk = s.disk := by
  unfold Ncr53c96.prepare loadCounter
  split <;> rfl

theorem cmdQueuePos_prepare (c : Byte) : (s.prepare c).cmdQueuePos = s.cmdQueuePos := by
  unfold Ncr53c96.prepare loadCounter
  split <;> rfl

/-- The commands of the initiator group are valid with a target only. -/
theorem connected_of_valid (valid : s.checkValidCommand c) (group : (c &&& 0x7F).toNat / 16 = 1) :
    s.disk.isSome ∧ s.phase ≠ .busFree := by
  unfold Ncr53c96.checkValidCommand at valid
  rw [group] at valid
  simp only [Bool.and_eq_true, decide_eq_true_eq] at valid
  exact valid.1

theorem group_of_initiator (op : (Op.decode c).initiator) : (c &&& 0x7F).toNat / 16 = 1 := by
  unfold Op.decode at op
  split at op
  case h_10 same | h_11 same | h_12 same | h_13 same | h_14 same | h_15 same => rw [same]
  all_goals cases op

/-- A command that goes back to the queue has not touched it. -/
theorem cmdQueuePos_perform {op : Op} (again : (s.perform b op).1) :
    (s.perform b op).2.cmdQueuePos = s.cmdQueuePos := by
  cases op with
  | nop | flushFifo | enableSel | disableSel | setAtn | resetAtn => rfl
  | _ => cases again

theorem cmdQueuePos_start (again : (s.start b c).1) :
    (s.start b c).2.cmdQueuePos = s.cmdQueuePos := by
  unfold Ncr53c96.start at again ⊢
  split at again
  next valid =>
    rw [if_pos valid, cmdQueuePos_perform again, cmdQueuePos_prepare]
  next => cases again

/-! ## The interrupt side -/

section

variable (sound : s.Sound)
include sound

/-- Nothing that is bounded depends on the interrupt side. -/
theorem Sound.onLines (f : Lines → Lines) : (s.onLines f).Sound := sound

theorem Sound.updateDrq : s.updateDrq.Sound := sound

theorem Sound.raiseIrq (bits : Byte) : (s.raiseIrq bits).Sound := sound

theorem Sound.raiseIrqDeferred (bits : Byte) (cycles : Int) :
    (s.raiseIrqDeferred bits cycles).Sound := sound

theorem Sound.setSeq (seq : Byte) : (s.setSeq seq).Sound := sound

/-! ## The target -/

/-- A phase that a connected target is in. -/
theorem Sound.withPhase {phase : Phase} (named : phase.Named)
    (target : phase.NeedsTarget → s.disk.isSome) : Sound { s with phase := phase } :=
  ⟨⟨sound.1.fifo, sound.1.queue, sound.1.reply, named, target⟩, sound.2⟩

theorem Sound.dispatch (connected : s.disk.isSome) (payload : List Byte) :
    (s.dispatch b payload).Sound := by
  refine ⟨sound.1, sound.2.1, ?_⟩
  rw [Ncr53c96.dispatch, connected]
  exact .inr rfl

/-- A reply to read from its first byte. -/
theorem Sound.withReply (reply : List Byte) (xfer : Bool) :
    Sound { s with dataIn := reply, dataInPos := 0, dataXfer := xfer } :=
  ⟨⟨sound.1.fifo, sound.1.queue, Nat.zero_le _, sound.1.named, sound.1.target⟩, sound.2⟩

theorem Sound.runTarget (connected : s.disk.isSome) : (s.runTarget b).Sound := by
  unfold Ncr53c96.runTarget
  dsimp only
  have cleared := sound.withReply [] false
  split
  · exact cleared.withPhase trivial fun _ => connected
  · have asked := cleared.dispatch (b := b) connected []
    refine ⟨⟨asked.1.fifo, asked.1.queue, Nat.zero_le _, ?_, fun _ => connected⟩, asked.2⟩
    split <;> trivial

theorem Sound.advanceToStatus : (s.advanceToStatus b).Sound := by
  refine Sound.updateDrq (Sound.withPhase ?_ trivial fun needs => needs.elim)
  split
  next writing => exact sound.dispatch (sound.target (by rw [writing]; trivial)) _
  next => exact sound

theorem Sound.countDown : s.countDown.Sound := by
  unfold Ncr53c96.countDown
  dsimp only
  split_ifs
  · exact sound
  · exact sound
  · exact sound

variable (v : Byte)

theorem Sound.gather : (s.gather b v).Sound :=
  Sound.countDown sound

theorem Sound.endTransfer : s.endTransfer.Sound := sound

theorem Sound.acceptDataOutByte : (s.acceptDataOutByte b v).Sound := by
  refine Sound.updateDrq ?_
  split_ifs
  · exact (sound.gather v).advanceToStatus.endTransfer
  · exact (sound.gather v).endTransfer
  · exact sound.gather v

/-! ## The FIFO -/

theorem Sound.store : (s.store v).Sound := by
  unfold Ncr53c96.store
  split_ifs with room
  · obtain ⟨bounds, inside, told⟩ := sound
    have within := bounds.fifo
    refine ⟨⟨?_, bounds.queue, bounds.reply, bounds.named, bounds.target⟩, ?_, told⟩
    · exact ⟨by dsimp only; omega, by dsimp only; omega⟩
    · rw [inside, Bool.false_or, decide_eq_false_iff_not]
      omega
  · exact sound

theorem Sound.acceptCommandByte (connected : s.disk.isSome) (v : Byte) :
    (s.acceptCommandByte b v).Sound := by
  unfold Ncr53c96.acceptCommandByte
  dsimp only
  refine Sound.updateDrq ?_
  have ran (seq : Byte) : Sound (Ncr53c96.runTarget b (Ncr53c96.setSeq
      { s with cmd := s.cmd ++ [v], selCdbWait := false, given := [] } seq)) :=
    Sound.runTarget sound connected
  split_ifs
  · exact (ran 4).raiseIrqDeferred _ _
  · exact ran 4
  · exact sound

theorem Sound.fifoPush : (s.fifoPush b v).Sound := by
  unfold Ncr53c96.fifoPush
  split_ifs with collecting writing
  · exact sound.acceptCommandByte collecting.2 v
  · exact sound.acceptDataOutByte v
  · exact (sound.store v).updateDrq

theorem Sound.fifoPop : s.fifoPop.2.Sound := by
  refine Sound.updateDrq ?_
  split_ifs with empty
  · exact sound
  · obtain ⟨bounds, inside, told⟩ := sound
    have within := bounds.fifo
    refine ⟨⟨?_, bounds.queue, bounds.reply, bounds.named, bounds.target⟩, ?_, told⟩
    · exact ⟨by dsimp only; omega, by dsimp only; omega⟩
    · rw [inside, Bool.false_or, decide_eq_false_iff_not]
      omega

theorem Sound.drainCdb (n : Nat) :
    (Ncr53c96.drainCdb n s).2.Sound ∧ (Ncr53c96.drainCdb n s).2.disk = s.disk := by
  induction n generalizing s with
  | zero => exact ⟨sound, rfl⟩
  | succ n ih =>
    rw [Ncr53c96.drainCdb]
    split_ifs
    · exact ⟨sound.fifoPop, disk_fifoPop⟩
    · obtain ⟨after, same⟩ := ih (s := { s.fifoPop.2 with
        cmd := s.cmd ++ [s.fifoPop.1], tainted := s.tainted || decide (0 < s.latched) })
        sound.fifoPop
      exact ⟨after, same.trans disk_fifoPop⟩

theorem Sound.runDrained (connected : s.disk.isSome) : (s.runDrained b).Sound :=
  Sound.runTarget sound connected

/-! ## Commands -/

theorem Sound.disconnected : Sound { s with phase := .busFree, disk := none } :=
  ⟨⟨sound.1.fifo, sound.1.queue, sound.1.reply, trivial, fun needs => needs.elim⟩, sound.2⟩

theorem Sound.sendIdentify (withAtn : Bool) :
    (s.sendIdentify withAtn).2.2.Sound ∧ (s.sendIdentify withAtn).2.2.disk = s.disk := by
  unfold Ncr53c96.sendIdentify
  split_ifs
  · exact ⟨sound.fifoPop.setSeq 2, disk_fifoPop⟩
  · exact ⟨sound, rfl⟩

theorem Sound.connect (t : Nat) : (s.connect t).Sound :=
  ⟨⟨sound.1.fifo, sound.1.queue, sound.1.reply, sound.1.named, fun _ => rfl⟩, sound.2.1, .inl rfl⟩

theorem Sound.awaitCdb (connected : s.disk.isSome) : s.awaitCdb.Sound :=
  ⟨⟨sound.1.fifo, sound.1.queue, sound.1.reply, trivial, fun _ => connected⟩, sound.2⟩

theorem Sound.selectAnswered (t : Nat) (withAtn stopAfterMsg : Bool) :
    (s.selectAnswered b t withAtn stopAfterMsg).Sound := by
  unfold Ncr53c96.selectAnswered
  dsimp only
  obtain ⟨sent, connected⟩ := (sound.connect t).sendIdentify withAtn
  generalize (s.connect t).sendIdentify withAtn = r at *
  have told : (r.2.2.selectLun b t r.1).Sound := sent
  have there : (r.2.2.selectLun b t r.1).disk.isSome := by
    change r.2.2.disk.isSome
    rw [connected]
    rfl
  split
  · exact told.awaitCdb there
  obtain ⟨drained, same⟩ := told.drainCdb (r.2.2.selectLun b t r.1).fifoPos.toNat
  have still := same ▸ there
  split
  · exact Sound.runDrained (drained.setSeq 4) still
  · exact drained.awaitCdb still

theorem Sound.selectTarget (withAtn stopAfterMsg : Bool) :
    (s.selectTarget b withAtn stopAfterMsg).Sound := by
  unfold Ncr53c96.selectTarget
  dsimp only
  have counted : Sound (Ncr53c96.setSeq { s with selects := s.selects + 1 } 0) := sound
  split
  · exact counted.disconnected
  · split_ifs
    · exact counted.selectAnswered _ _ _
    · exact counted.disconnected

theorem Sound.fetchChunk : s.fetchChunk.Sound := sound

theorem Sound.transferIn : (s.transferIn b).Sound := by
  refine Sound.updateDrq ?_
  split
  · split
    · exact sound.fetchChunk.advanceToStatus
    · exact sound.fetchChunk
  · exact sound

/-- The FIFO forgotten. -/
theorem Sound.emptied : Sound { s with fifoPos := 0 } :=
  ⟨⟨within_zero, sound.1.queue, sound.1.reply, sound.1.named, sound.1.target⟩, sound.2⟩

theorem Sound.armOut : s.armOut.Sound := by
  unfold Ncr53c96.armOut
  split_ifs
  · exact sound
  · exact sound

theorem Sound.transferOut : (s.transferOut b).Sound := by
  refine Sound.updateDrq ?_
  split
  · exact List.foldlRecOn _ _ sound.armOut.emptied fun _ sound v _ => sound.acceptDataOutByte v
  · exact sound.armOut

theorem Sound.transferCommand (connected : s.disk.isSome) : (s.transferCommand b).Sound := by
  obtain ⟨drained, same⟩ := sound.drainCdb s.fifoPos.toNat
  refine Sound.raiseIrqDeferred ?_ _ _
  split_ifs
  · exact drained.runDrained (by rwa [same])
  · exact drained

theorem Sound.transferInfo : (s.transferInfo b).Sound := by
  unfold Ncr53c96.transferInfo
  dsimp only
  have begun := sound.setSeq 0
  split
  · exact begun.transferIn
  · exact begun.transferOut
  next collecting => exact begun.transferCommand (begun.target (by rw [collecting]; trivial))
  · exact begun

theorem Sound.padLoop (n : Nat) : (Ncr53c96.padLoop n s).2.Sound := by
  induction n generalizing s with
  | zero => exact sound
  | succ n ih =>
    rw [Ncr53c96.padLoop]
    dsimp only
    split_ifs
    · exact ih sound
    · exact sound
    · exact ih sound

theorem Sound.discard : s.discard.Sound := by
  have within := sound.1.reply
  have few := padCount_le within
  refine ⟨⟨sound.1.fifo, sound.1.queue, ?_, sound.1.named, sound.1.target⟩, sound.2⟩
  unfold Ncr53c96.discard
  dsimp only
  rw [if_pos within]
  omega

theorem Sound.padIn : (s.padIn b).2.Sound := by
  unfold Ncr53c96.padIn
  dsimp only
  split
  · exact sound.discard.advanceToStatus
  · exact sound.discard

theorem Sound.padOut : (s.padOut b).2.Sound := by
  unfold Ncr53c96.padOut
  dsimp only
  have padded := sound.padLoop (s.dataOutExpected - s.dataOut.length)
  split
  · exact padded.advanceToStatus
  · exact padded

/-- The queue emptied. -/
theorem Sound.unqueued : Sound { s with cmdQueuePos := 0 } :=
  ⟨⟨sound.1.fifo, queued_zero, sound.1.reply, sound.1.named, sound.1.target⟩, sound.2⟩

theorem Sound.endPad (hit : Bool) : (s.endPad hit).Sound := by
  refine Sound.updateDrq ?_
  split
  · exact sound
  · exact sound.unqueued

theorem Sound.pad : (s.pad b).Sound := by
  unfold Ncr53c96.pad
  split
  · exact sound.padOut.endPad _
  · exact sound.padIn.endPad _

theorem Sound.latch (connected : s.disk.isSome) : (s.latch b).Sound := by
  have pushed := (sound.fifoPush (b := b) s.targetStatus).fifoPush (b := b) 0
  refine ⟨⟨pushed.1.fifo, pushed.1.queue, pushed.1.reply, trivial, fun _ => ?_⟩, pushed.2⟩
  change ((s.fifoPush b s.targetStatus).fifoPush b 0).disk.isSome
  rwa [disk_fifoPush, disk_fifoPush]

theorem Sound.complete (connected : s.disk.isSome) : (s.complete b).Sound := by
  have cleared : s.clearFifo.Sound := sound.emptied
  refine Sound.raiseIrq (Sound.setSeq ?_ 0) _
  split
  · exact cleared.latch connected
  · exact cleared

theorem Sound.reset : s.reset.Sound :=
  ⟨⟨within_zero, queued_zero, le_refl _, trivial, fun needs => needs.elim⟩, sound.2.1, .inl rfl⟩

theorem Sound.resetBus : s.resetBus.Sound := by
  unfold Ncr53c96.resetBus
  dsimp only
  split_ifs
  all_goals
    exact ⟨⟨sound.1.fifo, queued_zero, le_refl _, trivial, fun needs => needs.elim⟩,
      sound.2.1, .inl rfl⟩

theorem Sound.flush : s.flush.Sound := sound.emptied

theorem Sound.prepare (c : Byte) : (s.prepare c).Sound := by
  unfold Ncr53c96.prepare loadCounter
  split <;> exact sound

theorem Sound.perform (op : Op)
    (connected : op = .complete → s.disk.isSome) : (s.perform b op).2.Sound := by
  cases op with
  | nop | enableSel | setAtn | resetAtn => exact sound
  | flushFifo => exact sound.flush
  | reset => exact sound.reset
  | resetBus => exact sound.resetBus
  | select => exact sound.selectTarget false false
  | selectAtn => exact sound.selectTarget true false
  | selectAtnStop => exact sound.selectTarget true true
  | disableSel | other => exact sound.raiseIrq _
  | xfer => exact sound.transferInfo
  | complete => exact sound.complete (connected rfl)
  | msgAccept => exact sound.disconnected
  | pad => exact sound.pad

theorem Sound.start (c : Byte) : (s.start b c).2.Sound := by
  unfold Ncr53c96.start
  split
  next valid =>
    refine (sound.prepare c).perform _ fun op => ?_
    rw [disk_prepare]
    exact (connected_of_valid valid (group_of_initiator (by rw [op]; rfl))).1
  next => exact sound

theorem Sound.popQueue (some : 0 < s.cmdQueuePos) : s.popQueue.Sound := by
  have within := sound.1.queue
  exact ⟨⟨sound.1.fifo, ⟨by dsimp only [Ncr53c96.popQueue]; omega,
    by dsimp only [Ncr53c96.popQueue]; omega⟩, sound.1.reply, sound.1.named, sound.1.target⟩,
    sound.2⟩

theorem Sound.chain {n : Nat} (long : s.cmdQueuePos = n) : (Ncr53c96.chain b n s).Sound := by
  induction n generalizing s with
  | zero => exact sound
  | succ n ih =>
    rw [Ncr53c96.chain]
    have popped := sound.popQueue (by omega)
    split
    · exact popped
    have started : (s.popQueue.advanceQueue.start b s.popQueue.advanceQueue.cmdQueue[0]).2.Sound :=
      Sound.start (s := s.popQueue.advanceQueue) popped _
    dsimp only
    split
    next again =>
      refine ih started ?_
      rw [cmdQueuePos_start again]
      change s.cmdQueuePos - 1 = n
      omega
    next => exact started

theorem Sound.commandPopAndChain : (s.commandPopAndChain b).Sound := by
  have within := sound.1.queue
  unfold Ncr53c96.commandPopAndChain
  rw [if_neg (by omega)]
  exact sound.chain (by omega)

theorem Sound.startCommand (c : Byte) : (s.startCommand b c).Sound := by
  unfold Ncr53c96.startCommand
  dsimp only
  split
  · exact (sound.start c).commandPopAndChain
  · exact sound.start c

theorem Sound.enqueue (room : s.cmdQueuePos ≠ 2) (c : Byte) : (s.enqueue c).Sound := by
  have within := sound.1.queue
  refine ⟨⟨sound.1.fifo, ?_, sound.1.reply, sound.1.named, sound.1.target⟩, ?_, sound.2.2⟩
  · unfold Ncr53c96.enqueue
    dsimp only
    split_ifs <;> omega
  · unfold Ncr53c96.enqueue
    dsimp only
    rw [sound.2.1, Bool.false_or, decide_eq_false_iff_not]
    split_ifs <;> omega

theorem Sound.commandWrite (c : Byte) : (s.commandWrite b c).Sound := by
  unfold Ncr53c96.commandWrite
  split_ifs with full
  · exact sound
  · dsimp only
    split_ifs
    · exact (sound.enqueue full c).startCommand c
    · exact sound.enqueue full c

/-! ## Accesses -/

theorem Sound.takeDataIn (more : s.dataInPos < s.dataIn.length) : s.takeDataIn.2.Sound := by
  refine Sound.countDown ⟨⟨sound.1.fifo, sound.1.queue, more, sound.1.named, sound.1.target⟩,
    ?_, sound.2.2⟩
  rw [sound.2.1, Bool.false_or, decide_eq_false_iff_not]
  omega

theorem Sound.readFifo : (s.readFifo b).2.Sound := by
  unfold Ncr53c96.readFifo
  split
  next more =>
    refine Sound.updateDrq ?_
    split
    · exact (sound.takeDataIn more).advanceToStatus.raiseIrq _
    · exact sound.takeDataIn more
  next =>
    split
    · exact sound
    · exact sound.fifoPop

theorem Sound.readStatus : s.readStatus.2.Sound := by
  unfold Ncr53c96.readStatus
  split_ifs
  · exact sound
  · exact sound

theorem Sound.readIstat : (s.readIstat b).2.Sound := by
  unfold Ncr53c96.readIstat
  dsimp only
  split_ifs
  · exact sound
  · exact sound
  · exact Sound.commandPopAndChain (sound.onLines _)
  · exact sound.commandPopAndChain

theorem Sound.read (reg : Reg) : (s.read b reg).2.Sound := by
  cases reg with
  | fifo => exact sound.readFifo
  | status => exact sound.readStatus
  | istat => exact sound.readIstat
  | _ => exact sound

theorem Sound.supply : (s.supply v).Sound := by
  unfold Ncr53c96.supply
  split_ifs
  · exact sound
  · exact sound

theorem Sound.write (reg : Reg) (v : Byte) : (s.write b reg v).Sound := by
  cases reg with
  | fifo => exact (sound.supply v).fifoPush v
  | command => exact sound.commandWrite v
  | _ => exact sound

theorem Sound.dmaRead : (s.dmaRead b).2.Sound := by
  unfold Ncr53c96.dmaRead
  split
  next more =>
    have taken := sound.takeDataIn more
    refine Sound.updateDrq ?_
    split_ifs
    · exact taken.advanceToStatus.raiseIrq _
    · exact taken
    · exact taken
  next =>
    split
    · exact sound
    · exact sound.fifoPop

theorem Sound.dmaWrite : (s.dmaWrite b v).Sound := by
  unfold Ncr53c96.dmaWrite
  split_ifs
  · exact (sound.supply v).acceptDataOutByte v
  · exact (sound.supply v).fifoPush v

/-- A target leaves the bus between sessions only. -/
theorem Sound.detach (id : Fin 7) : (s.detach id).Sound := by
  unfold Ncr53c96.detach
  split
  · exact sound
  next leaves =>
    refine ⟨⟨sound.1.fifo, sound.1.queue, sound.1.reply, sound.1.named, fun needs => ?_⟩, sound.2⟩
    have connected := sound.target needs
    split
    next same =>
      have active : s.phase ≠ .busFree := by
        intro free
        have impossible : Phase.busFree.NeedsTarget := free ▸ needs
        exact impossible
      refine absurd (Or.inr ?_) leaves
      unfold Ncr53c96.sessionOn
      rw [← same, connected, decide_eq_true rfl, decide_eq_true active]
      rfl
    next => exact connected

theorem Sound.step (access : Access) : (s.step b access).Sound := by
  cases access with
  | read reg => exact sound.read reg
  | write reg v => exact sound.write reg v
  | dmaRead => exact sound.dmaRead
  | dmaWrite v => exact sound.dmaWrite v
  | tick | setLatency | attach | post => exact sound
  | reset => exact sound.reset
  | detach id => exact sound.detach id

theorem Sound.run (accesses : List Access) : (Foundation.run (Ncr53c96.step b) s accesses).Sound :=
  run_invariant (fun _ access kept => kept.step access) sound accesses

end

theorem sound_fresh (devices : δ) : (fresh devices).Sound :=
  ⟨⟨within_zero, queued_zero, le_refl _, trivial, fun needs => needs.elim⟩, rfl, .inl rfl⟩

end Ncr53c96

end Pom68k.Scsi
