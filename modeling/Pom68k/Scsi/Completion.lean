import Pom68k.Scsi.Bounds

/-! # What the end of a command reports

Initiator Command Complete latches the status and the message into the FIFO, and the driver
reads them there. The FIFO register gives out what is left of the target's reply first, so
the report is read as it stands only if nothing is left; and the last byte of the reply
moves the bus to STATUS even when the session is over.
-/

namespace Pom68k.Scsi

open Disk (Byte)
open Foundation

namespace Ncr53c96

section Starts

variable {δ : Type} (b : Targets δ) (s : Ncr53c96 δ)

/-- The commands a chain starts, each with the state it starts in. -/
def chainStarts : Nat → Ncr53c96 δ → List (Ncr53c96 δ × Byte)
  | 0, _ => []
  | n + 1, s =>
    if s.popQueue.cmdQueuePos = 0 then []
    else
      let s := s.popQueue.advanceQueue
      let r := s.start b s.cmdQueue[0]
      (s, s.cmdQueue[0]) :: if r.1 then chainStarts n r.2 else []

/-- The commands behind one that was started, from the first on. -/
def startsFrom (c : Byte) : List (Ncr53c96 δ × Byte) :=
  let r := s.start b c
  (s, c) :: if r.1 then chainStarts b r.2.cmdQueuePos.toNat r.2 else []

/-- The interrupt acknowledged by a read of its status. -/
def acknowledged : Ncr53c96 δ :=
  if s.lines.irq then
    s.onLines fun l =>
      { l with status := l.status &&& ~~~S_READ_CLEARS, istatus := 0, seq := 0, irq := false }
  else s

/-- The commands an access starts, each with the state it starts in. -/
def starts : Access → List (Ncr53c96 δ × Byte)
  | .write .command c =>
    if s.cmdQueuePos ≠ 2 ∧ (s.enqueue c).cmdQueuePos = 1 then startsFrom b (s.enqueue c) c
    else []
  | .read .istat =>
    if s.lines.istatus = 0 then []
    else chainStarts b s.acknowledged.cmdQueuePos.toNat s.acknowledged
  | _ => []

end Starts

variable {δ : Type} {b : Targets δ} {s : Ncr53c96 δ} {before : Ncr53c96 δ} {c : Byte} {n : Nat}

theorem Sound.acknowledged (sound : s.Sound) : s.acknowledged.Sound := by
  unfold Ncr53c96.acknowledged
  split <;> exact sound

/-- What reads of the FIFO register give out: the rest of the reply, and then the FIFO. -/
def stream (s : Ncr53c96 δ) : List Byte := s.residue ++ s.contents

/-- A byte that neither a descriptor block nor a payload takes is stored in the FIFO. -/
theorem fifoPush_stored (collecting : s.phase ≠ .command)
    (writing : ¬ (s.phase = .dataOut ∧ s.dataXfer)) (v : Byte) :
    s.fifoPush b v = (s.store v).updateDrq := by
  unfold Ncr53c96.fifoPush
  rw [if_neg fun both => collecting both.1, if_neg writing]

/-- The unread bytes of the reply do not hide the report: there are none, or they read like
it. -/
def Clear (s : Ncr53c96 δ) (status : Byte) : Prop :=
  s.residue = [] ∨ (s.residue = [0] ∧ status = 0) ∨ [status, 0] <+: s.residue

/-- The bus is free and nothing of a reply is left. -/
def Idle (s : Ncr53c96 δ) : Prop := s.phase = .busFree ∧ s.dataIn.length ≤ s.dataInPos

/-- An idle controller stays so, or a target is selected. -/
def IdleNext (s next : Ncr53c96 δ) : Prop :=
  next.Idle ∧ next.selects = s.selects ∨ s.selects < next.selects

theorem fifoPop_fields :
    s.fifoPop.2.phase = s.phase ∧ s.fifoPop.2.dataIn = s.dataIn ∧
      s.fifoPop.2.dataInPos = s.dataInPos ∧ s.fifoPop.2.selects = s.selects := by
  unfold fifoPop
  split <;> exact ⟨rfl, rfl, rfl, rfl⟩

theorem selects_drainCdb (n : Nat) : (drainCdb n s).2.selects = s.selects := by
  induction n generalizing s with
  | zero => rfl
  | succ n ih =>
    rw [drainCdb]
    split
    · exact fifoPop_fields.2.2.2
    · exact ih.trans fifoPop_fields.2.2.2

theorem selects_runTarget : (s.runTarget b).selects = s.selects := by
  unfold runTarget
  dsimp only
  split <;> rfl

theorem selects_sendIdentify (withAtn : Bool) :
    (s.sendIdentify withAtn).2.2.selects = s.selects := by
  unfold sendIdentify
  split
  · exact fifoPop_fields.2.2.2
  · rfl

theorem selects_selectAnswered (t : Nat) (withAtn stopAfterMsg : Bool) :
    (s.selectAnswered b t withAtn stopAfterMsg).selects = s.selects := by
  have sent : ((s.connect t).sendIdentify withAtn).2.2.selects = s.selects :=
    selects_sendIdentify withAtn
  unfold selectAnswered
  dsimp only
  generalize (s.connect t).sendIdentify withAtn = r at *
  have drained := selects_drainCdb (s := r.2.2.selectLun b t r.1)
    (r.2.2.selectLun b t r.1).fifoPos.toNat
  split
  · exact sent
  · split
    · exact selects_runTarget.trans (drained.trans sent)
    · exact drained.trans sent

/-- Every selection is counted. -/
theorem selects_selectTarget (withAtn stopAfterMsg : Bool) :
    (s.selectTarget b withAtn stopAfterMsg).selects = s.selects + 1 := by
  unfold selectTarget
  dsimp only
  split
  · rfl
  · split
    · exact selects_selectAnswered _ _ _
    · rfl

/-- The same of a command, which ends its chain if it selects. -/
def IdleEnd (s : Ncr53c96 δ) (r : Bool × Ncr53c96 δ) : Prop :=
  r.2.Idle ∧ r.2.selects = s.selects ∨ r.1 = false ∧ s.selects < r.2.selects

/-- What follows a command that goes back to the queue. -/
theorem IdleEnd.chained {r : Bool × Ncr53c96 δ} (ends : IdleEnd s r)
    {next : Ncr53c96 δ → Ncr53c96 δ} (follows : r.2.Idle → IdleNext r.2 (next r.2)) :
    IdleNext s (if r.1 then next r.2 else r.2) := by
  rcases ends with ⟨still, same⟩ | ⟨ended, more⟩
  · split
    · rw [IdleNext, ← same]
      exact follows still
    · exact .inl ⟨still, same⟩
  · rw [ended]
    exact .inr more

theorem Idle.perform (idle : s.Idle) {op : Op} (outside : op.initiator = false) :
    IdleEnd s (s.perform b op) := by
  have selected (withAtn stop : Bool) :
      s.selects < (s.selectTarget b withAtn stop).selects := by
    rw [selects_selectTarget]
    exact Nat.lt_succ_self _
  cases op with
  | nop | enableSel | disableSel | flushFifo | other => exact .inl ⟨idle, rfl⟩
  | reset => exact .inl ⟨⟨rfl, le_refl _⟩, rfl⟩
  | resetBus =>
    refine .inl ?_
    change s.resetBus.Idle ∧ s.resetBus.selects = s.selects
    unfold Ncr53c96.resetBus
    dsimp only
    split <;> exact ⟨⟨rfl, le_refl _⟩, rfl⟩
  | select => exact .inr ⟨rfl, selected false false⟩
  | selectAtn => exact .inr ⟨rfl, selected true false⟩
  | selectAtnStop => exact .inr ⟨rfl, selected true true⟩
  | xfer | complete | msgAccept | pad | setAtn | resetAtn => cases outside

theorem prepare_fields (c : Byte) :
    (s.prepare c).phase = s.phase ∧ (s.prepare c).dataIn = s.dataIn ∧
      (s.prepare c).dataInPos = s.dataInPos ∧ (s.prepare c).selects = s.selects ∧
      (s.prepare c).targetStatus = s.targetStatus := by
  unfold Ncr53c96.prepare loadCounter
  split <;> exact ⟨rfl, rfl, rfl, rfl, rfl⟩

section

variable (idle : s.Idle)
include idle

theorem Idle.start (c : Byte) : IdleEnd s (s.start b c) := by
  unfold Ncr53c96.start
  split
  next valid =>
    have outside : (Op.decode c).initiator = false := by
      by_contra inside
      exact (connected_of_valid valid (group_of_initiator (Bool.not_eq_false _ ▸ inside))).2 idle.1
    obtain ⟨phase, reply, position, selects, -⟩ := prepare_fields c
    have ready : (s.prepare c).Idle := ⟨phase.trans idle.1, by rw [reply, position]; exact idle.2⟩
    rw [IdleEnd, ← selects]
    exact ready.perform outside
  next => exact .inl ⟨idle, rfl⟩

theorem Idle.chain (n : Nat) : IdleNext s (Ncr53c96.chain b n s) := by
  induction n generalizing s with
  | zero => exact .inl ⟨idle, rfl⟩
  | succ n ih =>
    rw [Ncr53c96.chain]
    split
    · exact .inl ⟨idle, rfl⟩
    · have moved : s.popQueue.advanceQueue.Idle := idle
      exact (moved.start _).chained ih

theorem Idle.commandPopAndChain : IdleNext s (s.commandPopAndChain b) := by
  unfold Ncr53c96.commandPopAndChain
  split
  · exact .inl ⟨idle, rfl⟩
  · exact idle.chain _

theorem Idle.startCommand (c : Byte) : IdleNext s (s.startCommand b c) := by
  exact (idle.start c).chained fun still => still.commandPopAndChain

theorem Idle.commandWrite (c : Byte) : IdleNext s (s.commandWrite b c) := by
  unfold Ncr53c96.commandWrite
  split
  · exact .inl ⟨idle, rfl⟩
  have queued : (s.enqueue c).Idle := idle
  dsimp only
  split
  · exact queued.startCommand c
  · exact .inl ⟨idle, rfl⟩

theorem Idle.fifoPop : IdleNext s s.fifoPop.2 := by
  obtain ⟨phase, reply, position, selects⟩ := fifoPop_fields
  exact .inl ⟨⟨phase.trans idle.1, by rw [reply, position]; exact idle.2⟩, selects⟩

theorem Idle.fifoPush (v : Byte) : IdleNext s (s.fifoPush b v) := by
  rw [fifoPush_stored (by rw [idle.1]; exact Phase.noConfusion)
    (fun both => by rw [idle.1] at both; exact Phase.noConfusion both.1)]
  unfold store
  split <;> exact .inl ⟨idle, rfl⟩

theorem Idle.supply (v : Byte) : s.supply v = s := by
  unfold Ncr53c96.supply
  rw [if_neg (by rw [idle.1]; exact Phase.noConfusion)]

theorem Idle.read (reg : Reg) : IdleNext s (s.read b reg).2 := by
  cases reg with
  | fifo =>
    change IdleNext s (s.readFifo b).2
    unfold Ncr53c96.readFifo
    rw [if_neg (Nat.not_lt.mpr idle.2)]
    split
    · exact .inl ⟨idle, rfl⟩
    · exact idle.fifoPop
  | status =>
    change IdleNext s s.readStatus.2
    unfold readStatus
    split <;> exact .inl ⟨idle, rfl⟩
  | istat =>
    have acked : s.acknowledged.Idle ∧ s.acknowledged.selects = s.selects := by
      unfold acknowledged
      split <;> exact ⟨idle, rfl⟩
    change IdleNext s (s.readIstat b).2
    unfold readIstat
    dsimp only
    split
    · exact .inl acked
    · rw [IdleNext, ← acked.2]
      exact acked.1.commandPopAndChain
  | _ => exact .inl ⟨idle, rfl⟩

theorem Idle.step (access : Access) : IdleNext s (s.step b access) := by
  cases access with
  | read reg => exact idle.read reg
  | write reg v =>
    cases reg with
    | fifo =>
      change IdleNext s ((s.supply v).fifoPush b v)
      rw [idle.supply]
      exact idle.fifoPush v
    | command => exact idle.commandWrite v
    | _ => exact .inl ⟨idle, rfl⟩
  | dmaRead =>
    change IdleNext s (s.dmaRead b).2
    unfold dmaRead
    rw [if_neg (Nat.not_lt.mpr idle.2)]
    split
    · exact .inl ⟨idle, rfl⟩
    · exact idle.fifoPop
  | dmaWrite v =>
    change IdleNext s (s.dmaWrite b v)
    unfold dmaWrite
    rw [idle.supply, if_neg (by rw [idle.1]; exact Phase.noConfusion)]
    exact idle.fifoPush v
  | reset => exact .inl ⟨⟨rfl, le_refl _⟩, rfl⟩
  | detach id =>
    change IdleNext s (s.detach id)
    unfold detach
    split <;> exact .inl ⟨idle, rfl⟩
  | tick | setLatency | attach | post => exact .inl ⟨idle, rfl⟩

end

namespace Sample

/-- A target is attached and given a descriptor block of zeros. -/
def selected : List Access :=
  .attach 0 (some 0) :: List.replicate 6 (.write .fifo 0) ++ [.write .command 0x41, .read .istat]

/-- A command, and the read of its interrupt status. -/
def command (c : Byte) : List Access := [.write .command c, .read .istat]

/-- The controller after accesses, with targets that answer with some bytes. -/
def after (reply : List Byte) (accesses : List Access) : Ncr53c96 Unit :=
  run (Ncr53c96.step (Scsi.Sample.targets 0 reply)) (fresh ()) accesses

end Sample

end Ncr53c96

end Pom68k.Scsi
