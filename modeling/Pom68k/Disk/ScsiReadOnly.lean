import Pom68k.Disk.ScsiCommand

/-! # Media that are not written

A command that ends in CHECK CONDITION has not touched the medium, on any kind of target.
A disc in a CD-ROM drive is only taken out, by an eject; a removable disk, which is the
dump of a disc, refuses the two plain writes and lets WRITE AND VERIFY through.
-/

namespace Pom68k.Disk

open Foundation
open ScsiDisk (StoreHost)

/-- The commands that write to a disk. -/
def ScsiOp.writes : ScsiOp → Bool
  | .write6 | .write10 | .writeAndVerify => true
  | _ => false

/-- The bytes a request would write are there already. -/
def ScsiDisk.Holds {count : BitVec 32} (d : ScsiDisk count) (lba length : Nat)
    (data : List Byte) : Prop :=
  (d.image.drop (lba * sectorSize)).take (d.writable lba length data) =
    data.take (d.writable lba length data)

namespace ScsiUnit

variable {count : BitVec 32} {u : ScsiUnit count}

/-- What a command must not touch: the image, the backing file and the history. -/
def medium (u : ScsiUnit count) : List Byte × List Byte × Timeline (sectors count) :=
  (u.disk.image, u.disk.file, u.disk.timeline)

/-! ## What a command can do -/

/-- A command moves registers and the pending attention only. -/
def Rests (u : ScsiUnit count) (o : ScsiOutcome count) : Prop :=
  ∃ regs attention,
    o.unit = { u with disk := { u.disk with regs := regs }, unitAttention := attention }

variable (u)

theorem rests_refuse (key asc : Byte) : u.Rests (u.refuse key asc) := ⟨_, _, rfl⟩

theorem rests_reply (dataOut : List Byte) : u.Rests (u.reply dataOut) := ⟨_, _, rfl⟩

theorem rests_setRegs (regs : ScsiRegs) (dataOut : List Byte) :
    u.Rests ((u.setRegs regs).reply dataOut) :=
  ⟨_, _, rfl⟩

variable {o : ScsiOutcome count} {cdb : List Byte} {op : ScsiOp} {dataIn : List Byte}
  {host : StoreHost}

variable {u}

theorem Rests.ite {c : Prop} [Decidable c] {o' : ScsiOutcome count} (first : u.Rests o)
    (second : u.Rests o') : u.Rests (if c then o else o') := by
  split
  · exact first
  · exact second

theorem Rests.whenLoaded (rests : u.Rests o) : u.Rests (u.whenLoaded o) :=
  rests.ite (rests_refuse u _ _)

theorem Rests.within (rests : u.Rests o) (last : Nat) : u.Rests (u.within last o) :=
  rests.ite (rests_refuse u _ _)

variable (u)

theorem rests_modeSense (cdb : List Byte) (ten : Bool) : u.Rests (u.modeSense cdb ten) := by
  unfold modeSense
  dsimp only
  split
  · exact rests_refuse u _ _
  · exact (rests_reply u _).ite (rests_reply u _)

theorem rests_readToc (cdb : List Byte) : u.Rests (u.readToc cdb) := by
  unfold readToc
  dsimp only
  split
  · exact rests_refuse u _ _
  · exact rests_reply u _

theorem rests_playAudio (start stop : BitVec 32) : u.Rests (u.playAudio start stop) :=
  (rests_setRegs u _ _).ite (rests_refuse u _ _)

theorem rests_pauseResume (resume : Bool) : u.Rests (u.pauseResume resume) :=
  (rests_refuse u _ _).ite (rests_setRegs u _ _)

theorem rests_readSubChannel (cdb : List Byte) : u.Rests (u.readSubChannel cdb) :=
  (rests_reply u _).ite (rests_reply u _)

variable {u}

theorem rests_refuseRead {lba : Nat} (refused : u.refuseRead lba = some o) : u.Rests o := by
  rw [refuseRead] at refused
  split_ifs at refused
  · cases refused
    exact rests_refuse u _ _
  · cases refused
    exact rests_refuse u _ _

/-- What a CD-ROM drive answers by itself does not touch the disc, but for the eject. -/
theorem rests_cdCommand
    (answered : u.cdCommand cdb op = some o) (stays : op = .startStopUnit → ejects cdb = false) :
    u.Rests o := by
  cases op with
  | testUnitReady | readCapacity =>
    cases answered
    exact (rests_reply u _).whenLoaded
  | playAudio | playAudioMsf =>
    cases answered
    exact (rests_playAudio u _ _).whenLoaded
  | pauseResume =>
    cases answered
    exact rests_pauseResume u _
  | readToc =>
    cases answered
    exact (rests_readToc u cdb).whenLoaded
  | readSubChannel =>
    cases answered
    exact (rests_readSubChannel u cdb).whenLoaded
  | startStopUnit =>
    rw [cdCommand, stays rfl] at answered
    cases answered
    exact rests_reply u _
  | verify =>
    cases answered
    exact ((rests_reply u []).within _).whenLoaded
  | read6 | read10 => exact rests_refuseRead answered
  | inquiry | modeSelect6 | modeSelect10 | preventAllowRemoval | seek10 | write6 | write10
  | writeAndVerify | reassignBlocks | readDefectData =>
    cases answered
    exact ⟨_, _, rfl⟩
  | _ => cases answered

/-- The shared commands do not touch the medium, but for the writes. -/
theorem rests_diskCommand (reads : op.writes = false) (cdb dataIn : List Byte)
    (host : StoreHost) : u.Rests (u.diskCommand cdb dataIn host op) := by
  cases op with
  | write6 | write10 | writeAndVerify => cases reads
  | testUnitReady => exact (rests_refuse u _ _).ite (rests_reply u _)
  | formatUnit => exact (rests_reply u _).ite (rests_refuse u _ _)
  | read6 | read10 => exact (rests_setRegs u _ _).within _
  | modeSense6 | modeSense10 => exact rests_modeSense u cdb _
  | seek6 | seek10 => exact (rests_reply u []).within _
  | verify => exact ((rests_refuse u _ _).ite (rests_reply u _)).within _
  | _ => exact ⟨_, _, rfl⟩

/-- The three things a command can do to a medium: nothing, a write, and on a CD-ROM drive
the eject. -/
inductive Effect (u : ScsiUnit count) (dataIn : List Byte) (host : StoreHost) :
    ScsiOutcome count → Prop
  | rests {o : ScsiOutcome count} : u.Rests o → Effect u dataIn host o
  | wrote (lba blocks : Nat) :
      u.kind ≠ .cdrom → Effect u dataIn host (u.write lba blocks dataIn host)
  | ejected : u.kind = .cdrom → Effect u dataIn host (u.eject.reply [])

theorem effect_within
    (effect : u.Effect dataIn host o) (last : Nat) : u.Effect dataIn host (u.within last o) := by
  rw [ScsiUnit.within]
  split
  · exact effect
  · exact .rests (rests_refuse u _ _)

theorem effect_writeUnlessRemovable (notCdrom : u.kind ≠ .cdrom) (lba blocks : Nat) :
    u.Effect dataIn host (u.writeUnlessRemovable lba blocks dataIn host) := by
  rw [writeUnlessRemovable]
  split
  · exact .rests (rests_refuse u _ _)
  · exact effect_within (.wrote _ _ notCdrom) _

theorem effect_diskCommand (notCdrom : u.kind ≠ .cdrom) (cdb dataIn : List Byte)
    (host : StoreHost) (op : ScsiOp) :
    u.Effect dataIn host (u.diskCommand cdb dataIn host op) := by
  cases writes : op.writes with
  | false => exact .rests (rests_diskCommand writes cdb dataIn host)
  | true =>
    cases op with
    | write6 | write10 => exact effect_writeUnlessRemovable notCdrom _ _
    | writeAndVerify => exact effect_within (.wrote _ _ notCdrom) _
    | _ => cases writes

/-- A CD-ROM drive answers the writes by itself. -/
theorem writes_of_cdCommand_none (shared : u.cdCommand cdb op = none) : op.writes = false := by
  cases op with
  | write6 | write10 | writeAndVerify => cases shared
  | _ => rfl

theorem effect_execute (u : ScsiUnit count) (cdb dataIn : List Byte) (host : StoreHost)
    (op : ScsiOp) : u.Effect dataIn host (u.execute cdb dataIn host op) := by
  rw [execute]
  split_ifs with attention cdrom
  · exact .rests ⟨_, _, rfl⟩
  · cases answered : u.cdCommand cdb op with
    | none => exact .rests (rests_diskCommand (writes_of_cdCommand_none answered) cdb dataIn host)
    | some o =>
      by_cases out : op = .startStopUnit ∧ ejects cdb = true
      · obtain ⟨rfl, out⟩ := out
        rw [cdCommand, out] at answered
        cases answered
        exact .ejected cdrom
      · refine .rests (rests_cdCommand answered fun start => ?_)
        exact Bool.eq_false_iff.mpr fun out' => out ⟨start, out'⟩
  · exact effect_diskCommand cdrom cdb dataIn host op

/-! ## Refused commands -/

theorem Rests.medium_eq (rests : u.Rests o) : o.unit.medium = u.medium := by
  obtain ⟨regs, attention, same⟩ := rests
  rw [same]
  rfl

theorem Effect.medium_of_check (effect : u.Effect dataIn host o) (refused : o.status = .check) :
    o.unit.medium = u.medium := by
  cases effect with
  | rests rests => exact rests.medium_eq
  | wrote | ejected => cases refused

/-- A command block that reaches its command: long enough, and for the unit there is. -/
def Passes (u : ScsiUnit count) (cdb : List Byte) : Prop :=
  cdb ≠ [] ∧ groupLength (byteAt cdb 0) ≤ cdb.length ∧ u.effectiveLun cdb = 0#8

variable (u)

theorem clearSense_eq (op : ScsiOp) :
    ∃ regs, u.clearSense op = u.setRegs regs ∧ regs.identifyLun = u.disk.regs.identifyLun := by
  rw [clearSense]
  split
  · exact ⟨u.disk.regs, rfl, rfl⟩
  · exact ⟨_, rfl, rfl⟩

theorem effectiveLun_clearSense (op : ScsiOp) (cdb : List Byte) :
    (u.clearSense op).effectiveLun cdb = u.effectiveLun cdb := by
  obtain ⟨regs, cleared, identified⟩ := u.clearSense_eq op
  have same : (u.setRegs regs).disk.regs.identifyLun = u.disk.regs.identifyLun := identified
  simp only [cleared, effectiveLun, same]

variable {u} {d : ScsiDisk count}

theorem Rests.of_setRegs {regs : ScsiRegs} (rests : (u.setRegs regs).Rests o) : u.Rests o := by
  obtain ⟨regs', attention, same⟩ := rests
  exact ⟨regs', attention, same⟩

theorem Rests.of_clearSense (rests : (u.clearSense op).Rests o) : u.Rests o := by
  obtain ⟨regs, cleared, -⟩ := u.clearSense_eq op
  rwa [cleared] at rests

/-- REQUEST SENSE is answered on every target, with an attention pending or not. -/
theorem rests_requestSense (u : ScsiUnit count) (cdb dataIn : List Byte) (host : StoreHost) :
    u.Rests (u.execute cdb dataIn host .requestSense) := by
  rw [execute, if_neg fun attention => attention.2.2.1 rfl]
  have answered : u.Rests (u.diskCommand cdb dataIn host .requestSense) :=
    rests_diskCommand rfl cdb dataIn host
  exact answered.ite answered

theorem command_of_passes (passes : u.Passes cdb) (dataIn : List Byte) (host : StoreHost) :
    ∃ regs, u.command cdb dataIn host =
      (u.setRegs regs).execute cdb dataIn host (.ofByte (byteAt cdb 0)) := by
  obtain ⟨regs, cleared, -⟩ := u.clearSense_eq (.ofByte (byteAt cdb 0))
  refine ⟨regs, ?_⟩
  rw [command, if_neg passes.1, if_neg (Nat.not_lt.mpr passes.2.1), effectiveLun_clearSense,
    if_neg (not_not.mpr passes.2.2), cleared]

theorem rests_command (turned : ¬u.Passes cdb) (dataIn : List Byte)
    (host : StoreHost) : u.Rests (u.command cdb dataIn host) := by
  rw [command]
  split_ifs with empty short lun inquiry sense
  · exact rests_refuse u _ _
  · exact (rests_refuse _ _ _).of_clearSense
  · exact (rests_reply _ _).of_clearSense
  · rw [sense]
    exact (rests_requestSense _ cdb dataIn host).of_setRegs.of_clearSense
  · exact (rests_refuse _ _ _).of_clearSense
  · rw [effectiveLun_clearSense] at lun
    exact absurd ⟨empty, Nat.not_lt.mp short, not_not.mp lun⟩ turned

/-- A command that ends in CHECK CONDITION has not touched the medium. -/
theorem medium_command_of_check (refused : (u.command cdb dataIn host).status = .check) :
    (u.command cdb dataIn host).unit.medium = u.medium := by
  by_cases passes : u.Passes cdb
  · obtain ⟨regs, ran⟩ := command_of_passes passes dataIn host
    rw [ran] at refused ⊢
    exact (effect_execute _ cdb dataIn host _).medium_of_check refused
  · exact (rests_command passes dataIn host).medium_eq

/-! ## Discs -/

/-- A drive for discs: nothing is behind the image, and there is no history. -/
structure Bay (u : ScsiUnit count) : Prop where
  kind : u.kind ≠ .disk
  unbacked : u.disk.writeBack = false
  detached : u.disk.timeline.detach = u.disk.timeline

theorem bay_emptied (u : ScsiUnit count) : u.emptied.Bay where
  kind := nofun
  unbacked := rfl
  detached := rfl

theorem Bay.load (bay : u.Bay) (candidates : List (Option (List Byte))) (image : List Byte)
    (change : Bool) : (u.load candidates image change).Bay where
  kind := by
    rw [ScsiUnit.load]
    dsimp only
    split <;> split <;> exact nofun
  unbacked := bay.unbacked
  detached := bay.detached

/-- Whatever was in the drive, opening a disc leaves a drive for discs. -/
theorem bay_openCdrom (u : ScsiUnit count) (candidates : List (Option (List Byte)))
    (disc : DiscFile) : (u.openCdrom candidates disc).Bay := by
  have empty := bay_emptied u
  cases disc with
  | missing => exact empty
  | flat bytes =>
    rw [openCdrom]
    split_ifs
    · exact empty
    · split
      · exact empty
      · exact empty.load ..
    · exact empty.load ..
  | sheet tracks leadOut dataStartLba sectorBytes data =>
    have sheeted : (ScsiUnit.Bay { u.emptied with
        tracks := tracks, discLba := leadOut, dataStartLba := dataStartLba }) :=
      ⟨empty.kind, empty.unbacked, empty.detached⟩
    rw [openCdrom]
    split_ifs
    · exact ⟨empty.kind, empty.unbacked, empty.detached⟩
    · split
      · exact ⟨empty.kind, empty.unbacked, empty.detached⟩
      · exact sheeted.load ..
    · exact sheeted.load ..

theorem Bay.rests (bay : u.Bay) (rests : u.Rests o) : o.unit.Bay := by
  obtain ⟨regs, attention, same⟩ := rests
  rw [same]
  exact ⟨bay.kind, bay.unbacked, bay.detached⟩

theorem Bay.setRegs (bay : u.Bay) (regs : ScsiRegs) : (u.setRegs regs).Bay :=
  ⟨bay.kind, bay.unbacked, bay.detached⟩

theorem Bay.eject (bay : u.Bay) : u.eject.Bay where
  kind := by
    change (if u.kind = .removable then ScsiKind.cdrom else u.kind) ≠ .disk
    split
    · decide
    · exact bay.kind
  unbacked := rfl
  detached := rfl

theorem writable_outside {lba : Nat} (outside : d.image.length ≤ lba * sectorSize) (length : Nat)
    (data : List Byte) : d.writable lba length data = 0 := by
  rw [ScsiDisk.writable, Nat.sub_eq_zero_of_le outside, Nat.min_zero, Nat.zero_min]

/-- Without a backing file and a history a write is its bytes in the image. -/
theorem store_unbacked (unbacked : d.writeBack = false)
    (detached : d.timeline.attached = false) (lba length : Nat) (data : List Byte)
    (host : StoreHost) :
    d.store lba length data host =
      { d with
        image := overwrite d.image (lba * sectorSize) (data.take (d.writable lba length data)) } := by
  rw [ScsiDisk.store]
  split_ifs with outside attached
  · rw [writable_outside outside, List.take_zero, overwrite_nil]
  · cases detached.symm.trans attached
  · exact if_pos (.inl unbacked)

theorem overwrite_writable_iff (d : ScsiDisk count) (lba length : Nat) (data : List Byte) :
    overwrite d.image (lba * sectorSize) (data.take (d.writable lba length data)) = d.image ↔
      d.Holds lba length data := by
  have given : d.writable lba length data ≤ data.length := Nat.min_le_right ..
  have size : (data.take (d.writable lba length data)).length = d.writable lba length data := by
    rw [List.length_take, Nat.min_eq_left given]
  rw [ScsiDisk.Holds]
  by_cases outside : d.image.length ≤ lba * sectorSize
  · simp only [writable_outside outside, List.take_zero, overwrite_nil]
  · have room : d.writable lba length data ≤ d.image.length - lba * sectorSize :=
      (Nat.min_le_left ..).trans (Nat.min_le_right ..)
    rw [overwrite_eq_self_iff (by omega), size]

section

variable (bay : u.Bay)
include bay

theorem Bay.attached : u.disk.timeline.attached = false :=
  (congrArg Timeline.attached bay.detached).symm

theorem Bay.write (lba blocks : Nat) (dataIn : List Byte) (host : StoreHost) :
    (u.write lba blocks dataIn host).unit.Bay := by
  rw [ScsiUnit.write, store_unbacked bay.unbacked bay.attached]
  exact ⟨bay.kind, bay.unbacked, bay.detached⟩

theorem Bay.write_iff (lba blocks : Nat) (dataIn : List Byte) (host : StoreHost) :
    (u.write lba blocks dataIn host).unit.medium = u.medium ↔ u.disk.Holds lba blocks dataIn := by
  rw [ScsiUnit.write, store_unbacked bay.unbacked bay.attached, ← overwrite_writable_iff]
  constructor
  · intro same
    exact congrArg Prod.fst same
  · intro same
    exact Prod.ext same rfl

theorem Bay.eject_iff : u.eject.medium = u.medium ↔ u.disk.image = [] := by
  constructor
  · intro same
    exact (congrArg Prod.fst same).symm
  · intro empty
    exact Prod.ext empty.symm (Prod.ext rfl bay.detached)

theorem Bay.effect (effect : u.Effect dataIn host o) : o.unit.Bay := by
  cases effect with
  | rests rests => exact bay.rests rests
  | wrote lba blocks => exact bay.write lba blocks dataIn host
  | ejected => exact bay.eject

theorem Bay.command (cdb dataIn : List Byte) (host : StoreHost) :
    (u.command cdb dataIn host).unit.Bay := by
  by_cases passes : u.Passes cdb
  · obtain ⟨regs, ran⟩ := command_of_passes passes dataIn host
    rw [ran]
    exact (bay.setRegs regs).effect (effect_execute _ cdb dataIn host _)
  · exact bay.rests (rests_command passes dataIn host)

end

/-- What leaves a disc as it is, of the commands that are carried out: all but the eject of
a CD-ROM drive and a WRITE AND VERIFY of other bytes than those there. -/
def Spares (u : ScsiUnit count) (cdb dataIn : List Byte) : ScsiOp → Prop
  | .startStopUnit => u.kind = .cdrom → ejects cdb = true → u.disk.image = []
  | .writeAndVerify =>
    u.kind = .removable → cdbLba10 cdb + cdbCount10 cdb ≤ u.dataEnd →
      u.disk.Holds (cdbLba10 cdb) (cdbCount10 cdb) dataIn
  | _ => True

theorem spares_other (cdb dataIn : List Byte) (stays : op ≠ .startStopUnit)
    (plain : op ≠ .writeAndVerify) : u.Spares cdb dataIn op := by
  cases op with
  | startStopUnit => exact absurd rfl stays
  | writeAndVerify => exact absurd rfl plain
  | _ => trivial

theorem Bay.cdrom_or_removable (bay : u.Bay) : u.kind = .cdrom ∨ u.kind = .removable := by
  cases kind : u.kind with
  | disk => exact absurd kind bay.kind
  | cdrom => exact .inl rfl
  | removable => exact .inr rfl

/-- The plain writes are refused by both kinds of drive. -/
theorem Bay.rests_execute (bay : u.Bay) (cdb dataIn : List Byte) (host : StoreHost)
    (stays : op ≠ .startStopUnit) (plain : op ≠ .writeAndVerify) :
    u.Rests (u.execute cdb dataIn host op) := by
  refine Rests.ite ⟨_, _, rfl⟩ ?_
  rcases bay.cdrom_or_removable with cdrom | removable
  · rw [if_pos cdrom]
    cases answered : u.cdCommand cdb op with
    | none => exact rests_diskCommand (writes_of_cdCommand_none answered) cdb dataIn host
    | some o => exact rests_cdCommand answered fun start => absurd start stays
  · rw [if_neg (by rw [removable]; exact nofun)]
    cases writes : op.writes with
    | false => exact rests_diskCommand writes cdb dataIn host
    | true =>
      cases op with
      | write6 | write10 =>
        rw [diskCommand, writeUnlessRemovable, if_pos removable]
        exact rests_refuse u _ _
      | writeAndVerify => exact absurd rfl plain
      | _ => cases writes

theorem Bay.startStop_iff (bay : u.Bay) (calm : u.unitAttention = false)
    (cdb dataIn : List Byte) (host : StoreHost) :
    (u.execute cdb dataIn host .startStopUnit).unit.medium = u.medium ↔
      u.Spares cdb dataIn .startStopUnit := by
  rw [execute, if_neg fun attention => Bool.false_ne_true (calm.symm.trans attention.2.1), Spares]
  rcases bay.cdrom_or_removable with cdrom | removable
  · rw [if_pos cdrom, cdCommand]
    cases out : ejects cdb with
    | false => exact iff_of_true rfl fun _ => nofun
    | true => exact bay.eject_iff.trans ⟨fun empty _ _ => empty, fun empty => empty cdrom rfl⟩
  · have other : u.kind ≠ .cdrom := by
      rw [removable]
      exact nofun
    rw [if_neg other]
    exact iff_of_true rfl fun cdrom => absurd cdrom other

theorem Bay.writeAndVerify_iff (bay : u.Bay) (calm : u.unitAttention = false)
    (cdb dataIn : List Byte) (host : StoreHost) :
    (u.execute cdb dataIn host .writeAndVerify).unit.medium = u.medium ↔
      u.Spares cdb dataIn .writeAndVerify := by
  rw [execute, if_neg fun attention => Bool.false_ne_true (calm.symm.trans attention.2.1)]
  rcases bay.cdrom_or_removable with cdrom | removable
  · rw [if_pos cdrom]
    refine iff_of_true rfl fun removable => ?_
    cases cdrom.symm.trans removable
  · rw [if_neg (by rw [removable]; exact nofun), diskCommand, ScsiUnit.within]
    split_ifs with inside
    · exact (bay.write_iff ..).trans ⟨fun held _ _ => held, fun held => held removable inside⟩
    · exact iff_of_true rfl fun _ inside' => absurd inside' inside

theorem Bay.execute_iff (bay : u.Bay) (calm : u.unitAttention = false) (cdb dataIn : List Byte)
    (host : StoreHost) (op : ScsiOp) :
    (u.execute cdb dataIn host op).unit.medium = u.medium ↔ u.Spares cdb dataIn op := by
  by_cases start : op = .startStopUnit
  · rw [start]
    exact bay.startStop_iff calm cdb dataIn host
  · by_cases write : op = .writeAndVerify
    · rw [write]
      exact bay.writeAndVerify_iff calm cdb dataIn host
    · exact iff_of_true (bay.rests_execute cdb dataIn host start write).medium_eq
        (spares_other cdb dataIn start write)

/-! ## Whole sessions -/

/-- What the bus asks of a target. -/
inductive Request where
  | selectLun (lun : Byte)
  | command (cdb dataIn : List Byte) (host : StoreHost)

def serve (u : ScsiUnit count) : Request → ScsiUnit count
  | .selectLun lun => u.selectLun lun
  | .command cdb dataIn host => (u.command cdb dataIn host).unit

/-- A request that leaves a disc as it is. A pending attention swallows the command. -/
def Harmless (u : ScsiUnit count) : Request → Prop
  | .selectLun _ => True
  | .command cdb dataIn _ =>
    u.Passes cdb → u.unitAttention = false → u.Spares cdb dataIn (.ofByte (byteAt cdb 0))

theorem Bay.serve (bay : u.Bay) (r : Request) : (u.serve r).Bay := by
  cases r with
  | selectLun lun => exact bay.setRegs _
  | command cdb dataIn host => exact bay.command cdb dataIn host

/-- With an attention pending, INQUIRY and REQUEST SENSE are all that is answered. -/
theorem Bay.rests_attention (bay : u.Bay) (pending : u.unitAttention = true)
    (cdb dataIn : List Byte) (host : StoreHost) (op : ScsiOp) :
    u.Rests (u.execute cdb dataIn host op) := by
  by_cases write : op = .startStopUnit ∨ op = .writeAndVerify
  · have refused : op ≠ .requestSense ∧ op ≠ .inquiry := by
      rcases write with rfl | rfl <;> exact ⟨nofun, nofun⟩
    rw [execute, if_pos ⟨bay.kind, pending, refused⟩]
    exact ⟨_, _, rfl⟩
  · exact bay.rests_execute cdb dataIn host (fun start => write (.inl start))
      fun verify => write (.inr verify)

theorem Bay.serve_iff (bay : u.Bay) (r : Request) :
    (u.serve r).medium = u.medium ↔ u.Harmless r := by
  cases r with
  | selectLun lun => exact iff_of_true rfl trivial
  | command cdb dataIn host =>
    change (u.command cdb dataIn host).unit.medium = u.medium ↔ _
    by_cases passes : u.Passes cdb
    · obtain ⟨regs, ran⟩ := command_of_passes passes dataIn host
      rw [ran]
      have bay' := bay.setRegs regs
      cases calm : u.unitAttention with
      | false =>
        refine (bay'.execute_iff calm cdb dataIn host _).trans ?_
        exact ⟨fun spares _ _ => spares, fun spares => spares passes calm⟩
      | true =>
        refine iff_of_true (bay'.rests_attention calm cdb dataIn host _).medium_eq ?_
        intro _ calm'
        cases calm.symm.trans calm'
    · exact iff_of_true (rests_command passes dataIn host).medium_eq
        fun passes' => absurd passes' passes

theorem along_iff_of_bay (bay : u.Bay) (requests : List Request) :
    Along serve Harmless u requests ↔ ∀ k, (run serve u (requests.take k)).medium = u.medium := by
  induction requests generalizing u with
  | nil => exact iff_of_true trivial fun k => by rw [List.take_nil]; rfl
  | cons r rest ih =>
    constructor
    · intro along k
      cases k with
      | zero => rfl
      | succ k => exact ((ih (bay.serve r)).mp along.2 k).trans ((bay.serve_iff r).mpr along.1)
    · intro kept
      have first : (u.serve r).medium = u.medium := kept 1
      refine ⟨(bay.serve_iff r).mp first, (ih (bay.serve r)).mpr fun k => ?_⟩
      exact (kept (k + 1)).trans first.symm

/-- A disc stays as it was put in through a session just if every request is harmless; and
on every target a refused command leaves the medium alone. -/
theorem scsi_medium_kept (v : ScsiUnit count) (candidates : List (Option (List Byte)))
    (disc : DiscFile) (requests : List Request) :
    (Along serve Harmless (v.openCdrom candidates disc) requests ↔
      ∀ k, (run serve (v.openCdrom candidates disc) (requests.take k)).medium =
        (v.openCdrom candidates disc).medium) ∧
    ∀ (u : ScsiUnit count) (cdb dataIn : List Byte) (host : StoreHost),
      (u.command cdb dataIn host).status = .check →
        (u.command cdb dataIn host).unit.medium = u.medium :=
  ⟨along_iff_of_bay (bay_openCdrom v candidates disc) requests,
    fun _ _ _ _ refused => medium_command_of_check refused⟩

namespace Sample

/-- A target before anything is opened. -/
def fresh : ScsiUnit 0#32 where
  disk := ⟨[], 0#32, 0#32, false, [], {}, {}⟩
  kind := .disk

/-- The dump of a disc of four blocks of 512 bytes. -/
def dump : DiscFile := .flat ([0x45#8, 0x52#8, 0x02#8] ++ List.replicate 2045 0#8)

/-- A command block for the first block of a disk. -/
def firstBlock (op : Byte) : List Byte := [op, 0#8, 0#8, 0#8, 0#8, 0#8, 0#8, 0#8, 1#8, 0#8]

def ones : List Byte := List.replicate sectorSize 0xFF#8

end Sample

theorem scsi_medium_kept_read :
    (∀ k, (run serve (Sample.fresh.openCdrom [] Sample.dump)
      ([.command (Sample.firstBlock 0x28#8) [] {}].take k)).medium =
        (Sample.fresh.openCdrom [] Sample.dump).medium) ∧
    ((Sample.fresh.openCdrom [] Sample.dump).command (Sample.firstBlock 0x2A#8) Sample.ones
      {}).unit.medium = (Sample.fresh.openCdrom [] Sample.dump).medium := by
  have kept := scsi_medium_kept Sample.fresh [] Sample.dump
    [.command (Sample.firstBlock 0x28#8) [] {}]
  exact ⟨kept.1.mp ⟨fun _ _ => trivial, trivial⟩, kept.2 _ _ _ _ (by decide +kernel)⟩

/-- A removable disk takes a WRITE AND VERIFY. -/
theorem scsi_removable_written :
    ¬∀ (v : ScsiUnit 0#32) (candidates : List (Option (List Byte))) (disc : DiscFile)
      (requests : List Request),
      (run serve (v.openCdrom candidates disc) requests).medium =
        (v.openCdrom candidates disc).medium := by
  intro kept
  have first := congrArg (fun m => m.1.head?)
    (kept Sample.fresh [] Sample.dump [.command (Sample.firstBlock 0x2E#8) Sample.ones {}])
  have before : (Sample.fresh.openCdrom [] Sample.dump).medium.1.head? = some 0x45#8 := by
    decide +kernel
  have after : (run serve (Sample.fresh.openCdrom [] Sample.dump)
      [.command (Sample.firstBlock 0x2E#8) Sample.ones {}]).medium.1.head? = some 0xFF#8 := by
    decide +kernel
  cases (after.symm.trans first).trans before

end ScsiUnit

end Pom68k.Disk
