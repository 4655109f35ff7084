import Pom68k.Disk.AtaDisk

/-! # The snapshot of an ATA drive

A snapshot of the drive is accepted when its registers are ones the loader takes with
the buffer. The handlers keep them so, except for one: data reads during a write move
the index of the buffer on and never set it back, so the index can leave the buffer.
-/

namespace Pom68k.Disk

open Foundation
open ScsiDisk (StoreHost)

/-! ## Reading a snapshot back -/

theorem AtaDisk.readFlag_flagByte (b : Bool) (rest : List Byte) (why : String) :
    AtaDisk.readFlag ⟨AtaDisk.flagByte b ++ rest, true, why⟩ = (b, ⟨rest, true, why⟩) := by
  rw [AtaDisk.readFlag, AtaDisk.flagByte, Reader.word_putBytes _ (by decide)]
  cases b <;> rfl

/-- The registers that were written are read back. -/
theorem AtaRegs.read_bytes (regs : AtaRegs) (rest : List Byte) (why : String) :
    AtaRegs.read ⟨regs.bytes ++ rest, true, why⟩ = (regs, ⟨rest, true, why⟩) := by
  have word := fun v : BitVec 32 => Reader.word_putBytes (n := 4) v (by decide)
  have byte := fun v : BitVec 8 => Reader.word_putBytes (n := 1) v (by decide)
  have long := fun v : BitVec 64 => Reader.word_putBytes (n := 8) v (by decide)
  unfold AtaRegs.read AtaRegs.bytes
  simp only [List.append_assoc, word, byte, long, AtaDisk.readFlag_flagByte]

theorem PioBuffer.length_le (buffer : PioBuffer) : buffer.1.length ≤ sectorSize := by
  rcases buffer.2 with none | full
  · rw [none]
    exact Nat.zero_le _
  · exact full.le

namespace AtaMedium

variable {count : BitVec 32}

variable (m : AtaMedium count)

/-- A stored sector is, for the image and its history, a write. -/
theorem world_storeSector (lba : Fin count.toNat) (data : Block sectorSize) (host : StoreHost) :
    (m.storeSector lba data host).world = m.world.write lba data (host.journal lba) :=
  congrArg AtaMedium.world (dif_pos lba.isLt)

theorem world_foldl_storeSector (plan : BlockMap (sectors count)) (host : StoreHost) :
    (plan.foldl (fun m b => m.storeSector b.1 b.2 host) m).world =
      m.world.applyPlan plan fun lba => host.journal lba := by
  induction plan generalizing m with
  | nil => rfl
  | cons b rest ih =>
    rw [List.foldl_cons, ih, world_storeSector m b.1 b.2 host]
    rfl

theorem world_restore (r : Reader) (host : StoreHost) :
    (m.restore r host).1.world = m.world.restore r fun lba => host.journal lba := by
  rw [restore, World.restore]
  rw [world_foldl_storeSector]

end AtaMedium

namespace AtaDisk

variable {count : BitVec 32}

/-- The buffer of a snapshot is read back. -/
theorem readPio_length (buffer : PioBuffer) (rest : List Byte) (why : String) :
    readPio buffer.1.length ⟨buffer.1 ++ rest, true, why⟩ = (buffer, ⟨rest, true, why⟩) := by
  obtain ⟨bytes, rfl | full⟩ := buffer
  · rfl
  have some : bytes.length ≠ 0 := by
    rw [full]
    decide
  rw [readPio, if_neg some, Reader.bytes_append ⟨bytes, full⟩]
  rfl

variable (d : AtaDisk count)

/-- Loading a snapshot checks its registers against its buffer, and then goes on with the
medium. -/
theorem load_state (saved : AtaDisk count) (rest : List Byte) (why : String) (host : StoreHost) :
    d.load ⟨saved.state ++ rest, true, why⟩ host =
      if saved.toAtaRegs.Accepted count saved.buffer.1.length then
        let restored := d.medium.restore
          ⟨saved.medium.world.timeline.chunk saved.medium.world.image ++ rest, true, why⟩ host
        (⟨saved.toAtaRegs, saved.buffer, restored.1⟩, restored.2)
      else
        ({ d with toAtaRegs := saved.toAtaRegs },
          ⟨saved.buffer.1 ++ (saved.medium.world.timeline.chunk saved.medium.world.image ++ rest),
            false, why⟩) := by
  have size : (BitVec.ofNat 64 saved.buffer.1.length).toNat = saved.buffer.1.length :=
    Nat.mod_eq_of_lt (lt_of_le_of_lt saved.buffer.length_le (by decide))
  unfold load state
  simp only [List.append_assoc, AtaRegs.read_bytes, varint_varintBytes, size, true_and,
    readPio_length]
  rfl

/-! ## The medium under an access -/

/-- The address registers follow the transfer; nothing else does. -/
theorem setAddress_eq (lba : BitVec 32) :
    ∃ low mid high device, d.setAddress lba =
      { d with lbaLow := low, lbaMid := mid, lbaHigh := high, device := device } := by
  rw [setAddress]
  split
  · exact ⟨_, _, _, _, rfl⟩
  · exact ⟨d.lbaLow, d.lbaMid, d.lbaHigh, d.device, rfl⟩

theorem nextLba_eq :
    ∃ low mid high device, d.nextLba =
      { d with
        currentLba := d.currentLba + 1#32, lbaLow := low, lbaMid := mid, lbaHigh := high
        device := device } :=
  setAddress_eq { d with currentLba := d.currentLba + 1#32 } (d.currentLba + 1#32)

theorem medium_setAddress (lba : BitVec 32) : (d.setAddress lba).medium = d.medium := by
  obtain ⟨_, _, _, _, moved⟩ := d.setAddress_eq lba
  rw [moved]

theorem medium_execute (op : AtaCommand) : (d.execute op).medium = d.medium := by
  cases op with
  | readSectors =>
    rw [execute, startRead]
    split <;> rfl
  | writeSectors =>
    rw [execute, startWrite]
    split <;> rfl
  | _ => rfl

theorem medium_command (op : Byte) : (d.command op).medium = d.medium := by
  rw [command]
  split
  · exact medium_execute d.clearError _
  · rfl

theorem medium_nextLba : d.nextLba.medium = d.medium := medium_setAddress _ _

theorem medium_nextReadSector : d.nextReadSector.medium = d.medium := by
  rw [nextReadSector]
  split_ifs
  · rfl
  · exact medium_setAddress _ _
  · exact medium_nextLba d.countDown

theorem medium_commitWrittenSector (host : StoreHost) :
    (d.commitWrittenSector host).medium =
      if d.pending = 0#32 then d.medium
      else d.medium.storeSector d.currentLba.toNat d.buffer.sector host := by
  rw [commitWrittenSector]
  split_ifs
  · rfl
  · exact medium_setAddress _ _
  · exact medium_nextLba (d.storeBuffer host).countDown

theorem medium_deviceControl (v : Byte) : (d.deviceControl v).medium = d.medium := by
  unfold deviceControl
  split
  · rfl
  · split <;> rfl

theorem medium_writeRegister (reg v : Byte) :
    (d.step (.writeRegister reg v)).medium = d.medium := by
  rw [step, writeRegister]
  split
  case h_7 => exact medium_command d v
  case h_8 => exact medium_deviceControl d v
  all_goals rfl

/-- An access leaves the medium alone or stores the sector the drive is at. -/
theorem medium_step (op : Access) :
    (d.step op).medium = d.medium ∨
      ∃ data host, (d.step op).medium = d.medium.storeSector d.currentLba.toNat data host := by
  cases op with
  | readRegister reg =>
    left
    rw [step, readRegister]
    split <;> rfl
  | writeRegister reg v => exact .inl (d.medium_writeRegister reg v)
  | readData =>
    left
    rw [step, readData]
    split
    · rfl
    · dsimp only
      split
      · exact medium_nextReadSector _
      · rfl
  | writeData w host =>
    rw [step, writeData]
    split_ifs
    · exact .inl rfl
    · rw [medium_commitWrittenSector]
      split
      · exact .inl rfl
      · exact .inr ⟨_, host, rfl⟩
    · exact .inl rfl

end AtaDisk

/-! ## Registers the loader takes -/

namespace AtaRegs

theorem even_iff (i : BitVec 64) : i &&& 1#64 = 0#64 ↔ i.toNat % 2 = 0 := by
  rw [← BitVec.toNat_inj]
  exact Eq.congr_left (Nat.and_one_is_mod _)

/-- The index moves by whole words. -/
theorem even_add_two {i : BitVec 64} (even : i &&& 1#64 = 0#64) : (i + 2#64) &&& 1#64 = 0#64 := by
  rw [even_iff] at even ⊢
  bv_omega

theorem toNat_sub_one {n : BitVec 32} (some : n ≠ 0#32) : (n - 1#32).toNat = n.toNat - 1 := by
  bv_omega

theorem toNat_add_one {n : BitVec 32} (bound : BitVec 32) (below : n.toNat < bound.toNat) :
    (n + 1#32).toNat = n.toNat + 1 := by
  bv_omega

end AtaRegs

namespace AtaDisk

open AtaRegs (Sound)

variable {count : BitVec 32} {d d' : AtaDisk count} {path name : String} {writeBack : Bool}
  {file : List Byte} {undo : Option (List Byte)} {journal : JournalHost}

/-- The index lies in the buffer, or behind its last byte. -/
def Room (d : AtaDisk count) : Prop := d.bufferAt.toNat ≤ d.buffer.1.length

/-- No data is read during a write once the buffer was read to its end. -/
def Bounded (d : AtaDisk count) : Access → Prop
  | .readData => d.writing = true → d.bufferAt.toNat < d.buffer.1.length
  | _ => True

/-- The loader takes the registers with the buffer. -/
@[mk_iff] structure Loadable (d : AtaDisk count) : Prop where
  sound : Sound count d.toAtaRegs
  room : d.Room

theorem Loadable.congr (known : d.Loadable) (index : d'.bufferAt = d.bufferAt)
    (heads : d'.heads = d.heads) (track : d'.sectorsPerTrack = d.sectorsPerTrack)
    (pending : d'.pending = d.pending) (lba : d'.currentLba = d.currentLba)
    (buffer : d'.buffer = d.buffer) : d'.Loadable := by
  rw [loadable_iff, AtaRegs.sound_iff, Room, index, heads, track, pending, lba, buffer,
    ← AtaRegs.sound_iff]
  exact ⟨known.sound, known.room⟩

/-- At the start of a transfer. -/
theorem loadable_start (known : Sound count d.toAtaRegs) (index : d'.bufferAt = 0#64)
    (heads : d'.heads = d.heads) (track : d'.sectorsPerTrack = d.sectorsPerTrack)
    (few : d'.pending.toNat ≤ 256)
    (range : d'.pending ≠ 0#32 → d'.currentLba.toNat + d'.pending.toNat ≤ count.toNat) :
    d'.Loadable := by
  refine ⟨⟨?_, heads ▸ known.heads, track ▸ known.track, few, range⟩, ?_⟩
  · rw [index]
    rfl
  · rw [Room, index]
    exact Nat.zero_le _

/-- Between transfers. -/
theorem loadable_closed (known : Sound count d.toAtaRegs) (index : d'.bufferAt = 0#64)
    (heads : d'.heads = d.heads) (track : d'.sectorsPerTrack = d.sectorsPerTrack)
    (pending : d'.pending = 0#32) : d'.Loadable :=
  loadable_start known index heads track (pending ▸ Nat.zero_le _) fun some => absurd pending some

/-- At the next sector of a command. -/
theorem loadable_next (known : Sound count d.toAtaRegs) (index : d'.bufferAt = 0#64)
    (heads : d'.heads = d.heads) (track : d'.sectorsPerTrack = d.sectorsPerTrack)
    (some : d.pending ≠ 0#32) (pending : d'.pending = d.pending - 1#32)
    (lba : d'.currentLba = d.currentLba + 1#32) : d'.Loadable := by
  have range := known.range some
  have few := known.few
  have fewer := AtaRegs.toNat_sub_one some
  refine loadable_start known index heads track ?_ fun _ => ?_
  · rw [pending]
    omega
  · rw [lba]
    bv_omega

theorem Loadable.setAddress (known : d.Loadable) (lba : BitVec 32) :
    (d.setAddress lba).Loadable := by
  obtain ⟨_, _, _, _, moved⟩ := d.setAddress_eq lba
  rw [moved]
  exact known.congr rfl rfl rfl rfl rfl rfl

theorem toNat_requested_le (d : AtaDisk count) : d.requested.toNat ≤ 256 := by
  rw [requested]
  split
  · exact le_refl _
  · rw [BitVec.toNat_setWidth]
    exact le_trans (Nat.mod_le _ _) d.sectorCountReg.isLt.le

theorem heads_selected (device : Byte) :
    (device &&& 0x0F#8) + 1#8 ≠ 0#8 ∧ ((device &&& 0x0F#8) + 1#8).toNat ≤ 16 := by
  have low : (device &&& 0x0F#8).toNat ≤ 15 := by
    exact Nat.and_le_right
  constructor <;> bv_omega

section

variable (known : d.Loadable)
include known

theorem Loadable.initParameters : d.initParameters.Loadable := by
  obtain ⟨⟨even, _, _, few, range⟩, room⟩ := known
  refine ⟨⟨even, heads_selected d.device, ?_, few, range⟩, room⟩
  change (if d.sectorCountReg = 0#8 then 1#8 else d.sectorCountReg) ≠ 0#8
  split
  · decide
  · assumption

theorem Loadable.execute (op : AtaCommand) : (d.execute op).Loadable := by
  have sound := known.sound
  cases op with
  | readSectors =>
    rw [AtaDisk.execute, startRead]
    split
    next inside =>
      exact loadable_start sound rfl rfl rfl d.toNat_requested_le fun _ => of_decide_eq_true inside
    next => exact loadable_closed sound rfl rfl rfl rfl
  | writeSectors =>
    rw [AtaDisk.execute, startWrite]
    split
    next inside =>
      exact loadable_start sound rfl rfl rfl d.toNat_requested_le fun _ => of_decide_eq_true inside
    next => exact loadable_closed sound rfl rfl rfl rfl
  | initParameters => exact known.initParameters
  | identify | readBuffer | writeBuffer | unknown => exact loadable_closed sound rfl rfl rfl rfl
  | readVerify | diagnostic | flushCache | setFeatures => exact known.congr rfl rfl rfl rfl rfl rfl

theorem Loadable.command (op : Byte) : (d.command op).Loadable := by
  have cleared : d.clearError.Loadable := known.congr rfl rfl rfl rfl rfl rfl
  rw [AtaDisk.command]
  split
  · exact cleared.execute _
  next => exact loadable_closed known.sound rfl rfl rfl rfl

theorem Loadable.deviceControl (v : Byte) : (d.deviceControl v).Loadable := by
  unfold AtaDisk.deviceControl
  split
  · exact known.congr rfl rfl rfl rfl rfl rfl
  · split
    · exact loadable_closed known.sound rfl rfl rfl rfl
    · exact known.congr rfl rfl rfl rfl rfl rfl

end

theorem pending_countDown (some : d.pending ≠ 0#32) : d.countDown.pending = d.pending - 1#32 :=
  if_neg some

section

variable (known : Sound count d.toAtaRegs)
include known

/-- A read sector that is done leaves the index at the start of the buffer. -/
theorem loadable_nextReadSector (reading : d.writing = false) : d.nextReadSector.Loadable := by
  rw [AtaDisk.nextReadSector, if_neg (by rw [reading]; exact Bool.false_ne_true)]
  split_ifs with last
  · refine Loadable.setAddress ?_ _
    exact loadable_closed known rfl rfl rfl last
  · have some := fun none => last (if_pos none)
    obtain ⟨_, _, _, _, next⟩ := d.countDown.nextLba_eq
    rw [next]
    exact loadable_next known rfl rfl rfl some (pending_countDown some) rfl

theorem loadable_commitWrittenSector (host : StoreHost) :
    (d.commitWrittenSector host).Loadable := by
  rw [AtaDisk.commitWrittenSector]
  split_ifs with none last
  · exact loadable_closed known rfl rfl rfl none
  · refine Loadable.congr (Loadable.setAddress ?_ d.currentLba) rfl rfl rfl rfl rfl rfl
    exact loadable_closed known rfl rfl rfl last
  · obtain ⟨_, _, _, _, next⟩ := (d.storeBuffer host).countDown.nextLba_eq
    rw [next]
    exact loadable_next known rfl rfl rfl none (pending_countDown none) rfl

theorem sound_advance : Sound count d.advance.toAtaRegs :=
  ⟨AtaRegs.even_add_two known.even, known.heads, known.track, known.few, known.range⟩

end

/-- Every access keeps the registers such that the loader takes them, as long as no read
moves the index on behind a write. -/
theorem Loadable.step (known : d.Loadable) {op : Access} (bounded : d.Bounded op) :
    (d.step op).Loadable := by
  cases op with
  | readRegister reg =>
    rw [AtaDisk.step, readRegister]
    split
    case h_7 => exact known.congr rfl rfl rfl rfl rfl rfl
    all_goals exact known
  | writeRegister reg v =>
    rw [AtaDisk.step, writeRegister]
    split
    case h_7 => exact known.command v
    case h_8 => exact known.deviceControl v
    all_goals exact known.congr rfl rfl rfl rfl rfl rfl
  | readData =>
    rw [AtaDisk.step, readData]
    by_cases none : d.buffer.1 = []
    · rwa [if_pos none]
    have sound := sound_advance known.sound
    rw [if_neg none]
    dsimp only
    split
    · next finished =>
        cases writing : d.writing with
        | false => exact loadable_nextReadSector sound writing
        | true =>
          -- a write stays where it is: the last word was inside, so the index is at the end
          have inside := bounded writing
          have full := d.buffer.2.resolve_left none
          have even := (AtaRegs.even_iff _).mp known.sound.even
          have size : sectorSize = 512 := rfl
          have stays : d.advance.nextReadSector = d.advance := if_pos writing
          rw [stays]
          refine ⟨sound, ?_⟩
          change (d.bufferAt + 2#64).toNat ≤ d.buffer.1.length
          bv_omega
    · next more => exact ⟨sound, (Nat.not_le.mp more).le⟩
  | writeData w host =>
    have sound : Sound count (d.latch w).advance.toAtaRegs := sound_advance known.sound
    rw [AtaDisk.step, writeData]
    split_ifs with idle finished
    · exact known
    · exact loadable_commitWrittenSector sound host
    · exact ⟨sound, (Nat.not_le.mp finished).le⟩

theorem loadable_openAs : (openAs count path name writeBack file undo journal).Loadable := by
  have unset : Sound count {} :=
    ⟨rfl, ⟨by decide, by decide⟩, by decide, Nat.zero_le _, fun some => absurd rfl some⟩
  have geometry : ((chs count).1 ≠ 0#8 ∧ (chs count).1.toNat ≤ 16) ∧ (chs count).2.1 ≠ 0#8 := by
    rw [chs]
    split <;> dsimp only <;> decide
  rw [openAs]
  split
  · exact ⟨unset, Nat.zero_le _⟩
  · exact ⟨⟨unset.even, geometry.1, geometry.2, Nat.zero_le _, fun some => absurd rfl some⟩,
      Nat.zero_le _⟩

theorem Loadable.accepted (known : d.Loadable) :
    d.toAtaRegs.Accepted count d.buffer.1.length := by
  refine ⟨known.sound, ?_, known.room⟩
  rcases d.buffer.2 with none | full
  · exact .inl (List.length_eq_zero_iff.mpr none)
  · exact .inr full

/-! ## The medium of a drive -/

end AtaDisk

namespace AtaMedium

variable {count : BitVec 32} {opened : Image (sectors count)} {m : AtaMedium count}

/-- The history of a medium tells it from the opened image; a port without a drive has
neither. -/
def Kept (opened : Image (sectors count)) (m : AtaMedium count) : Prop :=
  if count = 0#32 then m.world.timeline.attached = false else m.world.Coherent opened

theorem Kept.storeSector (kept : m.Kept opened) (lba : Nat) (data : Block sectorSize)
    (host : StoreHost) : (m.storeSector lba data host).Kept opened := by
  by_cases inside : lba < count.toNat
  · have some : count ≠ 0#32 := by
      rintro rfl
      exact Nat.not_lt_zero lba inside
    rw [Kept, if_neg some] at kept ⊢
    rw [world_storeSector m ⟨lba, inside⟩]
    exact kept.write _ data _
  · rwa [AtaMedium.storeSector, dif_neg inside]

theorem Kept.save (kept : m.Kept opened) (landed : Option Nat) :
    Kept opened { m with world := m.world.step (.save landed) } := by
  by_cases none : count = 0#32
  · rw [Kept, if_pos none] at kept ⊢
    change (m.world.timeline.save m.world.image landed).attached = false
    rwa [Timeline.save, if_neg (by rw [kept]; exact Bool.false_ne_true)]
  · rw [Kept, if_neg none] at kept ⊢
    exact kept.journalEpoch landed

/-- A state without a medium is taken as it is. -/
theorem load_detached {g : Geometry} (t saved : Timeline g) (image image' : Image g)
    (detached : saved.attached = false) (rest : List Byte) (why : String) :
    t.load image ⟨saved.chunk image' ++ rest, true, why⟩ = ⟨t, ⟨rest, true, why⟩, []⟩ := by
  have read : t.parse ⟨saved.chunk image' ++ rest, true, why⟩ =
      (.noMedium, ⟨rest, true, why⟩) := by
    rw [Timeline.chunk, if_neg (by rw [detached]; exact Bool.false_ne_true), List.append_assoc,
      Timeline.parse, Reader.word_putBytes _ (by decide)]
    dsimp only
    rfl
  rw [Timeline.load, read]

/-- A state of the medium is restored in any later state of it. -/
theorem Kept.restore (kept : m.Kept opened) {saved : AtaMedium count} (before : saved.Kept opened)
    (rest : List Byte) (why : String) (host : StoreHost) :
    let restored := m.restore
      ⟨saved.world.timeline.chunk saved.world.image ++ rest, true, why⟩ host
    restored.2 = ⟨rest, true, why⟩ ∧ restored.1.Kept opened ∧
      restored.1.world.image = saved.world.image ∧
      restored.1.world.timeline.dirtyList = saved.world.timeline.dirtyList := by
  intro restored
  have world : restored.1.world = m.world.restore
      ⟨saved.world.timeline.chunk saved.world.image ++ rest, true, why⟩
      fun lba => host.journal lba := world_restore m _ host
  have reader : restored.2 = (m.world.timeline.load m.world.image
      ⟨saved.world.timeline.chunk saved.world.image ++ rest, true, why⟩).reader := rfl
  by_cases none : count = 0#32
  · subst none
    rw [Kept] at kept before ⊢
    have loaded := load_detached m.world.timeline saved.world.timeline m.world.image
      saved.world.image before rest why
    rw [loaded] at reader
    rw [World.restore, loaded] at world
    refine ⟨reader, ?_, funext fun lba => lba.elim0, ?_⟩
    · rw [world]
      exact (congrArg Timeline.attached (if_neg (by
        change ¬ m.world.timeline.attached = true
        rw [kept]
        exact Bool.false_ne_true))).trans kept
    · exact (List.eq_nil_iff_forall_not_mem.mpr fun lba => lba.elim0).trans
        (List.eq_nil_iff_forall_not_mem.mpr fun lba => lba.elim0).symm
  · rw [Kept, if_neg none] at kept before ⊢
    rw [before.chunk_eq] at world reader
    obtain ⟨plan, loaded, _⟩ := kept.load_state before.based rest why
    obtain ⟨coherent, content, list⟩ := kept.restore_state before.based rest why
      fun lba => host.journal lba
    rw [loaded] at reader
    rw [← world] at coherent content list
    exact ⟨reader, coherent, content, list⟩

end AtaMedium

namespace AtaDisk

open AtaRegs (Sound)

variable {count : BitVec 32} {d : AtaDisk count} {path name : String} {writeBack : Bool}
  {file : List Byte} {undo : Option (List Byte)} {journal : JournalHost}

theorem kept_openAs :
    (openAs count path name writeBack file undo journal).medium.Kept (sectorsOf count file) := by
  rw [AtaMedium.Kept, openAs]
  split
  · rfl
  · exact World.coherent_attach (World.initial path name (sectorsOf count file) undo) writeBack
      journal

theorem kept_run {opened : Image (sectors count)} (kept : d.medium.Kept opened)
    (ops : List Access) : (run step d ops).medium.Kept opened := by
  refine run_invariant (I := fun d : AtaDisk count => d.medium.Kept opened) ?_ kept ops
  intro d op kept
  rcases d.medium_step op with same | ⟨data, host, stored⟩
  · rwa [same]
  · rw [stored]
    exact kept.storeSector _ data host

/-- A drive that was opened and then accessed in any order, with no data read during a
write once the buffer was read to its end: its snapshot is accepted there and in every
later state, takes exactly its bytes, and brings back the registers, the buffer, the
sectors of the image and the log of written sectors. -/
theorem ata_snapshot_restored (count : BitVec 32) (path name : String) (writeBack : Bool)
    (file : List Byte) (undo : Option (List Byte)) (journal : JournalHost) (ops later : List Access)
    (bounded : Along step Bounded (openAs count path name writeBack file undo journal) ops)
    (landed : Option Nat) (rest : List Byte) (why : String) (host : StoreHost) :
    let saved := run step (openAs count path name writeBack file undo journal) ops
    let restored := (run step (saved.save landed) later).load ⟨saved.state ++ rest, true, why⟩ host
    restored.2 = ⟨rest, true, why⟩ ∧ restored.1.toAtaRegs = saved.toAtaRegs ∧
      restored.1.buffer = saved.buffer ∧
      restored.1.medium.world.image = saved.medium.world.image ∧
      restored.1.medium.world.timeline.dirtyList = saved.medium.world.timeline.dirtyList := by
  intro saved restored
  have accepted : saved.toAtaRegs.Accepted count saved.buffer.1.length :=
    (bounded.invariant (fun _ _ bounded known => known.step bounded) loadable_openAs).accepted
  have before : saved.medium.Kept (sectorsOf count file) := kept_run kept_openAs ops
  have now := kept_run (d := saved.save landed) (before.save landed) later
  obtain ⟨reader, _, image, list⟩ := now.restore before rest why host
  have loaded : restored = _ := (load_state _ saved rest why host).trans (if_pos accepted)
  rw [loaded]
  exact ⟨reader, rfl, rfl, image, list⟩

/-- After any accesses at all to an image that was opened, the medium of a snapshot is read
back in every later state, with its sectors and its log of those written. -/
theorem ata_medium_restored (path name : String) (writeBack : Bool) (file : List Byte)
    (undo : Option (List Byte)) (journal : JournalHost) (ops later : List Access)
    (landed : Option Nat) (rest : List Byte) (why : String) (host : StoreHost) :
    match openImage path name writeBack file undo journal with
    | none => file = [] ∨ file.length % sectorSize ≠ 0
    | some opened =>
      let saved := run step opened ops
      let world := saved.medium.world
      let restored := (run step (saved.save landed) later).medium.restore
        ⟨world.timeline.chunk world.image ++ rest, true, why⟩ host
      restored.2 = ⟨rest, true, why⟩ ∧ restored.1.world.image = world.image ∧
        restored.1.world.timeline.dirtyList = world.timeline.dirtyList := by
  rw [openImage]
  split_ifs with bad
  · exact bad
  have opened :
      (openAs (ScsiDisk.countOf file) path name writeBack file undo journal).medium.Kept _ :=
    kept_openAs
  have before := kept_run opened ops
  have now := kept_run (d := save _ landed) (before.save landed) later
  exact ⟨(now.restore before ..).1, (now.restore before ..).2.2⟩

/-! ## A snapshot the drive refuses -/

namespace Sample

/-- A file of one sector, and the drive that serves it. -/
def zeroFile : List Byte := List.replicate sectorSize 0#8

def blank : AtaDisk 1#32 := openAs 1#32 "blank.img" "ATA blank.img" false zeroFile none {}

/-- One sector is asked for, by block number. -/
def addressed : List Access :=
  [.writeRegister 6#8 0x40#8, .writeRegister 2#8 1#8, .writeRegister 3#8 0#8]

def writeCommand : Access := .writeRegister 7#8 0x30#8

def writeOne : List Access := addressed ++ [writeCommand]

/-- The same write, with a stray read before its first word. -/
def stray : List Access := writeOne ++ [.readData, .writeData 0x4142#16 {}]

/-- The same write, with more reads than the sector has words. -/
def runaway : AtaDisk 1#32 := run step blank (writeOne ++ List.replicate 257 .readData)

end Sample

/-- A write in the middle of its sector, after a stray read, is brought back. -/
theorem ata_snapshot_restored_halfway :
    let saved := run step
      (openAs 1#32 "blank.img" "ATA blank.img" false Sample.zeroFile none {}) Sample.stray
    let restored := (run step (saved.save none) []).load ⟨saved.state ++ [], true, ""⟩ {}
    restored.2 = ⟨[], true, ""⟩ ∧ restored.1.toAtaRegs = saved.toAtaRegs ∧
      restored.1.buffer = saved.buffer ∧
      restored.1.medium.world.image = saved.medium.world.image ∧
      restored.1.medium.world.timeline.dirtyList = saved.medium.world.timeline.dirtyList :=
  ata_snapshot_restored 1#32 "blank.img" "ATA blank.img" false Sample.zeroFile none {} Sample.stray
    [] ⟨trivial, trivial, trivial, trivial, fun _ => by decide +kernel, trivial, trivial⟩ none []
      "" {}

/-- After WRITE SECTORS and 257 reads of the data port the drive refuses the snapshot it
has just saved. -/
theorem ata_snapshot_refused :
    ((Sample.runaway.save none).load ⟨Sample.runaway.state ++ [], true, ""⟩ {}).2.ok = false := by
  have refused : ¬ Sample.runaway.toAtaRegs.Accepted 1#32 Sample.runaway.buffer.1.length :=
    fun accepted => absurd accepted.room (by decide +kernel)
  rw [load_state, if_neg refused]

end AtaDisk

end Pom68k.Disk
