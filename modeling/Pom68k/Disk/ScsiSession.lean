import Pom68k.Disk.Reopen
import Pom68k.Disk.ScsiStore

/-! # A SCSI disk in a process

Opening, guest requests, saving and loading of a SCSI disk are attaching, block writes,
saving and restoring for its image of blocks. Requests reach whole blocks inside the
disk only, so they keep its shape and the file behind the image.
-/

namespace Pom68k.Disk

open Foundation

/-- A guest request to write. -/
structure GuestWrite where
  lba : Nat
  length : Nat
  data : List Byte
  host : ScsiDisk.StoreHost := {}

/-- A request is served and reaches a block. -/
def GuestWrite.covers (blocks : Nat) (op : GuestWrite) (b : Nat) : Bool :=
  op.lba + op.length ≤ blocks && op.lba ≤ b &&
    (b - op.lba) * sectorSize < min (op.length * sectorSize) op.data.length

/-- Some requests reach a block. -/
def covered (blocks : Nat) (ops : List GuestWrite) (b : Nat) : Bool :=
  ops.any fun op => op.covers blocks b

namespace ScsiDisk

variable {count : BitVec 32} {d : ScsiDisk count}

/-- A sequence of guest requests. -/
def guestWrites (d : ScsiDisk count) (ops : List GuestWrite) : ScsiDisk count :=
  run (fun d op => d.guestWrite op.lba op.length op.data op.host) d ops

theorem Backed.writable_eq (backed : Backed d) {lba length : Nat}
    (inside : lba + length ≤ count.toNat) (data : List Byte) :
    d.writable lba length data = min (length * sectorSize) data.length := by
  have bytes := Nat.mul_le_mul_right sectorSize inside
  have room := backed.room
  rw [Nat.add_mul] at bytes
  unfold writable
  omega

/-- A guest request writes the blocks it covers. -/
theorem Backed.guestWrite (backed : Backed d) (path name : String) (op : GuestWrite) :
    Backed (d.guestWrite op.lba op.length op.data op.host) ∧
      SameShape d (d.guestWrite op.lba op.length op.data op.host) ∧
      ∃ ops : List (BlockWrite (sectors count)),
        (d.guestWrite op.lba op.length op.data op.host).world path name =
          (d.world path name).writes ops ∧
        ∀ b, b ∈ ops.map BlockWrite.lba ↔ op.covers count.toNat b = true := by
  rw [ScsiDisk.guestWrite, backed.blocks]
  by_cases inside : op.lba + op.length ≤ count.toNat
  · rw [if_pos inside]
    have done := store_spec backed.attached op.lba op.length op.data op.host
    have enough := d.writable_le_data op.lba op.length op.data
    have within := le_trans
      (Nat.add_le_add_left (d.blocksFor_writable op.lba op.length op.data) op.lba) inside
    refine ⟨backed.stored done enough within, backed.sameShape done enough within, _,
      (done.world path name backed.room enough within).trans
        (World.applyPlan_eq_writes _ _ _), fun b => ?_⟩
    rw [List.map_map]
    refine mem_requestPlan.trans ?_
    rw [GuestWrite.covers, ← backed.writable_eq inside, decide_eq_true inside, Bool.true_and,
      Bool.and_eq_true, decide_eq_true_iff, decide_eq_true_iff, ← lt_blocksFor]
    omega
  · rw [if_neg inside]
    refine ⟨backed, .refl d, [], rfl, fun b => ?_⟩
    rw [GuestWrite.covers, decide_eq_false inside]
    exact iff_of_false List.not_mem_nil Bool.false_ne_true

/-- Guest requests write the blocks they cover. -/
theorem Backed.guestWrites (backed : Backed d) (path name : String) (ops : List GuestWrite) :
    Backed (d.guestWrites ops) ∧ SameShape d (d.guestWrites ops) ∧
      ∃ blockOps : List (BlockWrite (sectors count)),
        (d.guestWrites ops).world path name = (d.world path name).writes blockOps ∧
        ∀ b, b ∈ blockOps.map BlockWrite.lba ↔ covered count.toNat ops b = true := by
  induction ops generalizing d with
  | nil => exact ⟨backed, .refl d, [], rfl, fun b => iff_of_false List.not_mem_nil nofun⟩
  | cons op rest ih =>
    obtain ⟨backed', shape', blockOps', world', keys'⟩ := backed.guestWrite path name op
    obtain ⟨backed'', shape'', blockOps'', world'', keys''⟩ := ih backed'
    refine ⟨backed'', shape'.trans shape'', blockOps' ++ blockOps'', ?_, fun b => ?_⟩
    · rw [World.writes_append, ← world', ← world'']
      rfl
    · rw [List.map_append, List.mem_append, keys' b, keys'' b, covered, covered, List.any_cons,
        Bool.or_eq_true]

/-- Saving changes the timeline only. -/
theorem Backed.save (backed : Backed d) (landed : Option Nat) : Backed (d.save landed) := by
  have saved : (d.save landed).timeline = (d.timeline.freshen (sectorsOf count d.image)).journalEpoch
      (d.timeline.freshen (sectorsOf count d.image)).digest landed := if_pos backed.attached
  have attached : (d.save landed).timeline.attached = true := by
    rw [saved, (Timeline.sameContent_journalEpoch _ _ landed).attached, Timeline.attached_freshen,
      backed.attached]
  exact ⟨backed.blocks, attached, backed.room, backed.behind, backed.mirror⟩

/-! ## Opening -/

/-- The image of a file that is not unwrapped: the file behind the prefix. -/
theorem serve_eq {file : List Byte} (kept : unwrapDriverless512Dump file = none)
    (candidates : List (Option (List Byte))) :
    ((serve candidates file).2 = 0 ∨ (serve candidates file).2 = facadePrefixBlocks) ∧
      (serve candidates file).1.length = (serve candidates file).2 * sectorSize + file.length ∧
      (serve candidates file).1.drop ((serve candidates file).2 * sectorSize) = file := by
  rw [serve, kept, Option.getD_none]
  split
  · next head found =>
      have size := length_flatHfsPrefix found
      refine ⟨.inr rfl, ?_, ?_⟩
      · rw [List.length_append, size]
      · exact List.drop_left' size
  · exact ⟨.inl rfl, by rw [Nat.zero_mul, Nat.zero_add], by rw [Nat.zero_mul, List.drop_zero]⟩

variable {host : ScsiHost} {file : List Byte} {undo : Option (List Byte)} {journal : JournalHost}

/-- Whether a disk writes back. -/
theorem writeBack_openAs : (openAs count host true file undo journal).writeBack =
    ((((true && (unwrapDriverless512Dump file).isNone) && decide (count ≠ 0#32))) &&
      host.writable) :=
  rfl

section

variable (on : (openAs count host true file undo journal).writeBack = true)
include on

/-- What a disk that writes back was opened from. -/
theorem of_writeBack : unwrapDriverless512Dump file = none ∧ count ≠ 0#32 := by
  rw [writeBack_openAs, Bool.and_eq_true, Bool.and_eq_true, Bool.true_and,
    Option.isNone_iff_eq_none, decide_eq_true_iff] at on
  exact on.1

theorem world_openAs :
    (openAs count host true file undo journal).world host.journalPath host.name =
      (World.initial host.journalPath host.name
        (sectorsOf count (serve host.candidates file).1) undo).step (.attach true journal) := by
  have opened := (of_writeBack on).2
  rw [writeBack_openAs] at on
  unfold openAs world
  dsimp only
  rw [if_neg opened, on]
  rfl

/-- The timeline of a disk that was just opened. -/
theorem timeline_openAs :
    ((openAs count host true file undo journal).world host.journalPath host.name).Coherent
        (sectorsOf count (serve host.candidates file).1) ∧
      (openAs count host true file undo journal).timeline.dirty.entries = [] ∧
      (openAs count host true file undo journal).timeline.Whole := by
  have world := world_openAs on
  have timeline : (openAs count host true file undo journal).timeline =
      ({ file := undo } : Timeline (sectors count)).attach
        (sectorsOf count (serve host.candidates file).1) host.journalPath host.name journal :=
    congrArg World.timeline world
  refine ⟨?_, ?_, ?_⟩
  · rw [world]
    exact World.coherent_attach (World.initial host.journalPath host.name
      (sectorsOf count (serve host.candidates file).1) undo) true journal
  · rw [timeline, (Timeline.attach_content _ _ host.journalPath host.name journal).dirty]
    rfl
  · rw [timeline]
    exact Timeline.whole_attach _ _ host.journalPath host.name journal

end

/-- The number of blocks in front of the file. -/
theorem hfsPrefixBlocks_openAs (count : BitVec 32) (host : ScsiHost) {file : List Byte}
    (undo : Option (List Byte)) (journal : JournalHost)
    (kept : unwrapDriverless512Dump file = none) :
    (openAs count host true file undo journal).hfsPrefixBlocks.toNat =
      (serve host.candidates file).2 := by
  rw [openAs]
  rcases (serve_eq kept host.candidates).1 with none | facade
  · rw [none]
    rfl
  · rw [facade]
    rfl

/-- A disk that writes back is opened with the file behind its image. -/
theorem backed_openAs (on : (openAs count host true file undo journal).writeBack = true)
    (size : count.toNat = (serve host.candidates file).1.length / sectorSize) :
    Backed (openAs count host true file undo journal) := by
  obtain ⟨kept, opened⟩ := of_writeBack on
  obtain ⟨_, length, behind⟩ := serve_eq kept host.candidates
  have number := hfsPrefixBlocks_openAs count host undo journal kept
  have attached := (World.coherent_attach (World.initial host.journalPath host.name
    (sectorsOf count (serve host.candidates file).1) undo) true journal).attached
  rw [← world_openAs on] at attached
  refine ⟨rfl, attached, ?_, ?_, fun _ => ?_⟩
  · rw [size]
    exact Nat.div_mul_le_self _ _
  · rw [number, size, Nat.le_div_iff_mul_le (by decide), length]
    exact Nat.le_add_right _ _
  · rwa [number]

/-! ## Loading -/

theorem blocksFor_sectorSize : blocksFor sectorSize = 1 := by decide

theorem nextSector_block (img : List Byte) (lba : Nat) (block : Block sectorSize) :
    nextSector img lba 0 sectorSize block.1 = block := by
  have all : (block.1.drop (0 * sectorSize)).take (min (sectorSize - 0 * sectorSize) sectorSize) =
      block.1 := by
    exact List.take_of_length_le (le_of_eq block.2)
  have fits : 0 + block.1.length ≤ (sector img (lba + 0)).1.length := by
    rw [block.2, (sector img (lba + 0)).2, Nat.zero_add]
  refine Subtype.ext (slice_eq block.2 fun j low => ?_)
  have inside : j < block.1.length := lt_of_lt_of_eq low block.2.symm
  rw [all, Nat.mul_zero, Nat.zero_add, List.getD_eq_getElem?_getD, getElem?_overwrite fits,
    if_pos ⟨Nat.zero_le j, by rwa [Nat.zero_add]⟩, Nat.sub_zero, List.getElem?_eq_getElem inside]
  rfl

/-- A block of a plan, written as a request, is a block write. -/
theorem Backed.store_block (backed : Backed d) (path name : String) (b : Fin (sectors count).blocks)
    (block : Block sectorSize) (host : StoreHost) :
    Backed (d.store b 1 block.1 host) ∧ SameShape d (d.store b 1 block.1 host) ∧
      (d.store b 1 block.1 host).world path name =
        (d.world path name).write b block (host.journal b) := by
  have inside : b.val + 1 ≤ count.toNat := b.isLt
  have done := store_spec backed.attached b 1 block.1 host
  rw [backed.writable_eq inside, Nat.one_mul, block.2, Nat.min_self] at done
  have enough := le_of_eq block.2.symm
  have within : b.val + blocksFor sectorSize ≤ count.toNat := by rwa [blocksFor_sectorSize]
  refine ⟨backed.stored done enough within, backed.sameShape done enough within,
    (done.world path name backed.room enough within).trans ?_⟩
  have one : List.finRange (blocksFor sectorSize) = [⟨0, by decide⟩] := rfl
  have single : requestPlan d.image b.val sectorSize block.1 within = [(b, block)] := by
    rw [requestPlan, one, List.map_singleton, nextSector_block]
    rfl
  rw [single]
  rfl

/-- The plan of a load goes through the write path. -/
theorem Backed.storePlan (backed : Backed d) (path name : String) (plan : BlockMap (sectors count))
    (host : StoreHost) :
    let d' := d.storePlan (plan.map fun b => (b.1.val, b.2.1)) host
    Backed d' ∧ SameShape d d' ∧
      d'.world path name = (d.world path name).applyPlan plan fun b => host.journal b := by
  induction plan generalizing d with
  | nil => exact ⟨backed, .refl d, rfl⟩
  | cons b rest ih =>
    obtain ⟨backed', shape', world'⟩ := backed.store_block path name b.1 b.2 host
    obtain ⟨backed'', shape'', world''⟩ := ih backed'
    refine ⟨backed'', shape'.trans shape'', world''.trans ?_⟩
    rw [world']
    rfl

/-- The end of a load is the restore of the blocks. -/
theorem Backed.applyLoaded (backed : Backed d) (path name : String) (r : Reader)
    (host : StoreHost) :
    let d' := d.applyLoaded (d.timeline.load (sectorsOf count d.image) r) host
    SameShape d d' ∧
      d'.world path name = (d.world path name).restore r fun b => host.journal b := by
  have attached : (d.timeline.load (sectorsOf count d.image) r).timeline.attached = true :=
    (d.timeline.sameJournal_load (sectorsOf count d.image) r).attached.trans backed.attached
  have loaded : Backed { d with
      timeline := (d.timeline.load (sectorsOf count d.image) r).timeline } :=
    ⟨backed.blocks, attached, backed.room, backed.behind, backed.mirror⟩
  obtain ⟨_, shape, world⟩ := loaded.storePlan path name
    (d.timeline.load (sectorsOf count d.image) r).plan host
  have same : SameShape d { d with
      timeline := (d.timeline.load (sectorsOf count d.image) r).timeline } :=
    ⟨rfl, rfl, rfl, rfl, rfl⟩
  have all := same.trans shape
  unfold ScsiDisk.applyLoaded
  by_cases ok : (d.timeline.load (sectorsOf count d.image) r).reader.ok = true
  · rw [if_pos ok]
    refine ⟨⟨all.blocks, all.hfsPrefixBlocks, all.regs, all.length, all.tail⟩, ?_⟩
    exact (congrArg (fun w : World (sectors count) =>
      { w with timeline := w.timeline.commitLoad w.image }) world).trans (if_pos ok).symm
  · rw [if_neg ok]
    exact ⟨all, world.trans (if_neg ok).symm⟩

variable (d) {count' : BitVec 32}

/-- The words in front of a disk state are read back. -/
theorem readRegs_regBytes (saved : ScsiDisk count') (rest : List Byte) (why : String) :
    d.readRegs ⟨saved.regBytes ++ rest, true, why⟩ =
      ({ d with
          blocks := saved.blocks, hfsPrefixBlocks := saved.hfsPrefixBlocks, regs := saved.regs },
        ⟨rest, true, why⟩) := by
  have word := fun v : BitVec 32 => Reader.word_putBytes (n := 4) v (by decide)
  have byte := fun v : BitVec 8 => Reader.word_putBytes (n := 1) v (by decide)
  have long := fun v : BitVec 64 => Reader.word_putBytes (n := 8) v (by decide)
  unfold readRegs regBytes
  simp only [List.append_assoc, word, byte, long]

/-- The disk once the words of a state were read. -/
def resumed {count' : BitVec 32} (d : ScsiDisk count) (saved : ScsiDisk count') : ScsiDisk count :=
  { d with blocks := saved.blocks, hfsPrefixBlocks := saved.hfsPrefixBlocks, regs := saved.regs }

/-- Loading a disk state loads the state of its timeline. -/
theorem load_state {saved : ScsiDisk count'} (playing : saved.regs.audioFrac.toNat < 1000000)
    (why : String) (host : StoreHost) : d.load ⟨saved.state, true, why⟩ host =
      ((d.resumed saved).applyLoaded (d.timeline.load (sectorsOf count d.image)
          ⟨saved.timeline.chunk (sectorsOf count' saved.image), true, why⟩) host,
        (d.timeline.load (sectorsOf count d.image)
          ⟨saved.timeline.chunk (sectorsOf count' saved.image), true, why⟩).reader) := by
  unfold load
  rw [state, readRegs_regBytes]
  exact if_neg (Nat.not_le.mpr playing)

end ScsiDisk

end Pom68k.Disk
