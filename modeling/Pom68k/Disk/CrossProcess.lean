import Pom68k.Disk.ScsiSession

/-! # Restoring a SCSI disk in the next process

A state of a disk is saved, more is written, the process ends, and another one opens
the backing file and the journal. The prefix of a bare HFS volume is not in the file:
the next process synthesises it again, whatever the guest had written there. The
theorem says for which writes the state is still accepted with its image.
-/

namespace Pom68k.Disk

open Foundation

namespace ScsiDisk

variable {count : BitVec 32} {opened : Image (sectors count)} {path name : String}
  {d : ScsiDisk count}
  {count' : BitVec 32}

/-- A process saved a state of a disk and went on writing. -/
structure Left (before after : List GuestWrite) (saved left : ScsiDisk count)
    (path name : String) : Prop where
  savedBacked : Backed saved
  backed : Backed left
  shape : SameShape saved left
  quiet : saved.regs = {}
  order : saved.timeline.dirtyList.Nodup
  logged : ∀ b, b ∈ saved.timeline.dirtyList ↔ covered count.toNat before b = true
  chunk : saved.timeline.chunk (sectorsOf count saved.image) =
    Timeline.stateBytes (sectorsOf count saved.image) saved.timeline.dirtyList
  recording : ∃ touched, (left.world path name).Recording
    (imageDigest (sectorsOf count saved.image)) (sectorsOf count saved.image) touched ∧
    ∀ b, b ∈ touched ↔ covered count.toNat after b = true

/-- A process that opened a disk, served requests, saved, and served more requests with
its journal open to the end. -/
theorem left_of_process {first : ScsiDisk count} (backed : Backed first) (quiet : first.regs = {})
    (known : (first.world path name).Coherent opened)
    (clean : first.timeline.dirty.entries = []) (whole : first.timeline.Whole)
    (before after : List GuestWrite) (landed : Option Nat)
    (journalling : (((first.guestWrites before).save landed).guestWrites after).timeline.journal =
      true) :
    Left before after (first.guestWrites before)
      (((first.guestWrites before).save landed).guestWrites after) path name := by
  obtain ⟨savedBacked, savedShape, ops, world, keys⟩ := backed.guestWrites path name before
  generalize first.guestWrites before = saved at savedBacked savedShape world journalling ⊢
  have coherent : (saved.world path name).Coherent opened := world ▸ known.writes ops
  have savedWhole : (saved.world path name).timeline.Whole :=
    world ▸ World.whole_writes whole ops
  have logged : ∀ b, b ∈ saved.timeline.dirtyList ↔ covered count.toNat before b = true := by
    intro b
    have members := known.mem_dirtyList_writes ops b
    rw [← world] at members
    have none : b ∉ (first.world path name).timeline.dirtyList := by
      rw [Timeline.dirtyList, ScsiDisk.world, clean]
      exact List.not_mem_nil
    exact (members.trans (or_iff_right none)).trans (keys b)
  have savedAgain : (saved.save landed).world path name =
      (saved.world path name).step (.save landed) := rfl
  obtain ⟨leftBacked, leftShape, ops', world', keys'⟩ :=
    (savedBacked.save landed).guestWrites path name after
  have stillOpen : (((saved.save landed).world path name).writes ops').timeline.journal = true := by
    rwa [← world']
  have recording := (World.recording_save coherent savedWhole
    (World.journal_of_writes stillOpen)).writes stillOpen
  rw [List.nil_append, ← savedAgain, ← world'] at recording
  exact ⟨savedBacked, leftBacked,
    ⟨leftShape.blocks, leftShape.hfsPrefixBlocks, leftShape.regs, leftShape.length, leftShape.tail⟩,
    savedShape.regs.trans quiet, saved.timeline.dirty.distinct, logged, coherent.chunk_eq,
    ops'.map BlockWrite.lba, recording, keys'⟩

/-! ## The next process -/

section Next

variable {before after : List GuestWrite} {saved left : ScsiDisk count} {host : ScsiHost}
  {journal : JournalHost}

/-- The next process sees the image it left behind the prefix. -/
theorem Left.drop_next (known : Left before after saved left path name)
    (leftOn : left.writeBack = true)
    (on : (openAs count host true left.file left.timeline.file journal).writeBack = true)
    (same : (openAs count host true left.file left.timeline.file journal).hfsPrefixBlocks =
      saved.hfsPrefixBlocks) :
    (openAs count host true left.file left.timeline.file journal).image.length =
        left.image.length ∧
      (openAs count host true left.file left.timeline.file journal).image.drop
          (saved.hfsPrefixBlocks.toNat * sectorSize) =
        left.image.drop (saved.hfsPrefixBlocks.toNat * sectorSize) := by
  have kept := (of_writeBack on).1
  obtain ⟨_, length, behind⟩ := serve_eq kept host.candidates
  have number := hfsPrefixBlocks_openAs count host left.timeline.file journal kept
  rw [same] at number
  have mirror := known.backed.mirror leftOn
  rw [known.shape.hfsPrefixBlocks] at mirror
  have room := le_trans (Nat.mul_le_mul_right sectorSize known.savedBacked.behind)
    known.backed.room
  rw [← number] at length behind
  refine ⟨?_, behind.trans mirror.symm⟩
  have size := congrArg List.length mirror
  rw [List.length_drop] at size
  refine length.trans ?_
  omega

variable {img img' : List Byte}

/-- Disks of one shape have the same image if they have the same blocks. -/
theorem image_eq_iff (count : BitVec 32) (room : count.toNat * sectorSize ≤ img.length)
    (size : img.length = img'.length)
    (tail : img.drop (count.toNat * sectorSize) = img'.drop (count.toNat * sectorSize)) :
    img = img' ↔ sectorsOf count img = sectorsOf count img' := by
  refine ⟨fun same => same ▸ rfl, fun same => ?_⟩
  have slices : ∀ k, k < count.toNat → slice sectorSize 0#8 img k = slice sectorSize 0#8 img' k :=
    fun k inside => congrArg Subtype.val (congrFun same ⟨k, inside⟩)
  rw [Nat.mul_comm] at room tail
  exact eq_of_slices (by decide) size room slices tail

theorem drop_of_drop {n n' : Nat} (inside : n ≤ n')
    (same : img.drop n = img'.drop n) : img.drop n' = img'.drop n' := by
  obtain ⟨k, rfl⟩ := Nat.exists_eq_add_of_le inside
  rw [← List.drop_drop, same, List.drop_drop]

theorem sector_of_drop {n b : Nat} (behind : n ≤ b)
    (same : img.drop (n * sectorSize) = img'.drop (n * sectorSize)) :
    sector img b = sector img' b := by
  have later := drop_of_drop (Nat.mul_le_mul_right sectorSize behind) same
  rw [Nat.mul_comm] at later
  exact Subtype.ext (congrArg (List.takeD sectorSize · 0#8) later)

/-- An image with the blocks some requests reach taken from another one. -/
def withBlocksOf (count : BitVec 32) (ops : List GuestWrite) (saved reopened : List Byte) :
    Image (sectors count) :=
  fun b => if covered count.toNat ops b then sector saved b else sector reopened b

/-- The first candidate of a load in the next process. -/
theorem Left.overlay_eq (known : Left before after saved left path name) (reopened : List Byte) :
    overlay (saved.timeline.dirtyList.map fun b => (b, sectorsOf count saved.image b))
      (sectorsOf count reopened) = withBlocksOf count before saved.image reopened := by
  rw [overlay_graph known.order]
  funext b
  exact if_congr (known.logged b) rfl rfl

theorem withBlocksOf_eq_iff {ops : List GuestWrite} {saved reopened : List Byte} :
    withBlocksOf count ops saved reopened = sectorsOf count saved ↔
      ∀ b < count.toNat, covered count.toNat ops b = false →
        sector reopened b = sector saved b := by
  constructor
  · intro same b inside outside
    have block := congrFun same ⟨b, inside⟩
    exact (if_neg (Bool.eq_false_iff.mp outside)).symm.trans block
  · intro untouched
    funext b
    by_cases inside : covered count.toNat ops b = true
    · exact if_pos inside
    · exact (if_neg inside).trans (untouched b b.isLt (Bool.eq_false_iff.mpr inside))

/-- One of the two candidates leads back to a saved image: the blocks of the state, or, when
these miss its digest, the journal, which has only the blocks written after the save. -/
def Returns (count : BitVec 32) (before after : List GuestWrite) (prefixBlocks : Nat)
    (saved reopened : List Byte) : Prop :=
  (∀ b < count.toNat, covered count.toNat before b = false →
      sector reopened b = sector saved b) ∨
    (imageDigest (withBlocksOf count before saved reopened) ≠ imageDigest (sectorsOf count saved) ∧
      ∀ b < prefixBlocks, covered count.toNat after b = false → sector reopened b = sector saved b)

/-- When a state is restored by a process that opens the disk with the same prefix. -/
theorem Left.restore_iff (known : Left before after saved left path name)
    (leftOn : left.writeBack = true)
    (on : (openAs count host true left.file left.timeline.file journal).writeBack = true)
    (size : count.toNat = (serve host.candidates left.file).1.length / sectorSize)
    (same : (openAs count host true left.file left.timeline.file journal).hfsPrefixBlocks =
      saved.hfsPrefixBlocks)
    (journalled : host.journalPath ≠ "") (opens : journal.opens = true)
    (fits : ∀ bytes, left.timeline.file = some bytes → bytes.length ≤ 256 * 2 ^ 20)
    (replay : StoreHost) :
    let next := openAs count host true left.file left.timeline.file journal
    let restored := next.load ⟨saved.state, true, ""⟩ replay
    restored.2.ok = true ∧ restored.1.image = saved.image ↔
      Returns count before after saved.hfsPrefixBlocks.toNat saved.image next.image := by
  intro next restored
  obtain ⟨touched, recording, touchedKeys⟩ := known.recording
  obtain ⟨length, behind⟩ := known.drop_next leftOn on same
  have shape := known.shape
  have world := world_openAs on
  -- the timeline of the next process: an empty log, and the journal that was left
  obtain ⟨m, candidate, lands⟩ := recording.candidate_reopened journalled host.name
    (sectorsOf count next.image) opens fits
  obtain ⟨coherent, clean, _⟩ := timeline_openAs on
  have core := coherent.restore_reopened clean known.order (world ▸ candidate) [] ""
    fun b => replay.journal b
  rw [List.append_nil, ← known.chunk] at core
  -- the load of the disk is the restore of its blocks
  have playing : saved.regs.audioFrac.toNat < 1000000 := by
    rw [known.quiet]
    decide
  have nextBacked := backed_openAs on size
  have resumedBacked : Backed (next.resumed saved) :=
    ⟨known.savedBacked.blocks, nextBacked.attached, nextBacked.room, known.savedBacked.behind,
      fun back => same ▸ nextBacked.mirror back⟩
  obtain ⟨restoredShape, restoredWorld⟩ := resumedBacked.applyLoaded host.journalPath host.name
    ⟨saved.timeline.chunk (sectorsOf count saved.image), true, ""⟩ replay
  have loaded : restored = _ := next.load_state playing "" replay
  have tail := drop_of_drop (Nat.mul_le_mul_right sectorSize known.savedBacked.behind) behind
  have image : restored.1.image = saved.image ↔
      ((next.world host.journalPath host.name).restore
        ⟨saved.timeline.chunk (sectorsOf count saved.image), true, ""⟩
          fun b => replay.journal b).image = sectorsOf count saved.image := by
    rw [loaded]
    refine (image_eq_iff count ?_ ?_ ?_).trans ?_
    · exact restoredShape.length.symm ▸ nextBacked.room
    · exact restoredShape.length.trans (length.trans shape.length)
    · exact restoredShape.tail.trans (tail.trans shape.tail)
    · exact Eq.congr_left (congrArg World.image restoredWorld)
  have second : overlay m (sectorsOf count next.image) = sectorsOf count saved.image ↔
      ∀ b < saved.hfsPrefixBlocks.toNat, covered count.toNat after b = false →
        sector next.image b = sector saved.image b := by
    refine lands.trans ⟨fun outside b low uncovered => ?_, fun outside b untouched => ?_⟩
    · have inside := lt_of_lt_of_le low known.savedBacked.behind
      refine outside ⟨b, inside⟩ fun there => ?_
      cases uncovered.symm.trans ((touchedKeys ⟨b, inside⟩).mp there)
    · have uncovered : covered count.toNat after b = false :=
        Bool.eq_false_iff.mpr fun there => untouched ((touchedKeys b).mpr there)
      by_cases low : b.val < saved.hfsPrefixBlocks.toNat
      · exact outside b low uncovered
      · exact (sector_of_drop (Nat.not_lt.mp low) behind).trans (recording.untouched untouched)
  rwa [Returns, image, ← withBlocksOf_eq_iff, ← second, ← known.overlay_eq, loaded]

/-- A process that opens the disk with another number of blocks refuses the state. -/
theorem Left.refused (known : Left before after saved left path name) {next : ScsiDisk count'}
    (attached : next.timeline.attached = true) (other : count' ≠ count) (replay : StoreHost) :
    (next.load ⟨saved.state, true, ""⟩ replay).2.ok = false := by
  have playing : saved.regs.audioFrac.toNat < 1000000 := by
    rw [known.quiet]
    decide
  have sizes : (sectors count).blocks ≠ (sectors count').blocks :=
    fun same => other (BitVec.eq_of_toNat_eq same.symm)
  have refused := Timeline.load_otherSize attached (sectorsOf count' next.image)
    (sectorsOf count saved.image) saved.timeline.dirtyList [] "" sizes
  rw [next.load_state playing, known.chunk]
  rwa [List.append_nil] at refused

end Next

/-- The number of blocks of a disk that is served with its file. -/
theorem toNat_countOf {file : List Byte} (kept : unwrapDriverless512Dump file = none)
    (candidates : List (Option (List Byte)))
    (small : file.length / sectorSize + facadePrefixBlocks < 2 ^ 32) :
    (countOf (serve candidates file).1).toNat = (serve candidates file).1.length / sectorSize ∧
      (serve candidates file).1.length / sectorSize =
        (serve candidates file).2 + file.length / sectorSize := by
  obtain ⟨either, length, _⟩ := serve_eq kept candidates
  have blocks : (serve candidates file).1.length / sectorSize =
      (serve candidates file).2 + file.length / sectorSize := by
    rw [length, Nat.add_comm, Nat.add_mul_div_right _ _ (by decide), Nat.add_comm]
  refine ⟨Nat.mod_eq_of_lt ?_, blocks⟩
  omega

section

variable {before after : List GuestWrite} {saved left : ScsiDisk count}
  (known : Left before after saved left path name)
include known

/-- The file of a disk that was left has the bytes behind the prefix. -/
theorem Left.length_file (leftOn : left.writeBack = true)
    (size : Nat) (length : left.image.length = saved.hfsPrefixBlocks.toNat * sectorSize + size) :
    left.file.length = size := by
  have mirror := known.backed.mirror leftOn
  rw [← mirror, List.length_drop, known.shape.hfsPrefixBlocks, length, Nat.add_sub_cancel_left]

/-- When a state is restored by the next process. -/
theorem Left.restore_next
    {host : ScsiHost} {journal : JournalHost} (leftOn : left.writeBack = true)
    (blocks : count.toNat = saved.hfsPrefixBlocks.toNat + left.file.length / sectorSize)
    (size : count'.toNat = (serve host.candidates left.file).1.length / sectorSize)
    (sum : (serve host.candidates left.file).1.length / sectorSize =
      (serve host.candidates left.file).2 + left.file.length / sectorSize)
    (on : (openAs count' host true left.file left.timeline.file journal).writeBack = true)
    (journalled : host.journalPath ≠ "") (opens : journal.opens = true)
    (fits : ∀ bytes, left.timeline.file = some bytes → bytes.length ≤ 256 * 2 ^ 20)
    (replay : StoreHost) :
    let next := openAs count' host true left.file left.timeline.file journal
    let restored := next.load ⟨saved.state, true, ""⟩ replay
    restored.2.ok = true ∧ restored.1.image = saved.image ↔
      next.hfsPrefixBlocks = saved.hfsPrefixBlocks ∧
        Returns count before after saved.hfsPrefixBlocks.toNat saved.image next.image := by
  have number := hfsPrefixBlocks_openAs count' host left.timeline.file journal (of_writeBack on).1
  by_cases same : (openAs count' host true left.file left.timeline.file journal).hfsPrefixBlocks =
      saved.hfsPrefixBlocks
  · -- the disk is opened with the number of blocks of the state
    obtain rfl : count' = count := by
      have prefixes := congrArg BitVec.toNat same
      exact BitVec.eq_of_toNat_eq (by omega)
    exact Iff.trans (known.restore_iff leftOn on size same journalled opens fits replay)
      (and_iff_right same).symm
  · have other : count' ≠ count := by
      rintro rfl
      exact same (BitVec.eq_of_toNat_eq (by omega))
    have refused := known.refused (backed_openAs on size).attached other replay
    exact iff_of_false (fun accepted => Bool.false_ne_true (refused.symm.trans accepted.1))
      fun condition => same condition.1

end

/-- When a state of a disk that was opened is restored by the next process. -/
theorem restored_iff {host host' : ScsiHost} {file : List Byte} {undo : Option (List Byte)}
    {journal journal' : JournalHost} (before after : List GuestWrite) (landed : Option Nat)
    (replay : StoreHost) (small : file.length / sectorSize + facadePrefixBlocks < 2 ^ 32) :
    let first := openImage host true file undo journal
    let saved := first.guestWrites before
    let left := (saved.save landed).guestWrites after
    let next := openImage host' true left.file left.timeline.file journal'
    let restored := next.load ⟨saved.state, true, ""⟩ replay
    first.writeBack = true → left.writeBack = true → left.timeline.journal = true →
    next.writeBack = true → host'.journalPath ≠ "" → journal'.opens = true →
    (∀ bytes ∈ left.timeline.file, bytes.length ≤ 256 * 2 ^ 20) →
    (restored.2.ok = true ∧ restored.1.image = saved.image ↔
      next.hfsPrefixBlocks = saved.hfsPrefixBlocks ∧
        Returns (countOf (serve host.candidates file).1) before after saved.hfsPrefixBlocks.toNat
          saved.image next.image) := by
  dsimp only [openImage]
  intro firstOn leftOn journalling on journalled opens fits
  have kept := (of_writeBack firstOn).1
  obtain ⟨size, sum⟩ := toNat_countOf kept host.candidates small
  have length := (serve_eq kept host.candidates).2.1
  have number := hfsPrefixBlocks_openAs (countOf (serve host.candidates file).1) host undo journal
    kept
  have backed := backed_openAs firstOn size
  obtain ⟨coherent, clean, whole⟩ := timeline_openAs firstOn
  have known := left_of_process backed rfl coherent clean whole before after landed journalling
  have shape := (backed.guestWrites host.journalPath host.name before).2.1
  have fileSize := known.length_file leftOn file.length (by
    rwa [known.shape.length, shape.length, shape.hfsPrefixBlocks, number])
  have kept' := (of_writeBack on).1
  obtain ⟨size', sum'⟩ := toNat_countOf kept' host'.candidates (by rwa [fileSize])
  refine known.restore_next leftOn ?_ size' sum' on journalled opens fits replay
  rw [fileSize, size, sum, shape.hfsPrefixBlocks, number]

/-- A write-back disk is opened, served with requests, saved, and served with more requests
to the end of the process, with every write to the file and to the journal done. Another
process opens the file with write-back and the whole journal, and loads the state.

The state is accepted with the image of the save exactly if the prefix in front of the
file has the same size again and one of the two candidates gets there: the blocks written
before the save are the only ones in which the reopened image differs from the saved one;
or they do not lead to the digest of the state, and every block of the prefix that was not
written after the save is synthesised with its saved content. -/
theorem cross_process_restore (host host' : ScsiHost) (file : List Byte)
    (undo : Option (List Byte)) (journal journal' : JournalHost) (before after : List GuestWrite)
    (landed : Option Nat) (replay : StoreHost)
    (small : file.length / sectorSize + facadePrefixBlocks < 2 ^ 32) :
    let blocks := countOf (serve host.candidates file).1
    let first := openImage host true file undo journal
    let saved := first.guestWrites before
    let left := (saved.save landed).guestWrites after
    let next := openImage host' true left.file left.timeline.file journal'
    let restored := next.load ⟨saved.state, true, ""⟩ replay
    first.writeBack = true → left.writeBack = true → left.timeline.journal = true →
    next.writeBack = true → host'.journalPath ≠ "" → journal'.opens = true →
    (∀ bytes ∈ left.timeline.file, bytes.length ≤ 256 * 2 ^ 20) →
    (restored.2.ok = true ∧ restored.1.image = saved.image ↔
      next.hfsPrefixBlocks = saved.hfsPrefixBlocks ∧
        ((∀ b < blocks.toNat, covered blocks.toNat before b = false →
            sector next.image b = sector saved.image b) ∨
          (imageDigest (withBlocksOf blocks before saved.image next.image) ≠
              imageDigest (sectorsOf blocks saved.image) ∧
            ∀ b < saved.hfsPrefixBlocks.toNat, covered blocks.toNat after b = false →
              sector next.image b = sector saved.image b))) :=
  restored_iff before after landed replay small

/-! ## A volume behind a prefix -/

theorem byte_of_sector {img img' : List Byte} {b : Nat} (same : sector img b = sector img' b) :
    img[sectorSize * b]?.getD 0#8 = img'[sectorSize * b]?.getD 0#8 := by
  have first := congrArg (·.1[0]?) same
  change (slice _ _ _ _)[0]? = (slice _ _ _ _)[0]? at first
  rw [getElem?_slice (by decide), getElem?_slice (by decide)] at first
  exact Option.some.inj first

theorem Backed.byte_behind (backed : Backed d) (on : d.writeBack = true)
    (low : d.hfsPrefixBlocks.toNat = 96) : d.image[sectorSize * 97]? = d.file[sectorSize]? := by
  rw [← backed.mirror on, List.getElem?_drop, low]
  rfl

namespace Sample

/-- A request that fills a block. -/
def fill (lba : Nat) : GuestWrite :=
  { lba := lba, length := 1, data := List.replicate sectorSize 0x41#8 }

/-- A template disk without drivers and partitions, and a bare volume of two blocks. -/
def template : List Byte :=
  [0x45#8, 0x52#8] ++ List.replicate (facadePrefixBlocks * sectorSize - 2) 0#8

def facade : ScsiHost :=
  { candidates := [some template], journalPath := "hfs.dsk.pomundo", name := "SCSI hfs.dsk" }

def bare : List Byte := [0x4C#8, 0x4B#8] ++ List.replicate (2 * sectorSize - 2) 0#8

def head : List Byte :=
  putBe32 (template.take (facadePrefixBlocks * sectorSize)) 4 (facadePrefixBlocks + 2)

/-- A volume after the second of its blocks was written. -/
def written (file : List Byte) : List Byte :=
  overwrite file ((97 - 96) * sectorSize)
    (((fill 97).data.take sectorSize).drop ((96 - 97) * sectorSize))

section

variable {host : ScsiHost} {head file : List Byte}

/-- A volume of two blocks that is served behind a prefix. -/
structure Served (host : ScsiHost) (head file : List Byte) : Prop where
  kept : unwrapDriverless512Dump file = none
  two : file.length = 2 * sectorSize
  serve : serve host.candidates file = (head ++ file, facadePrefixBlocks)
  writable : host.writable = true

theorem Served.open (served : Served host head file) (undo : Option (List Byte)) :
    (countOf (ScsiDisk.serve host.candidates file).1).toNat = 98 ∧
      (openImage host true file undo {}).writeBack = true ∧
      (openImage host true file undo {}).hfsPrefixBlocks.toNat = 96 ∧
      Backed (openImage host true file undo {}) := by
  obtain ⟨size, sum⟩ := toNat_countOf served.kept host.candidates (by rw [served.two]; decide)
  have count : (countOf (ScsiDisk.serve host.candidates file).1).toNat = 98 := by
    rw [size, sum, served.serve, served.two]
    rfl
  have on : (openImage host true file undo {}).writeBack = true := by
    rw [openImage, writeBack_openAs, served.kept, served.writable, decide_eq_true]
    · rfl
    · intro none
      rw [none] at count
      cases count
  exact ⟨count, on, congrArg (fun r : List Byte × Nat => (BitVec.ofNat 32 r.2).toNat) served.serve,
    backed_openAs on size⟩

theorem stored_fill (lba : Nat) (backed : Backed d) (on : d.writeBack = true)
    (inside : lba + 1 ≤ count.toNat) :
    Stored d lba sectorSize (fill lba).data {} (d.guestWrites [fill lba]) ∧
      (d.guestWrites [fill lba]).writeBack = true := by
  have spec := store_spec backed.attached lba 1 (fill lba).data {}
  have stored : d.guestWrites [fill lba] = d.store lba 1 (fill lba).data {} :=
    if_pos (by rwa [backed.blocks])
  rw [backed.writable_eq inside, fill, List.length_replicate, Nat.one_mul] at spec
  rw [stored, writeBack_store _ rfl]
  exact ⟨spec, on⟩

/-- The journal behind a write, a save and another write. -/
theorem journal_written {g : Geometry} (inside : 97 < g.blocks) (small : g.blockSize = 512)
    {path : String} (journalled : path ≠ "") (name : String) (image saved : Image g)
    (cur next cur' next' : Block g.blockSize) :
    let t := (((({ file := none } : Timeline g).attach image path name {}).willWrite 1 cur next
      none).save saved none).willWrite 97 cur' next' none
    t.journal = true ∧ ∀ bytes ∈ t.file, bytes.length ≤ 256 * 2 ^ 20 := by
  have low : 1 < g.blocks := by omega
  simp [inside, low, small, journalled, cur.2, cur'.2, headerSize, Timeline.attach,
    Timeline.detach, Timeline.openJournal, Timeline.newJournal, Timeline.willWrite,
    Timeline.logWrite, Timeline.recordOld, Timeline.append, Timeline.save, Timeline.journalEpoch,
    Timeline.freshen, Record.bytes]

/-- A block of the prefix is written before the save, the last block of the volume after it:
all of it is done, and the next process finds the volume behind the same prefix. -/
theorem Served.session (served : Served host head file) (served' : Served host head (written file))
    (journalled : host.journalPath ≠ "") :
    let first := openImage host true file none {}
    let saved := first.guestWrites [fill 1]
    let left := (saved.save none).guestWrites [fill 97]
    let next := openImage host true left.file left.timeline.file {}
    (first.writeBack = true ∧ left.writeBack = true ∧ left.timeline.journal = true ∧
      next.writeBack = true ∧ ∀ bytes ∈ left.timeline.file, bytes.length ≤ 256 * 2 ^ 20) ∧
    saved.hfsPrefixBlocks.toNat = 96 ∧ next.hfsPrefixBlocks = saved.hfsPrefixBlocks ∧
    saved.image = overwrite (head ++ file) (1 * sectorSize) ((fill 1).data.take sectorSize) ∧
    next.image = head ++ written file ∧
    saved.image[sectorSize * 97]? = file[sectorSize]? ∧
    next.image[sectorSize * 97]? = (written file)[sectorSize]? := by
  obtain ⟨count, firstOn, low, backed⟩ := served.open none
  have opened : (openImage host true file none {}).timeline = _ :=
    congrArg World.timeline (world_openAs firstOn)
  have shown : (openImage host true file none {}).image = _ := congrArg Prod.fst served.serve
  have source : (openImage host true file none {}).file = file := rfl
  generalize openImage host true file none {} = first at *
  obtain ⟨stored, on⟩ := stored_fill 1 backed firstOn (by omega)
  have backed' := (backed.guestWrites "" "" [fill 1]).1
  dsimp only
  generalize first.guestWrites [fill 1] = saved at *
  obtain ⟨stored', leftOn⟩ := stored_fill 97 (backed'.save none) on (by omega)
  generalize (saved.save none).guestWrites [fill 97] = left at *
  obtain ⟨journalling, fits⟩ : left.timeline.journal = true ∧
      ∀ bytes ∈ left.timeline.file, bytes.length ≤ 256 * 2 ^ 20 := by
    rw [stored'.timeline, logRequest, save, stored.timeline, logRequest, opened]
    exact journal_written (by change 97 < BitVec.toNat _; omega) rfl journalled ..
  have low' : saved.hfsPrefixBlocks.toNat = 96 := stored.hfsPrefixBlocks ▸ low
  have old : saved.file = file := by
    rw [(stored.mirrored on).2, low, if_pos (by decide), source]
  have new : left.file = written file := by
    rw [(stored'.mirrored leftOn).2, save, low', if_neg (by decide), old, written]
  rw [← new] at served' ⊢
  obtain ⟨-, nextOn, low'', backed''⟩ := served'.open left.timeline.file
  exact ⟨⟨firstOn, leftOn, journalling, nextOn, fits⟩, low',
    BitVec.eq_of_toNat_eq (low''.trans low'.symm), stored.image.trans (shown ▸ rfl),
    congrArg Prod.fst served'.serve,
    (backed'.byte_behind on low').trans (congrArg (·[sectorSize]?) old),
    backed''.byte_behind nextOn low''⟩

end

theorem findDdmTemplate_one {template head : List Byte}
    (loads : loadTemplateHead template = some head) :
    findDdmTemplate [some template] = some head := by
  rw [findDdmTemplate, List.findSome?_cons, Option.bind_some, loads]

theorem served {file : List Byte} (boot : marked file 0 0x4C#8 0x4B#8 = true)
    (two : file.length = 2 * sectorSize) : Served facade head file := by
  have kept : unwrapDriverless512Dump file = none := if_pos (.inl (by rw [two]; decide))
  have bare : looksBareHfs file = true := by
    rw [looksBareHfs, boot, two]
    rfl
  have long : facadePrefixBlocks * sectorSize ≤ template.length := by
    rw [template, List.length_append, List.length_replicate]
    decide
  have drivers : be16 head 0x10 = 0 := by decide +kernel
  have unmapped : marked head (1 * sectorSize) 0x50#8 0x4D#8 = false := by decide +kernel
  have found : findDdmTemplate facade.candidates = _ := findDdmTemplate_one (if_pos ⟨long, rfl⟩)
  refine ⟨kept, two, ?_, rfl⟩
  rw [serve, kept, Option.getD_none, flatHfsPrefix, if_pos ⟨bare, by rw [two]; rfl⟩, found,
    Option.map_some, two, Nat.mul_div_cancel 2 (by decide), facadeHead, ← head, addDriverEntry,
    if_neg (fun entry => absurd entry.2.1 (by decide)), patchPartitions,
    if_pos (.inr unmapped)]

theorem served_bare : Served facade head bare := served (by decide +kernel) (by decide +kernel)

theorem served_written : Served facade head (written bare) :=
  served (by decide +kernel) (by decide +kernel)

end Sample

/-- The second block of a volume is written after the save with what it has. The blocks of the
state are then the only ones in which the images differ. -/
theorem cross_process_restore_facade :
    let file := Sample.written Sample.bare
    let saved := (openImage Sample.facade true file none {}).guestWrites [Sample.fill 1]
    let left := (saved.save none).guestWrites [Sample.fill 97]
    let next := openImage Sample.facade true left.file left.timeline.file {}
    let restored := next.load ⟨saved.state, true, ""⟩ {}
    saved.hfsPrefixBlocks.toNat = 96 ∧ restored.2.ok = true ∧
      restored.1.image = saved.image := by
  have again : Sample.written (Sample.written Sample.bare) = Sample.written Sample.bare := by
    decide +kernel
  have served := Sample.served_written
  generalize Sample.written Sample.bare = file at *
  have room : (1 + blocksFor sectorSize) * sectorSize ≤ (Sample.head ++ file).length := by
    rw [List.length_append, served.two]
    exact Nat.le_add_left_of_le (by decide)
  obtain ⟨⟨firstOn, leftOn, journalling, nextOn, fits⟩, low, same, image, image', -⟩ :=
    served.session (again.symm ▸ served) (by decide)
  refine ⟨low, (cross_process_restore Sample.facade Sample.facade file none {} {} [Sample.fill 1]
    [Sample.fill 97] none {} (by rw [served.two]; decide) firstOn leftOn journalling nextOn
    (by decide) rfl fits).mpr ⟨same, .inl fun b _ uncovered => ?_⟩⟩
  rw [image, image', again, sector_overwrite (by decide +kernel) room, if_neg]
  rintro ⟨here, there⟩
  obtain rfl : b = 1 := Nat.le_antisymm (Nat.le_of_lt_succ there) here
  rw [(served.open none).1] at uncovered
  exact absurd uncovered (by decide +kernel)

/-- A bare volume of two blocks is opened, a block of its prefix is written, the state is
saved, and the second block of the volume is written. Nothing fails, and the next process
finds the file and the journal, but the state is not restored: the blocks of the state miss
the later write, and the journal misses the block of the prefix. -/
theorem facade_prefix_not_restored :
    let first := openImage Sample.facade true Sample.bare none {}
    let saved := first.guestWrites [Sample.fill 1]
    let left := (saved.save none).guestWrites [Sample.fill 97]
    let next := openImage Sample.facade true left.file left.timeline.file {}
    let restored := next.load ⟨saved.state, true, ""⟩ {}
    first.writeBack = true ∧ left.writeBack = true ∧ left.timeline.journal = true ∧
      next.writeBack = true ∧ (∀ bytes ∈ left.timeline.file, bytes.length ≤ 256 * 2 ^ 20) ∧
      ¬ (restored.2.ok = true ∧ restored.1.image = saved.image) := by
  obtain ⟨⟨firstOn, leftOn, journalling, nextOn, fits⟩, low, -, image, image', byte, byte'⟩ :=
    Sample.served_bare.session Sample.served_written (by decide)
  obtain ⟨count, -⟩ := Sample.served_bare.open none
  refine ⟨firstOn, leftOn, journalling, nextOn, fits, fun accepted => ?_⟩
  obtain ⟨-, untouched | ⟨-, untouched⟩⟩ :=
    (restored_iff [Sample.fill 1] [Sample.fill 97] none {} (by decide +kernel) firstOn leftOn
      journalling nextOn (by decide) rfl fits).mp accepted
  · have lost := byte_of_sector (untouched 97 (by omega) (by rw [count]; decide +kernel))
    rw [byte, byte'] at lost
    exact absurd lost (by decide +kernel)
  · have unlogged := byte_of_sector
      (untouched 1 (by rw [low]; decide) (by rw [count]; decide +kernel))
    rw [image, image'] at unlogged
    exact absurd unlogged (by decide +kernel)

end ScsiDisk

end Pom68k.Disk
