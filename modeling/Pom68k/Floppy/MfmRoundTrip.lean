import Pom68k.Floppy.MfmSectors

/-! # MFM tracks are read back

The track that a drive lays out from an image of high density is read by the decoder of a
write as just the sectors it was laid out from.
-/

namespace Pom68k.Floppy

open Foundation

namespace SonyDrive

/-! ## A turn of the track -/

theorem length_mfmCells (last : Bool) (v : BitVec 16) : (mfmCells last v).2.length = 16 := by
  rw [mfmCells]
  split_ifs
  · exact length_msbFirst _
  · have each (last : Bool) (bits : List Bool) :
        (feed clocked last bits).2.length = 2 * bits.length := by
      induction bits generalizing last with
      | nil => rfl
      | cons bit rest ih =>
        rw [feed, List.length_append, ih, List.length_cons, Nat.add_comm]
        rfl
    rw [each, length_msbFirst]

theorem length_feed_mfmCells (last : Bool) (items : List (BitVec 16)) :
    (feed mfmCells last items).2.length = 16 * items.length := by
  induction items generalizing last with
  | nil => rfl
  | cons v rest ih =>
    rw [feed, List.length_append, length_mfmCells, ih, List.length_cons]
    omega

/-- Behind a byte of the gap the coder is where it began. -/
theorem feed_gap (last : Bool) (items : List (BitVec 16)) (n : Nat) :
    (feed mfmCells last (items ++ gap (n + 1) 0x4E#8)).1 = false ∧
      (feed mfmCells last (items ++ gap (n + 1) 0x4E#8)).2.getLastD false = false := by
  have each : ∀ last : Bool, (mfmCells last 0x4E#16).1 = false ∧
      (mfmCells last 0x4E#16).2.getLast? = some false := by decide
  have split : items ++ gap (n + 1) 0x4E#8 = items ++ gap n 0x4E#8 ++ [0x4E#16] := by
    rw [List.append_assoc, gap, gap, plain, plain, List.map_replicate, List.map_replicate,
      List.replicate_succ']
    rfl
  obtain ⟨state, cell⟩ := each (feed mfmCells last (items ++ gap n 0x4E#8)).1
  rw [split, feed_append, feed, feed]
  refine ⟨state, ?_⟩
  rw [List.append_nil, List.getLastD_eq_getLast?, List.getLast?_append]
  rfl

/-- The bytes of a turn, with the gap that fills it up. -/
def turn (d : SonyDrive) : List (BitVec 16) :=
  gap 80 0x4E#8 ++ (List.range 18).flatMap d.sectorMfm ++ gap 316 0x4E#8

variable (d : SonyDrive)

theorem length_sectorMfm (sector : Nat) : (d.sectorMfm sector).length = 658 := by
  simp only [sectorMfm, fieldMfm, gap, plain, marksA1, addressMfm, crcBytes, List.length_append,
    List.length_map, List.length_replicate, List.length_cons, List.length_nil, length_sectorData]

theorem length_encodeTrackMfm : d.encodeTrackMfm.length = 12124 := by
  have sectors : ((List.range 18).flatMap d.sectorMfm).length = 11844 := by
    rw [List.length_flatMap]
    simp only [length_sectorMfm]
    rfl
  rw [encodeTrackMfm, List.length_append, List.length_append, sectors]
  rfl

theorem gap_add (m n : Nat) (fill : Byte) : gap (m + n) fill = gap m fill ++ gap n fill := by
  rw [gap, List.replicate_add, plain, List.map_append]
  rfl

theorem turn_encodeTrackMfm : d.turn = d.encodeTrackMfm ++ gap 116 0x4E#8 := by
  rw [turn, encodeTrackMfm, show 316 = 200 + 116 from rfl, gap_add, ← List.append_assoc]

theorem length_turn : d.turn.length = 12240 := by
  rw [turn_encodeTrackMfm, List.length_append, length_encodeTrackMfm]
  rfl

/-- The padding of a track is a gap. -/
theorem padded_turn :
    padFormattedTrack (feed mfmCells false d.encodeTrackMfm).2 195840 true =
      (feed mfmCells false d.turn).2 := by
  obtain ⟨state, cell⟩ := feed_gap false
    (gap 80 0x4E#8 ++ (List.range 18).flatMap d.sectorMfm) 199
  rw [show gap 80 0x4E#8 ++ (List.range 18).flatMap d.sectorMfm ++ gap (199 + 1) 0x4E#8 =
    d.encodeTrackMfm from rfl] at state cell
  have room : 195840 - (feed mfmCells false d.encodeTrackMfm).2.length = 1856 := by
    rw [length_feed_mfmCells, length_encodeTrackMfm]
  have cut : (feed mfmCells false (gap 117 0x4E#8)).2.take 1856 =
      (feed mfmCells false (gap 116 0x4E#8)).2 := by
    rw [show 117 = 116 + 1 from rfl, gap_add, feed_append]
    exact List.take_left' (length_feed_mfmCells _ _)
  rw [padFormattedTrack, room, if_pos rfl, cell, turn_encodeTrackMfm, feed_append, state]
  dsimp only
  rw [cut]

/-! ## Two turns of the track -/

/-- A reader that is out of step stays so in a gap. -/
theorem feed_hunting (n : Nat) :
    (feed mfmCells false (gap n 0x4E#8)).1 = false ∧
      feed readMfm {} (unspliced (feed mfmCells false (gap n 0x4E#8)).2) = ({}, []) := by
  have coder : (mfmCells false 0x4E#16).1 = false := by decide
  have reader : feed readMfm {} (unspliced (mfmCells false 0x4E#16).2) = ({}, []) := by decide
  induction n with
  | zero => exact ⟨rfl, rfl⟩
  | succ n ih =>
    have split : gap (n + 1) 0x4E#8 = 0x4E#16 :: gap n 0x4E#8 := rfl
    rw [split, feed, coder]
    rw [unspliced_append, feed_append, reader]
    rw [ih.2]
    exact ⟨ih.1, rfl⟩

/-- What the reader needs to fall in step: zeros and a mark. -/
def lead : List (BitVec 16) := gap 12 0x00#8 ++ [kMark ||| 0xA1#16]

theorem feed_lead :
    let r := feed readMfm {} (unspliced (feed mfmCells false lead).2)
    InStep r.1 0xCDB4#16 ∧ r.2 = [⟨0xA1#8, true, false⟩] := by
  have concrete : (feed readMfm {} (unspliced (feed mfmCells false lead).2)).1.sync = 80 ∧
      (feed readMfm {} (unspliced (feed mfmCells false lead).2)).1.crc = 0xCDB4#16 ∧
      (feed readMfm {} (unspliced (feed mfmCells false lead).2)).2 = [⟨0xA1#8, true, false⟩] := by
    decide +kernel
  exact ⟨⟨concrete.1, concrete.2.1⟩, concrete.2.2⟩

/-- The turn behind its first gap. -/
theorem turn_eq :
    ∃ rest, d.turn = gap 80 0x4E#8 ++ (lead ++ rest) ∧
      [kMark ||| 0xA1#16] ++ rest =
        d.sectorBody 0 ++ ((List.range' 1 17).flatMap d.sectorMfm ++ gap 316 0x4E#8) := by
  obtain ⟨rest, body⟩ : ∃ rest, d.sectorBody 0 = [kMark ||| 0xA1#16] ++ rest :=
    ⟨(d.sectorBody 0).tail, rfl⟩
  refine ⟨rest ++ ((List.range' 1 17).flatMap d.sectorMfm ++ gap 316 0x4E#8), ?_, ?_⟩
  · have sectors : List.range 18 = 0 :: List.range' 1 17 := by decide
    rw [turn, sectors, List.flatMap_cons, sectorMfm_eq, body, lead]
    simp only [List.append_assoc]
  · rw [body, List.append_assoc]

/-- Once in step the reader sees both turns, the first one from its first mark on. -/
theorem mfmBytes_turns :
    (feed readMfm {} (unspliced (feed mfmCells false (d.turn ++ d.turn)).2)).2 =
      (feed readByte 0#16 (d.sectorBody 0 ++
        ((List.range' 1 17).flatMap d.sectorMfm ++ gap 316 0x4E#8) ++ d.turn)).2 := by
  obtain ⟨rest, split, body⟩ := d.turn_eq
  obtain ⟨coder, reader⟩ := feed_hunting 80
  obtain ⟨step, first⟩ := feed_lead
  rw [← body]
  nth_rewrite 1 [split]
  rw [List.append_assoc, feed_append, coder]
  rw [unspliced_append, feed_append, reader, List.append_assoc, feed_append]
  rw [unspliced_append, feed_append, first, (inStep_bytes step _ _).2]
  rfl

/-- Every sector is found in each of the turns. -/
theorem finds_turns :
    Finds (d.sectorBody 0 ++ ((List.range' 1 17).flatMap d.sectorMfm ++ gap 316 0x4E#8) ++ d.turn)
      ((List.range 18).map d.addressed ++ (List.range 18).map d.addressed) := by
  have second : Finds d.turn ((List.range 18).map d.addressed) := by
    have gap316 := finds_nil.plain (List.replicate 316 0x4E#8)
    have sectors := (gap316.sectors d (List.range 18)).plain (List.replicate 80 0x4E#8)
    rwa [List.append_nil] at sectors
  rw [List.append_assoc, List.append_assoc]
  exact ((second.plain _).sectors d _).sectorBody d 0

/-! ## Disks -/

/-- A drive with an image of high density in it, as it is read and written in MFM. -/
structure HdDisk (d : SonyDrive) : Prop where
  native : d.native = false
  hd : d.hd = true
  mfmMode : d.mfmMode = true
  doubleSided : d.doubleSided = true
  size : d.image.length = 2880 * 512
  track : d.track < 80

section

variable {d e : SonyDrive}

theorem HdDisk.of_shape (disk : HdDisk d) (same : e.shape = d.shape) : HdDisk e where
  native := (congrArg Shape.native same).trans disk.native
  hd := (congrArg Shape.hd same).trans disk.hd
  mfmMode := (congrArg Shape.mfmMode same).trans disk.mfmMode
  doubleSided := (congrArg Shape.doubleSided same).trans disk.doubleSided
  size := (congrArg Shape.size same).trans disk.size
  track := (congrArg Shape.track same).trans_lt disk.track

theorem side_le (d : SonyDrive) : d.side ≤ 1 := Bool.toNat_le d.side1

section

variable (disk : HdDisk d)
include disk

theorem HdDisk.room : (d.base + 18) * 512 ≤ 2880 * 512 := by
  have track := disk.track
  have side := d.side_le
  rw [base, SonyDrive.sectorBase, disk.hd, if_pos rfl]
  omega

theorem HdDisk.hasDisk : d.hasDisk = true := by
  have some : d.image ≠ [] := by
    intro empty
    have size := disk.size
    rw [empty] at size
    cases size
  rw [SonyDrive.hasDisk, Bool.or_eq_true, Bool.not_eq_true', List.isEmpty_eq_false_iff]
  exact .inr some

/-- The place of a track. -/
theorem HdDisk.sectorBase (track side : Nat) :
    d.sectorBase track side = 36 * track + 18 * side := by
  rw [SonyDrive.sectorBase, disk.hd, if_pos rfl]
  omega

/-- On a disk that can be written every sector of every track is accepted. -/
theorem HdDisk.accepts (writable : d.writeProtected = false)
    {track side sector : Nat} (inside : track < 80) (head : side ≤ 1) (number : sector < 18) :
    d.Accepts track side sector := by
  refine ⟨disk.hasDisk, writable, by omega, ?_, by omega, ?_, ?_⟩
  · rwa [disk.doubleSided]
  · rw [disk.hd]
    exact Int.ofNat_lt.mpr number
  · rw [imageOffset_eq, disk.sectorBase, disk.size]
    omega

theorem HdDisk.getElem?_sectorData {i : Nat} (inside : i < (d.base + 18) * 512)
    (from_ : d.base * 512 ≤ i) : (d.sectorData (i / 512 - d.base))[i % 512]? = d.image[i]? := by
  obtain ⟨-, number, place⟩ := unit_of_place from_ inside
  have fits := unit_fits number disk.room
  rw [← disk.size] at fits
  rw [sectorData, imageOffset_base, if_pos fits,
    List.getElem?_take_of_lt (Nat.mod_lt _ (by decide)), List.getElem?_drop, place]

end

/-- The track as the drive lays it out, with its flux. -/
def laidOut (d : SonyDrive) : SonyDrive := d.refreshStream.buildCells.fluxSeedFromCells

theorem HdDisk.stream (disk : HdDisk d) : d.laidOut.stream = d.encodeTrackMfm := by
  change d.refreshStream.stream = _
  rw [refreshStream, disk.hasDisk, disk.native, disk.hd]
  rfl

theorem HdDisk.cells (disk : HdDisk d) : d.laidOut.cells = (feed mfmCells false d.turn).2 := by
  have same := disk.of_shape (same_refreshStream d).shape
  have cells : d.refreshStream.nominalCells = 195840 := by
    rw [nominalCells, rpmNow, cellCycles, same.mfmMode, same.hd, if_pos ⟨rfl, rfl⟩,
      if_pos ⟨rfl, rfl⟩]
  change d.refreshStream.buildCells.cells = _
  rw [buildCells, mediaMfm, same.mfmMode, same.hd, cells,
    show d.refreshStream.stream = d.encodeTrackMfm from disk.stream, ← padded_turn]
  rfl

theorem HdDisk.addressed (disk : HdDisk d) {sector : Nat} (inside : sector < 18) :
    d.addressed sector = ⟨d.track, d.side, sector, d.sectorData sector⟩ := by
  have track := disk.track
  have sides : (BitVec.ofNat 8 d.side &&& 1#8).toNat = d.side := by
    rw [side]
    cases d.side1 <;> rfl
  have number : ((BitVec.ofNat 8 (sector + 1)).toNat : Int) - 1 = sector := by
    rw [BitVec.toNat_ofNat]
    omega
  rw [SonyDrive.addressed, sides, number, BitVec.toNat_ofNat, Nat.mod_eq_of_lt (by omega)]

/-- The sectors of the track under the head. -/
def sectors (d : SonyDrive) : List Pending :=
  (List.range 18).map fun s : Nat => ⟨d.track, d.side, s, d.sectorData s⟩

theorem length_sectors (d : SonyDrive) : ∀ p ∈ d.sectors, p.data.length = 512 := by
  intro p inside
  obtain ⟨s, -, rfl⟩ := List.mem_map.mp inside
  exact length_sectorData d s

/-- Without a write there are no splices. -/
theorem splicedCells_none (begin_ : e.decodeWriteCellBegin = none)
    (end_ : e.decodeWriteCellEnd = none) : e.splicedCells = unspliced e.cells := by
  have plain : (fun cell : Bool × Nat => (decide ((none : Option Nat) = some cell.2 ∨
      (none : Option Nat) = some cell.2), cell.1)) = (fun c => (false, c)) ∘ Prod.fst := by
    funext cell
    simp
  rw [splicedCells, begin_, end_, unspliced]
  rw [plain, ← List.map_map, List.zipIdx_map_fst]

/-- A track that is read is the track that was laid out. -/
theorem HdDisk.pending (disk : HdDisk d) (cells : e.cells = d.laidOut.cells)
    (begin_ : e.decodeWriteCellBegin = none) (end_ : e.decodeWriteCellEnd = none) :
    e.pending = d.sectors := by
  have plain : e.splicedCells = unspliced (feed mfmCells false d.turn).2 := by
    rw [splicedCells_none begin_ end_, cells, disk.cells]
  have last : (feed mfmCells false d.turn).1 = false :=
    (feed_gap false (gap 80 0x4E#8 ++ (List.range 18).flatMap d.sectorMfm) 315).1
  have both : (feed mfmCells false (d.turn ++ d.turn)).2 =
      (feed mfmCells false d.turn).2 ++ (feed mfmCells false d.turn).2 := by
    rw [feed_append, last]
  have found : mfmSectors e.mfmBytes =
      (List.range 18).map d.addressed ++ (List.range 18).map d.addressed := by
    rw [mfmBytes, plain, ← unspliced_append, ← both, mfmBytes_turns]
    exact d.finds_turns 0#16
  have named : (List.range 18).map d.addressed = d.sectors :=
    List.map_congr_left fun s inside => disk.addressed (List.mem_range.mp inside)
  have distinct : (d.sectors.map Pending.slot).Nodup := by
    rw [SonyDrive.sectors, List.map_map]
    refine List.nodup_range.map fun s t same => ?_
    exact Int.ofNat_inj.mp (congrArg (fun slot : Nat × Nat × Int => slot.2.2) same)
  rw [SonyDrive.pending, found, named, firstBy_twice distinct]

/-- Sectors are put where they came from, whatever track the head is on. -/
theorem HdDisk.transplant (disk : HdDisk d) (other : HdDisk e)
    (writable : e.writeProtected = false) (i : Nat) :
    (e.commitPending d.sectors).image[i]? =
      if d.base * 512 ≤ i ∧ i < (d.base + 18) * 512 then d.image[i]? else e.image[i]? := by
  have pieces : e.patches d.sectors = units 512 d.base d.sectorData (List.range 18) := by
    rw [SonyDrive.patches, SonyDrive.sectors, List.flatMap_map, units, List.map_eq_flatMap]
    refine List.flatMap_congr fun s inside => ?_
    rw [patch, if_pos (other.accepts writable disk.track d.side_le (List.mem_range.mp inside)),
      Int.toNat_natCast, imageOffset_eq, other.sectorBase, base, disk.sectorBase]
  rw [(e.commitPending_spec d.length_sectors).2.1, pieces, getElem?_patched_units
    (fun s _ => length_sectorData d s) (List.Perm.refl _) (other.size.symm ▸ disk.room)]
  split_ifs with here
  · exact disk.getElem?_sectorData here.2 here.1
  · rfl

/-- Cells that are up to date are decoded as they are. -/
theorem exists_decodeMfmCells (clean : e.cellsDirty = false) (some : e.cells ≠ []) (turns : Nat) :
    ∃ e', e.decodeMfmCells turns = .some e' ∧ SameContents (e.commitPending e.pending) e' := by
  have view : e.cellsView turns = .some e := by
    rw [cellsView, clean]
    rfl
  generalize made : e.commitPending e.pending = r
  have decoded : e.decodeMfmCells turns =
      .some (if e.pending = [] ∧ r.inFluxCommit = false then r.encodeTrack else r) := by
    rw [decodeMfmCells, view, ← made]
    exact if_neg some
  refine ⟨_, decoded, ?_⟩
  split_ifs
  · exact same_encodeTrack _
  · exact .rfl _

theorem HdDisk.cells_ne_nil (disk : HdDisk d) : d.laidOut.cells ≠ [] := by
  have found := disk.pending rfl rfl rfl
  intro empty
  rw [SonyDrive.pending, mfmBytes, splicedCells, empty] at found
  cases found

variable {image : List Byte}

/-- A track that is laid out from a disk of high density and read back holds each of its
eighteen sectors once, and commits each where it came from. Over a disk with any other
contents, the write back restores the track and touches nothing else; on a protected disk it
does nothing. -/
theorem mfm_track_round_trip (disk : HdDisk d) (size : image.length = d.image.length)
    (turns : Nat) :
    let laid := d.laidOut.refilled image d.tags
    laid.stream = d.encodeTrackMfm ∧
    laid.pending = (List.range 18).map (fun s : Nat => ⟨d.track, d.side, s, d.sectorData s⟩) ∧
    ∃ e, laid.decodeMfmCells turns = some e ∧ e.tags = d.tags ∧
      (d.writeProtected = true → e.image = image) ∧
      (d.writeProtected = false →
        (∀ s : Nat, s < 18 → laid.Accepts d.track d.side s) ∧
        ∀ i, e.image[i]? =
          if d.base * 512 ≤ i ∧ i < (d.base + 18) * 512 then d.image[i]? else image[i]?) := by
  intro laid
  have same : laid.shape = d.shape := shape_refilled (same_refreshStream d).shape size rfl
  have pending : laid.pending = d.sectors := disk.pending rfl rfl rfl
  obtain ⟨e, decoded, contents⟩ := exists_decodeMfmCells (e := laid) rfl disk.cells_ne_nil turns
  obtain ⟨-, patches, tags⟩ := laid.commitPending_spec d.length_sectors
  rw [pending] at contents
  refine ⟨disk.stream, pending, e, decoded, contents.tags.trans tags, fun protect => ?_,
    fun writable => ⟨fun s inside => ?_, fun i => ?_⟩⟩
  · have shut : laid.writeProtected = true :=
      (congrArg Shape.writeProtected same).trans protect
    rw [contents.image, patches, patches_protected shut]
    rfl
  · rw [accepts_congr same]
    exact disk.accepts writable disk.track d.side_le inside
  · rw [contents.image]
    exact disk.transplant (disk.of_shape same)
      ((congrArg Shape.writeProtected same).trans writable) i

end

/-- A blank disk of high density. -/
def blank1440K : SonyDrive where
  image := List.replicate (2880 * 512) 0#8
  hd := true
  mfmMode := true

theorem hdDisk_blank1440K : HdDisk blank1440K :=
  ⟨rfl, rfl, rfl, rfl, List.length_replicate, by decide⟩

/-- The first track of a blank disk, written back over one that is full of ones. -/
theorem mfm_track_round_trip_blank :
    HdDisk blank1440K ∧ ∃ e, (blank1440K.laidOut.refilled
        (List.replicate (2880 * 512) 1#8) blank1440K.tags).decodeMfmCells 0 = some e ∧
      e.image[0]? = some 0#8 ∧ e.image[9215]? = some 0#8 ∧ e.image[9216]? = some 1#8 := by
  have size : (List.replicate (2880 * 512) 1#8).length = blank1440K.image.length := by
    rw [List.length_replicate]
    exact hdDisk_blank1440K.size.symm
  obtain ⟨-, -, e, decoded, -, -, written⟩ := mfm_track_round_trip hdDisk_blank1440K size 0
  obtain ⟨-, images⟩ := written rfl
  refine ⟨hdDisk_blank1440K, e, decoded, ?_, ?_, ?_⟩
  · rw [images, if_pos (by decide)]
    exact List.getElem?_replicate_of_lt (by decide)
  · rw [images, if_pos (by decide)]
    exact List.getElem?_replicate_of_lt (by decide)
  · rw [images, if_neg (by decide)]
    exact List.getElem?_replicate_of_lt (by decide)

end SonyDrive

end Pom68k.Floppy
