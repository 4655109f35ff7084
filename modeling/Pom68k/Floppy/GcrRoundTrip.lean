import Pom68k.Floppy.Commits

/-! # Group coded tracks are read back

The track that a drive lays out from its image is read by the framer and the decoder of a
write as just the sectors it was laid out from.
-/

namespace Pom68k.Floppy

open Foundation

namespace SonyDrive

/-! ## Framing -/

/-- A byte with its top bit set is framed by that bit. -/
theorem frame_byte : ∀ b : Byte, b.msb = true → feed frameGcr 0#8 (msbFirst b) = (0#8, [b]) := by
  decide +kernel

/-- The cells behind a sync byte are passed over. -/
theorem frame_empty (n : Nat) : feed frameGcr 0#8 (List.replicate n false) = (0#8, []) := by
  induction n with
  | zero => rfl
  | succ n ih =>
    have still : frameGcr 0#8 false = (0#8, []) := by decide
    rw [List.replicate_succ, feed, still, ih]
    rfl

def low (v : BitVec 16) : Byte := v.setWidth 8

theorem frame_gcrCells {v : BitVec 16} (framed : (low v).msb = true) :
    feed frameGcr 0#8 (gcrCells v) = (0#8, [low v]) := by
  have tail : feed frameGcr 0#8 (if v &&& kSync ≠ 0#16 then [false, false] else []) = (0#8, []) := by
    split_ifs
    · exact frame_empty 2
    · rfl
  rw [gcrCells, feed_append, show feed frameGcr 0#8 (msbFirst (v.setWidth 8)) = (0#8, [low v]) from
    frame_byte _ framed, tail]
  rfl

section

variable {stream : List (BitVec 16)} (framed : ∀ v ∈ stream, (low v).msb = true)
include framed

theorem frame_stream : feed frameGcr 0#8 (stream.flatMap gcrCells) = (0#8, stream.map low) := by
  rw [feed_flatMap fun v inside => frame_gcrCells (framed v inside), List.map_eq_flatMap]

/-- The framer sees the stream and the padding, and is ready for the next turn. -/
theorem gcrBytes_padded (target : Nat) :
    ∃ n, gcrBytes (padFormattedTrack (stream.flatMap gcrCells) target false) =
      (stream.map low ++ List.replicate n 0xFF#8) ++
        (stream.map low ++ List.replicate n 0xFF#8) := by
  generalize spare : target - (stream.flatMap gcrCells).length = room
  have syncFramed : ∀ v ∈ syncs (room / 10), (low v).msb = true := by
    intro v inside
    rw [List.eq_of_mem_replicate inside]
    decide
  have turn : feed frameGcr 0#8 (padFormattedTrack (stream.flatMap gcrCells) target false) =
      (0#8, stream.map low ++ List.replicate (room / 10) 0xFF#8) := by
    have sync : low (kSync ||| 0xFF#16) = 0xFF#8 := by decide
    rw [padFormattedTrack, spare]
    rw [if_neg Bool.false_ne_true, feed_append, frame_stream framed, feed_append,
      frame_stream syncFramed, frame_empty, syncs, List.map_replicate, sync, List.append_nil]
  refine ⟨room / 10, ?_⟩
  rw [gcrBytes, feed_append, turn, turn]

end

/-! ## The nibbles of a sector -/

theorem low_plain (bytes : List Byte) : (plain bytes).map low = bytes := by
  rw [plain, List.map_map]
  refine (List.map_congr_left fun b _ => ?_).trans (List.map_id _)
  rw [Function.comp_apply, low, BitVec.setWidth_setWidth (by omega), BitVec.setWidth_eq, id_eq]

/-- A nibble that is framed and begins no field. -/
def Filler (b : Byte) : Prop := b.msb = true ∧ b ≠ 0xD5#8

instance (b : Byte) : Decidable (Filler b) := inferInstanceAs (Decidable (_ ∧ _))

theorem filler_gcr6 (v : Byte) : Filler (gcr6 v) := gcr6_spec v

/-- The nibbles of a sector on the track, all but the beginnings of its two fields. -/
def addressRest (d : SonyDrive) (sector : Nat) : List Byte :=
  let track := BitVec.ofNat 8 d.track
  let number := BitVec.ofNat 8 sector
  [gcr6 track, gcr6 number, gcr6 d.sideByte, gcr6 d.format,
    gcr6 (track ^^^ number ^^^ d.sideByte ^^^ d.format), 0xDE#8, 0xAA#8, 0xFF#8]

def sectorNibbles (d : SonyDrive) (sector : Nat) : List Byte :=
  List.replicate 38 0xFF#8 ++ ([0xD5#8, 0xAA#8, 0x96#8] ++ (d.addressRest sector ++
    (List.replicate 6 0xFF#8 ++ ([0xD5#8, 0xAA#8, 0xAD#8, gcr6 (BitVec.ofNat 8 sector)] ++
      (encodeSums (d.sectorTags sector ++ d.sectorData sector) ++
        [0xDE#8, 0xAA#8, 0xFF#8, 0xFF#8])))))

variable (d : SonyDrive)

theorem low_sector (sector : Nat) :
    (d.addressGcr sector ++ d.dataGcr sector).map low = d.sectorNibbles sector := by
  simp only [addressGcr, dataGcr, List.map_append, low_plain, List.append_assoc]
  rfl

theorem filler_addressRest (sector : Nat) : ∀ b ∈ d.addressRest sector, Filler b := by
  simp only [addressRest, List.forall_mem_cons, List.not_mem_nil]
  exact ⟨filler_gcr6 _, filler_gcr6 _, filler_gcr6 _, filler_gcr6 _, filler_gcr6 _, by decide,
    by decide, by decide⟩

theorem msb_sectorNibbles (sector : Nat) : ∀ b ∈ d.sectorNibbles sector, b.msb = true := by
  have sync {n : Nat} {b : Byte} (inside : b ∈ List.replicate n 0xFF#8) : b.msb = true := by
    rw [List.eq_of_mem_replicate inside]
    decide
  simp only [sectorNibbles, List.forall_mem_append]
  refine ⟨fun b => sync, by decide, fun b inside => (filler_addressRest d sector b inside).1,
    fun b => sync, ?_, ?_, by decide⟩
  · simp only [List.forall_mem_cons, List.not_mem_nil, false_implies, implies_true, and_true]
    exact ⟨by decide, by decide, by decide, (filler_gcr6 _).1⟩
  · intro b inside
    obtain ⟨v, rfl⟩ := mem_encodeSums inside
    exact (filler_gcr6 v).1

/-! ## The fields on a track -/

variable {ns sector : Nat} {e : SonyDrive} {sectors : List Nat}

theorem decodeField_filler {b : Byte} (other : b ≠ 0xD5#8) (rest : List Byte) :
    decodeField ns (b :: rest) = none := by
  unfold decodeField
  split
  · rename_i here
    obtain ⟨rfl, -⟩ := List.cons.inj here
    rw [if_neg fun marks => other marks.1]
  · rfl

/-- Where no field begins the decoder goes on. -/
theorem gcrFields_cons {b : Byte} {rest : List Byte}
    (none : decodeField ns (b :: rest) = none) : gcrFields ns (b :: rest) = gcrFields ns rest := by
  rw [gcrFields, none]
  split_ifs with short
  · rw [gcrFields, if_pos]
    rw [List.length_cons] at short
    omega
  · rfl

theorem gcrFields_fillers {nibbles : List Byte} (fillers : ∀ b ∈ nibbles, b ≠ 0xD5#8)
    (rest : List Byte) : gcrFields ns (nibbles ++ rest) = gcrFields ns rest := by
  induction nibbles with
  | nil => rfl
  | cons b later ih =>
    rw [List.cons_append, gcrFields_cons (decodeField_filler (fillers b List.mem_cons_self) _)]
    exact ih (List.forall_mem_cons.mp fillers).2

/-- The mark of an address is not one of data. -/
theorem gcrFields_address (ns : Nat) (rest : List Byte) :
    gcrFields ns ([0xD5#8, 0xAA#8, 0x96#8] ++ rest) = gcrFields ns rest := by
  have none : decodeField ns (0xD5#8 :: ([0xAA#8, 0x96#8] ++ rest)) = none := by
    unfold decodeField
    split
    · rename_i here
      cases here
      rw [if_neg (by decide)]
    · rfl
  rw [show [0xD5#8, 0xAA#8, 0x96#8] ++ rest = 0xD5#8 :: ([0xAA#8, 0x96#8] ++ rest) from rfl,
    gcrFields_cons none]
  exact gcrFields_fillers (by decide) rest

/-- The field of a sector. -/
def field (d : SonyDrive) (sector : Nat) : GcrField :=
  ⟨sector, d.sectorTags sector, d.sectorData sector⟩

theorem decodeField_data (number : sector < ns) (small : ns ≤ 64)
    {tag data : List Byte} (tags : tag.length = 12) (size : data.length = 512) (rest : List Byte) :
    decodeField ns ([0xD5#8, 0xAA#8, 0xAD#8, gcr6 (BitVec.ofNat 8 sector)] ++
      (encodeSums (tag ++ data) ++ rest)) = some ⟨sector, tag, data⟩ := by
  have six : (BitVec.ofNat 8 sector &&& 0x3F#8).toNat = sector := by
    rw [BitVec.toNat_and, BitVec.toNat_ofNat, Nat.mod_eq_of_lt (by omega)]
    exact Nat.and_two_pow_sub_one_of_lt_two_pow (n := 6) (by omega)
  have whole : (tag ++ data).length = 3 * 174 + 2 := by rw [List.length_append, tags, size]
  have groups := decodeGroups_encodeGroups 174 (s := {}) whole
  simp only [List.cons_append, List.nil_append, decodeField, and_self, if_true, gcr6Inv_gcr6,
    Option.bind_eq_bind, Option.bind_some, six, encodeSums, List.append_assoc, groups,
    decodeSums_encode]
  rw [if_neg (Nat.not_le.mpr number), ← tags, List.take_left, List.drop_left]

theorem length_encodeSums {bytes : List Byte} (size : bytes.length = 524) :
    (encodeSums bytes).length = 703 := by
  have groups := length_encodeGroups 174 (s := {}) size
  rw [encodeSums, List.length_append, groups]
  rfl

/-- A sector of the track is one field. -/
theorem gcrFields_sector (number : sector < ns) (small : ns ≤ 64) (rest : List Byte) :
    gcrFields ns (d.sectorNibbles sector ++ rest) = d.field sector :: gcrFields ns rest := by
  have sync (n : Nat) : ∀ b ∈ List.replicate n 0xFF#8, b ≠ 0xD5#8 := by
    intro b inside
    rw [List.eq_of_mem_replicate inside]
    decide
  have bytes : (d.sectorTags sector ++ d.sectorData sector).length = 524 := by
    rw [List.length_append, length_sectorTags, length_sectorData]
  simp only [sectorNibbles, List.append_assoc]
  rw [gcrFields_fillers (sync 38), gcrFields_address,
    gcrFields_fillers fun b inside => (filler_addressRest d sector b inside).2,
    gcrFields_fillers (sync 6)]
  generalize tail : [0xDE#8, 0xAA#8, 0xFF#8, 0xFF#8] ++ rest = behind
  have found := decodeField_data number small (length_sectorTags d sector)
    (length_sectorData d sector) behind
  have long := length_encodeSums bytes
  rw [gcrFields, found, if_neg]
  · have field : ([0xD5#8, 0xAA#8, 0xAD#8, gcr6 (BitVec.ofNat 8 sector)] ++
        (encodeSums (d.sectorTags sector ++ d.sectorData sector) ++ behind)).drop 707 = behind := by
      rw [← List.append_assoc]
      exact List.drop_left' (by rw [List.length_append, long]; rfl)
    rw [field, ← tail, gcrFields_fillers (by decide)]
    rfl
  · rw [List.length_append, List.length_append]
    simp only [List.length_cons]
    omega

theorem gcrFields_sectors (small : ns ≤ 64) (numbers : ∀ s ∈ sectors, s < ns) (rest : List Byte) :
    gcrFields ns (sectors.flatMap d.sectorNibbles ++ rest) =
      sectors.map d.field ++ gcrFields ns rest := by
  induction sectors with
  | nil => rfl
  | cons s later ih =>
    rw [List.flatMap_cons, List.append_assoc, gcrFields_sector d (numbers s List.mem_cons_self)
      small, ih (List.forall_mem_cons.mp numbers).2]
    rfl

/-- Every sector has one place on the track. -/
theorem interleave_perm (track : Nat) :
    (interleave (sectorsInTrack track)).Perm (List.range (sectorsInTrack track)) := by
  have each : ∀ ns ≤ 12, (interleave ns).Perm (List.range ns) := by decide +kernel
  exact each _ (Nat.sub_le _ _)

theorem sectorsInTrack_le (track : Nat) : sectorsInTrack track ≤ 64 := by
  rw [sectorsInTrack]
  omega

/-- The fields that a track commits are those it was laid out from. -/
theorem gcrCommits_track (d : SonyDrive) (target : Nat) :
    gcrCommits (sectorsInTrack d.track)
      (gcrBytes (padFormattedTrack (d.encodeTrackGcr.flatMap gcrCells) target false)) =
        (interleave (sectorsInTrack d.track)).map d.field := by
  have perm := interleave_perm d.track
  generalize interleaved : interleave (sectorsInTrack d.track) = sectors at perm
  have numbers : ∀ s ∈ sectors, s < sectorsInTrack d.track := fun s inside =>
    List.mem_range.mp (perm.mem_iff.mp inside)
  have small := sectorsInTrack_le d.track
  have nibbles : d.encodeTrackGcr.map low = sectors.flatMap d.sectorNibbles := by
    rw [encodeTrackGcr, interleaved, List.map_flatMap]
    exact List.flatMap_congr fun s _ => low_sector d s
  have framed : ∀ v ∈ d.encodeTrackGcr, (low v).msb = true := by
    intro v inside
    have there : low v ∈ d.encodeTrackGcr.map low := List.mem_map_of_mem inside
    rw [nibbles] at there
    obtain ⟨s, -, here⟩ := List.mem_flatMap.mp there
    exact msb_sectorNibbles d s _ here
  obtain ⟨n, bytes⟩ := gcrBytes_padded framed target
  have sync : ∀ b ∈ List.replicate n 0xFF#8, b ≠ 0xD5#8 := by
    intro b inside
    rw [List.eq_of_mem_replicate inside]
    decide
  have rest : gcrFields (sectorsInTrack d.track) (List.replicate n 0xFF#8) = [] := by
    rw [← List.append_nil (List.replicate n _), gcrFields_fillers sync, gcrFields,
      if_pos (by decide)]
  have fields : gcrFields (sectorsInTrack d.track) (gcrBytes
      (padFormattedTrack (d.encodeTrackGcr.flatMap gcrCells) target false)) =
        sectors.map d.field ++ sectors.map d.field := by
    rw [bytes, nibbles, List.append_assoc, gcrFields_sectors d small numbers,
      gcrFields_fillers sync, gcrFields_sectors d small numbers, rest, List.append_nil]
  have distinct : ((sectors.map d.field).map GcrField.sector).Nodup := by
    rw [List.map_map]
    have same : GcrField.sector ∘ d.field = id := rfl
    rw [same, List.map_id]
    exact perm.nodup_iff.mpr List.nodup_range
  rw [gcrCommits, fields, firstBy_twice distinct]

/-! ## Disks -/

/-- A drive with a group coded image in it. -/
structure GcrDisk (d : SonyDrive) : Prop where
  native : d.native = false
  hd : d.hd = false
  size : d.image.length = (if d.doubleSided then 1600 else 800) * 512
  tagged : d.tags.length = (if d.doubleSided then 1600 else 800) * 12
  track : d.track < 80
  sided : d.side1 = true → d.doubleSided = true

section

variable {d : SonyDrive}

section

variable (disk : GcrDisk d)
include disk

theorem GcrDisk.fits : d.base + sectorsInTrack d.track ≤ if d.doubleSided then 1600 else 800 := by
  rw [base, sectorBase, disk.hd]
  exact gcrBase_inside d.track disk.track d.doubleSided d.side1 disk.sided

theorem GcrDisk.room : (d.base + sectorsInTrack d.track) * 512 ≤ d.image.length := by
  rw [disk.size]
  exact Nat.mul_le_mul_right _ disk.fits

theorem GcrDisk.tagRoom : (d.base + sectorsInTrack d.track) * 12 ≤ d.tags.length := by
  rw [disk.tagged]
  exact Nat.mul_le_mul_right _ disk.fits

theorem GcrDisk.hasDisk : d.hasDisk = true := by
  have some : d.image ≠ [] := by
    intro empty
    have size := disk.size
    rw [empty] at size
    cases sides : d.doubleSided <;> rw [sides] at size <;> cases size
  rw [SonyDrive.hasDisk, Bool.or_eq_true, Bool.not_eq_true', List.isEmpty_eq_false_iff]
  exact .inr some

/-- What a sector of the track holds, byte by byte. -/
theorem GcrDisk.getElem?_sectorData {i : Nat}
    (inside : i < (d.base + sectorsInTrack d.track) * 512) (from_ : d.base * 512 ≤ i) :
    (d.sectorData (i / 512 - d.base))[i % 512]? = d.image[i]? := by
  obtain ⟨-, number, place⟩ := unit_of_place from_ inside
  rw [sectorData, imageOffset_base, if_pos (unit_fits number disk.room),
    List.getElem?_take_of_lt (Nat.mod_lt _ (by decide)), List.getElem?_drop, place]

theorem GcrDisk.getElem?_sectorTags {i : Nat}
    (inside : i < (d.base + sectorsInTrack d.track) * 12) (from_ : d.base * 12 ≤ i) :
    (d.sectorTags (i / 12 - d.base))[i % 12]? = d.tags[i]? := by
  obtain ⟨-, number, place⟩ := unit_of_place from_ inside
  rw [sectorTags, imageOffset_base, Nat.mul_div_cancel _ (by decide),
    if_pos (unit_fits number disk.tagRoom), List.getElem?_take_of_lt (Nat.mod_lt _ (by decide)), List.getElem?_drop, place]

theorem GcrDisk.stream : d.refreshStream.stream = d.encodeTrackGcr := by
  rw [refreshStream, disk.hasDisk, disk.native, disk.hd]
  rfl

/-- The cells of the track as the drive lays it out. -/
theorem GcrDisk.cells :
    ∃ target, d.refreshStream.buildCells.cells =
      padFormattedTrack (d.encodeTrackGcr.flatMap gcrCells) target false := by
  have same := same_refreshStream d
  have hd : d.refreshStream.hd = false := (congrArg Shape.hd same.shape).trans disk.hd
  refine ⟨d.refreshStream.nominalCells, ?_⟩
  rw [buildCells, mediaMfm, hd, Bool.and_false, disk.stream]
  rfl

end

end

/-- A disk at the same place: the same geometry under the same head. -/
theorem GcrDisk.of_shape {d : SonyDrive} (disk : GcrDisk d) (same : e.shape = d.shape) :
    GcrDisk e where
  native := (congrArg Shape.native same).trans disk.native
  hd := (congrArg Shape.hd same).trans disk.hd
  size := by
    have sides : e.doubleSided = d.doubleSided := congrArg Shape.doubleSided same
    rw [sides]
    exact (congrArg Shape.size same).trans disk.size
  tagged := by
    have sides : e.doubleSided = d.doubleSided := congrArg Shape.doubleSided same
    rw [sides]
    exact (congrArg Shape.tagSize same).trans disk.tagged
  track := (congrArg Shape.track same).trans_lt disk.track
  sided second := by
    have sides : e.doubleSided = d.doubleSided := congrArg Shape.doubleSided same
    rw [sides]
    exact disk.sided ((congrArg Shape.side1 same).symm.trans second)

section

variable {d : SonyDrive} (disk : GcrDisk d)
include disk

/-- On a disk that can be written every sector of the track is accepted. -/
theorem GcrDisk.accepts (writable : d.writeProtected = false)
    (inside : sector < sectorsInTrack d.track) :
    d.Accepts d.track d.side sector := by
  have track := disk.track
  refine ⟨disk.hasDisk, writable, by omega, ?_, by omega, ?_, ?_⟩
  · rw [side]
    cases second : d.side1 with
    | false => exact Nat.zero_le _
    | true => rw [disk.sided second]; exact Nat.le_refl _
  · rw [disk.hd]
    exact Int.ofNat_lt.mpr inside
  · rw [imageOffset_base]
    exact unit_fits inside disk.room

end

/-- The fields of the track are patches of image and tags, unit by unit. -/
theorem GcrDisk.patches {d : SonyDrive} (disk : GcrDisk e) (writable : e.writeProtected = false)
    (inside : ∀ s ∈ sectors, s < sectorsInTrack e.track) :
    e.fieldPatches e.side (sectors.map d.field) = units 512 e.base d.sectorData sectors ∧
      e.tagPatches e.side (sectors.map d.field) = units 12 e.base d.sectorTags sectors := by
  rw [fieldPatches, tagPatches, List.flatMap_map, List.flatMap_map, units, units,
    List.map_eq_flatMap, List.map_eq_flatMap]
  refine ⟨List.flatMap_congr fun s there => ?_, List.flatMap_congr fun s there => ?_⟩
  · have number := inside s there
    rw [field, patch, if_pos (disk.accepts writable number), Int.toNat_natCast, imageOffset_base]
  · have number := inside s there
    rw [field, tagPatch, imageOffset_base, Nat.mul_div_cancel _ (by decide),
      if_pos ⟨writable, unit_fits number disk.tagRoom⟩]

section

variable {d : SonyDrive} {image tags : List Byte}

/-- A write back puts the sectors of the track where they came from. -/
theorem GcrDisk.transplant (disk : GcrDisk d) (writable : d.writeProtected = false)
    (same : e.shape = d.shape) :
    let r := e.decodeGcrBytes (gcrBytes d.refreshStream.buildCells.cells) e.side1
    r.2 = sectorsInTrack d.track ∧ r.1.shape = e.shape ∧
    (∀ i, r.1.image[i]? =
      if d.base * 512 ≤ i ∧ i < (d.base + sectorsInTrack d.track) * 512 then d.image[i]?
      else e.image[i]?) ∧
    ∀ i, r.1.tags[i]? =
      if d.base * 12 ≤ i ∧ i < (d.base + sectorsInTrack d.track) * 12 then d.tags[i]?
      else e.tags[i]? := by
  have other := disk.of_shape same
  have track : e.track = d.track := congrArg Shape.track same
  have open_ : e.writeProtected = false := (congrArg Shape.writeProtected same).trans writable
  obtain ⟨target, cells⟩ := disk.cells
  have perm := interleave_perm d.track
  generalize order : interleave (sectorsInTrack d.track) = sectors at perm
  have inside : ∀ s ∈ sectors, s < sectorsInTrack e.track := fun s there =>
    track ▸ List.mem_range.mp (perm.mem_iff.mp there)
  have commits : gcrCommits (sectorsInTrack e.track)
      (gcrBytes d.refreshStream.buildCells.cells) = sectors.map d.field := by
    rw [cells, track, gcrCommits_track d, order]
  have facing : ¬(e.writeProtected = true ∨ e.side1 = true ∧ e.doubleSided = false) := by
    rw [open_]
    rintro (protect | ⟨second, single⟩)
    · cases protect
    · cases (other.sided second).symm.trans single
  have fieldTags : ∀ f ∈ sectors.map d.field, f.tag.length = 12 := fun f there => by
    obtain ⟨s, -, rfl⟩ := List.mem_map.mp there
    exact length_sectorTags d s
  have fieldData : ∀ f ∈ sectors.map d.field, f.data.length = 512 := fun f there => by
    obtain ⟨s, -, rfl⟩ := List.mem_map.mp there
    exact length_sectorData d s
  obtain ⟨shape, image, tags, count⟩ := commitFields_spec e e.side1 0 fieldTags fieldData
  obtain ⟨units512, units12⟩ := other.patches open_ inside
  intro r
  have whole : r = (sectors.map d.field).foldl (commitField e.side1) (e, 0) := by
    change e.decodeGcrBytes _ _ = _
    rw [decodeGcrBytes, if_neg facing, commits]
  rw [whole]
  refine ⟨?_, shape, fun i => ?_, fun i => ?_⟩
  · rw [count, Nat.zero_add, List.countP_eq_length.mpr, List.length_map, perm.length_eq,
      List.length_range]
    intro f there
    obtain ⟨s, number, rfl⟩ := List.mem_map.mp there
    exact decide_eq_true (other.accepts open_ (inside s number))
  · rw [image, show e.side1.toNat = e.side from rfl, units512, base_congr same,
      getElem?_patched_units (fun s _ => length_sectorData d s) perm]
    · split_ifs with here
      · exact disk.getElem?_sectorData here.2 here.1
      · rfl
    · rw [show e.image.length = d.image.length from congrArg Shape.size same]
      exact disk.room
  · rw [tags, show e.side1.toNat = e.side from rfl, units12, base_congr same,
      getElem?_patched_units (fun s _ => length_sectorTags d s) perm]
    · split_ifs with here
      · exact disk.getElem?_sectorTags here.2 here.1
      · rfl
    · rw [show e.tags.length = d.tags.length from congrArg Shape.tagSize same]
      exact disk.tagRoom

theorem sectorsInTrack_pos {track : Nat} (inside : track < 80) : 0 < sectorsInTrack track := by
  have : ∀ track < 80, 0 < sectorsInTrack track := by decide
  exact this track inside

theorem GcrDisk.cells_ne_nil (disk : GcrDisk d) : d.refreshStream.buildCells.cells ≠ [] := by
  obtain ⟨target, cells⟩ := disk.cells
  intro empty
  have commits := gcrCommits_track d target
  have none : gcrCommits (sectorsInTrack d.track) (gcrBytes []) = [] := by
    rw [gcrCommits, gcrFields]
    rfl
  rw [← cells, empty, none] at commits
  have count := congrArg List.length commits
  rw [List.length_map, (interleave_perm d.track).length_eq, List.length_range] at count
  exact absurd (sectorsInTrack_pos disk.track) (count ▸ Nat.lt_irrefl 0)

/-- Cells that are up to date are decoded as they are. -/
theorem exists_decodeGcrCells (clean : e.cellsDirty = false) (some : e.cells ≠ []) (turns : Nat) :
    ∃ e', e.decodeGcrCells turns = .some e' ∧
      SameContents (e.decodeGcrBytes (gcrBytes e.cells) e.side1).1 e' := by
  have view : e.cellsView turns = .some e := by
    rw [cellsView, clean]
    rfl
  generalize made : e.decodeGcrBytes (gcrBytes e.cells) e.side1 = r
  have decoded : e.decodeGcrCells turns =
      .some (if r.2 = 0 ∧ r.1.inFluxCommit = false then r.1.encodeTrack else r.1) := by
    rw [decodeGcrCells, view, ← made]
    exact if_neg some
  refine ⟨_, decoded, ?_⟩
  split_ifs
  · exact same_encodeTrack _
  · exact .rfl _

/-- A track that is laid out from a disk and read back holds every sector once, and commits
each where it came from. Over a disk with any other contents, the write back restores the
track and touches nothing else; on a protected disk it does nothing. -/
theorem gcr_track_round_trip (disk : GcrDisk d) (size : image.length = d.image.length)
    (tagSize : tags.length = d.tags.length) (turns : Nat) :
    let ns := sectorsInTrack d.track
    let laid := d.refreshStream.buildCells
    laid.stream = d.encodeTrackGcr ∧
    gcrCommits ns (gcrBytes laid.cells) = (interleave ns).map d.field ∧
    (interleave ns).Perm (List.range ns) ∧
    ∃ e, (laid.refilled image tags).decodeGcrCells turns = some e ∧
      (d.writeProtected = true → e.image = image ∧ e.tags = tags) ∧
      (d.writeProtected = false →
        ((laid.refilled image tags).decodeGcrBytes (gcrBytes laid.cells) d.side1).2 = ns ∧
        (∀ i, e.image[i]? =
          if d.base * 512 ≤ i ∧ i < (d.base + ns) * 512 then d.image[i]? else image[i]?) ∧
        ∀ i, e.tags[i]? =
          if d.base * 12 ≤ i ∧ i < (d.base + ns) * 12 then d.tags[i]? else tags[i]?) := by
  intro ns laid
  have same : (laid.refilled image tags).shape = d.shape :=
    shape_refilled (same_refreshStream d).shape size tagSize
  have side1 : (laid.refilled image tags).side1 = d.side1 := congrArg Shape.side1 same
  refine ⟨disk.stream, ?_, interleave_perm d.track, ?_⟩
  · obtain ⟨target, built⟩ := disk.cells
    rw [built]
    exact gcrCommits_track d target
  · obtain ⟨e, decoded, contents⟩ :=
      exists_decodeGcrCells (e := laid.refilled image tags) rfl disk.cells_ne_nil turns
    refine ⟨e, decoded, fun protect => ?_, fun writable => ?_⟩
    · rw [contents.image, contents.tags, decodeGcrBytes,
        if_pos (.inl ((congrArg Shape.writeProtected same).trans protect))]
      exact ⟨rfl, rfl⟩
    · obtain ⟨count, -, images, tagBytes⟩ := disk.transplant writable same
      rw [contents.image, contents.tags, ← side1]
      exact ⟨count, images, tagBytes⟩

end

/-- A blank disk of one side. -/
def blank400K : SonyDrive where
  image := List.replicate (800 * 512) 0#8
  tags := List.replicate (800 * 12) 0#8
  doubleSided := false

theorem gcrDisk_blank400K : GcrDisk blank400K where
  native := rfl
  hd := rfl
  size := List.length_replicate
  tagged := List.length_replicate
  track := by decide
  sided := nofun

/-- The first track of a blank disk, written back over one that is full of ones. -/
theorem gcr_track_round_trip_blank :
    GcrDisk blank400K ∧ ∃ e, (blank400K.refreshStream.buildCells.refilled
        (List.replicate (800 * 512) 1#8) (List.replicate (800 * 12) 1#8)).decodeGcrCells 0 = some e ∧
      e.image[0]? = some 0#8 ∧ e.image[6144]? = some 1#8 ∧ e.tags[143]? = some 0#8 := by
  have size : (List.replicate (800 * 512) 1#8).length = blank400K.image.length := by
    rw [List.length_replicate]
    exact gcrDisk_blank400K.size.symm
  have tagSize : (List.replicate (800 * 12) 1#8).length = blank400K.tags.length := by
    rw [List.length_replicate]
    exact gcrDisk_blank400K.tagged.symm
  obtain ⟨-, -, -, e, decoded, -, written⟩ := gcr_track_round_trip gcrDisk_blank400K size tagSize 0
  obtain ⟨-, images, tagBytes⟩ := written rfl
  have ns : sectorsInTrack blank400K.track = 12 := by decide
  refine ⟨gcrDisk_blank400K, e, decoded, ?_, ?_, ?_⟩
  · rw [images, if_pos (by decide)]
    exact List.getElem?_replicate_of_lt (by decide)
  · rw [images, if_neg (by decide)]
    exact List.getElem?_replicate_of_lt (by decide)
  · rw [tagBytes]
    exact List.getElem?_replicate_of_lt (by decide)

end SonyDrive

end Pom68k.Floppy
