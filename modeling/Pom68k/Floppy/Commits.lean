import Mathlib.Algebra.BigOperators.Ring.List
import Pom68k.Foundation.Patches
import Pom68k.Floppy.WriteBack

/-! # What a commit changes

Sectors that are committed are patches of the image. Whatever else a commit does, it does to
the layout of the track only.
-/

namespace Pom68k.Floppy

open Foundation

/-- What no commit changes. -/
structure Shape where
  native : Bool
  size : Nat
  tagSize : Nat
  track : Nat
  side1 : Bool
  doubleSided : Bool
  hd : Bool
  mfmMode : Bool
  writeProtected : Bool
  inFluxCommit : Bool

namespace SonyDrive

def shape (d : SonyDrive) : Shape :=
  ⟨d.native, d.image.length, d.tags.length, d.track, d.side1, d.doubleSided, d.hd, d.mfmMode,
    d.writeProtected, d.inFluxCommit⟩

/-- A change of the layout of a track. -/
structure SameContents (d e : SonyDrive) : Prop where
  shape : e.shape = d.shape
  image : e.image = d.image
  tags : e.tags = d.tags

theorem SameContents.rfl (d : SonyDrive) : SameContents d d := ⟨Eq.refl _, Eq.refl _, Eq.refl _⟩

variable {d e : SonyDrive}

theorem SameContents.trans {f : SonyDrive} (first : SameContents d e)
    (second : SameContents e f) : SameContents d f :=
  ⟨second.shape.trans first.shape, second.image.trans first.image, second.tags.trans first.tags⟩

variable (d)

theorem same_retainActiveTrack : SameContents d d.retainActiveTrack := by
  rw [retainActiveTrack]
  split
  · split_ifs
    · exact ⟨rfl, rfl, rfl⟩
    · exact .rfl d
  · exact .rfl d

theorem same_refreshStream : SameContents d d.refreshStream := by
  rw [refreshStream]
  split_ifs <;> exact ⟨rfl, rfl, rfl⟩

theorem same_encodeTrack : SameContents d d.encodeTrack := by
  refine ((same_retainActiveTrack d).trans (same_refreshStream _)).trans ?_
  rw [encodeTrack]
  generalize d.retainActiveTrack.refreshStream = e
  dsimp only
  split_ifs <;> exact ⟨rfl, rfl, rfl⟩

theorem same_sectorChanged (track side : Nat) : SameContents d (d.sectorChanged track side) := by
  rw [sectorChanged]
  generalize moved : (if d.inFluxCommit then d else _ : SonyDrive) = e
  have same : SameContents d e := by
    rw [← moved]
    split_ifs <;> exact ⟨rfl, rfl, rfl⟩
  split_ifs
  · exact same.trans (same_refreshStream e)
  · exact same.trans (same_encodeTrack e)
  · exact same

/-- A disk with other contents than those its track was laid out from. -/
def refilled (d : SonyDrive) (image tags : List Byte) : SonyDrive :=
  { d with image := image, tags := tags }

variable {d}

theorem shape_refilled {image tags : List Byte} (same : d.shape = e.shape)
    (size : image.length = e.image.length) (tagSize : tags.length = e.tags.length) :
    (d.refilled image tags).shape = e.shape := by
  have imageSize : image.length = d.image.length := size.trans (congrArg Shape.size same).symm
  have tagsSize : tags.length = d.tags.length := tagSize.trans (congrArg Shape.tagSize same).symm
  rw [← same, shape, shape]
  simp only [refilled, imageSize, tagsSize]

/-! ## Sectors -/

/-- What a drive makes of a sector depends on its shape. -/
theorem imageOffset_congr (same : e.shape = d.shape) : e.imageOffset = d.imageOffset := by
  have hd : e.hd = d.hd := congrArg Shape.hd same
  have doubleSided : e.doubleSided = d.doubleSided := congrArg Shape.doubleSided same
  funext track side sector
  rw [imageOffset, imageOffset, hd, doubleSided]

theorem hasDisk_congr (same : e.shape = d.shape) : e.hasDisk = d.hasDisk := by
  have native : e.native = d.native := congrArg Shape.native same
  have size : e.image.length = d.image.length := congrArg Shape.size same
  have empty : e.image.isEmpty = d.image.isEmpty := by
    rw [Bool.eq_iff_iff, List.isEmpty_iff_length_eq_zero, List.isEmpty_iff_length_eq_zero, size]
  rw [hasDisk, hasDisk, native, empty]

theorem accepts_congr (same : e.shape = d.shape) (track side : Nat)
    (sector : Int) : e.Accepts track side sector ↔ d.Accepts track side sector := by
  have hd : e.hd = d.hd := congrArg Shape.hd same
  have doubleSided : e.doubleSided = d.doubleSided := congrArg Shape.doubleSided same
  have size : e.image.length = d.image.length := congrArg Shape.size same
  have protect : e.writeProtected = d.writeProtected := congrArg Shape.writeProtected same
  rw [Accepts, Accepts, hasDisk_congr same, imageOffset_congr same, hd, doubleSided, size, protect]

/-- The patch of a sector, if it is accepted. -/
def patch (d : SonyDrive) (track side : Nat) (sector : Int) (data : List Byte) :
    List (Piece Byte) :=
  if d.Accepts track side sector then [⟨d.imageOffset track side sector.toNat, data⟩] else []

theorem patch_congr (same : e.shape = d.shape) : e.patch = d.patch := by
  funext track side sector data
  simp only [patch, accepts_congr same, imageOffset_congr same]

theorem inside_patch {track side : Nat} {sector : Int} {data : List Byte}
    (size : data.length = 512) {p : Piece Byte} (there : p ∈ d.patch track side sector data) :
    p.Inside d.image.length := by
  rw [patch] at there
  split_ifs at there with accepted
  · rw [List.mem_singleton.mp there, Piece.Inside, size]
    exact accepted.2.2.2.2.2.2
  · cases there

variable (d)

/-- A write of a sector patches the image, or is refused. -/
theorem writeSector_spec (track side : Nat) (sector : Int) {data : List Byte}
    (size : data.length = 512) :
    (d.writeSector track side sector data).1.shape = d.shape ∧
      (d.writeSector track side sector data).1.image =
        patched d.image (d.patch track side sector data) ∧
      (d.writeSector track side sector data).1.tags = d.tags ∧
      ((d.writeSector track side sector data).2 = true ↔ d.Accepts track side sector) := by
  rw [writeSector, patch]
  by_cases accepted : d.Accepts track side sector
  · rw [if_pos accepted, if_pos accepted]
    have room : d.imageOffset track side sector.toNat + data.length ≤ d.image.length := by
      rw [size]
      exact accepted.2.2.2.2.2.2
    have same := same_sectorChanged
      { d with
        image := overwrite d.image (d.imageOffset track side sector.toNat) data
        dirty := true } track side
    refine ⟨same.shape.trans ?_, same.image, same.tags, iff_of_true rfl accepted⟩
    simp only [shape, length_overwrite room]
  · rw [if_neg accepted, if_neg accepted]
    exact ⟨rfl, rfl, rfl, iff_of_false Bool.false_ne_true accepted⟩

/-! ## Places in the image -/

theorem length_sectorTags (sector : Nat) : (d.sectorTags sector).length = 12 := by
  rw [sectorTags]
  split_ifs
  · rw [List.length_take, List.length_drop]
    omega
  · exact List.length_replicate

theorem length_sectorData (sector : Nat) : (d.sectorData sector).length = 512 := by
  rw [sectorData]
  split_ifs
  · rw [List.length_take, List.length_drop]
    omega
  · exact List.length_replicate

/-- The sectors before a track of a group coded medium. -/
def gcrBase (doubleSided : Bool) (track side : Nat) : Nat :=
  ((List.range track).map fun t => sectorsInTrack t * (if doubleSided then 2 else 1)).sum +
    if side ≠ 0 then sectorsInTrack track else 0

/-- The sectors before a track. -/
def sectorBase (d : SonyDrive) (track side : Nat) : Nat :=
  if d.hd then track * 2 * 18 + side * 18 else gcrBase d.doubleSided track side

theorem imageOffset_eq (track side sector : Nat) :
    d.imageOffset track side sector = (d.sectorBase track side + sector) * 512 := by
  rw [imageOffset, sectorBase]
  by_cases hd : d.hd = true
  · rw [if_pos hd, if_pos hd]
    omega
  · rw [if_neg hd, if_neg hd, gcrBase, List.sum_map_mul_right]
    by_cases second : side ≠ 0
    · rw [if_pos second, if_pos second]
      omega
    · rw [if_neg second, if_neg second]
      omega

/-- The first sector of the track under the head. -/
def base (d : SonyDrive) : Nat := d.sectorBase d.track d.side

theorem imageOffset_base (sector : Nat) :
    d.imageOffset d.track d.side sector = (d.base + sector) * 512 := d.imageOffset_eq ..

variable {d}

theorem base_congr (same : e.shape = d.shape) : e.base = d.base := by
  have track : e.track = d.track := congrArg Shape.track same
  have side1 : e.side1 = d.side1 := congrArg Shape.side1 same
  have hd : e.hd = d.hd := congrArg Shape.hd same
  have sides : e.doubleSided = d.doubleSided := congrArg Shape.doubleSided same
  rw [base, base, sectorBase, sectorBase, side, side, track, side1, hd, sides]

theorem gcrBase_inside :
    ∀ track < 80, ∀ doubleSided side1 : Bool, (side1 = true → doubleSided = true) →
    gcrBase doubleSided track side1.toNat + sectorsInTrack track ≤
      if doubleSided then 1600 else 800 := by
  decide +kernel

/-! ## Several sectors -/

/-- The patches of the sectors of an MFM track. -/
def patches (d : SonyDrive) (pending : List Pending) : List (Piece Byte) :=
  pending.flatMap fun p => d.patch p.t p.h p.s p.data

theorem patches_protected (protect : d.writeProtected = true)
    (pending : List Pending) : d.patches pending = [] := by
  refine List.flatMap_eq_nil_iff.mpr fun p _ => if_neg fun accepted => ?_
  cases protect.symm.trans accepted.2.1

theorem commitPending_spec (d : SonyDrive) {pending : List Pending}
    (sizes : ∀ p ∈ pending, p.data.length = 512) :
    (d.commitPending pending).shape = d.shape ∧
      (d.commitPending pending).image = patched d.image (d.patches pending) ∧
      (d.commitPending pending).tags = d.tags := by
  induction pending generalizing d with
  | nil => exact ⟨rfl, rfl, rfl⟩
  | cons p rest ih =>
    obtain ⟨shape, image, tags, -⟩ := d.writeSector_spec p.t p.h p.s (sizes p List.mem_cons_self)
    obtain ⟨shape', image', tags'⟩ := ih (d.writeSector p.t p.h p.s p.data).1 fun q inside =>
      sizes q (List.mem_cons_of_mem _ inside)
    refine ⟨shape'.trans shape, ?_, tags'.trans tags⟩
    have later : (d.writeSector p.t p.h p.s p.data).1.patches rest = d.patches rest := by
      rw [patches, patches, patch_congr shape]
    rwa [later, image, ← patched_append] at image'

def tagPatch (d : SonyDrive) (side : Nat) (f : GcrField) : List (Piece Byte) :=
  let tag := d.imageOffset d.track side f.sector / 512 * 12
  if d.writeProtected = false ∧ tag + 12 ≤ d.tags.length then [⟨tag, f.tag⟩] else []

theorem tagPatch_congr (same : e.shape = d.shape) : e.tagPatch = d.tagPatch := by
  have track : e.track = d.track := congrArg Shape.track same
  have size : e.tags.length = d.tags.length := congrArg Shape.tagSize same
  have protect : e.writeProtected = d.writeProtected := congrArg Shape.writeProtected same
  funext side f
  simp only [tagPatch, imageOffset_congr same, track, size, protect]

/-- The patches of the fields of a GCR track, for the image and for the tags. -/
def fieldPatches (d : SonyDrive) (side : Nat) (fields : List GcrField) : List (Piece Byte) :=
  fields.flatMap fun f => d.patch d.track side f.sector f.data

def tagPatches (d : SonyDrive) (side : Nat) (fields : List GcrField) : List (Piece Byte) :=
  fields.flatMap (d.tagPatch side)

variable (d)

theorem writeTags_spec (side : Nat) {f : GcrField} (size : f.tag.length = 12) :
    (d.writeTags side f).shape = d.shape ∧ (d.writeTags side f).image = d.image ∧
      (d.writeTags side f).tags = patched d.tags (d.tagPatch side f) := by
  rw [writeTags, tagPatch]
  split_ifs with fits
  · have room : d.imageOffset d.track side f.sector / 512 * 12 + f.tag.length ≤ d.tags.length := by
      rw [size]
      exact fits.2
    refine ⟨?_, rfl, rfl⟩
    simp only [shape, length_overwrite room]
  · exact ⟨rfl, rfl, rfl⟩

theorem commitField_spec (side1 : Bool) (n : Nat) {f : GcrField}
    (tag : f.tag.length = 12) (data : f.data.length = 512) :
    (commitField side1 (d, n) f).1.shape = d.shape ∧
      (commitField side1 (d, n) f).1.image =
        patched d.image (d.patch d.track side1.toNat f.sector f.data) ∧
      (commitField side1 (d, n) f).1.tags = patched d.tags (d.tagPatch side1.toNat f) ∧
      (commitField side1 (d, n) f).2 =
        n + (if d.Accepts d.track side1.toNat f.sector then 1 else 0) := by
  rw [commitField]
  obtain ⟨same, image, tags⟩ := d.writeTags_spec side1.toNat tag
  generalize d.writeTags side1.toNat f = e at same image tags
  have track : e.track = d.track := congrArg Shape.track same
  obtain ⟨shape', image', tags', accepted⟩ := e.writeSector_spec e.track side1.toNat f.sector data
  rw [track] at shape' image' tags' accepted ⊢
  refine ⟨shape'.trans same, ?_, tags'.trans tags, ?_⟩
  · rw [image', image, patch_congr same]
  · rw [accepts_congr same] at accepted
    by_cases takes : d.Accepts d.track side1.toNat f.sector
    · rw [if_pos takes, if_pos (accepted.mpr takes)]
    · rw [if_neg takes, if_neg (mt accepted.mp takes), Nat.add_zero]

theorem commitFields_spec (side1 : Bool) (n : Nat) {fields : List GcrField}
    (tag : ∀ f ∈ fields, f.tag.length = 12) (data : ∀ f ∈ fields, f.data.length = 512) :
    (fields.foldl (commitField side1) (d, n)).1.shape = d.shape ∧
      (fields.foldl (commitField side1) (d, n)).1.image =
        patched d.image (d.fieldPatches side1.toNat fields) ∧
      (fields.foldl (commitField side1) (d, n)).1.tags =
        patched d.tags (d.tagPatches side1.toNat fields) ∧
      (fields.foldl (commitField side1) (d, n)).2 = n + fields.countP fun f =>
        d.Accepts d.track side1.toNat f.sector := by
  induction fields generalizing d n with
  | nil => exact ⟨rfl, rfl, rfl, rfl⟩
  | cons f rest ih =>
    obtain ⟨shape, image, tags, count⟩ := commitField_spec d side1 n
      (tag f List.mem_cons_self) (data f List.mem_cons_self)
    rw [List.foldl_cons]
    generalize commitField side1 (d, n) f = r at shape image tags count
    obtain ⟨e, m⟩ := r
    dsimp only at shape image tags count
    have track : e.track = d.track := congrArg Shape.track shape
    obtain ⟨shape', image', tags', count'⟩ := ih e m
      (List.forall_mem_cons.mp tag).2
      (List.forall_mem_cons.mp data).2
    refine ⟨shape'.trans shape, ?_, ?_, ?_⟩
    · rw [image', image, fieldPatches, patch_congr shape, track, ← patched_append]
      rfl
    · rw [tags', tags, tagPatches, tagPatch_congr shape, ← patched_append]
      rfl
    · rw [count', List.countP_cons]
      simp only [accepts_congr shape, track, decide_eq_true_eq]
      omega

end SonyDrive

end Pom68k.Floppy
