import Pom68k.Floppy.FluxRead
import Pom68k.Floppy.GcrRoundTrip
import Pom68k.Floppy.MfmRoundTrip
import Pom68k.Floppy.Splice
import Pom68k.Foundation.Runs

/-! # What a write can reach

A controller writes flux on the track under the head. The sectors it commits are read from
the whole track. A group coded sector goes to the track under the head, an MFM sector to
the track that its address names.
-/

namespace Pom68k.Floppy

open Foundation

namespace SonyDrive

/-- The places of the track under the head. -/
def OnTrack (d : SonyDrive) (i : Nat) : Prop :=
  d.base * 512 ≤ i ∧ i < (d.base + d.sectorsOnCurrentTrack) * 512

/-! ## Fields of any track -/

variable {bytes : List TByte} {p : Pending}

theorem length_dataField {window : Nat} {data : List Byte}
    (found : dataField window bytes = some data) : data.length = 512 := by
  induction window generalizing bytes with
  | zero => cases found
  | succ window ih =>
    rw [dataField] at found
    split_ifs at found with short begins
    · cases found
      rw [List.length_map, List.length_take, List.length_drop]
      omega
    · exact ih found

theorem length_sectorAt (found : sectorAt bytes = some p) : p.data.length = 512 := by
  rw [sectorAt] at found
  split_ifs at found
  simp only [Option.bind_eq_bind, Option.bind_eq_some_iff, Option.some.injEq] at found
  obtain ⟨c, -, h, -, s, -, data, inside, rfl⟩ := found
  exact length_dataField inside

theorem length_mfmSectors : ∀ p ∈ mfmSectors bytes, p.data.length = 512 := by
  induction bytes with
  | nil => exact List.forall_mem_nil _
  | cons b rest ih =>
    intro p inside
    rw [mfmSectors] at inside
    split_ifs at inside
    · cases inside
    · rcases List.mem_append.mp inside with here | later
      · exact length_sectorAt (Option.mem_toList.mp here)
      · exact ih p later

theorem length_pending (d : SonyDrive) : ∀ p ∈ d.pending, p.data.length = 512 := fun p inside =>
  length_mfmSectors p (mem_of_mem_firstBy inside)

theorem length_decodeGroups {n : Nat} {s sums : Sums} {nibbles bytes behind : List Byte}
    (decoded : decodeGroups n s nibbles = some (sums, bytes, behind)) :
    bytes.length = 3 * n + 2 := by
  fun_induction decodeGroups generalizing sums bytes behind with
  | case1 s h a b rest =>
    simp only [Option.bind_eq_bind, Option.bind_eq_some_iff] at decoded
    obtain ⟨h, -, a, -, b, -, -, rfl, -⟩ := decoded
    rfl
  | case2 n s h a b c rest ih =>
    simp only [Option.bind_eq_bind, Option.bind_eq_some_iff] at decoded
    obtain ⟨h, -, a, -, b, -, c, -, ⟨sums, data, behind⟩, later, -, rfl, -⟩ := decoded
    rw [List.length_append, ih _ _ _ _ later]
    change 3 + (3 * n + 2) = 3 * (n + 1) + 2
    omega
  | case3 => cases decoded

theorem length_gcrFields {ns : Nat} {nibbles : List Byte} :
    ∀ f ∈ gcrFields ns nibbles, f.tag.length = 12 ∧ f.data.length = 512 := by
  have each {nibbles : List Byte} {f : GcrField} (found : decodeField ns nibbles = some f) :
      f.tag.length = 12 ∧ f.data.length = 512 := by
    unfold decodeField at found
    split at found
    · split_ifs at found
      simp only [Option.bind_eq_bind, Option.bind_eq_some_iff] at found
      obtain ⟨sector, -, found⟩ := found
      split_ifs at found
      simp only [Option.bind_eq_some_iff] at found
      obtain ⟨⟨sums, bytes, behind⟩, groups, written, -, found⟩ := found
      split_ifs at found
      cases found
      have length := length_decodeGroups groups
      rw [List.length_take, List.length_drop, length]
      decide
    · cases found
  fun_induction gcrFields ns nibbles with
  | case1 => exact List.forall_mem_nil _
  | case2 nibbles long field found ih => exact List.forall_mem_cons.mpr ⟨each found, ih⟩
  | case3 nibbles long none ih => exact ih

/-! ## Sectors of a track -/

section

variable {d : SonyDrive}

theorem onTrack_hd (hd : d.hd = true) (i : Nat) :
    d.OnTrack i ↔ 36 * d.track + 18 * d.side ≤ i / 512 ∧
      i / 512 < 36 * d.track + 18 * d.side + 18 := by
  have base : d.base = 36 * d.track + 18 * d.side := by
    rw [base, sectorBase, hd, if_pos rfl]
    omega
  rw [OnTrack, base, sectorsOnCurrentTrack, hd, Nat.le_div_iff_mul_le (by decide),
    Nat.div_lt_iff_lt_mul (by decide)]
  rfl

/-- The place of a sector that is accepted. -/
def Pending.unit (p : Pending) : Nat := 36 * p.t + 18 * p.h + p.s.toNat

/-- The sectors of a track that is accepted lie on their track. -/
theorem Accepts.hd (hd : d.hd = true) (accepted : d.Accepts p.t p.h p.s) :
    p.h ≤ 1 ∧ 0 ≤ p.s ∧ p.s < 18 ∧ d.imageOffset p.t p.h p.s.toNat = p.unit * 512 := by
  obtain ⟨-, -, -, head, low, high, -⟩ := accepted
  rw [hd] at high
  refine ⟨head.trans (by split_ifs <;> decide), low, high, ?_⟩
  rw [imageOffset_eq, sectorBase, hd, if_pos rfl, Pending.unit]
  omega

theorem covers_unit (size : p.data.length = 512) (i : Nat) :
    (⟨p.unit * 512, p.data⟩ : Piece Byte).Covers i ↔ i / 512 = p.unit := by
  rw [Piece.Covers]
  dsimp only
  omega

variable {i : Nat} {pending : List Pending}

/-- Sectors of other tracks lie elsewhere. -/
theorem onTrack_unit (hd : d.hd = true) (accepted : d.Accepts p.t p.h p.s)
    (here : i / 512 = p.unit) : d.OnTrack i ↔ p.t = d.track ∧ p.h = d.side := by
  obtain ⟨head, low, high, -⟩ := accepted.hd hd
  have side := d.side_le
  rw [onTrack_hd hd, here, Pending.unit]
  omega

/-- The image already holds a sector. -/
def Holds (d : SonyDrive) (p : Pending) : Prop :=
  (d.image.drop (d.imageOffset p.t p.h p.s.toNat)).take 512 = p.data

theorem mem_patch (hd : d.hd = true) {q : Piece Byte} :
    q ∈ d.patch p.t p.h p.s p.data ↔ d.Accepts p.t p.h p.s ∧ q = ⟨p.unit * 512, p.data⟩ := by
  rw [patch]
  split_ifs with accepted
  · rw [(accepted.hd hd).2.2.2, List.mem_singleton]
    exact (and_iff_right accepted).symm
  · exact iff_of_false List.not_mem_nil fun both => accepted both.1

/-- Sectors with different names lie apart. -/
theorem apart_patches (hd : d.hd = true)
    (distinct : (pending.map Pending.slot).Nodup) (sizes : ∀ p ∈ pending, p.data.length = 512) :
    (d.patches pending).Pairwise Piece.Apart := by
  refine List.pairwise_flatMap.mpr ⟨fun p _ => ?_, ?_⟩
  · rw [patch]
    split_ifs
    · exact List.pairwise_singleton _ _
    · exact .nil
  · refine (List.pairwise_map.mp distinct).imp_of_mem ?_
    intro p q first second differ x inside y inside' i covers covers'
    obtain ⟨accepted, rfl⟩ := (mem_patch hd).mp inside
    obtain ⟨accepted', rfl⟩ := (mem_patch hd).mp inside'
    rw [covers_unit (sizes p first)] at covers
    rw [covers_unit (sizes q second)] at covers'
    have places : p.unit = q.unit := covers.symm.trans covers'
    obtain ⟨head, low, high, -⟩ := accepted.hd hd
    obtain ⟨head', low', high', -⟩ := accepted'.hd hd
    rw [Pending.unit, Pending.unit] at places
    refine differ ?_
    rw [Pending.slot, Pending.slot, Prod.mk.injEq, Prod.mk.injEq]
    omega

theorem inside_patches (sizes : ∀ p ∈ pending, p.data.length = 512) :
    ∀ q ∈ d.patches pending, q.Inside d.image.length := by
  intro q inside
  obtain ⟨p, there, inside⟩ := List.mem_flatMap.mp inside
  exact inside_patch (sizes p there) inside

/-- The image behind the commit of a track: each sector that is accepted, and the rest as it
was. -/
theorem getElem?_patches (hd : d.hd = true) (distinct : (pending.map Pending.slot).Nodup)
    (sizes : ∀ p ∈ pending, p.data.length = 512) (there : p ∈ pending)
    (accepted : d.Accepts p.t p.h p.s) (here : i / 512 = p.unit) :
    (patched d.image (d.patches pending))[i]? = p.data[i - p.unit * 512]? :=
  getElem?_patched_inside (inside_patches sizes) (apart_patches hd distinct sizes)
    (List.mem_flatMap.mpr ⟨p, there, (mem_patch hd).mpr ⟨accepted, rfl⟩⟩)
    ((covers_unit (sizes p there) i).mpr here)

theorem Holds.getElem? (hd : d.hd = true) (accepted : d.Accepts p.t p.h p.s)
    (holds : d.Holds p) (here : i / 512 = p.unit) :
    p.data[i - p.unit * 512]? = d.image[i]? := by
  rw [← holds, (accepted.hd hd).2.2.2, List.getElem?_take_of_lt (by omega), List.getElem?_drop]
  congr 1
  omega

/-- A commit of an MFM track stays on the track under the head just if every sector that is
accepted does, or is there already. -/
theorem patches_stay_iff (hd : d.hd = true) (distinct : (pending.map Pending.slot).Nodup)
    (sizes : ∀ p ∈ pending, p.data.length = 512) :
    (∀ i, ¬d.OnTrack i → (patched d.image (d.patches pending))[i]? = d.image[i]?) ↔
      ∀ p ∈ pending, d.Accepts p.t p.h p.s → (p.t = d.track ∧ p.h = d.side) ∨ d.Holds p := by
  constructor
  · intro stays p there accepted
    refine or_iff_not_imp_left.mpr fun foreign => List.ext_getElem? fun j => ?_
    rw [(accepted.hd hd).2.2.2]
    by_cases inside : j < 512
    · have here : (p.unit * 512 + j) / 512 = p.unit := by omega
      have same := stays (p.unit * 512 + j) (mt (onTrack_unit hd accepted here).mp foreign)
      rw [getElem?_patches hd distinct sizes there accepted here, Nat.add_sub_cancel_left] at same
      rw [List.getElem?_take_of_lt inside, List.getElem?_drop, same]
    · have size := sizes p there
      rw [List.getElem?_eq_none, List.getElem?_eq_none (by omega)]
      rw [List.length_take]
      omega
  · intro known i outside
    by_cases covered : ∃ p ∈ pending, d.Accepts p.t p.h p.s ∧ i / 512 = p.unit
    · obtain ⟨p, there, accepted, here⟩ := covered
      rcases known p there accepted with own | holds
      · exact absurd ((onTrack_unit hd accepted here).mpr own) outside
      · rw [getElem?_patches hd distinct sizes there accepted here, holds.getElem? hd accepted here]
    · refine getElem?_patched_outside (inside_patches sizes) fun q inside covers => covered ?_
      obtain ⟨p, there, inside⟩ := List.mem_flatMap.mp inside
      obtain ⟨accepted, rfl⟩ := (mem_patch hd).mp inside
      exact ⟨p, there, accepted, (covers_unit (sizes p there) i).mp covers⟩

/-- A group coded commit stays on the track under the head. -/
theorem decodeGcrBytes_stays (d : SonyDrive) (nibbles : List Byte) (outside : ¬d.OnTrack i) :
    (d.decodeGcrBytes nibbles d.side1).1.image[i]? = d.image[i]? := by
  rw [decodeGcrBytes]
  split_ifs
  · rfl
  · have sizes : ∀ f ∈ gcrCommits (sectorsInTrack d.track) nibbles,
        f.tag.length = 12 ∧ f.data.length = 512 := fun f inside =>
      length_gcrFields f (mem_of_mem_firstBy inside)
    rw [(commitFields_spec d d.side1 0 (fun f there => (sizes f there).1)
      fun f there => (sizes f there).2).2.1]
    have pieces {q : Piece Byte}
        (inside : q ∈ d.fieldPatches d.side1.toNat (gcrCommits (sectorsInTrack d.track) nibbles)) :
        ∃ f : GcrField, f.data.length = 512 ∧ d.Accepts d.track d.side f.sector ∧
          q = ⟨d.imageOffset d.track d.side f.sector, f.data⟩ := by
      obtain ⟨f, there, inside⟩ := List.mem_flatMap.mp inside
      rw [patch] at inside
      split_ifs at inside with accepted
      · exact ⟨f, (sizes f there).2, accepted, List.mem_singleton.mp inside⟩
      · cases inside
    refine getElem?_patched_outside (fun q inside => ?_) fun q inside covers => outside ?_
    · obtain ⟨f, size, accepted, rfl⟩ := pieces inside
      rw [Piece.Inside, size]
      exact accepted.2.2.2.2.2.2
    · obtain ⟨f, size, ⟨-, -, -, -, -, number, -⟩, rfl⟩ := pieces inside
      rw [Piece.Covers, size, imageOffset_base] at covers
      have number : f.sector < d.sectorsOnCurrentTrack := Int.ofNat_lt.mp number
      have fits := unit_fits number (Nat.le_refl ((d.base + d.sectorsOnCurrentTrack) * 512))
      have start : d.base * 512 ≤ (d.base + f.sector) * 512 :=
        Nat.mul_le_mul_right _ (Nat.le_add_right _ _)
      exact ⟨start.trans covers.1, covers.2.trans_le fits⟩

/-! ## Writes -/

theorem same_cellsView {turns : Nat} {v : SonyDrive} (view : d.cellsView turns = some v) :
    SameContents d v := by
  obtain ⟨_, _, _, _, rfl⟩ := cellsView_cases view
  exact ⟨rfl, rfl, rfl⟩

/-- The writes that are decoded: those of a sector image, in the code of the medium. -/
def Decodes (d : SonyDrive) (w : FluxWrite) : Prop :=
  d.hasDisk = true ∧ d.writeProtected = false ∧ d.fluxRev ≠ 0 ∧ 0 < w.totalTicks ∧
    d.native = false ∧ w.mfm = d.mediaMfm

instance (d : SonyDrive) (w : FluxWrite) : Decidable (d.Decodes w) :=
  inferInstanceAs (Decidable (_ ∧ _))

variable {w : FluxWrite} {turns : Nat} {e : SonyDrive}

theorem Decodes.takes (decodes : d.Decodes w) : d.Takes w := by
  obtain ⟨disk, open_, turning, long, -, code⟩ := decodes
  exact ⟨disk, open_, turning, long, .inr code⟩

/-- Other writes leave the image alone. -/
theorem image_of_not_decodes (done : d.commitFlux w turns = some e) (other : ¬d.Decodes w) :
    e.image = d.image := by
  by_cases taken : d.Takes w
  · have native : d.native = true := by
      obtain ⟨disk, open_, turning, long, code⟩ := taken
      refine code.elim id fun code => Bool.not_eq_false _ ▸ fun image => ?_
      exact other ⟨disk, open_, turning, long, image, code⟩
    rw [commitFlux_of_takes taken, if_pos native] at done
    cases done
    rfl
  · rw [commitFlux_of_not_takes taken] at done
    cases done
    rfl

theorem commitFlux_of_decodes (decodes : d.Decodes w) (turns : Nat) :
    d.commitFlux w turns =
      (if d.mediaMfm then (d.verified w).decodeMfmCells turns
        else (d.verified w).decodeGcrCells turns).map fun d =>
          { d with inFluxCommit := false, decodeStartTick := 0, decodeSpanTicks := 0 } := by
  rw [commitFlux_of_takes decodes.takes, if_neg (Bool.eq_false_iff.mp decodes.2.2.2.2.1)]

/-- What is decoded is what the separator makes of the track with the write on it. -/
theorem image_decodeMfmCells {r : SonyDrive} (done : d.decodeMfmCells turns = some r) :
    ∃ v, d.cellsView turns = some v ∧ r.image = (v.commitPending v.pending).image := by
  obtain ⟨v, view, made⟩ := Option.bind_eq_some_iff.mp done
  refine ⟨v, view, ?_⟩
  by_cases empty : v.cells = []
  · have none : v.pending = [] := by
      rw [SonyDrive.pending, mfmBytes, splicedCells, empty]
      rfl
    rw [if_pos empty] at made
    rw [none, ← Option.some.inj made]
    rfl
  · rw [if_neg empty] at made
    cases made
    split_ifs
    · exact (same_encodeTrack _).image
    · rfl

theorem image_decodeGcrCells {r : SonyDrive} (done : d.decodeGcrCells turns = some r) {i : Nat}
    (outside : ¬d.OnTrack i) : r.image[i]? = d.image[i]? := by
  obtain ⟨v, view, made⟩ := Option.bind_eq_some_iff.mp done
  have same := same_cellsView view
  have track : v.track = d.track := congrArg Shape.track same.shape
  have hd : v.hd = d.hd := congrArg Shape.hd same.shape
  have sectors : v.sectorsOnCurrentTrack = d.sectorsOnCurrentTrack := by
    rw [sectorsOnCurrentTrack, sectorsOnCurrentTrack, track, hd]
  have stays := v.decodeGcrBytes_stays (gcrBytes v.cells) (by
    rwa [OnTrack, base_congr same.shape, sectors])
  rw [same.image] at stays
  by_cases empty : v.cells = []
  · rw [if_pos empty] at made
    cases made
    rw [same.image]
  · rw [if_neg empty] at made
    cases made
    split_ifs
    · rw [(same_encodeTrack _).image, stays]
    · exact stays

/-- A write stays on the track under the head just if the sectors of an MFM track do: each
sector that is accepted has to name that track, or to be there already. With a turn for every
tick of the track and of half a written cell, a write is always committed. -/
theorem write_stays_on_track_iff (d : SonyDrive) (w : FluxWrite) (turns : Nat) :
    (d.fluxRev + (d.verified w).reading.cellT / 2 + 2 < turns → ∃ e, d.commitFlux w turns = some e) ∧
    ∀ e, d.commitFlux w turns = some e →
      ((∀ i, ¬d.OnTrack i → e.image[i]? = d.image[i]?) ↔
        ∀ v, d.Decodes w → d.mediaMfm = true → (d.verified w).cellsView turns = some v →
          ∀ p ∈ v.pending, d.Accepts p.t p.h p.s →
            (p.t = d.track ∧ p.h = d.side) ∨ d.Holds p) := by
  refine ⟨exists_commitFlux, fun e done => ?_⟩
  by_cases decodes : d.Decodes w
  · rw [commitFlux_of_decodes decodes] at done
    obtain ⟨r, made, rfl⟩ := Option.map_eq_some_iff.mp done
    by_cases code : d.mediaMfm = true
    · rw [if_pos code] at made
      obtain ⟨v, view, image⟩ := image_decodeMfmCells made
      have same := same_cellsView view
      have patches : v.patches v.pending = d.patches v.pending := by
        rw [SonyDrive.patches, patch_congr same.shape]
        rfl
      have hd : d.hd = true := (Bool.and_eq_true_iff.mp code).2
      have distinct : (v.pending.map Pending.slot).Nodup := nodup_firstBy _
      rw [(v.commitPending_spec v.length_pending).2.1, patches, same.image] at image
      rw [image]
      refine (patches_stay_iff hd distinct v.length_pending).trans ⟨fun known v' _ _ view' => ?_,
        fun known => known v decodes code view⟩
      cases view.symm.trans view'
      exact known
    · rw [if_neg code] at made
      refine iff_of_true (fun i outside => ?_) fun v _ mfm => absurd mfm code
      exact image_decodeGcrCells made outside
  · refine iff_of_true (fun i _ => ?_) fun v other => absurd other decodes
    rw [image_of_not_decodes done decodes]

end

/-! ## Writes of a whole turn -/

/-- A write of a whole turn replaces the flux of a track. -/
theorem splice_whole {T : Nat} {cells old : List Bool} (positive : 0 < T) (set : true ∈ cells)
    (same : old.length = cells.length) {w : FluxWrite} (start : w.startTick = 0)
    (total : w.totalTicks = (cells.length * T : Nat)) (edges : w.atTicks = edgesFrom T 0 cells) :
    w.origin (cells.length * T : Nat) = 0 ∧
      w.splice (cells.length * T : Nat) (edgesFrom T 0 old) = edgesFrom T 0 cells := by
  generalize turn : ((cells.length * T : Nat) : Int) = rev at total
  have bounds {l : List Bool} (length : l.length = cells.length) {t : Int}
      (inside : t ∈ edgesFrom T 0 l) : 0 ≤ t ∧ t < rev := by
    have low := le_of_mem_edgesFrom inside
    have high := lt_of_mem_edgesFrom inside positive
    rw [Nat.zero_add, length, ← Int.natCast_mul] at high
    omega
  have discarded : w.discarded rev = 0 := by
    rw [FluxWrite.discarded, FluxWrite.span, total, min_self, Int.sub_self]
  have place {t : Int} (low : 0 ≤ t) (high : t < rev) : (w.startTick + t) % rev = t := by
    rw [start, Int.zero_add, Int.emod_eq_of_lt low high]
  refine ⟨?_, ?_⟩
  · rw [FluxWrite.origin, discarded, start, wrap, Int.zero_add, Int.zero_tmod,
      if_neg (Int.lt_irrefl 0)]
  · have turning : 0 < rev := by
      rw [← turn]
      exact Int.natCast_pos.mpr (Nat.mul_pos (List.length_pos_of_mem set) positive)
    refine (w.pairwise_splice rev _).eq_of_mem_iff (pairwise_edgesFrom positive 0 cells) fun t => ?_
    rw [FluxWrite.mem_splice turning fun t => bounds same, FluxWrite.Lays, edges, discarded, total]
    constructor
    · rintro (⟨old, kept⟩ | ⟨u, inside, -, -, rfl⟩)
      · obtain ⟨low, high⟩ := bounds same old
        exact absurd ⟨t, discarded ▸ low, total ▸ high, (place low high).symm⟩ kept
      · rwa [place (bounds rfl inside).1 (bounds rfl inside).2]
    · intro inside
      obtain ⟨low, high⟩ := bounds rfl inside
      exact .inr ⟨t, inside, low, high, (place low high).symm⟩

section

variable {d : SonyDrive} (disk : HdDisk d)
include disk

theorem HdDisk.laidOut : HdDisk d.laidOut := disk.of_shape (same_refreshStream d).shape

theorem HdDisk.length_cells : d.laidOut.cells.length = 195840 := by
  rw [disk.cells, length_feed_mfmCells, length_turn]

theorem HdDisk.fluxCellTicks : d.fluxCellTicks = 16384 := by
  rw [SonyDrive.fluxCellTicks, cellCycles, disk.mfmMode, disk.hd]
  rfl

theorem HdDisk.mem_cells : true ∈ d.laidOut.cells := by
  have first : true ∈ (mfmCells false 0x4E#16).2 := by decide
  rw [disk.cells, turn, show gap 80 0x4E#8 = 0x4E#16 :: gap 79 0x4E#8 from rfl, List.cons_append,
    List.cons_append]
  exact List.mem_append_left _ first

/-- The flux of the track, a transition for each cell that is set. -/
theorem HdDisk.flux :
    d.laidOut.flux = edgesFrom 16384 0 d.laidOut.cells ∧
      d.laidOut.fluxRev = d.laidOut.cells.length * 16384 := by
  have ticks := (disk.of_shape (same_refreshStream d).shape).fluxCellTicks
  rw [← ticks]
  exact ⟨rfl, rfl⟩

end

/-- A track of one disk, written over the track of another one, is read as it was. -/
theorem HdDisk.overwritten {d f : SonyDrive} (disk : HdDisk d) (other : HdDisk f) {w : FluxWrite}
    (start : w.startTick = 0) (clock : w.cellTicks = 0)
    (total : w.totalTicks = (f.laidOut.cells.length * 16384 : Nat))
    (edges : w.atTicks = f.laidOut.flux) :
    ∃ v, (d.laidOut.verified w).cellsView (f.laidOut.cells.length + 1) = some v ∧
      SameContents (d.laidOut.verified w) v ∧ v.pending = f.sectors := by
  have same : d.laidOut.cells.length = f.laidOut.cells.length := by
    rw [disk.length_cells, other.length_cells]
  obtain ⟨flux, rev⟩ := disk.flux
  obtain ⟨flux', -⟩ := other.flux
  obtain ⟨origin, splice⟩ := splice_whole (by decide) other.mem_cells same start
    total (edges.trans flux')
  rw [← flux, ← same, ← rev] at splice
  rw [← same, ← rev] at origin
  have ticks : (d.laidOut.verified w).fluxCellTicks = 16384 := disk.laidOut.fluxCellTicks
  have laid : (d.laidOut.verified w).flux = edgesFrom 16384 0 f.laidOut.cells := splice
  have turning : (d.laidOut.verified w).fluxRev = f.laidOut.cells.length * 16384 :=
    rev.trans (by rw [same])
  have started : (d.laidOut.verified w).decodeStartTick = 0 := by
    change (if d.laidOut.mediaMfm then w.origin d.laidOut.fluxRev else 0) = 0
    rw [origin, ite_self]
  have clocked : (d.laidOut.verified w).decodeCellTicks = 0 := by
    change (if 0 < w.cellTicks then w.cellTicks else 0) = 0
    rw [clock, if_neg (Int.lt_irrefl 0)]
  have dirty : (d.laidOut.verified w).cellsDirty = true := rfl
  have read := rebuildCellsFromFlux_edgesFrom other.mem_cells (by rwa [ticks])
    (by rwa [ticks]) clocked started (Nat.lt_succ_self f.laidOut.cells.length)
  exact ⟨_, (if_pos dirty).trans read, ⟨rfl, rfl, rfl⟩, other.pending rfl rfl rfl⟩

/-! ## Writes that stray -/

/-- A disk of high density that is full of ones, with the head on the next cylinder. -/
def full1440K : SonyDrive where
  image := List.replicate (2880 * 512) 1#8
  hd := true
  mfmMode := true
  track := 1

theorem hdDisk_full1440K : HdDisk full1440K :=
  ⟨rfl, rfl, rfl, rfl, List.length_replicate, by decide⟩

/-- A whole turn of flux, as the track of that disk has it. -/
def foreignTrack : FluxWrite where
  startTick := 0
  totalTicks := full1440K.laidOut.fluxRev
  atTicks := full1440K.laidOut.flux
  mfm := true

/-- With the head on cylinder 0 of a blank disk, a track is written whose addresses name
cylinder 1. It is cylinder 1 that changes. -/
theorem exists_foreign_commit :
    ∃ e, blank1440K.laidOut.commitFlux foreignTrack 195841 = some e ∧
      ¬blank1440K.laidOut.OnTrack 18432 ∧ blank1440K.laidOut.image[18432]? = some 0#8 ∧
      e.image[18432]? = some 1#8 := by
  have disk := hdDisk_blank1440K
  have other := hdDisk_full1440K
  have writable : blank1440K.laidOut.writeProtected = false :=
    congrArg Shape.writeProtected (same_refreshStream blank1440K).shape
  obtain ⟨-, rev⟩ := other.flux
  obtain ⟨-, turning⟩ := disk.flux
  obtain ⟨v, view, same, pending⟩ := disk.overwritten other (w := foreignTrack) rfl rfl
    (by rw [← rev]; rfl) rfl
  rw [other.length_cells] at view
  have written : HdDisk (blank1440K.laidOut.verified foreignTrack) := { disk.laidOut with }
  have held : HdDisk v := written.of_shape same.shape
  have decodes : blank1440K.laidOut.Decodes foreignTrack := by
    refine ⟨disk.laidOut.hasDisk, writable, ?_, ?_, disk.laidOut.native, ?_⟩
    · rw [turning, disk.length_cells]
      decide
    · change (0 : Int) < full1440K.laidOut.fluxRev
      rw [rev, other.length_cells]
      decide
    · rfl
  obtain ⟨r, made⟩ : ∃ r, (blank1440K.laidOut.verified foreignTrack).decodeMfmCells 195841 =
      some r := by
    rw [decodeMfmCells, view, Option.bind_eq_bind, Option.bind_some]
    split_ifs <;> exact ⟨_, rfl⟩
  obtain ⟨v', view', image⟩ := image_decodeMfmCells made
  cases view.symm.trans view'
  have code : blank1440K.laidOut.mediaMfm = true := by
    rfl
  have done := commitFlux_of_decodes decodes
  specialize done 195841
  rw [if_pos code, made] at done
  have stays : v.writeProtected = false := (congrArg Shape.writeProtected same.shape).trans writable
  have blank : blank1440K.laidOut.image = List.replicate (2880 * 512) 0#8 :=
    (same_refreshStream blank1440K).image
  have outside : ¬blank1440K.laidOut.OnTrack 18432 := by
    have side := blank1440K.laidOut.side_le
    rw [onTrack_hd disk.laidOut.hd,
      show blank1440K.laidOut.track = 0 from congrArg Shape.track (same_refreshStream _).shape]
    omega
  refine ⟨_, done, outside, ?_, ?_⟩
  · exact List.getElem?_replicate_of_lt (by decide)
  · rw [image, pending, other.transplant held stays, if_pos (by decide)]
    exact List.getElem?_replicate_of_lt (by decide)

theorem write_strays :
    ∃ e, blank1440K.laidOut.commitFlux foreignTrack 195841 = some e ∧
      ∃ i, ¬blank1440K.laidOut.OnTrack i ∧ e.image[i]? ≠ blank1440K.laidOut.image[i]? := by
  obtain ⟨e, done, outside, old, new⟩ := exists_foreign_commit
  refine ⟨e, done, 18432, outside, ?_⟩
  rw [old, new]
  decide

/-- There the sectors of the track give it away. -/
theorem write_stays_on_track_iff_foreign :
    ∃ e, blank1440K.laidOut.commitFlux foreignTrack 195841 = some e ∧
      ∃ v, (blank1440K.laidOut.verified foreignTrack).cellsView 195841 = some v ∧
        ∃ p ∈ v.pending, (p.t ≠ 0 ∨ p.h ≠ blank1440K.laidOut.side) ∧
          ¬blank1440K.laidOut.Holds p := by
  obtain ⟨e, done, outside, old, new⟩ := exists_foreign_commit
  have strays := mt ((write_stays_on_track_iff _ _ _).2 e done).mpr fun stays => by
    have same := stays 18432 outside
    rw [old, new] at same
    cases same
  simp only [not_forall, not_or] at strays
  obtain ⟨v, -, -, view, p, there, -, foreign, differs⟩ := strays
  rw [not_and_or] at foreign
  exact ⟨e, done, v, view, p, there, foreign, differs⟩

/-! ## Where the heads go -/

/-- The heads change sides, or step to a track next to theirs. -/
inductive Move
  | side (side1 : Bool)
  | step (toZero : Bool)

def move (d : SonyDrive) : Move → SonyDrive
  | .side side1 => d.selectSide side1
  | .step toZero => d.stepHead toZero

/-- The drive holds a raw image, in either coding. -/
def Raw (data : List Byte) (d : SonyDrive) : Prop := d.image = data ∧ (GcrDisk d ∨ HdDisk d)

section

variable {d : SonyDrive} {data : List Byte}

theorem Raw.placed (raw : Raw data d) {track : Nat} {side1 : Bool} (inside : track < 80)
    (sided : side1 = true → d.doubleSided = true) :
    Raw data { d with track, side1 }.encodeTrack := by
  have same := same_encodeTrack { d with track, side1 }
  refine ⟨same.image.trans raw.1, raw.2.imp (fun disk => ?_) fun disk => ?_⟩
  · refine GcrDisk.of_shape ?_ same.shape
    exact { disk with track := inside, sided }
  · refine HdDisk.of_shape ?_ same.shape
    exact { disk with track := inside }

theorem Raw.move (raw : Raw data d) (m : Move) : Raw data (d.move m) := by
  have inside : d.track < 80 := raw.2.elim (·.track) (·.track)
  cases m with
  | side side1 =>
    rw [SonyDrive.move, selectSide]
    split_ifs
    · exact raw
    · exact raw.placed inside fun second => (Bool.and_eq_true_iff.mp second).2
  | step toZero =>
    refine raw.placed ?_ (raw.2.elim (·.sided) fun disk _ => disk.doubleSided)
    split_ifs <;> omega

/-- Raw images of the three sizes are taken, and no others. -/
theorem raw_insertImage (d : SonyDrive) (data : List Byte) :
    match d.insertImage data with
    | none => data.length ≠ kSize800K ∧ data.length ≠ kSize400K ∧ data.length ≠ kSize1440K
    | some e => Raw data e := by
  rw [insertImage]
  split_ifs with other
  · exact other
  rw [not_and_or, not_and_or, not_not, not_not, not_not] at other
  refine ⟨(same_encodeTrack _).image, ?_⟩
  rcases other with size | size | size <;> rw [size]
  iterate 2
    refine .inl (GcrDisk.of_shape ?_ (same_encodeTrack _).shape)
    exact ⟨rfl, rfl, size.trans (by simp [kSize800K, kSize400K]), List.length_replicate,
      Nat.succ_pos 79, nofun⟩
  · refine .inr (HdDisk.of_shape ?_ (same_encodeTrack _).shape)
    exact ⟨rfl, rfl, rfl, rfl, size, Nat.succ_pos 79⟩

end

/-- Wherever the heads go over a raw image, the drive keeps it, and the track under them, as
it is laid out and written back, has all its sectors and changes nothing. -/
theorem inserted_track_rewritten (d : SonyDrive) (data : List Byte) (moves : List Move) :
    match d.insertImage data with
    | none => data.length ≠ kSize800K ∧ data.length ≠ kSize400K ∧ data.length ≠ kSize1440K
    | some e =>
      let f := run SonyDrive.move e moves
      f.image = data ∧ (f.writeProtected = false →
        if f.hd then f.laidOut.pending = f.sectors ∧ (f.commitPending f.sectors).image = data
        else
          let r := f.decodeGcrBytes (gcrBytes f.refreshStream.buildCells.cells) f.side1
          r.2 = sectorsInTrack f.track ∧ r.1.image = data) := by
  have raw := raw_insertImage d data
  generalize d.insertImage data = inserted at raw ⊢
  cases inserted with
  | none => exact raw
  | some e =>
    have raw := run_invariant (I := Raw data) (fun _ m raw => raw.move m) raw moves
    dsimp only
    obtain ⟨rfl, disk⟩ := raw
    refine ⟨rfl, fun writable => ?_⟩
    rcases disk with disk | disk
    · rw [disk.hd]
      obtain ⟨count, -, image, -⟩ := disk.transplant writable rfl
      exact ⟨count, List.ext_getElem? fun i => (image i).trans (ite_self _)⟩
    · rw [disk.hd]
      exact ⟨disk.pending rfl rfl rfl,
        List.ext_getElem? fun i => (disk.transplant disk writable i).trans (ite_self _)⟩

end SonyDrive

end Pom68k.Floppy
