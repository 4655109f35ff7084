import Pom68k.Floppy.Commits
import Pom68k.Floppy.Progress

/-! # Where a write goes

A write erases the arc that its last turn passes, and its transitions of that turn are laid
where the head was. The flux of the track stays in order and inside of its turn.
-/

namespace Pom68k.Floppy.SonyDrive

/-! ## Times and places -/

theorem wrap_eq_emod {rev : Int} (turning : 0 < rev) (t : Int) : wrap rev t = t % rev := by
  rw [wrap, Int.tmod_eq_emod]
  have low := Int.emod_nonneg t turning.ne'
  have high := Int.emod_lt_of_pos t turning
  split_ifs <;> omega

/-- Places add up on the circle. -/
theorem add_emod_of_lt {rev a b : Int} (low : 0 ≤ a) (high : a < rev) (low' : 0 ≤ b)
    (high' : b < rev) : (a + b) % rev = if a + b < rev then a + b else a + b - rev := by
  split_ifs with short
  · exact Int.emod_eq_of_lt (by omega) short
  · rw [← Int.sub_emod_right]
    exact Int.emod_eq_of_lt (by omega) (by omega)

namespace FluxWrite

/-- The places under the head in the last turn of a write. -/
def Passes (w : FluxWrite) (rev x : Int) : Prop :=
  ∃ u, w.discarded rev ≤ u ∧ u < w.totalTicks ∧ x = (w.startTick + u) % rev

/-- The transitions that the last turn of a write lays. -/
def Lays (w : FluxWrite) (rev x : Int) : Prop :=
  ∃ t ∈ w.atTicks, w.discarded rev ≤ t ∧ t < w.totalTicks ∧ x = (w.startTick + t) % rev

variable {w : FluxWrite} {rev x : Int} {flux : List Int}

theorem origin_add (turning : 0 < rev) (v : Int) :
    (w.origin rev + v) % rev = (w.startTick + (w.discarded rev + v)) % rev := by
  rw [origin, wrap_eq_emod turning, Int.emod_add_emod, Int.add_assoc]

theorem mem_laid (turning : 0 < rev) : x ∈ w.laid rev ↔ w.Lays rev x := by
  simp only [laid, List.mem_map, List.mem_filter, decide_eq_true_eq, wrap_eq_emod turning]
  refine exists_congr fun t => ?_
  rw [Int.add_sub_assoc, origin_add turning, add_sub_cancel, and_assoc, and_assoc, eq_comm]

/-- What is erased is what the head passes. -/
theorem erases_iff (turning : 0 < rev) (low : 0 ≤ x) (high : x < rev) :
    w.Erases rev x ↔ w.Passes rev x := by
  have from_ : 0 ≤ w.origin rev ∧ w.origin rev < rev := by
    rw [origin, wrap_eq_emod turning]
    exact ⟨Int.emod_nonneg _ turning.ne', Int.emod_lt_of_pos _ turning⟩
  have short : w.span rev ≤ rev := min_le_right _ _
  have whole : w.discarded rev + w.span rev = w.totalTicks := Int.sub_add_cancel _ _
  -- a place that is passed is as far behind the origin as its time is into the last turn
  have place {v : Int} (begun : 0 ≤ v) (open_ : v < w.span rev) :
      (w.startTick + (w.discarded rev + v)) % rev =
        if w.origin rev + v < rev then w.origin rev + v else w.origin rev + v - rev := by
    rw [← origin_add turning]
    exact add_emod_of_lt from_.1 from_.2 begun (by omega)
  constructor
  · intro erased
    by_cases behind : w.origin rev ≤ x
    · refine ⟨w.discarded rev + (x - w.origin rev), by omega, ?_, ?_⟩
      · rcases erased with inside | inside <;> omega
      · rw [place (by omega) (by rcases erased with inside | inside <;> omega)]
        omega
    · have wrapped := erased.resolve_left fun inside => behind inside.1
      refine ⟨w.discarded rev + (x - w.origin rev + rev), by omega, by omega, ?_⟩
      rw [place (by omega) (by omega)]
      omega
  · rintro ⟨u, begun, ended, rfl⟩
    obtain ⟨v, rfl⟩ : ∃ v, u = w.discarded rev + v := ⟨u - w.discarded rev, by omega⟩
    rw [Erases, place (by omega) (by omega)]
    split_ifs <;> omega

/-- The flux behind a write, in order. -/
theorem pairwise_splice (w : FluxWrite) (rev : Int) (flux : List Int) :
    (w.splice rev flux).Pairwise (· < ·) := by
  have sorted := List.pairwise_mergeSort' (· ≤ ·)
    ((flux.filter fun t => ¬w.Erases rev t) ++ w.laid rev)
  rw [splice, sorted.destutter_eq_dedup]
  exact ((sorted.sublist (List.dedup_sublist _)).and (List.nodup_dedup _)).imp fun both =>
    lt_of_le_of_ne both.1 both.2

theorem mem_splice (turning : 0 < rev) (inside : ∀ t ∈ flux, 0 ≤ t ∧ t < rev) :
    x ∈ w.splice rev flux ↔ (x ∈ flux ∧ ¬w.Passes rev x) ∨ w.Lays rev x := by
  have sorted := List.pairwise_mergeSort' (· ≤ ·)
    ((flux.filter fun t => ¬w.Erases rev t) ++ w.laid rev)
  rw [splice, sorted.destutter_eq_dedup, List.mem_dedup, List.mem_mergeSort, List.mem_append,
    mem_laid turning, List.mem_filter, decide_eq_true_eq]
  refine or_congr_left (and_congr_right fun old => ?_)
  rw [erases_iff turning (inside x old).1 (inside x old).2]

end FluxWrite

/-! ## The drive -/

variable {d e : SonyDrive} {w : FluxWrite} {turns : Nat}

/-- Sectors that are committed from flux leave the flux alone. -/
structure SameFlux (d e : SonyDrive) : Prop where
  flux : e.flux = d.flux
  rev : e.fluxRev = d.fluxRev
  commit : e.inFluxCommit = d.inFluxCommit

theorem SameFlux.rfl (d : SonyDrive) : SameFlux d d := ⟨Eq.refl _, Eq.refl _, Eq.refl _⟩

theorem SameFlux.trans {f : SonyDrive} (first : SameFlux d e) (second : SameFlux e f) :
    SameFlux d f :=
  ⟨second.flux.trans first.flux, second.rev.trans first.rev, second.commit.trans first.commit⟩

theorem sameFlux_writeSector (commit : d.inFluxCommit = true) (track side : Nat) (sector : Int)
    (data : List Byte) : SameFlux d (d.writeSector track side sector data).1 := by
  rw [writeSector]
  split_ifs
  · rw [sectorChanged, if_pos (show _ = true from commit)]
    split_ifs with here
    · rw [refreshStream]
      split_ifs <;> exact ⟨rfl, rfl, rfl⟩
    · exact ⟨rfl, rfl, rfl⟩
  · exact .rfl d

theorem sameFlux_foldl {σ α : Type} {step : σ → α → σ} (drive : σ → SonyDrive)
    (each : ∀ s a, (drive s).inFluxCommit = true → SameFlux (drive s) (drive (step s a))) (s : σ)
    (commit : (drive s).inFluxCommit = true) (l : List α) :
    SameFlux (drive s) (drive (l.foldl step s)) :=
  List.foldlRecOn (motive := fun s' => SameFlux (drive s) (drive s')) l step (.rfl _)
    fun s' same a _ => same.trans (each s' a (same.commit.trans commit))

theorem sameFlux_commitPending (commit : d.inFluxCommit = true) (pending : List Pending) :
    SameFlux d (d.commitPending pending) := by
  refine sameFlux_foldl id (fun d p commit => ?_) d commit pending
  exact sameFlux_writeSector commit p.t p.h p.s p.data

theorem sameFlux_decodeGcrBytes (commit : d.inFluxCommit = true) (nibbles : List Byte)
    (side1 : Bool) : SameFlux d (d.decodeGcrBytes nibbles side1).1 := by
  rw [decodeGcrBytes]
  split_ifs
  · exact .rfl d
  · refine sameFlux_foldl Prod.fst (fun r f commit => ?_) (d, 0) commit _
    have tags : SameFlux r.1 (r.1.writeTags side1.toNat f) := by
      rw [writeTags]
      split_ifs <;> exact ⟨rfl, rfl, rfl⟩
    exact tags.trans (sameFlux_writeSector (tags.commit.trans commit) _ _ _ _)

/-- Reading a track changes its cells only. -/
theorem cellsView_cases {v : SonyDrive} (view : d.cellsView turns = some v) :
    ∃ dirty cells first last, v = { d with
      cellsDirty := dirty
      cells := cells
      decodeWriteCellBegin := first
      decodeWriteCellEnd := last } := by
  rw [cellsView] at view
  split_ifs at view
  · rw [rebuildCellsFromFlux] at view
    split_ifs at view
    · cases view
      exact ⟨_, _, _, _, rfl⟩
    · obtain ⟨s, -, rfl⟩ := Option.map_eq_some_iff.mp view
      exact ⟨_, _, _, _, rfl⟩
  · cases view
    exact ⟨_, _, _, _, rfl⟩

theorem sameFlux_cellsView {v : SonyDrive} (view : d.cellsView turns = some v) : SameFlux d v := by
  obtain ⟨_, _, _, _, rfl⟩ := cellsView_cases view
  exact ⟨rfl, rfl, rfl⟩

/-- Behind a decoder that commits from flux, the track is not laid out anew. -/
theorem sameFlux_decoded {v r : SonyDrive} {idle : Prop} [Decidable idle]
    (commit : v.inFluxCommit = true) (same : SameFlux v r)
    (made : (if v.cells = [] then some v
      else some (if idle ∧ r.inFluxCommit = false then r.encodeTrack else r)) = some e) :
    SameFlux v e := by
  have committing : ¬(idle ∧ r.inFluxCommit = false) := fun stale =>
    Bool.eq_false_iff.mp stale.2 (same.commit.trans commit)
  split_ifs at made <;> cases made
  · exact .rfl _
  · exact same

theorem sameFlux_decode {mfm : Bool} (commit : d.inFluxCommit = true)
    (done : (if mfm then d.decodeMfmCells turns else d.decodeGcrCells turns) = some e) :
    SameFlux d e := by
  split_ifs at done
  all_goals
    obtain ⟨v, view, made⟩ := Option.bind_eq_some_iff.mp done
    have same := sameFlux_cellsView view
    have committing := same.commit.trans commit
    refine same.trans (sameFlux_decoded committing ?_ made)
  · exact sameFlux_commitPending committing _
  · exact sameFlux_decodeGcrBytes committing _ _

/-- The writes that are not dropped. -/
def Takes (d : SonyDrive) (w : FluxWrite) : Prop :=
  d.hasDisk = true ∧ d.writeProtected = false ∧ d.fluxRev ≠ 0 ∧ 0 < w.totalTicks ∧
    (d.native = true ∨ w.mfm = d.mediaMfm)

instance (d : SonyDrive) (w : FluxWrite) : Decidable (d.Takes w) :=
  inferInstanceAs (Decidable (_ ∧ _))

theorem commitFlux_of_not_takes (dropped : ¬d.Takes w) : d.commitFlux w turns = some d := by
  rw [commitFlux]
  split_ifs with refused mismatch
  · rfl
  · rfl
  all_goals
    refine absurd ?_ dropped
    simp only [not_or, not_and_not_right, Bool.not_eq_false, Bool.not_eq_true, Int.not_le]
      at refused mismatch
    refine ⟨refused.1, refused.2.1, refused.2.2.1, refused.2.2.2, ?_⟩
    cases native : d.native with
    | true => exact .inl rfl
    | false => exact .inr (mismatch native)

theorem commitFlux_of_takes (taken : d.Takes w) (turns : Nat) :
    d.commitFlux w turns =
      if d.native then some { d.spliced w with dirty := true }
      else
        (if d.mediaMfm then (d.verified w).decodeMfmCells turns
          else (d.verified w).decodeGcrCells turns).map fun d =>
            { d with inFluxCommit := false, decodeStartTick := 0, decodeSpanTicks := 0 } := by
  obtain ⟨disk, open_, turning, long, code⟩ := taken
  have refused : ¬(d.hasDisk = false ∨ d.writeProtected = true ∨ d.fluxRev = 0 ∨
      w.totalTicks ≤ 0) := by
    rw [disk, open_]
    simp only [Bool.true_eq_false, Bool.false_eq_true, false_or, not_or]
    exact ⟨turning, by omega⟩
  have mismatch : ¬(d.native = false ∧ w.mfm ≠ d.mediaMfm) := by
    rintro ⟨image, differs⟩
    exact code.elim (Bool.eq_false_iff.mp image) differs
  rw [commitFlux, if_neg refused, if_neg mismatch]

theorem flux_commitFlux (taken : d.Takes w) (done : d.commitFlux w turns = some e) :
    e.flux = w.splice d.fluxRev d.flux ∧ e.fluxRev = d.fluxRev := by
  rw [commitFlux_of_takes taken] at done
  by_cases native : d.native = true
  · rw [if_pos native] at done
    cases done
    exact ⟨rfl, rfl⟩
  · rw [if_neg native] at done
    obtain ⟨r, made, rfl⟩ := Option.map_eq_some_iff.mp done
    have same := sameFlux_decode rfl made
    exact ⟨same.flux, same.rev⟩

/-- A write is always committed: the track that it leaves is read to its end. -/
theorem exists_commitFlux (enough : d.fluxRev + (d.verified w).reading.cellT / 2 + 2 < turns) :
    ∃ e, d.commitFlux w turns = some e := by
  obtain ⟨v, view, -⟩ := exists_rebuildCellsFromFlux (d := d.verified w) enough
  obtain ⟨r, made⟩ : ∃ r, (if d.mediaMfm then (d.verified w).decodeMfmCells turns
      else (d.verified w).decodeGcrCells turns) = some r := by
    rw [decodeMfmCells, decodeGcrCells, show (d.verified w).cellsView turns = some v from view]
    simp only [Option.bind_eq_bind, Option.bind_some]
    split_ifs <;> exact ⟨_, rfl⟩
  by_cases taken : d.Takes w
  · rw [commitFlux_of_takes taken, made]
    split_ifs <;> exact ⟨_, rfl⟩
  · exact ⟨d, commitFlux_of_not_takes taken⟩

/-- The flux of a track behind a write: in order and inside of the turn, with the old
transitions outside of the arc that was written and the new ones in it. Other writes are
dropped as a whole. The separator is given a turn for every tick of the track and of half a
written cell, which is always enough to commit the write. -/
theorem commitFlux_splices (inside : ∀ t ∈ d.flux, 0 ≤ t ∧ t < d.fluxRev)
    (enough : d.fluxRev + (d.verified w).reading.cellT / 2 + 2 < turns) :
    ∃ e, d.commitFlux w turns = some e ∧
      if d.Takes w then
        e.fluxRev = d.fluxRev ∧ e.flux.Pairwise (· < ·) ∧
          (∀ t ∈ e.flux, 0 ≤ t ∧ t < e.fluxRev) ∧
          ∀ t, t ∈ e.flux ↔ (t ∈ d.flux ∧ ¬w.Passes d.fluxRev t) ∨ w.Lays d.fluxRev t
      else e = d := by
  obtain ⟨e, done⟩ := exists_commitFlux enough
  refine ⟨e, done, ?_⟩
  split_ifs with taken
  · obtain ⟨flux, rev⟩ := flux_commitFlux taken done
    have turning : (0 : Int) < d.fluxRev := Int.natCast_pos.mpr (Nat.pos_of_ne_zero taken.2.2.1)
    have members (t : Int) :
        t ∈ e.flux ↔ (t ∈ d.flux ∧ ¬w.Passes d.fluxRev t) ∨ w.Lays d.fluxRev t := by
      rw [flux, FluxWrite.mem_splice turning inside]
    refine ⟨rev, flux ▸ w.pairwise_splice d.fluxRev d.flux, fun t new => ?_, members⟩
    rw [rev]
    rcases (members t).mp new with ⟨old, -⟩ | ⟨u, -, -, -, rfl⟩
    · exact inside t old
    · exact ⟨Int.emod_nonneg _ turning.ne', Int.emod_lt_of_pos _ turning⟩
  · rw [commitFlux_of_not_takes taken] at done
    exact (Option.some.inj done).symm

/-- A write over the index of an image of 800K. -/
theorem commitFlux_splices_index :
    ∃ (d e : SonyDrive) (w : FluxWrite), d.native = false ∧ d.Takes w ∧
      d.commitFlux w 105 = some e ∧ e.flux.Pairwise (· < ·) ∧
      ∀ t, t ∈ e.flux ↔ (t ∈ d.flux ∧ ¬w.Passes 100 t) ∨ w.Lays 100 t := by
  let d : SonyDrive := { image := List.replicate 819200 0, flux := [10, 50, 95], fluxRev := 100 }
  let w : FluxWrite :=
    { startTick := 90, totalTicks := 30, atTicks := [5, 25], mfm := false, cellTicks := 4 }
  have taken : d.Takes w := by decide
  have inside : ∀ t ∈ d.flux, 0 ≤ t ∧ t < d.fluxRev := by decide
  have enough : d.fluxRev + (d.verified w).reading.cellT / 2 + 2 < 105 := by decide
  obtain ⟨e, done, spliced⟩ := commitFlux_splices inside enough
  rw [if_pos taken] at spliced
  exact ⟨d, e, w, rfl, taken, done, spliced.2.1, spliced.2.2.2⟩

end Pom68k.Floppy.SonyDrive
