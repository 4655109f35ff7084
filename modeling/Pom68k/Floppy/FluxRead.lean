import Mathlib.Tactic.Ring
import Pom68k.Floppy.Separator

/-! # Flux at the nominal rate is read back

The loop of the separator stays in phase with the transitions of a track that was laid out
at its own rate, and so reads the cells of the track.
-/

namespace Pom68k.Floppy

open SonyDrive

/-! ## Transitions of a track -/

section

variable {T i : Nat} {cells : List Bool} {t : Int}

theorem le_of_mem_edgesFrom (inside : t ∈ edgesFrom T i cells) : (i * T + T / 2 : Int) ≤ t := by
  induction cells generalizing i with
  | nil => cases inside
  | cons cell rest ih =>
    rcases List.mem_append.mp inside with here | later
    · split_ifs at here
      · exact (List.mem_singleton.mp here).ge
      · cases here
    · have next : ((i + 1 : Nat) * T : Int) = i * T + T := by push_cast; ring
      have := ih later
      omega

theorem lt_of_mem_edgesFrom (inside : t ∈ edgesFrom T i cells) (positive : 0 < T) :
    t < (i + cells.length : Nat) * T := by
  induction cells generalizing i with
  | nil => cases inside
  | cons cell rest ih =>
    have whole : ((i + (cell :: rest).length : Nat) * T : Int) =
        (i + 1 + rest.length : Nat) * T := by
      rw [List.length_cons, Nat.add_comm rest.length, Nat.add_assoc]
    rw [whole]
    rcases List.mem_append.mp inside with here | later
    · split_ifs at here
      · have behind : ((i + 1 + rest.length : Nat) * T : Int) =
            i * T + T + (rest.length * T : Nat) := by push_cast; ring
        rw [List.mem_singleton.mp here]
        omega
      · cases here
    · exact ih later

/-- Transitions come in order. -/
theorem pairwise_edgesFrom (positive : 0 < T) (i : Nat) (cells : List Bool) :
    (edgesFrom T i cells).Pairwise (· < ·) := by
  induction cells generalizing i with
  | nil => exact .nil
  | cons cell rest ih =>
    refine List.pairwise_append.mpr ⟨?_, ih (i + 1), fun a here b later => ?_⟩
    · split_ifs
      · exact List.pairwise_singleton _ _
      · exact .nil
    · have next : ((i + 1 : Nat) * T : Int) = i * T + T := by push_cast; ring
      have := le_of_mem_edgesFrom later
      split_ifs at here
      · rw [List.mem_singleton.mp here]
        omega
      · cases here

theorem edgesFrom_ne_nil (set : true ∈ cells) (T i : Nat) : edgesFrom T i cells ≠ [] := by
  induction cells generalizing i with
  | nil => cases set
  | cons cell rest ih =>
    rw [edgesFrom, Ne, List.append_eq_nil_iff]
    rintro ⟨here, later⟩
    rcases List.mem_cons.mp set with rfl | set
    · exact List.cons_ne_nil _ _ here
    · exact ih set (i + 1) later

theorem dropWhile_edgesFrom (T i : Nat) (cells : List Bool) :
    (edgesFrom T i cells).dropWhile (fun t : Int => t < i * T) = edgesFrom T i cells := by
  cases flux : edgesFrom T i cells with
  | nil => rfl
  | cons t rest =>
    have := le_of_mem_edgesFrom (flux ▸ List.mem_cons_self : t ∈ edgesFrom T i cells)
    rw [List.dropWhile_cons_of_neg]
    rw [decide_eq_true_eq]
    omega

end

/-! ## The loop in phase -/

/-- The loop at the beginning of a cell. -/
def FluxPll.inPhase (T i : Nat) : FluxPll := .clockedAt T (i * T)

namespace FluxPll

variable {T : Nat} (i : Nat) {limit : Int}

theorem next_inPhase (T i : Nat) :
    (inPhase T i).ctime + (inPhase T i).period + (inPhase T i).phaseAdjust = (i + 1 : Nat) * T := by
  change (i * T + T + 0 : Int) = _
  push_cast
  ring

/-- A transition in the middle of its cell pulls nothing. -/
theorem feedReadData_edge (even : T % 2 = 0) (room : (i + 1 : Nat) * T ≤ limit) :
    (inPhase T i).feedReadData (some (i * T + T / 2)) limit = some (.inPhase T (i + 1), true) := by
  have next : ((i + 1 : Nat) * T : Int) = i * T + T := by push_cast; ring
  have centred : (i * T + T / 2 - ((i + 1 : Nat) * T - (T : Int).tdiv 2) : Int) = 0 := by
    rw [Int.tdiv_eq_ediv_of_nonneg (Int.natCast_nonneg T)]
    omega
  have pulled : (inPhase T i).pulled ((i + 1 : Nat) * T) (i * T + T / 2) = inPhase T (i + 1) := by
    rw [FluxPll.pulled, show (inPhase T i).period = T from rfl, centred]
    rfl
  rw [feedReadData.eq_def, next_inPhase]
  dsimp only
  rw [if_neg (Int.not_lt.mpr room), if_neg (by omega), pulled]

/-- An empty cell leaves the loop alone. -/
theorem feedReadData_blank (room : (i + 1 : Nat) * T ≤ limit) {edge : Option Int}
    (later : ∀ t ∈ edge, (i + 1 : Nat) * T < t) :
    (inPhase T i).feedReadData edge limit = some (.inPhase T (i + 1), false) := by
  rw [feedReadData.eq_def, next_inPhase]
  rw [if_neg (Int.not_lt.mpr room)]
  cases edge with
  | none => rfl
  | some t =>
    dsimp only
    rw [if_pos (later t rfl)]
    rfl

end FluxPll

/-! ## Tracks -/

/-- Without an arc in it, a track is read to its end. -/
theorem Reading.boundary_none {r : Reading} (whole : r.arc = none) (stage : Stage) :
    r.boundary stage = r.rev := by
  unfold Reading.boundary
  rw [whole]

/-- The cells of a track are read back from its flux. -/
theorem Reading.separate_edgesFrom {r : Reading} (whole : r.arc = none) {T i : Nat}
    (even : T % 2 = 0) (positive : 0 < T) {cells : List Bool}
    (rev : r.rev = (i + cells.length : Nat) * T) {s : Separator} (phase : s.pll = .inPhase T i)
    (ahead : s.ahead.dropWhile (fun t : Int => t < i * T) = edgesFrom T i cells) {turns : Nat}
    (enough : cells.length < turns) :
    (r.separate turns s).map Separator.cells = some (s.cells ++ cells) := by
  induction cells generalizing i s turns with
  | nil =>
    obtain ⟨n, rfl⟩ : ∃ n, turns = n + 1 := ⟨turns - 1, by omega⟩
    have ended : r.rev ≤ s.pll.ctime := by
      rw [rev, phase]
      exact Int.le_refl _
    rw [separate, if_pos ended, List.append_nil]
    rfl
  | cons cell rest ih =>
    obtain ⟨n, rfl⟩ : ∃ n, turns = n + 1 := ⟨turns - 1, by omega⟩
    have next : ((i + 1 : Nat) * T : Int) = i * T + T := by push_cast; ring
    have later : r.rev = (i + 1 + rest.length : Nat) * T := by
      rw [rev, List.length_cons, Nat.add_comm rest.length, Nat.add_assoc]
    have room : ((i + 1 : Nat) * T : Int) ≤ r.boundary s.stage := by
      rw [boundary_none whole, later]
      exact Int.mul_le_mul_of_nonneg_right (by omega) (by omega)
    have begun : s.pll.ctime = i * T := by rw [phase]; rfl
    have inside : ¬r.rev ≤ s.pll.ctime := by
      rw [boundary_none whole] at room
      omega
    have step : s.pll.feedReadData (edgesFrom T i (cell :: rest)).head? (r.boundary s.stage) =
        some (.inPhase T (i + 1), cell) := by
      rw [phase]
      cases cell with
      | true => exact FluxPll.feedReadData_edge i even room
      | false =>
        refine FluxPll.feedReadData_blank i room fun t first => ?_
        have first : t ∈ (edgesFrom T (i + 1) rest).head? := first
        have := le_of_mem_edgesFrom (List.mem_of_mem_head? first)
        omega
    have behind : (if cell then (edgesFrom T i (cell :: rest)).tail
        else edgesFrom T i (cell :: rest)) = edgesFrom T (i + 1) rest := by
      cases cell <;> rfl
    rw [separate, if_neg inside]
    dsimp only
    rw [begun, ahead, step]
    dsimp only
    rw [behind, ih later rfl (dropWhile_edgesFrom T (i + 1) rest) (by
      rw [List.length_cons] at enough; omega), List.append_assoc]
    rfl

theorem fluxCellTicks_even (d : SonyDrive) : d.fluxCellTicks % 2 = 0 ∧ 0 < d.fluxCellTicks := by
  rw [fluxCellTicks, cellCycles]
  split_ifs <;> decide

/-- A drive reads the cells of a track that was laid out at its own rate. -/
theorem SonyDrive.rebuildCellsFromFlux_edgesFrom {d : SonyDrive} {cells : List Bool}
    (set : true ∈ cells) (flux : d.flux = edgesFrom d.fluxCellTicks 0 cells)
    (rev : d.fluxRev = cells.length * d.fluxCellTicks) (clock : d.decodeCellTicks = 0)
    (start : d.decodeStartTick = 0) {turns : Nat} (enough : cells.length < turns) :
    d.rebuildCellsFromFlux turns = some { d with
      cellsDirty := false
      cells := cells
      decodeWriteCellBegin := none
      decodeWriteCellEnd := none } := by
  obtain ⟨even, positive⟩ := fluxCellTicks_even d
  have turning : d.fluxRev ≠ 0 := by
    rw [rev]
    exact (Nat.mul_pos (List.length_pos_of_mem set) positive).ne'
  have whole : d.reading.arc = none := if_neg fun both => both.2.1.ne' start
  have begun : d.reading.start.pll = .inPhase d.fluxCellTicks 0 := by
    have clocked : d.reading.cellT = d.fluxCellTicks := if_neg fun faster => faster.ne' clock
    rw [Reading.start, whole, clocked]
    rw [FluxPll.inPhase, Int.ofNat_zero, Int.zero_mul]
    rfl
  have turn : d.reading.rev = (0 + cells.length : Nat) * d.fluxCellTicks := by
    rw [Nat.zero_add, ← Int.natCast_mul, ← rev]
    rfl
  have ahead : d.reading.start.ahead.dropWhile
      (fun t : Int => t < (0 : Nat) * d.fluxCellTicks) = edgesFrom d.fluxCellTicks 0 cells := by
    rw [← dropWhile_edgesFrom d.fluxCellTicks 0 cells, ← flux]
    rfl
  have read := Reading.separate_edgesFrom whole even positive turn begun ahead enough
  obtain ⟨s, separated, read⟩ := Option.map_eq_some_iff.mp read
  rw [rebuildCellsFromFlux,
    if_neg (not_or.mpr ⟨flux ▸ edgesFrom_ne_nil set d.fluxCellTicks 0, turning⟩), separated, whole,
    Option.map_some, read]
  rfl

/-- The cells of a track are those that are read from the flux it was seeded with, whatever
cells the drive holds by then: the loop never leaves its phase, from the first cell to the
seam. -/
theorem SonyDrive.rebuild_fluxSeedFromCells (d : SonyDrive) (set : true ∈ d.cells) {turns : Nat}
    (enough : d.cells.length < turns) (held : List Bool) :
    SonyDrive.rebuildCellsFromFlux { d.fluxSeedFromCells with cells := held } turns =
      some { d.fluxSeedFromCells with cellsDirty := false } :=
  rebuildCellsFromFlux_edgesFrom set rfl rfl rfl rfl enough

/-- Edges two, three and four cells apart, read back into a drive whose cells are gone. -/
theorem SonyDrive.rebuild_fluxSeedFromCells_cleared :
    let d : SonyDrive :=
      { cells := [false, true, false, true, false, false, true, false, false, false, true] }
    SonyDrive.rebuildCellsFromFlux { d.fluxSeedFromCells with cells := [] } 12 =
      some { d.fluxSeedFromCells with cellsDirty := false } :=
  rebuild_fluxSeedFromCells _ (by decide) (by decide) []

end Pom68k.Floppy
