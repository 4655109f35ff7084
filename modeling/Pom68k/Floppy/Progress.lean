import Pom68k.Floppy.FluxRead
import Pom68k.Foundation.Runs

/-! # The progress of the separator

The loop of the separator is pulled by whole ticks, and what it is pulled by is rounded. Still its
window never closes: an early transition takes back less than the window that was left, and the
trim of the period is a twentieth of the clock. Every cell therefore moves the loop forward, and a
track is read to its end.
-/

namespace Pom68k.Floppy

open Foundation

namespace FluxPll

/-- The loop with the next transition so many ticks behind the beginning of its window, or with
none. -/
def fed (pll : FluxPll) (feed : Option Nat × Int) : FluxPll :=
  let edge := feed.1.map fun ticks : Nat => pll.ctime + ticks
  ((pll.feedReadData edge feed.2).map Prod.fst).getD pll

/-- The loop keeps to its clock and has a window in front of it. -/
structure Locked (clock : Int) (pll : FluxPll) : Prop where
  base : pll.adjustBase = clock * 5 / 100
  least : pll.minPeriod = clock * 75 / 100
  most : pll.maxPeriod = clock * 125 / 100
  slow : pll.minPeriod ≤ pll.period
  fast : pll.period ≤ pll.maxPeriod
  positive : 0 < pll.period
  window : 0 < pll.period + pll.phaseAdjust
  /-- A late transition is at most half a period late. -/
  late : 200 * pll.phaseAdjust ≤ 65 * pll.period

variable {clock : Int} {pll : FluxPll}

theorem locked_clockedAt (positive : 1 ≤ clock) (start : Int) :
    (clockedAt clock start).Locked clock := by
  have percent (n : Nat) : (clock * n).tdiv 100 = clock * n / 100 :=
    Int.tdiv_eq_ediv_of_nonneg (Int.mul_nonneg (by omega) (by omega))
  refine ⟨percent 5, percent 75, percent 125, ?_, ?_, ?_, ?_, ?_⟩
  · exact (percent 75).trans_le (by change _ ≤ clock; omega)
  · exact le_of_le_of_eq (by change clock ≤ _; omega) (percent 125).symm
  all_goals
    simp only [clockedAt]
    omega

/-- A quotient is rounded towards zero. -/
theorem tdiv_bounds (x : Int) {n : Int} (positive : 0 < n) :
    (0 ≤ x → 0 ≤ x.tdiv n ∧ n * x.tdiv n ≤ x) ∧ (x ≤ 0 → x ≤ n * x.tdiv n ∧ x.tdiv n ≤ 0) := by
  have nonneg {x : Int} (some : 0 ≤ x) : 0 ≤ x.tdiv n ∧ n * x.tdiv n ≤ x :=
    ⟨Int.tdiv_nonneg some positive.le,
      Int.tdiv_eq_ediv_of_nonneg some ▸ Int.mul_ediv_self_le positive.ne'⟩
  refine ⟨nonneg, fun none => ?_⟩
  have opposite := nonneg (Int.neg_nonneg_of_nonpos none)
  rw [Int.neg_tdiv, Int.mul_neg] at opposite
  omega

theorem clamp_bounds (ordered : pll.minPeriod ≤ pll.maxPeriod) (period : Int) :
    pll.minPeriod ≤ pll.clamp period ∧ pll.clamp period ≤ pll.maxPeriod ∧
      ∀ least, least ≤ period → least ≤ pll.maxPeriod → least ≤ pll.clamp period := by
  unfold clamp
  split_ifs <;> refine ⟨?_, ?_, fun least below fast => ?_⟩ <;> omega

/-- The trim goes the way of the error, by at most the base. -/
theorem Locked.trimmed (locked : pll.Locked clock) {delta : Int} (near : -pll.period ≤ delta) :
    ∃ period, (if 1 < (pll.history delta).natAbs then
        pll.clamp (pll.period + (pll.adjustBase * delta).tdiv pll.period)
        else pll.period) = period ∧
      pll.minPeriod ≤ period ∧ period ≤ pll.maxPeriod ∧ (0 ≤ delta → pll.period ≤ period) ∧
      (delta ≤ 0 → pll.period - pll.adjustBase ≤ period) := by
  obtain ⟨base, least, most, slow, fast, positive, _, _⟩ := locked
  have some : 0 ≤ pll.adjustBase := by omega
  obtain ⟨later, early⟩ := tdiv_bounds (pll.adjustBase * delta) positive
  refine ⟨_, rfl, ?_⟩
  split_ifs
  · obtain ⟨least, most, clamped⟩ := clamp_bounds (slow.trans fast)
      (pll.period + (pll.adjustBase * delta).tdiv pll.period)
    refine ⟨least, most, fun late => clamped _ ?_ fast, fun soon => clamped _ ?_ (by omega)⟩
    · exact Int.le_add_of_nonneg_right (later (Int.mul_nonneg some late)).1
    · have size : pll.period * -pll.adjustBase ≤
          pll.period * (pll.adjustBase * delta).tdiv pll.period := by
        refine le_trans ?_ (early (Int.mul_nonpos_of_nonneg_of_nonpos some soon)).1
        rw [Int.mul_comm, Int.neg_mul_comm]
        exact Int.mul_le_mul_of_nonneg_left near some
      have := Int.le_of_mul_le_mul_left size positive
      omega
  · exact ⟨slow, fast, fun _ => le_rfl, fun _ => by omega⟩

/-- A transition in the window leaves a window behind it. -/
theorem Locked.pulled (locked : pll.Locked clock) {edge : Int} (some : pll.ctime ≤ edge)
    (inside : edge ≤ pll.ctime + pll.period + pll.phaseAdjust) :
    (pll.pulled (pll.ctime + pll.period + pll.phaseAdjust) edge).Locked clock := by
  unfold FluxPll.pulled
  dsimp only
  have half : pll.period.tdiv 2 = pll.period / 2 := Int.tdiv_eq_ediv_of_nonneg locked.positive.le
  generalize error : edge - (pll.ctime + pll.period + pll.phaseAdjust - pll.period.tdiv 2) = delta
  have phase := tdiv_bounds (delta * 65) (n := 100) (by decide)
  obtain ⟨base, least, most, _, _, positive, window, late⟩ := id locked
  obtain ⟨period, trim, slow, fast, trimmed⟩ := locked.trimmed (show -pll.period ≤ delta by omega)
  rw [trim]
  refine ⟨base, least, most, slow, fast, ?_, ?_, ?_⟩ <;> dsimp only <;> omega

/-- A completed cell moves the loop forward and leaves it locked. -/
theorem Locked.feedReadData (locked : pll.Locked clock) {edge : Option Int} {limit : Int}
    (later : ∀ t ∈ edge, pll.ctime ≤ t) {next : FluxPll} {cell : Bool}
    (completed : pll.feedReadData edge limit = some (next, cell)) :
    next.Locked clock ∧ pll.ctime < next.ctime ∧ next.ctime ≤ limit := by
  have window := locked.window
  have positive := locked.positive
  have blank (ctime : Int) : Locked clock { pll with ctime, phaseAdjust := 0 } :=
    { locked with
      window := by dsimp only; omega
      late := by dsimp only; omega }
  unfold FluxPll.feedReadData at completed
  dsimp only at completed
  split at completed
  · cases completed
  split at completed
  · cases completed
    refine ⟨blank _, ?_, ?_⟩ <;> dsimp only <;> omega
  · rename_i edge
    split at completed
    · cases completed
      refine ⟨blank _, ?_, ?_⟩ <;> dsimp only <;> omega
    · cases completed
      refine ⟨locked.pulled (later edge rfl) (by omega), ?_, ?_⟩ <;>
        dsimp only [FluxPll.pulled] <;> omega

theorem Locked.fed (locked : pll.Locked clock) (feed : Option Nat × Int) :
    (pll.fed feed).Locked clock := by
  unfold FluxPll.fed
  dsimp only
  cases completed : pll.feedReadData (feed.1.map fun ticks : Nat => pll.ctime + ticks) feed.2 with
  | none => exact locked
  | some result =>
    refine (locked.feedReadData (fun t first => ?_) completed).1
    obtain ⟨ticks, _, rfl⟩ := Option.map_eq_some_iff.mp first
    exact Int.le_add_of_nonneg_right (Int.natCast_nonneg ticks)

end FluxPll

namespace Reading

/-- The clocks tick, and a written arc lies behind the beginning of the turn. -/
structure Proper (r : Reading) : Prop where
  nominal : 1 ≤ r.nominalT
  written : 1 ≤ r.cellT
  turn : 0 ≤ r.rev
  arc : ∀ writeFrom writeTo, r.arc = some (writeFrom, writeTo) → 0 ≤ writeFrom ∧ writeFrom ≤ writeTo

/-- How far the loop can still go. Where the written arc begins it goes back half a cell. -/
def left (r : Reading) (s : Separator) : Int :=
  r.rev - s.pll.ctime +
    match s.stage with
    | .before => r.cellT / 2 + 2
    | .written => 1
    | .behind => 0

structure Underway (r : Reading) (s : Separator) : Prop where
  locked : ∃ clock, s.pll.Locked clock
  inside : s.stage = .behind ∨ s.pll.ctime ≤ r.boundary s.stage

variable {r : Reading} {s : Separator}

theorem Proper.underway_start (proper : r.Proper) : r.Underway r.start := by
  refine ⟨⟨_, FluxPll.locked_clockedAt ?_ 0⟩, Or.inr ?_⟩
  · split
    · exact proper.nominal
    · exact proper.written
  · unfold boundary
    cases arc : r.arc with
    | none => exact proper.turn
    | some ends => exact (proper.arc ends.1 ends.2 arc).1

theorem Underway.turned (underway : r.Underway s) (proper : r.Proper) {next : Separator}
    (turned : r.turned s = some next) :
    r.Underway next ∧ r.left next < r.left s ∧ next.cells = s.cells := by
  obtain ⟨_, inside⟩ := underway
  have nominal := proper.nominal
  have written := proper.written
  unfold Reading.turned at turned
  unfold boundary at inside
  split at turned
  · rename_i writeFrom writeTo arc stage
    obtain ⟨some, ordered⟩ := proper.arc _ _ arc
    have half : r.cellT.tdiv 2 = r.cellT / 2 := Int.tdiv_eq_ediv_of_nonneg (by omega)
    cases turned
    rw [arc, stage] at inside
    have before := inside.resolve_left nofun
    refine ⟨⟨⟨_, FluxPll.locked_clockedAt written _⟩, Or.inr ?_⟩, ?_, rfl⟩
    · change writeFrom - r.cellT.tdiv 2 ≤ r.boundary .written
      unfold boundary
      rw [arc]
      dsimp only
      omega
    · rw [left, left, stage]
      dsimp only [FluxPll.clockedAt] at before ⊢
      omega
  · rename_i writeFrom writeTo arc stage
    obtain ⟨some, ordered⟩ := proper.arc _ _ arc
    cases turned
    rw [arc, stage] at inside
    have before := inside.resolve_left nofun
    refine ⟨⟨⟨_, FluxPll.locked_clockedAt nominal _⟩, Or.inl rfl⟩, ?_, rfl⟩
    have resume : writeTo ≤ (writeTo + r.nominalT - 1).tdiv r.nominalT * r.nominalT := by
      rw [Int.tdiv_eq_ediv_of_nonneg (by omega)]
      have := Int.lt_ediv_add_one_mul_self (writeTo + r.nominalT - 1) (show 0 < r.nominalT by omega)
      rw [Int.add_mul] at this
      omega
    rw [left, left, stage]
    dsimp only [FluxPll.clockedAt] at before ⊢
    omega
  · cases turned

/-- The separator comes to an end in as many turns as the loop can go forward by ticks. -/
theorem Underway.separate (underway : r.Underway s) (proper : r.Proper) (ticks : Nat)
    (left : r.left s ≤ ticks) {turns : Nat} (enough : ticks < turns) :
    ∃ e, r.separate turns s = some e ∧ e.cells.length ≤ s.cells.length + ticks := by
  induction turns generalizing s ticks with
  | zero => exact absurd enough (Nat.not_lt_zero _)
  | succ turns ih =>
    rw [Reading.separate]
    split
    · exact ⟨s, rfl, Nat.le_add_right _ _⟩
    have some : 0 < ticks := by
      have written := proper.written
      rw [Reading.left] at left
      split at left <;> omega
    dsimp only
    split
    · split
      · exact ⟨s, rfl, Nat.le_add_right _ _⟩
      · rename_i next turned
        obtain ⟨goes, less, cells⟩ := underway.turned proper turned
        obtain ⟨e, ended, count⟩ := ih goes (ticks - 1) (by omega) (by omega)
        exact ⟨e, ended, by rw [cells] at count; omega⟩
    · rename_i pll cell completed
      obtain ⟨clock, locked⟩ := underway.locked
      have later := List.head?_dropWhile_not (fun t : Int => t < s.pll.ctime) s.ahead
      obtain ⟨kept, forward, inside⟩ := locked.feedReadData (fun t first => by
        rw [Option.mem_def.mp first] at later
        simpa using later) completed
      obtain ⟨e, ended, count⟩ := ih (s := { s with pll, ahead := _, cells := _ })
        ⟨⟨clock, kept⟩, Or.inr inside⟩ (ticks - 1)
        (by rw [Reading.left] at left ⊢; dsimp only; omega) (by omega)
      refine ⟨e, ended, count.trans ?_⟩
      rw [List.length_append, List.length_singleton]
      omega

end Reading

theorem SonyDrive.proper_reading (d : SonyDrive) : d.reading.Proper := by
  have positive := (fluxCellTicks_even d).2
  refine ⟨?_, ?_, Int.natCast_nonneg _, fun writeFrom writeTo arc => ?_⟩
  · change 1 ≤ (d.fluxCellTicks : Int)
    omega
  · change 1 ≤ if 0 < d.decodeCellTicks then d.decodeCellTicks else (d.fluxCellTicks : Int)
    split <;> omega
  · obtain ⟨inside, same⟩ := Option.ite_none_right_eq_some.mp arc
    cases same
    omega

/-- A drive has read its cells once the separator has had a turn for every tick. -/
theorem SonyDrive.exists_rebuildCellsFromFlux {d : SonyDrive} {turns : Nat}
    (enough : d.fluxRev + d.reading.cellT / 2 + 2 < turns) :
    ∃ e, d.rebuildCellsFromFlux turns = some e ∧
      e.cells.length ≤ d.fluxRev + d.reading.cellT / 2 + 2 := by
  have proper := d.proper_reading
  obtain ⟨ticks, bound⟩ : ∃ ticks : Nat, d.fluxRev + d.reading.cellT / 2 + 2 = ticks :=
    Int.eq_ofNat_of_zero_le (by have := proper.written; omega)
  rw [bound] at enough ⊢
  unfold SonyDrive.rebuildCellsFromFlux
  split
  · exact ⟨_, rfl, Int.natCast_nonneg _⟩
  obtain ⟨e, ended, count⟩ := proper.underway_start.separate proper ticks
    (by change (d.fluxRev : Int) - 0 + (d.reading.cellT / 2 + 2) ≤ _; omega)
    (Int.ofNat_lt.mp enough)
  rw [ended]
  exact ⟨_, rfl, Int.ofNat_le.mpr ((Nat.zero_add ticks) ▸ count)⟩

/-- The period of a loop stays between three quarters of its clock, rounded down to a tick, and
five quarters, so that nothing is ever divided by zero, and every completed cell moves the
beginning of the window forward. A drive therefore reads the cells of any flux, and no more of
them than a turn and half a written cell have ticks. -/
theorem flux_pll_progress :
    (∀ clock : Int, 1 ≤ clock → ∀ (start : Int) (feeds : List (Option Nat × Int)),
      let pll := run FluxPll.fed (.clockedAt clock start) feeds
      clock * 75 / 100 ≤ pll.period ∧ 100 * pll.period ≤ 125 * clock ∧ pll.period ≠ 0 ∧
        ∀ (edge : Option Int) (limit : Int) (next : FluxPll) (cell : Bool),
          (∀ t ∈ edge, pll.ctime ≤ t) → pll.feedReadData edge limit = some (next, cell) →
            pll.ctime < next.ctime) ∧
    ∀ (d : SonyDrive) (turns : Nat), d.fluxRev + d.reading.cellT / 2 + 2 < turns →
      ∃ e, d.rebuildCellsFromFlux turns = some e ∧
        e.cells.length ≤ d.fluxRev + d.reading.cellT / 2 + 2 := by
  refine ⟨fun clock positive start feeds => ?_, fun _ _ => SonyDrive.exists_rebuildCellsFromFlux⟩
  · have locked : (run FluxPll.fed (.clockedAt clock start) feeds).Locked clock :=
      run_invariant (fun _ feed locked => locked.fed feed)
        (FluxPll.locked_clockedAt positive start) feeds
    intro pll
    change pll.Locked clock at locked
    refine ⟨locked.least ▸ locked.slow, ?_, locked.positive.ne', fun edge limit next cell later
      completed => (locked.feedReadData later completed).2.1⟩
    have := locked.fast
    rw [locked.most] at this
    omega

/-- A transition that comes to a loop after others moves its window forward, and the cells of
three transitions are read within the bound. -/
theorem flux_pll_progress_fed :
    let pll := run FluxPll.fed (.clockedAt 41 0) [(some 0, 2000), (none, 2000)]
    let d : SonyDrive := { flux := [50000, 114000, 210000], fluxRev := 254000 }
    (∃ next cell, pll.feedReadData (some 100) 2000 = some (next, cell) ∧ pll.ctime < next.ctime) ∧
      ∃ e, d.rebuildCellsFromFlux 300000 = some e ∧
        e.cells.length ≤ d.fluxRev + d.reading.cellT / 2 + 2 := by
  intro pll d
  refine ⟨?_, flux_pll_progress.2 d 300000 (by decide)⟩
  obtain ⟨⟨next, cell⟩, completed⟩ := Option.isSome_iff_exists.mp
    (by decide +kernel : (pll.feedReadData (some 100) 2000).isSome = true)
  refine ⟨next, cell, completed, ?_⟩
  refine (flux_pll_progress.1 41 (by decide) 0 _).2.2.2 _ _ _ _ ?_ completed
  rintro _ ⟨⟩
  decide +kernel

/-- With a clock of 41 ticks the least period is 30 ticks, and transitions that come as early as
can be pull the loop there: three quarters of the clock are more. -/
theorem flux_pll_below :
    let pll := run FluxPll.fed (.clockedAt 41 0)
      (List.replicate 12 [(some 0, 2000), (none, 2000)]).flatten
    pll.period = 30 ∧ 100 * pll.period < 75 * 41 := by
  decide +kernel

end Pom68k.Floppy
