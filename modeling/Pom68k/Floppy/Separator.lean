import Pom68k.Floppy.SonyDrive

/-! # The data separator

Flux is read back into cells by a loop that follows the phase and the rate of the
transitions. A track that was just written is read with the clock of the write inside of
the written arc and with its own outside.
-/

namespace Pom68k.Floppy

open Foundation

structure FluxPll where
  period : Int
  adjustBase : Int
  minPeriod : Int
  maxPeriod : Int
  ctime : Int := 0
  phaseAdjust : Int := 0
  freqHist : Int := 0
deriving DecidableEq

namespace FluxPll

/-- `setClock` of a loop as `readReset` leaves it. -/
def clockedAt (period ctime : Int) : FluxPll where
  period := period
  adjustBase := (period * 5).tdiv 100
  minPeriod := (period * 75).tdiv 100
  maxPeriod := (period * 125).tdiv 100
  ctime := ctime

def clamp (pll : FluxPll) (period : Int) : Int :=
  if period < pll.minPeriod then pll.minPeriod
  else if pll.maxPeriod < period then pll.maxPeriod
  else period

/-- How often the error has had its sign. -/
def history (pll : FluxPll) (delta : Int) : Int :=
  if delta < 0 then if pll.freqHist < 0 then pll.freqHist - 1 else -1
  else if 0 < delta then if 0 < pll.freqHist then pll.freqHist + 1 else 1
  else 0

/-- The loop with a transition in its window. -/
def pulled (pll : FluxPll) (next edge : Int) : FluxPll :=
  let delta := edge - (next - pll.period.tdiv 2)
  let freqHist := pll.history delta
  { pll with
    ctime := next
    phaseAdjust := (delta * 65).tdiv 100
    freqHist := freqHist
    period :=
      if 1 < freqHist.natAbs then pll.clamp (pll.period + (pll.adjustBase * delta).tdiv pll.period)
      else pll.period }

/-- The next cell, unless its window would cross the limit. -/
def feedReadData (pll : FluxPll) (edge : Option Int) (limit : Int) : Option (FluxPll × Bool) :=
  let next := pll.ctime + pll.period + pll.phaseAdjust
  if limit < next then none
  else
    match edge with
    | none => some ({ pll with ctime := next, phaseAdjust := 0 }, false)
    | some edge =>
      if next < edge then some ({ pll with ctime := next, phaseAdjust := 0 }, false)
      else some (pll.pulled next edge, true)

end FluxPll

/-- How a track is to be read. -/
structure Reading where
  flux : List Int
  rev : Int
  nominalT : Int
  cellT : Int
  /-- The written arc, if it lies inside of the turn. -/
  arc : Option (Int × Int)

/-- Before the written arc, in it, or behind it. -/
inductive Stage where
  | before | written | behind
deriving DecidableEq

structure Separator where
  pll : FluxPll
  ahead : List Int
  stage : Stage := .before
  cells : List Bool := []
  writeCellBegin : Nat := 0
  writeCellEnd : Nat := 0

namespace Reading

def start (r : Reading) : Separator where
  pll := .clockedAt (if r.arc.isSome then r.nominalT else r.cellT) 0
  ahead := r.flux

def boundary (r : Reading) (stage : Stage) : Int :=
  match r.arc, stage with
  | some (writeFrom, _), .before => writeFrom
  | some (_, writeTo), .written => writeTo
  | _, _ => r.rev

/-- The next stage: the written arc begins half a cell before its first transition, and
behind it the cells are again those of the track. -/
def turned (r : Reading) (s : Separator) : Option Separator :=
  match r.arc, s.stage with
  | some (writeFrom, _), .before =>
    some { s with
      stage := .written
      writeCellBegin := s.cells.length
      pll := .clockedAt r.cellT (writeFrom - r.cellT.tdiv 2)
      ahead := r.flux.dropWhile fun t => t < writeFrom }
  | some (_, writeTo), .written =>
    let resume := (writeTo + r.nominalT - 1).tdiv r.nominalT * r.nominalT
    some { s with
      stage := .behind
      writeCellEnd := s.cells.length
      pll := .clockedAt r.nominalT resume
      ahead := r.flux.dropWhile fun t => t < resume }
  | _, _ => none

/-- Cells are read until the turn is over; nothing if the loop takes more turns than it is
given. -/
def separate (r : Reading) : Nat → Separator → Option Separator
  | 0, _ => none
  | turns + 1, s =>
    if r.rev ≤ s.pll.ctime then some s
    else
      let ahead := s.ahead.dropWhile fun t => t < s.pll.ctime
      match s.pll.feedReadData ahead.head? (r.boundary s.stage) with
      | none =>
        match r.turned s with
        | none => some s
        | some s => r.separate turns s
      | some (pll, cell) =>
        r.separate turns
          { s with
            pll := pll
            ahead := if cell then ahead.tail else ahead
            cells := s.cells ++ [cell] }

end Reading

namespace SonyDrive

def reading (d : SonyDrive) : Reading where
  flux := d.flux
  rev := d.fluxRev
  nominalT := d.fluxCellTicks
  cellT := if 0 < d.decodeCellTicks then d.decodeCellTicks else d.fluxCellTicks
  arc :=
    if 0 < d.decodeSpanTicks ∧ 0 < d.decodeStartTick ∧
        d.decodeStartTick + d.decodeSpanTicks < d.fluxRev then
      some (d.decodeStartTick, d.decodeStartTick + d.decodeSpanTicks)
    else none

def rebuildCellsFromFlux (d : SonyDrive) (turns : Nat) : Option SonyDrive :=
  let blank :=
    { d with
      cellsDirty := false
      cells := []
      decodeWriteCellBegin := none
      decodeWriteCellEnd := none }
  if d.flux = [] ∨ d.fluxRev = 0 then some blank
  else
    (d.reading.separate turns d.reading.start).map fun s =>
      { blank with
        cells := s.cells
        decodeWriteCellBegin := d.reading.arc.map fun _ => s.writeCellBegin
        decodeWriteCellEnd := d.reading.arc.map fun _ => s.writeCellEnd }

def cellsView (d : SonyDrive) (turns : Nat) : Option SonyDrive :=
  if d.cellsDirty then d.rebuildCellsFromFlux turns else some d

end SonyDrive

end Pom68k.Floppy
