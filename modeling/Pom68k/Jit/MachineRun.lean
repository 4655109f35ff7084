import Pom68k.Jit.Freshness

/-! # Runs of the machine

One turn of `executeUntil` arms the window, looks a block up and runs it or traces
a new one; between turns the interpreter runs instructions of its own. The turn
reports which block it dispatched and which it filed, so that both can be held
against memory at that moment.
-/

namespace Pom68k.Jit

variable {ram : Ram} {cfg : Config}

/-- The answer of `pomJitProbeCode`: where the page of a logical address lies. -/
structure CodeProbe where
  phys : Addr
  pageBase : Addr
  pageLen : Addr
  short : pageLen.toNat ≤ 32768
  logical : pageBase.toNat + pageLen.toNat ≤ 2 ^ 32

/-- What the processor, the memory map and the backend answer during one turn. -/
structure MachineTurn (ram : Ram) where
  site : Site
  pipeLive : Bool := false
  paranoid : Bool := false
  cacheMatches : Addr → Bool := fun _ => true
  probe : Option CodeProbe
  count : Nat := 0
  script : Nat → TraceStep ram
  nativePotential : List Instr → Nat := fun _ => 0
  answer : CompileAnswer
  codeMatches : Bool := true
  events : List (BusEvent ram) := []

/-- The machine after a turn, the block the turn dispatched, the block it filed, and
where its trace began. -/
structure Outcome (ram : Ram) where
  after : Machine ram
  dispatched : Option (Block ram) := none
  filed : Option (Block ram) := none
  traced : Option (Machine ram) := none

/-- The block the end of `record` emplaces, if it emplaces one. -/
def Engine.filedBlock (e : Engine ram) (admission : ShiftVersionCache.Admission)
    {w : CodeWindow ram} {site : Site} (line : Option (Line ram w site)) : Option (Block ram) :=
  match line with
  | none => none
  | some line =>
    if e.pendingFlush ∨ (AList.lookup admission.cacheKey e.blocks).isSome then none
    else some (e.newBlock admission line)

namespace Machine

/-- The window `armWindow` validates for the page of the program counter. -/
def validate (m : Machine ram) (t : MachineTurn ram) : Option (CodeWindow ram) :=
  match t.probe with
  | none => none
  | some p =>
    let page := p.phys - (t.site.pc - p.pageBase)
    let len := min p.pageLen.toNat (m.map.span page.toNat)
    if fits : 4 ≤ len ∧ t.site.pc - p.pageBase ≤ BitVec.ofNat 32 len - 4 ∧
        t.cacheMatches t.site.pc = true then
      have value : (BitVec.ofNat 32 len).toNat = len := by
        have short := p.short
        rw [BitVec.toNat_ofNat]
        omega
      have nonempty : m.map.span page.toNat ≠ 0 := by omega
      some
        { host := m.map.read page.toNat, base := p.pageBase, phys := page
          len := BitVec.ofNat 32 len, gen := m.engine.mmuGen, super := t.site.super
          long := by omega
          short := by have := p.short; omega
          logical := by have := p.logical; omega
          physical := by have := m.map.inSpace page.toNat nonempty; omega
          inRam := fun inside => by have := m.map.inRam page.toNat inside; omega
          readOnly := fun byte above below outside =>
            m.map.readOnly page.toNat byte nonempty above (by omega) outside }
    else none

/-- The armed window, if it still covers the program counter and nothing is pending. -/
def coveringWindow (m : Machine ram) (t : MachineTurn ram) : Option (CodeWindow ram) :=
  match m.engine.window with
  | none => none
  | some w =>
    if !t.paranoid && w.covers m.engine.mmuGen t.site.super t.cacheMatches t.site.pc &&
        !m.engine.guard.tripped then some w
    else none

/-- `Engine::armWindow`. -/
def armWindow (m : Machine ram) (t : MachineTurn ram) : Machine ram × Option (CodeWindow ram) :=
  if t.pipeLive then ({ m with engine := m.engine.disarmWindow }, none)
  else
    match m.coveringWindow t with
    | some w => (m, some w)
    | none => ({ m with engine := m.engine.armWindow (m.validate t) }, m.validate t)

/-- The machine while guest instructions run on behalf of a block. -/
def entered (m : Machine ram) : Machine ram :=
  { m with engine := { m.engine with running := true } }

/-- Running generated code, and the service of what it asked for. -/
def runBlock (cfg : Config) (m : Machine ram) (events : List (BusEvent ram)) : Machine ram :=
  let ran := m.entered.applyBusAll cfg events
  let e := { ran.engine with running := false }
  let e := if e.pendingFlush then e.flushAll else if e.guard.tripped then e.serviceGuard else e
  { ran with engine := e }

/-- The rest of a turn once a block was found. -/
def execute (cfg : Config) (m : Machine ram) (t : MachineTurn ram) (k : Key) (b : Block ram) :
    Machine ram :=
  let visited := m.engine.visitBlock cfg t.site k b t.answer
  let m := { m with engine := visited.1 }
  if visited.2 then
    match AList.lookup k m.engine.blocks with
    | some b => if b.code.isSome && t.codeMatches then m.runBlock cfg t.events else m
    | none => m
  else m

/-- What `record` makes of a finished trace. -/
def fileTraced (traced : Traced ram) (t : MachineTurn ram)
    (admission : ShiftVersionCache.Admission) {w : CodeWindow ram}
    (line : Option (Line ram w t.site)) (start : Machine ram) : Outcome ram :=
  let e := (traced.machine.engine.remembering traced.remembered).idle
  { after := { traced.machine with engine := e.endRecord admission line }
    filed := e.filedBlock admission line
    traced := some start }

/-- The tracing loop of `record` and what becomes of the line. The window it reads
the page from is the one that is armed. -/
def traceAndFile (cfg : Config) (m : Machine ram) (t : MachineTurn ram)
    (admission : ShiftVersionCache.Admission) : Outcome ram :=
  match armed : m.entered.engine.window with
  | none => { after := m }
  | some w =>
    let traced := traceLoop cfg t.site t.script cfg.maxInstrs 0 m.entered t.site []
    fileTraced traced t admission (traced.toLine w t.site t.nativePotential
      (traceLoop_straight armed cfg.maxInstrs).2 (traceLoop_straight armed cfg.maxInstrs).1)
      m.entered

/-- `Engine::record`. -/
def record (cfg : Config) (m : Machine ram) (t : MachineTurn ram) (opcode : Word) :
    Outcome ram :=
  match m.engine.beginRecord cfg t.site opcode t.count with
  | (e, none) => { after := { m with engine := e } }
  | (e, some admission) => traceAndFile cfg { m with engine := e } t admission

/-- The slow path of a turn, when the dispatch cache had no answer. -/
def findOrRecord (cfg : Config) (m : Machine ram) (t : MachineTurn ram) (w : CodeWindow ram) :
    Outcome ram :=
  let opcode := m.peek w t.site.pc
  let k := m.engine.dispatchBlockKey t.site opcode t.count
  let e := m.engine.revalidate w t.site k
  match AList.lookup k e.blocks with
  | none => record cfg { m with engine := e } t opcode
  | some b =>
    let e :=
      if k = t.site.key ∧ e.shiftVersions.knows k = false then
        { e with dispatchCache := e.dispatchCache.fill k ⟨k, b.node⟩ }
      else e
    { after := execute cfg { m with engine := e } t k b, dispatched := some b }

/-- One turn of `executeUntil`. There is no next state when the lookup reads through a
null or dangling pointer. -/
def turn (cfg : Config) (m : Machine ram) (t : MachineTurn ram) : Option (Outcome ram) :=
  match m.armWindow t with
  | (m, none) => some { after := m }
  | (m, some w) =>
    let m := { m with engine := m.engine.syncGen }
    match m.engine.dispatchCache.lookup m.engine.blocks t.site.key m.engine.blocksGen with
    | .fault => none
    | .hit ptr =>
      match AList.lookup ptr.key m.engine.blocks with
      | none => none
      | some b => some { after := m.execute cfg t ptr.key b, dispatched := some b }
    | _ => some (m.findOrRecord cfg t w)

end Machine

end Pom68k.Jit
