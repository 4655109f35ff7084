import Pom68k.Jit.Engine

/-! # One turn of the execution loop

`executeUntil` looks a block up, proves it again or erases it when its
translation is stale, traces a new one when there is none, compiles it once it
is hot and runs it. What the processor, the memory map and the backend answer
along the way is input. Instructions run by the processor reach the engine only
through the events below, whether they run inside a block, inside a trace or
between two blocks.
-/

namespace Pom68k.Jit

variable {ram : Ram}

/-- What an executed instruction can do to the engine: a store the memory map
reports, a change of the address map, a strobe of the instruction cache, a
change of translation, a request to fill the data TLB, the loss of TLB entries
and of the code window with the translation they derive from. -/
inductive CpuEvent (ram : Ram) where
  | store (phys n : Addr)
  | jitMapChanged
  | flushAll
  | mapMoved
  | fillDtlb (bus : DataBus ram) (addr : Addr) (write : Bool)
  | atcEvict (keepRead keepWrite : Nat → Bool) (keepWindow : Bool)

/-- What a trace of a straight line found: the instructions it kept, their copied
words and the backend's estimate. The footprint they make up has to fit. -/
structure Line (ram : Ram) (w : CodeWindow ram) (site : Site) where
  endReason : EndReason
  instrs : List Instr
  code : List Word
  nativePotential : Nat
  fits : BlockIr.Fits ram
    { entryPc := site.pc, super := site.super, codeBase := w.base, codeLen := w.len,
      physBase := w.phys, physLen := w.len, endReason, instrs, code }

/-- The representation `record` files for a traced line. -/
def Line.ir {w : CodeWindow ram} {site : Site} (line : Line ram w site) : BlockIr :=
  { entryPc := site.pc, super := site.super, codeBase := w.base, codeLen := w.len,
    physBase := w.phys, physLen := w.len, endReason := line.endReason,
    instrs := line.instrs, code := line.code }

/-- A run of the tracing loop of `record`: what the traced instructions did, the
versioned shift past the entry that stopped the trace, and the line if one is
worth keeping. -/
structure Trace (ram : Ram) (w : CodeWindow ram) (site : Site) where
  events : List (CpuEvent ram)
  remembered : Option Site
  line : Option (Line ram w site)
  past : remembered ≠ some site

/-- What the backend answers to a request to compile a block. -/
structure CompileAnswer where
  cacheReady : Bool
  denied : Bool
  code : Option Compiled
  codeCapacity : Bool
  cells : List Site

/-- The input of one turn of `executeUntil` after the window was armed. -/
structure Turn (ram : Ram) where
  window : CodeWindow ram
  site : Site
  opcode : Word
  count : Nat
  trace : Trace ram window site
  answer : CompileAnswer
  cacheMatches : Bool
  events : List (CpuEvent ram)

namespace Engine

/-- The effect of one event on the engine. -/
def applyEvent (cfg : Config) (e : Engine ram) : CpuEvent ram → Engine ram
  | .store phys n => { e with guard := e.guard.note ram.slices e.footprint.pageMap phys n }
  | .jitMapChanged =>
    { e with guard := e.guard.invalidate, footprint := { e.footprint with dtlb := {} } }
  | .flushAll => e.flushAll
  | .mapMoved =>
    { e with mmuGen := e.mmuGen + 1, footprint := { e.footprint with dtlb := {} } }
  | .fillDtlb bus addr write =>
    { e with footprint := e.footprint.fillDtlb cfg.dtlbCodeMask bus addr write }
  | .atcEvict keepRead keepWrite keepWindow =>
    let dtlb : Dtlb :=
      { read := fun i => if keepRead i then e.footprint.dtlb.read i else {}
        write := fun i => if keepWrite i then e.footprint.dtlb.write i else {} }
    { e with
      footprint := { e.footprint with dtlb := dtlb }
      window := if keepWindow then e.window else none }

/-- Events in the order in which they happen. -/
def applyEvents (cfg : Config) (e : Engine ram) (events : List (CpuEvent ram)) : Engine ram :=
  events.foldl (applyEvent cfg) e

/-- The admission of a trace: a versioned entry loses its base dispatch slot. -/
def admitSite (cfg : Config) (e : Engine ram) (site : Site) (opcode : Word) (count : Nat) :
    ShiftVersionCache.Admission × Engine ram :=
  let versionedEntry := cfg.nativeCode && isMultiVersionShiftOpcode opcode
  let admission := e.shiftVersions.admitKey site.key
    (if versionedEntry then some count else none) versionedEntry
  (admission.1,
    { e with
      shiftVersions := admission.2
      dispatchCache :=
        if versionedEntry then e.dispatchCache.evict site.key else e.dispatchCache })

/-- A versioned shift found past the entry of a trace is remembered. -/
def remembering (e : Engine ram) : Option Site → Engine ram
  | none => e
  | some site => { e with shiftVersions := e.shiftVersions.remember site.key }

def idle (e : Engine ram) : Engine ram := { e with running := false }

/-- The tracing loop as the engine sees it: events arrive while `running_` is set. -/
def traceLine (cfg : Config) (e : Engine ram) (events : List (CpuEvent ram))
    (remembered : Option Site) : Engine ram :=
  ((applyEvents cfg { e with running := true } events).remembering remembered).idle

/-- The end of `record`: the block is emplaced under a fresh key, its version
committed and its footprint marked. -/
def file (e : Engine ram) (admission : ShiftVersionCache.Admission) (b : Block ram) :
    Engine ram :=
  match AList.lookup admission.cacheKey e.blocks with
  | some _ => e
  | none =>
    { e with
      blocks := AList.insert admission.cacheKey b e.blocks
      nodes := e.nodes + 1
      shiftVersions := e.shiftVersions.commit admission
      footprint := e.footprint.markPages ram admission.cacheKey b.ir.spanLo b.ir.spanLen }

/-- A full block cache evicts what went cold. -/
def makeRoom (cfg : Config) (e : Engine ram) : Engine ram :=
  if cfg.maxBlocks ≤ (AList.keys e.blocks).length then e.evictColdBlocks else e

/-- The start of `record`: nothing is traced if the cache is still full or the
admission is refused. -/
def beginRecord (cfg : Config) (e : Engine ram) (site : Site) (opcode : Word) (count : Nat) :
    Engine ram × Option ShiftVersionCache.Admission :=
  let e := e.makeRoom cfg
  if cfg.maxBlocks ≤ (AList.keys e.blocks).length then (e, none)
  else
    let (admission, e) := e.admitSite cfg site opcode count
    (e, if admission.accepted then some admission else none)

/-- The block `record` makes of a line. -/
def newBlock (e : Engine ram) (admission : ShiftVersionCache.Admission) {w : CodeWindow ram}
    {site : Site} (line : Line ram w site) : Block ram :=
  { ir := line.ir, gen := e.blocksGen, nativePotential := line.nativePotential,
    shiftVersion := admission.version, node := e.nodes, fits := line.fits }

/-- The end of `record`: a line not worth keeping gives its version up, a flush asked
for by the traced instructions is honoured, and otherwise the block is filed. -/
def endRecord (e : Engine ram) (admission : ShiftVersionCache.Admission) {w : CodeWindow ram}
    {site : Site} (line : Option (Line ram w site)) : Engine ram :=
  match line with
  | none =>
    let alive := (AList.lookup site.key e.blocks).isSome
    if admission.versioned then
      { e with shiftVersions := e.shiftVersions.prune admission.cacheKey alive }
    else e
  | some line =>
    if e.pendingFlush then e.flushAll
    else e.file admission (e.newBlock admission line)

/-- `Engine::record`. -/
def record (cfg : Config) (e : Engine ram) (w : CodeWindow ram) (site : Site) (opcode : Word)
    (count : Nat) (trace : Trace ram w site) : Engine ram :=
  match e.beginRecord cfg site opcode count with
  | (e, none) => e
  | (e, some admission) =>
    (e.traceLine cfg trace.events trace.remembered).endRecord admission trace.line

/-- Compilation of a block that has become hot, and whether the turn goes on. Running
out of code space drops everything. -/
def compileBlock (e : Engine ram) (site : Site) (k : Key) (b : Block ram)
    (answer : CompileAnswer) : Engine ram × Bool :=
  let e := { e with footprint := { e.footprint with dtlb := {} } }
  if answer.cacheReady && !answer.denied then
    let e := answer.cells.foldl linkCell e
    if answer.codeCapacity then (e.flushAll, false)
    else
      match answer.code with
      | some code =>
        let b := { b with code := some code }
        ((e.putBlock k b).publish site b, true)
      | none => (e.putBlock k { b with rejected := true }, true)
  else if answer.denied then
    (e.putBlock k { b with rejected := true }, true)
  else (e, true)

/-- The block has been visited often enough to be worth compiling. -/
def Ready (cfg : Config) (b : Block ram) : Bool :=
  !b.rejected && decide (cfg.hot ≤ b.visits.toNat) &&
    (decide (cfg.profitScore = 0) || decide (cfg.profitScore ≤ b.visits.toNat * b.nativePotential))

/-- The visit of a block: its epoch is stamped, and a block without code may earn
some. -/
def visitBlock (cfg : Config) (e : Engine ram) (site : Site) (k : Key) (b : Block ram)
    (answer : CompileAnswer) : Engine ram × Bool :=
  let b := { b with epoch := e.blockEpoch }
  if b.code.isSome then (e.putBlock k b, true)
  else
    let b := { b with visits := b.visits + 1 }
    let e := e.putBlock k b
    if Ready cfg b then e.compileBlock site k b answer else (e, true)

/-- Running generated code, and the service of what it asked for. -/
def runBlock (cfg : Config) (e : Engine ram) (events : List (CpuEvent ram)) : Engine ram :=
  let e := { applyEvents cfg { e with running := true } events with running := false }
  if e.pendingFlush then e.flushAll
  else if e.guard.tripped then e.serviceGuard
  else e

/-- The rest of a turn once a block was found. -/
def execute (cfg : Config) (e : Engine ram) (turn : Turn ram) (k : Key) (b : Block ram) :
    Engine ram :=
  let (e, goesOn) := e.visitBlock cfg turn.site k b turn.answer
  if goesOn then
    match AList.lookup k e.blocks with
    | some b =>
      if b.code.isSome && turn.cacheMatches then e.runBlock cfg turn.events else e
    | none => e
  else e

/-- The slow path of a turn, when the dispatch cache had no answer. -/
def findOrRecord (cfg : Config) (e : Engine ram) (turn : Turn ram) : Engine ram :=
  let k := e.dispatchBlockKey turn.site turn.opcode turn.count
  let e := e.revalidate turn.window turn.site k
  match AList.lookup k e.blocks with
  | none => e.record cfg turn.window turn.site turn.opcode turn.count turn.trace
  | some b =>
    let e :=
      if k = turn.site.key ∧ e.shiftVersions.knows k = false then
        { e with dispatchCache := e.dispatchCache.fill k ⟨k, b.node⟩ }
      else e
    e.execute cfg turn k b

/-- One turn of `executeUntil` from the generation check on. There is no next state
when the lookup reads through a null or dangling pointer. -/
def dispatch (cfg : Config) (e : Engine ram) (turn : Turn ram) : Option (Engine ram) :=
  let e := e.syncGen
  match e.dispatchCache.lookup e.blocks turn.site.key e.blocksGen with
  | .fault => none
  | .hit ptr =>
    match AList.lookup ptr.key e.blocks with
    | none => none
    | some b => some (e.execute cfg turn ptr.key b)
  | _ => some (e.findOrRecord cfg turn)

/-- `Engine::armWindow` on a page that was validated, or that could not be. -/
def armWindow (e : Engine ram) (w : Option (CodeWindow ram)) : Engine ram :=
  { e.serviceGuard with window := w }

end Engine

/-- The operations of the engine. -/
inductive Op (ram : Ram) where
  | cpu (event : CpuEvent ram)
  | armWindow (w : Option (CodeWindow ram))
  | serviceGuard
  | evictColdBlocks
  | flushAll
  | record (w : CodeWindow ram) (site : Site) (opcode : Word) (count : Nat)
      (trace : Trace ram w site)
  | dispatch (turn : Turn ram)

/-- One operation, unless it reads through a bad pointer. -/
def Engine.step (cfg : Config) (e : Engine ram) : Op ram → Option (Engine ram)
  | .cpu event => some (e.applyEvent cfg event)
  | .armWindow w => some (e.armWindow w)
  | .serviceGuard => some e.serviceGuard
  | .evictColdBlocks => some e.evictColdBlocks
  | .flushAll => some e.flushAll
  | .record w site opcode count trace => some (e.record cfg w site opcode count trace)
  | .dispatch turn => e.dispatch cfg turn

/-- A state reached from `e` by a sequence of operations. -/
inductive Engine.Reaches (cfg : Config) (e : Engine ram) : List (Op ram) → Engine ram → Prop
  | start : Reaches cfg e [] e
  | step {ops : List (Op ram)} {e' e'' : Engine ram} {op : Op ram} :
      Reaches cfg e ops e' → e'.step cfg op = some e'' → Reaches cfg e (ops ++ [op]) e''

end Pom68k.Jit
