import Pom68k.Jit.DispatchCache
import Pom68k.Jit.LinkTable
import Pom68k.Jit.FootprintIndex

/-! # The block cache of the engine

The engine owns the live blocks and everything that refers to them: the
footprint index, the dispatch cache, the link table, the shift versions and the
write guard. A block leaves the cache through capacity eviction, through a guard
trip, because its translation went stale, or with everything else in a flush;
each path owes the other structures the same duties.
-/

namespace Pom68k.Jit

/-- The choices of an engine's configuration and backend the cache depends on. -/
structure Config where
  nativeCode : Bool
  dtlbCodeMask : Bool
  maxBlocks : Nat
  maxInstrs : Nat
  hot : Nat
  profitScore : Nat
  fpuMember : Bool

/-- `PomJitWindow` with `winPhys_` and `winLen_`: a page of code that was validated
for a privilege level and a generation. It is no longer than the largest page of
the processors, ends inside the logical and the physical address space, lies in
RAM or wholly outside it, and no device page starts within the length of an
instruction after it. -/
structure CodeWindow (ram : Ram) where
  host : Nat
  base : Addr
  phys : Addr
  len : Addr
  gen : Generation
  super : Bool
  long : 4 ≤ len.toNat
  short : len.toNat ≤ 32768
  logical : base.toNat + len.toNat ≤ 2 ^ 32
  physical : phys.toNat + len.toNat ≤ 2 ^ 32
  inRam : phys.toNat < ram.bytes → phys.toNat + len.toNat ≤ ram.bytes
  readOnly : ∀ byte, phys.toNat ≤ byte → byte < phys.toNat + len.toNat + 32 →
    ram.bytes ≤ byte → ram.device (byte / 4096) = false

/-- The state of `Engine` with the generation counter and the code window of its
processor. `nodes` counts the nodes the block map has allocated. -/
structure Engine (ram : Ram) where
  blocks : Blocks ram := ∅
  nodes : Nat := 0
  footprint : Footprint := {}
  dispatchCache : DispatchCache
  links : LinkTable := {}
  shiftVersions : ShiftVersionCache := {}
  guard : CodeGuard := {}
  window : Option (CodeWindow ram) := none
  mmuGen : Generation := 0
  blocksGen : Generation := 0
  blockEpoch : BitVec 32 := 1
  enabled : Bool := true
  running : Bool := false
  pendingFlush : Bool := false

namespace Engine

variable {ram : Ram}

/-- The engine as constructed, with its default table of 16384 dispatch slots. -/
def initial (ram : Ram) : Engine ram :=
  { dispatchCache := (⟨0#32, fun _ => {}⟩ : DispatchCache).resize 16384#32 }

def disarmWindow (e : Engine ram) : Engine ram := { e with window := none }

/-- The part of `Engine::flushAll` that drops everything. -/
def dropAll (e : Engine ram) : Engine ram :=
  { e with
    blocks := ∅
    dispatchCache := e.dispatchCache.clear
    shiftVersions := e.shiftVersions.clear
    links := e.links.clearLinks
    footprint := {}
    window := none
    guard := e.guard.clear
    blocksGen := e.mmuGen
    pendingFlush := false }

/-- `Engine::flushAll`. A flush requested from inside a running block is deferred,
and a disabled engine holds nothing to drop. -/
def flushAll (e : Engine ram) : Engine ram :=
  if e.running then { e with pendingFlush := true }
  else if !e.enabled then e.disarmWindow
  else e.dropAll

/-- The duties every erased block owes: its key leaves the slice index, its shift
version is forgotten, its node is erased, its dispatch slot is evicted and the
version bookkeeping is pruned. -/
def unlist (e : Engine ram) (k : Key) (ir : BlockIr) : Engine ram :=
  let blocks := AList.erase k e.blocks
  { e with
    footprint := e.footprint.unmarkPages e.blocks k ir.spanLo ir.spanLen
    shiftVersions := (e.shiftVersions.forget k).prune k
      (AList.lookup (ShiftVersionCache.baseKey k) blocks).isSome
    blocks := blocks
    dispatchCache := e.dispatchCache.evict k }

/-- Only a compiled, unversioned block was ever published. -/
def retract (e : Engine ram) (b : Block ram) : Engine ram :=
  if b.code.isSome && b.shiftVersion.isNone then
    { e with links := e.links.retractLink b.ir.entryPc b.ir.super }
  else e

/-- The body of the erasing loops of `evictColdBlocks` and `serviceGuard`. -/
def evictBlock (e : Engine ram) (k : Key) (b : Block ram) : Engine ram :=
  (e.retract b).unlist k b.ir

/-- Evicts the block under a key if it is live and chosen. -/
def evictIf (chosen : Engine ram → Block ram → Bool) (e : Engine ram) (k : Key) : Engine ram :=
  match AList.lookup k e.blocks with
  | none => e
  | some b => if chosen e b then e.evictBlock k b else e

/-- `Engine::evictColdBlocks`. -/
def evictColdBlocks (e : Engine ram) : Engine ram :=
  let e := (AList.keys e.blocks).foldl (evictIf fun e b => b.epoch ≠ e.blockEpoch) e
  { e with blockEpoch := e.blockEpoch + 1 }

/-- The test of `serviceGuard`: the range written overlaps the block's own bytes. -/
def overlaps (h : Hit) (ir : BlockIr) : Bool :=
  !(ir.spanLen = 0#32 ∨ h.hi < ir.spanLo ∨ h.lo > ir.spanLo + ir.spanLen - 1#32)

/-- The loop of `serviceGuard` over the keys filed under one hit's slice. -/
def serviceHit (e : Engine ram) (h : Hit) : Engine ram :=
  (e.footprint.sliceIndex h.slice).foldl (evictIf fun _ b => overlaps h b.ir) e

/-- `Engine::serviceGuard`. -/
def serviceGuard (e : Engine ram) : Engine ram :=
  if !e.guard.tripped then e
  else if e.guard.mustFlush || AList.keys e.blocks = [] then e.flushAll
  else
    let e' := e.guard.hits.foldl serviceHit e
    { e' with guard := e'.guard.clear }

/-- The generation check of `executeUntil`. -/
def syncGen (e : Engine ram) : Engine ram :=
  if e.blocksGen ≠ e.mmuGen then
    { e with
      footprint := { e.footprint with dtlb := {} }
      links := e.links.clearLinks
      blocksGen := e.mmuGen }
  else e

/-- The entry point `linkCell` binds: that of the block at the site, if it is
compiled and proved under the current generation. -/
def linkTarget (e : Engine ram) (site : Site) : Option EntryPoint :=
  match AList.lookup site.key e.blocks with
  | none => none
  | some b =>
    match b.code with
    | none => none
    | some code => if b.gen = e.blocksGen then code.linkEntry else none

/-- `Engine::linkCell`. -/
def linkCell (e : Engine ram) (site : Site) : Engine ram :=
  { e with links := e.links.linkCell site.key (e.linkTarget site) }

/-- `Engine::dispatchBlockKey`, with the opcode at the program counter and the count
in the register that opcode shifts by. -/
def dispatchBlockKey (e : Engine ram) (site : Site) (opcode : Word) (count : Nat) : Key :=
  if e.shiftVersions.knows site.key && isMultiVersionShiftOpcode opcode then
    ShiftVersionCache.select site.key count
  else site.key

/-- Publishes the link of a compiled, unversioned block, if its code has one. -/
def publish (e : Engine ram) (site : Site) (b : Block ram) : Engine ram :=
  match b.code with
  | none => e
  | some code =>
    match b.shiftVersion, code.linkEntry with
    | none, some entry => { e with links := e.links.publishLink site.pc site.super entry }
    | _, _ => e

/-- Writes a field of a live block. -/
def putBlock (e : Engine ram) (k : Key) (b : Block ram) : Engine ram :=
  { e with blocks := AList.insert k b e.blocks }

/-- The stale-generation branch of `executeUntil`: a block whose recorded window is
the armed one is proved again, any other is erased. -/
def revalidate (e : Engine ram) (w : CodeWindow ram) (site : Site) (k : Key) : Engine ram :=
  match AList.lookup k e.blocks with
  | none => e
  | some b =>
    if b.gen = e.blocksGen then e
    else if b.ir.codeBase = w.base ∧ b.ir.physBase = w.phys ∧ b.ir.physLen = w.len then
      let b := { b with gen := e.blocksGen }
      (e.putBlock k b).publish site b
    else e.unlist k b.ir

end Engine

end Pom68k.Jit
