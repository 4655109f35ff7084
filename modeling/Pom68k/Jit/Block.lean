import Pom68k.Jit.ShiftVersions
import Mathlib.Data.List.AList

/-! # Live blocks

The block map holds a node per live block. A raw pointer to a node stays usable
only while that very node is in the map, so pointers name the node they were
taken from and reading through a pointer to an erased node is visible in the
model.
-/

namespace Pom68k.Jit

/-- A translation generation, `pomJitMmuGen`. -/
abbrev Generation := BitVec 32

/-- The host address of generated code. -/
abbrev EntryPoint := Nat

/-- `Compiled`, as the engine sees it: what `linkEntry` answers for it. -/
structure Compiled where
  linkEntry : Option EntryPoint
deriving Repr, DecidableEq

/-- A byte of physical memory lies in the footprint of a block. -/
def BlockIr.Holds (ir : BlockIr) (byte : Nat) : Prop :=
  ir.spanLo.toNat ≤ byte ∧ byte < ir.spanLo.toNat + ir.spanLen.toNat

instance (ir : BlockIr) (byte : Nat) : Decidable (ir.Holds byte) :=
  inferInstanceAs (Decidable (_ ∧ _))

/-- The footprint of a block has a byte in a slice. -/
def BlockIr.Meets (ir : BlockIr) (slice : Nat) : Prop :=
  ∃ byte, ir.Holds byte ∧ byte / 256 = slice

/-- The physical address of a logical address of the block's window. -/
def BlockIr.physOf (ir : BlockIr) (pc : Addr) : Nat := (ir.physBase + (pc - ir.codeBase)).toNat

/-- A footprint that starts in RAM does not run past the physical address space, the
bytes a footprint has outside RAM are in no device page (code is only fetched from
RAM and ROM), and the footprint holds every opcode and every copied word. -/
structure BlockIr.Fits (ram : Ram) (ir : BlockIr) : Prop where
  room : ir.spanLo.toNat < ram.bytes → ir.spanLo.toNat + ir.spanLen.toNat ≤ 2 ^ 32
  readOnly : ∀ byte, ir.Holds byte → ram.bytes ≤ byte → ram.device (byte / 4096) = false
  opcodes : ∀ instr ∈ ir.instrs, ir.Holds (ir.physOf instr.pc) ∧ ir.Holds (ir.physOf instr.pc + 1)
  copied : ir.code.length * 2 ≤ ir.spanLen.toNat

/-- `Engine::Block`, with the node of the map that holds it. -/
structure Block (ram : Ram) where
  ir : BlockIr
  code : Option Compiled := none
  gen : Generation
  visits : BitVec 32 := 0
  nativePotential : Nat := 0
  shiftVersion : Option (Fin 32) := none
  rejected : Bool := false
  epoch : BitVec 32 := 0
  node : Nat
  fits : ir.Fits ram

/-- `blocks_`. -/
abbrev Blocks (ram : Ram) := AList (fun _ : Key => Block ram)

/-- A pointer to a node of the block map. -/
structure BlockPtr where
  key : Key
  node : Nat
deriving Repr, DecidableEq

variable {ram : Ram}

/-- Reads through a pointer; there is nothing to read once the node is erased. -/
def Blocks.deref (blocks : Blocks ram) (ptr : BlockPtr) : Option (Block ram) :=
  match AList.lookup ptr.key blocks with
  | some b => if b.node = ptr.node then some b else none
  | none => none

theorem Blocks.deref_eq_some {blocks : Blocks ram} {ptr : BlockPtr} {b : Block ram} :
    blocks.deref ptr = some b ↔ AList.lookup ptr.key blocks = some b ∧ b.node = ptr.node := by
  unfold Blocks.deref
  cases AList.lookup ptr.key blocks with
  | none => simp
  | some found =>
    rw [Option.ite_none_right_eq_some, and_comm]
    refine and_congr_right fun same => ?_
    cases same
    rfl

section

variable {blocks : Blocks ram} {k k' : Key} {b b' : Block ram}

theorem Blocks.live_erase :
    AList.lookup k (AList.erase k' blocks) = some b ↔ k ≠ k' ∧ AList.lookup k blocks = some b := by
  by_cases same : k = k'
  · subst same
    simp
  · simp [same]

theorem Blocks.live_insert :
    AList.lookup k (AList.insert k' b' blocks) = some b ↔
      k = k' ∧ b' = b ∨ k ≠ k' ∧ AList.lookup k blocks = some b := by
  by_cases same : k = k'
  · subst same
    simp
  · simp [same]

/-- A block filed under a fresh key leaves the others where they are. -/
theorem Blocks.live_insert_of_fresh (fresh : AList.lookup k' blocks = none)
    (live : AList.lookup k blocks = some b) :
    AList.lookup k (AList.insert k' b' blocks) = some b := by
  refine live_insert.mpr (Or.inr ⟨?_, live⟩)
  rintro rfl
  cases fresh.symm.trans live

end

/-- The blocks of the map and the key they are filed under agree: a block is under
the key of the site it was traced from, or under a version of it. -/
def Blocks.Keyed (blocks : Blocks ram) : Prop :=
  ∀ k b, AList.lookup k blocks = some b → ∃ site : Site,
    b.ir.entryPc = site.pc ∧ b.ir.super = site.super ∧
      (b.shiftVersion = none ∧ k = site.key ∨
        ∃ version : Fin 32, b.shiftVersion = some version ∧
          k = ShiftVersionCache.versionKey site.key version)

end Pom68k.Jit
