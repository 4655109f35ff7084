import Pom68k.Jit.DataTlb
import Pom68k.Jit.GuardService

/-! # Guest memory under the engine

The engine describes code by its physical address while the bytes live in host
storage behind the address map. The two views agree as long as the map stands
still and no two addresses lead to one cell. Then what a recorded block says about
memory can only go wrong through a store the guard did not see or through a change
of the map.
-/

namespace Pom68k.Jit

/-- A byte of memory. -/
abbrev Byte := BitVec 8

/-- The physical address map of a machine: the host cell each address reads from and
the one it writes to, and the plain memory `codeSpan` offers from an address on. A
span that begins in RAM ends in it, and no device page lies in a span outside of RAM or
within the length of an instruction behind it. -/
structure MemoryMap (ram : Ram) where
  read : Nat → Nat
  write : Nat → Nat
  span : Nat → Nat
  contiguous : ∀ phys i, i < span phys → read (phys + i) = read phys + i
  inSpace : ∀ phys, span phys ≠ 0 → phys + span phys ≤ 2 ^ 32
  inRam : ∀ phys, phys < ram.bytes → phys + span phys ≤ ram.bytes
  readOnly : ∀ phys byte, span phys ≠ 0 → phys ≤ byte → byte < phys + span phys + 32 →
    ram.bytes ≤ byte → ram.device (byte / 4096) = false

/-- A cell that can be written is read at one address only. Mirrored RAM is not so, nor is
RAM that shows at a second address. -/
def MemoryMap.Unaliased {ram : Ram} (map : MemoryMap ram) : Prop :=
  ∀ byte other, map.read other = map.write byte → other = byte

/-- The engine, the address maps of the machine with the one that is set, and host
storage. -/
structure Machine (ram : Ram) where
  engine : Engine ram
  maps : Nat → MemoryMap ram
  setting : Nat
  host : Nat → Byte

/-- A store the memory map carries out in RAM and reports to the guard. -/
structure RamStore (ram : Ram) where
  phys : Addr
  data : List Byte
  some : 1 ≤ data.length
  width : data.length ≤ 256
  room : phys.toNat + data.length ≤ ram.bytes

/-- What an executed instruction can do to memory and to the engine. An inline store
goes through an entry of the write TLB and is not reported. -/
inductive BusEvent (ram : Ram) where
  | store (s : RamStore ram)
  | inlineStore (i offset : Nat) (value : Byte)
  | deviceStore (byte : Nat) (value : Byte)
  | jitMapChanged (setting : Nat)
  | flushAll
  | mapMoved
  | fillDtlb (bus : DataBus ram) (addr : Addr) (write : Bool)
  | atcEvict (keepRead keepWrite : Nat → Bool) (keepWindow : Bool)

variable {ram : Ram}

namespace Machine

def map (m : Machine ram) : MemoryMap ram := m.maps m.setting

/-- The byte the guest reads at a physical address. -/
def view (m : Machine ram) (byte : Nat) : Byte := m.host (m.map.read byte)

/-- The word the guest reads at a physical address. -/
def word (m : Machine ram) (byte : Nat) : Word := m.view byte ++ m.view (byte + 1)

def poke (m : Machine ram) (byte : Nat) (value : Byte) : Machine ram :=
  { m with host := Function.update m.host (m.map.write byte) value }

/-- Writes consecutive bytes. -/
def pokes (m : Machine ram) (byte : Nat) : List Byte → Machine ram
  | [] => m
  | value :: rest => (m.poke byte value).pokes (byte + 1) rest

/-- The physical byte an inline store reaches: none when the entry has no host
pointer or the slice's bit in its mask is set, for then the store takes the long
way. -/
def inlineTarget (m : Machine ram) (i offset : Nat) : Option Nat :=
  let entry := m.engine.footprint.dtlb.write i
  match entry.host with
  | none => none
  | some page =>
    if offset < 4096 ∧ entry.codeMask.getLsbD (offset / 256) = false then
      some (page * 4096 + offset)
    else none

/-- One event of an executed instruction. -/
def applyBus (cfg : Config) (m : Machine ram) : BusEvent ram → Machine ram
  | .store s =>
    let stored := m.pokes s.phys.toNat s.data
    { stored with
      engine := m.engine.applyEvent cfg (.store s.phys (BitVec.ofNat 32 s.data.length)) }
  | .inlineStore i offset value =>
    match m.inlineTarget i offset with
    | none => m
    | some byte => m.poke byte value
  | .deviceStore byte value =>
    if ram.bytes ≤ byte ∧ ram.device (byte / 4096) then m.poke byte value else m
  | .jitMapChanged setting =>
    { m with setting, engine := m.engine.applyEvent cfg .jitMapChanged }
  | .flushAll => { m with engine := m.engine.applyEvent cfg .flushAll }
  | .mapMoved => { m with engine := m.engine.applyEvent cfg .mapMoved }
  | .fillDtlb bus addr write =>
    { m with engine := m.engine.applyEvent cfg (.fillDtlb bus addr write) }
  | .atcEvict keepRead keepWrite keepWindow =>
    { m with engine := m.engine.applyEvent cfg (.atcEvict keepRead keepWrite keepWindow) }

def applyBusAll (cfg : Config) (m : Machine ram) (events : List (BusEvent ram)) : Machine ram :=
  events.foldl (applyBus cfg) m

/-- The recorded instructions and the copied words of a block are what memory holds at
the block's physical addresses. -/
def Current (m : Machine ram) (ir : BlockIr) : Prop :=
  (∀ instr ∈ ir.instrs, instr.opcode = m.word (ir.physOf instr.pc)) ∧
    ∀ i, (inside : i < ir.code.length) → ir.code[i] = m.word (ir.spanLo.toNat + 2 * i)

/-- The window's host pointer still shows the bytes at the window's physical page. -/
def Shows (m : Machine ram) (w : CodeWindow ram) : Prop :=
  ∀ i, i < w.len.toNat → m.map.read (w.phys.toNat + i) = w.host + i

/-! ### What a store leaves alone -/

variable (m : Machine ram)

theorem view_poke {byte other : Nat} (value : Byte)
    (apart : m.map.write byte ≠ m.map.read other) :
    (m.poke byte value).view other = m.view other :=
  Function.update_of_ne apart.symm _ _

theorem view_pokes (byte : Nat) (data : List Byte) {other : Nat}
    (apart : ∀ i < data.length, m.map.write (byte + i) ≠ m.map.read other) :
    (m.pokes byte data).view other = m.view other := by
  induction data generalizing m byte with
  | nil => rfl
  | cons value rest ih =>
    refine (ih (m.poke byte value) (byte + 1) fun i inside => ?_).trans
      (m.view_poke value (apart 0 (Nat.zero_lt_succ _)))
    rw [Nat.add_right_comm]
    exact apart (i + 1) (Nat.succ_lt_succ inside)

theorem pokes_maps (byte : Nat) (data : List Byte) :
    (m.pokes byte data).maps = m.maps ∧ (m.pokes byte data).setting = m.setting := by
  induction data generalizing m byte with
  | nil => exact ⟨rfl, rfl⟩
  | cons value rest ih => exact ih (m.poke byte value) (byte + 1)

theorem pokes_map (byte : Nat) (data : List Byte) : (m.pokes byte data).map = m.map := by
  rw [map, map, (m.pokes_maps byte data).1, (m.pokes_maps byte data).2]

/-- A block stays current while the bytes of its footprint do. -/
theorem Current.congr {m m' : Machine ram} {ir : BlockIr} (fits : ir.Fits ram)
    (current : m.Current ir) (same : ∀ byte, ir.Holds byte → m'.view byte = m.view byte) :
    m'.Current ir := by
  refine ⟨fun instr member => ?_, fun i inside => ?_⟩
  · obtain ⟨high, low⟩ := fits.opcodes instr member
    rw [current.1 instr member, word, word, same _ high, same _ low]
  · have copied := fits.copied
    have high : ir.Holds (ir.spanLo.toNat + 2 * i) := ⟨by omega, by omega⟩
    have low : ir.Holds (ir.spanLo.toNat + 2 * i + 1) := ⟨by omega, by omega⟩
    rw [current.2 i inside, word, word, same _ high, same _ low]

end Machine

/-- An event leaves the byte at a physical address alone, whatever address it stores to. -/
def BusEvent.Spares (m : Machine ram) (byte : Nat) : BusEvent ram → Prop
  | .store s => ∀ i < s.data.length, m.map.write (s.phys.toNat + i) ≠ m.map.read byte
  | .inlineStore i offset _ =>
    ∀ other, m.inlineTarget i offset = some other → m.map.write other ≠ m.map.read byte
  | .deviceStore other _ => m.map.write other ≠ m.map.read byte
  | .jitMapChanged _ => False
  | _ => True

theorem Machine.view_applyBus (cfg : Config) (m : Machine ram) {event : BusEvent ram} {byte : Nat}
    (spared : event.Spares m byte) : (m.applyBus cfg event).view byte = m.view byte := by
  cases event with
  | store s => exact m.view_pokes _ _ spared
  | inlineStore i offset value =>
    unfold applyBus
    dsimp only
    split
    · rfl
    · rename_i target reached
      exact m.view_poke value (spared target reached)
  | deviceStore other value =>
    unfold applyBus
    dsimp only
    split
    · exact m.view_poke value spared
    · rfl
  | jitMapChanged setting => exact absurd spared id
  | flushAll | mapMoved | fillDtlb | atcEvict => rfl

end Pom68k.Jit
