import Pom68k.Jit.CodeGuard

/-! # The block intermediate representation

A block records a straight line of instructions: where it was entered, the
window it was traced under, the opcode of every instruction, and a copy of the
instruction words. The classifier decides which opcodes a trace may cross, and
the branch-length functions give the length of the one instruction whose length
cannot be read off the program counter.
-/

namespace Pom68k.Jit

/-- A 16-bit word of the instruction stream. -/
abbrev Word := BitVec 16

/-- `Kind`: what tracing may do with an instruction. -/
inductive Kind where
  | move
  | alu
  | shift
  | bitOp
  | muldiv
  | addrCalc
  | multi
  | cond
  | branch
  | fpu
  | unsafeOp
deriving Repr, DecidableEq

/-- `EndReason`: why a trace stopped. -/
inductive EndReason where
  | controlFlow
  | unsafeNext
  | lengthLimit
  | windowEdge
  | discontinuity
  | faulted
deriving Repr, DecidableEq

def classifyImmediate (op : Word) : Kind :=
  let lo := op &&& 0x00FF
  if lo = 0x003C ∨ lo = 0x007C then .unsafeOp
  else if op &&& 0x0F00 = 0x0E00 then .unsafeOp
  else if op &&& 0xFFC0 = 0x0AC0 ∨ op &&& 0xFFC0 = 0x0CC0 then .unsafeOp
  else if op = 0x0CFC then .unsafeOp
  else if op &&& 0xFFC0 = 0x00C0 ∨ op &&& 0xFFC0 = 0x02C0 ∨ op &&& 0xFFC0 = 0x04C0 then .unsafeOp
  else if op &&& 0x0F00 = 0x0800 then .bitOp
  else if op &&& 0x0138 = 0x0108 then .multi
  else .alu

def classifyControl (op : Word) : Kind :=
  if op &&& 0xFFF8 = 0x4E50 then .addrCalc
  else if op &&& 0xFFF8 = 0x4E58 then .addrCalc
  else if op = 0x4E71 then .addrCalc
  else if op &&& 0xFFC0 = 0x4E80 then .branch
  else if op = 0x4E75 then .branch
  else
    let m := (op >>> 3) &&& 7
    let r := op &&& 7
    if op &&& 0xFFC0 = 0x4EC0 ∧ (m = 2 ∨ m = 5 ∨ (m = 7 ∧ (r = 0 ∨ r = 1 ∨ r = 2))) then .branch
    else .unsafeOp

def classifyMiscellaneous (op : Word) : Kind :=
  if op &&& 0xFF00 = 0x4E00 then classifyControl op
  else if op &&& 0xFFF8 = 0x40C0 then .alu
  else if op &&& 0xFFC0 = 0x40C0 ∨ op &&& 0xFFC0 = 0x42C0 ∨ op &&& 0xFFC0 = 0x44C0 ∨
      op &&& 0xFFC0 = 0x46C0 then .unsafeOp
  else if op &&& 0xFFC0 = 0x4AC0 then .unsafeOp
  else if op &&& 0xFFF8 = 0x4848 then .unsafeOp
  else if op &&& 0xFB80 = 0x4880 then .multi
  else if op &&& 0xFF80 = 0x4C00 then .muldiv
  else if op &&& 0xF1C0 = 0x41C0 then .addrCalc
  else if op &&& 0xFFC0 = 0x4840 then .addrCalc
  else if op &&& 0xF1C0 = 0x4180 ∨ op &&& 0xF1C0 = 0x4100 then .muldiv
  else .alu

def classifyQuick (op : Word) : Kind :=
  if op &&& 0xF0F8 = 0x50C8 then .branch
  else if op &&& 0xF0F8 = 0x50F8 then .unsafeOp
  else if op &&& 0x00C0 = 0x00C0 then .cond
  else .alu

/-- `classify`: the switch on the top four bits of the opcode. -/
def classify (op : Word) : Kind :=
  let hi := op &&& 0xF000
  if hi = 0x0000 then classifyImmediate op
  else if hi = 0x1000 ∨ hi = 0x2000 ∨ hi = 0x3000 then .move
  else if hi = 0x4000 then classifyMiscellaneous op
  else if hi = 0x5000 then classifyQuick op
  else if hi = 0x6000 then .branch
  else if hi = 0x7000 then .move
  else if hi = 0x8000 ∨ hi = 0xC000 then
    if op &&& 0x01C0 = 0x00C0 ∨ op &&& 0x01C0 = 0x01C0 then .muldiv else .alu
  else if hi = 0x9000 ∨ hi = 0xB000 ∨ hi = 0xD000 then .alu
  else if hi = 0xA000 then .unsafeOp
  else if hi = 0xE000 then .shift
  else if op &&& 0xFFC0 = 0xF200 then .fpu
  else .unsafeOp

/-- `endsBlock`: a block stops before such an instruction. -/
def endsBlock (k : Kind) : Bool := k = .unsafeOp

/-- `endsBlockAfter`: a block stops after such an instruction. -/
def endsBlockAfter (k : Kind) : Bool := k = .branch

/-- `indexedExtensionWords`. -/
def indexedExtensionWords (ext : Word) : Nat :=
  if ext &&& 0x0100 = 0 then 1
  else
    let bd := (ext >>> 4) &&& 3
    let iis := ext &&& 7
    if ext &&& 0x0008 ≠ 0 ∨ bd = 0 ∨ iis = 4 then 1
    else
      let base := if bd = 2 then 1 else if bd = 3 then 2 else 0
      let outer := if iis = 2 ∨ iis = 6 then 1 else if iis = 3 ∨ iis = 7 then 2 else 0
      1 + base + outer

/-- `branchWords`: the encoded length of a branch, in words. -/
def branchWords (op indexExtension : Word) : Nat :=
  if op &&& 0xF000 = 0x6000 then
    let d := op &&& 0xFF
    if d = 0x00 then 2 else if d = 0xFF then 3 else 1
  else if op = 0x4E75 then 1
  else if op &&& 0xFF80 = 0x4E80 then
    let mode := (op >>> 3) &&& 7
    let reg := op &&& 7
    if mode = 2 then 1
    else if mode = 5 then 2
    else if mode = 6 then 1 + indexedExtensionWords indexExtension
    else if mode = 7 then
      if reg = 0 then 2
      else if reg = 1 then 3
      else if reg = 3 then 1 + indexedExtensionWords indexExtension
      else 2
    else 1
  else 2

private theorem between_ite {c : Prop} [Decidable c] {a b lo hi : Nat}
    (first : lo ≤ a ∧ a ≤ hi) (second : lo ≤ b ∧ b ≤ hi) :
    lo ≤ (if c then a else b) ∧ (if c then a else b) ≤ hi := by
  split
  · exact first
  · exact second

theorem indexedExtensionWords_bounds (ext : Word) :
    1 ≤ indexedExtensionWords ext ∧ indexedExtensionWords ext ≤ 5 := by
  have two : ∀ (c d : Prop) [Decidable c] [Decidable d] (a b : Nat), a ≤ 2 → b ≤ 2 →
      0 ≤ (if c then a else if d then b else 0) ∧ (if c then a else if d then b else 0) ≤ 2 := by
    intro c d _ _ a b small small'
    exact between_ite ⟨Nat.zero_le _, small⟩ (between_ite ⟨Nat.zero_le _, small'⟩ (by omega))
  refine between_ite (by omega) (between_ite (by omega) ?_)
  have base := two ((ext >>> 4) &&& 3 = 2) ((ext >>> 4) &&& 3 = 3) 1 2 (by omega) (by omega)
  have outer := two (ext &&& 7 = 2 ∨ ext &&& 7 = 6) (ext &&& 7 = 3 ∨ ext &&& 7 = 7) 1 2
    (by omega) (by omega)
  exact ⟨Nat.le_add_right_of_le (Nat.le_add_right 1 _), Nat.add_le_add (Nat.add_le_add_left base.2 1) outer.2⟩

/-- A branch has an opcode word and at most five more. -/
theorem branchWords_bounds (op indexExtension : Word) :
    1 ≤ branchWords op indexExtension ∧ branchWords op indexExtension ≤ 6 := by
  have extension := indexedExtensionWords_bounds indexExtension
  repeat' apply between_ite
  all_goals omega

/-- `Instr`: the fields of a recorded instruction the engine reads. -/
structure Instr where
  pc : Addr
  opcode : Word
  words : Nat
  kind : Kind
deriving Repr, DecidableEq

/-- `BlockIr`. -/
structure BlockIr where
  entryPc : Addr
  super : Bool
  codeBase : Addr
  codeLen : Addr
  physBase : Addr
  physLen : Addr
  endReason : EndReason
  instrs : List Instr
  code : List Word
deriving Repr, DecidableEq

namespace BlockIr

/-- `BlockIr::exitPc`. -/
def exitPc (ir : BlockIr) : Addr :=
  match ir.instrs.getLast? with
  | none => ir.entryPc
  | some last => last.pc + BitVec.ofNat 32 last.words * 2

/-- The first physical byte of `Engine::blockSpan`. -/
def spanLo (ir : BlockIr) : Addr := ir.physBase + (ir.entryPc - ir.codeBase)

/-- The length of `Engine::blockSpan`: the footprint of the instructions, widened
to the words that were copied. -/
def spanLen (ir : BlockIr) : Addr :=
  let foot := ir.exitPc - ir.entryPc
  let copied := BitVec.ofNat 32 ir.code.length * 2
  if foot > copied then foot else copied

end BlockIr

end Pom68k.Jit
