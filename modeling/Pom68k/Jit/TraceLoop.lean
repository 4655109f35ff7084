import Pom68k.Jit.Memory

/-! # The tracing loop

Tracing is executing: each instruction of the line is looked at through the code
window and then run by the interpreter, with whatever effects it has. The opcode
is kept as it was when the instruction ran. The words of the whole line are read
again only after the loop, and the pages are marked later still.
-/

namespace Pom68k.Jit

variable {ram : Ram}

/-- What the processor answers at one turn of the tracing loop: whether the clock
reached its target, whether it is idle, its privilege level, whether the code
cache agrees with memory at an address, what the instruction did, whether it
retired and where it left the program counter. -/
structure TraceStep (ram : Ram) where
  late : Bool := false
  idle : Bool := true
  super : Bool
  cacheMatches : Addr → Bool := fun _ => true
  effects : List (BusEvent ram) := []
  retired : Bool := true
  next : Addr
  even : next.getLsbD 0 = false

/-- What the loop makes of the instruction at the cursor before it runs. -/
inductive Decoded where
  | stop (why : EndReason) (remembered : Option Site)
  | exec (opcode : Word) (kind : Kind) (terminator : Option Nat) (versionedShift : Bool)

/-- The state in which the loop leaves the machine and the line. -/
structure Traced (ram : Ram) where
  machine : Machine ram
  cursor : Addr
  instrs : List Instr
  why : EndReason
  remembered : Option Site

/-- `pomJitCovers`, for a window that is armed. -/
def CodeWindow.covers (w : CodeWindow ram) (gen : Generation) (super : Bool)
    (cacheMatches : Addr → Bool) (addr : Addr) : Bool :=
  decide (w.gen = gen) && decide (w.super = super) && decide (addr - w.base ≤ w.len - 4) &&
    cacheMatches addr

/-- The kind of an opcode, with F-line forms kept out of blocks if so configured. -/
def Config.kindOf (cfg : Config) (op : Word) : Kind :=
  if classify op = .fpu && !cfg.fpuMember then .unsafeOp else classify op

/-- A JMP or JSR through an indexed mode, whose length is in its extension word. -/
def isIndexedJump (op : Word) : Bool :=
  let mode := (op >>> 3) &&& 7
  decide (op &&& 0xFF80 = 0x4E80) && (mode = 6 || (mode = 7 && op &&& 7 = 3))

namespace Machine

/-- `pomJitPeek`: the word the window shows at a logical address. -/
def peek (m : Machine ram) (w : CodeWindow ram) (addr : Addr) : Word :=
  let i := w.host + (addr - w.base).toNat
  m.host i ++ m.host (i + 1)

def indexExtension (m : Machine ram) (w : CodeWindow ram) (addr : Addr) (op : Word) : Word :=
  if isIndexedJump op then m.peek w (addr + 2) else 0

/-- The length of a branch, or nothing if it runs out of the window. -/
def branchLength (m : Machine ram) (w : CodeWindow ram) (covered : Addr → Bool) (addr : Addr)
    (op : Word) : Option Nat :=
  if isIndexedJump op && !covered (addr + 2) then none
  else
    let words := branchWords op (m.indexExtension w addr op)
    if covered (addr + BitVec.ofNat 32 words * 2 - 2) then some words else none

/-- The checks of the tracing loop up to the execution of the instruction. -/
def decode (cfg : Config) (m : Machine ram) (site : Site) (s : TraceStep ram) (here : Site) :
    Decoded :=
  if s.late then .stop .lengthLimit none
  else if !s.idle then .stop .controlFlow none
  else
    match m.engine.window with
    | none => .stop .windowEdge none
    | some w =>
      let covered := w.covers m.engine.mmuGen s.super s.cacheMatches
      if !covered here.pc then .stop .windowEdge none
      else
        let op := m.peek w here.pc
        let versionedShift := cfg.nativeCode && isMultiVersionShiftOpcode op
        if versionedShift && here.pc ≠ site.pc then .stop .lengthLimit (some here)
        else
          let kind := cfg.kindOf op
          if endsBlock kind then .stop .unsafeNext none
          else if endsBlockAfter kind then
            match m.branchLength w covered here.pc op with
            | none => .stop .windowEdge none
            | some words => .exec op kind (some words) versionedShift
          else .exec op kind none versionedShift

/-- The tracing loop of `record` from the cursor on. -/
def traceLoop (cfg : Config) (site : Site) (script : Nat → TraceStep ram) :
    Nat → Nat → Machine ram → Site → List Instr → Traced ram
  | 0, _, m, here, instrs => ⟨m, here.pc, instrs, .lengthLimit, none⟩
  | fuel + 1, i, m, here, instrs =>
    let s := script i
    match m.decode cfg site s here with
    | .stop why remembered => ⟨m, here.pc, instrs, why, remembered⟩
    | .exec op kind terminator versionedShift =>
      let m := m.applyBusAll cfg s.effects
      if !s.retired then ⟨m, here.pc, instrs, .faulted, none⟩
      else
        match terminator with
        | some words =>
          ⟨m, here.pc + BitVec.ofNat 32 words * 2, instrs ++ [⟨here.pc, op, words, kind⟩],
            .controlFlow, none⟩
        | none =>
          -- Landing outside the longest encoding means control was transferred.
          if s.next ≤ here.pc ∨ s.next - here.pc > 22 then
            ⟨m, here.pc, instrs ++ [⟨here.pc, op, 1, kind⟩], .discontinuity, none⟩
          else
            let instrs :=
              instrs ++ [⟨here.pc, op, ((s.next - here.pc) / 2).toNat, kind⟩]
            if versionedShift then ⟨m, s.next, instrs, .lengthLimit, none⟩
            else if m.engine.guard.tripped then ⟨m, s.next, instrs, .windowEdge, none⟩
            else
              traceLoop cfg site script fuel (i + 1) m ⟨s.next, here.super, s.even⟩ instrs

end Machine

/-- The instructions of a line worth keeping and the reason it ended: a discontinuity
after other instructions is cut off in front of the offender. -/
def Traced.kept (t : Traced ram) : Option (List Instr × EndReason) :=
  if t.why = .discontinuity ∧ 1 < t.instrs.length then some (t.instrs.dropLast, .unsafeNext)
  else if t.instrs = [] ∨ t.why = .discontinuity ∨ t.why = .faulted then none
  else some (t.instrs, t.why)

/-- The block's own copy of its words, with two past the end for the prefetch queue. -/
def Traced.code (t : Traced ram) (site : Site) : List Word :=
  match t.machine.engine.window with
  | none => []
  | some w =>
    let want := t.cursor + 4
    if t.cursor > site.pc ∧ w.base ≤ site.pc ∧ want ≤ w.base + w.len then
      (List.range ((want.toNat - site.pc.toNat) / 2)).map fun i =>
        t.machine.peek w (site.pc + BitVec.ofNat 32 (2 * i))
    else []

/-- The line a trace describes, without an instruction that transferred control. -/
def Traced.line (t : Traced ram) : List Instr :=
  if t.why = .discontinuity then t.instrs.dropLast else t.instrs

/-- The states in which the loop looks at its next instruction. -/
inductive Visits (cfg : Config) (site : Site) (script : Nat → TraceStep ram)
    (start : Machine ram) : Nat → Machine ram → Site → List Instr → Prop
  | start : Visits cfg site script start 0 start site []
  | next {i : Nat} {m : Machine ram} {here : Site} {instrs : List Instr} {op : Word} {kind : Kind}
      {versionedShift : Bool} :
      Visits cfg site script start i m here instrs →
      m.decode cfg site (script i) here = .exec op kind none versionedShift →
      Visits cfg site script start (i + 1) (m.applyBusAll cfg (script i).effects)
        ⟨(script i).next, here.super, (script i).even⟩
        (instrs ++ [⟨here.pc, op, (((script i).next - here.pc) / 2).toNat, kind⟩])

/-! ### The shape of a traced line -/

/-- An address at which the window covers the opcode and a word after it. -/
def CodeWindow.Inside (w : CodeWindow ram) (addr : Addr) : Prop :=
  w.base.toNat ≤ addr.toNat ∧ addr.toNat + 4 ≤ w.base.toNat + w.len.toNat

variable {w : CodeWindow ram}

theorem CodeWindow.inside_of_covers {gen : Generation} {super : Bool}
    {cacheMatches : Addr → Bool} {addr : Addr}
    (covered : w.covers gen super cacheMatches addr = true) : w.Inside addr := by
  simp only [covers, Bool.and_eq_true, decide_eq_true_eq] at covered
  have near := covered.1.2
  have long := w.long
  have logical := w.logical
  rw [BitVec.le_def] at near
  have room : (w.len - 4).toNat = w.len.toNat - 4 := by bv_omega
  constructor <;> bv_omega

namespace Machine

variable {cfg : Config} {site : Site} {m : Machine ram} {s : TraceStep ram}

theorem branchLength_some {covered : Addr → Bool} {addr : Addr} {op : Word} {words : Nat}
    (found : m.branchLength w covered addr op = some words) :
    1 ≤ words ∧ words ≤ 6 ∧ covered (addr + BitVec.ofNat 32 words * 2 - 2) = true := by
  unfold branchLength at found
  dsimp only at found
  split at found
  · cases found
  split at found
  · rename_i inside
    cases found
    exact ⟨(branchWords_bounds _ _).1, (branchWords_bounds _ _).2, inside⟩
  · cases found

/-- An instruction that is executed was read through a window that covers it, and a
branch ends inside that window. -/
theorem decode_exec {here : Site} {op : Word} {kind : Kind} {terminator : Option Nat}
    {versionedShift : Bool}
    (decoded : m.decode cfg site s here = .exec op kind terminator versionedShift) :
    ∃ w, m.engine.window = some w ∧ w.Inside here.pc ∧ op = m.peek w here.pc ∧
      ∀ words, terminator = some words → 1 ≤ words ∧ words ≤ 6 ∧
        w.Inside (here.pc + BitVec.ofNat 32 words * 2 - 2) := by
  unfold decode at decoded
  iterate 3
    split at decoded
    · cases decoded
  rename_i w armed
  dsimp only at decoded
  split at decoded
  · cases decoded
  rename_i covered
  have inside : w.Inside here.pc := CodeWindow.inside_of_covers (by simpa using covered)
  iterate 2
    split at decoded
    · cases decoded
  refine ⟨w, armed, inside, ?_⟩
  split at decoded
  · split at decoded
    · cases decoded
    · rename_i words found
      obtain ⟨some, few, last⟩ := branchLength_some found
      cases decoded
      refine ⟨rfl, fun words same => ?_⟩
      cases same
      exact ⟨some, few, CodeWindow.inside_of_covers last⟩
  · cases decoded
    exact ⟨rfl, fun words none => by cases none⟩

/-- Only a site past the entry is remembered. -/
theorem decode_stop {here : Site} {why : EndReason} {remembered : Option Site}
    (decoded : m.decode cfg site s here = .stop why remembered) :
    remembered ≠ some site ∧ why ≠ .discontinuity := by
  unfold decode at decoded
  iterate 3
    split at decoded
    · cases decoded
      exact ⟨nofun, nofun⟩
  dsimp only at decoded
  split at decoded
  · cases decoded
    exact ⟨nofun, nofun⟩
  split at decoded
  · rename_i past
    cases decoded
    simp only [ne_eq, Bool.and_eq_true, decide_eq_true_eq] at past
    exact ⟨fun same => past.2 (congrArg Site.pc (Option.some.inj same)), nofun⟩
  split at decoded
  · cases decoded
    exact ⟨nofun, nofun⟩
  split at decoded
  · split at decoded
    · cases decoded
      exact ⟨nofun, nofun⟩
    · cases decoded
  · cases decoded

/-- Where a branch of the window ends. -/
theorem toNat_add_words {here : Addr} {words : Nat} (inside : w.Inside here)
    (last : w.Inside (here + BitVec.ofNat 32 words * 2 - 2)) (some : 1 ≤ words)
    (few : words ≤ 6) :
    (here + BitVec.ofNat 32 words * 2).toNat = here.toNat + 2 * words := by
  obtain ⟨low, high⟩ := inside
  obtain ⟨low', high'⟩ := last
  have short := w.short
  have logical := w.logical
  bv_omega

/-- The length of an instruction that fell through, in words. -/
theorem toNat_next {here next : Addr} (even : here.getLsbD 0 = false)
    (even' : next.getLsbD 0 = false) (forward : ¬ (next ≤ here ∨ next - here > 22)) :
    1 ≤ ((next - here) / 2).toNat ∧ ((next - here) / 2).toNat ≤ 11 ∧
      next.toNat = here.toNat + 2 * ((next - here) / 2).toNat := by
  have parity : here.toNat % 2 = 0 := by simpa [BitVec.getLsbD] using even
  have parity' : next.toNat % 2 = 0 := by simpa [BitVec.getLsbD] using even'
  rw [not_or, gt_iff_lt, BitVec.le_def, BitVec.lt_def] at forward
  have above : (next - here).toNat = next.toNat - here.toNat := by bv_omega
  rw [BitVec.toNat_udiv, show (2 : Addr).toNat = 2 from rfl]
  rw [show (22 : Addr).toNat = 22 from rfl] at forward
  omega

/-- The rule of the tracing loop. A property of the machine, the cursor and the line so
far holds when the loop ends, if running an instruction keeps it and so does
putting that instruction at the end of the line. -/
theorem traceLoop_rule {script : Nat → TraceStep ram} {start : Machine ram}
    {P : Machine ram → Addr → List Instr → Prop} {limit : Nat}
    (step : ∀ i m here instrs op kind terminator versionedShift, i < limit →
      Visits cfg site script start i m here instrs →
      m.decode cfg site (script i) here = .exec op kind terminator versionedShift →
      P m here.pc instrs →
        P (m.applyBusAll cfg (script i).effects) here.pc instrs ∧
        ∀ words stop, 1 ≤ words → words ≤ 11 → stop.toNat = here.pc.toNat + 2 * words →
          P (m.applyBusAll cfg (script i).effects) stop (instrs ++ [⟨here.pc, op, words, kind⟩]))
    (fuel i : Nat) (bound : i + fuel ≤ limit) (m : Machine ram) (here : Site)
    (instrs : List Instr) (visited : Visits cfg site script start i m here instrs)
    (holds : P m here.pc instrs) :
    P (traceLoop cfg site script fuel i m here instrs).machine
      (traceLoop cfg site script fuel i m here instrs).cursor
      (traceLoop cfg site script fuel i m here instrs).line ∧
    (traceLoop cfg site script fuel i m here instrs).remembered ≠ some site := by
  induction fuel generalizing i m here instrs with
  | zero => exact ⟨holds, nofun⟩
  | succ fuel ih =>
    unfold traceLoop
    dsimp only
    split
    · rename_i why remembered decoded
      obtain ⟨past, straight⟩ := decode_stop decoded
      refine ⟨?_, past⟩
      rwa [Traced.line, if_neg straight]
    · rename_i op kind terminator versionedShift decoded
      have executed := step i m here instrs op kind terminator versionedShift (by omega) visited
        decoded holds
      obtain ⟨w, armed, inside, _, branch⟩ := decode_exec decoded
      split
      · exact ⟨executed.1, nofun⟩
      split
      · rename_i words
        obtain ⟨some, few, last⟩ := branch words rfl
        refine ⟨executed.2 words _ some (by omega) ?_, nofun⟩
        exact toNat_add_words inside last some few
      · split
        · refine ⟨?_, nofun⟩
          rw [Traced.line, List.dropLast_concat]
          exact executed.1
        · rename_i forward
          obtain ⟨some, few, length⟩ := toNat_next here.even (script i).even forward
          have pushed := executed.2 _ _ some few length
          split
          · exact ⟨pushed, nofun⟩
          · split
            · exact ⟨pushed, nofun⟩
            · exact ih (i + 1) (by omega) _ _ _ (.next visited decoded) pushed

end Machine

end Pom68k.Jit
