import Pom68k.Jit.TraceLoop

/-! # What a traced line says about memory

The instructions of a line follow each other without a gap, so the footprint of
the block made from them can be read off the window and the cursor. The opcodes
stay those of memory unless an instruction of the same line stores over one that
was already recorded, for nothing marks the pages of a line while it is traced.
-/

namespace Pom68k.Jit

variable {ram : Ram} {cfg : Config} {site : Site} {w : CodeWindow ram} {instrs : List Instr}

/-- The physical address of a logical address of the window. -/
def CodeWindow.physOf (w : CodeWindow ram) (pc : Addr) : Nat := (w.phys + (pc - w.base)).toNat

/-- Instructions of the window that follow each other from the entry to an address. -/
inductive Straight (w : CodeWindow ram) (entry : Addr) : List Instr → Addr → Prop
  | start : Straight w entry [] entry
  | next {instrs : List Instr} {here stop : Addr} {op : Word} {words : Nat} {kind : Kind} :
      Straight w entry instrs here → w.Inside here → 1 ≤ words → words ≤ 11 →
      stop.toNat = here.toNat + 2 * words →
      Straight w entry (instrs ++ [⟨here, op, words, kind⟩]) stop

/-- The window held is the one that can be. -/
theorem CodeWindow.eq_of_held {held : Option (CodeWindow ram)} {w w' : CodeWindow ram}
    (window : held = some w ∨ held = none) (armed : held = some w') : w' = w := by
  rcases window with rfl | rfl <;> cases armed
  rfl

namespace Straight

variable {entry stop : Addr}

section

variable (straight : Straight w entry instrs stop)
include straight

theorem entry_le : entry.toNat ≤ stop.toNat := by
  induction straight with
  | start => exact le_rfl
  | next _ _ _ _ length ih => omega

theorem bounds :
    ∀ instr ∈ instrs,
      entry.toNat ≤ instr.pc.toNat ∧ instr.pc.toNat + 2 ≤ stop.toNat ∧ w.Inside instr.pc := by
  induction straight with
  | start => exact List.forall_mem_nil _
  | next line inside some few length ih =>
    intro instr member
    rcases List.mem_append.mp member with old | last
    · obtain ⟨low, high, covered⟩ := ih instr old
      exact ⟨low, by omega, covered⟩
    · obtain rfl := List.mem_singleton.mp last
      exact ⟨line.entry_le, by dsimp only; omega, inside⟩

theorem entry_inside : instrs = [] ∧ stop = entry ∨ w.Inside entry := by
  induction straight with
  | start => exact Or.inl ⟨rfl, rfl⟩
  | next line inside some few length ih =>
    rcases ih with ⟨_, same⟩ | found
    · exact Or.inr (same ▸ inside)
    · exact Or.inr found

/-- A line that is not empty starts in the window, ends at most an instruction past it
and exits where the cursor stands. -/
theorem exit (nonempty : instrs ≠ []) :
    w.Inside entry ∧ stop.toNat ≤ w.base.toNat + w.len.toNat + 18 ∧
      ∃ last, instrs.getLast? = some last ∧ last.pc + BitVec.ofNat 32 last.words * 2 = stop := by
  refine ⟨straight.entry_inside.resolve_left fun empty => nonempty empty.1, ?_⟩
  cases straight with
  | start => exact absurd rfl nonempty
  | next line inside some few length =>
    have below := inside.2
    refine ⟨by omega, _, List.getLast?_concat, ?_⟩
    bv_omega

end

end Straight

/-- The physical address of an address inside the window. -/
theorem CodeWindow.physOf_eq {pc : Addr} (above : w.base.toNat ≤ pc.toNat)
    (below : pc.toNat < w.base.toNat + w.len.toNat) :
    w.physOf pc = w.phys.toNat + (pc.toNat - w.base.toNat) := by
  have physical := w.physical
  unfold physOf
  bv_omega

/-- The footprint of a straight line, with words copied up to the window's end. -/
theorem Straight.fits {stop : Addr} (straight : Straight w site.pc instrs stop)
    (nonempty : instrs ≠ []) (endReason : EndReason) {code : List Word}
    (copied : site.pc.toNat + code.length * 2 ≤ w.base.toNat + w.len.toNat ∨ code = []) :
    BlockIr.Fits ram
      { entryPc := site.pc, super := site.super, codeBase := w.base, codeLen := w.len,
        physBase := w.phys, physLen := w.len, endReason, instrs, code } := by
  obtain ⟨⟨above, below⟩, close, last, found, exits⟩ := straight.exit nonempty
  have order := straight.entry_le
  have within : site.pc.toNat < w.base.toNat + w.len.toNat := by omega
  have few : code.length * 2 ≤ w.base.toNat + w.len.toNat - site.pc.toNat := by
    rcases copied with most | none
    · omega
    · rw [none, List.length_nil]
      omega
  have value : (BitVec.ofNat 32 code.length * 2).toNat = code.length * 2 := by
    have length : (BitVec.ofNat 32 code.length).toNat = code.length := by
      rw [BitVec.toNat_ofNat]
      omega
    rw [BitVec.toNat_mul, show (2 : Addr).toNat = 2 from rfl]
    omega
  generalize same : BlockIr.mk site.pc site.super w.base w.len w.phys w.len endReason instrs code
    = ir
  have lo : ir.spanLo.toNat = w.phys.toNat + (site.pc.toNat - w.base.toNat) := by
    subst same
    exact CodeWindow.physOf_eq above within
  have foot : (ir.exitPc - ir.entryPc).toNat = stop.toNat - site.pc.toNat := by
    subst same
    unfold BlockIr.exitPc
    rw [found]
    dsimp only
    bv_omega
  have len : stop.toNat - site.pc.toNat ≤ ir.spanLen.toNat ∧
      code.length * 2 ≤ ir.spanLen.toNat ∧
      (ir.spanLen.toNat = stop.toNat - site.pc.toNat ∨ ir.spanLen.toNat = code.length * 2) := by
    have copies : (BitVec.ofNat 32 ir.code.length * 2).toNat = code.length * 2 := by
      subst same
      exact value
    unfold BlockIr.spanLen
    dsimp only
    split
    · rename_i wider
      rw [gt_iff_lt, BitVec.lt_def] at wider
      omega
    · rename_i wider
      rw [gt_iff_lt, BitVec.lt_def] at wider
      omega
  have aligned := ram.aligned
  have small := ram.small
  refine ⟨fun starts => ?_, fun byte holds outside => ?_, fun instr member => ?_, ?_⟩
  · have inRam := w.inRam (by omega)
    omega
  · obtain ⟨first, past⟩ := holds
    exact w.readOnly byte (by omega) (by omega) outside
  · have recorded : instr ∈ instrs := by
      subst same
      exact member
    obtain ⟨low, high, inside⟩ := straight.bounds instr recorded
    have phys : ir.physOf instr.pc = w.phys.toNat + (instr.pc.toNat - w.base.toNat) := by
      subst same
      exact CodeWindow.physOf_eq inside.1 (by have := inside.2; omega)
    unfold BlockIr.Holds
    omega
  · subst same
    exact len.2.1

/-! ### The line `record` keeps -/

variable {t : Traced ram}

theorem Traced.kept_line {why : EndReason} (kept : t.kept = some (instrs, why)) :
    instrs = t.line ∧ instrs ≠ [] := by
  unfold Traced.kept at kept
  split at kept
  · rename_i cut
    cases kept
    rw [Traced.line, if_pos cut.1]
    refine ⟨rfl, fun empty => ?_⟩
    have length := congrArg List.length empty
    rw [List.length_dropLast, List.length_nil] at length
    omega
  · split at kept
    · cases kept
    · rename_i whole
      cases kept
      rw [not_or, not_or] at whole
      rw [Traced.line, if_neg whole.2.1]
      exact ⟨rfl, whole.1⟩

/-- The copied words end inside the window. -/
theorem Traced.length_code
    (window : t.machine.engine.window = some w ∨ t.machine.engine.window = none) :
    site.pc.toNat + (t.code site).length * 2 ≤ w.base.toNat + w.len.toNat ∨ t.code site = [] := by
  unfold Traced.code
  split
  · exact Or.inr rfl
  rename_i w' armed
  obtain rfl := CodeWindow.eq_of_held window armed
  dsimp only
  split
  · rename_i room
    -- The end may have wrapped, and then the copying loop does not run.
    by_cases empty : (t.cursor + 4).toNat ≤ site.pc.toNat
    · rw [Nat.sub_eq_zero_of_le empty]
      exact Or.inr rfl
    · rw [List.length_map, List.length_range]
      bv_omega
  · exact Or.inr rfl

/-- The line `record` keeps of a trace, if any. -/
def Traced.toLine (t : Traced ram) (w : CodeWindow ram) (site : Site)
    (nativePotential : List Instr → Nat) (straight : Straight w site.pc t.line t.cursor)
    (window : t.machine.engine.window = some w ∨ t.machine.engine.window = none) :
    Option (Line ram w site) :=
  match kept : t.kept with
  | none => none
  | some (instrs, endReason) =>
    some
      { endReason, instrs, code := t.code site, nativePotential := nativePotential instrs
        fits := by
          obtain ⟨rfl, nonempty⟩ := Traced.kept_line kept
          exact straight.fits nonempty endReason (Traced.length_code window) }

namespace Machine

theorem applyBus_window (cfg : Config) (m : Machine ram) (event : BusEvent ram) :
    (m.applyBus cfg event).engine.window = m.engine.window ∨
      (m.applyBus cfg event).engine.window = none := by
  cases event with
  | store | jitMapChanged | mapMoved | fillDtlb => exact Or.inl rfl
  | inlineStore | deviceStore =>
    unfold applyBus
    dsimp only
    split <;> exact Or.inl rfl
  | flushAll =>
    unfold applyBus Engine.applyEvent Engine.flushAll
    dsimp only
    split
    · exact Or.inl rfl
    · split <;> exact Or.inr rfl
  | atcEvict keepRead keepWrite keepWindow =>
    unfold applyBus Engine.applyEvent
    dsimp only
    split
    · exact Or.inl rfl
    · exact Or.inr rfl

variable {m : Machine ram} {script : Nat → TraceStep ram} {start : Machine ram}

/-- Executed instructions keep the window or lose it. -/
theorem applyBusAll_window (cfg : Config) (m : Machine ram) (events : List (BusEvent ram))
    (window : m.engine.window = some w ∨ m.engine.window = none) :
    (m.applyBusAll cfg events).engine.window = some w ∨
      (m.applyBusAll cfg events).engine.window = none := by
  induction events generalizing m with
  | nil => exact window
  | cons event rest ih =>
    refine ih (m.applyBus cfg event) ?_
    rcases m.applyBus_window cfg event with same | lost
    · rwa [same]
    · exact Or.inr lost

/-- A trace that starts in a window yields a straight line of it. -/
theorem traceLoop_straight (armed : start.engine.window = some w) (limit : Nat) :
    ((traceLoop cfg site script limit 0 start site []).machine.engine.window = some w ∨
      (traceLoop cfg site script limit 0 start site []).machine.engine.window = none) ∧
    Straight w site.pc (traceLoop cfg site script limit 0 start site []).line
      (traceLoop cfg site script limit 0 start site []).cursor := by
  refine (traceLoop_rule (P := fun m cursor instrs =>
    (m.engine.window = some w ∨ m.engine.window = none) ∧ Straight w site.pc instrs cursor)
    ?_ limit 0 (Nat.zero_add limit).le start site [] .start ⟨Or.inl armed, .start⟩).1
  intro i m here instrs op kind terminator versionedShift _ _ decoded held
  obtain ⟨window, straight⟩ := held
  obtain ⟨w', found, inside, _⟩ := decode_exec decoded
  obtain rfl := CodeWindow.eq_of_held window found
  have after := m.applyBusAll_window cfg (script i).effects window
  exact ⟨⟨after, straight⟩, fun words stop some few length =>
    ⟨after, straight.next inside some few length⟩⟩

/-- A sequence of events leaves the byte at a physical address alone. -/
def SparesAll (cfg : Config) (m : Machine ram) (byte : Nat) : List (BusEvent ram) → Prop
  | [] => True
  | event :: rest => event.Spares m byte ∧ (m.applyBus cfg event).SparesAll cfg byte rest

section

variable {byte : Nat} {events : List (BusEvent ram)} (spared : m.SparesAll cfg byte events)
include spared

theorem SparesAll.view : (m.applyBusAll cfg events).view byte = m.view byte := by
  induction events generalizing m with
  | nil => rfl
  | cons event rest ih => exact (ih spared.2).trans (m.view_applyBus cfg spared.1)

/-- The address map does not change under events that spare a byte. -/
theorem SparesAll.map : (m.applyBusAll cfg events).map = m.map := by
  induction events generalizing m with
  | nil => rfl
  | cons event rest ih =>
    refine (ih spared.2).trans ?_
    cases event with
    | store s => exact pokes_map m _ _
    | inlineStore | deviceStore =>
      unfold applyBus
      dsimp only
      split <;> rfl
    | jitMapChanged setting => exact absurd spared.1 id
    | flushAll | mapMoved | fillDtlb | atcEvict => rfl

end

/-- Through a window that shows its page, a look at an address finds the word memory
holds there. -/
theorem Shows.peek (shows : m.Shows w) {pc : Addr}
    (above : w.base.toNat ≤ pc.toNat) (below : pc.toNat + 2 ≤ w.base.toNat + w.len.toNat) :
    m.peek w pc = m.word (w.physOf pc) := by
  have offset : (pc - w.base).toNat = pc.toNat - w.base.toNat := by bv_omega
  unfold Machine.peek word view
  rw [CodeWindow.physOf_eq above (by omega), Nat.add_assoc w.phys.toNat,
    shows _ (by omega), shows _ (by omega), offset]
  rfl

/-- No traced instruction stores into an opcode its line has recorded, its own
included, and none changes the address map. -/
def CleanTrace (cfg : Config) (site : Site) (script : Nat → TraceStep ram)
    (start : Machine ram) : Prop :=
  ∀ i m here instrs w op kind terminator versionedShift, i < cfg.maxInstrs →
    Visits cfg site script start i m here instrs →
    m.decode cfg site (script i) here = .exec op kind terminator versionedShift →
    m.engine.window = some w → ∀ pc ∈ here.pc :: instrs.map Instr.pc,
      m.SparesAll cfg (w.physOf pc) (script i).effects ∧
        m.SparesAll cfg (w.physOf pc + 1) (script i).effects

/-- After a clean trace the window still shows its page, and the recorded opcodes are
those memory holds. -/
theorem traceLoop_current (armed : start.engine.window = some w) (shows : start.Shows w)
    (clean : CleanTrace cfg site script start) :
    (traceLoop cfg site script cfg.maxInstrs 0 start site []).machine.Shows w ∧
    ∀ instr ∈ (traceLoop cfg site script cfg.maxInstrs 0 start site []).line,
      instr.opcode = (traceLoop cfg site script cfg.maxInstrs 0 start site []).machine.word
        (w.physOf instr.pc) := by
  refine (traceLoop_rule (P := fun m _ instrs =>
    (m.engine.window = some w ∨ m.engine.window = none) ∧ m.Shows w ∧
      ∀ instr ∈ instrs, instr.opcode = m.word (w.physOf instr.pc))
    ?_ cfg.maxInstrs 0 (Nat.zero_add cfg.maxInstrs).le start site [] .start
    ⟨Or.inl armed, shows, List.forall_mem_nil _⟩).1.2
  intro i m here instrs op kind terminator versionedShift limit visited decoded held
  obtain ⟨window, shown, recorded⟩ := held
  obtain ⟨w', found, inside, seen, _⟩ := decode_exec decoded
  obtain rfl := CodeWindow.eq_of_held window found
  have spared := clean i m here instrs w' op kind terminator versionedShift limit visited decoded
    found
  have kept : ∀ pc ∈ here.pc :: instrs.map Instr.pc,
      (m.applyBusAll cfg (script i).effects).word (w'.physOf pc) = m.word (w'.physOf pc) := by
    intro pc member
    obtain ⟨high, low⟩ := spared pc member
    rw [word, word, high.view, low.view]
  have shown' : (m.applyBusAll cfg (script i).effects).Shows w' := by
    intro j inside'
    rw [(spared here.pc List.mem_cons_self).1.map]
    exact shown j inside'
  have recorded' : ∀ instr ∈ instrs,
      instr.opcode = (m.applyBusAll cfg (script i).effects).word (w'.physOf instr.pc) := by
    intro instr member
    rw [kept _ (List.mem_cons_of_mem _ (List.mem_map_of_mem member))]
    exact recorded instr member
  have after := m.applyBusAll_window cfg (script i).effects window
  refine ⟨⟨after, shown', recorded'⟩, fun words stop _ _ _ => ⟨after, shown', ?_⟩⟩
  intro instr member
  rcases List.mem_append.mp member with old | last
  · exact recorded' instr old
  · obtain rfl := List.mem_singleton.mp last
    rw [kept _ List.mem_cons_self, seen]
    exact shown.peek inside.1 (by have := inside.2; omega)

/-- The words copied through a window that shows its page are those memory holds. -/
theorem Shows.code (shows : t.machine.Shows w)
    (window : t.machine.engine.window = some w ∨ t.machine.engine.window = none) {i : Nat}
    {copy : Word} (copied : (t.code site)[i]? = some copy) :
    copy = t.machine.word (w.physOf site.pc + 2 * i) := by
  unfold Traced.code at copied
  split at copied
  · cases copied
  rename_i w' armed
  obtain rfl := CodeWindow.eq_of_held window armed
  dsimp only at copied
  split at copied
  · rename_i room
    rw [List.getElem?_map, Option.map_eq_some_iff] at copied
    obtain ⟨j, found, rfl⟩ := copied
    obtain ⟨inside, rfl⟩ := List.getElem?_eq_some_iff.mp found
    rw [List.length_range] at inside
    rw [List.getElem_range]
    obtain ⟨_, above, bound⟩ := room
    have sum : (w'.base + w'.len).toNat ≤ w'.base.toNat + w'.len.toNat := by
      exact Nat.mod_le _ _
    rw [BitVec.le_def] at above bound
    have value : (site.pc + BitVec.ofNat 32 (2 * i)).toNat = site.pc.toNat + 2 * i := by
      rw [BitVec.toNat_add, BitVec.toNat_ofNat]
      omega
    rw [shows.peek (by omega) (by omega), CodeWindow.physOf_eq (by omega) (by omega),
      CodeWindow.physOf_eq (by omega) (by omega)]
    congr 1
    omega
  · cases copied

end Machine

end Pom68k.Jit
