import Pom68k.Jit.MachineRun

/-! # Recorded blocks describe memory

A turn starts from a machine whose blocks are current or doomed, and arming the
window gets rid of the doomed ones. What is dispatched is therefore current. What
is filed is current if the trace left alone the opcodes it had recorded; nothing
else in the engine would notice that it did not.
-/

namespace Pom68k.Jit

variable {ram : Ram} {cfg : Config} {m : Machine ram} {t : MachineTurn ram}

/-- The machine between two turns. -/
structure Machine.AtRest (cfg : Config) (m : Machine ram) : Prop extends m.Sound cfg where
  idle : m.engine.running = false

/-- What a turn owes when its trace, if it has one, is clean: the machine comes to
rest, the block it dispatched was current, and the one it filed is. -/
structure Outcome.Good (cfg : Config) (before : Machine ram) (outcome : Outcome ram) : Prop where
  rest : outcome.after.AtRest cfg
  dispatched : ∀ b, outcome.dispatched = some b → before.Current b.ir
  filed : ∀ b, outcome.filed = some b → outcome.after.Current b.ir

namespace Machine

variable {w : CodeWindow ram} {site : Site} {outcome : Outcome ram} {traced : Traced ram}
  {admission : ShiftVersionCache.Admission}

theorem validate_shows (valid : m.validate t = some w) : m.Shows w := by
  unfold validate at valid
  split at valid
  · cases valid
  dsimp only at valid
  split at valid
  · cases valid
    intro i inside
    refine m.map.contiguous _ i (Nat.lt_of_lt_of_le inside ?_)
    exact (Nat.mod_le _ _).trans (Nat.min_le_right _ _)
  · cases valid

theorem running_serviceGuard {e : Engine ram} (idle : e.running = false) :
    e.serviceGuard.running = false := by
  unfold Engine.serviceGuard
  split
  · exact idle
  · split
    · exact (Engine.calm_flushAll e).running.trans idle
    · exact (Engine.calm_serviceHits e e.guard.hits).running.trans idle

/-- Arming leaves memory alone and the machine at rest; with a window, nothing is
pending any more. -/
theorem AtRest.armWindow (rest : m.AtRest cfg) :
    (m.armWindow t).1.host = m.host ∧ (m.armWindow t).1.map = m.map ∧
    (m.armWindow t).1.AtRest cfg ∧
    ∀ w, (m.armWindow t).2 = some w → (m.armWindow t).1.Settled cfg := by
  unfold Machine.armWindow
  split
  · exact ⟨rfl, rfl, ⟨rest.toSound.calm (Engine.calm_disarmWindow _) ⟨rest.kept.pointed,
      rest.kept.indexed, rest.kept.dtlb⟩, rest.idle⟩, nofun⟩
  · split
    · rename_i w covering
      refine ⟨rfl, rfl, rest, fun _ _ => ?_⟩
      have quiet : m.engine.guard.tripped = false := by
        unfold coveringWindow at covering
        split at covering
        · cases covering
        split at covering
        · rename_i covered
          simp only [Bool.and_eq_true, Bool.not_eq_true'] at covered
          exact covered.2
        · cases covering
      have untripped : ¬ m.engine.guard.tripped = true := Bool.eq_false_iff.mp quiet
      exact ⟨rest.toSound,
        fun k b live => (rest.fresh k b live).resolve_right fun doomed => untripped doomed.1,
        fun w armed => (rest.window w armed).resolve_right fun flush => untripped flush.1⟩
    · have serviced := rest.toSound.serviceGuard rest.idle
      have shows : ∀ w, (m.engine.armWindow (m.validate t)).window = some w → m.Shows w :=
        fun w armed => validate_shows armed
      have settled : Settled cfg { m with engine := m.engine.armWindow (m.validate t) } :=
        ⟨⟨⟨serviced.kept.pointed, serviced.kept.indexed, serviced.kept.dtlb⟩, serviced.enabled,
          serviced.proper, serviced.fresh, fun w armed => Or.inl (shows w armed),
          rest.unaliased⟩, serviced.current, shows⟩
      exact ⟨rfl, rfl, ⟨settled.toSound, running_serviceGuard rest.idle⟩, fun _ _ => settled⟩

theorem AtRest.runBlock (rest : m.AtRest cfg) (events : List (BusEvent ram)) :
    (m.runBlock cfg events).AtRest cfg := by
  have ran := ((rest.toSound.running true).applyBusAll events).running false
  unfold Machine.runBlock
  dsimp only
  split
  · exact ⟨ran.calm (Engine.calm_flushAll _) (ran.kept.micros
      (show Micros cfg none _ _ from Engine.micros_flushAll _)),
      (Engine.calm_flushAll _).running⟩
  · split
    · exact ⟨(ran.serviceGuard rfl).toSound, running_serviceGuard rfl⟩
    · exact ⟨ran, rfl⟩

theorem AtRest.execute (rest : m.AtRest cfg) {k : Key} {b : Block ram}
    (live : AList.lookup k m.engine.blocks = some b) (owns : t.site.Owns k)
    (current : b.gen = m.engine.blocksGen) : (m.execute cfg t k b).AtRest cfg := by
  have calm : m.engine.Calm (m.engine.visitBlock cfg t.site k b t.answer).1 :=
    Engine.calm_visitBlock t.site t.answer live
  have visited : AtRest cfg
      { m with engine := (m.engine.visitBlock cfg t.site k b t.answer).1 } :=
    ⟨rest.toSound.calm calm (rest.kept.micros (show Micros cfg none _ _ from
      Engine.micros_visitBlock _ t.site k b t.answer live owns current)),
      calm.running.trans rest.idle⟩
  unfold Machine.execute
  dsimp only
  split
  · split
    · split
      · exact visited.runBlock t.events
      · exact visited
    · exact visited
  · exact visited

/-- A line read through a window that shows its page, whose opcodes are still those of
memory, makes a current block. -/
theorem current_toLine {nativePotential : List Instr → Nat}
    {straight : Straight w site.pc traced.line traced.cursor}
    {window : traced.machine.engine.window = some w ∨ traced.machine.engine.window = none}
    {line : Line ram w site}
    (kept : traced.toLine w site nativePotential straight window = some line)
    (shows : traced.machine.Shows w)
    (recorded : ∀ instr ∈ traced.line, instr.opcode = traced.machine.word (w.physOf instr.pc)) :
    traced.machine.Current line.ir := by
  unfold Traced.toLine at kept
  split at kept
  · cases kept
  · rename_i instrs endReason found
    cases kept
    obtain ⟨rfl, _⟩ := Traced.kept_line found
    exact ⟨recorded, fun i inside => shows.code window (List.getElem?_eq_getElem inside)⟩

/-- Filing a current block keeps the machine sound. -/
theorem Sound.file (sound : m.Sound cfg) (admission : ShiftVersionCache.Admission)
    {b : Block ram} (current : m.Current b.ir)
    (kept : (m.engine.file admission b).Kept cfg) :
    Sound cfg { m with engine := m.engine.file admission b } := by
  unfold Engine.file at kept ⊢
  split at kept
  · exact sound
  refine ⟨kept, sound.enabled, sound.proper, fun k b' live => ?_, sound.window,
    sound.unaliased⟩
  rcases Blocks.live_insert.mp live with ⟨rfl, rfl⟩ | ⟨_, old⟩
  · exact Or.inl current
  · exact sound.fresh k b' old

theorem no_block {P : Block ram → Prop} (b : Block ram) (none : Option.none = some b) : P b :=
  absurd none.symm (Option.some_ne_none b)

theorem Sound.remembering (sound : m.Sound cfg) (remembered : Option Site) :
    Sound cfg { m with engine := (m.engine.remembering remembered).idle } := by
  cases remembered with
  | none => exact sound.running false
  | some site => exact ⟨⟨sound.kept.pointed, sound.kept.indexed, sound.kept.dtlb⟩, sound.enabled,
      sound.proper, sound.fresh, sound.window, sound.unaliased⟩

/-- The end of `record` keeps a sound machine sound if the line it files is current. -/
theorem Sound.endRecord (sound : m.Sound cfg) (admission : ShiftVersionCache.Admission)
    {line : Option (Line ram w site)} (current : ∀ l, line = some l → m.Current l.ir)
    (version : admission.For site.key) :
    Sound cfg { m with engine := m.engine.endRecord admission line } := by
  have kept : (m.engine.endRecord admission line).Kept cfg := sound.kept.micros
    (show Micros cfg none _ _ from Engine.micros_endRecord m.engine admission line version)
  cases line with
  | none =>
    refine sound.calm ?_ kept
    unfold Engine.endRecord
    dsimp only
    split
    · exact Engine.calm_fields _ _ _ _ _ _ _ _ _ _
    · exact .refl _
  | some line =>
    by_cases pending : m.engine.pendingFlush = true
    · have flushed : m.engine.endRecord admission (some line) = m.engine.flushAll :=
        if_pos pending
      rw [flushed] at kept ⊢
      exact sound.calm (Engine.calm_flushAll _) kept
    · have filed : m.engine.endRecord admission (some line) =
          m.engine.file admission (m.engine.newBlock admission line) := if_neg pending
      rw [filed] at kept ⊢
      exact sound.file admission (current line rfl) kept

theorem running_endRecord (e : Engine ram) (idle : e.running = false)
    (admission : ShiftVersionCache.Admission)
    (line : Option (Line ram w site)) : (e.endRecord admission line).running = false := by
  unfold Engine.endRecord
  split
  · split <;> exact idle
  · split
    · exact (Engine.calm_flushAll e).running.trans idle
    · unfold Engine.file
      split <;> exact idle

/-- A trace that left the machine sound and its line current comes to a good end. -/
theorem good_fileTraced (sound : traced.machine.Sound cfg) (version : admission.For t.site.key)
    {line : Option (Line ram w t.site)} (current : ∀ l, line = some l → traced.machine.Current l.ir)
    (start before : Machine ram) :
    Outcome.Good cfg before (fileTraced traced t admission line start) := by
  refine ⟨⟨(sound.remembering traced.remembered).endRecord admission current version,
    running_endRecord _ rfl admission line⟩, no_block, fun b filed => ?_⟩
  unfold fileTraced Engine.filedBlock at filed
  dsimp only at filed
  split at filed
  · cases filed
  rename_i l
  split at filed
  · cases filed
  · cases filed
    exact current l rfl

/-- A clean trace from a settled machine files a current block. -/
theorem Settled.traceAndFile (settled : m.Settled cfg) (idle : m.engine.running = false)
    (version : admission.For t.site.key)
    (traced : m.traceAndFile cfg t admission = outcome)
    (clean : ∀ start, outcome.traced = some start → CleanTrace cfg t.site t.script start) :
    Outcome.Good cfg m outcome := by
  unfold Machine.traceAndFile at traced
  split at traced
  · subst traced
    exact ⟨⟨settled.toSound, idle⟩, no_block, no_block⟩
  · rename_i w armed
    subst traced
    obtain ⟨shows, recorded⟩ := traceLoop_current armed (settled.shows w armed) (clean _ rfl)
    have sound := (traceLoop_rule (P := fun m _ _ => m.Sound cfg)
      (fun i m _ _ _ _ _ _ _ _ _ sound => ⟨sound.applyBusAll (t.script i).effects,
        fun _ _ _ _ _ => sound.applyBusAll (t.script i).effects⟩)
      cfg.maxInstrs 0 (Nat.zero_add cfg.maxInstrs).le _ t.site [] .start
      (settled.toSound.running true)).1
    exact good_fileTraced sound version (fun l kept => current_toLine kept shows recorded) _ _

theorem Settled.record (settled : m.Settled cfg) (idle : m.engine.running = false)
    {opcode : Word} (recorded : m.record cfg t opcode = outcome)
    (clean : ∀ start, outcome.traced = some start → CleanTrace cfg t.site t.script start) :
    Outcome.Good cfg m outcome := by
  have calm := Engine.calm_beginRecord cfg m.engine t.site opcode t.count
  have kept := settled.kept.micros (show Micros cfg none _ _ from
    Engine.micros_beginRecord m.engine t.site opcode t.count)
  have begun := settled.calm calm kept
  have rest := calm.running.trans idle
  unfold Machine.record at recorded
  split at recorded
  · rename_i e refused
    rw [refused] at begun rest
    subst recorded
    exact ⟨⟨begun.toSound, rest⟩, no_block, no_block⟩
  · rename_i e admission granted
    rw [granted] at begun rest
    have good := begun.traceAndFile rest
      (Engine.beginRecord_admission (by rw [granted])) recorded clean
    exact ⟨good.rest, good.dispatched, good.filed⟩

theorem Settled.findOrRecord (settled : m.Settled cfg) (idle : m.engine.running = false)
    (found : m.findOrRecord cfg t w = outcome)
    (clean : ∀ start, outcome.traced = some start → CleanTrace cfg t.site t.script start) :
    Outcome.Good cfg m outcome := by
  unfold Machine.findOrRecord at found
  dsimp only at found
  have owns := Engine.owns_dispatchBlockKey m.engine t.site (m.peek w t.site.pc) t.count
  generalize m.engine.dispatchBlockKey t.site (m.peek w t.site.pc) t.count = k at owns found
  have calm := Engine.calm_revalidate m.engine w t.site k
  have kept := settled.kept.micros (show Micros cfg none _ _ from
    Engine.micros_revalidate m.engine w t.site k owns)
  have proved := settled.calm calm kept
  have rest := calm.running.trans idle
  split at found
  · have good := proved.record rest found clean
    exact ⟨good.rest, good.dispatched, good.filed⟩
  · rename_i b live
    have current := Engine.revalidate_current live
    subst found
    refine ⟨?_, fun b' same => ?_, no_block⟩
    · split
      · rename_i plain
        obtain ⟨rfl, unknown⟩ := plain
        refine AtRest.execute ⟨proved.toSound.calm
          (Engine.calm_fields _ _ _ _ _ _ _ _ _ _) (kept.micros (show Micros cfg none _ _ from
            .single (.fill _ t.site b live unknown nofun))), rest⟩ live owns current
      · exact AtRest.execute ⟨proved.toSound, rest⟩ live owns current
    · cases same
      exact proved.current k b live

/-- A turn whose trace, if it has one, is clean. -/
theorem AtRest.turn (rest : m.AtRest cfg) (turned : m.turn cfg t = some outcome)
    (clean : ∀ start, outcome.traced = some start → CleanTrace cfg t.site t.script start) :
    Outcome.Good cfg m outcome := by
  obtain ⟨host, map, armed, settled⟩ := rest.armWindow
  have memory : ∀ ir, (m.armWindow t).1.Current ir → m.Current ir := by
    intro ir current
    unfold Current word view at current ⊢
    rwa [host, map] at current
  unfold Machine.turn at turned
  split at turned
  · rename_i m' refused
    rw [refused] at armed
    cases turned
    exact ⟨armed, no_block, no_block⟩
  · rename_i m' w granted
    rw [granted] at armed settled memory
    dsimp only at turned armed memory
    have calm := Engine.calm_syncGen m'.engine
    have synced := (settled w rfl).calm calm
      (armed.kept.micros (show Micros cfg none _ _ from .single (.sync m'.engine)))
    have idle := calm.running.trans armed.idle
    split at turned
    · cases turned
    · rename_i ptr hit
      split at turned
      · cases turned
      rename_i b live
      obtain ⟨same, holds, b', deref, current⟩ := Engine.lookup_hit hit
      have keyed : ptr.key = t.site.key := by
        rw [← same]
        exact (synced.kept.pointed.filled _ ptr holds).2.2.1
      rw [Blocks.deref_eq_some, live] at deref
      obtain rfl := Option.some.inj deref.1
      cases turned
      refine ⟨AtRest.execute ⟨synced.toSound, idle⟩ live (Or.inl keyed) current,
        fun b' same => ?_, no_block⟩
      cases same
      exact memory _ (synced.current _ _ live)
    · have good := synced.findOrRecord idle (Option.some.inj turned) clean
      exact ⟨good.rest, fun b found => memory _ (good.dispatched b found), good.filed⟩

/-- The machine reached from a fresh engine by turns and by instructions the
interpreter runs on its own, when no trace is unclean. -/
inductive ReachesClean (cfg : Config) (maps : Nat → MemoryMap ram) : Machine ram → Prop
  | start (setting : Nat) (host : Nat → Byte) :
      ReachesClean cfg maps ⟨.initial ram, maps, setting, host⟩
  | interpret {m : Machine ram} (events : List (BusEvent ram)) :
      ReachesClean cfg maps m → ReachesClean cfg maps (m.applyBusAll cfg events)
  | turn {m : Machine ram} {t : MachineTurn ram} {outcome : Outcome ram} :
      ReachesClean cfg maps m → m.turn cfg t = some outcome →
      (∀ start, outcome.traced = some start → CleanTrace cfg t.site t.script start) →
      ReachesClean cfg maps outcome.after

theorem running_applyBusAll (m : Machine ram) (events : List (BusEvent ram)) :
    (m.applyBusAll cfg events).engine.running = m.engine.running := by
  induction events generalizing m with
  | nil => rfl
  | cons event rest ih =>
    refine (ih (m.applyBus cfg event)).trans ?_
    cases event with
    | inlineStore | deviceStore =>
      unfold applyBus
      dsimp only
      split <;> rfl
    | flushAll => exact (Engine.calm_flushAll m.engine).running
    | store | jitMapChanged | mapMoved | fillDtlb | atcEvict => rfl

theorem ReachesClean.atRest {maps : Nat → MemoryMap ram}
    (unaliased : ∀ setting, (maps setting).Unaliased) (reached : ReachesClean cfg maps m) :
    m.AtRest cfg := by
  induction reached with
  | start =>
    exact ⟨⟨⟨Engine.pointed_initial ram, Footprint.indexed_empty,
      Footprint.dtlbSound_of_empty rfl⟩, rfl, List.forall_mem_nil _,
      fun _ b live => absurd live.symm (Option.some_ne_none b), nofun, unaliased⟩, rfl⟩
  | interpret events _ ih =>
    exact ⟨ih.toSound.applyBusAll events, (running_applyBusAll _ events).trans ih.idle⟩
  | turn _ turned clean ih => exact (ih.turn turned clean).rest

end Machine

/-- In every run of a machine that has no address map with aliases and whose traces are
clean, a block `executeUntil` dispatches and a block `record` files have the opcodes and the
words that memory holds at their physical addresses at that moment. -/
theorem blocks_current {cfg : Config} {maps : Nat → MemoryMap ram}
    (unaliased : ∀ setting, (maps setting).Unaliased) {m : Machine ram}
    (reached : Machine.ReachesClean cfg maps m) {t : MachineTurn ram}
    {outcome : Outcome ram} (turned : m.turn cfg t = some outcome)
    (clean : ∀ start, outcome.traced = some start → Machine.CleanTrace cfg t.site t.script start) :
    (∀ b, outcome.dispatched = some b → m.Current b.ir) ∧
      ∀ b, outcome.filed = some b → outcome.after.Current b.ir :=
  have good := (reached.atRest unaliased).turn turned clean
  ⟨good.dispatched, good.filed⟩

namespace Sample

/-- Physical addresses are host addresses, and RAM is plain memory to its end. -/
def flat : MemoryMap machine :=
  { read := id, write := id, span := fun phys => 8192 - phys
    contiguous := fun _ _ _ => rfl
    inSpace := fun phys some => by omega
    inRam := fun phys inside => by
      have size : machine.bytes = 8192 := rfl
      omega
    readOnly := fun _ _ _ _ _ _ => rfl }

/-- `NOP`, `MOVE.W #$60FE,($1000).L`, `TRAP #0` at the start of the second page. -/
def program (byte : Nat) : Byte :=
  if byte < 0x1000 then 0
  else
    ([0x4E, 0x71, 0x33, 0xFC, 0x60, 0xFE, 0x00, 0x00, 0x10, 0x00, 0x4E, 0x40] : List Byte).getD
      (byte - 0x1000) 0

def guest : Machine machine := ⟨.initial machine, fun _ => flat, 0, program⟩

/-- The store of the second instruction, over the first one. -/
def overwrite : RamStore machine :=
  ⟨0x1000, [0x60, 0xFE], by decide, by decide, by decide⟩

/-- What the processor does when the program runs, with the effects of the second
instruction. -/
def script (effects : List (BusEvent machine)) : Nat → TraceStep machine
  | 0 => { super := true, next := 0x1002, even := by decide }
  | 1 => { super := true, effects, next := 0x100A, even := by decide }
  | _ => { super := true, next := 0x100C, even := by decide }

def pageTurn (effects : List (BusEvent machine)) : MachineTurn machine :=
  { site := ⟨0x1000, true, by decide⟩
    probe := some ⟨0x1000, 0x1000, 0x1000, window.short, window.logical⟩
    script := script effects, answer := ⟨false, false, none, false, []⟩ }

/-- The opcodes of a block beside the words memory holds in their place. -/
def compared (m : Machine machine) (b : Block machine) : List (Word × Word) :=
  b.ir.instrs.map fun instr => (instr.opcode, m.word (b.ir.physOf instr.pc))

theorem compared_current {m : Machine machine} {b : Block machine} (current : m.Current b.ir)
    {pair : Word × Word} (member : pair ∈ compared m b) : pair.1 = pair.2 := by
  obtain ⟨instr, recorded, rfl⟩ := List.mem_map.mp member
  exact current.1 instr recorded

end Sample

theorem blocks_current_recorded :
    ∃ outcome b, Sample.guest.turn Sample.config (Sample.pageTurn []) = some outcome ∧
      outcome.filed = some b ∧ b.ir.instrs.length = 2 ∧ outcome.after.Current b.ir := by
  have clean : ∀ start, Machine.CleanTrace Sample.config (Sample.pageTurn []).site
      (Sample.pageTurn []).script start := by
    intro start i m here instrs w op kind terminator versionedShift _ _ _ _ pc _
    have idle : ((Sample.pageTurn []).script i).effects = [] := by
      match i with
      | 0 => rfl
      | 1 => rfl
      | _ + 2 => rfl
    rw [idle]
    exact ⟨trivial, trivial⟩
  have reported : (Sample.guest.turn Sample.config (Sample.pageTurn [])).map
      (fun outcome => outcome.filed.map (Sample.compared outcome.after)) =
      some (some [(0x4E71, 0x4E71), (0x33FC, 0x33FC)]) := by decide +kernel
  obtain ⟨outcome, turned, seen⟩ := Option.map_eq_some_iff.mp reported
  obtain ⟨b, filed, words⟩ := Option.map_eq_some_iff.mp seen
  have unaliased : ∀ setting : Nat, Sample.flat.Unaliased := fun _ _ _ same => same
  have reached : Machine.ReachesClean Sample.config (fun _ => Sample.flat) Sample.guest :=
    .start 0 Sample.program
  refine ⟨outcome, b, turned, filed, ?_,
    (blocks_current unaliased reached turned fun start _ => clean start).2 b filed⟩
  rw [← List.length_map, show b.ir.instrs.map _ = _ from words]
  rfl

/-- The second instruction of a line stores over the first while the line is traced.
The block is filed with the old opcode, and the next turn dispatches it although
memory has held another instruction all along. -/
theorem filed_block_stale :
    ∃ outcome b, Sample.guest.turn Sample.config
        (Sample.pageTurn [.store Sample.overwrite]) = some outcome ∧
      outcome.filed = some b ∧ ¬ outcome.after.Current b.ir ∧
      ∃ outcome' b', outcome.after.turn Sample.config (Sample.pageTurn []) = some outcome' ∧
        outcome'.dispatched = some b' ∧ ¬ outcome'.after.Current b'.ir := by
  have reported : ((Sample.guest.turn Sample.config
      (Sample.pageTurn [.store Sample.overwrite])).bind fun outcome =>
        (outcome.after.turn Sample.config (Sample.pageTurn [])).map fun outcome' =>
          (outcome.filed.map (Sample.compared outcome.after),
            outcome'.dispatched.map (Sample.compared outcome'.after))) =
      some (some [(0x4E71, 0x60FE), (0x33FC, 0x33FC)],
        some [(0x4E71, 0x60FE), (0x33FC, 0x33FC)]) := by decide +kernel
  obtain ⟨outcome, turned, later⟩ := Option.bind_eq_some_iff.mp reported
  obtain ⟨outcome', turned', seen⟩ := Option.map_eq_some_iff.mp later
  obtain ⟨b, filed, words⟩ := Option.map_eq_some_iff.mp (congrArg Prod.fst seen)
  obtain ⟨b', dispatched, words'⟩ := Option.map_eq_some_iff.mp (congrArg Prod.snd seen)
  have stale : ((0x4E71, 0x60FE) : Word × Word) ∈
      [((0x4E71, 0x60FE) : Word × Word), (0x33FC, 0x33FC)] := List.mem_cons_self
  refine ⟨outcome, b, turned, filed, fun current => ?_, outcome', b', turned', dispatched,
    fun current => ?_⟩
  · exact absurd (Sample.compared_current current (words ▸ stale)) (by decide)
  · exact absurd (Sample.compared_current current (words' ▸ stale)) (by decide)

end Pom68k.Jit
