import Pom68k.Jit.Execute

/-! # The elementary changes of the engine

Every operation is a sequence of elementary changes: a block is filed, touched,
evicted or found stale, a link is published, a slot is filled, the TLBs change,
everything is dropped. Each change is listed with what is known when it happens.
A property that survives each of them holds in every state the engine reaches.
-/

namespace Pom68k.Jit

variable {ram : Ram}

/-- The dispatch cache only points to live blocks. -/
def Engine.Pointed (e : Engine ram) : Prop :=
  e.dispatchCache.Sound fun k ptr =>
    ptr.key = k ∧ ∃ b, AList.lookup k e.blocks = some b ∧ b.node = ptr.node

/-- A key is that of a site or of one of its versions. -/
def Site.Owns (site : Site) (k : Key) : Prop :=
  k = site.key ∨ ∃ count, k = ShiftVersionCache.versionKey site.key count

/-- An elementary change of the engine. `remembered` is the versioned shift a trace
of the surrounding operation may remember. -/
inductive Micro (cfg : Config) (remembered : Option Site) : Engine ram → Engine ram → Prop
  | control (e : Engine ram) (guard : CodeGuard) (window : Option (CodeWindow ram))
      (mmuGen : Generation) (blockEpoch : BitVec 32) (running pendingFlush : Bool) :
      Micro cfg remembered e
        { e with guard, window, mmuGen, blockEpoch, running, pendingFlush }
  | drop (e : Engine ram) : Micro cfg remembered e e.dropAll
  | evict (e : Engine ram) (k : Key) (b : Block ram) (live : AList.lookup k e.blocks = some b) :
      Micro cfg remembered e (e.evictBlock k b)
  | stale (e : Engine ram) (k : Key) (b : Block ram) (live : AList.lookup k e.blocks = some b)
      (outdated : b.gen ≠ e.blocksGen) :
      Micro cfg remembered e (e.unlist k b.ir)
  | sync (e : Engine ram) : Micro cfg remembered e e.syncGen
  | lose (e : Engine ram) (dtlb : Dtlb)
      (fewer : ∀ i, dtlb.write i = e.footprint.dtlb.write i ∨ dtlb.write i = {}) :
      Micro cfg remembered e { e with footprint := { e.footprint with dtlb := dtlb } }
  | fillDtlb (e : Engine ram) (bus : DataBus ram) (addr : Addr) (write : Bool) :
      Micro cfg remembered e
        { e with footprint := e.footprint.fillDtlb cfg.dtlbCodeMask bus addr write }
  | admitSite (e : Engine ram) (site : Site) (opcode : Word) (count : Nat) :
      Micro cfg remembered e (e.admitSite cfg site opcode count).2
  | remember (e : Engine ram) (site : Site) (found : remembered = some site) :
      Micro cfg remembered e
        { e with shiftVersions := e.shiftVersions.remember site.key }
  | prune (e : Engine ram) (k : Key) (alive : Bool) :
      Micro cfg remembered e { e with shiftVersions := e.shiftVersions.prune k alive }
  | file (e : Engine ram) (admission : ShiftVersionCache.Admission) (b : Block ram) (site : Site)
      (entry : b.ir.entryPc = site.pc ∧ b.ir.super = site.super)
      (version : b.shiftVersion = none ∧ admission.cacheKey = site.key ∨
        ∃ version : Fin 32, b.shiftVersion = some version ∧
          admission.cacheKey = ShiftVersionCache.versionKey site.key version)
      (uncompiled : b.code = none) (current : b.gen = e.blocksGen) :
      Micro cfg remembered e (e.file admission b)
  | fill (e : Engine ram) (site : Site) (b : Block ram)
      (live : AList.lookup site.key e.blocks = some b)
      (unknown : e.shiftVersions.knows site.key = false) (other : remembered ≠ some site) :
      Micro cfg remembered e
        { e with dispatchCache := e.dispatchCache.fill site.key ⟨site.key, b.node⟩ }
  | touch (e : Engine ram) (k : Key) (b b' : Block ram)
      (live : AList.lookup k e.blocks = some b)
      (same : b'.ir = b.ir ∧ b'.node = b.node ∧ b'.shiftVersion = b.shiftVersion)
      (code : b'.code = b.code ∨ b.code = none)
      (gen : b'.gen = b.gen ∨ b'.gen = e.blocksGen) :
      Micro cfg remembered e (e.putBlock k b')
  | publish (e : Engine ram) (site : Site) (k : Key) (b : Block ram)
      (live : AList.lookup k e.blocks = some b) (owns : site.Owns k)
      (current : b.gen = e.blocksGen) :
      Micro cfg remembered e (e.publish site b)
  | linkCell (e : Engine ram) (site : Site) : Micro cfg remembered e (e.linkCell site)

/-- A sequence of elementary changes. -/
abbrev Micros (cfg : Config) (remembered : Option Site) : Engine ram → Engine ram → Prop :=
  Relation.ReflTransGen (Micro cfg remembered)

namespace Engine

variable {cfg : Config} {remembered : Option Site}

variable (e : Engine ram)

@[simp] theorem lookup_putBlock (k : Key) (b : Block ram) :
    AList.lookup k (e.putBlock k b).blocks = some b :=
  AList.lookup_insert e.blocks

/-- Publishing a block changes nothing but the links. -/
theorem publish_eq (site : Site) (b : Block ram) :
    ∃ links, e.publish site b = { e with links } := by
  unfold publish
  split
  · exact ⟨_, rfl⟩
  · split <;> exact ⟨_, rfl⟩

/-- Up to the links, an evicted block leaves as a stale one does. -/
theorem evictBlock_eq (k : Key) (b : Block ram) :
    ∃ links, e.evictBlock k b = { e.unlist k b.ir with links } := by
  unfold evictBlock retract
  split <;> exact ⟨_, rfl⟩

theorem micros_foldl {α : Type} (f : Engine ram → α → Engine ram)
    (each : ∀ e x, Micros cfg remembered e (f e x)) (xs : List α) (e : Engine ram) :
    Micros cfg remembered e (xs.foldl f e) :=
  List.foldlRecOn xs f .refl fun e' micros x _ => micros.trans (each e' x)

theorem micros_control (guard : CodeGuard) (window : Option (CodeWindow ram))
    (mmuGen : Generation) (blockEpoch : BitVec 32) (running pendingFlush : Bool) :
    Micros cfg remembered e
      { e with guard, window, mmuGen, blockEpoch, running, pendingFlush } :=
  .single (.control e guard window mmuGen blockEpoch running pendingFlush)

theorem micros_flushAll : Micros cfg remembered e e.flushAll := by
  unfold flushAll
  split
  · exact micros_control e _ _ _ _ _ _
  · split
    · exact micros_control e _ _ _ _ _ _
    · exact .single (.drop e)

theorem micros_evictIf (chosen : Engine ram → Block ram → Bool) (e : Engine ram) (k : Key) :
    Micros cfg remembered e (evictIf chosen e k) := by
  unfold evictIf
  split
  · exact .refl
  · rename_i b live
    split
    · exact .single (.evict e k b live)
    · exact .refl

theorem micros_evictColdBlocks : Micros cfg remembered e e.evictColdBlocks := by
  exact (micros_foldl _ (micros_evictIf _) _ e).trans (micros_control _ _ _ _ _ _ _)

theorem micros_serviceGuard : Micros cfg remembered e e.serviceGuard := by
  unfold serviceGuard
  split
  · exact .refl
  · split
    · exact micros_flushAll e
    · refine (micros_foldl _ (fun e h => ?_) _ e).trans (micros_control _ _ _ _ _ _ _)
      exact micros_foldl _ (micros_evictIf _) _ e

theorem micros_applyEvent (event : CpuEvent ram) :
    Micros cfg remembered e (e.applyEvent cfg event) := by
  cases event with
  | store phys n => exact micros_control e _ _ _ _ _ _
  | jitMapChanged =>
    exact (micros_control e e.guard.invalidate e.window e.mmuGen e.blockEpoch e.running
      e.pendingFlush).trans (.single (.lose _ {} fun _ => Or.inr rfl))
  | flushAll => exact micros_flushAll e
  | mapMoved =>
    exact (micros_control e e.guard e.window (e.mmuGen + 1) e.blockEpoch e.running
      e.pendingFlush).trans (.single (.lose _ {} fun _ => Or.inr rfl))
  | fillDtlb bus addr write => exact .single (.fillDtlb e bus addr write)
  | atcEvict keepRead keepWrite keepWindow =>
    refine Relation.ReflTransGen.trans (micros_control e e.guard
      (if keepWindow then e.window else none) e.mmuGen e.blockEpoch e.running
      e.pendingFlush) (.single (.lose _ _ fun i => ?_))
    dsimp only
    split
    · exact Or.inl rfl
    · exact Or.inr rfl

variable (events : List (CpuEvent ram))

theorem micros_applyEvents : Micros cfg remembered e (e.applyEvents cfg events) :=
  micros_foldl _ micros_applyEvent events e

theorem micros_running :
    Micros cfg remembered e (applyEvents cfg { e with running := true } events) :=
  (micros_control e e.guard e.window e.mmuGen e.blockEpoch true e.pendingFlush).trans
    (micros_applyEvents _ events)

theorem micros_traceLine : Micros cfg remembered e (e.traceLine cfg events remembered) := by
  have traced : Micros cfg remembered e (applyEvents cfg { e with running := true } events) :=
    micros_running e events
  cases remembered with
  | none => exact traced.trans (micros_control _ _ _ _ _ _ _)
  | some site =>
    exact (traced.trans (.single (.remember _ site rfl))).trans (micros_control _ _ _ _ _ _ _)

/-- An admission that `beginRecord` grants is for the site or one of its versions. -/
theorem beginRecord_admission {e : Engine ram} {site : Site} {opcode : Word} {count : Nat}
    {admission : ShiftVersionCache.Admission}
    (granted : (e.beginRecord cfg site opcode count).2 = some admission) :
    admission.For site.key := by
  unfold beginRecord at granted
  dsimp only at granted
  split at granted
  · cases granted
  · split at granted
    · cases granted
      exact (ShiftVersionCache.admitKey_cases _ _ _ _).2
    · cases granted

variable (site : Site) {w : CodeWindow ram}

theorem micros_beginRecord (opcode : Word) (count : Nat) :
    Micros cfg remembered e (e.beginRecord cfg site opcode count).1 := by
  have evicted : Micros cfg remembered e (e.makeRoom cfg) := by
    unfold makeRoom
    split
    · exact micros_evictColdBlocks e
    · exact .refl
  unfold beginRecord
  dsimp only
  split
  · exact evicted
  · exact evicted.trans (.single (.admitSite _ site opcode count))

theorem micros_endRecord (admission : ShiftVersionCache.Admission)
    {site : Site} (line : Option (Line ram w site))
    (version : admission.For site.key) :
    Micros cfg remembered e (e.endRecord admission line) := by
  unfold endRecord
  split
  · split
    · exact .single (.prune _ _ _)
    · exact .refl
  · split
    · exact micros_flushAll _
    · exact .single (.file _ _ _ site ⟨rfl, rfl⟩ version rfl rfl)

theorem micros_record (w : CodeWindow ram) (site : Site) (opcode : Word)
    (count : Nat) (trace : Trace ram w site) :
    Micros cfg trace.remembered e (e.record cfg w site opcode count trace) := by
  have begun : Micros cfg trace.remembered e (e.beginRecord cfg site opcode count).1 :=
    micros_beginRecord e site opcode count
  unfold record
  split
  · rename_i refused
    rwa [refused] at begun
  · rename_i admission granted
    rw [granted] at begun
    exact (begun.trans (micros_traceLine _ trace.events)).trans
      (micros_endRecord _ admission trace.line (beginRecord_admission (by rw [granted])))

theorem micros_revalidate (w : CodeWindow ram) (site : Site) (k : Key)
    (owns : site.Owns k) : Micros cfg remembered e (e.revalidate w site k) := by
  unfold revalidate
  split
  · exact .refl
  rename_i b live
  split
  · exact .refl
  rename_i outdated
  split
  · refine .tail (.single (.touch e k b { b with gen := e.blocksGen } live ⟨rfl, rfl, rfl⟩
      (Or.inl rfl) (Or.inr rfl))) ?_
    exact .publish _ site k _ (lookup_putBlock _ _ _) owns rfl
  · exact .single (.stale e k b live outdated)

@[simp] theorem linkCells_blocks (cells : List Site) :
    (cells.foldl linkCell e).blocks = e.blocks := by
  induction cells generalizing e with
  | nil => rfl
  | cons site rest ih => exact ih (e.linkCell site)

@[simp] theorem linkCells_blocksGen (cells : List Site) :
    (cells.foldl linkCell e).blocksGen = e.blocksGen := by
  induction cells generalizing e with
  | nil => rfl
  | cons site rest ih => exact ih (e.linkCell site)

theorem micros_compileBlock (k : Key) (b : Block ram)
    (answer : CompileAnswer) (live : AList.lookup k e.blocks = some b) (owns : site.Owns k)
    (current : b.gen = e.blocksGen) (uncompiled : b.code = none) :
    Micros cfg remembered e (e.compileBlock site k b answer).1 := by
  have flushed : Micros cfg remembered e { e with footprint := { e.footprint with dtlb := {} } } :=
    .single (.lose e {} fun _ => Or.inr rfl)
  unfold compileBlock
  split
  · have bound : Micros cfg remembered e
        (answer.cells.foldl linkCell { e with footprint := { e.footprint with dtlb := {} } }) :=
      flushed.trans (micros_foldl _ (fun e site => .single (.linkCell e site)) _ _)
    have live' : AList.lookup k (answer.cells.foldl linkCell
        { e with footprint := { e.footprint with dtlb := {} } }).blocks = some b := by
      rwa [linkCells_blocks]
    split
    · exact bound.trans (micros_flushAll _)
    split
    · rename_i code _
      refine (bound.tail (.touch _ k b { b with code := some code } live' ⟨rfl, rfl, rfl⟩
        (Or.inr uncompiled) (Or.inl rfl))).tail ?_
      refine .publish _ site k _ (lookup_putBlock _ _ _) owns ?_
      rwa [putBlock, linkCells_blocksGen]
    · exact bound.tail (.touch _ k b _ live' ⟨rfl, rfl, rfl⟩ (Or.inl rfl) (Or.inl rfl))
  · split
    · exact flushed.tail (.touch _ k b _ live ⟨rfl, rfl, rfl⟩ (Or.inl rfl) (Or.inl rfl))
    · exact flushed

theorem micros_visitBlock (k : Key) (b : Block ram)
    (answer : CompileAnswer) (live : AList.lookup k e.blocks = some b) (owns : site.Owns k)
    (current : b.gen = e.blocksGen) :
    Micros cfg remembered e (e.visitBlock cfg site k b answer).1 := by
  unfold visitBlock
  dsimp only
  split
  · exact .single (.touch e k b _ live ⟨rfl, rfl, rfl⟩ (Or.inl rfl) (Or.inl rfl))
  rename_i uncompiled
  have stamped : Micros cfg remembered e (e.putBlock k
      { b with epoch := e.blockEpoch, visits := b.visits + 1 }) :=
    .single (.touch e k b _ live ⟨rfl, rfl, rfl⟩ (Or.inl rfl) (Or.inl rfl))
  split
  · refine stamped.trans (micros_compileBlock _ site k _ answer (AList.lookup_insert _) owns
      current ?_)
    simpa using uncompiled
  · exact stamped

theorem micros_runBlock : Micros cfg remembered e (e.runBlock cfg events) := by
  have ran : Micros cfg remembered e
      { applyEvents cfg { e with running := true } events with running := false } :=
    (micros_running e events).trans (micros_control _ _ _ _ _ _ _)
  unfold runBlock
  dsimp only
  split
  · exact ran.trans (micros_flushAll _)
  · split
    · exact ran.trans (micros_serviceGuard _)
    · exact ran

theorem micros_execute (turn : Turn ram) (k : Key) (b : Block ram)
    (live : AList.lookup k e.blocks = some b) (owns : turn.site.Owns k)
    (current : b.gen = e.blocksGen) :
    Micros cfg remembered e (e.execute cfg turn k b) := by
  have visited : Micros cfg remembered e (e.visitBlock cfg turn.site k b turn.answer).1 :=
    micros_visitBlock e turn.site k b turn.answer live owns current
  unfold execute
  dsimp only
  split
  · split
    · split
      · exact visited.trans (micros_runBlock _ _)
      · exact visited
    · exact visited
  · exact visited

theorem owns_dispatchBlockKey (opcode : Word) (count : Nat) :
    site.Owns (e.dispatchBlockKey site opcode count) := by
  unfold dispatchBlockKey ShiftVersionCache.select
  split
  · split
    · exact Or.inl rfl
    · exact Or.inr ⟨count, rfl⟩
  · exact Or.inl rfl

/-- After the stale branch a live block carries the current generation. -/
theorem revalidate_current {e : Engine ram} {site : Site} {k : Key} {b : Block ram}
    (live : AList.lookup k (e.revalidate w site k).blocks = some b) :
    b.gen = (e.revalidate w site k).blocksGen := by
  unfold revalidate at live ⊢
  split at live
  · rename_i absent
    rw [absent] at live
    cases live
  · rename_i old present
    split at live
    · rename_i current
      rw [present] at live
      cases live
      rwa [if_pos current]
    · rename_i outdated
      rw [if_neg outdated]
      split at live
      · rename_i proved
        rw [if_pos proved]
        obtain ⟨links, published⟩ :=
          (e.putBlock k { old with gen := e.blocksGen }).publish_eq site _
        rw [published, lookup_putBlock] at live
        cases live
        rw [published]
        rfl
      · exact absurd rfl (Blocks.live_erase.mp live).1

theorem micros_findOrRecord (turn : Turn ram) :
    Micros cfg turn.trace.remembered e (e.findOrRecord cfg turn) := by
  have owns := owns_dispatchBlockKey e turn.site turn.opcode turn.count
  unfold findOrRecord
  dsimp only
  generalize e.dispatchBlockKey turn.site turn.opcode turn.count = k at owns ⊢
  refine (micros_revalidate e turn.window turn.site k owns).trans ?_
  split
  · exact micros_record _ turn.window turn.site turn.opcode turn.count turn.trace
  rename_i b live
  have current := revalidate_current live
  split
  · rename_i plain
    obtain ⟨rfl, unknown⟩ := plain
    refine Relation.ReflTransGen.head (.fill _ turn.site b live unknown turn.trace.past) ?_
    exact micros_execute _ turn _ b live owns current
  · exact micros_execute _ turn k b live owns current

@[simp] theorem syncGen_blocks : e.syncGen.blocks = e.blocks := by
  unfold syncGen
  split <;> rfl

@[simp] theorem syncGen_dispatchCache :
    e.syncGen.dispatchCache = e.dispatchCache := by
  unfold syncGen
  split <;> rfl

/-- A hit is a live block of the key that was asked for, proved under the generation
that was asked for. -/
theorem lookup_hit {d : DispatchCache} {blocks : Blocks ram} {k : Key} {gen : Generation}
    {ptr : BlockPtr} (hit : d.lookup blocks k gen = .hit ptr) :
    (d.entries (d.slot k)).key = k ∧ (d.entries (d.slot k)).block = some ptr ∧
      ∃ b, blocks.deref ptr = some b ∧ b.gen = gen := by
  unfold DispatchCache.lookup at hit
  dsimp only at hit
  split at hit
  · cases hit
  rename_i same
  split at hit
  · cases hit
  rename_i held holds
  split at hit
  · cases hit
  rename_i b live
  split at hit
  · cases hit
  · rename_i current
    cases hit
    exact ⟨not_not.mp same, holds, b, live, not_not.mp current⟩

theorem micros_dispatch {e e' : Engine ram} {turn : Turn ram} (pointed : e.Pointed)
    (next : e.dispatch cfg turn = some e') :
    Micros cfg turn.trace.remembered e e' := by
  refine Relation.ReflTransGen.head (.sync e) ?_
  unfold dispatch at next
  dsimp only at next
  split at next
  · cases next
  · rename_i ptr hit
    split at next
    · cases next
    rename_i b live
    obtain ⟨same, holds, b', deref, current⟩ := lookup_hit hit
    have keyed : ptr.key = turn.site.key := by
      rw [syncGen_dispatchCache] at same holds
      rw [← same]
      exact (pointed.filled _ ptr holds).2.2.1
    rw [Blocks.deref_eq_some, live] at deref
    obtain rfl := Option.some.inj deref.1
    cases next
    exact micros_execute _ turn ptr.key b live (Or.inl keyed) current
  · cases next
    exact micros_findOrRecord _ turn

end Engine

/-- The versioned shift an operation may remember past the entry of its trace. -/
def Op.remembered : Op ram → Option Site
  | .record _ _ _ _ trace => trace.remembered
  | .dispatch turn => turn.trace.remembered
  | _ => none

namespace Engine

variable {cfg : Config}

/-- Every operation is a sequence of elementary changes. -/
theorem micros_step {e e' : Engine ram} {op : Op ram} (pointed : e.Pointed)
    (next : e.step cfg op = some e') : Micros cfg op.remembered e e' := by
  cases op with
  | cpu event =>
    cases next
    exact micros_applyEvent e event
  | armWindow w =>
    cases next
    exact (micros_serviceGuard e).trans (micros_control _ _ w _ _ _ _)
  | serviceGuard =>
    cases next
    exact micros_serviceGuard e
  | evictColdBlocks =>
    cases next
    exact micros_evictColdBlocks e
  | flushAll =>
    cases next
    exact micros_flushAll e
  | record w site opcode count trace =>
    cases next
    exact micros_record e w site opcode count trace
  | dispatch turn => exact micros_dispatch pointed next

end Engine

end Pom68k.Jit
