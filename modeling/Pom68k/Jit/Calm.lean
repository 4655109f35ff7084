import Pom68k.Jit.GuardService

/-! # Changes that add no block

Most of what the engine does to its cache neither records a block nor touches the
write guard: blocks are stamped, compiled, proved again or erased, links and
dispatch slots follow. Whatever is known of the live blocks and the pending guard
survives such a change, or everything is dropped at once.
-/

namespace Pom68k.Jit.Engine

variable {ram : Ram} {cfg : Config}

/-- The live blocks were live before with the same representation, the guard is the
same unless everything was dropped, and the window is the same or lost. -/
structure Calm (e e' : Engine ram) : Prop where
  enabled : e'.enabled = e.enabled
  running : e'.running = e.running
  guard : e'.guard = e.guard ∨
    e'.guard = {} ∧ (∀ k, AList.lookup k e'.blocks = none) ∧ e'.window = none
  blocks : ∀ k b', AList.lookup k e'.blocks = some b' →
    ∃ b, AList.lookup k e.blocks = some b ∧ b'.ir = b.ir
  window : e'.window = e.window ∨ e'.window = none

theorem Calm.refl (e : Engine ram) : e.Calm e :=
  ⟨rfl, rfl, Or.inl rfl, fun _ b live => ⟨b, live, rfl⟩, Or.inl rfl⟩

variable {e : Engine ram} {b : Block ram} {k : Key}

theorem Calm.trans {e' e'' : Engine ram} (first : e.Calm e') (second : e'.Calm e'') :
    e.Calm e'' := by
  refine ⟨second.enabled.trans first.enabled, second.running.trans first.running, ?_,
    fun k b'' live => ?_, ?_⟩
  · rcases second.guard with same | dropped
    · rcases first.guard with same' | ⟨clear, empty, lost⟩
      · exact Or.inl (same.trans same')
      · refine Or.inr ⟨same.trans clear, fun k => ?_, ?_⟩
        · by_contra present
          obtain ⟨b'', live⟩ := Option.ne_none_iff_exists'.mp present
          obtain ⟨b', live', _⟩ := second.blocks k b'' live
          rw [empty k] at live'
          cases live'
        · rcases second.window with kept | gone
          · exact kept.trans lost
          · exact gone
    · exact Or.inr dropped
  · obtain ⟨b', live', same⟩ := second.blocks k b'' live
    obtain ⟨b, before, same'⟩ := first.blocks k b' live'
    exact ⟨b, before, same.trans same'⟩
  · rcases second.window with same | lost
    · rcases first.window with same' | lost'
      · exact Or.inl (same.trans same')
      · exact Or.inr (same.trans lost')
    · exact Or.inr lost

theorem calm_foldl {α : Type} (f : Engine ram → α → Engine ram)
    (each : ∀ (e : Engine ram) (x : α), e.Calm (f e x)) (xs : List α) (e : Engine ram) :
    e.Calm (xs.foldl f e) :=
  List.foldlRecOn xs f (.refl e) fun e' calm x _ => calm.trans (each e' x)

variable (e)

/-- A change of the other fields is calm. -/
theorem calm_fields (footprint : Footprint) (dispatchCache : DispatchCache)
    (links : LinkTable) (shiftVersions : ShiftVersionCache) (mmuGen blocksGen : Generation)
    (blockEpoch : BitVec 32) (pendingFlush : Bool) (nodes : Nat) :
    e.Calm { e with footprint, dispatchCache, links, shiftVersions, mmuGen, blocksGen, blockEpoch,
                    pendingFlush, nodes } :=
  ⟨rfl, rfl, Or.inl rfl, fun _ b live => ⟨b, live, rfl⟩, Or.inl rfl⟩

theorem calm_disarmWindow : e.Calm e.disarmWindow :=
  ⟨rfl, rfl, Or.inl rfl, fun _ b live => ⟨b, live, rfl⟩, Or.inr rfl⟩

theorem calm_flushAll : e.Calm e.flushAll := by
  unfold flushAll
  split
  · exact calm_fields e _ _ _ _ _ _ _ _ _
  · split
    · exact calm_disarmWindow e
    · refine ⟨rfl, rfl, Or.inr ⟨rfl, fun _ => rfl, rfl⟩, fun k b live => ?_, Or.inr rfl⟩
      cases live

theorem calm_unlist (k : Key) (ir : BlockIr) : e.Calm (e.unlist k ir) := by
  refine ⟨rfl, rfl, Or.inl rfl, fun k' b live => ⟨b, ?_, rfl⟩, Or.inl rfl⟩
  exact (Blocks.live_erase.mp live).2

theorem calm_evictBlock (k : Key) (b : Block ram) : e.Calm (e.evictBlock k b) := by
  obtain ⟨links, evicted⟩ := e.evictBlock_eq k b
  rw [evicted]
  exact (calm_unlist e k b.ir).trans (calm_fields _ _ _ _ _ _ _ _ _ _)

theorem calm_evictIf (chosen : Engine ram → Block ram → Bool) (e : Engine ram) (k : Key) :
    e.Calm (evictIf chosen e k) := by
  unfold evictIf
  split
  · exact .refl e
  · split
    · exact calm_evictBlock e k _
    · exact .refl e

theorem calm_serviceHits (hits : List Hit) : e.Calm (hits.foldl serviceHit e) :=
  calm_foldl _ (fun e _ => calm_foldl _ (calm_evictIf _) _ e) hits e

theorem calm_beginRecord (cfg : Config) (e : Engine ram) (site : Site) (opcode : Word)
    (count : Nat) :
    e.Calm (e.beginRecord cfg site opcode count).1 := by
  have evicted : e.Calm (e.makeRoom cfg) := by
    unfold makeRoom evictColdBlocks
    split
    · exact (calm_foldl _ (calm_evictIf _) _ e).trans (calm_fields _ _ _ _ _ _ _ _ _ _)
    · exact .refl e
  unfold beginRecord
  dsimp only
  split
  · exact evicted
  · exact evicted.trans (calm_fields _ _ _ _ _ _ _ _ _ _)

theorem calm_syncGen : e.Calm e.syncGen := by
  unfold syncGen
  split
  · exact calm_fields e _ _ _ _ _ _ _ _ _
  · exact .refl e

variable {e}

theorem calm_putBlock {b' : Block ram}
    (live : AList.lookup k e.blocks = some b) (same : b'.ir = b.ir) : e.Calm (e.putBlock k b') := by
  refine ⟨rfl, rfl, Or.inl rfl, fun k' found live' => ?_, Or.inl rfl⟩
  rcases Blocks.live_insert.mp live' with ⟨rfl, rfl⟩ | ⟨_, old⟩
  · exact ⟨b, live, same⟩
  · exact ⟨found, old, rfl⟩

theorem calm_publish (e : Engine ram) (site : Site) (b : Block ram) :
    e.Calm (e.publish site b) := by
  obtain ⟨links, published⟩ := e.publish_eq site b
  rw [published]
  exact calm_fields e _ _ _ _ _ _ _ _ _

theorem calm_revalidate (e : Engine ram) (w : CodeWindow ram) (site : Site) (k : Key) :
    e.Calm (e.revalidate w site k) := by
  unfold revalidate
  split
  · exact .refl e
  rename_i b live
  split
  · exact .refl e
  · split
    · exact Calm.trans (calm_putBlock live (by rfl)) (calm_publish _ site _)
    · exact calm_unlist e k b.ir

theorem calm_compileBlock (site : Site)
    (answer : CompileAnswer) (live : AList.lookup k e.blocks = some b) :
    e.Calm (e.compileBlock site k b answer).1 := by
  have flushed : e.Calm { e with footprint := { e.footprint with dtlb := {} } } :=
    calm_fields e _ _ _ _ _ _ _ _ _
  unfold compileBlock
  split
  · have linked : e.Calm (answer.cells.foldl linkCell
        { e with footprint := { e.footprint with dtlb := {} } }) :=
      flushed.trans (calm_foldl _ (fun e _ => calm_fields e _ _ _ _ _ _ _ _ _) _ _)
    have live' : AList.lookup k (answer.cells.foldl linkCell
        { e with footprint := { e.footprint with dtlb := {} } }).blocks = some b := by
      rwa [linkCells_blocks]
    split
    · exact linked.trans (calm_flushAll _)
    split
    · dsimp only
      refine linked.trans (Calm.trans ?_ (calm_publish _ site _))
      exact calm_putBlock live' rfl
    · exact linked.trans (calm_putBlock live' rfl)
  · split
    · exact flushed.trans (calm_putBlock live rfl)
    · exact flushed

theorem calm_visitBlock (site : Site)
    (answer : CompileAnswer) (live : AList.lookup k e.blocks = some b) :
    e.Calm (e.visitBlock cfg site k b answer).1 := by
  unfold visitBlock
  dsimp only
  split
  · exact calm_putBlock live rfl
  · split
    · exact Calm.trans (calm_putBlock live (by rfl))
        (calm_compileBlock site answer (lookup_putBlock _ _ _))
    · exact calm_putBlock live rfl

end Pom68k.Jit.Engine
