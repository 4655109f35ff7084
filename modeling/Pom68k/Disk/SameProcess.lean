import Pom68k.Disk.RestoreChecked
import Pom68k.Disk.StateBytes

/-! # Saves and restores in one process

From attach on the log has the opened content of every block it names, and every
other block still has it. A state saved in the same process is the opened image
with the saved blocks put over it, so the first candidate of a restore always lands
on it, and a restore leaves the log in the order of the state.
-/

namespace Pom68k.Disk

open Foundation

variable {g : Geometry}

namespace World

/-- The log tells the opened image from the current one. -/
structure Coherent (opened : Image g) (w : World g) : Prop where
  attached : w.timeline.attached = true
  fresh : w.timeline.stale = false
  digest : w.timeline.digest = imageDigest w.image
  slots : ∀ e ∈ w.timeline.dirty.entries, e.2 = opened e.1
  untouched : ∀ lba, lba ∉ w.timeline.dirtyList → w.image lba = opened lba

variable {opened : Image g} {w : World g}

theorem coherent_attach (w : World g) (writeBack : Bool) (host : JournalHost) :
    Coherent w.image (w.step (.attach writeBack host)) := by
  have content := w.timeline.attach_content w.image (if writeBack then w.path else "") w.name host
  refine ⟨content.attached, content.stale, content.digest, fun e member => ?_, fun _ _ => rfl⟩
  rw [step, content.dirty] at member
  cases member

theorem Coherent.write (known : Coherent opened w) (lba : Fin g.blocks)
    (next : Block g.blockSize) (landed : Option Nat) :
    Coherent opened (w.write lba next landed) := by
  have content := w.timeline.logWrite_content lba (w.image lba) next landed
  have digest := digestExact_write
    (fun _ => known.digest.trans (Timeline.fullDigest_attached known.attached _).symm) lba next
    landed
  rw [World.write, Timeline.willWrite_attached known.attached] at digest ⊢
  have attached := content.attached.trans known.attached
  have fresh := content.stale.trans known.fresh
  refine ⟨attached, fresh, (digest fresh).trans (Timeline.fullDigest_attached attached _),
    fun e member => ?_, fun lba' unlogged => ?_⟩
  · rw [content.dirty] at member
    rcases OnceLog.of_mem_add member with old | rfl
    · exact known.slots e old
    · by_cases logged : lba ∈ w.timeline.dirtyList
      · rw [OnceLog.add_of_mem logged] at member
        exact known.slots _ member
      · exact known.untouched lba logged
  · rw [Timeline.dirtyList, content.dirty, OnceLog.mem_add, not_or] at unlogged
    exact (Function.update_of_ne unlogged.2 _ _).trans (known.untouched lba' unlogged.1)

theorem Coherent.journalEpoch (known : Coherent opened w) (landed : Option Nat) :
    Coherent opened (w.step (.save landed)) := by
  have saved : w.timeline.save w.image landed =
      w.timeline.journalEpoch w.timeline.digest landed := by
    rw [Timeline.save, if_pos known.attached, Timeline.freshen_of_fresh known.fresh]
  have content := w.timeline.sameContent_journalEpoch w.timeline.digest landed
  rw [step, saved]
  refine ⟨content.attached.trans known.attached, content.stale.trans known.fresh,
    content.digest.trans known.digest, fun e member => ?_, fun lba unlogged => ?_⟩
  · rw [content.dirty] at member
    exact known.slots e member
  · rw [Timeline.dirtyList, content.dirty] at unlogged
    exact known.untouched lba unlogged

theorem Coherent.applyPlan (known : Coherent opened w) (plan : BlockMap g)
    (landed : Fin g.blocks → Option Nat) : Coherent opened (w.applyPlan plan landed) := by
  induction plan generalizing w with
  | nil => exact known
  | cons b rest ih => exact ih (known.write b.1 b.2 (landed b.1))

theorem image_applyPlan (w : World g) (plan : BlockMap g) (landed : Fin g.blocks → Option Nat) :
    (w.applyPlan plan landed).image = overlay plan w.image := by
  induction plan generalizing w with
  | nil => rfl
  | cons b rest ih => exact ih (w.write b.1 b.2 (landed b.1))

theorem loadOrder_write (w : World g) (lba : Fin g.blocks) (next : Block g.blockSize)
    (landed : Option Nat) :
    (w.write lba next landed).timeline.loadOrder = w.timeline.loadOrder := by
  cases attached : w.timeline.attached with
  | false => rw [World.write, Timeline.willWrite_detached attached]
  | true =>
    rw [World.write, Timeline.willWrite_attached attached]
    exact (w.timeline.logWrite_content lba (w.image lba) next landed).loadOrder

theorem loadOrder_applyPlan (w : World g) (plan : BlockMap g) (landed : Fin g.blocks → Option Nat) :
    (w.applyPlan plan landed).timeline.loadOrder = w.timeline.loadOrder := by
  induction plan generalizing w with
  | nil => rfl
  | cons b rest ih =>
    exact (ih (w.write b.1 b.2 (landed b.1))).trans (loadOrder_write w b.1 b.2 (landed b.1))

/-- The opened content of a block is its slot of the log, or the image. -/
theorem Coherent.opened_eq (known : Coherent opened w) (lba : Fin g.blocks) :
    w.timeline.opened w.image lba = opened lba := by
  rw [Timeline.opened]
  split
  · next e found =>
      have member := List.mem_reverse.mp (List.mem_of_find?_eq_some found)
      have key : e.1 = lba := by simpa using List.find?_some found
      rw [known.slots e member, key]
  · next absent =>
      refine known.untouched lba fun logged => ?_
      obtain ⟨e, member, key⟩ := List.mem_map.mp logged
      have other := List.find?_eq_none.mp absent e (List.mem_reverse.mpr member)
      exact other (decide_eq_true key)

/-- The log `commitLoad` leaves. -/
theorem Coherent.entries_commitLoad (known : Coherent opened w) :
    (w.timeline.commitLoad w.image).dirty.entries =
      firsts (w.timeline.loadOrder.map fun lba => (lba, opened lba)) ++
        (firsts (w.timeline.dirty.entries.filter fun e => e.2 ≠ w.image e.1)).filter
          fun e => e.1 ∉ (firsts (w.timeline.loadOrder.map fun lba => (lba, opened lba))).map
            Prod.fst := by
  rw [Timeline.commitLoad, if_pos known.attached]
  rw [OnceLog.entries_addAll, OnceLog.entries_addAll_empty]
  simp only [known.opened_eq]

theorem Coherent.commitLoad (known : Coherent opened w) :
    Coherent opened { w with timeline := w.timeline.commitLoad w.image } := by
  have entries := known.entries_commitLoad
  have kept : ∀ e ∈ (w.timeline.commitLoad w.image).dirty.entries, e.2 = opened e.1 := by
    intro e member
    rw [entries, List.mem_append] at member
    rcases member with inState | stillDiffers
    · obtain ⟨lba, _, rfl⟩ := List.mem_map.mp (firsts_subset inState)
      rfl
    · have logged := firsts_subset (List.mem_of_mem_filter stillDiffers)
      exact known.slots e (List.mem_of_mem_filter logged)
  have outside : ∀ lba, lba ∉ (w.timeline.commitLoad w.image).dirtyList →
      w.image lba = opened lba := by
    intro lba unlogged
    by_cases logged : lba ∈ w.timeline.dirtyList
    · -- the block left the log because it is back at its opened content
      obtain ⟨e, member, rfl⟩ := List.mem_map.mp logged
      by_contra differs
      refine unlogged ?_
      rw [Timeline.dirtyList, entries, List.map_append, List.mem_append]
      by_cases inState : e.1 ∈
          (firsts (w.timeline.loadOrder.map fun lba => (lba, opened lba))).map Prod.fst
      · exact .inl inState
      right
      have changed : e.2 ≠ w.image e.1 := fun same =>
        differs (same.symm.trans (known.slots e member))
      have there : e.1 ∈ (firsts (w.timeline.dirty.entries.filter
          fun e => e.2 ≠ w.image e.1)).map Prod.fst :=
        mem_firsts.mpr (List.mem_map_of_mem
          (List.mem_filter.mpr ⟨member, decide_eq_true changed⟩))
      obtain ⟨e', member', same⟩ := List.mem_map.mp there
      rw [← same] at inState ⊢
      exact List.mem_map_of_mem (List.mem_filter.mpr ⟨member', decide_eq_true inState⟩)
    · exact known.untouched lba logged
  have content : (w.timeline.commitLoad w.image).attached = true ∧
      (w.timeline.commitLoad w.image).stale = false ∧
      (w.timeline.commitLoad w.image).digest = imageDigest w.image := by
    rw [Timeline.commitLoad, if_pos known.attached]
    exact ⟨known.attached, known.fresh, known.digest⟩
  exact ⟨content.1, content.2.1, content.2.2, kept, outside⟩

/-! ## Restoring a state of the same process -/

/-- An image that differs from the opened one in the named blocks only. -/
structure Over (opened image : Image g) (order : List (Fin g.blocks)) : Prop where
  distinct : order.Nodup
  untouched : ∀ lba, lba ∉ order → image lba = opened lba

theorem Coherent.based (known : Coherent opened w) : Over opened w.image w.timeline.dirtyList :=
  ⟨w.timeline.dirty.distinct, known.untouched⟩

theorem Coherent.chunk_eq (known : Coherent opened w) :
    w.timeline.chunk w.image = Timeline.stateBytes w.image w.timeline.dirtyList := by
  refine Timeline.chunk_eq known.attached ?_
  rw [Timeline.freshen_of_fresh known.fresh, known.digest]

variable {image : Image g} {order : List (Fin g.blocks)}

/-- The first candidate leads to the saved image. -/
theorem Coherent.overlay_logCandidate (known : Coherent opened w) (based : Over opened image order)
    {snap : OnceLog g.blocks (Block g.blockSize)}
    (entries : snap.entries = order.map fun lba => (lba, image lba)) :
    overlay (w.timeline.logCandidate snap) w.image = image := by
  have distinct := w.timeline.distinct_logCandidate snap
  have keys : snap.entries.map Prod.fst = order := by rw [entries, map_fst_graph]
  funext lba
  by_cases inState : lba ∈ order
  · have member : (lba, image lba) ∈ w.timeline.logCandidate snap := by
      refine List.mem_append_right _ ?_
      rw [entries]
      exact List.mem_map_of_mem inState
    exact overlay_of_mem distinct member w.image
  · rw [based.untouched lba inState]
    by_cases logged : lba ∈ w.timeline.dirtyList
    · obtain ⟨e, member, rfl⟩ := List.mem_map.mp logged
      have unseen : snap.bits.test e.1 = false := by
        rwa [← Bool.not_eq_true, snap.marked, keys]
      have reverted : e ∈ w.timeline.logCandidate snap :=
        List.mem_append_left _ (List.mem_filter.mpr ⟨member, by rw [unseen]; rfl⟩)
      rw [overlay_of_mem distinct reverted, known.slots e member]
    · rw [overlay_of_notMem, known.untouched lba logged]
      rw [Timeline.logCandidate, List.map_append, List.mem_append, not_or, keys]
      exact ⟨fun old => logged ((List.filter_sublist.map Prod.fst).subset old), inState⟩

/-- Loading a state of the same process is accepted, and its plan leads to the saved
image. -/
theorem Coherent.load_state (known : Coherent opened w) (based : Over opened image order)
    (rest : List Byte) (why : String) :
    ∃ plan, w.timeline.load w.image ⟨Timeline.stateBytes image order ++ rest, true, why⟩ =
        ⟨w.timeline.ordered order, ⟨rest, true, why⟩, plan⟩ ∧
      overlay plan w.image = image := by
  obtain ⟨snap, read, entries⟩ := Timeline.parse_stateBytes known.attached image based.distinct
    rest why
  have lands := known.overlay_logCandidate based entries
  have distinct := w.timeline.distinct_logCandidate snap
  have order' : snap.entries.map Prod.fst = order := by rw [entries, map_fst_graph]
  have noted : w.timeline.noted w.image snap = w.timeline.ordered order := by
    rw [Timeline.noted, order']
    exact Timeline.freshen_of_fresh (t := w.timeline.ordered order) known.fresh w.image
  have digest : (w.timeline.ordered order).digestAfter w.image (w.timeline.logCandidate snap) =
      imageDigest image := by
    rw [Timeline.digestAfter_eq (t := w.timeline.ordered order) known.digest distinct, lands]
  have found : (w.timeline.ordered order).chooseMap w.image snap (imageDigest image) =
      some (w.timeline.logCandidate snap) := if_pos digest
  refine ⟨(w.timeline.logCandidate snap).filter fun b => w.image b.1 ≠ b.2, ?_,
    (overlay_plan distinct w.image).trans lands⟩
  rw [Timeline.load, read]
  dsimp only
  rw [← Timeline.ordered, ← Timeline.noted, noted, found]

/-- A restored state of the same process: the image is the saved one and the log has
the blocks of the state in their order. -/
theorem Coherent.restore_state (known : Coherent opened w) (based : Over opened image order)
    (rest : List Byte) (why : String) (landed : Fin g.blocks → Option Nat) :
    let restored := w.restore ⟨Timeline.stateBytes image order ++ rest, true, why⟩ landed
    Coherent opened restored ∧ restored.image = image ∧ restored.timeline.dirtyList = order := by
  obtain ⟨plan, loaded, lands⟩ := known.load_state based rest why
  have start : Coherent opened { w with timeline := w.timeline.ordered order } :=
    ⟨known.attached, known.fresh, known.digest, known.slots, known.untouched⟩
  have applied := start.applyPlan plan landed
  have content := (image_applyPlan { w with timeline := w.timeline.ordered order } plan
    landed).trans lands
  have loadOrder : ({ w with timeline := w.timeline.ordered order }.applyPlan plan
      landed).timeline.loadOrder = order := loadOrder_applyPlan _ plan landed
  have entries := applied.entries_commitLoad
  rw [restore, loaded, if_pos rfl]
  refine ⟨applied.commitLoad, content, ?_⟩
  have keys := map_fst_graph order opened
  have inOrder : firsts (order.map fun lba => (lba, opened lba)) =
      order.map fun lba => (lba, opened lba) :=
    firsts_of_nodup (keys.symm ▸ based.distinct)
  rw [Timeline.dirtyList, entries, loadOrder, inOrder, content, List.map_append, keys,
    List.filter_eq_nil_iff.mpr, List.map_nil, List.append_nil]
  -- a block outside the state is back at its opened content, so it leaves the log
  intro e member outside
  have differs := List.mem_filter.mp (firsts_subset member)
  have slot := applied.slots e differs.1
  have same := based.untouched e.1 (of_decide_eq_true outside)
  exact of_decide_eq_true differs.2 (slot.trans same.symm)

end World

/-- What happens between attach and the end of a process: guest writes, saves, and
restores of a state saved before. -/
inductive SessionOp (g : Geometry) where
  | write (lba : Fin g.blocks) (next : Block g.blockSize) (landed : Option Nat)
  | save (landed : Option Nat)
  | restore (i : Nat) (landed : Fin g.blocks → Option Nat)

/-- A process with the states it saved, each with the image at the save. -/
structure Session (g : Geometry) where
  world : World g
  saves : List (List Byte × Image g)

namespace Session

/-- A process that has just attached its image. -/
def start (w : World g) (writeBack : Bool) (host : JournalHost) : Session g :=
  ⟨w.step (.attach writeBack host), []⟩

def step (s : Session g) : SessionOp g → Session g
  | .write lba next landed => { s with world := s.world.write lba next landed }
  | .save landed =>
    { world := s.world.step (.save landed)
      saves := s.saves ++ [(s.world.timeline.chunk s.world.image, s.world.image)] }
  | .restore i landed =>
    match s.saves[i]? with
    | none => s
    | some saved => { s with world := s.world.restore ⟨saved.1, true, ""⟩ landed }

/-- The log is right, and every state was saved from an image over the opened one. -/
structure Coherent (opened : Image g) (s : Session g) : Prop where
  world : s.world.Coherent opened
  saves : ∀ saved ∈ s.saves, ∃ order, World.Over opened saved.2 order ∧
    saved.1 = Timeline.stateBytes saved.2 order

theorem Coherent.step {opened : Image g} {s : Session g} (known : Coherent opened s)
    (op : SessionOp g) : Coherent opened (s.step op) := by
  cases op with
  | write lba next landed => exact ⟨known.world.write lba next landed, known.saves⟩
  | save landed =>
    exact ⟨known.world.journalEpoch landed, List.forall_mem_append.mpr ⟨known.saves,
      List.forall_mem_singleton.mpr
        ⟨s.world.timeline.dirtyList, known.world.based, known.world.chunk_eq⟩⟩⟩
  | restore i landed =>
    rw [Session.step]
    split
    · exact known
    next saved found =>
      obtain ⟨order, based, bytes⟩ := known.saves saved (List.mem_of_getElem? found)
      have restored := (known.world.restore_state based [] "" landed).1
      rw [List.append_nil, ← bytes] at restored
      exact ⟨restored, known.saves⟩

/-- In one process, after any guest writes, saves and restores of earlier states: the
log names no block twice and its bitmap is the set of its blocks, its slots hold the
opened content, and every other block still has it. Restoring any of the states saved
so far is accepted, takes exactly the bytes of the state, makes the image the saved
one, and saving again writes the bytes of the state. -/
theorem same_process_exact (w : World g) (writeBack : Bool) (host : JournalHost)
    (ops : List (SessionOp g)) :
    let s := run step (start w writeBack host) ops
    (s.world.timeline.dirtyList.Nodup ∧
      (∀ lba : Fin g.blocks, s.world.timeline.dirty.bits.test lba = true ↔
        lba ∈ s.world.timeline.dirtyList) ∧
      (∀ (i : Nat) (lba : Fin g.blocks), s.world.timeline.dirtyList[i]? = some lba →
        s.world.timeline.pristine[i]? = some (w.image lba)) ∧
      ∀ lba, lba ∉ s.world.timeline.dirtyList → s.world.image lba = w.image lba) ∧
    ∀ saved ∈ s.saves, ∀ (rest : List Byte) (why : String) (landed : Fin g.blocks → Option Nat),
      (s.world.timeline.load s.world.image ⟨saved.1 ++ rest, true, why⟩).reader =
        ⟨rest, true, why⟩ ∧
      (s.world.restore ⟨saved.1 ++ rest, true, why⟩ landed).image = saved.2 ∧
      (s.world.restore ⟨saved.1 ++ rest, true, why⟩ landed).timeline.chunk
        (s.world.restore ⟨saved.1 ++ rest, true, why⟩ landed).image = saved.1 := by
  intro s
  have known : Coherent w.image s := run_invariant (fun _ op known => known.step op)
    ⟨World.coherent_attach w writeBack host, List.forall_mem_nil _⟩ ops
  refine ⟨⟨s.world.timeline.dirty.distinct, s.world.timeline.dirty.marked, ?_,
    known.world.untouched⟩, ?_⟩
  · intro i lba found
    rw [Timeline.dirtyList, List.getElem?_map, Option.map_eq_some_iff] at found
    obtain ⟨e, there, rfl⟩ := found
    rw [Timeline.pristine, List.getElem?_map, there, Option.map_some,
      known.world.slots e (List.mem_of_getElem? there)]
  · intro saved member rest why landed
    obtain ⟨order, based, bytes⟩ := known.saves saved member
    rw [bytes]
    obtain ⟨plan, loaded, _⟩ := known.world.load_state based rest why
    obtain ⟨coherent, content, list⟩ := known.world.restore_state based rest why landed
    refine ⟨congrArg Timeline.Loaded.reader loaded, content, ?_⟩
    rw [coherent.chunk_eq, content, list]

end Session

end Pom68k.Disk
