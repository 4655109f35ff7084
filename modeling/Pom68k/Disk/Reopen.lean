import Pom68k.Disk.SameProcess
import Pom68k.Disk.RewindExact

/-! # States of an earlier process

A state is saved, more blocks are written, and another process attaches what is left:
the journal file, and an image that may differ from the one the journal was written
for. Its log is empty, so the first candidate of a restore is the new image with the
blocks of the state, and the second one the new image with the blocks written after
the save put back.
-/

namespace Pom68k.Disk

open Foundation

variable {g : Geometry}

/-- A write of one block. -/
structure BlockWrite (g : Geometry) where
  lba : Fin g.blocks
  next : Block g.blockSize
  landed : Option Nat

namespace World

/-- A sequence of block writes. -/
def writes (w : World g) (ops : List (BlockWrite g)) : World g :=
  run (fun w op => w.write op.lba op.next op.landed) w ops

theorem writes_append (w : World g) (front back : List (BlockWrite g)) :
    w.writes (front ++ back) = (w.writes front).writes back :=
  run_append w front back

theorem applyPlan_eq_writes (w : World g) (plan : BlockMap g) (landed : Fin g.blocks → Option Nat) :
    w.applyPlan plan landed = w.writes (plan.map fun b => ⟨b.1, b.2, landed b.1⟩) := by
  rw [writes, run, List.foldl_map, applyPlan]

variable {opened : Image g} {w : World g} {ops : List (BlockWrite g)}

theorem Coherent.writes (known : Coherent opened w) (ops : List (BlockWrite g)) :
    Coherent opened (w.writes ops) :=
  run_invariant (fun _ op known => known.write op.lba op.next op.landed)
    known ops

theorem whole_writes (whole : w.timeline.Whole) (ops : List (BlockWrite g)) :
    (w.writes ops).timeline.Whole :=
  run_invariant (I := fun w : World g => w.timeline.Whole)
    (fun _ op whole => whole_write whole op.lba op.next op.landed) whole ops

/-- The log names the blocks it named before and those that were written. -/
theorem Coherent.mem_dirtyList_writes (known : Coherent opened w) (ops : List (BlockWrite g))
    (b : Fin g.blocks) :
    b ∈ (w.writes ops).timeline.dirtyList ↔
      b ∈ w.timeline.dirtyList ∨ b ∈ ops.map BlockWrite.lba := by
  induction ops generalizing w with
  | nil => exact ⟨.inl, fun either => either.resolve_right List.not_mem_nil⟩
  | cons op rest ih =>
    have content := w.timeline.logWrite_content op.lba (w.image op.lba) op.next op.landed
    have logged : b ∈ (w.write op.lba op.next op.landed).timeline.dirtyList ↔
        b ∈ w.timeline.dirtyList ∨ b = op.lba := by
      rw [World.write, Timeline.willWrite_attached known.attached, Timeline.dirtyList,
        content.dirty, OnceLog.mem_add]
      rfl
    rw [List.map_cons, List.mem_cons, ← or_assoc, ← logged]
    exact ih (known.write op.lba op.next op.landed)

theorem journal_of_writes (stillOpen : (w.writes ops).timeline.journal = true) :
    w.timeline.journal = true := by
  induction ops generalizing w with
  | nil => exact stillOpen
  | cons op rest ih => exact Timeline.journal_of_willWrite (ih stillOpen)

/-! ## The journal since a save -/

/-- Since the epoch of a digest the journal has recorded the touched blocks. -/
structure Recording (d : BitVec 64) (saved : Image g) (touched : List (Fin g.blocks))
    (w : World g) : Prop where
  whole : w.timeline.Whole
  bits : ∀ b : Fin g.blocks, w.timeline.epochBits.test b = true ↔ b ∈ touched
  tracks : ∃ front back torn, Timeline.Tracks d saved w.timeline w.image front back torn ∧
    ∀ b, b ∈ (restored back).map Prod.fst ↔ b ∈ touched

variable {d : BitVec 64} {saved : Image g} {touched : List (Fin g.blocks)}

section

variable (known : Recording d saved touched w)
include known

theorem Recording.write (lba : Fin g.blocks) (next : Block g.blockSize) (landed : Option Nat)
    (stillOpen : (w.write lba next landed).timeline.journal = true) :
    Recording d saved (touched ++ [lba]) (w.write lba next landed) := by
  have journalling := Timeline.journal_of_willWrite stillOpen
  have whole := whole_write known.whole lba next landed
  have same := w.timeline.sameJournal_logWrite lba (w.image lba) next landed
  obtain ⟨front, back, torn, tracks, keys⟩ := known.tracks
  rw [World.write, Timeline.willWrite_attached (known.whole journalling).1] at stillOpen whole ⊢
  rw [same.journal] at stillOpen
  by_cases new : w.timeline.journal = true ∧ w.timeline.epochBits.test lba = false
  · rw [Timeline.recordOld_new new] at same stillOpen
    obtain rfl := Timeline.landed_of_journal stillOpen
    obtain ⟨back', torn', grown, tracks'⟩ :=
      tracks.append_block known.whole journalling lba next none (.inr rfl)
    obtain rfl := grown rfl
    refine ⟨whole, fun b => ?_, front, _, torn', tracks'.same same, fun b => ?_⟩
    · have set : (w.timeline.epochBits.set lba).test b = true ↔
          w.timeline.epochBits.test b = true ∨ b = lba := by
        rw [Bitmap.test_set, Bool.or_eq_true, decide_eq_true_iff, or_comm]
        exact or_congr_right ⟨fun here => Fin.ext here.symm, fun here => congrArg _ here.symm⟩
      rwa [same.epochBits, List.mem_append, List.mem_singleton, ← known.bits b]
    · rw [Timeline.restored_concat_block, List.map_append, List.mem_append, List.mem_append, keys b]
      rfl
  · have marked : w.timeline.epochBits.test lba = true := by
      rw [← Bool.not_eq_false]
      exact fun fresh => new ⟨journalling, fresh⟩
    have there := (known.bits lba).mp marked
    have again : ∀ b, b ∈ touched ++ [lba] ↔ b ∈ touched := fun b => by
      rw [List.mem_append, List.mem_singleton, or_iff_left_of_imp]
      rintro rfl
      exact there
    rw [Timeline.recordOld_known new] at same
    refine ⟨whole, fun b => ?_, front, back, torn, Timeline.Tracks.same ?_ same, fun b => ?_⟩
    · rw [same.epochBits, known.bits b, again b]
    · refine ⟨tracks.file, tracks.isTorn, tracks.last, ?_, tracks.logged⟩
      rw [rewind_update ((keys lba).mpr there), tracks.undoes]
    · rw [keys b, again b]

theorem Recording.writes (stillOpen : (w.writes ops).timeline.journal = true) :
    Recording d saved (touched ++ ops.map BlockWrite.lba) (w.writes ops) := by
  induction ops generalizing w touched with
  | nil => rwa [List.map_nil, List.append_nil]
  | cons op rest ih =>
    have first := known.write op.lba op.next op.landed (journal_of_writes stillOpen)
    have all := ih first stillOpen
    rwa [List.append_assoc] at all

/-- A block that was not touched has its saved content. -/
theorem Recording.untouched {b : Fin g.blocks} (outside : b ∉ touched) : w.image b = saved b := by
  obtain ⟨front, back, torn, tracks, keys⟩ := known.tracks
  rw [← tracks.undoes, rewind_of_notMem fun logged => outside ((keys b).mp logged)]

end

/-- Saving with an open journal starts an epoch with nothing recorded. -/
theorem recording_save (known : Coherent opened w) (whole : w.timeline.Whole)
    {landed : Option Nat} (stillOpen : (w.step (.save landed)).timeline.journal = true) :
    Recording (imageDigest w.image) w.image [] (w.step (.save landed)) := by
  have saved : w.timeline.save w.image landed =
      w.timeline.journalEpoch (imageDigest w.image) landed := by
    rw [Timeline.save, if_pos known.attached, Timeline.freshen_of_fresh known.fresh, known.digest]
  have journalling : w.timeline.journal = true := by
    by_contra closed
    rw [step, saved, Timeline.journalEpoch_closed closed] at stillOpen
    exact closed stillOpen
  obtain ⟨_, records, file⟩ := whole journalling
  obtain ⟨_, journal, same, reset⟩ :=
    Timeline.journalEpoch_open journalling (imageDigest w.image) landed
  have kept : (w.step (.save landed)).timeline.Whole := whole_step trivial whole
  rw [step, saved] at stillOpen kept ⊢
  obtain rfl := Timeline.landed_of_journal (journal.symm.trans stillOpen)
  obtain ⟨records', torn, _, isTorn, success, file'⟩ :=
    Timeline.append_file file (.epoch (imageDigest w.image)) none
  obtain ⟨rfl, rfl⟩ := success rfl
  have none : ∀ b : Fin g.blocks, ¬ ((w.timeline.journalEpoch (imageDigest w.image)
      none).epochBits.test b = true) := fun b marked => by
    rw [reset rfl, Bitmap.test_empty] at marked
    exact Bool.false_ne_true marked
  refine ⟨kept, fun b => iff_of_false (none b) List.not_mem_nil, records, [], [],
    ⟨same.trans file', isTorn, List.forall_mem_nil _, rfl,
      fun _ b marked => absurd marked (none b)⟩, fun _ => Iff.rfl⟩

/-! ## Restoring in the next process -/

theorem image_restore (w : World g) (r : Reader) (landed : Fin g.blocks → Option Nat) :
    (w.restore r landed).image = overlay (w.timeline.load w.image r).plan w.image := by
  rw [restore]
  split <;> exact image_applyPlan _ _ landed

end World

/-- The candidate of a load by the digests the candidates lead to. -/
theorem Timeline.chooseMap_cases {t : Timeline g} {image : Image g}
    (current : t.digest = imageDigest image) (snap : OnceLog g.blocks (Block g.blockSize))
    {target : BitVec 64} {m : BlockMap g} (candidate : t.journalCandidate target = some m) :
    (imageDigest (overlay (t.logCandidate snap) image) = target ∧
        t.chooseMap image snap target = some (t.logCandidate snap)) ∨
      (imageDigest (overlay (t.logCandidate snap) image) ≠ target ∧
        imageDigest (overlay m image) = target ∧ t.chooseMap image snap target = some m) ∨
      (imageDigest (overlay (t.logCandidate snap) image) ≠ target ∧
        imageDigest (overlay m image) ≠ target ∧ t.chooseMap image snap target = none) := by
  have log := digestAfter_eq current (t.distinct_logCandidate snap)
  have journal := digestAfter_eq current (distinct_journalCandidate candidate)
  rw [chooseMap, candidate, log]
  by_cases first : imageDigest (overlay (t.logCandidate snap) image) = target
  · exact .inl ⟨first, if_pos first⟩
  rw [if_neg first]
  by_cases second : imageDigest (overlay m image) = target
  · refine .inr (.inl ⟨first, second, Option.filter_some_pos ?_⟩)
    exact decide_eq_true (journal.trans second)
  · refine .inr (.inr ⟨first, second, Option.filter_some_neg ?_⟩)
    exact decide_eq_false fun same => second (journal.symm.trans same)

namespace World

variable {opened saved : Image g} {w : World g} {order : List (Fin g.blocks)}

/-- A state of an earlier process is accepted with its image in two cases: the blocks of
the state lead to its image, or they do not lead to its digest and the journal leads to
its image. -/
theorem Coherent.restore_reopened (known : Coherent opened w)
    (clean : w.timeline.dirty.entries = []) (distinct : order.Nodup) {m : BlockMap g}
    (candidate : w.timeline.journalCandidate (imageDigest saved) = some m) (rest : List Byte)
    (why : String) (landed : Fin g.blocks → Option Nat) :
    (w.timeline.load w.image ⟨Timeline.stateBytes saved order ++ rest, true, why⟩).reader.ok =
          true ∧
        (w.restore ⟨Timeline.stateBytes saved order ++ rest, true, why⟩ landed).image = saved ↔
      overlay (order.map fun lba => (lba, saved lba)) w.image = saved ∨
        imageDigest (overlay (order.map fun lba => (lba, saved lba)) w.image) ≠
            imageDigest saved ∧
          overlay m w.image = saved := by
  obtain ⟨snap, read, entries⟩ := Timeline.parse_stateBytes known.attached saved distinct rest why
  have keys : snap.entries.map Prod.fst = order := by rw [entries, map_fst_graph]
  have noted : w.timeline.noted w.image snap = w.timeline.ordered order := by
    rw [Timeline.noted, keys]
    exact Timeline.freshen_of_fresh (t := w.timeline.ordered order) known.fresh w.image
  have log : (w.timeline.ordered order).logCandidate snap =
      order.map fun lba => (lba, saved lba) := by
    rw [← entries, Timeline.logCandidate, Timeline.ordered, clean]
    rfl
  have distinctLog := (w.timeline.ordered order).distinct_logCandidate snap
  have choice := Timeline.chooseMap_cases (t := w.timeline.ordered order) known.digest snap candidate
  rw [image_restore, Timeline.load, read]
  dsimp only
  rw [← Timeline.ordered, ← Timeline.noted, noted]
  rw [log] at distinctLog choice
  rcases choice with ⟨first, found⟩ | ⟨first, second, found⟩ | ⟨first, second, found⟩
  · rw [found]
    rw [overlay_plan distinctLog]
    exact ⟨fun accepted => .inl accepted.2,
      fun either => ⟨rfl, either.resolve_right fun other => other.1 first⟩⟩
  · rw [found]
    rw [overlay_plan (Timeline.distinct_journalCandidate candidate)]
    refine ⟨fun accepted => .inr ⟨first, accepted.2⟩, fun either => ⟨rfl, ?_⟩⟩
    exact (either.resolve_left fun same => first (congrArg imageDigest same)).2
  · rw [found]
    refine iff_of_false (fun accepted => Bool.false_ne_true accepted.1) ?_
    rintro (same | same)
    · exact first (congrArg imageDigest same)
    · exact second (congrArg imageDigest same.2)

/-- The journal a process left still leads to the saved image, if the image the next one
opens has the saved content outside the touched blocks. -/
theorem Recording.candidate_reopened {d : BitVec 64} {touched : List (Fin g.blocks)}
    (known : Recording d saved touched w) {path : String} (journalled : path ≠ "") (name : String)
    (reopened : Image g) {host : JournalHost} (opens : host.opens = true)
    (fits : ∀ file, w.timeline.file = some file →
      file.length ≤ (initial path name reopened w.timeline.file).timeline.journalCap) :
    ∃ m, ((initial path name reopened w.timeline.file).step
        (.attach true host)).timeline.journalCandidate d = some m ∧
      (overlay m reopened = saved ↔ ∀ b, b ∉ touched → reopened b = saved b) := by
  obtain ⟨front, back, torn, tracks, keys⟩ := known.tracks
  have left : Timeline.Tracks d (rewind (restored back) reopened)
      (initial path name reopened w.timeline.file).timeline reopened front back torn :=
    ⟨tracks.file, tracks.isTorn, tracks.last, rfl, nofun⟩
  have attached := (Timeline.tracked_attach ⟨front, back, torn, left⟩ path name host).2 opens fits
  have content := (initial path name reopened w.timeline.file).timeline.attach_content reopened path
    name host
  obtain ⟨m, candidate, lands⟩ := attached.candidate (content.journalPath ▸ journalled)
  refine ⟨m, candidate, ?_⟩
  rw [lands, rewind_eq_iff tracks.undoes]
  exact forall_congr' fun b => by rw [keys b]

end World

end Pom68k.Disk
