import Pom68k.Disk.TimelineFrame

/-! # A restore lands on the digest of its state

The digest is kept up to date through writes, restores and staleness, whatever the
journal file holds. Each candidate plan of a restore names every block at most once,
so the digest computed for it is the digest of the image it leads to.
-/

namespace Pom68k.Disk

open Foundation

variable {g : Geometry} {m : BlockMap g}

namespace Timeline

variable {t : Timeline g} {target : BitVec 64}

theorem fullDigest_attached (attached : t.attached = true) (image : Image g) :
    t.fullDigest image = imageDigest image :=
  if_pos attached

theorem fullDigest_detached (detached : t.attached = false) (image : Image g) :
    t.fullDigest image = 0#64 :=
  if_neg (Bool.eq_false_iff.mp detached)

theorem digestAfter_eq {image : Image g} (current : t.digest = imageDigest image)
    {writes : BlockMap g} (distinct : (writes.map Prod.fst).Nodup) :
    t.digestAfter image writes = imageDigest (overlay writes image) := by
  rw [digestAfter, current, foldl_swapDigest distinct]

theorem distinct_logCandidate (t : Timeline g) (snap : OnceLog g.blocks (Block g.blockSize)) :
    ((t.logCandidate snap).map Prod.fst).Nodup := by
  rw [logCandidate, List.map_append, List.nodup_append]
  refine ⟨t.dirty.distinct.sublist (List.filter_sublist.map Prod.fst), snap.distinct, ?_⟩
  rintro lba old lba' new rfl
  obtain ⟨e, kept, rfl⟩ := List.mem_map.mp old
  have unseen : snap.bits.test e.1 = false := by simpa using (List.mem_filter.mp kept).2
  cases unseen.symm.trans ((snap.marked e.1).mpr new)

theorem distinct_journalCandidate (found : t.journalCandidate target = some m) :
    (m.map Prod.fst).Nodup := by
  rw [journalCandidate] at found
  split at found
  · cases found
  · obtain ⟨file, _, walked⟩ := Option.bind_eq_some_iff.mp found
    obtain ⟨epoch, _, rfl⟩ := Option.map_eq_some_iff.mp walked
    exact OnceLog.distinct _

/-- A chosen candidate names each block once and leads to the target digest. -/
theorem chooseMap_sound {image : Image g} (current : t.digest = imageDigest image)
    {snap : OnceLog g.blocks (Block g.blockSize)}
    (found : t.chooseMap image snap target = some m) :
    (m.map Prod.fst).Nodup ∧ imageDigest (overlay m image) = target := by
  rw [chooseMap] at found
  split at found
  · next lands =>
      cases found
      have distinct := t.distinct_logCandidate snap
      exact ⟨distinct, (digestAfter_eq current distinct).symm.trans lands⟩
  · obtain ⟨candidate, lands⟩ := Option.filter_eq_some_iff.mp found
    have distinct := distinct_journalCandidate candidate
    exact ⟨distinct, (digestAfter_eq current distinct).symm.trans (of_decide_eq_true lands)⟩

end Timeline

namespace World

/-- Unless it is marked stale, the digest is that of the image. -/
def DigestExact (w : World g) : Prop :=
  w.timeline.stale = false → w.timeline.digest = w.timeline.fullDigest w.image

variable {w : World g}

section

variable (known : DigestExact w)
include known

theorem digestExact_of_content {t : Timeline g} (same : w.timeline.SameContent t) :
    DigestExact { w with timeline := t } := by
  intro fresh
  rw [same.digest, same.fullDigest]
  exact known (same.stale.symm.trans fresh)

/-- After the digest was asked for it is that of the image. -/
theorem digest_freshen : (w.timeline.freshen w.image).digest = w.timeline.fullDigest w.image := by
  rw [Timeline.freshen]
  split
  · rfl
  · next fresh => exact known (Bool.not_eq_true _ ▸ fresh)

theorem digestExact_freshen : DigestExact { w with timeline := w.timeline.freshen w.image } := by
  intro _
  rw [digest_freshen known, Timeline.fullDigest, Timeline.fullDigest, Timeline.attached_freshen]

/-- A write moves the digest from the old image to the new one. -/
theorem digestExact_write (lba : Fin g.blocks)
    (next : Block g.blockSize) (landed : Option Nat) : DigestExact (w.write lba next landed) := by
  intro fresh
  rw [write] at fresh ⊢
  cases attached : w.timeline.attached with
  | false =>
    rw [Timeline.willWrite_detached attached] at fresh ⊢
    rw [known fresh, Timeline.fullDigest_detached attached, Timeline.fullDigest_detached attached]
  | true =>
    rw [Timeline.willWrite_attached attached] at fresh ⊢
    have content := w.timeline.logWrite_content lba (w.image lba) next landed
    have fresh' : w.timeline.stale = false := content.stale.symm.trans fresh
    have moved : (w.timeline.logWrite lba (w.image lba) next landed).digest =
        w.timeline.digest ^^^ swapDigest w.image lba next :=
      content.digest.trans (if_neg (Bool.eq_false_iff.mp fresh'))
    rw [moved, known fresh', Timeline.fullDigest_attached attached,
      Timeline.fullDigest_attached (content.attached.trans attached), imageDigest_update]

theorem digestExact_applyPlan (plan : BlockMap g)
    (landed : Fin g.blocks → Option Nat) : DigestExact (w.applyPlan plan landed) := by
  induction plan generalizing w with
  | nil => exact known
  | cons b rest ih => exact ih (digestExact_write known b.1 b.2 (landed b.1))

theorem digestExact_noted (snap : OnceLog g.blocks (Block g.blockSize)) :
    DigestExact { w with timeline := w.timeline.noted w.image snap } :=
  digestExact_freshen (w := { w with
    timeline := w.timeline.ordered (snap.entries.map Prod.fst) }) known

theorem digest_noted (snap : OnceLog g.blocks (Block g.blockSize)) :
    (w.timeline.noted w.image snap).digest = w.timeline.fullDigest w.image :=
  digest_freshen (w := { w with
    timeline := w.timeline.ordered (snap.entries.map Prod.fst) }) known

theorem digestExact_load (r : Reader) :
    DigestExact { w with timeline := (w.timeline.load w.image r).timeline } := by
  have ends := w.timeline.load_ends w.image r
  generalize w.timeline.load w.image r = loaded at ends ⊢
  cases ends with
  | unread | noMedium => exact known
  | differs snap | planned snap => exact digestExact_noted known snap

theorem digestExact_commitLoad :
    DigestExact { w with timeline := w.timeline.commitLoad w.image } := by
  rw [Timeline.commitLoad]
  split <;> exact known

theorem digestExact_restore (r : Reader)
    (landed : Fin g.blocks → Option Nat) : DigestExact (w.restore r landed) := by
  have applied := digestExact_applyPlan (digestExact_load known r)
    (w.timeline.load w.image r).plan landed
  rw [restore]
  split
  · exact digestExact_commitLoad applied
  · exact applied

theorem digestExact_step (op : Op g) : DigestExact (w.step op) := by
  cases op with
  | attach writeBack host =>
    have content := w.timeline.attach_content w.image (if writeBack then w.path else "")
      w.name host
    intro _
    rw [step, content.digest, content.fullDigest]
    rfl
  | setJournalCap | tamper => exact known
  | write lba next landed => exact digestExact_write known lba next landed
  | poke image => exact Bool.noConfusion
  | digest => exact digestExact_freshen known
  | save landed =>
    rw [step, Timeline.save]
    split
    · exact digestExact_of_content
        (digestExact_freshen known) (Timeline.sameContent_journalEpoch _ _ landed)
    · exact known
  | restore r landed => exact digestExact_restore known r landed
  | quit | quitInWrite => exact fun _ => rfl

end

/-- The states a medium can be in, whatever happened to it. -/
def Reached (w : World g) : Prop :=
  ∃ path name image file ops, w = run step (initial path name image file) ops

theorem Reached.digestExact (reached : w.Reached) : DigestExact w := by
  obtain ⟨path, name, image, file, ops, rfl⟩ := reached
  exact run_invariant (I := DigestExact) (fun _ op known => digestExact_step known op)
    (fun _ => rfl) ops

theorem overlay_plan (distinct : (m.map Prod.fst).Nodup) (image : Image g) :
    overlay (m.filter fun w => image w.1 ≠ w.2) image = overlay m image :=
  overlay_filter distinct image

/-- A refused restore writes nothing. -/
theorem restore_refused {r : Reader} (refused : (w.timeline.load w.image r).reader.ok = false)
    (landed : Fin g.blocks → Option Nat) :
    w.restore r landed = { w with timeline := (w.timeline.load w.image r).timeline } := by
  rw [restore]
  have ends := w.timeline.load_ends w.image r
  generalize w.timeline.load w.image r = loaded at ends refused ⊢
  cases ends with
  | unread r' failed => rw [if_neg (Bool.eq_false_iff.mp refused)]; rfl
  | noMedium r' read ok => exact absurd (ok.symm.trans refused) Bool.noConfusion
  | differs snap target r' read attached none why =>
    rfl
  | planned snap target r' read attached ok m found =>
    exact absurd (ok.symm.trans refused) Bool.noConfusion

/-- In every state a medium can be in, and whatever bytes the state and the journal
consist of: a load is accepted only if the state has no disk, or if its plan names
each block at most once and leads to an image with the digest of the state. A refused
load has an empty plan, writes nothing and leaves the log, and it leaves the digest
unless it had to be computed again. The digest is that of the image unless it is
stale. -/
theorem restore_checked {w : World g} (reached : w.Reached) (r : Reader)
    (landed : Fin g.blocks → Option Nat) :
    ((w.timeline.load w.image r).reader.ok = true →
      ((w.timeline.parse r).1 = .noMedium ∧ (w.timeline.load w.image r).plan = []) ∨
      ∃ snap target, (w.timeline.parse r).1 = .medium snap target ∧
        ((w.timeline.load w.image r).plan.map Prod.fst).Nodup ∧
        imageDigest (overlay (w.timeline.load w.image r).plan w.image) = target) ∧
    ((w.timeline.load w.image r).reader.ok = false →
      (w.timeline.load w.image r).plan = [] ∧
      (w.restore r landed).image = w.image ∧
      (w.restore r landed).timeline.dirty = w.timeline.dirty ∧
      ((w.restore r landed).timeline.digest = w.timeline.digest ∨
        w.timeline.stale = true ∧
          (w.restore r landed).timeline.digest = w.timeline.fullDigest w.image)) ∧
    (w.timeline.stale = false → w.timeline.digest = w.timeline.fullDigest w.image) := by
  have known := reached.digestExact
  refine ⟨fun accepted => ?_, fun refused => ?_, known⟩
  · have ends := w.timeline.load_ends w.image r
    generalize w.timeline.load w.image r = loaded at ends accepted ⊢
    cases ends with
    | unread r' failed => exact absurd (failed.symm.trans accepted) Bool.noConfusion
    | noMedium r' read ok => exact .inl ⟨congrArg Prod.fst read, rfl⟩
    | differs snap target r' read attached none why => exact Bool.noConfusion accepted
    | planned snap target r' read attached ok m found =>
      obtain ⟨distinct, lands⟩ := Timeline.chooseMap_sound
        ((digest_noted known snap).trans (Timeline.fullDigest_attached attached _)) found
      refine .inr ⟨snap, target, congrArg Prod.fst read, ?_, ?_⟩
      · exact distinct.sublist (List.filter_sublist.map Prod.fst)
      · rw [overlay_plan distinct, lands]
  · rw [restore_refused refused landed]
    have ends := w.timeline.load_ends w.image r
    generalize w.timeline.load w.image r = loaded at ends refused ⊢
    cases ends with
    | unread r' failed => exact ⟨rfl, rfl, rfl, .inl rfl⟩
    | noMedium r' read ok => exact absurd (ok.symm.trans refused) Bool.noConfusion
    | differs snap target r' read attached none why =>
      refine ⟨rfl, rfl, Timeline.dirty_freshen _ _, ?_⟩
      cases stale : w.timeline.stale with
      | false => exact .inl ((digest_noted known snap).trans (known stale).symm)
      | true => exact .inr ⟨rfl, digest_noted known snap⟩
    | planned snap target r' read attached ok m found =>
      exact absurd (ok.symm.trans refused) Bool.noConfusion

end World

namespace Sample

/-- A disk with one block of one byte. -/
def tiny : Geometry := ⟨1, 1, by decide, by decide, by decide⟩

def content (byte : Byte) : Block tiny.blockSize := ⟨[byte], rfl⟩

def first : Fin tiny.blocks := ⟨0, tiny.positive⟩

/-- The disk attached with write-back for the first time. -/
def fresh : World tiny :=
  run World.step (.initial "disk.pomundo" "SCSI disk" (fun _ => content 0x41#8) none)
    [.attach true {}]

/-- The block was written, the state saved, and the block written again. -/
def ahead : World tiny :=
  run World.step fresh [.write first (content 0x42#8) none, .save none,
    .write first (content 0x43#8) none]

/-- The state saved in between. -/
def state : Reader :=
  let w := fresh.write first (content 0x42#8) none
  ⟨w.timeline.chunk w.image, true, ""⟩

/-- The image was changed directly, so its digest is stale. -/
def touched : World tiny := run World.step fresh [.poke fun _ => content 0x44#8]

/-- A well-formed state of this disk whose digest no image here has. -/
def foreign : Reader := ⟨state.rest.take 14 ++ putBytes 8 5#64, true, ""⟩

/-- A state of a drive without a medium: a block size of 0. -/
def mediumless : Reader := ⟨List.replicate 8 0#8, true, ""⟩

theorem reached_ahead : ahead.Reached :=
  ⟨_, _, _, _, .attach true {} :: [.write first (content 0x42#8) none, .save none,
    .write first (content 0x43#8) none], rfl⟩

theorem reached_touched : touched.Reached :=
  ⟨_, _, _, _, .attach true {} :: [.poke fun _ => content 0x44#8], rfl⟩

end Sample

/-- Rewinding the block of the sample disk to a state. -/
theorem restore_checked_rewound :
    (Sample.ahead.timeline.load Sample.ahead.image Sample.state).reader.ok = true ∧
      (((Sample.ahead.timeline.parse Sample.state).1 = .noMedium ∧
          (Sample.ahead.timeline.load Sample.ahead.image Sample.state).plan = []) ∨
        ∃ snap target, (Sample.ahead.timeline.parse Sample.state).1 = .medium snap target ∧
          ((Sample.ahead.timeline.load Sample.ahead.image Sample.state).plan.map Prod.fst).Nodup ∧
          imageDigest (overlay (Sample.ahead.timeline.load Sample.ahead.image Sample.state).plan
            Sample.ahead.image) = target) := by
  have accepted : (Sample.ahead.timeline.load Sample.ahead.image Sample.state).reader.ok = true := by
    decide +kernel
  exact ⟨accepted,
    (World.restore_checked Sample.reached_ahead Sample.state fun _ => none).1 accepted⟩

/-- A refused load replaces a stale digest, and a state that records none is not refused. -/
theorem refused_load_moves_digest :
    Sample.touched.Reached ∧
      (Sample.touched.timeline.load Sample.touched.image Sample.foreign).reader.ok = false ∧
      (Sample.touched.restore Sample.foreign fun _ => none).timeline.digest ≠
        Sample.touched.timeline.digest ∧
      (Sample.touched.timeline.parse Sample.mediumless).1 = .noMedium ∧
      (Sample.touched.timeline.load Sample.touched.image Sample.mediumless).reader.ok = true :=
  ⟨Sample.reached_touched, by decide +kernel, by decide +kernel, rfl, by decide +kernel⟩

end Pom68k.Disk
