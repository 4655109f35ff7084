import Pom68k.Disk.JournalRewind

/-! # Histories of an image across processes

Any number of processes attach the image the last one left, write, save and restore,
and end in the middle of anything. If every change of the image since a save was
journalled, the journal's candidate for the digest of the save is exactly the way
back to its image, unless a later epoch has the same digest.
-/

namespace Pom68k.Disk

open Foundation

variable {g : Geometry}

namespace World

/-- The operation changes the image only through writes that are in the journal, and
leaves the journal file to the timeline. A process may end at any point, with a torn
record in the file. -/
def Journalled (w : World g) : Op g → Prop
  | .attach _ _ | .setJournalCap _ | .digest | .save _ => True
  | .write lba next landed =>
    Function.update w.image lba next = w.image ∨ (w.write lba next landed).timeline.journal = true
  | .poke image => image = w.image
  | .restore r landed =>
    (w.timeline.load w.image r).plan = [] ∨ (w.restore r landed).timeline.journal = true
  | .quit torn => Torn g torn
  | .quitInWrite lba next left landed =>
    Function.update w.image lba left = w.image ∨ (w.write lba next landed).timeline.journal = true
  | .tamper _ => False

/-- The operation leaves the journal file to the timeline. -/
def Untampered (_ : World g) : Op g → Prop
  | .tamper _ => False
  | _ => True

/-- The operation does not record an epoch of a digest. -/
def NoEpoch (d : BitVec 64) (w : World g) : Op g → Prop
  | .save _ => (w.timeline.freshen w.image).digest ≠ d
  | _ => True

/-- The operation keeps the whole history: an attached journal can be opened and is
within its cap. -/
def KeepsHistory (w : World g) : Op g → Prop
  | .attach _ host => host.opens = true ∧
      ∀ file, w.timeline.file = some file → file.length ≤ w.timeline.journalCap
  | _ => True

/-! ## An open journal is whole -/

variable {w : World g} {op : Op g} {landed : Fin g.blocks → Option Nat}

theorem whole_write (whole : w.timeline.Whole) (lba : Fin g.blocks)
    (next : Block g.blockSize) (landed : Option Nat) :
    (w.write lba next landed).timeline.Whole :=
  whole.willWrite lba (w.image lba) next landed

theorem whole_applyPlan (whole : w.timeline.Whole) (plan : BlockMap g)
    (landed : Fin g.blocks → Option Nat) : (w.applyPlan plan landed).timeline.Whole := by
  induction plan generalizing w with
  | nil => exact whole
  | cons b rest ih => exact ih (whole_write whole b.1 b.2 (landed b.1))

theorem whole_restore (whole : w.timeline.Whole) (r : Reader)
    (landed : Fin g.blocks → Option Nat) : (w.restore r landed).timeline.Whole := by
  have loaded := (w.timeline.sameJournal_load w.image r).whole whole
  have applied := whole_applyPlan (w := { w with
    timeline := (w.timeline.load w.image r).timeline }) loaded (w.timeline.load w.image r).plan
    landed
  rw [restore]
  split
  · exact (Timeline.sameJournal_commitLoad _ _).whole applied
  · exact applied

theorem whole_step (untampered : Untampered w op)
    (whole : w.timeline.Whole) : (w.step op).timeline.Whole := by
  cases op with
  | attach writeBack host => exact Timeline.whole_attach _ _ _ _ host
  | setJournalCap | poke => exact whole
  | write lba next landed => exact whole_write whole lba next landed
  | digest => exact (Timeline.sameJournal_freshen _ _).whole whole
  | save landed =>
    rw [step, Timeline.save]
    split
    · exact ((Timeline.sameJournal_freshen _ _).whole whole).journalEpoch _ landed
    · exact whole
  | restore r landed => exact whole_restore whole r landed
  | quit | quitInWrite => rintro ⟨⟩
  | tamper file => exact untampered.elim

theorem Journalled.untampered (journalled : Journalled w op) : Untampered w op := by
  cases op with
  | tamper file => exact journalled
  | _ => trivial

/-! ## What the operations of a process preserve -/

variable {d : BitVec 64} {P : Timeline g → Image g → Prop} {plan : BlockMap g}

/-- A write that is in the journal, or that changes nothing. -/
theorem preserves_willWrite (inv : Timeline.JournalInvariant d P) {t : Timeline g}
    {image : Image g} (whole : t.Whole) (lba : Fin g.blocks) (next content : Block g.blockSize)
    (landed : Option Nat)
    (journalled : Function.update image lba content = image ∨
      (t.willWrite lba (image lba) next landed).journal = true) (known : P t image) :
    P (t.willWrite lba (image lba) next landed) (Function.update image lba content) := by
  cases attached : t.attached with
  | false =>
    rw [Timeline.willWrite_detached attached] at journalled ⊢
    rcases journalled with unchanged | journalling
    · rwa [unchanged]
    · cases attached.symm.trans (whole journalling).1
  | true =>
    have same := t.sameJournal_logWrite lba (image lba) next landed
    rw [Timeline.willWrite_attached attached] at journalled ⊢
    rw [same.journal] at journalled
    exact inv.same same (inv.recordOld lba content landed whole journalled known)

theorem journal_of_applyPlan (stillOpen : (w.applyPlan plan landed).timeline.journal = true) :
    w.timeline.journal = true := by
  induction plan generalizing w with
  | nil => exact stillOpen
  | cons b rest ih => exact Timeline.journal_of_willWrite (ih stillOpen)

section

variable (inv : Timeline.JournalInvariant d P)
include inv

/-- A plan whose writes are all in the journal. -/
theorem preserves_applyPlan (whole : w.timeline.Whole)
    (journalled : plan = [] ∨ (w.applyPlan plan landed).timeline.journal = true)
    (known : P w.timeline w.image) :
    P (w.applyPlan plan landed).timeline (w.applyPlan plan landed).image := by
  induction plan generalizing w with
  | nil => exact known
  | cons b rest ih =>
    have stillOpen := journalled.resolve_left (List.cons_ne_nil _ _)
    have written : (w.write b.1 b.2 (landed b.1)).timeline.journal = true :=
      journal_of_applyPlan stillOpen
    exact ih (whole_write whole b.1 b.2 (landed b.1)) (.inr stillOpen)
      (preserves_willWrite inv whole b.1 b.2 b.2 (landed b.1) (.inr written) known)

theorem preserves_restore (whole : w.timeline.Whole) {r : Reader}
    (journalled : (w.timeline.load w.image r).plan = [] ∨
      (w.restore r landed).timeline.journal = true) (known : P w.timeline w.image) :
    P (w.restore r landed).timeline (w.restore r landed).image := by
  have loaded := w.timeline.sameJournal_load w.image r
  rw [restore] at journalled ⊢
  set planned : World g := { w with timeline := (w.timeline.load w.image r).timeline }
  have journalled' : (w.timeline.load w.image r).plan = [] ∨
      (planned.applyPlan (w.timeline.load w.image r).plan landed).timeline.journal = true := by
    refine journalled.imp_right fun stillOpen => ?_
    split at stillOpen
    · rwa [(Timeline.sameJournal_commitLoad _ _).journal] at stillOpen
    · exact stillOpen
  have applied := preserves_applyPlan inv (loaded.whole whole) journalled'
    (inv.same loaded known)
  split
  · exact inv.same (Timeline.sameJournal_commitLoad _ _) applied
  · exact applied

/-- Everything a process does but attaching. -/
theorem preserves_step
    (whole : w.timeline.Whole) (journalled : Journalled w op) (other : NoEpoch d w op)
    (attach : ∀ writeBack host, op = .attach writeBack host →
      P w.timeline w.image → P (w.step op).timeline w.image)
    (known : P w.timeline w.image) : P (w.step op).timeline (w.step op).image := by
  cases op with
  | attach writeBack host => exact attach writeBack host rfl known
  | setJournalCap cap => exact inv.same (t := w.timeline) ⟨rfl, rfl, rfl, rfl⟩ known
  | write lba next landed => exact preserves_willWrite inv whole lba next next landed journalled known
  | poke image =>
    cases journalled
    exact inv.same (t := w.timeline) ⟨rfl, rfl, rfl, rfl⟩ known
  | digest => exact inv.same (Timeline.sameJournal_freshen _ _) known
  | save landed =>
    have fresh := Timeline.sameJournal_freshen w.timeline w.image
    rw [step, Timeline.save]
    split
    · exact inv.epoch landed (fresh.whole whole) other (inv.same fresh known)
    · exact known
  | restore r landed => exact preserves_restore inv whole journalled known
  | quit torn => exact inv.quit whole journalled known
  | quitInWrite lba next left landed =>
    exact inv.quit (whole.willWrite lba _ next landed) (torn_nil g)
      (preserves_willWrite inv whole lba next left landed journalled known)
  | tamper file => exact journalled.elim

end

/-- The journal still has the epoch and undoes everything since, or it has lost it. -/
def Follows (d : BitVec 64) (saved : Image g) (w : World g) : Prop :=
  w.timeline.Whole ∧ (Timeline.Tracked d saved w.timeline w.image ∨ Timeline.Lost d w.timeline)

theorem Follows.step {saved : Image g}
    (allowed : Journalled w op ∧ NoEpoch d w op) (known : Follows d saved w) :
    Follows d saved (w.step op) := by
  have inv := (Timeline.journalInvariant_tracked d saved).or (Timeline.journalInvariant_lost d)
  refine ⟨whole_step allowed.1.untampered known.1,
    preserves_step inv known.1 allowed.1 allowed.2 ?_ known.2⟩
  rintro writeBack host rfl (tracked | lost)
  · exact (Timeline.tracked_attach tracked _ w.name host).1
  · exact .inr (Timeline.lost_attach lost w.image _ w.name host)

/-- The journal still has the epoch and undoes everything since. -/
def Holds (d : BitVec 64) (saved : Image g) (w : World g) : Prop :=
  w.timeline.Whole ∧ Timeline.Tracked d saved w.timeline w.image

theorem Holds.step {saved : Image g}
    (allowed : (Journalled w op ∧ NoEpoch d w op) ∧ KeepsHistory w op)
    (known : Holds d saved w) : Holds d saved (w.step op) := by
  refine ⟨whole_step allowed.1.1.untampered known.1,
    preserves_step (Timeline.journalInvariant_tracked d saved) known.1 allowed.1.1 allowed.1.2 ?_
      known.2⟩
  rintro writeBack host rfl tracked
  exact (Timeline.tracked_attach tracked _ w.name host).2 allowed.2.1 allowed.2.2

/-- A save with an open journal records its epoch last. -/
theorem holds_save (whole : w.timeline.Whole) (journalling : w.timeline.journal = true) :
    Holds (w.timeline.freshen w.image).digest w.image (w.step (.save none)) := by
  refine ⟨whole_step trivial whole, ?_⟩
  obtain ⟨attached, records, file⟩ := whole journalling
  set d := (w.timeline.freshen w.image).digest
  have open' : (w.timeline.freshen w.image).journal = true :=
    (Timeline.journal_freshen _ _).trans journalling
  obtain ⟨_, _, same, reset⟩ := Timeline.journalEpoch_open open' d none
  have saved : (w.step (.save none)).timeline =
      (w.timeline.freshen w.image).journalEpoch d none := by
    rw [step, Timeline.save, if_pos attached]
  rw [saved]
  refine ⟨records, [], [], ?_, torn_nil g, fun r member => ?_, rfl, fun _ lba marked => ?_⟩
  · rw [same, Timeline.append, Timeline.file_freshen, file, Option.map_some, recordBytes_append,
      recordBytes_cons, recordBytes_nil, List.append_nil, List.append_nil, List.append_assoc]
  · cases member
  · rw [reset rfl, Bitmap.test_empty] at marked
    cases marked

/-- The states of an image whose journal file was left to the timeline, whatever the
file held at first. -/
def History (w : World g) : Prop :=
  ∃ path name image file ops, Along step Untampered (initial path name image file) ops ∧
    w = run step (initial path name image file) ops

theorem History.whole (history : w.History) : w.timeline.Whole := by
  obtain ⟨path, name, image, file, ops, untampered, rfl⟩ := history
  exact untampered.invariant (fun _ _ => whole_step)
    nofun

/-- A state is saved with its journal open, and after it any number of processes write,
save, restore and end at any point, with every change of the image in the journal and
no other epoch of this digest. Then the journal's candidate for the digest leads from
the current image to that of the save. There is a candidate as long as no attach
starts the journal over or finds it beyond its cap. -/
theorem journal_rewind_exact {w : World g} (history : w.History)
    (journalling : w.timeline.journal = true) {d : BitVec 64}
    (digest : (w.timeline.freshen w.image).digest = d) {after : List (Op g)}
    (journalled : Along step (fun w op => Journalled w op ∧ NoEpoch d w op)
      (w.step (.save none)) after) :
    let later := run step (w.step (.save none)) after
    (∀ m, later.timeline.journalCandidate d = some m → overlay m later.image = w.image) ∧
    (Along step KeepsHistory (w.step (.save none)) after → later.timeline.journalPath ≠ "" →
      ∃ m, later.timeline.journalCandidate d = some m) := by
  intro later
  have saved := holds_save history.whole journalling
  rw [digest] at saved
  refine ⟨fun m found => ?_, fun keeps path => ?_⟩
  · have follows : Follows d w.image later :=
      journalled.invariant (fun _ _ => Follows.step)
        ⟨saved.1, .inl saved.2⟩
    rcases follows.2 with tracked | lost
    · have path : later.timeline.journalPath ≠ "" := by
        intro none
        rw [Timeline.journalCandidate, if_pos none] at found
        cases found
      obtain ⟨m', found', lands⟩ := tracked.candidate path
      cases found'.symm.trans found
      exact lands
    · cases lost.candidate.symm.trans found
  · have holds : Holds d w.image later :=
      (journalled.and keeps).invariant (fun _ _ => Holds.step) saved
    obtain ⟨m, found, _⟩ := holds.2.candidate path
    exact ⟨m, found⟩

end World

namespace Sample

/-- A save, a write, the end of the process inside an append, and the next process,
which writes the block again. -/
def crashed : List (Op tiny) :=
  [.write first (content 0x43#8) none, .quit [0x42#8, 0#8], .attach true {},
    .write first (content 0x44#8) none]

/-- A disk with one block of sixteen bytes. -/
def wide : Geometry :=
  ⟨16, 1, Nat.succ_pos 15, show 16 < 4294967296 by decide, tiny.blocksWord⟩

def zeros : Block wide.blockSize := ⟨List.replicate 16 0#8, rfl⟩

/-- Other bytes with the same hash. -/
def collision : Block wide.blockSize :=
  ⟨[1#8, 0#8, 0#8, 0#8, 0#8, 0#8, 0#8, 0#8,
    0x80#8, 0x07#8, 0x1F#8, 0x01#8, 0xAB#8, 0x70#8, 0x6B#8, 0x62#8], rfl⟩

def only : Fin wide.blocks := ⟨0, tiny.positive⟩

def blank : World wide :=
  run World.step (.initial "disk.pomundo" "SCSI disk" (fun _ => zeros) none) [.attach true {}]

/-- The block is overwritten and the state saved again. -/
def overwritten : World wide :=
  run World.step (blank.step (.save none)) [.write only collision none, .save none]

end Sample

/-- Rewinding the sample disk after a crash. -/
theorem journal_rewind_exact_crashed :
    ∃ m, (run World.step (Sample.fresh.step (.save none)) Sample.crashed).timeline.journalCandidate
        (Sample.fresh.timeline.freshen Sample.fresh.image).digest = some m ∧
      overlay m (run World.step (Sample.fresh.step (.save none)) Sample.crashed).image =
        Sample.fresh.image := by
  have journalled : Along World.step (fun w op => World.Journalled w op ∧
      World.NoEpoch (Sample.fresh.timeline.freshen Sample.fresh.image).digest w op)
      (Sample.fresh.step (.save none)) Sample.crashed :=
    ⟨⟨.inr (by decide +kernel), trivial⟩, ⟨rfl, trivial⟩, ⟨trivial, trivial⟩,
      ⟨.inr (by decide +kernel), trivial⟩, trivial⟩
  have exact' := World.journal_rewind_exact ⟨_, _, _, _, [.attach true {}], ⟨trivial, trivial⟩,
    rfl⟩ (by decide +kernel) rfl journalled
  have keeps : Along World.step World.KeepsHistory (Sample.fresh.step (.save none))
      Sample.crashed := by
    refine ⟨trivial, trivial, ⟨rfl, fun file found => ?_⟩, trivial, trivial⟩
    have small : (run World.step (Sample.fresh.step (.save none))
        [.write Sample.first (Sample.content 0x43#8) none, .quit [0x42#8, 0#8]]).timeline.file.all
          (fun file => file.length ≤ 256 * 2 ^ 20) = true := by decide +kernel
    rw [run_cons, run_cons, run_nil, found] at small
    exact of_decide_eq_true small
  obtain ⟨m, found⟩ := exact'.2 keeps (by decide +kernel)
  exact ⟨m, found, exact'.1 m found⟩

/-- Two images with one digest: the journal rewinds to the later epoch, although every
change since the earlier one was journalled. -/
theorem rewind_misses_earlier_epoch :
    (Along World.step World.Journalled (Sample.blank.step (.save none))
      [.write Sample.only Sample.collision none, .save none]) ∧
    (∃ m, Sample.overwritten.timeline.journalCandidate
        (Sample.blank.timeline.freshen Sample.blank.image).digest = some m ∧
      overlay m Sample.overwritten.image ≠ Sample.blank.image) := by
  refine ⟨⟨.inr (by decide +kernel), trivial, trivial⟩, [], by decide +kernel, fun same => ?_⟩
  have block := congrFun same Sample.only
  exact absurd block (by decide +kernel)

end Pom68k.Disk
