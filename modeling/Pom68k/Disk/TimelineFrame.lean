import Pom68k.Disk.World

/-! # What the timeline's operations leave alone

The journal's operations touch the journal only. A write adds the block to the log and
moves the digest. A load reads the state, and settles on a plan or refuses.
-/

namespace Pom68k.Disk

open Foundation

variable {g : Geometry}

namespace Timeline

/-- Two timelines that differ in their journal only. -/
structure SameContent (t t' : Timeline g) : Prop where
  attached : t'.attached = t.attached
  digest : t'.digest = t.digest
  stale : t'.stale = t.stale
  dirty : t'.dirty = t.dirty
  loadOrder : t'.loadOrder = t.loadOrder
  name : t'.name = t.name
  journalPath : t'.journalPath = t.journalPath

variable (t : Timeline g)

theorem SameContent.refl : SameContent t t := ⟨rfl, rfl, rfl, rfl, rfl, rfl, rfl⟩

theorem SameContent.fullDigest {t t' : Timeline g} (same : SameContent t t') (image : Image g) :
    t'.fullDigest image = t.fullDigest image := by
  rw [Timeline.fullDigest, Timeline.fullDigest, same.attached]

theorem sameContent_recordOld (lba : Fin g.blocks) (cur : Block g.blockSize)
    (landed : Option Nat) : SameContent t (t.recordOld lba cur landed) := by
  rw [recordOld]
  split
  · cases landed <;> exact ⟨rfl, rfl, rfl, rfl, rfl, rfl, rfl⟩
  · exact .refl t

variable (host : JournalHost)

theorem sameContent_newJournal : SameContent t (t.newJournal host) := by
  rw [newJournal]
  split
  · split <;> exact ⟨rfl, rfl, rfl, rfl, rfl, rfl, rfl⟩
  · exact ⟨rfl, rfl, rfl, rfl, rfl, rfl, rfl⟩

theorem sameContent_resumeJournal (file : List Byte) :
    SameContent t (t.resumeJournal host file) := by
  rw [resumeJournal]
  split
  · exact ⟨rfl, rfl, rfl, rfl, rfl, rfl, rfl⟩
  · split <;> exact ⟨rfl, rfl, rfl, rfl, rfl, rfl, rfl⟩

theorem sameContent_openJournal : SameContent t (t.openJournal host) := by
  rw [openJournal]
  split
  · split
    · exact sameContent_resumeJournal t host _
    · exact sameContent_newJournal t host
  · exact sameContent_newJournal t host

theorem sameContent_journalEpoch (d : BitVec 64) (landed : Option Nat) :
    SameContent t (t.journalEpoch d landed) := by
  unfold journalEpoch
  split
  · cases landed <;> exact ⟨rfl, rfl, rfl, rfl, rfl, rfl, rfl⟩
  · exact .refl t

variable (image : Image g)

/-- What `attach` leaves in the timeline besides the journal. -/
theorem attach_content (journalPath name : String) (host : JournalHost) :
    SameContent
      { t.detach with
        name := name, attached := true, digest := imageDigest image, journalPath := journalPath }
      (t.attach image journalPath name host) := by
  rw [attach]
  split
  · exact .refl _
  · exact sameContent_openJournal _ host

/-- What a logged write leaves in the timeline besides the journal. -/
theorem logWrite_content (lba : Fin g.blocks) (cur next : Block g.blockSize) (landed : Option Nat) :
    SameContent
      { t with
        dirty := t.dirty.add (lba, cur)
        digest := if t.stale then t.digest
          else t.digest ^^^ (blockHash lba cur.1 ^^^ blockHash lba next.1) }
      (t.logWrite lba cur next landed) := by
  have same := sameContent_recordOld { t with dirty := t.dirty.add (lba, cur) } lba cur landed
  by_cases stale : t.stale = true
  · rw [logWrite, if_pos stale, if_pos (same.stale.trans stale)]
    exact ⟨same.attached, same.digest, same.stale, same.dirty, same.loadOrder, same.name,
      same.journalPath⟩
  · rw [logWrite, if_neg stale, if_neg fun old => stale (same.stale.symm.trans old)]
    exact ⟨same.attached, by rw [same.digest], same.stale, same.dirty, same.loadOrder, same.name,
      same.journalPath⟩

theorem willWrite_attached {t : Timeline g} (attached : t.attached = true) (lba : Fin g.blocks)
    (cur next : Block g.blockSize) (landed : Option Nat) :
    t.willWrite lba cur next landed = t.logWrite lba cur next landed :=
  dif_pos ⟨attached, lba.isLt⟩

theorem willWrite_detached {t : Timeline g} (detached : t.attached = false) (lba : Nat)
    (cur next : Block g.blockSize) (landed : Option Nat) :
    t.willWrite lba cur next landed = t :=
  dif_neg fun inside => Bool.false_ne_true (detached.symm.trans inside.1)

@[simp] theorem attached_freshen :
    (t.freshen image).attached = t.attached := by
  rw [freshen]
  split <;> rfl

@[simp] theorem dirty_freshen :
    (t.freshen image).dirty = t.dirty := by
  rw [freshen]
  split <;> rfl

@[simp] theorem file_freshen :
    (t.freshen image).file = t.file := by
  rw [freshen]
  split <;> rfl

@[simp] theorem journal_freshen :
    (t.freshen image).journal = t.journal := by
  rw [freshen]
  split <;> rfl

@[simp] theorem epochBits_freshen :
    (t.freshen image).epochBits = t.epochBits := by
  rw [freshen]
  split <;> rfl

theorem freshen_of_fresh {t : Timeline g} (fresh : t.stale = false) (image : Image g) :
    t.freshen image = t :=
  if_neg (by rw [fresh]; exact Bool.false_ne_true)

/-! ## Loading -/

/-- The reader has failed when the state's blocks are refused. -/
theorem readBlocks_refused {count : Nat} {snap : OnceLog g.blocks (Block g.blockSize)}
    {r : Reader} (refused : (readBlocks count snap r).1 = none) :
    (readBlocks count snap r).2.ok = false := by
  induction count generalizing snap r with
  | zero => cases refused
  | succ count ih =>
    rw [readBlocks] at refused ⊢
    dsimp only at refused ⊢
    split_ifs at refused ⊢
    · rfl
    · exact ih refused
    · rfl

/-- The reader succeeds exactly when the state was not refused. -/
theorem parseBlocks_ok (r : Reader) :
    ((parseBlocks r : Recorded g × Reader).1 = .refused ∧
        (parseBlocks r : Recorded g × Reader).2.ok = false) ∨
      ∃ snap target, (parseBlocks r : Recorded g × Reader).1 = .medium snap target ∧
        (parseBlocks r : Recorded g × Reader).2.ok = true := by
  rw [parseBlocks]
  dsimp only
  split_ifs with bad
  · exact .inl ⟨rfl, rfl⟩
  · split
    · next r' read =>
        have failed := readBlocks_refused (congrArg Prod.fst read)
        rw [read] at failed
        exact .inl ⟨rfl, failed⟩
    · next snap r' read =>
        split_ifs with short
        · exact .inl ⟨rfl, short⟩
        · exact .inr ⟨snap, _, rfl, Bool.not_eq_false _ ▸ short⟩

theorem parse_ok (r : Reader) :
    ((t.parse r).1 = .refused ∧ (t.parse r).2.ok = false) ∨
      ((t.parse r).1 = .noMedium ∧ (t.parse r).2.ok = true) ∨
      ∃ snap target, (t.parse r).1 = .medium snap target ∧ (t.parse r).2.ok = true ∧
        t.attached = true := by
  rw [parse]
  dsimp only
  split_ifs with short none detached size
  · exact .inl ⟨rfl, short⟩
  · exact .inr (.inl ⟨rfl, Bool.not_eq_false _ ▸ short⟩)
  · exact .inl ⟨rfl, rfl⟩
  · exact .inl ⟨rfl, rfl⟩
  · rcases parseBlocks_ok _ with refused | ⟨snap, target, read, ok⟩
    · exact .inl refused
    · exact .inr (.inr ⟨snap, target, read, ok, Bool.not_eq_false _ ▸ detached⟩)

/-- A timeline that has noted the block order of a state. -/
def ordered (t : Timeline g) (order : List (Fin g.blocks)) : Timeline g :=
  { t with loadOrder := order }

/-- The timeline a load leaves once the state was read. -/
def noted (t : Timeline g) (image : Image g) (snap : OnceLog g.blocks (Block g.blockSize)) :
    Timeline g :=
  (t.ordered (snap.entries.map Prod.fst)).freshen image

/-- The ways a load can end. -/
inductive LoadEnds (t : Timeline g) (image : Image g) (r : Reader) : Loaded g → Prop where
  | unread (r' : Reader) (failed : r'.ok = false) : LoadEnds t image r ⟨t, r', []⟩
  | noMedium (r' : Reader) (read : t.parse r = (.noMedium, r')) (ok : r'.ok = true) :
      LoadEnds t image r ⟨t, r', []⟩
  | differs (snap : OnceLog g.blocks (Block g.blockSize)) (target : BitVec 64) (r' : Reader)
      (read : t.parse r = (.medium snap target, r')) (attached : t.attached = true)
      (none : (t.noted image snap).chooseMap image snap target = none) (why : String) :
      LoadEnds t image r ⟨t.noted image snap, r'.failWith why, []⟩
  | planned (snap : OnceLog g.blocks (Block g.blockSize)) (target : BitVec 64) (r' : Reader)
      (read : t.parse r = (.medium snap target, r')) (attached : t.attached = true)
      (ok : r'.ok = true) (m : BlockMap g)
      (found : (t.noted image snap).chooseMap image snap target = some m) :
      LoadEnds t image r ⟨t.noted image snap, r', m.filter fun w => image w.1 ≠ w.2⟩

theorem load_ends (r : Reader) : LoadEnds t image r (t.load image r) := by
  have read := parse_ok t r
  rw [load]
  rcases parsed : t.parse r with ⟨recorded, r'⟩
  rw [parsed] at read
  rcases read with ⟨rfl, failed⟩ | ⟨rfl, ok⟩ | ⟨snap, target, rfl, ok, attached⟩
  · exact .unread r' failed
  · exact .noMedium r' parsed ok
  · dsimp only
    split
    · next none => exact .differs snap target r' parsed attached none _
    · next m found => exact .planned snap target r' parsed attached ok m found

end Timeline

end Pom68k.Disk
