import Pom68k.Disk.JournalFile

/-! # Rewinding an image through its journal

Between an epoch and the end of the file the journal holds, for every block that was
changed, the bytes it had at the epoch. This survives writes, saves and restores, the
end of a process at any point, and another process that attaches what is left, as long
as no change goes unrecorded. Compaction and a journal started over can only lose the
epoch.
-/

namespace Pom68k.Disk

open Foundation

variable {g : Geometry}

namespace Timeline

/-- The journal undoes everything since the last epoch of a digest. -/
structure Tracks (d : BitVec 64) (saved : Image g) (t : Timeline g) (image : Image g)
    (front back : List (Record g)) (torn : List Byte) : Prop where
  file : t.file = some (header g ++ (recordBytes (front ++ .epoch d :: back) ++ torn))
  isTorn : Torn g torn
  last : ∀ r ∈ back, r.isEpoch d = false
  undoes : rewind (restored back) image = saved
  logged : t.journal = true → ∀ lba : Fin g.blocks, t.epochBits.test lba = true →
    lba ∈ (restored back).map Prod.fst

/-- The file has no epoch of a digest. -/
def Lost (d : BitVec 64) (t : Timeline g) : Prop :=
  ∀ file, t.file = some file → ∀ r ∈ (walkJournal g file).1, r.2.isEpoch d = false

/-- The file has an epoch of a digest and undoes everything since the last one. -/
def Tracked (d : BitVec 64) (saved : Image g) (t : Timeline g) (image : Image g) : Prop :=
  ∃ front back torn, Tracks d saved t image front back torn

variable {d : BitVec 64} {saved image : Image g} {t t' : Timeline g}
  {front back : List (Record g)} {torn : List Byte}

theorem Tracks.candidate (tracks : Tracks d saved t image front back torn)
    (path : t.journalPath ≠ "") : t.journalCandidate d = some (firsts (restored back)) := by
  rw [journalCandidate, if_neg path, tracks.file, Option.bind_some,
    journalMap_of_epoch front tracks.last tracks.isTorn]

theorem Lost.candidate (lost : Lost d t) : t.journalCandidate d = none := by
  rw [journalCandidate]
  split
  · rfl
  · cases file : t.file with
    | none => rfl
    | some bytes => exact journalMap_none (lost bytes file)

/-- The candidate for a digest leads to the image of its last epoch. -/
theorem Tracked.candidate (tracked : Tracked d saved t image) (path : t.journalPath ≠ "") :
    ∃ m, t.journalCandidate d = some m ∧ overlay m image = saved := by
  obtain ⟨front, back, torn, tracks⟩ := tracked
  refine ⟨_, tracks.candidate path, ?_⟩
  rw [overlay_eq_rewind (nodup_firsts _), rewind_firsts, tracks.undoes]

theorem lost_of_records {records : List (Record g)} (isTorn : Torn g torn)
    (file : t.file = some (header g ++ (recordBytes records ++ torn)))
    (none : ∀ r ∈ records, r.isEpoch d = false) : Lost d t := by
  intro bytes found
  cases file.symm.trans found
  exact (forall_walkJournal records isTorn fun r => r.isEpoch d = false).mpr none

theorem Lost.records (lost : Lost d t) {records : List (Record g)} (isTorn : Torn g torn)
    (file : t.file = some (header g ++ (recordBytes records ++ torn))) :
    ∀ r ∈ records, r.isEpoch d = false :=
  (forall_walkJournal records isTorn fun r => r.isEpoch d = false).mp (lost _ file)

/-! ## Appending -/

theorem restored_concat_block (back : List (Record g)) (lba : Fin g.blocks)
    (old : Block g.blockSize) :
    restored (back ++ [.block lba old]) = restored back ++ [(lba, old)] := by
  rw [restored, List.filterMap_append]
  rfl

theorem restored_concat_epoch (back : List (Record g)) (d' : BitVec 64) :
    restored (back ++ [.epoch d']) = restored back := by
  rw [restored, List.filterMap_append]
  exact List.append_nil _

/-- An open journal has no torn tail. -/
theorem Tracks.file_open (tracks : Tracks d saved t image front back torn) (whole : t.Whole)
    (journalling : t.journal = true) :
    t.file = some (header g ++ recordBytes (front ++ .epoch d :: back)) := by
  obtain ⟨_, records, file⟩ := whole journalling
  have same : header g ++ (recordBytes records ++ []) =
      header g ++ (recordBytes (front ++ .epoch d :: back) ++ torn) := by
    rw [List.append_nil]
    exact Option.some.inj (file.symm.trans tracks.file)
  rw [file, records_unique (torn_nil g) tracks.isTorn same]

/-- Appending a record other than an epoch of the digest: the tail grows by it, or the
write failed. -/
theorem Tracks.append (tracks : Tracks d saved t image front back torn) (whole : t.Whole)
    (journalling : t.journal = true) (record : Record g) (other : record.isEpoch d = false)
    (landed : Option Nat) :
    ∃ back' torn', (back' = back ∨ back' = back ++ [record]) ∧
      (landed = none → back' = back ++ [record]) ∧ Torn g torn' ∧
      (∀ r ∈ back', r.isEpoch d = false) ∧
      (t.append record.bytes landed).file =
        some (header g ++ (recordBytes (front ++ .epoch d :: back') ++ torn')) := by
  obtain ⟨records', torn', which, isTorn, success, file⟩ :=
    append_file (tracks.file_open whole journalling) record landed
  have grown : front ++ .epoch d :: back ++ [record] = front ++ .epoch d :: (back ++ [record]) := by
    rw [List.append_assoc, List.cons_append]
  rcases which with rfl | rfl
  · refine ⟨back, torn', .inl rfl, fun done => ?_, isTorn, tracks.last, file⟩
    exact absurd (List.self_eq_append_right.mp (success done).1) (List.cons_ne_nil _ _)
  · rw [grown] at file
    exact ⟨back ++ [record], torn', .inr rfl, fun _ => rfl, isTorn,
      List.forall_mem_append.mpr ⟨tracks.last, List.forall_mem_singleton.mpr other⟩, file⟩

theorem Lost.append (lost : Lost d t) (whole : t.Whole) (journalling : t.journal = true)
    (record : Record g) (other : record.isEpoch d = false) (landed : Option Nat) :
    Lost d (t.append record.bytes landed) := by
  obtain ⟨_, records, file⟩ := whole journalling
  have none : ∀ r ∈ records, r.isEpoch d = false :=
    lost.records (torn_nil g) (by rw [file, List.append_nil])
  obtain ⟨records', torn, which, isTorn, _, file'⟩ := append_file file record landed
  refine lost_of_records isTorn file' ?_
  rcases which with rfl | rfl
  · exact none
  · exact List.forall_mem_append.mpr ⟨none, List.forall_mem_singleton.mpr other⟩

/-- A failed write drops the journal. -/
theorem landed_of_journal {bytes : List Byte} {landed : Option Nat}
    (stillOpen : (t.append bytes landed).journal = true) : landed = none := by
  cases landed with
  | none => rfl
  | some n => cases stillOpen

/-- Recording the old bytes of a block that is not yet recorded in this epoch. -/
theorem Tracks.append_block (tracks : Tracks d saved t image front back torn) (whole : t.Whole)
    (journalling : t.journal = true) (lba : Fin g.blocks) (content : Block g.blockSize)
    (landed : Option Nat) (journalled : Function.update image lba content = image ∨ landed = none) :
    ∃ back' torn', (landed = none → back' = back ++ [.block lba (image lba)]) ∧ Tracks d saved
      ({ t with epochBits := t.epochBits.set lba }.append (Record.block lba (image lba)).bytes landed)
      (Function.update image lba content) front back' torn' := by
  obtain ⟨back', torn', which, success, isTorn, last, file⟩ :=
    tracks.append whole journalling (.block lba (image lba)) rfl landed
  cases landed with
  | none =>
    obtain rfl := success rfl
    have undoes := rewind_append_update (restored back) lba image content
    rw [← restored_concat_block, tracks.undoes] at undoes
    refine ⟨_, _, fun _ => rfl, file, isTorn, last, undoes, fun _ lba' marked => ?_⟩
    have either : lba.val = lba' ∨ t.epochBits.test lba' = true := by
      rwa [← decide_eq_true_iff (p := lba.val = lba'), ← Bool.or_eq_true, ← Bitmap.test_set]
    rw [restored_concat_block, List.map_append, List.mem_append]
    rcases either with here | old
    · exact .inr (List.mem_singleton.mpr (Fin.ext here.symm))
    · exact .inl (tracks.logged journalling lba' old)
  | some n =>
    have same := journalled.resolve_right (Option.some_ne_none n)
    have undoes : rewind (restored back') image = saved := by
      rcases which with rfl | rfl
      · exact tracks.undoes
      · rw [restored_concat_block, rewind_append_self, tracks.undoes]
    rw [same]
    exact ⟨back', torn', success, file, isTorn, last, undoes,
      nofun⟩

/-! ## What the operations of a process preserve -/

/-- A property of the journal and the image that holds on through every recorded change
and through epochs of other digests. -/
structure JournalInvariant (d : BitVec 64) (P : Timeline g → Image g → Prop) : Prop where
  same : ∀ {t t' : Timeline g} {image : Image g}, SameJournal t t' → P t image → P t' image
  recordOld : ∀ {t : Timeline g} {image : Image g} (lba : Fin g.blocks)
    (content : Block g.blockSize) (landed : Option Nat), t.Whole →
    (Function.update image lba content = image ∨
      (t.recordOld lba (image lba) landed).journal = true) →
    P t image → P (t.recordOld lba (image lba) landed) (Function.update image lba content)
  epoch : ∀ {t : Timeline g} {image : Image g} {d' : BitVec 64} (landed : Option Nat), t.Whole →
    d' ≠ d → P t image → P (t.journalEpoch d' landed) image
  quit : ∀ {t : Timeline g} {image : Image g} {torn : List Byte}, t.Whole → Torn g torn →
    P t image → P (t.ended torn) image

theorem Tracks.same (tracks : Tracks d saved t image front back torn) (same : SameJournal t t') :
    Tracks d saved t' image front back torn := by
  refine ⟨same.file.trans tracks.file, tracks.isTorn, tracks.last, tracks.undoes, ?_⟩
  rw [same.journal, same.epochBits]
  exact tracks.logged

theorem tracked_same (same : SameJournal t t') (tracked : Tracked d saved t image) :
    Tracked d saved t' image := by
  obtain ⟨front, back, torn, tracks⟩ := tracked
  exact ⟨front, back, torn, tracks.same same⟩

/-- The old bytes of a block are in the journal before it changes. A change that is not
recorded is no change. -/
theorem tracked_recordOld (lba : Fin g.blocks) (content : Block g.blockSize)
    (landed : Option Nat) (whole : t.Whole)
    (journalled : Function.update image lba content = image ∨
      (t.recordOld lba (image lba) landed).journal = true)
    (tracked : Tracked d saved t image) :
    Tracked d saved (t.recordOld lba (image lba) landed) (Function.update image lba content) := by
  obtain ⟨front, back, torn, tracks⟩ := tracked
  by_cases new : t.journal = true ∧ t.epochBits.test lba = false
  · rw [recordOld_new new] at journalled ⊢
    obtain ⟨back', torn', _, tracks'⟩ := tracks.append_block whole new.1 lba content landed
      (journalled.imp_right landed_of_journal)
    exact ⟨front, back', torn', tracks'⟩
  · rw [recordOld_known new] at journalled ⊢
    refine ⟨front, back, torn, tracks.file, tracks.isTorn, tracks.last, ?_, tracks.logged⟩
    rcases journalled with unchanged | journalling
    · rw [unchanged, tracks.undoes]
    · have marked : t.epochBits.test lba = true := by
        rw [← Bool.not_eq_false]
        exact fun fresh => new ⟨journalling, fresh⟩
      rw [rewind_update (tracks.logged journalling lba marked), tracks.undoes]

theorem tracked_epoch {d' : BitVec 64} (landed : Option Nat) (whole : t.Whole) (other : d' ≠ d)
    (tracked : Tracked d saved t image) : Tracked d saved (t.journalEpoch d' landed) image := by
  by_cases journalling : t.journal = true
  · obtain ⟨front, back, torn, tracks⟩ := tracked
    obtain ⟨_, journal, same, reset⟩ := journalEpoch_open journalling d' landed
    obtain ⟨back', torn', which, _, isTorn, last, file⟩ :=
      tracks.append whole journalling (.epoch d') (decide_eq_false other) landed
    have undoes : rewind (restored back') image = saved := by
      rcases which with rfl | rfl
      · exact tracks.undoes
      · rw [restored_concat_epoch, tracks.undoes]
    refine ⟨front, back', torn', same.trans file, isTorn, last, undoes,
      fun stillOpen lba marked => ?_⟩
    cases landed with
    | none =>
      rw [reset rfl, Bitmap.test_empty] at marked
      cases marked
    | some n => cases journal.symm.trans stillOpen
  · rwa [journalEpoch_closed journalling]

theorem tracked_quit {torn : List Byte} (whole : t.Whole) (isTorn : Torn g torn)
    (tracked : Tracked d saved t image) : Tracked d saved (t.ended torn) image := by
  obtain ⟨front, back, torn', tracks⟩ := tracked
  by_cases journalling : t.journal = true
  · have file := tracks.file_open whole journalling
    refine ⟨front, back, torn, ?_, isTorn, tracks.last, tracks.undoes,
      nofun⟩
    rw [ended, if_pos journalling, file, Option.map_some, List.append_assoc]
  · refine ⟨front, back, torn', ?_, tracks.isTorn, tracks.last, tracks.undoes,
      nofun⟩
    rw [ended, if_neg journalling]
    exact tracks.file

theorem journalInvariant_tracked (d : BitVec 64) (saved : Image g) :
    JournalInvariant d (Tracked d saved) :=
  ⟨tracked_same, tracked_recordOld, tracked_epoch, tracked_quit⟩

theorem lost_recordOld (lost : Lost d t) (whole : t.Whole) (lba : Fin g.blocks)
    (cur : Block g.blockSize) (landed : Option Nat) : Lost d (t.recordOld lba cur landed) := by
  by_cases new : t.journal = true ∧ t.epochBits.test lba = false
  · rw [recordOld_new new]
    exact Lost.append (t := { t with epochBits := t.epochBits.set lba }) lost whole new.1 _ rfl landed
  · rwa [recordOld_known new]

theorem lost_epoch (lost : Lost d t) (whole : t.Whole) {d' : BitVec 64} (other : d' ≠ d)
    (landed : Option Nat) : Lost d (t.journalEpoch d' landed) := by
  by_cases journalling : t.journal = true
  · rw [Lost, (journalEpoch_open journalling d' landed).2.2.1]
    exact lost.append whole journalling (.epoch d') (decide_eq_false other) landed
  · rwa [journalEpoch_closed journalling]

theorem lost_quit (lost : Lost d t) (whole : t.Whole) {torn : List Byte} (isTorn : Torn g torn) :
    Lost d (t.ended torn) := by
  by_cases journalling : t.journal = true
  · obtain ⟨_, records, file⟩ := whole journalling
    have none : ∀ r ∈ records, r.isEpoch d = false :=
      lost.records (torn_nil g) (by rw [file, List.append_nil])
    refine lost_of_records isTorn ?_ none
    rw [ended, if_pos journalling, file, Option.map_some, List.append_assoc]
  · rwa [Lost, ended, if_neg journalling]

theorem journalInvariant_lost (d : BitVec 64) :
    JournalInvariant (g := g) d fun t _ => Lost d t where
  same := fun same lost => by rwa [Lost, same.file]
  recordOld := fun lba _ landed whole _ lost => lost_recordOld lost whole lba _ landed
  epoch := fun landed whole other lost => lost_epoch lost whole other landed
  quit := fun whole isTorn lost => lost_quit lost whole isTorn

theorem JournalInvariant.or {P Q : Timeline g → Image g → Prop} (p : JournalInvariant d P)
    (q : JournalInvariant d Q) : JournalInvariant d fun t image => P t image ∨ Q t image where
  same := fun same known => known.imp (p.same same) (q.same same)
  recordOld := fun lba content landed whole journalled known =>
    known.imp (p.recordOld lba content landed whole journalled)
      (q.recordOld lba content landed whole journalled)
  epoch := fun landed whole other known =>
    known.imp (p.epoch landed whole other) (q.epoch landed whole other)
  quit := fun whole isTorn known => known.imp (p.quit whole isTorn) (q.quit whole isTorn)

/-! ## Attaching what is left -/

/-- What is left of the records after a cut still has the epoch and everything behind
it, or the epoch is gone. -/
theorem epoch_of_suffix {dropped kept : List (Record g)}
    (split : front ++ .epoch d :: back = dropped ++ kept)
    (last : ∀ r ∈ back, r.isEpoch d = false) :
    (∃ front', kept = front' ++ .epoch d :: back) ∨ ∀ r ∈ kept, r.isEpoch d = false := by
  rcases List.append_eq_append_iff.mp split with ⟨cut, rfl, rest⟩ | ⟨front', rfl, rfl⟩
  · cases cut with
    | nil => exact .inl ⟨[], rest.symm⟩
    | cons r cut =>
      rw [List.cons_append, List.cons.injEq] at rest
      right
      intro r' member
      refine last r' ?_
      rw [rest.2]
      exact List.mem_append_right _ member
  · exact .inl ⟨front', rfl⟩

/-- A journal that was just opened has nothing recorded in its epoch yet. -/
theorem Tracks.reopened (tracks : Tracks d saved t image front back torn)
    (fresh : t'.epochBits = .empty) {front' : List (Record g)} {torn' : List Byte}
    (isTorn : Torn g torn')
    (file : t'.file = some (header g ++ (recordBytes (front' ++ .epoch d :: back) ++ torn'))) :
    Tracks d saved t' image front' back torn' := by
  refine ⟨file, isTorn, tracks.last, tracks.undoes, fun _ lba marked => ?_⟩
  rw [fresh, Bitmap.test_empty] at marked
  cases marked

theorem lost_newFile {n : Nat} (file : t.file = some ((header g).take n)) : Lost d t := by
  intro bytes found r member
  cases file.symm.trans found
  rw [walkJournal_header] at member
  cases member

/-- Opening the journal of an image: the epoch stays with everything behind it, or it is
lost. It stays if the file can be opened and is within the cap. -/
theorem tracked_openJournal (tracked : Tracked d saved t image) (closed : t.journal = false)
    (fresh : t.epochBits = .empty) (host : JournalHost) :
    (Tracked d saved (t.openJournal host) image ∨ Lost d (t.openJournal host)) ∧
      (host.opens = true → (∀ file, t.file = some file → file.length ≤ t.journalCap) →
        Tracked d saved (t.openJournal host) image) := by
  obtain ⟨front, back, torn, tracks⟩ := tracked
  by_cases opens : host.opens = true
  · have resumed := openJournal_resumed tracks.file opens
    obtain ⟨dropped, kept, torn', split, isTorn, file, _, uncut⟩ :=
      t.resumeJournal_file host (front ++ .epoch d :: back) tracks.isTorn
    have bits : (t.openJournal host).epochBits = .empty := by
      rw [resumed, epochBits_resumeJournal, fresh]
    rw [← resumed] at file
    refine ⟨?_, fun _ fits => ?_⟩
    · rcases epoch_of_suffix split tracks.last with ⟨front', rfl⟩ | none
      · exact .inl ⟨front', back, torn', tracks.reopened bits isTorn file⟩
      · exact .inr (lost_of_records isTorn file none)
    · rw [uncut (fits _ tracks.file), List.nil_append] at split
      rw [← split] at file
      exact ⟨front, back, torn', tracks.reopened bits isTorn file⟩
  · refine ⟨?_, fun can => absurd can opens⟩
    rw [openJournal_refused opens]
    rcases newJournal_cases t host with ⟨⟨n, short⟩, _⟩ | same
    · exact .inr (lost_newFile short)
    · have kept : SameJournal t { t with journal := false } := ⟨rfl, closed.symm, rfl, rfl⟩
      rw [same]
      exact .inl (tracked_same kept ⟨front, back, torn, tracks⟩)

theorem lost_openJournal (lost : Lost d t) (host : JournalHost) : Lost d (t.openJournal host) := by
  rcases openJournal_cases t host with started | ⟨records, torn, isTorn, file, resumed⟩
  · rw [started]
    rcases newJournal_cases t host with ⟨⟨n, short⟩, _⟩ | same
    · exact lost_newFile short
    · rwa [same]
  · obtain ⟨dropped, kept, torn', split, isTorn', file', _, _⟩ :=
      t.resumeJournal_file host records isTorn
    rw [← resumed] at file'
    refine lost_of_records isTorn' file' fun r member => ?_
    exact lost.records isTorn file r (split ▸ List.mem_append_right _ member)

theorem tracked_attach (tracked : Tracked d saved t image) (journalPath name : String)
    (host : JournalHost) :
    (Tracked d saved (t.attach image journalPath name host) image ∨
        Lost d (t.attach image journalPath name host)) ∧
      (host.opens = true → (∀ file, t.file = some file → file.length ≤ t.journalCap) →
        Tracked d saved (t.attach image journalPath name host) image) := by
  obtain ⟨front, back, torn, tracks⟩ := tracked
  have detached : Tracked d saved
      { t.detach with
        name := name, attached := true, digest := imageDigest image, journalPath := journalPath }
      image :=
    ⟨front, back, torn, tracks.reopened rfl tracks.isTorn tracks.file⟩
  rw [attach]
  split
  · exact ⟨.inl detached, fun _ _ => detached⟩
  · exact tracked_openJournal detached rfl rfl host

theorem lost_attach (lost : Lost d t) (image : Image g) (journalPath name : String)
    (host : JournalHost) : Lost d (t.attach image journalPath name host) := by
  rw [attach]
  split
  · exact lost
  · exact lost_openJournal (t := { t.detach with
      name := name, attached := true, digest := imageDigest image, journalPath := journalPath })
      lost host

end Timeline

end Pom68k.Disk
