import Pom68k.Disk.RestoreChecked

/-! # The journal file under its operations

An open journal consists of whole records. A record is appended whole, or a part of it
stays behind as a torn tail and the journal is dropped. Attaching cuts a torn tail off
and may drop records at the front.
-/

namespace Pom68k.Disk

open Foundation

variable {g : Geometry}

/-- The records of a type have one size, so a part of a record is torn. -/
theorem torn_take (record : Record g) {n : Nat} (short : n < record.bytes.length) :
    Torn g (record.bytes.take n) := by
  by_contra whole
  obtain ⟨⟨record', rest⟩, read⟩ := Option.ne_none_iff_exists'.mp whole
  have split := of_readRecord read
  have size : (record.bytes.take n).length = n := by
    rw [List.length_take]
    omega
  have longer : record'.bytes.length ≤ n := by
    rw [← size, split, List.length_append]
    omega
  cases n with
  | zero => exact absurd longer (Nat.not_le.mpr record'.one_le_length)
  | succ n =>
    have same : record'.bytes.length = record.bytes.length := by
      cases record <;> cases record' <;>
        simp only [Record.bytes, List.take_succ_cons, List.cons_append, List.cons.injEq] at split
      · simp [Record.bytes]
      · exact absurd split.1 (by decide)
      · exact absurd split.1 (by decide)
      · next old _ old' => simp [Record.bytes, old.2, old'.2]
    omega

/-- What of a record reaches the file is nothing whole, or the whole record. -/
theorem recordBytes_take (records : List (Record g)) (record : Record g) (n : Nat) :
    ∃ records' torn, (records' = records ∨ records' = records ++ [record]) ∧ Torn g torn ∧
      recordBytes records ++ record.bytes.take n = recordBytes records' ++ torn := by
  by_cases short : n < record.bytes.length
  · exact ⟨records, _, .inl rfl, torn_take record short, rfl⟩
  · refine ⟨records ++ [record], [], .inr rfl, torn_nil g, ?_⟩
    rw [List.take_of_length_le (Nat.not_lt.mp short), recordBytes_append, recordBytes_cons,
      recordBytes_nil, List.append_nil, List.append_nil]

namespace Timeline

/-- An open journal belongs to an attached image and consists of whole records. -/
def Whole (t : Timeline g) : Prop :=
  t.journal = true → t.attached = true ∧
    ∃ records : List (Record g), t.file = some (header g ++ recordBytes records)

/-- Two timelines with the same journal. -/
structure SameJournal (t t' : Timeline g) : Prop where
  attached : t'.attached = t.attached
  journal : t'.journal = t.journal
  epochBits : t'.epochBits = t.epochBits
  file : t'.file = t.file

variable {t t' : Timeline g} {lba : Fin g.blocks}

theorem SameJournal.whole (same : SameJournal t t') (known : t.Whole) : t'.Whole := by
  intro journalling
  rw [same.attached, same.file]
  exact known (same.journal.symm.trans journalling)

variable (t)

variable (image : Image g)

theorem sameJournal_freshen : SameJournal t (t.freshen image) :=
  ⟨attached_freshen t image, journal_freshen t image, epochBits_freshen t image,
    file_freshen t image⟩

theorem sameJournal_noted
    (snap : OnceLog g.blocks (Block g.blockSize)) : SameJournal t (t.noted image snap) :=
  ⟨attached_freshen _ image, journal_freshen _ image, epochBits_freshen _ image,
    file_freshen _ image⟩

theorem sameJournal_commitLoad : SameJournal t (t.commitLoad image) := by
  rw [commitLoad]
  split <;> exact ⟨rfl, rfl, rfl, rfl⟩

theorem sameJournal_load (r : Reader) : SameJournal t (t.load image r).timeline := by
  have ends := t.load_ends image r
  generalize t.load image r = loaded at ends ⊢
  cases ends with
  | unread | noMedium => exact ⟨rfl, rfl, rfl, rfl⟩
  | differs snap | planned snap => exact sameJournal_noted t image snap

/-- A logged write does to the journal what recording the old bytes does. -/
theorem sameJournal_logWrite (lba : Fin g.blocks) (cur next : Block g.blockSize)
    (landed : Option Nat) :
    SameJournal (t.recordOld lba cur landed) (t.logWrite lba cur next landed) := by
  have same : SameJournal (t.recordOld lba cur landed)
      ({ t with dirty := t.dirty.add (lba, cur) }.recordOld lba cur landed) := by
    rw [recordOld, recordOld]
    split
    · cases landed <;> exact ⟨rfl, rfl, rfl, rfl⟩
    · exact ⟨rfl, rfl, rfl, rfl⟩
  rw [logWrite]
  split
  · exact same
  · exact ⟨same.attached, same.journal, same.epochBits, same.file⟩

variable {t} {landed : Option Nat} {host : JournalHost}

/-- Where the bytes of a record land in the file of an open journal. -/
theorem append_file {records : List (Record g)}
    (file : t.file = some (header g ++ recordBytes records)) (record : Record g)
    (landed : Option Nat) :
    ∃ records' torn, (records' = records ∨ records' = records ++ [record]) ∧ Torn g torn ∧
      (landed = none → records' = records ++ [record] ∧ torn = []) ∧
      (t.append record.bytes landed).file = some (header g ++ (recordBytes records' ++ torn)) := by
  cases landed with
  | none =>
    refine ⟨records ++ [record], [], .inr rfl, torn_nil g, fun _ => ⟨rfl, rfl⟩, ?_⟩
    rw [append, file, Option.map_some, recordBytes_append, recordBytes_cons, recordBytes_nil,
      List.append_nil, List.append_nil, List.append_assoc]
  | some n =>
    obtain ⟨records', torn, which, isTorn, bytes⟩ := recordBytes_take records record n
    refine ⟨records', torn, which, isTorn, nofun, ?_⟩
    rw [append, file, Option.map_some, List.append_assoc, bytes]

theorem Whole.append (whole : t.Whole) (journalling : t.journal = true) (record : Record g)
    (landed : Option Nat) : (t.append record.bytes landed).Whole := by
  obtain ⟨attached, records, file⟩ := whole journalling
  intro stillOpen
  obtain ⟨records', torn, _, _, success, file'⟩ := append_file file record landed
  cases landed with
  | none =>
    refine ⟨attached, records', ?_⟩
    rw [file', (success rfl).2, List.append_nil]
  | some n => cases stillOpen

theorem recordOld_new (new : t.journal = true ∧ t.epochBits.test lba = false)
    (cur : Block g.blockSize) (landed : Option Nat) :
    t.recordOld lba cur landed =
      { t with epochBits := t.epochBits.set lba }.append (Record.block lba cur).bytes landed := by
  rw [recordOld]
  rw [new.1, new.2]
  rfl

theorem recordOld_known (known : ¬ (t.journal = true ∧ t.epochBits.test lba = false))
    (cur : Block g.blockSize) (landed : Option Nat) : t.recordOld lba cur landed = t := by
  rw [recordOld, if_neg]
  intro new
  rw [Bool.and_eq_true, Bool.not_eq_true'] at new
  exact known new

/-- A dropped journal is not opened again by a write. -/
theorem journal_of_recordOld {cur : Block g.blockSize}
    (stillOpen : (t.recordOld lba cur landed).journal = true) : t.journal = true := by
  by_cases new : t.journal = true ∧ t.epochBits.test lba = false
  · exact new.1
  · rwa [recordOld_known new] at stillOpen

theorem journal_of_willWrite {cur next : Block g.blockSize}
    (stillOpen : (t.willWrite lba cur next landed).journal = true) : t.journal = true := by
  cases attached : t.attached with
  | false => rwa [willWrite_detached attached] at stillOpen
  | true =>
    rw [willWrite_attached attached, (sameJournal_logWrite t lba cur next landed).journal]
      at stillOpen
    exact journal_of_recordOld stillOpen

theorem Whole.recordOld (whole : t.Whole) (lba : Fin g.blocks) (cur : Block g.blockSize)
    (landed : Option Nat) : (t.recordOld lba cur landed).Whole := by
  by_cases new : t.journal = true ∧ t.epochBits.test lba = false
  · rw [recordOld_new new]
    exact Whole.append (t := { t with epochBits := t.epochBits.set lba }) whole new.1 _ landed
  · rwa [recordOld_known new]

theorem Whole.willWrite (whole : t.Whole) (lba : Fin g.blocks) (cur next : Block g.blockSize)
    (landed : Option Nat) : (t.willWrite lba cur next landed).Whole := by
  cases attached : t.attached with
  | false =>
    rwa [willWrite_detached attached]
  | true =>
    rw [willWrite_attached attached]
    exact (sameJournal_logWrite t lba cur next landed).whole (whole.recordOld lba cur landed)

/-- What an epoch does to an open journal. -/
theorem journalEpoch_open (journalling : t.journal = true) (d : BitVec 64) (landed : Option Nat) :
    (t.journalEpoch d landed).attached = t.attached ∧
      (t.journalEpoch d landed).journal = (t.append (Record.epoch d : Record g).bytes landed).journal ∧
      (t.journalEpoch d landed).file = (t.append (Record.epoch d : Record g).bytes landed).file ∧
      (landed = none → (t.journalEpoch d landed).epochBits = .empty) := by
  unfold journalEpoch
  rw [if_pos journalling]
  cases landed with
  | none => exact ⟨rfl, rfl, rfl, fun _ => rfl⟩
  | some n => exact ⟨rfl, rfl, rfl, nofun⟩

theorem journalEpoch_closed (closed : ¬ t.journal = true) (d : BitVec 64) (landed : Option Nat) :
    t.journalEpoch d landed = t := by
  exact if_neg closed

theorem Whole.journalEpoch (whole : t.Whole) (d : BitVec 64) (landed : Option Nat) :
    (t.journalEpoch d landed).Whole := by
  by_cases journalling : t.journal = true
  · obtain ⟨attached, journal, file, _⟩ := journalEpoch_open journalling d landed
    intro stillOpen
    obtain ⟨attached', records, file'⟩ :=
      whole.append journalling (.epoch d) landed (journal.symm.trans stillOpen)
    exact ⟨attached.trans (whole journalling).1, records, file.trans file'⟩
  · rwa [journalEpoch_closed journalling]

theorem take_walked (records : List (Record g)) {torn : List Byte} (isTorn : Torn g torn) :
    (header g ++ (recordBytes records ++ torn)).take
      (walkJournal g (header g ++ (recordBytes records ++ torn))).2 =
        header g ++ recordBytes records := by
  have size : (header g ++ recordBytes records).length =
      headerSize + (recordBytes records).length := by rw [List.length_append, length_header]
  rw [walkJournal_file records isTorn, ← List.append_assoc, List.take_left' size]

/-- What `openJournal` leaves of a journal of this geometry. -/
theorem resumeJournal_file (t : Timeline g) (host : JournalHost) (records : List (Record g))
    {torn : List Byte} (isTorn : Torn g torn) :
    ∃ dropped kept torn', records = dropped ++ kept ∧ Torn g torn' ∧
      (t.resumeJournal host (header g ++ (recordBytes records ++ torn))).file =
        some (header g ++ (recordBytes kept ++ torn')) ∧
      ((t.resumeJournal host (header g ++ (recordBytes records ++ torn))).journal = true →
        torn' = []) ∧
      ((header g ++ (recordBytes records ++ torn)).length ≤ t.journalCap → dropped = []) := by
  have trimmed := take_walked records isTorn
  have walked := walkJournal_file records isTorn
  generalize whole : header g ++ (recordBytes records ++ torn) = file at trimmed walked ⊢
  by_cases failed : (walkJournal g file).2 ≠ file.length ∧
      ¬ (host.resizes = true ∧ host.reopens = true)
  · rw [resumeJournal, if_pos failed, trimmed]
    by_cases cut : host.resizes = true
    · refine ⟨[], records, [], rfl, torn_nil g, ?_, fun _ => rfl, fun _ => rfl⟩
      rw [if_pos cut, List.append_nil]
    · refine ⟨[], records, torn, rfl, isTorn, ?_, by rintro ⟨⟩, fun _ => rfl⟩
      rw [if_neg cut, whole]
  · rw [resumeJournal, if_neg failed, trimmed]
    by_cases oversized : t.journalCap < (walkJournal g file).2
    · rw [if_pos oversized]
      obtain ⟨dropped, kept, split, -, bytes⟩ := compacted_records t.journalCap records (torn_nil g)
      rw [List.append_nil] at bytes
      have tooLong : ¬ file.length ≤ t.journalCap := by
        have size := congrArg List.length whole
        rw [List.length_append, List.length_append, length_header] at size
        rw [walked] at oversized
        omega
      by_cases replaced : host.replaces = true
      · refine ⟨dropped, kept, [], split, torn_nil g, ?_, fun _ => rfl,
          fun small => absurd small tooLong⟩
        unfold compactJournal
        rw [if_pos replaced, bytes, List.append_nil]
      · refine ⟨[], records, [], rfl, torn_nil g, ?_, fun _ => rfl, fun _ => rfl⟩
        unfold compactJournal
        rw [if_neg replaced, List.append_nil]
    · rw [if_neg oversized]
      refine ⟨[], records, [], rfl, torn_nil g, ?_, fun _ => rfl, fun _ => rfl⟩
      rw [List.append_nil]

theorem epochBits_resumeJournal (t : Timeline g) (host : JournalHost) (file : List Byte) :
    (t.resumeJournal host file).epochBits = t.epochBits := by
  rw [resumeJournal]
  split
  · rfl
  · split <;> rfl

/-- A journal started over has no records. -/
theorem walkJournal_header (n : Nat) : (walkJournal g ((header g).take n)).1 = [] := by
  have nothing : ((header g).take n).drop headerSize = [] := by
    refine List.drop_eq_nil_of_le ?_
    rw [List.length_take]
    exact Nat.min_le_right _ _
  rw [walkJournal, nothing]
  rfl

/-- A journal that is started over is a header, or the first bytes of one if it is not
open; otherwise the old file stays and is closed. -/
theorem newJournal_cases (t : Timeline g) (host : JournalHost) :
    ((∃ n, (t.newJournal host).file = some ((header g).take n)) ∧
        ((t.newJournal host).journal = true → (t.newJournal host).file = some (header g))) ∨
      t.newJournal host = { t with journal := false } := by
  rw [newJournal]
  split
  · left
    split
    · refine ⟨⟨headerSize, ?_⟩, fun _ => rfl⟩
      rw [List.take_of_length_le (le_of_eq (length_header g))]
    · exact ⟨⟨_, rfl⟩, by rintro ⟨⟩⟩
  · exact .inr rfl

/-- A file that starts with the header of this geometry. -/
theorem exists_file_records {file : List Byte} (start : file.take headerSize = header g) :
    ∃ (records : List (Record g)) (torn : List Byte),
      file = header g ++ (recordBytes records ++ torn) ∧ Torn g torn := by
  obtain ⟨records, torn, rest, isTorn⟩ := exists_records (file.drop headerSize)
  refine ⟨records, torn, ?_, isTorn⟩
  rw [← rest, ← start, List.take_append_drop]

theorem openJournal_resumed {rest : List Byte} (file : t.file = some (header g ++ rest))
    (opens : host.opens = true) : t.openJournal host = t.resumeJournal host (header g ++ rest) := by
  rw [openJournal, file]
  refine if_pos ⟨opens, ?_, List.take_left' (length_header g)⟩
  rw [List.length_append, length_header]
  omega

theorem openJournal_refused (refused : ¬ host.opens = true) :
    t.openJournal host = t.newJournal host := by
  cases file : t.file with
  | none => rw [openJournal, file]
  | some bytes =>
    rw [openJournal, file]
    exact if_neg fun resumed => refused resumed.1

variable (t)

theorem openJournal_cases (host : JournalHost) :
    t.openJournal host = t.newJournal host ∨
      ∃ (records : List (Record g)) (torn : List Byte), Torn g torn ∧
        t.file = some (header g ++ (recordBytes records ++ torn)) ∧
        t.openJournal host = t.resumeJournal host (header g ++ (recordBytes records ++ torn)) := by
  cases file : t.file with
  | none => left; rw [openJournal, file]
  | some bytes =>
    by_cases resumed : host.opens ∧ headerSize ≤ bytes.length ∧ bytes.take headerSize = header g
    · right
      obtain ⟨records, torn, rfl, isTorn⟩ := exists_file_records resumed.2.2
      exact ⟨records, torn, isTorn, rfl, openJournal_resumed file resumed.1⟩
    · left
      rw [openJournal, file]
      exact if_neg resumed

theorem whole_openJournal (attached : t.attached = true) (host : JournalHost) :
    (t.openJournal host).Whole := by
  intro journalling
  refine ⟨(sameContent_openJournal t host).attached.trans attached, ?_⟩
  rcases openJournal_cases t host with started | ⟨records, torn, isTorn, _, resumed⟩
  · rw [started] at journalling ⊢
    rcases newJournal_cases t host with ⟨_, fresh⟩ | same
    · exact ⟨[], by rw [fresh journalling, recordBytes_nil, List.append_nil]⟩
    · rw [same] at journalling
      cases journalling
  · rw [resumed] at journalling ⊢
    obtain ⟨_, kept, torn', _, _, file, whole, _⟩ := t.resumeJournal_file host records isTorn
    exact ⟨kept, by rw [file, whole journalling, List.append_nil]⟩

theorem whole_attach (journalPath name : String)
    (host : JournalHost) : (t.attach image journalPath name host).Whole := by
  rw [attach]
  split
  · rintro ⟨⟩
  · exact whole_openJournal _ rfl host

end Timeline

end Pom68k.Disk
