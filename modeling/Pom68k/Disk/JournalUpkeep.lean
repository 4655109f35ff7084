import Pom68k.Disk.JournalFile

/-! # The upkeep of a journal

When an image is attached the torn tail of its journal is cut off, and a journal that has
grown beyond its cap loses its oldest records. An epoch that stays keeps everything that was
recorded behind it.
-/

namespace Pom68k.Disk

variable {g : Geometry} {records kept : List (Record g)} {file torn : List Byte}
  {target : BitVec 64}

/-- The whole records at the head of a journal file. -/
structure Longest (records : List (Record g)) (file : List Byte) : Prop where
  head : header g ++ recordBytes records <+: file
  most : ∀ more : List (Record g), header g ++ recordBytes more <+: file → more <+: records

theorem longest_of_torn (isTorn : Torn g torn) :
    Longest records (header g ++ (recordBytes records ++ torn)) where
  head := ⟨torn, List.append_assoc _ _ _⟩
  most := by
    rintro more ⟨rest, whole⟩
    obtain ⟨records', torn', rfl, isTorn'⟩ := exists_records (g := g) rest
    refine ⟨records', records_unique isTorn' isTorn ?_⟩
    rw [← whole, recordBytes_append, List.append_assoc, List.append_assoc]

/-- The last epoch of a digest. -/
theorem exists_last_epoch (there : ∃ r ∈ records, r.isEpoch target = true) :
    ∃ front back, records = front ++ .epoch target :: back ∧
      ∀ r ∈ back, r.isEpoch target = false := by
  induction records using List.reverseRecOn with
  | nil =>
    obtain ⟨_, none, _⟩ := there
    cases none
  | append_singleton records r ih =>
    cases last : r.isEpoch target with
    | true =>
      cases r with
      | epoch d =>
        obtain rfl : d = target := of_decide_eq_true last
        exact ⟨records, [], rfl, fun _ none => by cases none⟩
      | block lba old => cases last
    | false =>
      obtain ⟨r', listed, epoch⟩ := there
      rcases List.mem_append.mp listed with earlier | here
      · obtain ⟨front, back, rfl, none⟩ := ih ⟨r', earlier, epoch⟩
        exact ⟨front, back ++ [r], by rw [List.append_assoc, List.cons_append],
          List.forall_mem_append.mpr ⟨none, List.forall_mem_singleton.mpr last⟩⟩
      · rw [List.mem_singleton.mp here, last] at epoch
        cases epoch

/-- What lies before the last epoch of a digest does not matter to it. -/
theorem journalMap_suffix (dropped : List (Record g)) (isTorn : Torn g torn)
    (there : ∃ r ∈ kept, r.isEpoch target = true) :
    journalMap g target (header g ++ recordBytes kept) =
      journalMap g target (header g ++ (recordBytes (dropped ++ kept) ++ torn)) := by
  obtain ⟨front, back, rfl, last⟩ := exists_last_epoch there
  have short := journalMap_of_epoch front last (torn_nil g)
  rw [List.append_nil] at short
  rw [short, ← List.append_assoc dropped, journalMap_of_epoch (dropped ++ front) last isTorn]

namespace Timeline

/-- On a host where nothing fails: of a journal of this image the longest prefix of whole
records stays; if that is beyond the cap, only the records from some record on that fit in
half of it, with the same candidate for every epoch among them. Any other file is started
over. -/
theorem upkeep_keeps_history (t : Timeline g) (file : List Byte) :
    let old := { t with file := some file }
    if file.take headerSize = header g then
      ∃ records : List (Record g), Longest records file ∧
        let whole := header g ++ recordBytes records
        (whole.length ≤ t.journalCap → (old.openJournal {}).file = some whole) ∧
        (t.journalCap < whole.length → old.openJournal {} = old.compactJournal {} whole) ∧
        ∃ dropped kept, records = dropped ++ kept ∧
          (old.compactJournal {} whole).file = some (header g ++ recordBytes kept) ∧
          (kept = [] ∨ (recordBytes kept).length ≤ t.journalCap / 2) ∧
          ∀ target, (∃ r ∈ kept, r.isEpoch target = true) →
            (old.compactJournal {} whole).journalCandidate target = old.journalCandidate target
    else (old.openJournal {}).file = some (header g) := by
  intro old
  split
  case isFalse other =>
    have started : old.openJournal {} = old.newJournal {} := by
      exact if_neg fun resumed => other resumed.2.2
    rw [started]
    rfl
  case isTrue ours =>
    obtain ⟨records, torn, rfl, isTorn⟩ := exists_file_records ours
    have opened : old.openJournal {} = old.resumeJournal {} _ := openJournal_resumed rfl rfl
    have trimmed := take_walked records isTorn
    have walked := congrArg Prod.snd (walkJournal_file records isTorn)
    have size : (header g ++ recordBytes records).length =
        headerSize + (recordBytes records).length := by rw [List.length_append, length_header]
    obtain ⟨dropped, kept, split, fits, bytes⟩ :=
      compacted_records t.journalCap records (torn_nil g)
    rw [List.append_nil] at bytes
    have compacted : (old.compactJournal {} (header g ++ recordBytes records)).file =
        some (header g ++ recordBytes kept) := congrArg some bytes
    refine ⟨records, longest_of_torn isTorn, ?_, ?_, dropped, kept, split, compacted, fits, ?_⟩
    · intro small
      rw [opened, resumeJournal, if_neg (by simp), trimmed, walked, ← size,
        if_neg (Nat.not_lt.mpr small)]
    · intro large
      rw [opened, resumeJournal, if_neg (by simp), trimmed, walked, ← size, if_pos large]
    · intro target there
      have same := journalMap_suffix dropped isTorn there
      rw [← split] at same
      rw [journalCandidate, compacted, Option.bind_some, same]
      rfl

end Timeline

end Pom68k.Disk
