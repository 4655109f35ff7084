import Pom68k.Disk.BlockHash

/-! # The reverse journal

The journal file beside an image is a header followed by records: the digest of a
save, or the bytes a block had before a write. A crash can leave a torn tail behind
the last whole record.
-/

namespace Pom68k.Disk

open Foundation

variable {g : Geometry}

/-- A record of the journal. -/
inductive Record (g : Geometry) where
  | epoch (digest : BitVec 64)
  | block (lba : Fin g.blocks) (bytes : Block g.blockSize)

namespace Record

/-- The bytes of a record: `'E'` and a digest, or `'B'`, a block number and its bytes. -/
def bytes : Record g → List Byte
  | epoch d => 0x45#8 :: putBytes 8 d
  | block lba old => 0x42#8 :: (putBytes 4 (BitVec.ofNat 32 lba) ++ old.1)

/-- The block a record restores. -/
def restores : Record g → Option (Fin g.blocks × Block g.blockSize)
  | epoch _ => none
  | block lba old => some (lba, old)

def isEpoch (target : BitVec 64) : Record g → Bool
  | epoch d => d = target
  | block _ _ => false

end Record

/-- The file's first bytes: `POMUNDO1`, the block size and the number of blocks. -/
def header (g : Geometry) : List Byte :=
  [0x50#8, 0x4F#8, 0x4D#8, 0x55#8, 0x4E#8, 0x44#8, 0x4F#8, 0x31#8] ++
    (putBytes 4 (BitVec.ofNat 32 g.blockSize) ++ putBytes 4 (BitVec.ofNat 32 g.blocks))

def headerSize : Nat := 16

/-- One turn of `walkJournal`: the record at the head of the bytes, if it is whole. -/
def readRecord (g : Geometry) : List Byte → Option (Record g × List Byte)
  | [] => none
  | tag :: rest =>
    if tag = 0x45#8 then
      if rest.length < 8 then none
      else some (.epoch (getBytes 64 (rest.take 8)), rest.drop 8)
    else if tag = 0x42#8 then
      if rest.length < 4 then none
      else if inside : (getBytes 32 (rest.take 4)).toNat < g.blocks then
        if whole : g.blockSize ≤ (rest.drop 4).length then
          some (.block ⟨_, inside⟩ ⟨(rest.drop 4).take g.blockSize,
            by rw [List.length_take]; exact Nat.min_eq_left whole⟩,
            (rest.drop 4).drop g.blockSize)
        else none
      else none
    else none

/-- The loop of `walkJournal` from an offset on: the whole records with their offsets,
and the end of the last one. -/
def walkFrom (g : Geometry) : Nat → Nat → List Byte → List (Nat × Record g) × Nat
  | 0, offset, _ => ([], offset)
  | fuel + 1, offset, bytes =>
    match readRecord g bytes with
    | none => ([], offset)
    | some (record, rest) =>
      let walked := walkFrom g fuel (offset + record.bytes.length) rest
      ((offset, record) :: walked.1, walked.2)

/-- `walkJournal` on a file. -/
def walkJournal (g : Geometry) (file : List Byte) : List (Nat × Record g) × Nat :=
  walkFrom g (file.length + 1) headerSize (file.drop headerSize)

/-- The bytes of records one after another. -/
def recordBytes (records : List (Record g)) : List Byte := records.flatMap Record.bytes

/-- Records with the offsets they have in a file. -/
def placed : Nat → List (Record g) → List (Nat × Record g)
  | _, [] => []
  | offset, record :: rest => (offset, record) :: placed (offset + record.bytes.length) rest

/-- The offset of the last epoch with the target digest. -/
def lastEpoch (target : BitVec 64) (walked : List (Nat × Record g)) : Option Nat :=
  walked.foldl (fun epoch r => if r.2.isEpoch target then some r.1 else epoch) none

/-- The two walks of `journalCandidate`: the blocks recorded after the last epoch with
the target digest, each with its first bytes there. -/
def journalMap (g : Geometry) (target : BitVec 64) (file : List Byte) : Option (BlockMap g) :=
  let walked := (walkJournal g file).1
  (lastEpoch target walked).map fun epoch =>
    (OnceLog.empty.addAll
      ((walked.filter fun r => epoch < r.1).filterMap fun r => r.2.restores)).entries

/-- The offset where `compactJournal` cuts: the first epoch from which on the file fits
in half the cap, or its end. -/
def compactCut (cap : Nat) (walked : List (Nat × Record g)) (stop : Nat) : Nat :=
  (((walked.filter fun r => r.2.restores.isNone).map Prod.fst).find?
    fun offset => stop - offset ≤ cap / 2).getD stop

/-- The file `compactJournal` writes. -/
def compacted (g : Geometry) (cap : Nat) (file : List Byte) : List Byte :=
  let walked := walkJournal g file
  let cut := compactCut cap walked.1 walked.2
  header g ++ (file.drop cut).take (walked.2 - cut)

/-- Bytes that hold no whole record at their head. -/
def Torn (g : Geometry) (bytes : List Byte) : Prop := readRecord g bytes = none

@[simp] theorem length_header (g : Geometry) : (header g).length = headerSize := by
  simp [header, headerSize]

@[simp] theorem recordBytes_nil : recordBytes ([] : List (Record g)) = [] := rfl

variable (record : Record g)

@[simp] theorem recordBytes_cons (records : List (Record g)) :
    recordBytes (record :: records) = record.bytes ++ recordBytes records := rfl

@[simp] theorem recordBytes_append (front back : List (Record g)) :
    recordBytes (front ++ back) = recordBytes front ++ recordBytes back :=
  List.flatMap_append

theorem torn_nil (g : Geometry) : Torn g [] := rfl

theorem Record.one_le_length : 1 ≤ record.bytes.length := by
  cases record <;> simp [Record.bytes]

/-- A record is read back from its bytes. -/
theorem readRecord_bytes (rest : List Byte) :
    readRecord g (record.bytes ++ rest) = some (record, rest) := by
  cases record with
  | epoch d =>
    have whole : ¬ (putBytes 8 d ++ rest).length < 8 := by simp
    rw [Record.bytes, List.cons_append, readRecord, if_pos rfl, if_neg whole,
      List.take_left' (length_putBytes 8 d), List.drop_left' (length_putBytes 8 d),
      getBytes_putBytes d (by decide)]
  | block lba old =>
    have other : ¬ 0x42#8 = 0x45#8 := by decide
    have numbered : ¬ (putBytes 4 (BitVec.ofNat 32 lba) ++ (old.1 ++ rest)).length < 4 := by simp
    have number : (BitVec.ofNat 32 lba).toNat = lba :=
      Nat.mod_eq_of_lt (lt_trans lba.isLt g.blocksWord)
    have whole : g.blockSize ≤ (old.1 ++ rest).length := by
      rw [List.length_append]
      omega
    rw [Record.bytes, List.cons_append, List.append_assoc, readRecord, if_neg other, if_pos rfl,
      if_neg numbered]
    simp only [List.take_left' (length_putBytes 4 _), List.drop_left' (length_putBytes 4 _),
      getBytes_putBytes _ (show 32 ≤ 8 * 4 by decide), number, lba.isLt, dif_pos whole,
      List.take_left' old.2, List.drop_left' old.2, dite_true]

/-- A record is read from its own bytes only. -/
theorem of_readRecord {bytes rest : List Byte} {record : Record g}
    (read : readRecord g bytes = some (record, rest)) : bytes = record.bytes ++ rest := by
  cases bytes with
  | nil => cases read
  | cons tag tail =>
    rw [readRecord] at read
    split_ifs at read with epoch short block short' inside whole
    · cases read
      have digest : (tail.take 8).length = 8 := by rw [List.length_take]; omega
      rw [Record.bytes, putBytes_getBytes digest (by decide), List.cons_append,
        List.take_append_drop, epoch]
    · cases read
      have number : (tail.take 4).length = 4 := by rw [List.length_take]; omega
      rw [Record.bytes, BitVec.ofNat_toNat, BitVec.setWidth_eq,
        putBytes_getBytes number (by decide), List.cons_append, List.append_assoc,
        List.take_append_drop, List.take_append_drop, block]

/-- Any bytes are whole records and a torn tail. -/
theorem exists_records (bytes : List Byte) :
    ∃ (records : List (Record g)) (torn : List Byte),
      bytes = recordBytes records ++ torn ∧ Torn g torn := by
  induction size : bytes.length using Nat.strong_induction_on generalizing bytes with
  | _ n ih =>
    cases read : readRecord g bytes with
    | none => exact ⟨[], bytes, rfl, read⟩
    | some found =>
      obtain ⟨record, rest⟩ := found
      have split := of_readRecord read
      have shorter : rest.length < n := by
        have one := record.one_le_length
        rw [← size, split, List.length_append]
        omega
      obtain ⟨records, torn, rfl, isTorn⟩ := ih _ shorter rest rfl
      exact ⟨record :: records, torn, by rw [split, recordBytes_cons, List.append_assoc], isTorn⟩

theorem length_le_recordBytes (records : List (Record g)) :
    records.length ≤ (recordBytes records).length := by
  induction records with
  | nil => exact le_refl 0
  | cons record rest ih =>
    have one := record.one_le_length
    rw [recordBytes_cons, List.length_append, List.length_cons]
    omega

variable {torn : List Byte} {records : List (Record g)} {offset : Nat} {r : Nat × Record g}
  {target : BitVec 64}

/-- The walk finds the whole records and stops at the torn tail. -/
theorem walkFrom_records (records : List (Record g)) (isTorn : Torn g torn)
    {fuel : Nat} (enough : records.length < fuel) (offset : Nat) :
    walkFrom g fuel offset (recordBytes records ++ torn) =
      (placed offset records, offset + (recordBytes records).length) := by
  induction records generalizing fuel offset with
  | nil =>
    cases fuel with
    | zero => cases enough
    | succ fuel =>
      have stop : readRecord g torn = none := isTorn
      rw [recordBytes_nil, List.nil_append, walkFrom, stop]
      rfl
  | cons record rest ih =>
    cases fuel with
    | zero => cases enough
    | succ fuel =>
      rw [recordBytes_cons, List.append_assoc, walkFrom, readRecord_bytes]
      dsimp only
      rw [ih (Nat.lt_of_succ_lt_succ enough), placed, List.length_append, Nat.add_assoc]

theorem walkJournal_file (records : List (Record g)) (isTorn : Torn g torn) :
    walkJournal g (header g ++ (recordBytes records ++ torn)) =
      (placed headerSize records, headerSize + (recordBytes records).length) := by
  have enough : records.length < (header g ++ (recordBytes records ++ torn)).length + 1 := by
    have small := length_le_recordBytes records
    rw [List.length_append, List.length_append]
    omega
  rw [walkJournal, List.drop_left' (length_header g), walkFrom_records records isTorn enough]

theorem placed_append (front back : List (Record g)) (offset : Nat) :
    placed offset (front ++ back) =
      placed offset front ++ placed (offset + (recordBytes front).length) back := by
  induction front generalizing offset with
  | nil => rfl
  | cons record rest ih =>
    rw [List.cons_append, placed, placed, ih, recordBytes_cons, List.length_append,
      Nat.add_assoc, List.cons_append]

theorem placed_records (offset : Nat) (records : List (Record g)) :
    (placed offset records).map Prod.snd = records := by
  induction records generalizing offset with
  | nil => rfl
  | cons record rest ih => rw [placed, List.map_cons, ih]

/-- A file determines its whole records. -/
theorem records_unique {records' : List (Record g)} {torn' : List Byte}
    (isTorn : Torn g torn) (isTorn' : Torn g torn')
    (same : header g ++ (recordBytes records ++ torn) =
      header g ++ (recordBytes records' ++ torn')) : records = records' := by
  have walked := walkJournal_file records isTorn
  rw [same, walkJournal_file records' isTorn'] at walked
  have placedSame := congrArg (fun w => w.1.map Prod.snd) walked
  simpa only [placed_records] using placedSame.symm

section

variable (member : r ∈ placed offset records)
include member

/-- A record lies where the records before it end. -/
theorem split_of_mem_placed :
    ∃ front back, records = front ++ r.2 :: back ∧ r.1 = offset + (recordBytes front).length := by
  induction records generalizing offset with
  | nil => cases member
  | cons record rest ih =>
    rw [placed, List.mem_cons] at member
    rcases member with rfl | later
    · exact ⟨[], rest, rfl, rfl⟩
    · obtain ⟨front, back, rfl, position⟩ := ih later
      refine ⟨record :: front, back, rfl, ?_⟩
      rw [position, recordBytes_cons, List.length_append, Nat.add_assoc]

theorem offset_le_of_mem_placed : offset ≤ r.1 := by
  obtain ⟨front, _, _, position⟩ := split_of_mem_placed member
  omega

theorem lt_of_mem_placed : r.1 < offset + (recordBytes records).length := by
  obtain ⟨front, back, rfl, position⟩ := split_of_mem_placed member
  have one := r.2.one_le_length
  rw [recordBytes_append, recordBytes_cons, List.length_append, List.length_append]
  omega

end

theorem lastEpoch_concat (target : BitVec 64) (walked : List (Nat × Record g))
    (r : Nat × Record g) :
    lastEpoch target (walked ++ [r]) =
      if r.2.isEpoch target then some r.1 else lastEpoch target walked := by
  rw [lastEpoch, List.foldl_append]
  rfl

theorem lastEpoch_append (target : BitVec 64) (front back : List (Nat × Record g)) :
    lastEpoch target (front ++ back) = (lastEpoch target back).or (lastEpoch target front) := by
  induction back using List.reverseRecOn with
  | nil => simp [lastEpoch]
  | append_singleton back r ih =>
    rw [← List.append_assoc, lastEpoch_concat, lastEpoch_concat, ih]
    split_ifs <;> rfl

theorem lastEpoch_none {walked : List (Nat × Record g)}
    (absent : ∀ r ∈ walked, r.2.isEpoch target = false) : lastEpoch target walked = none := by
  induction walked using List.reverseRecOn with
  | nil => rfl
  | append_singleton front r ih =>
    rw [lastEpoch_concat, absent r (List.mem_append_right _ List.mem_cons_self)]
    exact ih fun r' member => absent r' (List.mem_append_left _ member)

/-- The blocks that records restore. -/
def restored (records : List (Record g)) : BlockMap g := records.filterMap Record.restores

theorem forall_walkJournal (records : List (Record g)) (isTorn : Torn g torn)
    (p : Record g → Prop) :
    (∀ r ∈ (walkJournal g (header g ++ (recordBytes records ++ torn))).1, p r.2) ↔
      ∀ record ∈ records, p record := by
  rw [walkJournal_file records isTorn, ← List.forall_mem_map, placed_records]

/-- Without an epoch of the target digest there is no candidate. -/
theorem journalMap_none {file : List Byte}
    (absent : ∀ r ∈ (walkJournal g file).1, r.2.isEpoch target = false) :
    journalMap g target file = none := by
  simp only [journalMap, lastEpoch_none absent, Option.map_none]

/-- The candidate is the first record of each block after the last epoch of the target
digest. -/
theorem journalMap_of_epoch (front : List (Record g))
    {back : List (Record g)} (last : ∀ r ∈ back, r.isEpoch target = false)
    (isTorn : Torn g torn) :
    journalMap g target
        (header g ++ (recordBytes (front ++ .epoch target :: back) ++ torn)) =
      some (firsts (restored back)) := by
  rw [journalMap, walkJournal_file _ isTorn]
  rw [placed_append, placed]
  set epoch := headerSize + (recordBytes front).length
  set after := epoch + (Record.epoch target : Record g).bytes.length
  have size : (Record.epoch target : Record g).bytes.length = 9 := by simp [Record.bytes]
  have tail : lastEpoch target (placed after back) = none := by
    refine lastEpoch_none fun r member => last r.2 ?_
    rw [← placed_records after back]
    exact List.mem_map_of_mem member
  have found : lastEpoch target
      (placed headerSize front ++ (epoch, Record.epoch target) :: placed after back) =
        some epoch := by
    rw [List.append_cons, lastEpoch_append, tail, lastEpoch_concat]
    simp [Record.isEpoch]
  have before : ((placed headerSize front).filter fun r => epoch < r.1) = [] := by
    rw [List.filter_eq_nil_iff]
    intro r member
    have low := lt_of_mem_placed member
    simp only [decide_eq_true_eq]
    omega
  have behind : ((placed after back).filter fun r => epoch < r.1) = placed after back := by
    rw [List.filter_eq_self]
    intro r member
    have high := offset_le_of_mem_placed member
    simp only [decide_eq_true_eq]
    omega
  rw [found, Option.map_some, List.filter_append, before, List.nil_append,
    List.filter_cons_of_neg (by simp), behind, OnceLog.entries_addAll_empty]
  have same : (placed after back).filterMap (fun r => r.2.restores) = restored back := by
    conv_rhs => rw [restored, ← placed_records after back, List.filterMap_map]
    rfl
  rw [same]

/-- Compaction keeps the records from some record on, as many as fit in half the cap. -/
theorem compacted_records (cap : Nat) (records : List (Record g)) (isTorn : Torn g torn) :
    ∃ dropped kept, records = dropped ++ kept ∧
      (kept = [] ∨ (recordBytes kept).length ≤ cap / 2) ∧
      compacted g cap (header g ++ (recordBytes records ++ torn)) =
        header g ++ recordBytes kept := by
  have walk := walkJournal_file records isTorn
  have split : ∃ dropped kept, records = dropped ++ kept ∧
      (kept = [] ∨ (recordBytes kept).length ≤ cap / 2) ∧
      compactCut cap (placed headerSize records) (headerSize + (recordBytes records).length) =
        headerSize + (recordBytes dropped).length := by
    rw [compactCut]
    cases found : ((placed headerSize records).filter fun r => r.2.restores.isNone).map Prod.fst
      |>.find? fun offset => headerSize + (recordBytes records).length - offset ≤ cap / 2 with
    | none => exact ⟨records, [], (List.append_nil _).symm, .inl rfl, rfl⟩
    | some offset =>
      obtain ⟨r, member, rfl⟩ := List.mem_map.mp (List.mem_of_find?_eq_some found)
      obtain ⟨front, back, split, position⟩ := split_of_mem_placed (List.mem_of_mem_filter member)
      have fits := List.find?_some found
      rw [decide_eq_true_eq] at fits
      refine ⟨front, r.2 :: back, split, .inr ?_, position⟩
      rw [split, recordBytes_append, List.length_append] at fits
      omega
  obtain ⟨dropped, kept, rfl, fits, cut⟩ := split
  refine ⟨dropped, kept, rfl, fits, ?_⟩
  rw [compacted, walk]
  have start : (header g ++ recordBytes dropped).length =
      headerSize + (recordBytes dropped).length := by rw [List.length_append, length_header]
  have left : headerSize + (recordBytes (dropped ++ kept)).length -
      (headerSize + (recordBytes dropped).length) = (recordBytes kept).length := by
    rw [recordBytes_append, List.length_append]
    omega
  rw [cut, left, recordBytes_append, List.append_assoc, ← List.append_assoc (header g),
    List.drop_left' start, List.take_left]

end Pom68k.Disk
