import Pom68k.Disk.AtaState

/-! # The write discipline of an ATA drive

After WRITE SECTORS the medium takes one sector for every 256 words that come through
the data port, until the range of the command is done. The drive keeps to it as long as
an open write sees neither a data read nor one of the commands that leave the transfer
as it is.
-/

namespace Pom68k.Disk

open Foundation
open ScsiDisk (StoreHost)

/-- The number of words of a sector. -/
def sectorWords : Nat := 256

/-- A word at the data port, with what the host does with the sector it may complete. -/
abbrev DataWord := BitVec 16 × StoreHost

/-- The bytes of some words, the low one first. -/
def wordBytes (words : List DataWord) : List Byte :=
  words.flatMap fun w : DataWord => [w.1.setWidth 8, (w.1 >>> 8).setWidth 8]

@[simp] theorem length_wordBytes (words : List DataWord) :
    (wordBytes words).length = 2 * words.length := by
  induction words with
  | nil => rfl
  | cons w rest ih =>
    rw [wordBytes, List.flatMap_cons, List.length_append, ← wordBytes, ih]
    exact (Nat.add_comm 2 _).trans (Nat.mul_succ 2 _).symm

/-- The sector some words make. -/
def wordSector (words : List DataWord) : Block sectorSize :=
  ⟨(wordBytes words).takeD sectorSize 0#8, List.takeD_length ..⟩

/-- The words of a command's range go onto the medium: a sector as soon as it is whole,
the next ones behind it, and nothing behind the last. -/
def AtaMedium.storeWords {count : BitVec 32} (m : AtaMedium count) (lba : Nat) :
    Nat → List DataWord → AtaMedium count
  | 0, _ => m
  | left + 1, words =>
    if words.length < sectorWords then m
    else
      (m.storeSector lba (wordSector (words.take sectorWords))
        (words.getD (sectorWords - 1) (0#16, {})).2).storeWords (lba + 1) left
          (words.drop sectorWords)

namespace AtaMedium

variable {count : BitVec 32} (m : AtaMedium count) (lba left : Nat) {words : List DataWord}

theorem storeWords_short (short : words.length < sectorWords) :
    m.storeWords lba left words = m := by
  cases left with
  | zero => rfl
  | succ left => rw [storeWords, if_pos short]

/-- A whole sector of words is stored, and the rest goes behind it. -/
theorem storeWords_sector {w : DataWord} (full : (words ++ [w]).length = sectorWords)
    (more : List DataWord) : m.storeWords lba (left + 1) (words ++ [w] ++ more) =
      (m.storeSector lba (wordSector (words ++ [w])) w.2).storeWords (lba + 1) left more := by
  have enough : ¬ (words ++ [w] ++ more).length < sectorWords := by
    rw [List.length_append]
    omega
  have last : (words ++ [w] ++ more).getD (sectorWords - 1) (0#16, {}) = w := by
    rw [← full]
    simp
  rw [storeWords, if_neg enough, last, List.take_left' full, List.drop_left' full]

end AtaMedium

/-- The commands that change the status only. -/
def AtaCommand.passing : AtaCommand → Bool
  | .readVerify | .initParameters | .diagnostic | .flushCache | .setFeatures => true
  | _ => false

namespace AtaDisk

variable {count : BitVec 32} {d : AtaDisk count} {op : Access} {d' : AtaDisk count}
  {ops : List Access}

/-- The access is a command, or releases a reset. -/
def Ends (d : AtaDisk count) : Access → Prop
  | .writeRegister reg v =>
    AtaReg.ofByte reg = .status ∨
      (AtaReg.ofByte reg = .altStatus ∧ v &&& 0x04#8 = 0#8 ∧ d.srstHeld = true)
  | _ => False

/-- The access is a WRITE SECTORS command the drive accepts. -/
def AcceptsWrite (d : AtaDisk count) : Access → Prop
  | .writeRegister reg v =>
    AtaReg.ofByte reg = .status ∧ AtaCommand.ofByte v = .writeSectors ∧ d.present = true ∧
      d.inRange = true
  | _ => False

/-- The words that come through the data port. -/
def dataWords (ops : List Access) : List DataWord :=
  ops.filterMap fun
    | .writeData w host => some (w, host)
    | _ => none

/-- A write to the medium is open. -/
def OpenWrite (d : AtaDisk count) : Prop := d.writing = true ∧ d.pending ≠ 0#32

/-- While a write is open no data is read, and no command comes that changes the status
only. -/
def Disciplined (d : AtaDisk count) (op : Access) : Prop :=
  d.OpenWrite →
    match op with
    | .readData => False
    | .writeRegister reg v => AtaReg.ofByte reg = .status → (AtaCommand.ofByte v).passing = false
    | _ => True

/-! ## Registers that have no part in a transfer -/

/-- What a transfer moves is the same in two drives. -/
structure SameTransfer (d d' : AtaDisk count) : Prop where
  status : d'.status = d.status
  pending : d'.pending = d.pending
  writing : d'.writing = d.writing
  index : d'.bufferAt = d.bufferAt
  lba : d'.currentLba = d.currentLba
  buffer : d'.buffer = d.buffer
  medium : d'.medium = d.medium

theorem sameTransfer_deviceControl {v : Byte} (calm : ¬ (v &&& 0x04#8 = 0#8 ∧ d.srstHeld = true)) :
    SameTransfer d (d.deviceControl v) := by
  unfold deviceControl
  by_cases held : v &&& 0x04#8 = 0#8
  · have free : ¬ d.srstHeld = true := fun held' => calm ⟨held, held'⟩
    simp only [held, free]
    exact ⟨rfl, rfl, rfl, rfl, rfl, rfl, rfl⟩
  · simp only [ne_eq, held]
    exact ⟨rfl, rfl, rfl, rfl, rfl, rfl, rfl⟩

theorem sameTransfer_readRegister (d : AtaDisk count) (reg : Byte) :
    SameTransfer d (d.step (.readRegister reg)) := by
  rw [step, readRegister]
  split <;> exact ⟨rfl, rfl, rfl, rfl, rfl, rfl, rfl⟩

/-- A register write that is no command and no reset. -/
theorem sameTransfer_writeRegister {reg v : Byte} (calm : ¬ d.Ends (.writeRegister reg v)) :
    SameTransfer d (d.step (.writeRegister reg v)) := by
  rw [step, writeRegister]
  split
  case h_7 named => exact absurd (.inl named) calm
  case h_8 named => exact sameTransfer_deviceControl fun released => calm (.inr ⟨named, released⟩)
  all_goals exact ⟨rfl, rfl, rfl, rfl, rfl, rfl, rfl⟩

/-! ## No open write -/

theorem not_openWrite_of_writing (idle : d.writing = false) : ¬ d.OpenWrite :=
  fun isOpen => Bool.false_ne_true (idle.symm.trans isOpen.1)

theorem SameTransfer.openWrite (same : SameTransfer d d') : d'.OpenWrite ↔ d.OpenWrite := by
  rw [OpenWrite, OpenWrite, same.writing, same.pending]

theorem openWrite_setAddress (d : AtaDisk count) (lba : BitVec 32) :
    (d.setAddress lba).OpenWrite ↔ d.OpenWrite := by
  obtain ⟨_, _, _, _, moved⟩ := d.setAddress_eq lba
  rw [moved]
  exact Iff.rfl

theorem not_openWrite_nextReadSector (closed : ¬ d.OpenWrite) : ¬ d.nextReadSector.OpenWrite := by
  rw [nextReadSector]
  split_ifs with writing
  · exact closed
  · rw [openWrite_setAddress]
    exact not_openWrite_of_writing (Bool.not_eq_true _ ▸ writing)
  · have idle : ¬ d.countDown.nextLba.OpenWrite := by
      rw [nextLba, openWrite_setAddress]
      exact not_openWrite_of_writing (Bool.not_eq_true _ ▸ writing)
    exact idle

/-- Without an open write no access opens one but a command, and the medium stays. -/
theorem closed_step (closed : ¬ d.OpenWrite) (calm : ¬ d.Ends op) :
    ¬ (d.step op).OpenWrite ∧ (d.step op).medium = d.medium := by
  cases op with
  | readRegister reg =>
    have same := d.sameTransfer_readRegister reg
    exact ⟨fun isOpen => closed (same.openWrite.mp isOpen), same.medium⟩
  | writeRegister reg v =>
    have same := sameTransfer_writeRegister calm
    exact ⟨fun isOpen => closed (same.openWrite.mp isOpen), same.medium⟩
  | readData =>
    rw [step, readData]
    split
    · exact ⟨closed, rfl⟩
    · dsimp only
      split
      · exact ⟨not_openWrite_nextReadSector closed, medium_nextReadSector _⟩
      · exact ⟨closed, rfl⟩
  | writeData w host =>
    rw [step, writeData]
    split_ifs with idle finished
    · exact ⟨closed, rfl⟩
    · -- the drive's own buffer was written
      have writing : d.writing = true := by
        cases flag : d.writing with
        | true => rfl
        | false => exact absurd (.inl flag) idle
      have none : d.pending = 0#32 := by
        by_contra some
        exact closed ⟨writing, some⟩
      have ended : (d.latch w).advance.commitWrittenSector host = _ := if_pos none
      rw [ended]
      exact ⟨not_openWrite_of_writing rfl, rfl⟩
    · exact ⟨closed, rfl⟩

theorem closed_run (closed : ¬ d.OpenWrite) (calm : Along step (fun d op => ¬ d.Ends op) d ops) :
    (run step d ops).medium = d.medium := by
  induction ops generalizing d with
  | nil => rfl
  | cons op rest ih =>
    obtain ⟨closed', same⟩ := closed_step closed calm.1
    exact (ih closed' calm.2).trans same

/-! ## An open write -/

/-- The drive fills a sector of an open write: some words of it are in the buffer, and
`left` sectors are still to come, this one included. -/
structure Filling (d : AtaDisk count) (lba left : Nat) (words : List DataWord) : Prop where
  writing : d.writing = true
  pending : d.pending.toNat = left
  some : left ≠ 0
  sector : d.currentLba.toNat = lba
  range : lba + left ≤ count.toNat
  drq : d.status &&& kDrq ≠ 0#8
  short : words.length < sectorWords
  index : d.bufferAt.toNat = 2 * words.length
  buffer : d.buffer.1 = wordBytes words ++ List.replicate (sectorSize - 2 * words.length) 0#8

variable {lba left : Nat} {words : List DataWord}

theorem Filling.openWrite (filling : d.Filling lba left words) : d.OpenWrite := by
  refine ⟨filling.writing, fun none => filling.some ?_⟩
  rw [← filling.pending, none]
  rfl

theorem Filling.same (filling : d.Filling lba left words) (same : SameTransfer d d') :
    d'.Filling lba left words := by
  obtain ⟨writing, pending, some, sector, range, drq, short, index, buffer⟩ := filling
  refine ⟨?_, ?_, some, ?_, range, ?_, short, ?_, ?_⟩
  · rw [same.writing, writing]
  · rw [same.pending, pending]
  · rw [same.lba, sector]
  · rwa [same.status]
  · rw [same.index, index]
  · rw [same.buffer, buffer]

/-- A word put behind the words of a buffer. -/
theorem putWord_wordBytes {buffer : PioBuffer} (short : words.length < sectorWords)
    (holds : buffer.1 = wordBytes words ++ List.replicate (sectorSize - 2 * words.length) 0#8)
    (w : DataWord) :
    (buffer.putWord (2 * words.length) w.1).1 =
      wordBytes (words ++ [w]) ++ List.replicate (sectorSize - 2 * (words ++ [w]).length) 0#8 := by
  have room : sectorSize - 2 * words.length = sectorSize - 2 * (words ++ [w]).length + 2 := by
    have size : sectorSize = 2 * sectorWords := rfl
    rw [List.length_append, List.length_singleton]
    omega
  have first : 2 * words.length = (wordBytes words).length := (length_wordBytes words).symm
  change (buffer.1.set (2 * words.length) _).set (2 * words.length + 1) _ = _
  rw [holds, room, first, List.replicate_succ, List.replicate_succ]
  simp [wordBytes]

/-- Writing a word during a fill: the drive takes it, it is in the buffer, and the buffer
is at its end with the last word. -/
theorem Filling.latch (filling : d.Filling lba left words) (w : BitVec 16) (host : StoreHost) :
    (¬ (d.writing = false ∨ d.buffer.1 = [])) ∧
      (d.latch w).advance.bufferAt.toNat = 2 * (words ++ [(w, host)]).length ∧
      (d.latch w).advance.buffer.1 = wordBytes (words ++ [(w, host)]) ++
        List.replicate (sectorSize - 2 * (words ++ [(w, host)]).length) 0#8 ∧
      ((d.latch w).advance.buffer.1.length ≤ (d.latch w).advance.bufferAt.toNat ↔
        (words ++ [(w, host)]).length = sectorWords) := by
  have size : sectorSize = 2 * sectorWords := rfl
  have few : sectorWords = 256 := rfl
  have short := filling.short
  have full : d.buffer.1.length = sectorSize := by
    rw [filling.buffer, List.length_append, length_wordBytes, List.length_replicate]
    omega
  have inside : d.bufferAt.toNat + 1 < d.buffer.1.length := by
    rw [filling.index]
    omega
  have put : (d.latch w).buffer = d.buffer.putWord d.bufferAt.toNat w := if_pos inside
  have index : (d.latch w).advance.bufferAt.toNat = 2 * (words ++ [(w, host)]).length := by
    change (d.bufferAt + 2#64).toNat = _
    rw [BitVec.toNat_add, filling.index, List.length_append, List.length_singleton]
    change (_ + 2) % 2 ^ 64 = _
    omega
  have buffer : (d.latch w).advance.buffer.1 = wordBytes (words ++ [(w, host)]) ++
      List.replicate (sectorSize - 2 * (words ++ [(w, host)]).length) 0#8 := by
    change (d.latch w).buffer.1 = _
    rw [put, filling.index]
    exact putWord_wordBytes short filling.buffer (w, host)
  refine ⟨?_, index, buffer, ?_⟩
  · rintro (idle | none)
    · cases idle.symm.trans filling.writing
    · rw [none] at inside
      exact Nat.not_lt_zero _ inside
  · rw [index, buffer, List.length_append, length_wordBytes, List.length_replicate,
      List.length_append, List.length_singleton]
    omega

/-- A word of a sector that is not its last one. -/
theorem Filling.writeData_more (filling : d.Filling lba left words) (w : BitVec 16)
    (host : StoreHost) (more : (words ++ [(w, host)]).length < sectorWords) :
    (d.writeData w host).Filling lba left (words ++ [(w, host)]) ∧
      (d.writeData w host).medium = d.medium := by
  obtain ⟨taken, index, buffer, finished⟩ := filling.latch w host
  rw [writeData, if_neg taken, if_neg (finished.not.mpr more.ne)]
  exact ⟨⟨filling.writing, filling.pending, filling.some, filling.sector, filling.range,
    filling.drq, more, index, buffer⟩, rfl⟩

/-- The last sector of a command closes the write. -/
theorem closed_commitWrittenSector (some : d.pending ≠ 0#32) (last : d.pending - 1#32 = 0#32)
    (host : StoreHost) : ¬ (d.commitWrittenSector host).OpenWrite := by
  have down : (d.storeBuffer host).countDown.pending = 0#32 :=
    (pending_countDown some).trans last
  rw [commitWrittenSector, if_neg some, if_pos down]
  exact (openWrite_setAddress _ _).not.mpr (not_openWrite_of_writing rfl)

/-- Another sector leaves the drive filling the next one. -/
theorem filling_commitWrittenSector (writing : d.writing = true) (some : d.pending ≠ 0#32)
    (more : d.pending - 1#32 ≠ 0#32)
    (range : d.currentLba.toNat + d.pending.toNat ≤ count.toNat) (host : StoreHost) :
    (d.commitWrittenSector host).Filling (d.currentLba.toNat + 1) (d.pending.toNat - 1) [] := by
  have positive : d.pending.toNat ≠ 0 := fun zero => some (BitVec.eq_of_toNat_eq zero)
  have fewer := AtaRegs.toNat_sub_one some
  have down : (d.storeBuffer host).countDown.pending = d.pending - 1#32 :=
    pending_countDown some
  obtain ⟨_, _, _, _, next⟩ := (d.storeBuffer host).countDown.nextLba_eq
  have isMore : ¬ (d.storeBuffer host).countDown.pending = 0#32 := by
    rwa [down]
  rw [commitWrittenSector, if_neg some, if_neg isMore, next]
  have room : d.currentLba.toNat < count.toNat := by omega
  refine ⟨writing, ?_, ?_, AtaRegs.toNat_add_one count room, by omega,
    show (kDrdy ||| kDsc ||| kDrq) &&& kDrq ≠ 0#8 by decide, by decide, rfl, rfl⟩
  · exact (congrArg BitVec.toNat down).trans fewer
  · intro last
    refine more (BitVec.eq_of_toNat_eq ?_)
    rw [fewer, last]
    rfl

/-- The last word of a sector: it is stored, and the command goes on or is done. -/
theorem Filling.writeData_last (filling : d.Filling lba left words) (w : BitVec 16)
    (host : StoreHost) (full : (words ++ [(w, host)]).length = sectorWords) :
    (d.writeData w host).medium =
        d.medium.storeSector lba (wordSector (words ++ [(w, host)])) host ∧
      ((left = 1 ∧ ¬ (d.writeData w host).OpenWrite) ∨
        (d.writeData w host).Filling (lba + 1) (left - 1) []) := by
  obtain ⟨taken, index, buffer, finished⟩ := filling.latch w host
  have some : (d.latch w).advance.pending ≠ 0#32 := filling.openWrite.2
  have range : d.currentLba.toNat + d.pending.toNat ≤ count.toNat := by
    rw [filling.sector, filling.pending]
    exact filling.range
  have stored : (d.latch w).advance.buffer.sector = wordSector (words ++ [(w, host)]) := by
    refine Subtype.ext ?_
    change (d.latch w).advance.buffer.1.takeD sectorSize 0#8 = _
    rw [buffer, full]
    exact congrArg (List.takeD sectorSize · 0#8) (List.append_nil _)
  rw [writeData, if_neg taken, if_pos (finished.mpr full)]
  refine ⟨?_, ?_⟩
  · rw [medium_commitWrittenSector, if_neg some, stored]
    exact congrArg (d.medium.storeSector · _ host) filling.sector
  · by_cases last : (d.latch w).advance.pending - 1#32 = 0#32
    · refine .inl ⟨?_, closed_commitWrittenSector some last host⟩
      have fewer : (0#32).toNat = d.pending.toNat - 1 := last ▸ AtaRegs.toNat_sub_one some
      have positive := filling.some
      rw [← filling.pending] at positive ⊢
      have zero : (0#32).toNat = 0 := rfl
      omega
    · have next := filling_commitWrittenSector (d := (d.latch w).advance) filling.writing some last
        range host
      rw [← filling.sector, ← filling.pending]
      exact .inr next

/-- A disciplined run within one command stores the sectors its words fill, and shows DRQ
until the last of them. -/
theorem Filling.run (filling : d.Filling lba left words)
    (disciplined : Along step Disciplined d ops)
    (calm : Along step (fun d op => ¬ d.Ends op) d ops) :
    (run step d ops).medium = d.medium.storeWords lba left (words ++ dataWords ops) ∧
      ((words ++ dataWords ops).length < sectorWords * left →
        (Foundation.run step d ops).status &&& kDrq ≠ 0#8) := by
  induction ops generalizing d lba left words with
  | nil =>
    rw [dataWords, List.filterMap_nil, List.append_nil,
      AtaMedium.storeWords_short _ _ _ filling.short]
    exact ⟨rfl, fun _ => filling.drq⟩
  | cons op rest ih =>
    cases op with
    | readRegister reg =>
      have same := d.sameTransfer_readRegister reg
      have later := ih (filling.same same) disciplined.2 calm.2
      rwa [same.medium] at later
    | writeRegister reg v =>
      have same := sameTransfer_writeRegister calm.1
      have later := ih (filling.same same) disciplined.2 calm.2
      rwa [same.medium] at later
    | readData => exact (disciplined.1 filling.openWrite).elim
    | writeData w host =>
      have word : words ++ dataWords (.writeData w host :: rest) =
          words ++ [(w, host)] ++ dataWords rest := by
        rw [List.append_assoc]
        rfl
      rw [word]
      by_cases full : (words ++ [(w, host)]).length = sectorWords
      · obtain ⟨rest', rfl⟩ := Nat.exists_eq_succ_of_ne_zero filling.some
        obtain ⟨stored, next⟩ := filling.writeData_last w host full
        rw [AtaMedium.storeWords_sector _ _ _ full, List.length_append, full, Nat.mul_succ]
        rw [Nat.succ_sub_one] at next
        rcases next with ⟨one, closed⟩ | next
        · have done := closed_run closed calm.2
          cases Nat.succ.inj one
          refine ⟨done.trans stored, fun short => ?_⟩
          exact absurd short (Nat.not_lt.mpr (Nat.le_add_right _ _))
        · obtain ⟨medium, drq⟩ := ih next disciplined.2 calm.2
          rw [List.nil_append] at medium drq
          refine ⟨medium.trans (congrArg (AtaMedium.storeWords · _ _ _) stored),
            fun short => drq ?_⟩
          omega
      · have short := filling.short
        rw [List.length_append, List.length_singleton] at full
        have more : (words ++ [(w, host)]).length < sectorWords := by
          rw [List.length_append, List.length_singleton]
          omega
        obtain ⟨next, same⟩ := filling.writeData_more w host more
        have later := ih next disciplined.2 calm.2
        rwa [same] at later

/-! ## Commands -/

/-- An accepted WRITE SECTORS command starts with an empty sector at its address. -/
theorem filling_of_acceptsWrite (accepts : d.AcceptsWrite op) :
    (d.step op).Filling d.address.toNat d.requested.toNat [] := by
  cases op with
  | writeRegister reg v =>
    obtain ⟨named, command, there, inside⟩ := accepts
    have started : d.step (.writeRegister reg v) =
        { d.aim with
          error := 0#8, writing := true, buffer := .zeros, bufferAt := 0#64
          status := kDrdy ||| kDsc ||| kDrq } := by
      rw [step, writeRegister, named]
      rw [AtaDisk.command, if_pos there, command]
      exact if_pos inside
    have some : d.requested.toNat ≠ 0 := by
      rw [requested]
      split
      · decide
      next count =>
        rw [BitVec.toNat_setWidth]
        intro zero
        exact count (BitVec.eq_of_toNat_eq (by
          change d.sectorCountReg.toNat = 0
          omega))
    rw [started]
    exact ⟨rfl, rfl, some, rfl, of_decide_eq_true inside,
      show (kDrdy ||| kDsc ||| kDrq) &&& kDrq ≠ 0#8 by decide, by decide, rfl, rfl⟩
  | readRegister | readData | writeData => exact accepts.elim

/-- A command that opens no write and is not one of those that change the status only
leaves no write open. -/
theorem closed_execute {op : AtaCommand} (idle : d.OpenWrite → op.passing = false)
    (refuses : op = .writeSectors → ¬ d.inRange = true) : ¬ (d.execute op).OpenWrite := by
  cases op with
  | readSectors =>
    rw [execute, startRead]
    split <;> exact not_openWrite_of_writing rfl
  | writeSectors =>
    rw [execute, startWrite, if_neg (refuses rfl)]
    exact not_openWrite_of_writing rfl
  | writeBuffer => exact fun isOpen => isOpen.2 rfl
  | identify | readBuffer | unknown => exact not_openWrite_of_writing rfl
  | readVerify | initParameters | diagnostic | flushCache | setFeatures =>
    exact fun isOpen => Bool.noConfusion (idle isOpen)

theorem closed_command {v : Byte} (idle : d.OpenWrite → (AtaCommand.ofByte v).passing = false)
    (refuses : AtaCommand.ofByte v = .writeSectors → d.present = true → ¬ d.inRange = true) :
    ¬ (d.command v).OpenWrite := by
  rw [command]
  split
  · next there => exact closed_execute idle fun named => refuses named there
  · exact not_openWrite_of_writing rfl

/-- Any other command, and a reset, leave no write open. -/
theorem closed_of_ends (ends : d.Ends op) (disciplined : d.Disciplined op)
    (refuses : ¬ d.AcceptsWrite op) : ¬ (d.step op).OpenWrite := by
  cases op with
  | writeRegister reg v =>
    rcases ends with named | ⟨named, released, held⟩
    · have step : d.step (.writeRegister reg v) = d.command v := by
        rw [AtaDisk.step, writeRegister, named]
      rw [step]
      exact closed_command (fun isOpen => disciplined isOpen named)
        fun command there inside => refuses ⟨named, command, there, inside⟩
    · have step : d.step (.writeRegister reg v) = d.deviceControl v := by
        rw [AtaDisk.step, writeRegister, named]
      rw [step, deviceControl, if_neg (fun set => set released), if_pos held]
      exact not_openWrite_of_writing rfl
  | readRegister | readData | writeData => exact ends.elim

/-- A command or a reset does not touch the medium itself. -/
theorem medium_of_ends (ends : d.Ends op) : (d.step op).medium = d.medium := by
  cases op with
  | writeRegister reg v => exact d.medium_writeRegister reg v
  | readRegister | readData | writeData => exact ends.elim

theorem closed_openAs {path name : String} {writeBack : Bool} {file : List Byte}
    {undo : Option (List Byte)} {journal : JournalHost} :
    ¬ (openAs count path name writeBack file undo journal).OpenWrite := by
  refine not_openWrite_of_writing ?_
  rw [openAs]
  split <;> rfl

/-- Over every disciplined run of an opened drive: before the first command the medium
stays as it was. From a command or reset to the next one, an accepted WRITE SECTORS
command stores exactly the sectors of its range that were filled, each once, with the 256
words that came for it, while the drive showed DRQ; after anything else the medium stays
as it was, whatever comes through the data port. -/
theorem ata_write_discipline (count : BitVec 32) (path name : String) (writeBack : Bool)
    (file : List Byte) (undo : Option (List Byte)) (journal : JournalHost) (ops : List Access)
    (disciplined : Along step Disciplined (openAs count path name writeBack file undo journal) ops) :
    (Along step (fun d op => ¬ d.Ends op) (openAs count path name writeBack file undo journal) ops →
      (run step (openAs count path name writeBack file undo journal) ops).medium =
        (openAs count path name writeBack file undo journal).medium) ∧
    ∀ front op middle, ops = front ++ op :: middle →
      let d := run step (openAs count path name writeBack file undo journal) front
      let after := run step (d.step op) middle
      d.Ends op → Along step (fun d op => ¬ d.Ends op) (d.step op) middle →
        (d.AcceptsWrite op →
          d.address.toNat + d.requested.toNat ≤ count.toNat ∧
          after.medium = d.medium.storeWords d.address.toNat d.requested.toNat (dataWords middle) ∧
          ((dataWords middle).length < sectorWords * d.requested.toNat →
            after.status &&& kDrq ≠ 0#8)) ∧
        (¬ d.AcceptsWrite op → after.medium = d.medium) := by
  refine ⟨closed_run closed_openAs, ?_⟩
  generalize openAs count path name writeBack file undo journal = fresh at disciplined
  rintro front op middle rfl d after ends calm
  obtain ⟨here, later⟩ := ((along_append fresh front (op :: middle)).mp disciplined).2
  refine ⟨fun accepts => ?_, fun refuses => ?_⟩
  · have filling := filling_of_acceptsWrite accepts
    obtain ⟨medium, drq⟩ := filling.run later calm
    rw [medium_of_ends ends] at medium
    exact ⟨filling.range, medium, drq⟩
  · exact (closed_run (closed_of_ends ends here refuses) calm).trans (medium_of_ends ends)

namespace Sample

theorem accepts_writeCommand : (run step blank addressed).AcceptsWrite writeCommand :=
  ⟨rfl, rfl, rfl, rfl⟩

/-- The words of a sector. -/
def sector : List Access := List.replicate sectorWords (.writeData 0x4142#16 {})

/-- Whatever is asked of a word holds along the sector. -/
theorem along_sector {P : AtaDisk 1#32 → Access → Prop}
    (meets : ∀ d w host, P d (.writeData w host)) (d : AtaDisk 1#32) : Along step P d sector :=
  along_of_forall (fun _ inside d => List.eq_of_mem_replicate inside ▸ meets d _ _) d

/-- The words and their command keep to the discipline. -/
theorem sector_disciplined : Along step Disciplined blank (addressed ++ writeCommand :: sector) :=
  ⟨fun _ named => absurd named (by decide), fun _ named => absurd named (by decide),
    fun _ named => absurd named (by decide), fun _ _ => rfl, along_sector (fun _ _ _ _ => trivial) _⟩

/-- Reads that take the place of all words of a sector but the last. -/
def swallowed : List Access := List.replicate 255 .readData ++ [.writeData 0xFFFF#16 {}]

end Sample

/-- The 256 words after WRITE SECTORS are the sector that is stored. -/
theorem ata_write_discipline_sector :
    let d := run step (openAs 1#32 "blank.img" "ATA blank.img" false Sample.zeroFile none {})
      Sample.addressed
    let after := run step (d.step Sample.writeCommand) Sample.sector
    after.medium =
        d.medium.storeWords d.address.toNat d.requested.toNat (dataWords Sample.sector) ∧
      (after.medium.world.image ⟨0, by decide⟩).1 ≠ Sample.zeroFile := by
  have discipline := (ata_write_discipline 1#32 "blank.img" "ATA blank.img" false Sample.zeroFile
    none {} _ Sample.sector_disciplined).2 Sample.addressed Sample.writeCommand _ rfl (.inl rfl)
    (Sample.along_sector (fun _ _ _ ends => ends) _)
  obtain ⟨-, stored, -⟩ := discipline.1 Sample.accepts_writeCommand
  refine ⟨stored, ?_⟩
  rw [stored]
  decide +kernel

/-- A sector is stored after a single word: the reads before it moved the index of the
buffer on. -/
theorem ata_sector_after_one_word :
    (run step Sample.blank Sample.addressed).AcceptsWrite Sample.writeCommand ∧
      (run step (run step Sample.blank Sample.writeOne) Sample.swallowed).medium ≠
        (run step Sample.blank Sample.addressed).medium.storeWords 0 1
          (dataWords Sample.swallowed) := by
  refine ⟨Sample.accepts_writeCommand, fun same => ?_⟩
  have stored : ((run step (run step Sample.blank Sample.writeOne)
      Sample.swallowed).medium.world.image ⟨0, by decide⟩).1.getD 511 0#8 = 0xFF#8 := by
    decide +kernel
  rw [same] at stored
  revert stored
  decide +kernel

end AtaDisk

end Pom68k.Disk
