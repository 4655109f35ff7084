import Pom68k.Disk.Archive
import Pom68k.Foundation.Overwrite
import Pom68k.Foundation.Scan
import Mathlib.Data.List.TakeWhile

/-! # The archive's primitives on their bytes

The reader of an archive knows how far into its input it is, and fills a buffer of the size
that was announced. Every access to the input and to the buffer is made so that it could
miss; the readers of `Pom68k.Disk.Reader` are what is left when none does.
-/

namespace Pom68k.Disk

open Foundation

/-- A reader with its place in the input. -/
structure Cursor (input : List Byte) where
  place : Nat
  ok : Bool
  inside : place ≤ input.length

variable {v : List Byte}

namespace Cursor

variable {input : List Byte} (c : Cursor input)

def fail : Cursor input := { c with ok := false }

/-- `Reader::take`. -/
def take (n : Nat) : Bool × Cursor input :=
  if there : c.ok = true ∧ n ≤ input.length - c.place then
    (true, ⟨c.place + n, c.ok, (Nat.le_sub_iff_add_le' c.inside).mp there.2⟩)
  else (false, c.fail)

/-- `Reader::bytes`. -/
def bytes (n : Nat) : Scan (List Byte × Cursor input) :=
  match c.take n with
  | (true, c) => do pure (← Scan.range input (c.place - n) n, c)
  | (false, c) => pure (List.replicate n 0#8, c)

def varintLoop : Nat → Nat → BitVec 64 → Cursor input → Scan (BitVec 64 × Cursor input)
  | 0, _, _, c => pure (0#64, c.fail)
  | fuel + 1, shift, v, c =>
    match c.take 1 with
    | (false, c) => pure (0#64, c)
    | (true, c) => do
      let byte ← Scan.read input (c.place - 1)
      let v := v ||| (byte &&& 0x7F#8).setWidth 64 <<< shift
      if byte &&& 0x80#8 = 0#8 then pure (v, c) else varintLoop fuel (shift + 7) v c

/-- `Reader::varint`. -/
def varint : Scan (BitVec 64 × Cursor input) := varintLoop 10 0 0#64 c

/-- A buffer written from an offset on. -/
def fill (buffer : List Byte) (offset : Nat) (data : List Byte) : Scan (List Byte) :=
  if offset + data.length ≤ buffer.length then .ok (overwrite buffer offset data)
  else .error .outside

/-- The upper bound on a buffer that is read. -/
def kMaxBlob : Nat := 2 ^ 30

/-- The runs of a buffer, each of zeros that are there already and of literal bytes. -/
def blobLoop : Nat → List Byte → Nat → Cursor input → Scan (List Byte × Cursor input)
  | 0, _, _, _ => .error .endless
  | fuel + 1, v, out, c =>
    if out < v.length then do
      let (z, c) ← c.varint
      let (lit, c) ← c.varint
      if c.ok = false then pure ([], c)
      else if v.length - out < z.toNat then pure ([], c.fail)
      else
        let out := out + z.toNat
        if v.length - out < lit.toNat then pure ([], c.fail)
        else
          let (data, c) ← c.bytes lit.toNat
          let v ← fill v out data
          if c.ok = false then pure ([], c)
          else if z = 0#64 ∧ lit = 0#64 then pure ([], c.fail)
          else blobLoop fuel v (out + lit.toNat) c
    else pure (v, c)

/-- `Reader::blob`. -/
def blob : Scan (List Byte × Cursor input) := do
  let (total, c) ← c.varint
  if c.ok = false ∨ kMaxBlob < total.toNat then pure ([], c.fail)
  else blobLoop (total.toNat + 1) (List.replicate total.toNat 0#8) 0 c

/-! ## No access misses -/

variable {c}

/-- The reader without its place. -/
def reader (c : Cursor input) : Reader := ⟨input.drop c.place, c.ok, ""⟩

theorem bytes_of {n : Nat} (fine : c.ok = true) (room : c.place + n ≤ input.length) :
    ∃ c', c.bytes n = .ok ((input.drop c.place).take n, c') ∧ c'.ok = true ∧
      c'.place = c.place + n := by
  refine ⟨⟨c.place + n, c.ok, room⟩, ?_, fine, rfl⟩
  rw [bytes, take, dif_pos ⟨fine, by omega⟩]
  simp only [Nat.add_sub_cancel]
  rw [Scan.range_of room]
  rfl

/-- So many bytes are taken, or none are. -/
theorem bytes_cases (c : Cursor input) (n : Nat) :
    (∃ c' data, c.bytes n = .ok (data, c') ∧ c'.ok = true ∧ data.length = n) ∨
      c.bytes n = .ok (List.replicate n 0#8, c.fail) := by
  by_cases there : c.ok = true ∧ n ≤ input.length - c.place
  · have := c.inside
    obtain ⟨c', taken, fine, -⟩ := bytes_of there.1 (n := n) (by omega)
    refine .inl ⟨c', _, taken, fine, ?_⟩
    rw [List.length_take, List.length_drop]
    exact Nat.min_eq_left there.2
  · right
    rw [bytes, take, dif_neg there]
    rfl

/-- What is read with the places is what the reader without them takes. -/
theorem varintLoop_reader (fuel shift : Nat) (v : BitVec 64) (c : Cursor input) :
    ∃ v' c', varintLoop fuel shift v c = .ok (v', c') ∧
      c.reader.varintLoop fuel shift v = (v', c'.reader) := by
  induction fuel generalizing shift v c with
  | zero => exact ⟨0#64, c.fail, rfl, rfl⟩
  | succ fuel ih =>
    rw [varintLoop, Reader.varintLoop, take]
    by_cases there : c.ok = true ∧ 1 ≤ input.length - c.place
    · have room : c.place < input.length := by omega
      have next : c.reader = ⟨input[c.place] :: input.drop (c.place + 1), true, ""⟩ := by
        rw [reader, List.drop_eq_getElem_cons room, there.1]
      have byte : Scan.read input (c.place + 1 - 1) = .ok input[c.place] := by
        rw [Nat.add_sub_cancel, Scan.read, List.getElem?_eq_getElem room]
      rw [dif_pos there, next, Reader.word_byte]
      simp only [byte, Scan.ok_bind, there.1]
      split
      · exact ⟨_, _, rfl, rfl⟩
      · exact ih _ _ _
    · rw [dif_neg there]
      have none : c.reader.word 8 1 = (0#8, c.fail.reader) := by
        rw [Reader.word, Reader.bytes, dif_neg (by rwa [reader, List.length_drop])]
        rfl
      rw [none]
      exact ⟨0#64, c.fail, rfl, rfl⟩

theorem varint_reader (c : Cursor input) :
    ∃ v c', c.varint = .ok (v, c') ∧ c.reader.varint = (v, c'.reader) :=
  varintLoop_reader 10 0 0#64 c

theorem fill_inside {buffer data : List Byte} {offset : Nat}
    (room : offset + data.length ≤ buffer.length) :
    fill buffer offset data = .ok (overwrite buffer offset data) :=
  if_pos room

/-- How a buffer may come out: empty after a failure, or with its size. -/
def Filled (size : Nat) (v : List Byte) (c : Cursor input) : Prop :=
  (c.ok = false ∧ v = []) ∨ (c.ok = true ∧ v.length = size)

theorem blobLoop_filled {fuel out : Nat} (fine : c.ok = true) (within : out ≤ v.length)
    (enough : v.length - out < fuel) :
    ∃ v' c', blobLoop fuel v out c = .ok (v', c') ∧ Filled v.length v' c' := by
  induction fuel generalizing out v c with
  | zero => omega
  | succ fuel ih =>
    have failed {c : Cursor input} (fails : c.ok = false) : Filled v.length [] c :=
      .inl ⟨fails, rfl⟩
    rw [blobLoop]
    split
    case isFalse => exact ⟨v, c, rfl, .inr ⟨fine, rfl⟩⟩
    obtain ⟨z, c₁, zeros, -⟩ := c.varint_reader
    obtain ⟨lit, c₂, literals, -⟩ := c₁.varint_reader
    simp only [zeros, literals, Scan.ok_bind]
    split
    case isTrue fails => exact ⟨[], c₂, rfl, failed fails⟩
    split
    case isTrue => exact ⟨[], c₂.fail, rfl, failed rfl⟩
    split
    case isTrue => exact ⟨[], c₂.fail, rfl, failed rfl⟩
    rcases c₂.bytes_cases lit.toNat with ⟨c₃, data, taken, going, size⟩ | none
    · have room : out + z.toNat + data.length ≤ v.length := by omega
      simp only [taken, Scan.ok_bind, fill_inside room]
      rw [if_neg (by simp [going])]
      split
      case isTrue => exact ⟨[], c₃.fail, rfl, failed rfl⟩
      case isFalse more =>
        have progress : z.toNat ≠ 0 ∨ lit.toNat ≠ 0 := by
          by_contra none
          rw [not_or, not_not, not_not] at none
          exact more ⟨BitVec.eq_of_toNat_eq none.1, BitVec.eq_of_toNat_eq none.2⟩
        have length := length_overwrite room
        rw [← length] at within ⊢
        exact ih going (by omega) (by omega)
    · have room : out + z.toNat + (List.replicate lit.toNat 0#8).length ≤ v.length := by
        rw [List.length_replicate]
        omega
      simp only [none, Scan.ok_bind, fill_inside room]
      exact ⟨[], c₂.fail, rfl, failed rfl⟩

end Cursor

/-! ## The writer -/

def zero (byte : Byte) : Bool := byte = 0#8

/-- Below this a run of zeros stays among the literal bytes. -/
def kMinZeroRun : Nat := 4

/-- The literal bytes up to the next long run of zeros. -/
def literalRun : List Byte → Nat
  | [] => 0
  | byte :: rest =>
    if zero byte then
      let k := 1 + (rest.takeWhile zero).length
      if kMinZeroRun ≤ k then 0 else k + literalRun (rest.dropWhile zero)
    else 1 + literalRun rest
termination_by v => v.length
decreasing_by
  · exact Nat.lt_succ_of_le (List.dropWhile_suffix _).length_le
  · exact Nat.lt_succ_self _

theorem literalRun_le (v : List Byte) : literalRun v ≤ v.length := by
  fun_induction literalRun v with
  | case1 => exact Nat.zero_le _
  | case2 => exact Nat.zero_le _
  | case3 byte rest isZero k short ih =>
    have parts := congrArg List.length (rest.takeWhile_append_dropWhile (p := zero))
    rw [List.length_append] at parts
    rw [List.length_cons]
    omega
  | case4 byte rest other ih =>
    rw [List.length_cons]
    omega

theorem runs_progress (some : v ≠ []) :
    ((v.dropWhile zero).drop (literalRun (v.dropWhile zero))).length < v.length := by
  obtain ⟨byte, rest, rfl⟩ := List.exists_cons_of_ne_nil some
  rw [List.length_drop, List.length_cons]
  by_cases first : zero byte
  · have := (rest.dropWhile_suffix zero).length_le
    rw [List.dropWhile_cons_of_pos first]
    omega
  · rw [List.dropWhile_cons_of_neg first, literalRun, if_neg first, List.length_cons]
    omega

/-- The runs of a buffer. -/
def putRuns (v : List Byte) : List Byte :=
  if v = [] then []
  else
    let w := v.dropWhile zero
    varintBytes (BitVec.ofNat 64 (v.takeWhile zero).length) ++
      (varintBytes (BitVec.ofNat 64 (literalRun w)) ++
        (w.take (literalRun w) ++ putRuns (w.drop (literalRun w))))
termination_by v.length
decreasing_by exact runs_progress ‹_›

/-- The first run: zeros, literal bytes, and what is left. -/
theorem runs_split (some : v ≠ []) :
    ∃ z lit more, v = List.replicate z 0#8 ++ (lit ++ more) ∧ more.length < v.length ∧
      putRuns v = varintBytes (BitVec.ofNat 64 z) ++
        (varintBytes (BitVec.ofNat 64 lit.length) ++ (lit ++ putRuns more)) := by
  have zeros : v.takeWhile zero = List.replicate (v.takeWhile zero).length 0#8 :=
    List.eq_replicate_iff.mpr ⟨rfl, fun byte inside => by
      have isZero : zero byte := List.mem_takeWhile_imp inside
      exact of_decide_eq_true isZero⟩
  have literals := literalRun_le (v.dropWhile zero)
  refine ⟨(v.takeWhile zero).length, (v.dropWhile zero).take (literalRun (v.dropWhile zero)), _, ?_,
    runs_progress some, ?_⟩
  · rw [List.take_append_drop, ← zeros, List.takeWhile_append_dropWhile]
  · rw [putRuns, if_neg some, List.length_take_of_le literals]

/-- `Writer::blob`. -/
def blobBytes (v : List Byte) : List Byte := varintBytes (BitVec.ofNat 64 v.length) ++ putRuns v

/-! ## The reader undoes the writer -/

namespace Cursor

variable {input rest : List Byte} {c : Cursor input}

/-- The bytes that the reader has before it. -/
def Reads (c : Cursor input) (bytes : List Byte) : Prop :=
  c.ok = true ∧ input.drop c.place = bytes

theorem reads_iff {bytes : List Byte} : c.Reads bytes ↔ c.reader = ⟨bytes, true, ""⟩ := by
  rw [Reader.mk.injEq]
  exact ⟨fun reads => ⟨reads.2, reads.1, rfl⟩, fun reads => ⟨reads.2.1, reads.1⟩⟩

/-- The bytes between two places are those that were read. -/
theorem Reads.place {c' : Cursor input} {bytes : List Byte} (reads : c.Reads (bytes ++ rest))
    (after : c'.Reads rest) : c'.place = c.place + bytes.length := by
  have before := congrArg List.length reads.2
  have behind := congrArg List.length after.2
  have := c.inside
  have := c'.inside
  rw [List.length_drop, List.length_append] at before
  rw [List.length_drop] at behind
  omega

theorem Reads.varint {v : BitVec 64} (reads : c.Reads (varintBytes v ++ rest)) :
    ∃ c', c.varint = .ok (v, c') ∧ c'.Reads rest := by
  obtain ⟨v', c', ended, same⟩ := c.varint_reader
  rw [reads_iff.mp reads, varint_varintBytes, Prod.mk.injEq] at same
  exact ⟨c', by rw [ended, same.1], reads_iff.mpr same.2.symm⟩

theorem Reads.bytes {data : List Byte} (reads : c.Reads (data ++ rest)) :
    ∃ c', c.bytes data.length = .ok (data, c') ∧ c'.Reads rest := by
  have room : c.place + data.length ≤ input.length := by
    have length := congrArg List.length reads.2
    have := c.inside
    rw [List.length_drop, List.length_append] at length
    omega
  obtain ⟨c', taken, fine, moved⟩ := bytes_of reads.1 room
  rw [reads.2, List.take_left] at taken
  refine ⟨c', taken, fine, ?_⟩
  rw [moved, ← List.drop_drop, reads.2, List.drop_left]

/-- The zeros of a run are there already. -/
theorem overwrite_run (done lit : List Byte) (z n : Nat) :
    overwrite (done ++ List.replicate (z + (lit.length + n)) 0#8) (done.length + z) lit =
      (done ++ (List.replicate z 0#8 ++ lit)) ++ List.replicate n 0#8 := by
  have parts : done ++ List.replicate (z + (lit.length + n)) 0#8 =
      (done ++ List.replicate z 0#8) ++
        (List.replicate lit.length 0#8 ++ List.replicate n 0#8) := by
    rw [List.replicate_append_replicate, List.append_assoc, List.replicate_append_replicate]
  have size : done.length + z = (done ++ List.replicate z 0#8).length := by
    rw [List.length_append, List.length_replicate]
  rw [parts, size, overwrite_middle List.length_replicate.symm]
  simp only [List.append_assoc]

theorem blobLoop_putRuns (todo done : List Byte) {fuel : Nat} (enough : todo.length < fuel)
    (short : todo.length ≤ kMaxBlob) (reads : c.Reads (putRuns todo ++ rest)) :
    ∃ c', blobLoop fuel (done ++ List.replicate todo.length 0#8) done.length c =
      .ok (done ++ todo, c') ∧ c'.Reads rest := by
  induction fuel generalizing todo done c with
  | zero => omega
  | succ fuel ih =>
    rw [blobLoop]
    by_cases none : todo = []
    · subst none
      rw [putRuns] at reads
      rw [List.length_nil, List.replicate_zero, List.append_nil, if_neg (Nat.lt_irrefl _)]
      exact ⟨c, rfl, reads⟩
    · obtain ⟨z, lit, more, rfl, progress, runs⟩ := runs_split none
      rw [runs, List.append_assoc, List.append_assoc, List.append_assoc] at reads
      obtain ⟨c₁, zeros, reads⟩ := reads.varint
      obtain ⟨c₂, literals, reads⟩ := reads.varint
      have fine := reads.1
      obtain ⟨c₃, taken, reads⟩ := reads.bytes
      obtain ⟨c', ended, after⟩ := ih more (done ++ (List.replicate z 0#8 ++ lit)) (by omega)
        (by omega) reads
      refine ⟨c', ?_, after⟩
      have size : (List.replicate z 0#8 ++ (lit ++ more)).length =
          z + (lit.length + more.length) := by
        rw [List.length_append, List.length_append, List.length_replicate]
      have small : ∀ n ≤ z + (lit.length + more.length), (BitVec.ofNat 64 n).toNat = n := by
        intro n inside
        refine Nat.mod_eq_of_lt (lt_of_le_of_lt (inside.trans ?_) (by decide : kMaxBlob < 2 ^ 64))
        exact size ▸ short
      have place : (done ++ (List.replicate z 0#8 ++ lit)).length =
          done.length + z + lit.length := by
        rw [List.length_append, List.length_append, List.length_replicate, Nat.add_assoc]
      rw [place] at ended
      rw [size] at progress ⊢
      have total : (done ++ List.replicate (z + (lit.length + more.length)) 0#8).length =
          done.length + (z + (lit.length + more.length)) := by
        rw [List.length_append, List.length_replicate]
      have room : done.length + z + lit.length ≤
          (done ++ List.replicate (z + (lit.length + more.length)) 0#8).length := by omega
      rw [if_pos (by omega)]
      simp only [zeros, literals, taken, Scan.ok_bind, fine, Bool.true_eq_false, if_false,
        small z (by omega), small lit.length (by omega), fill_inside room, reads.1,
        overwrite_run]
      rw [if_neg (by omega), if_neg (by omega), if_neg, ended]
      · simp only [List.append_assoc]
      · rintro ⟨noZeros, noLiterals⟩
        have first := (small z (by omega)).symm.trans (congrArg BitVec.toNat noZeros)
        have second := (small lit.length (by omega)).symm.trans (congrArg BitVec.toNat noLiterals)
        simp only [BitVec.toNat_ofNat] at first second
        omega

theorem Reads.blob (short : v.length ≤ kMaxBlob) (reads : c.Reads (blobBytes v ++ rest)) :
    ∃ c', c.blob = .ok (v, c') ∧ c'.Reads rest := by
  rw [blobBytes, List.append_assoc] at reads
  obtain ⟨c₁, total, reads⟩ := reads.varint
  have size : (BitVec.ofNat 64 v.length).toNat = v.length := by
    exact Nat.mod_eq_of_lt (lt_of_le_of_lt short (by decide))
  obtain ⟨c', ended, after⟩ := blobLoop_putRuns v [] (Nat.lt_succ_self _) short reads
  refine ⟨c', ?_, after⟩
  rw [Cursor.blob, total]
  simp only [Scan.ok_bind, reads.1, Bool.true_eq_false, false_or, size]
  rwa [if_neg (by omega)]

/-- Whatever the input, a buffer comes out of it. -/
theorem blob_filled (c : Cursor input) :
    ∃ total c₁ v c', c.varint = .ok (total, c₁) ∧ c.blob = .ok (v, c') ∧
      Filled total.toNat v c' := by
  obtain ⟨total, c₁, announced, -⟩ := c.varint_reader
  rw [Cursor.blob, announced]
  simp only [Scan.ok_bind]
  split
  case isTrue => exact ⟨total, c₁, [], c₁.fail, rfl, rfl, .inl ⟨rfl, rfl⟩⟩
  case isFalse fine =>
    rw [not_or, Bool.not_eq_false] at fine
    have size : (List.replicate total.toNat 0#8).length = total.toNat := List.length_replicate
    have enough : (List.replicate total.toNat 0#8).length - 0 < total.toNat + 1 := by omega
    obtain ⟨v, c', ended, filled⟩ := blobLoop_filled fine.1 (Nat.zero_le _) enough
    rw [size] at filled
    exact ⟨total, c₁, v, c', rfl, ended, filled⟩

/-- Integers and buffers of up to 2 ^ 30 bytes are read back from any stream they were written
to, with just their bytes. On any input the readers come to an end without an access outside,
and a buffer that is not refused has the size that was announced. -/
theorem primitives_read_back (c : Cursor input) :
    (∀ v rest, c.Reads (varintBytes v ++ rest) →
      ∃ c', c.varint = .ok (v, c') ∧ c'.ok = true ∧ c'.place = c.place + (varintBytes v).length) ∧
      (∀ v rest, v.length ≤ 2 ^ 30 → c.Reads (blobBytes v ++ rest) →
        ∃ c', c.blob = .ok (v, c') ∧ c'.ok = true ∧ c'.place = c.place + (blobBytes v).length) ∧
      ∃ total c₁ v c', c.varint = .ok (total, c₁) ∧ c.blob = .ok (v, c') ∧
        ((c'.ok = false ∧ v = []) ∨ (c'.ok = true ∧ v.length = total.toNat)) := by
  refine ⟨fun v rest reads => ?_, fun v rest short reads => ?_, c.blob_filled⟩
  · obtain ⟨c', read, after⟩ := reads.varint
    exact ⟨c', read, after.1, reads.place after⟩
  · obtain ⟨c', read, after⟩ := reads.blob short
    exact ⟨c', read, after.1, reads.place after⟩

/-- A buffer in the middle of a stream. -/
theorem primitives_read_back_inside :
    ∃ c' : Cursor ([1#8] ++ (blobBytes [0#8, 7#8] ++ [2#8])),
      Cursor.blob ⟨1, true, by simp⟩ = .ok ([0#8, 7#8], c') ∧ c'.ok = true := by
  have read := primitives_read_back
    (⟨1, true, by simp⟩ : Cursor ([1#8] ++ (blobBytes [0#8, 7#8] ++ [2#8])))
  obtain ⟨c', ended, fine, -⟩ := read.2.1 [0#8, 7#8] [2#8] (by decide) ⟨rfl, rfl⟩
  exact ⟨c', ended, fine⟩

end Cursor

end Pom68k.Disk
