import Pom68k.Dart.Sibling

/-! # DART archives

The data fork of an archive has a header of four bytes, a table with the length of each
chunk, and the chunks. A chunk expands to the data of forty sectors with their tags behind
them. An archive is written back with stored chunks only.
-/

namespace Pom68k.Dart

open Foundation

/-- `dart::be16` of the bytes from an index. -/
def be16 (raw : List Byte) (i : Nat) : Scan Nat := do
  let high ← Scan.read raw i
  let low ← Scan.read raw (i + 1)
  pure (high.toNat * 256 + low.toNat)

/-- `dart::candidate`. -/
def candidate : List Byte → Bool
  | kind :: _ :: high :: low :: _ =>
    kind.toNat ≤ 2 && [400, 800, 1440].contains (high.toNat * 256 + low.toNat)
  | _ => false

/-! ## The chunks -/

/-- Bytes put behind those of a block, which has room for so many. -/
def put (block bytes : List Byte) : Scan (List Byte) :=
  if block.length + bytes.length ≤ kChunk then .ok (block ++ bytes) else .error .outside

/-- A word of the block that is repeated. -/
def repeated (count : Nat) (high low : Byte) : List Byte :=
  (List.replicate count [high, low]).flatten

/-- The loop of the fast chunks: runs of words from `read` up to `last`, each with a signed
count before it. -/
def runs (raw : List Byte) (last : Nat) : Nat → Nat → List Byte → Scan (List Byte)
  | 0, _, _ => .error .endless
  | fuel + 1, read, block =>
    if read < last then do
      Scan.check (2 ≤ last - read)
      let word ← be16 raw read
      let read := read + 2
      let count : Int := if word < 0x8000 then word else word - 65536
      let amount := count.natAbs * 2
      Scan.check (count ≠ 0 ∧ amount ≤ kChunk - block.length)
      if 0 < count then do
        Scan.check (amount ≤ last - read)
        let block ← put block (← Scan.range raw read amount)
        runs raw last fuel (read + amount) block
      else do
        Scan.check (2 ≤ last - read)
        let high ← Scan.read raw read
        let low ← Scan.read raw (read + 1)
        let block ← put block (repeated count.natAbs high low)
        runs raw last fuel (read + 2) block
    else pure block

/-- The kinds of archives: fast, best and stored. -/
def stored (kind length : Nat) : Bool := length = 0xFFFF ∨ (kind = 2 ∧ length = kChunk)

/-- The number of bytes of a chunk, by the length in the table. -/
def chunkBytes (kind length : Nat) : Nat :=
  if stored kind length then kChunk else if kind = 0 then length * 2 else length

/-- A chunk of the archive, expanded. -/
def block (raw : List Byte) (kind length offset : Nat) : Scan (List Byte) := do
  Scan.check (¬ (kind = 2 ∧ ¬ stored kind length))
  let bytes := chunkBytes kind length
  Scan.check (bytes ≤ raw.length - offset)
  if stored kind length then Scan.range raw offset kChunk
  else if kind = 1 then do expand (← Scan.range raw offset bytes) kChunk
  else do
    let block ← runs raw (offset + bytes) (bytes + 1) offset []
    Scan.check (block.length = kChunk)
    pure block

/-- What `dart::unpack` has taken of an archive. -/
structure Taken where
  offset : Nat
  data : List Byte
  tags : List Byte

/-- One turn of the loop of `dart::unpack`. -/
def entry (raw : List Byte) (kind kib : Nat) (taken : Taken) (i : Nat) : Scan Taken := do
  let length ← be16 raw (4 + i * 2)
  if kib / 20 ≤ i then do
    Scan.check (length = 0)
    pure taken
  else do
    Scan.check (length ≠ 0)
    let block ← block raw kind length taken.offset
    Scan.check (¬ (kib = 1440 ∧ (block.drop 20480).any (· ≠ 0)))
    pure ⟨taken.offset + chunkBytes kind length, taken.data ++ block.take 20480,
      taken.tags ++ block.drop 20480⟩

/-- The number of entries of the table. -/
def entries (kib : Nat) : Nat := if kib = 1440 then 72 else 40

/-- The data and the tags of an archive. -/
def decode (raw : List Byte) : Scan (List Byte × List Byte) := do
  Scan.check (candidate raw = true)
  let kib ← be16 raw 2
  let kind ← Scan.read raw 0
  let medium ← Scan.read raw 1
  Scan.check ((medium = 1 ∧ (kib = 400 ∨ kib = 800)) ∨ (medium = 16 ∧ kib = 1440))
  let start := 4 + entries kib * 2
  Scan.check (start ≤ raw.length)
  let taken ← (List.range (entries kib)).foldlM (entry raw kind.toNat kib) ⟨start, [], []⟩
  Scan.check (taken.offset = raw.length)
  pure (taken.data, if kib = 1440 then [] else taken.tags)

/-- `dart::unpack`: how it ends, and its two arguments then. They are swapped with what was
decoded in the last step. -/
def unpack (raw tags : List Byte) : Scan Unit × List Byte × List Byte :=
  match decode raw with
  | .ok (data, decodedTags) => (.ok (), data, decodedTags)
  | .error stop => (.error stop, raw, tags)

/-! ## Writing -/

/-- The header and the table of a written archive. -/
def header (kib : Nat) : List Byte :=
  [0, if kib = 1440 then 16 else 1, BitVec.ofNat 8 (kib / 256), BitVec.ofNat 8 kib] ++
    List.replicate (kib / 20 * 2) 0xFF ++ List.replicate ((entries kib - kib / 20) * 2) 0

/-- A stored chunk: the data of its sectors and their tags. -/
def row (kib : Nat) (data tags : List Byte) (i : Nat) : List Byte :=
  (data.drop (i * 20480)).take 20480 ++
    if kib = 1440 then List.replicate 480 0 else (tags.drop (i * 480)).take 480

/-- `dart::write`, as the bytes it writes. -/
def write (data tags : List Byte) : Option (List Byte) :=
  let kib := data.length / 1024
  if (kib ≠ 400 ∧ kib ≠ 800 ∧ kib ≠ 1440) ∨ data.length ≠ kib * 1024 ∨
      (kib ≠ 1440 ∧ tags.length ≠ data.length / 512 * 12) ∨ (kib = 1440 ∧ tags ≠ []) then none
  else some (header kib ++ (List.range (kib / 20)).flatMap (row kib data tags))

/-! ## Every byte string -/

section Ends

variable {raw : List Byte} {kind kib length offset i : Nat}

theorem be16_ends (inside : i + 1 < raw.length) : Scan.Ends (be16 raw i) fun _ => True := by
  refine Scan.ends_read (by omega) ?_
  exact Scan.ends_read inside ((Scan.ends_pure _).mpr trivial)

theorem put_ends {block bytes : List Byte} (room : block.length + bytes.length ≤ kChunk) :
    Scan.Ends (put block bytes) fun next => next.length ≤ kChunk := by
  refine Scan.ends_of_ok (if_pos room) ?_
  rwa [List.length_append]

theorem length_repeated (count : Nat) (high low : Byte) :
    (repeated count high low).length = count * 2 := by
  unfold repeated
  rw [List.length_flatten, List.map_replicate, List.sum_replicate_nat]
  rfl

/-- The runs of a chunk stay inside the archive and inside the block. -/
theorem runs_ends {last : Nat} (inside : last ≤ raw.length) {fuel read : Nat} {block : List Byte}
    (room : block.length ≤ kChunk) (start : read ≤ last) (enough : last - read < fuel) :
    Scan.Ends (runs raw last fuel read block) fun result => result.length ≤ kChunk := by
  induction fuel generalizing read block with
  | zero => exact absurd enough (Nat.not_lt_zero _)
  | succ fuel ih =>
    rw [runs]
    split
    next =>
      refine Scan.ends_check fun word => ?_
      refine (be16_ends (by omega)).bind fun word _ => ?_
      generalize (if word < 0x8000 then (word : Int) else word - 65536) = count
      refine Scan.ends_check fun ⟨_, fits⟩ => ?_
      split
      · refine Scan.ends_check fun more => ?_
        refine Scan.ends_range (by omega) ?_
        refine (put_ends ?_).bind fun next full => ?_
        · rw [List.length_take]
          omega
        · exact ih full (by omega) (by omega)
      · refine Scan.ends_check fun more => ?_
        refine Scan.ends_read (by omega) ?_
        refine Scan.ends_read (by omega) ?_
        refine (put_ends ?_).bind fun next full => ?_
        · rw [length_repeated]
          omega
        · exact ih full (by omega) (by omega)
    next => exact (Scan.ends_pure _).mpr room

/-- A chunk is refused, or expands to a block of its size out of bytes of the archive. -/
theorem block_ends (inside : offset ≤ raw.length) :
    Scan.Ends (block raw kind length offset) fun result =>
      result.length = kChunk ∧ offset + chunkBytes kind length ≤ raw.length := by
  refine Scan.ends_check fun _ => ?_
  refine Scan.ends_check fun bytes => ?_
  have last : offset + chunkBytes kind length ≤ raw.length := by omega
  split
  next whole =>
    have size : chunkBytes kind length = kChunk := if_pos whole
    refine Scan.ends_of_ok (Scan.range_of (by omega)) ⟨?_, last⟩
    rw [List.length_take, List.length_drop]
    omega
  next =>
    split
    · refine Scan.ends_range last ?_
      exact (expand_ends _ _).mono fun output size => ⟨size, last⟩
    · refine (runs_ends last (Nat.zero_le _) (by omega) (by omega)).bind fun out _ => ?_
      exact Scan.ends_check fun size => (Scan.ends_pure _).mpr ⟨size, last⟩

/-- The contents of a disk of one of the three sizes. A disk with MFM sectors has no tags. -/
structure Contents where
  kib : Nat
  data : List Byte
  tags : List Byte
  legal : kib = 400 ∨ kib = 800 ∨ kib = 1440
  data_length : data.length = kib * 1024
  tags_length : tags.length = if kib = 1440 then 0 else kib * 24

/-- What has been taken after some entries. -/
structure Taken.At (raw : List Byte) (kib k : Nat) (taken : Taken) : Prop where
  inside : taken.offset ≤ raw.length
  data : taken.data.length = min k (kib / 20) * 20480
  tags : taken.tags.length = min k (kib / 20) * 480

theorem entry_ends {k : Nat} {taken : Taken} (table : 4 + k * 2 + 1 < raw.length)
    (before : taken.At raw kib k) :
    Scan.Ends (entry raw kind kib taken k) (Taken.At raw kib (k + 1)) := by
  refine (be16_ends table).bind fun length _ => ?_
  have data := before.data
  have tags := before.tags
  split
  next behind =>
    refine Scan.ends_check fun _ => ?_
    rw [Scan.ends_pure]
    have same : min (k + 1) (kib / 20) = min k (kib / 20) := by omega
    exact ⟨before.inside, by rwa [same], by rwa [same]⟩
  next more =>
    refine Scan.ends_check fun _ => ?_
    refine (block_ends before.inside).bind fun block read => ?_
    obtain ⟨size, last⟩ := read
    refine Scan.ends_check fun _ => ?_
    rw [Scan.ends_pure]
    have next : min (k + 1) (kib / 20) = min k (kib / 20) + 1 := by omega
    have whole : kChunk = 20960 := rfl
    refine ⟨last, ?_, ?_⟩
    · rw [List.length_append, List.length_take]
      omega
    · rw [List.length_append, List.length_drop]
      omega

theorem decode_ends (raw : List Byte) :
    Scan.Ends (decode raw) fun r => ∃ c : Contents, r = (c.data, c.tags) := by
  refine Scan.ends_check fun found => ?_
  have four : 4 ≤ raw.length := by
    unfold candidate at found
    split at found
    · simp only [List.length_cons]
      omega
    · cases found
  refine (be16_ends (by omega)).bind fun kib _ => ?_
  refine Scan.ends_read (by omega) ?_
  refine Scan.ends_read (by omega) ?_
  refine Scan.ends_check fun medium => ?_
  have legal : kib = 400 ∨ kib = 800 ∨ kib = 1440 := by omega
  refine Scan.ends_check fun table => ?_
  refine (Scan.ends_foldlM_range (P := Taken.At raw kib) ?_ ?_).bind fun taken whole => ?_
  · refine ⟨table, ?_, ?_⟩ <;> rw [Nat.zero_min] <;> rfl
  · exact fun k inside taken before => entry_ends (by omega) before
  · refine Scan.ends_check fun _ => ?_
    rw [Scan.ends_pure]
    have data := whole.data
    have tags := whole.tags
    have all : min (entries kib) (kib / 20) = kib / 20 := by
      rcases legal with rfl | rfl | rfl <;> rfl
    refine ⟨⟨kib, taken.data, if kib = 1440 then [] else taken.tags, legal, ?_, ?_⟩, rfl⟩
    · rw [data]
      omega
    · split
      · rfl
      · omega

end Ends

/-! ## What was written is read back -/

namespace Contents

variable {c : Contents} {i k : Nat}

/-- The chunks behind the header. -/
def body (c : Contents) : List Byte :=
  (List.range (c.kib / 20)).flatMap (row c.kib c.data c.tags)

theorem write_eq (c : Contents) : write c.data c.tags = some (header c.kib ++ c.body) := by
  have legal := c.legal
  have kib : c.data.length / 1024 = c.kib := by rw [c.data_length]; omega
  have tags := c.tags_length
  unfold write
  rw [kib, if_neg]
  · rfl
  · rw [c.data_length]
    rintro (size | whole | ⟨gcr, some⟩ | ⟨mfm, some⟩)
    · omega
    · exact whole rfl
    · rw [if_neg gcr] at tags
      omega
    · rw [if_pos mfm] at tags
      exact some (List.length_eq_zero_iff.mp tags)

theorem chunks_le (c : Contents) : c.kib / 20 ≤ entries c.kib := by
  rcases c.legal with same | same | same <;> rw [same] <;> decide

theorem length_header (c : Contents) : (header c.kib).length = 4 + entries c.kib * 2 := by
  have few := c.chunks_le
  unfold header
  rw [List.length_append, List.length_append, List.length_replicate, List.length_replicate]
  change 4 + _ + _ = _
  omega

theorem length_row (inside : i < c.kib / 20) : (row c.kib c.data c.tags i).length = kChunk := by
  have tags := c.tags_length
  have data := c.data_length
  have whole : kChunk = 20960 := rfl
  unfold row
  rw [List.length_append, List.length_take, List.length_drop]
  split
  next =>
    rw [List.length_replicate]
    omega
  next gcr =>
    rw [if_neg gcr] at tags
    rw [List.length_take, List.length_drop]
    omega

theorem length_body (c : Contents) : c.body.length = c.kib / 20 * kChunk :=
  length_rows fun _ inside => length_row inside

theorem be16_eq {raw : List Byte} {high low : Byte} (first : raw[i]? = some high)
    (second : raw[i + 1]? = some low) : be16 raw i = .ok (high.toNat * 256 + low.toNat) := by
  unfold be16 Scan.read
  rw [first, second]
  rfl

variable (rest : List Byte)

/-- The table of a written archive. -/
theorem be16_table (inside : k < entries c.kib) :
    be16 (header c.kib ++ rest) (4 + k * 2) = .ok (if k < c.kib / 20 then 0xFFFF else 0) := by
  have cell (j : Nat) (place : j < entries c.kib * 2) : (header c.kib ++ rest)[4 + j]? =
      some (if j < c.kib / 20 * 2 then 0xFF else 0) := by
    rw [List.getElem?_append_left (by rw [length_header]; omega)]
    unfold header
    rw [Nat.add_comm 4 j]
    change (List.replicate _ _ ++ List.replicate _ _)[j]? = _
    rw [List.getElem?_append, List.length_replicate]
    split
    next first => rw [List.getElem?_replicate, if_pos first]
    next second => rw [List.getElem?_replicate, if_pos (by omega)]
  have first := cell (k * 2) (by omega)
  have second := cell (k * 2 + 1) (by omega)
  rw [be16_eq first second]
  by_cases chunk : k < c.kib / 20
  · rw [if_pos chunk, if_pos (by omega), if_pos (by omega)]
    rfl
  · rw [if_neg chunk, if_neg (by omega), if_neg (by omega)]
    rfl

/-- What has been taken of the written archive after some entries. -/
def taken (c : Contents) (k : Nat) : Taken where
  offset := 4 + entries c.kib * 2 + min k (c.kib / 20) * kChunk
  data := c.data.take (min k (c.kib / 20) * 20480)
  tags := if c.kib = 1440 then List.replicate (min k (c.kib / 20) * 480) 0
    else c.tags.take (min k (c.kib / 20) * 480)

theorem block_written (inside : k < c.kib / 20) :
    block (header c.kib ++ c.body) 0 0xFFFF (c.taken k).offset =
      .ok (row c.kib c.data c.tags k) := by
  have whole : chunkBytes 0 0xFFFF = kChunk := rfl
  have offset : (c.taken k).offset = (header c.kib).length + k * kChunk := by
    rw [length_header, taken, Nat.min_eq_left (Nat.le_of_lt inside)]
  have room : k * kChunk + kChunk ≤ c.body.length := by
    rw [length_body, ← Nat.succ_mul]
    exact Nat.mul_le_mul_right _ inside
  have fits : (c.taken k).offset + kChunk ≤ (header c.kib ++ c.body).length := by
    rw [List.length_append]
    omega
  unfold block
  rw [Scan.check_of (by decide)]
  dsimp only
  rw [whole, Scan.check_of (by omega), Scan.range_of fits,
    offset, ← List.drop_drop, List.drop_left]
  exact congrArg _ (row_of_rows (fun _ inside => length_row inside) inside)

/-- The data of the sectors stand before their tags in a chunk. -/
theorem take_row (inside : k < c.kib / 20) :
    (row c.kib c.data c.tags k).take 20480 = (c.data.drop (k * 20480)).take 20480 := by
  have data := c.data_length
  unfold row
  rw [List.take_append_of_le_length, List.take_take, Nat.min_self]
  rw [List.length_take, List.length_drop]
  omega

theorem drop_row (inside : k < c.kib / 20) :
    (row c.kib c.data c.tags k).drop 20480 =
      if c.kib = 1440 then List.replicate 480 0 else (c.tags.drop (k * 480)).take 480 := by
  have data := c.data_length
  have size : ((c.data.drop (k * 20480)).take 20480).length = 20480 := by
    rw [List.length_take, List.length_drop]
    omega
  nth_rewrite 1 [← size]
  exact List.drop_left

theorem entry_written (inside : k < entries c.kib) :
    entry (header c.kib ++ c.body) 0 c.kib (c.taken k) k = .ok (c.taken (k + 1)) := by
  unfold entry
  rw [be16_table c.body inside, Scan.ok_bind]
  by_cases chunk : k < c.kib / 20
  · have next : min (k + 1) (c.kib / 20) = k + 1 := by omega
    have now : min k (c.kib / 20) = k := by omega
    have clean : ¬ (c.kib = 1440 ∧ ((row c.kib c.data c.tags k).drop 20480).any (· ≠ 0)) := by
      rintro ⟨mfm, some⟩
      rw [drop_row chunk, if_pos mfm, List.any_replicate] at some
      cases some
    rw [if_neg (by omega), if_pos chunk, Scan.check_of (by decide), Scan.ok_bind,
      block_written chunk, Scan.ok_bind, Scan.check_of clean, take_row chunk,
      drop_row chunk]
    unfold taken
    rw [now, next]
    refine congrArg Except.ok ?_
    rw [Taken.mk.injEq]
    refine ⟨?_, ?_, ?_⟩
    · rw [Nat.succ_mul, ← Nat.add_assoc]
      rfl
    · rw [Nat.succ_mul, List.take_add]
    · split
      · rw [List.replicate_append_replicate, Nat.succ_mul]
      · rw [Nat.succ_mul, List.take_add]
  · have same : min (k + 1) (c.kib / 20) = min k (c.kib / 20) := by omega
    rw [if_pos (by omega), if_neg chunk]
    unfold taken
    rw [same]
    rfl

variable (c)

theorem candidate_header : candidate (header c.kib ++ rest) = true := by
  have start : candidate (header c.kib ++ rest) =
      [400, 800, 1440].contains
        ((BitVec.ofNat 8 (c.kib / 256)).toNat * 256 + (BitVec.ofNat 8 c.kib).toNat) := rfl
  rw [start]
  rcases c.legal with same | same | same <;> rw [same] <;> decide

theorem be16_header : be16 (header c.kib ++ rest) 2 = .ok c.kib := by
  have start : be16 (header c.kib ++ rest) 2 =
      .ok ((BitVec.ofNat 8 (c.kib / 256)).toNat * 256 + (BitVec.ofNat 8 c.kib).toNat) := rfl
  rcases c.legal with same | same | same <;> rw [same] <;> rfl

theorem decode_written : decode (header c.kib ++ c.body) = .ok (c.data, c.tags) := by
  have kind : Scan.read (header c.kib ++ c.body) 0 = .ok 0 := rfl
  have medium : Scan.read (header c.kib ++ c.body) 1 = .ok (if c.kib = 1440 then 16 else 1) := rfl
  have legal : ((if c.kib = 1440 then 16 else 1 : Byte) = 1 ∧ (c.kib = 400 ∨ c.kib = 800)) ∨
      ((if c.kib = 1440 then 16 else 1 : Byte) = 16 ∧ c.kib = 1440) := by
    rcases c.legal with same | same | same <;> rw [same] <;> decide
  have length : (header c.kib ++ c.body).length =
      4 + entries c.kib * 2 + c.kib / 20 * kChunk := by
    rw [List.length_append, length_header, length_body]
  have all : min (entries c.kib) (c.kib / 20) = c.kib / 20 := Nat.min_eq_right c.chunks_le
  have start : c.taken 0 = ⟨4 + entries c.kib * 2, [], []⟩ := by
    unfold taken
    rw [Nat.zero_min, Nat.zero_mul]
    split <;> rfl
  obtain ⟨last, ran, rfl⟩ := Scan.foldlM_range
    (P := fun k t => t = c.taken k)
    rfl (by
      intro k inside t same
      rw [same]
      exact ⟨_, entry_written inside, rfl⟩)
  have whole : c.data.take (c.kib / 20 * 20480) = c.data := by
    have size := c.data_length
    exact List.take_of_length_le (by omega)
  have tags : (if c.kib = 1440 then [] else (c.taken (entries c.kib)).tags) = c.tags := by
    have size := c.tags_length
    split
    next mfm =>
      rw [if_pos mfm] at size
      exact (List.length_eq_zero_iff.mp size).symm
    next gcr =>
      rw [if_neg gcr] at size
      unfold taken
      rw [if_neg gcr]
      exact List.take_of_length_le (by omega)
  unfold decode
  rw [Scan.check_of (c.candidate_header _), Scan.ok_bind, c.be16_header, Scan.ok_bind, kind,
    Scan.ok_bind, medium, Scan.ok_bind, Scan.check_of legal]
  dsimp only
  rw [Scan.check_of (by omega), ← start]
  change (List.foldlM (entry (header c.kib ++ c.body) 0 c.kib) (c.taken 0) _ >>= _) = _
  rw [ran, Scan.ok_bind, Scan.check_of, tags]
  · unfold taken
    rw [all, whole]
    rfl
  · unfold taken
    rw [all, length]

end Contents

/-- An archive of a disk of every size is read back as it was written. Every byte string is
refused or unpacked to such a disk, with every access inside; when it is refused, both
arguments are as before. -/
theorem archive_read_back :
    (∀ c : Contents, ∃ file, write c.data c.tags = some file ∧
      ∀ tags, unpack file tags = (.ok (), c.data, c.tags)) ∧
    ∀ raw tags,
      Scan.Ends (unpack raw tags).1 (fun _ => ∃ c : Contents,
        (unpack raw tags).2 = (c.data, c.tags)) ∧
      ((unpack raw tags).1 ≠ .ok () → (unpack raw tags).2 = (raw, tags)) := by
  constructor
  · intro c
    refine ⟨_, c.write_eq, fun tags => ?_⟩
    unfold unpack
    rw [c.decode_written]
  · intro raw tags
    have ends := decode_ends raw
    unfold unpack
    generalize decode raw = decoded at ends
    cases decoded with
    | error stop =>
      exact ⟨Scan.ends_error.mpr (Scan.ends_error.mp ends), fun _ => rfl⟩
    | ok r =>
      have legal := (Scan.ends_ok r).mp ends
      exact ⟨(Scan.ends_ok ()).mpr legal, fun failed => absurd rfl failed⟩

end Pom68k.Dart
