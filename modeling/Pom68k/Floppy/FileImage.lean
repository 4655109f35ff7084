import Pom68k.Dart.Image
import Pom68k.Floppy.Gcr
import Pom68k.Foundation.BigEndian
import Pom68k.Foundation.Overwrite

/-! # The file of a floppy

A floppy comes in a file of its sectors, in a DiskCopy 4.2 file or in a DART archive, and
is written back in the form it came in. Which form a file has is told by its bytes.
-/

namespace Pom68k.Floppy

open Foundation

/-! ## DiskCopy 4.2 -/

namespace Dc42

/-- `dc42::be32` of the bytes from an index. -/
def be32 (bytes : List Byte) (i : Nat) : Nat := number ((bytes.drop i).take 4)

/-- `dc42::put32`. -/
def put32 (bytes : List Byte) (i v : Nat) : List Byte := overwrite bytes i (bigEndian 4 v)

/-- The words of a byte string added to a sum that is rotated behind each. -/
def sum : BitVec 32 → List Byte → BitVec 32
  | s, high :: low :: rest => sum ((s + (high ++ low).setWidth 32).rotateRight 1) rest
  | s, _ => s

/-- `dc42::checksum`. -/
def checksum (bytes : List Byte) : Nat := (sum 0 bytes).toNat

def nonzeroTags (tags : List Byte) : Bool := tags.any (· ≠ 0)

/-- What `dc42::unpack` returns and leaves in its arguments. -/
structure Opened where
  accepted : Bool
  raw : List Byte
  header : List Byte
  tags : List Byte

/-- The two bytes that tell a DiskCopy header. -/
def marked (raw : List Byte) : Prop := raw.getD 0x52 0 = 1 ∧ raw.getD 0x53 0 = 0

instance (raw : List Byte) : Decidable (marked raw) := inferInstanceAs (Decidable (_ ∧ _))

/-- The sizes of the header do not fit the file or a disk. -/
def misfit (length dataSize tagSize : Nat) : Prop :=
  1474560 < dataSize ∨ length < 0x54 + dataSize + tagSize ∨
    (tagSize ≠ 0 ∧ ((dataSize ≠ 409600 ∧ dataSize ≠ 819200) ∨ tagSize ≠ dataSize / 512 * 12))

instance (length dataSize tagSize : Nat) : Decidable (misfit length dataSize tagSize) :=
  inferInstanceAs (Decidable (_ ∨ _ ∨ _))

/-- `dc42::unpack`. A file that is not marked passes through. -/
def unpack (raw : List Byte) : Opened :=
  if raw.length < 0x54 ∨ ¬ marked raw then ⟨true, raw, [], []⟩
  else
    let dataSize := be32 raw 0x40
    let tagSize := be32 raw 0x44
    if misfit raw.length dataSize tagSize then ⟨false, raw, [], []⟩
    else ⟨true, (raw.drop 0x54).take dataSize, raw.take 0x54,
      (raw.drop (0x54 + dataSize)).take tagSize⟩

/-- The size of the tags that are written. -/
def tagSize (header tags : List Byte) : Nat :=
  if be32 header 0x44 ≠ 0 ∨ nonzeroTags tags then tags.length else 0

/-- The header for new data and tags. The tags of the first sector are not in the sum. -/
def renew (header data tags : List Byte) : List Byte :=
  let size := tagSize header tags
  let header := put32 header 0x40 data.length
  let header := put32 header 0x44 size
  let header := put32 header 0x48 (checksum data)
  put32 header 0x4C (if 12 < size then checksum ((tags.drop 12).take (size - 12)) else 0)

/-- `dc42::write`: the bytes it writes, and the header it leaves. -/
def write (header data tags : List Byte) : Option (List Byte × List Byte) :=
  if header.length ≠ 0x54 then none
  else
    let renewed := renew header data tags
    some (renewed ++ data ++ tags.take (tagSize header tags), renewed)

end Dc42

/-! ## The file -/

inductive Format where
  | raw
  | dc42
  | dart
deriving DecidableEq

/-- `FloppyFileImage`. -/
structure FileImage where
  format : Format
  header : List Byte

namespace FileImage

/-- `FloppyFileImage::wrapped`. -/
def wrapped (image : FileImage) : Bool := image.format ≠ .raw

/-- A letter of a name in lower case. -/
def lower (c : Byte) : Byte := if 0x41 ≤ c ∧ c ≤ 0x5A then c + 32 else c

/-- The end of a name. -/
def suffix (path : List Byte) : List Byte := (path.drop (path.length - 5)).map lower

def dotDart : List Byte := [0x2E, 0x64, 0x61, 0x72, 0x74]

/-- The sizes of the files of sectors. -/
def rawSize (n : Nat) : Prop := n = 409600 ∨ n = 819200 ∨ n = 1474560

instance (n : Nat) : Decidable (rawSize n) := inferInstanceAs (Decidable (_ ∨ _ ∨ _))

/-- What `FloppyFileImage::unpack` returns and leaves in its arguments. -/
structure Outcome where
  accepted : Bool
  image : FileImage
  raw : List Byte
  tags : List Byte

/-- A file is taken for a DART archive by its name, or by its first bytes. -/
def archived (raw path : List Byte) : Prop :=
  suffix path = dotDart ∨ (¬ rawSize raw.length ∧ Dart.candidate raw)

instance (raw path : List Byte) : Decidable (archived raw path) :=
  inferInstanceAs (Decidable (_ ∨ _))

/-- `FloppyFileImage::unpack`. -/
def unpack (raw tags path : List Byte) : Outcome :=
  if archived raw path then
    match Dart.unpack raw tags with
    | (.ok _, raw, tags) => ⟨true, ⟨.dart, []⟩, raw, tags⟩
    | (.error _, raw, tags) => ⟨false, ⟨.raw, []⟩, raw, tags⟩
  else
    let opened := Dc42.unpack raw
    ⟨opened.accepted,
      ⟨if opened.accepted ∧ opened.header ≠ [] then .dc42 else .raw, opened.header⟩,
      opened.raw, opened.tags⟩

/-- `FloppyFileImage::write`: the bytes it writes, and the image it leaves. -/
def write (image : FileImage) (data tags : List Byte) : Option (List Byte × FileImage) :=
  match image.format with
  | .dart => (Dart.write data tags).map fun file => (file, image)
  | .dc42 => (Dc42.write image.header data tags).map fun (file, header) =>
    (file, { image with header := header })
  | .raw => none

/-- The file that `SonyDrive::flushToFile` leaves: a file of sectors is written as it is. -/
def flushed (image : FileImage) (data tags : List Byte) : Option (List Byte) :=
  if image.wrapped then (image.write data tags).map (·.1) else some data

end FileImage

/-! ## A rewritten DiskCopy file -/

namespace Dc42

variable {raw header data tags : List Byte} {front field rest : List Byte}

/-- A field between two parts is replaced. -/
theorem put32_field {i v : Nat} (place : front.length = i) (four : field.length = 4) :
    put32 (front ++ (field ++ rest)) i v = front ++ (bigEndian 4 v ++ rest) := by
  unfold put32 overwrite
  rw [length_bigEndian, ← place, ← four, List.take_left, ← List.drop_drop, List.drop_left,
    List.drop_left]

theorem be32_field {i : Nat} (place : front.length = i) (four : field.length = 4) :
    be32 (front ++ (field ++ rest)) i = number field := by
  unfold be32
  rw [← place, List.drop_left, ← four, List.take_left]

/-- The sum of the tags that is written with them. -/
def tagSum (header tags : List Byte) : Nat :=
  if 12 < tagSize header tags then
    checksum ((tags.drop 12).take (tagSize header tags - 12)) else 0

section

variable (size : header.length = 0x54)
include size

theorem length_name : (header.take 0x40).length = 0x40 := by
  rw [List.length_take]
  omega

/-- The fields that are renewed stand between the name and the encoding. -/
theorem renew_eq :
    renew header data tags = header.take 0x40 ++
      (bigEndian 4 data.length ++ (bigEndian 4 (tagSize header tags) ++
        (bigEndian 4 (checksum data) ++
          (bigEndian 4 (tagSum header tags) ++ header.drop 0x50)))) := by
  have fields (i : Nat) : (header.drop i).take 4 ++ header.drop (i + 4) = header.drop i := by
    rw [← List.drop_drop, List.take_append_drop]
  have four (i : Nat) (inside : i + 4 ≤ 0x54) : ((header.drop i).take 4).length = 4 := by
    rw [List.length_take, List.length_drop]
    omega
  have name := length_name size
  have parts : header.take 0x40 ++ ((header.drop 0x40).take 4 ++
      ((header.drop 0x44).take 4 ++ ((header.drop 0x48).take 4 ++
        ((header.drop 0x4C).take 4 ++ header.drop 0x50)))) = header := by
    rw [fields 0x4C, fields 0x48, fields 0x44, fields 0x40, List.take_append_drop]
  unfold renew tagSum
  dsimp only
  generalize tagSize header tags = n
  nth_rewrite 1 [← parts]
  rw [put32_field name (four _ (by decide))]
  -- Each field that is written joins the part before the next one.
  rw [← List.append_assoc, put32_field (by rw [List.length_append, name]; rfl) (four _ (by decide)),
    ← List.append_assoc, put32_field (by simp only [List.length_append, name]; rfl)
      (four _ (by decide)),
    ← List.append_assoc, put32_field (by simp only [List.length_append, name]; rfl)
      (four _ (by decide))]
  simp only [List.append_assoc]

theorem length_renew : (renew header data tags).length = 0x54 := by
  rw [renew_eq size]
  simp only [List.length_append, length_bigEndian, List.length_take, List.length_drop]
  omega

theorem take_renew (data tags : List Byte) :
    (renew header data tags).take 0x40 = header.take 0x40 := by
  rw [renew_eq size]
  exact List.take_left' (length_name size)

theorem drop_renew (data tags : List Byte) :
    (renew header data tags).drop 0x50 = header.drop 0x50 := by
  have name := length_name size
  rw [renew_eq size]
  simp only [← List.append_assoc]
  refine List.drop_left' ?_
  simp only [List.length_append, length_bigEndian, name]

/-- What the fields of the new header say. -/
theorem be32_renew (data tags rest : List Byte) :
    be32 (renew header data tags ++ rest) 0x40 = data.length % 256 ^ 4 ∧
    be32 (renew header data tags ++ rest) 0x44 = tagSize header tags % 256 ^ 4 ∧
    be32 (renew header data tags ++ rest) 0x48 = checksum data % 256 ^ 4 ∧
    be32 (renew header data tags ++ rest) 0x4C = tagSum header tags % 256 ^ 4 := by
  have name := length_name size
  simp only [← number_bigEndian]
  rw [renew_eq size]
  simp only [List.append_assoc]
  refine ⟨be32_field name (length_bigEndian ..), ?_, ?_, ?_⟩
  · rw [← List.append_assoc]
    exact be32_field (by rw [List.length_append, name, length_bigEndian]) (length_bigEndian ..)
  · rw [← List.append_assoc, ← List.append_assoc]
    exact be32_field (by simp only [List.length_append, name, length_bigEndian])
      (length_bigEndian ..)
  · rw [← List.append_assoc, ← List.append_assoc, ← List.append_assoc]
    exact be32_field (by simp only [List.length_append, name, length_bigEndian])
      (length_bigEndian ..)

/-- A file that starts with a header. -/
theorem unpack_header (mark : marked header) (rest : List Byte) :
    unpack (header ++ rest) =
      if misfit (0x54 + rest.length) (be32 (header ++ rest) 0x40) (be32 (header ++ rest) 0x44) then
        ⟨false, header ++ rest, [], []⟩
      else ⟨true, rest.take (be32 (header ++ rest) 0x40), header,
        (rest.drop (be32 (header ++ rest) 0x40)).take (be32 (header ++ rest) 0x44)⟩ := by
  have mark' : marked (header ++ rest) := by
    unfold marked at mark ⊢
    simp only [List.getD_eq_getElem?_getD] at mark ⊢
    rwa [List.getElem?_append_left (by omega), List.getElem?_append_left (by omega)]
  have length : (header ++ rest).length = 0x54 + rest.length := by
    rw [List.length_append, size]
  unfold unpack
  rw [if_neg (by rintro (short | other) <;> [omega; exact other mark'])]
  dsimp only
  rw [length, ← List.drop_drop]
  have front : (header ++ rest).take 0x54 = header := List.take_left' size
  have back : (header ++ rest).drop 0x54 = rest := List.drop_left' size
  rw [front, back]

end

/-- A file that is opened with a header: what is told of its sizes. -/
theorem opened_sizes (found : (unpack raw).header ≠ []) :
    (unpack raw).header = raw.take 0x54 ∧ 0x54 ≤ raw.length ∧ marked raw ∧
      ¬ misfit raw.length (be32 raw 0x40) (be32 raw 0x44) ∧
      (unpack raw).raw.length = be32 raw 0x40 ∧ (unpack raw).tags.length = be32 raw 0x44 := by
  unfold unpack at found ⊢
  split at found
  next => exact absurd rfl found
  next open' =>
    rw [if_neg open']
    dsimp only at found ⊢
    split at found
    next => exact absurd rfl found
    next fits =>
      rw [if_neg fits]
      unfold misfit at fits
      refine ⟨rfl, by omega, ?_, fits, ?_, ?_⟩
      · by_contra other
        exact open' (.inr other)
      · rw [List.length_take, List.length_drop]
        omega
      · rw [List.length_take, List.length_drop]
        omega

/-- New contents for an opened file: data of its size, and tags of its size. A disk that
came without tags may have got those of its sectors. -/
structure Renewal (opened : Opened) (data tags : List Byte) : Prop where
  dataSize : data.length = opened.raw.length
  tagsSize : tags.length = opened.tags.length ∨ (opened.tags = [] ∧
    (data.length = 409600 ∨ data.length = 819200) ∧ tags.length = data.length / 512 * 12)

/-- The written tags are read back; tags of zeros may be left out. -/
def alike (read written : List Byte) : Prop :=
  read = written ∨ (read = [] ∧ nonzeroTags written = false)

/-- A file with new contents. -/
structure Rewritten (header data tags : List Byte) (opened : Opened) : Prop where
  accepted : opened.accepted = true
  data_eq : opened.raw = data
  tags_alike : alike opened.tags tags
  header_eq : opened.header = renew header data tags
  name_kept : opened.header.take 0x40 = header.take 0x40
  format_kept : opened.header.drop 0x50 = header.drop 0x50
  dataSum : be32 opened.header 0x48 = checksum data
  tagsSum : be32 opened.header 0x4C = checksum (opened.tags.drop 12)

/-- The sizes of new contents fit again. -/
theorem Renewal.fits (found : (unpack raw).header ≠ []) (renewal : Renewal (unpack raw) data tags) :
    ¬ misfit (0x54 + (data.length + tagSize (raw.take 0x54) tags)) data.length
        (tagSize (raw.take 0x54) tags) ∧
      (tagSize (raw.take 0x54) tags = tags.length ∨
        (tagSize (raw.take 0x54) tags = 0 ∧ nonzeroTags tags = false)) := by
  obtain ⟨-, long, -, fits, dataSize, tagsSize⟩ := opened_sizes found
  have told : be32 (raw.take 0x54) 0x44 = be32 raw 0x44 := by
    unfold be32
    rw [List.drop_take, List.take_take]
    rfl
  have same := renewal.dataSize
  have either := renewal.tagsSize
  unfold misfit at fits ⊢
  unfold tagSize
  split
  next some =>
    rcases either with size | ⟨none, gcr, size⟩
    · omega
    · omega
  next none =>
    refine ⟨by omega, .inr ⟨rfl, ?_⟩⟩
    by_contra other
    exact none (.inr (Bool.of_not_eq_false other))

theorem checksum_lt (bytes : List Byte) : checksum bytes < 256 ^ 4 := (sum 0 bytes).isLt

/-- The sum of the tags leaves out the first twelve bytes of those that are written. -/
theorem tagSum_eq (header tags : List Byte) :
    tagSum header tags = checksum ((tags.take (tagSize header tags)).drop 12) := by
  unfold tagSum
  split
  next => rw [List.drop_take]
  next few =>
    rw [List.drop_eq_nil_of_le (by rw [List.length_take]; omega)]
    rfl

/-- A rewritten file is accepted again, with the new contents. -/
theorem rewritten (found : (unpack raw).header ≠ []) (renewal : Renewal (unpack raw) data tags) :
    Rewritten (unpack raw).header data tags (unpack (renew (unpack raw).header data tags ++
      (data ++ tags.take (tagSize (unpack raw).header tags)))) := by
  obtain ⟨same, long, mark, -, dataSize, -⟩ := opened_sizes found
  obtain ⟨fits, written⟩ := renewal.fits found
  rw [same]
  have size : (raw.take 0x54).length = 0x54 := by
    rw [List.length_take]
    omega
  have mark' : marked (renew (raw.take 0x54) data tags) := by
    have kept (i : Nat) (low : 0x50 ≤ i) (high : i < 0x54) :
        (renew (raw.take 0x54) data tags).getD i 0 = raw.getD i 0 := by
      have tail := congrArg (fun l => l[i - 0x50]?) (drop_renew size data tags)
      simp only [List.getElem?_drop, Nat.add_sub_cancel' low] at tail
      rw [List.getD_eq_getElem?_getD, tail, List.getElem?_take_of_lt high,
        List.getD_eq_getElem?_getD]
    unfold marked at mark ⊢
    rwa [kept 0x52 (by decide) (by decide), kept 0x53 (by decide) (by decide)]
  generalize renewed : renew (raw.take 0x54) data tags = header at mark' ⊢
  have size' : header.length = 0x54 := renewed ▸ length_renew size
  generalize count : tagSize (raw.take 0x54) tags = n at fits written ⊢
  have short : (tags.take n).length = n := by
    rw [List.length_take]
    omega
  have fields := be32_renew size data tags (data ++ tags.take n)
  have sums := be32_renew size data tags []
  rw [List.append_nil] at sums
  rw [renewed, count] at fields sums
  have small := fits
  unfold misfit at small
  rw [Nat.mod_eq_of_lt (show data.length < 256 ^ 4 by omega),
    Nat.mod_eq_of_lt (show n < 256 ^ 4 by omega)] at fields
  rw [unpack_header size' mark', List.length_append, short, fields.1, fields.2.1, if_neg fits,
    List.take_left, List.drop_left, List.take_of_length_le (Nat.le_of_eq short)]
  refine ⟨rfl, rfl, ?_, renewed.symm, ?_, ?_, ?_, ?_⟩
  · rcases written with all | ⟨none, zero⟩
    · exact .inl (List.take_of_length_le (Nat.le_of_eq all.symm))
    · exact .inr ⟨by rw [none]; rfl, zero⟩
  · exact renewed ▸ take_renew size data tags
  · exact renewed ▸ drop_renew size data tags
  · exact sums.2.2.1.trans (Nat.mod_eq_of_lt (checksum_lt data))
  · rw [sums.2.2.2, tagSum_eq, count]
    exact Nat.mod_eq_of_lt (checksum_lt _)

end Dc42

/-! ## Which form a file is taken for -/

namespace FileImage

variable {raw tags path : List Byte}

theorem candidate_take (raw : List Byte) : Dart.candidate (raw.take 4) = Dart.candidate raw := by
  match raw with
  | [] => rfl
  | [_] => rfl
  | [_, _] => rfl
  | [_, _, _] => rfl
  | _ :: _ :: _ :: _ :: _ => rfl

theorem unpack_archived (wrapped : archived raw path) (tags : List Byte) :
    (unpack raw tags path).image.format ≠ .dc42 := by
  unfold unpack
  rw [if_pos wrapped]
  split <;> exact nofun

/-- A file of the size of a disk is an archive by its name only. -/
theorem not_archived (size : rawSize raw.length) (name : suffix path ≠ dotDart) :
    ¬ archived raw path := by
  rintro (dart | ⟨other, -⟩)
  · exact name dart
  · exact other size

theorem unpack_plain (plain : ¬ archived raw path) :
    unpack raw tags path = ⟨(Dc42.unpack raw).accepted,
      ⟨if (Dc42.unpack raw).accepted ∧ (Dc42.unpack raw).header ≠ [] then .dc42 else .raw,
        (Dc42.unpack raw).header⟩, (Dc42.unpack raw).raw, (Dc42.unpack raw).tags⟩ :=
  if_neg plain

/-- A file that is taken for a DiskCopy file. -/
theorem opened_of_dc42 (taken : (unpack raw tags path).image.format = .dc42) :
    ¬ archived raw path ∧ (Dc42.unpack raw).accepted = true ∧ (Dc42.unpack raw).header ≠ [] := by
  have plain := fun wrapped => unpack_archived wrapped tags taken
  refine ⟨plain, ?_⟩
  rw [unpack_plain plain] at taken
  split at taken
  next both => exact both
  next => cases taken

end FileImage

/-- A DiskCopy file that is written with new contents is a DiskCopy file with these
contents, its name, encoding and format kept and its sums right. It is taken for one again
just if it does not look like a DART archive, or has the size of a file of sectors. -/
theorem rewritten_image_reopens (raw tags path data' tags' : List Byte)
    (taken : (FileImage.unpack raw tags path).image.format = .dc42)
    (renewal : Dc42.Renewal (Dc42.unpack raw) data' tags') :
    ∃ file image, (FileImage.unpack raw tags path).image.write data' tags' = some (file, image) ∧
      Dc42.Rewritten (raw.take 0x54) data' tags' (Dc42.unpack file) ∧
      (∀ tags, ((FileImage.unpack file tags path).accepted = true ∧
          (FileImage.unpack file tags path).image = image ∧
          (FileImage.unpack file tags path).raw = data' ∧
          Dc42.alike (FileImage.unpack file tags path).tags tags') ↔
        (Dart.candidate raw = false ∨ FileImage.rawSize
          (0x54 + data'.length + Dc42.tagSize (raw.take 0x54) tags'))) := by
  obtain ⟨plain, accepted, found⟩ := FileImage.opened_of_dc42 taken
  obtain ⟨same, long, -⟩ := Dc42.opened_sizes found
  have rewritten := Dc42.rewritten found renewal
  obtain ⟨-, written⟩ := renewal.fits found
  rw [same] at rewritten
  have size : (raw.take 0x54).length = 0x54 := by
    rw [List.length_take]
    omega
  have image : (FileImage.unpack raw tags path).image = ⟨.dc42, raw.take 0x54⟩ := by
    rw [FileImage.unpack_plain plain, if_pos ⟨accepted, found⟩, same]
  rw [image]
  refine ⟨_, ⟨.dc42, Dc42.renew (raw.take 0x54) data' tags'⟩, ?_, rewritten, ?_⟩
  · unfold FileImage.write Dc42.write
    dsimp only
    rw [if_neg (fun differ => differ size), List.append_assoc]
    rfl
  · intro tags
    generalize file' : Dc42.renew (raw.take 0x54) data' tags' ++
      (data' ++ tags'.take (Dc42.tagSize (raw.take 0x54) tags')) = file at rewritten ⊢
    have length : file.length = 0x54 + data'.length + Dc42.tagSize (raw.take 0x54) tags' := by
      rw [← file', List.length_append, List.length_append, Dc42.length_renew size, List.length_take]
      omega
    have start : file.take 4 = raw.take 4 := by
      have name := congrArg (List.take 4) (Dc42.take_renew size data' tags')
      rw [List.take_take, List.take_take, List.take_take] at name
      rwa [← file', List.take_append_of_le_length (by rw [Dc42.length_renew size]; decide)]
    have looks : Dart.candidate file = Dart.candidate raw := by
      rw [← FileImage.candidate_take file, start, FileImage.candidate_take]
    rw [← length]
    constructor
    · rintro ⟨-, again, -⟩
      have format : (FileImage.unpack file tags path).image.format = .dc42 := by rw [again]
      obtain ⟨plain', -⟩ := FileImage.opened_of_dc42 format
      by_contra neither
      rw [not_or, Bool.not_eq_false, ← looks] at neither
      exact plain' (.inr ⟨neither.2, neither.1⟩)
    · intro either
      have plain' : ¬ FileImage.archived file path := by
        rintro (dart | ⟨other, found⟩)
        · exact plain (.inl dart)
        · rcases either with no | yes
          · rw [looks, no] at found
            cases found
          · exact other yes
      have header : (Dc42.unpack file).header ≠ [] := by
        rw [rewritten.header_eq]
        exact List.ne_nil_of_length_pos (by rw [Dc42.length_renew size]; decide)
      rw [FileImage.unpack_plain plain', if_pos ⟨rewritten.accepted, header⟩, rewritten.header_eq]
      exact ⟨rewritten.accepted, rfl, rewritten.data_eq, rewritten.tags_alike⟩

/-- The header of a DiskCopy file of 400 KiB with tags. -/
def Sample.tagged : List Byte :=
  4 :: List.replicate 63 0x64 ++ [0, 6, 0x40, 0, 0, 0, 0x25, 0x80] ++ List.replicate 8 0 ++
    [0, 2, 1, 0]

/-- A blank file of that kind gets data and tags. -/
theorem rewritten_image_reopens_tagged :
    ∃ file image, (FileImage.unpack (Sample.tagged ++ List.replicate 419200 0) [] []).image.write
        (List.replicate 409600 1) (List.replicate 9600 2) = some (file, image) ∧
      (FileImage.unpack file [] []).accepted = true ∧
      (FileImage.unpack file [] []).image = image ∧
      (FileImage.unpack file [] []).raw = List.replicate 409600 1 ∧
      (FileImage.unpack file [] []).tags = List.replicate 9600 2 := by
  have opened : Dc42.unpack (Sample.tagged ++ List.replicate 419200 0) =
      ⟨true, List.replicate 409600 0, Sample.tagged, List.replicate 9600 0⟩ := by
    have data : Dc42.be32 (Sample.tagged ++ List.replicate 419200 0) 0x40 = 409600 := by decide
    have tags : Dc42.be32 (Sample.tagged ++ List.replicate 419200 0) 0x44 = 9600 := by decide
    rw [Dc42.unpack_header (by decide) (by decide), data, tags, List.length_replicate,
      if_neg (by decide), List.take_replicate, List.drop_replicate, List.take_replicate]
    rfl
  have plain : ¬ FileImage.archived (Sample.tagged ++ List.replicate 419200 0) [] := by
    rintro (dart | ⟨-, found⟩)
    · exact absurd dart (by decide)
    · exact Bool.false_ne_true found
  obtain ⟨file, image, written, -, again⟩ := rewritten_image_reopens
    (Sample.tagged ++ List.replicate 419200 0) [] [] (List.replicate 409600 1)
    (List.replicate 9600 2) (by rw [FileImage.unpack_plain plain, opened]; rfl)
    (by rw [opened]; constructor <;> simp only [List.length_replicate, true_or])
  obtain ⟨accepted, image', raw, tags | ⟨-, zero⟩⟩ := (again []).mpr (.inl rfl)
  · exact ⟨file, image, written, accepted, image', raw, tags⟩
  · exact absurd zero (by decide)

/-- The header of a DiskCopy file of 400 KiB, with a name of no letters that leaves the size
of an archive behind. -/
def Sample.header : List Byte :=
  [0, 0, 1, 0x90] ++ List.replicate 60 0 ++ [0, 6, 0x40, 0] ++ List.replicate 12 0 ++
    [0, 0x12, 1, 0]

/-- The file has the size of a double-sided disk. -/
def Sample.file : List Byte := Sample.header ++ List.replicate 819116 0

/-- An archive for another medium is refused. -/
theorem unpack_other_medium {raw rest : List Byte} (start : raw = 0 :: 0 :: 1 :: 0x90 :: rest)
    (size : ¬ FileImage.rawSize raw.length) : (FileImage.unpack raw [] []).accepted = false := by
  have found : Dart.candidate raw = true :=
    start ▸ (by decide : Dart.candidate [0, 0, 1, 0x90] = true)
  have refused : Dart.decode raw = .error .refused := by
    unfold Dart.decode
    rw [Scan.check_of found, start]
    rfl
  unfold FileImage.unpack Dart.unpack
  rw [if_pos (.inr ⟨size, found⟩), refused]

theorem rewritten_image_lost :
    (FileImage.unpack Sample.file [] []).accepted = true ∧
    (FileImage.unpack Sample.file [] []).image = ⟨.dc42, Sample.header⟩ ∧
    (FileImage.unpack Sample.file [] []).raw = List.replicate 409600 0 ∧
    ∃ file image, (FileImage.unpack Sample.file [] []).image.write (List.replicate 409600 0) [] =
        some (file, image) ∧
      (FileImage.unpack file [] []).accepted = false := by
  have opened : Dc42.unpack Sample.file = ⟨true, List.replicate 409600 0, Sample.header, []⟩ := by
    have data : Dc42.be32 (Sample.header ++ List.replicate 819116 0) 0x40 = 409600 := by decide
    have none : Dc42.be32 (Sample.header ++ List.replicate 819116 0) 0x44 = 0 := by decide
    unfold Sample.file
    rw [Dc42.unpack_header (by decide) (by decide), data, List.length_replicate,
      if_neg (by decide), List.take_replicate]
    rfl
  have plain : ¬ FileImage.archived Sample.file [] := by
    refine FileImage.not_archived (.inr (.inl ?_)) (by decide)
    unfold Sample.file
    rw [List.length_append, List.length_replicate]
    rfl
  have taken : FileImage.unpack Sample.file [] [] =
      ⟨true, ⟨.dc42, Sample.header⟩, List.replicate 409600 0, []⟩ := by
    rw [FileImage.unpack_plain plain, opened]
    rfl
  rw [taken]
  refine ⟨rfl, rfl, rfl, _, _, rfl, ?_⟩
  have whole (data : List Byte) (length : data.length = 409600) : (FileImage.unpack
      (Dc42.renew Sample.header data [] ++ data ++ []) [] []).accepted = false := by
    have size : (Dc42.renew Sample.header data [] ++ data ++ []).length = 409684 := by
      rw [List.append_nil, List.length_append, Dc42.length_renew (by decide), length]
    exact unpack_other_medium rfl (by rw [size]; decide)
  exact whole _ List.length_replicate

/-- A file of the size of a disk, not named as an archive, is taken for a file of sectors
and written back as it is, just if it is not marked as a DiskCopy file. -/
theorem sectors_pass_iff (raw tags path : List Byte) (size : FileImage.rawSize raw.length)
    (name : FileImage.suffix path ≠ FileImage.dotDart) :
    ((FileImage.unpack raw tags path).accepted = true ∧
      (FileImage.unpack raw tags path).image.format = .raw ∧
      (FileImage.unpack raw tags path).raw = raw ∧
      (FileImage.unpack raw tags path).image.flushed (FileImage.unpack raw tags path).raw
        (FileImage.unpack raw tags path).tags = some raw) ↔
    ¬ (raw.getD 0x52 0 = 1 ∧ raw.getD 0x53 0 = 0) := by
  have long : ¬ raw.length < 0x54 := by
    unfold FileImage.rawSize at size
    omega
  rw [FileImage.unpack_plain (FileImage.not_archived size name)]
  constructor
  · rintro ⟨accepted, format, -⟩ mark
    have open' : ¬ (raw.length < 0x54 ∨ ¬ Dc42.marked raw) := by
      rintro (short | other)
      · exact long short
      · exact other mark
    unfold Dc42.unpack at accepted format
    rw [if_neg open'] at accepted format
    dsimp only at accepted format
    split at accepted
    next => cases accepted
    next fits =>
      rw [if_neg fits, if_pos ⟨rfl, List.ne_nil_of_length_pos (by rw [List.length_take]; omega)⟩]
        at format
      cases format
  · intro other
    have through : Dc42.unpack raw = ⟨true, raw, [], []⟩ := if_pos (.inr other)
    rw [through]
    exact ⟨rfl, rfl, rfl, rfl⟩

/-- A blank disk. -/
theorem sectors_pass_blank :
    (FileImage.unpack (List.replicate 409600 0) [] []).image.format = .raw ∧
    (FileImage.unpack (List.replicate 409600 0) [] []).raw = List.replicate 409600 0 := by
  have passed := (sectors_pass_iff (List.replicate 409600 0) [] []
    (.inl List.length_replicate) (by decide)).mpr (by
      rintro ⟨mark, -⟩
      cases mark)
  exact ⟨passed.2.1, passed.2.2.1⟩

/-- A disk with the two bytes in its first sector. -/
def Sample.marked : List Byte := List.replicate 0x52 0 ++ [1, 0] ++ List.replicate 409516 0

theorem sectors_taken_for_diskcopy :
    Sample.marked.length = 409600 ∧
    (FileImage.unpack Sample.marked [] []).image.format = .dc42 ∧
    (FileImage.unpack Sample.marked [] []).raw = [] := by
  have length : Sample.marked.length = 409600 := by
    unfold Sample.marked
    rw [List.length_append, List.length_replicate]
    rfl
  have opened : Dc42.unpack Sample.marked = ⟨true, [], List.replicate 0x52 0 ++ [1, 0], []⟩ := by
    have data : Dc42.be32 Sample.marked 0x40 = 0 := by decide
    have none : Dc42.be32 Sample.marked 0x44 = 0 := by decide
    unfold Sample.marked at data none ⊢
    rw [Dc42.unpack_header (by decide) (by decide), List.length_replicate,
      if_neg (by decide)]
    rfl
  rw [FileImage.unpack_plain (FileImage.not_archived (.inl length) (by decide)), opened]
  exact ⟨length, rfl, rfl⟩

end Pom68k.Floppy
