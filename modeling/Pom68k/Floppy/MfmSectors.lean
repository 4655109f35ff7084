import Pom68k.Floppy.MfmRead

/-! # Sectors of an MFM track

What the decoder finds on a track that is read byte by byte: gaps hold nothing, and a
sector is found at its address, whatever its data are.
-/

namespace Pom68k.Floppy

open Foundation

namespace SonyDrive

/-! ## Bytes as they are read -/

/-- Plain bytes behind a check that stands at `crc`. -/
def octets (crc : BitVec 16) : List Byte → List TByte
  | [] => []
  | b :: rest =>
    ⟨b, false, decide (crcOctet crcPoly crc b = 0#16)⟩ :: octets (crcOctet crcPoly crc b) rest

variable (crc : BitVec 16)

theorem feed_plain (bytes : List Byte) :
    feed readByte crc (plain bytes) = (crcOctets crcPoly crc bytes, octets crc bytes) := by
  induction bytes generalizing crc with
  | nil => rfl
  | cons b rest ih =>
    have one : readByte crc (b.setWidth 16) = (crcOctet crcPoly crc b,
        [⟨b, false, decide (crcOctet crcPoly crc b = 0#16)⟩]) := by
      rw [readByte, if_neg (not_not_intro (plain_unmarked b)), setWidth_plain]
    rw [plain, List.map_cons, feed, one]
    rw [show rest.map (fun b => b.setWidth 16) = plain rest from rfl, ih]
    rfl

theorem octets_append (a b : List Byte) :
    octets crc (a ++ b) = octets crc a ++ octets (crcOctets crcPoly crc a) b := by
  induction a generalizing crc with
  | nil => rfl
  | cons x rest ih =>
    rw [List.cons_append, octets, ih]
    rfl

@[simp] theorem length_octets (bytes : List Byte) :
    (octets crc bytes).length = bytes.length := by
  induction bytes generalizing crc with
  | nil => rfl
  | cons b rest ih => rw [octets, List.length_cons, List.length_cons, ih]

theorem map_val_octets (bytes : List Byte) : (octets crc bytes).map TByte.val = bytes := by
  induction bytes generalizing crc with
  | nil => rfl
  | cons b rest ih => rw [octets, List.map_cons, ih]

theorem unmarked_octets (bytes : List Byte) : ∀ b ∈ octets crc bytes, b.mark = false := by
  induction bytes generalizing crc with
  | nil => exact List.forall_mem_nil _
  | cons b rest ih => exact List.forall_mem_cons.mpr ⟨rfl, ih _⟩

/-- The marks of a field. -/
def marks : List TByte := List.replicate 3 ⟨0xA1#8, true, false⟩

/-- The check behind a field. -/
def check (bytes : List Byte) : BitVec 16 := crcCcitt ([0xA1#8, 0xA1#8, 0xA1#8] ++ bytes)

/-- A field as it is read: its check comes out right at the last byte. -/
def fieldOctets (bytes : List Byte) : List TByte :=
  octets 0xCDB4#16 bytes ++
    [⟨(check bytes >>> 8).setWidth 8, false,
      decide (crcOctet crcPoly (check bytes) ((check bytes >>> 8).setWidth 8) = 0#16)⟩,
      ⟨(check bytes).setWidth 8, false, true⟩]

theorem check_eq (bytes : List Byte) : crcOctets crcPoly 0xCDB4#16 bytes = check bytes := by
  have start : crcOctets crcPoly 0xFFFF#16 [0xA1#8, 0xA1#8, 0xA1#8] = 0xCDB4#16 := by
    decide +kernel
  rw [check, crcCcitt, crcOctets, crcOctets, List.foldl_append,
    show List.foldl _ _ [0xA1#8, 0xA1#8, 0xA1#8] = 0xCDB4#16 from start]

theorem octets_check (bytes : List Byte) :
    octets 0xCDB4#16 (bytes ++ crcBytes (check bytes)) = fieldOctets bytes := by
  have clear : crcOctets crcPoly (check bytes)
      [(check bytes >>> 8).setWidth 8, (check bytes).setWidth 8] = 0#16 :=
    crcOctets_self (check bytes)
  rw [crcOctets, List.foldl_cons, List.foldl_cons, List.foldl_nil] at clear
  rw [octets_append, check_eq, crcBytes, octets, octets, clear]
  rfl

theorem feed_field (bytes : List Byte) :
    (feed readByte crc (fieldMfm bytes)).2 = marks ++ fieldOctets bytes := by
  have marked : feed readByte crc marksA1 = (0xCDB4#16, marks) := rfl
  rw [fieldMfm, feed_append]
  rw [feed_plain]
  exact congrArg (marks ++ ·) (octets_check bytes)

theorem unmarked_fieldOctets (bytes : List Byte) : ∀ b ∈ fieldOctets bytes, b.mark = false := by
  refine List.forall_mem_append.mpr ⟨unmarked_octets _ _, ?_⟩
  simp

theorem length_fieldOctets (bytes : List Byte) : (fieldOctets bytes).length = bytes.length + 2 := by
  rw [fieldOctets, List.length_append, length_octets]
  rfl

/-! ## Where sectors are found -/

variable {b : TByte} {bytes rest : List TByte} {found : List Pending} {items : List (BitVec 16)}

/-- Fields begin with three marks. -/
theorem fieldBegins_unmarked {kind : Byte} (inside : b ∈ bytes.take 3) (unmarked : b.mark = false) :
    fieldBegins kind bytes = false := by
  unfold fieldBegins
  split
  · simp only [List.take_succ_cons, List.take_zero, List.mem_cons, List.not_mem_nil] at inside
    rcases inside with rfl | rfl | rfl | none
    · simp [unmarked]
    · simp [unmarked]
    · simp [unmarked]
    · exact none.elim
  · rfl

theorem sectorAt_none (other : fieldBegins 0xFE#8 bytes = false) : sectorAt bytes = none := by
  rw [sectorAt, other, if_neg fun both => Bool.false_ne_true both.1]

theorem mfmSectors_short (short : bytes.length ≤ 10) : mfmSectors bytes = [] := by
  cases bytes with
  | nil => rfl
  | cons b rest => rw [mfmSectors, if_pos (by rw [List.length_cons] at short; omega)]

theorem mfmSectors_skip (other : fieldBegins 0xFE#8 (b :: rest) = false) :
    mfmSectors (b :: rest) = mfmSectors rest := by
  rw [mfmSectors, sectorAt_none other]
  split_ifs with short
  · exact (mfmSectors_short (by omega)).symm
  · rfl

theorem mfmSectors_unmarked (unmarked : ∀ b ∈ bytes, b.mark = false)
    (rest : List TByte) : mfmSectors (bytes ++ rest) = mfmSectors rest := by
  induction bytes with
  | nil => rfl
  | cons b later ih =>
    rw [List.cons_append, mfmSectors_skip (fieldBegins_unmarked List.mem_cons_self
      (unmarked b List.mem_cons_self))]
    exact ih (List.forall_mem_cons.mp unmarked).2

/-- Only the first mark of a field can begin a sector. -/
theorem mfmSectors_field (some : bytes ≠ []) (unmarked : ∀ b ∈ bytes, b.mark = false)
    (long : 8 ≤ (bytes ++ rest).length) :
    mfmSectors (marks ++ (bytes ++ rest)) =
      (sectorAt (marks ++ (bytes ++ rest))).toList ++ mfmSectors rest := by
  obtain ⟨b, later, rfl⟩ := List.exists_cons_of_ne_nil some
  have plain := unmarked b List.mem_cons_self
  have behind : mfmSectors (b :: (later ++ rest)) = mfmSectors rest :=
    mfmSectors_unmarked unmarked rest
  rw [List.cons_append] at long ⊢
  generalize mark : (⟨0xA1#8, true, false⟩ : TByte) = m
  have enough : ¬(m :: m :: b :: (later ++ rest)).length < 10 := by
    rw [List.length_cons, List.length_cons]
    omega
  rw [show marks = [m, m, m] by rw [← mark]; rfl, List.cons_append, List.cons_append,
    List.cons_append, List.nil_append, mfmSectors, if_neg enough,
    mfmSectors_skip (fieldBegins_unmarked (by simp) plain),
    mfmSectors_skip (fieldBegins_unmarked (by simp) plain), behind]

/-- The gap between an address and its data is passed over. -/
theorem dataField_unmarked (unmarked : ∀ b ∈ bytes, b.mark = false) (long : 517 < rest.length)
    (window : Nat) :
    dataField (window + bytes.length) (bytes ++ rest) = dataField window rest := by
  induction bytes with
  | nil => rfl
  | cons b later ih =>
    have fits : ¬(b :: (later ++ rest)).length ≤ 517 := by
      rw [List.length_cons, List.length_append]
      omega
    rw [List.length_cons, ← Nat.add_assoc, List.cons_append, dataField, if_neg fits,
      fieldBegins_unmarked List.mem_cons_self (unmarked b List.mem_cons_self)]
    exact ih (List.forall_mem_cons.mp unmarked).2

/-- Data are found behind their marks. -/
theorem dataField_data {data : List Byte} (size : data.length = 512) (window : Nat)
    (rest : List TByte) :
    dataField (window + 1) (marks ++ (fieldOctets (0xFB#8 :: data) ++ rest)) = some data := by
  have length : (octets 0xCDB4#16 (0xFB#8 :: data)).length = 513 := by
    rw [length_octets, List.length_cons, size]
  have whole : (fieldOctets (0xFB#8 :: data)).length = 515 := by
    rw [length_fieldOctets, List.length_cons, size]
  have long : ¬(marks ++ (fieldOctets (0xFB#8 :: data) ++ rest)).length ≤ 517 := by
    rw [List.length_append, List.length_append, show marks.length = 3 from rfl]
    omega
  have checked : (marks ++ (fieldOctets (0xFB#8 :: data) ++ rest))[517]? =
      some ⟨(check (0xFB#8 :: data)).setWidth 8, false, true⟩ := by
    rw [List.getElem?_append_right (by decide), List.getElem?_append_left (by
      rw [whole]; decide), fieldOctets, List.getElem?_append_right (by rw [length]; decide), length]
    rfl
  have begins : fieldBegins 0xFB#8 (marks ++ (fieldOctets (0xFB#8 :: data) ++ rest)) = true := by
    rfl
  have content : ((marks ++ (fieldOctets (0xFB#8 :: data) ++ rest)).drop 4).take 512 =
      octets (crcOctet crcPoly 0xCDB4#16 0xFB#8) data := by
    rw [fieldOctets, octets, List.cons_append, List.cons_append, List.append_assoc]
    exact List.take_left' (by rw [length_octets, size])
  rw [dataField, if_neg long, checked, content, map_val_octets]
  rfl

/-- An address that checks gives its sector the first data that check behind it. -/
theorem sectorAt_address (c h s n : Byte) (rest : List TByte) :
    sectorAt (marks ++ (fieldOctets [0xFE#8, c, h, s, n] ++ rest)) =
      (dataField 70 rest).map fun data => ⟨c.toNat, (h &&& 1#8).toNat, s.toNat - 1, data⟩ := by
  rw [fieldOctets]
  simp only [octets, marks, List.replicate, List.cons_append, List.nil_append, sectorAt,
    List.drop_succ_cons,
    List.drop_zero]
  cases dataField 70 rest <;> rfl

/-- A sector is found at its address, and nothing else in it. -/
theorem mfmSectors_sector (c h s n : Byte) {data : List Byte} (size : data.length = 512)
    {between : List TByte} (unmarked : ∀ b ∈ between, b.mark = false) (near : between.length < 70)
    (rest : List TByte) :
    mfmSectors (marks ++ (fieldOctets [0xFE#8, c, h, s, n] ++
      (between ++ (marks ++ (fieldOctets (0xFB#8 :: data) ++ rest))))) =
        ⟨c.toNat, (h &&& 1#8).toNat, s.toNat - 1, data⟩ :: mfmSectors rest := by
  have address : (fieldOctets [0xFE#8, c, h, s, n]).length = 7 := length_fieldOctets _
  have whole : (fieldOctets (0xFB#8 :: data)).length = 515 := by
    rw [length_fieldOctets, List.length_cons, size]
  generalize field : marks ++ (fieldOctets (0xFB#8 :: data) ++ rest) = behind
  have long : 517 < behind.length := by
    rw [← field, List.length_append, List.length_append, show marks.length = 3 from rfl]
    omega
  have window : 70 = (69 - between.length) + 1 + between.length := by omega
  have found : dataField 70 (between ++ behind) = some data := by
    rw [window, dataField_unmarked unmarked long, ← field, dataField_data size]
  have inside : mfmSectors behind = mfmSectors rest := by
    rw [← field, mfmSectors_field (List.ne_nil_of_length_pos (by omega))
      (unmarked_fieldOctets _) (by rw [List.length_append]; omega)]
    rfl
  rw [mfmSectors_field (List.ne_nil_of_length_pos (by omega)) (unmarked_fieldOctets _)
    (by rw [List.length_append, List.length_append]; omega), sectorAt_address, found,
    mfmSectors_unmarked unmarked, inside]
  rfl

/-! ## Tracks -/

/-- What is found on a part of a track, whatever was read before it. -/
def Finds (items : List (BitVec 16)) (found : List Pending) : Prop :=
  ∀ crc, mfmSectors (feed readByte crc items).2 = found

theorem finds_nil : Finds [] [] := fun _ => rfl

/-- Gaps hold nothing. -/
theorem Finds.plain (finds : Finds items found)
    (bytes : List Byte) : Finds (SonyDrive.plain bytes ++ items) found := by
  intro crc
  rw [feed_append, feed_plain]
  rw [mfmSectors_unmarked (unmarked_octets _ _)]
  exact finds _

/-- A sector of the track, without the gap before its address. -/
def sectorBody (d : SonyDrive) (sector : Nat) : List (BitVec 16) :=
  fieldMfm (d.addressMfm sector) ++ gap 22 0x4E#8 ++ gap 12 0x00#8 ++
    fieldMfm (0xFB#8 :: d.sectorData sector) ++ gap 84 0x4E#8

theorem sectorMfm_eq (d : SonyDrive) (sector : Nat) :
    d.sectorMfm sector = gap 12 0x00#8 ++ d.sectorBody sector := by
  simp only [sectorMfm, sectorBody, List.append_assoc]

/-- A sector as its address names it. -/
def addressed (d : SonyDrive) (sector : Nat) : Pending :=
  ⟨(BitVec.ofNat 8 d.track).toNat, (BitVec.ofNat 8 d.side &&& 1#8).toNat,
    (BitVec.ofNat 8 (sector + 1)).toNat - 1, d.sectorData sector⟩

/-- A sector is found, and nothing else in it. -/
theorem Finds.sectorBody (finds : Finds items found) (d : SonyDrive) (sector : Nat) :
    Finds (d.sectorBody sector ++ items) (d.addressed sector :: found) := by
  intro crc
  simp only [SonyDrive.sectorBody, List.append_assoc, feed_append, feed_field, gap, feed_plain]
  generalize (feed readByte crc (fieldMfm (d.addressMfm sector))).1 = before
  generalize crcOctets crcPoly before (List.replicate 22 0x4E#8) = middle
  rw [← List.append_assoc (octets before _), addressMfm, mfmSectors_sector _ _ _ _
    (length_sectorData d sector), mfmSectors_unmarked (unmarked_octets _ _), finds]
  · rfl
  · exact List.forall_mem_append.mpr ⟨unmarked_octets _ _, unmarked_octets _ _⟩
  · rw [List.length_append, length_octets, length_octets]
    decide

theorem Finds.sectors (finds : Finds items found) (d : SonyDrive) (sectors : List Nat) :
    Finds (sectors.flatMap d.sectorMfm ++ items) (sectors.map d.addressed ++ found) := by
  induction sectors with
  | nil => exact finds
  | cons s rest ih =>
    rw [List.flatMap_cons, List.append_assoc, sectorMfm_eq, List.append_assoc]
    exact (ih.sectorBody d s).plain _

end SonyDrive

end Pom68k.Floppy
