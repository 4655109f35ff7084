import Pom68k.Disk.ScsiDisk

/-! # Requests as writes of blocks

A request of a SCSI disk is, for the timeline and its image of blocks, a sequence of
single writes of different blocks. The backing file follows the image behind the
prefix.
-/

namespace Pom68k.Disk

open Foundation

/-- The timeline after a plan of different blocks: every old content is that of the
image before the plan. -/
theorem World.timeline_applyPlan {g : Geometry} {plan : BlockMap g}
    (distinct : (plan.map Prod.fst).Nodup) (w : World g) (landed : Fin g.blocks → Option Nat) :
    (w.applyPlan plan landed).timeline =
      plan.foldl (fun t b => t.willWrite b.1 (w.image b.1) b.2 (landed b.1)) w.timeline := by
  induction plan generalizing w with
  | nil => rfl
  | cons b rest ih =>
    rw [List.map_cons, List.nodup_cons] at distinct
    refine (ih distinct.2 (w.write b.1 b.2 (landed b.1))).trans ?_
    refine List.foldl_ext _ _ _ fun t b' member => ?_
    have other : b'.1 ≠ b.1 := fun same => distinct.1 (same ▸ List.mem_map_of_mem member)
    have unchanged : (w.write b.1 b.2 (landed b.1)).image b'.1 = w.image b'.1 :=
      Function.update_of_ne other _ _
    rw [unchanged]

theorem Timeline.attached_willWrite {g : Geometry} (t : Timeline g) (lba : Nat)
    (cur next : Block g.blockSize) (landed : Option Nat) :
    (t.willWrite lba cur next landed).attached = t.attached := by
  rw [willWrite]
  split
  · exact (t.logWrite_content _ cur next landed).attached
  · rfl

/-- A plan changes the image and the timeline. -/
theorem World.applyPlan_eq {g : Geometry} (w : World g) (plan : BlockMap g)
    (landed : Fin g.blocks → Option Nat) :
    w.applyPlan plan landed =
      { w with
        image := overlay plan w.image, timeline := (w.applyPlan plan landed).timeline } := by
  induction plan generalizing w with
  | nil => rfl
  | cons b rest ih => exact ih (w.write b.1 b.2 (landed b.1))

namespace ScsiDisk

theorem lt_blocksFor {size k : Nat} : k < blocksFor size ↔ k * sectorSize < size := by
  unfold blocksFor sectorSize
  omega

/-- The bytes of a request inside its blocks. -/
theorem end_le {lba size last : Nat} (inside : lba + blocksFor size ≤ last) :
    lba * sectorSize + size ≤ last * sectorSize := by
  unfold blocksFor sectorSize at *
  omega

variable {lba size : Nat} {img data : List Byte}

/-- The blocks of an image after a request: those of the request have their new content. -/
theorem sector_overwrite (enough : size ≤ data.length)
    (room : (lba + blocksFor size) * sectorSize ≤ img.length) (b : Nat) :
    sector (overwrite img (lba * sectorSize) (data.take size)) b =
      if lba ≤ b ∧ b < lba + blocksFor size then nextSector img lba (b - lba) size data
      else sector img b := by
  have written := List.length_take_of_le enough
  have fits : lba * sectorSize + (data.take size).length ≤ img.length := by
    rw [written]
    exact (end_le (Nat.le_refl _)).trans room
  split
  · next inside =>
      obtain ⟨k, rfl⟩ := Nat.exists_eq_add_of_le inside.1
      have chunk : ((data.drop (k * sectorSize)).take
          (min (size - k * sectorSize) sectorSize)).length =
            min (size - k * sectorSize) sectorSize := by
        rw [List.length_take, List.length_drop]
        omega
      have block : (sector img (lba + k)).1.length = sectorSize := (sector img (lba + k)).2
      rw [Nat.add_sub_cancel_left]
      refine Subtype.ext (slice_congr fun j low => ?_)
      have last : sectorSize * (lba + k) + j < img.length := by
        unfold sectorSize at *
        omega
      have position : sectorSize * (lba + k) + j = lba * sectorSize + (k * sectorSize + j) := by
        unfold sectorSize
        omega
      rw [getElem?_overwrite fits, getElem?_overwrite (by omega), Nat.mul_zero, Nat.zero_add, Nat.sub_zero]
      by_cases new : k * sectorSize + j < size
      · rw [if_pos (by omega), if_pos (by omega), position, Nat.add_sub_cancel_left,
          List.getElem?_take_of_lt new, List.getElem?_take_of_lt (by omega), List.getElem?_drop]
      · rw [if_neg (by omega), if_neg (by omega), sector, getElem?_slice low,
          List.getD_eq_getElem?_getD, List.getElem?_eq_getElem last]
        rfl
  · next outside =>
      refine Subtype.ext (slice_congr fun j low => ?_)
      have apart : ¬ (lba * sectorSize ≤ sectorSize * b + j ∧
          sectorSize * b + j < lba * sectorSize + (data.take size).length) := by
        unfold blocksFor sectorSize at *
        omega
      rw [getElem?_overwrite fits, if_neg apart]

variable {count : BitVec 32}

/-- The disk as its timeline sees it. -/
def world (d : ScsiDisk count) (path name : String) : World (sectors count) :=
  { path, name, image := sectorsOf count d.image, timeline := d.timeline }

/-- The block writes of a request of some bytes. -/
def requestPlan (img : List Byte) (lba size : Nat) (data : List Byte)
    (inside : lba + blocksFor size ≤ count.toNat) : BlockMap (sectors count) :=
  (List.finRange (blocksFor size)).map fun k : Fin (blocksFor size) =>
    (⟨lba + k, lt_of_lt_of_le (Nat.add_lt_add_left k.isLt lba) inside⟩,
      nextSector img lba k size data)

theorem distinct_requestPlan (img : List Byte) (lba size : Nat) (data : List Byte)
    (inside : lba + blocksFor size ≤ count.toNat) :
    ((requestPlan img lba size data inside).map Prod.fst).Nodup := by
  rw [requestPlan, List.map_map]
  refine (List.nodup_finRange _).map fun k k' same => ?_
  have sum : lba + k.val = lba + k'.val := congrArg Fin.val same
  exact Fin.ext (Nat.add_left_cancel sum)

/-- The keys of a request are the blocks its bytes reach. -/
theorem mem_requestPlan {img : List Byte} {data : List Byte}
    {inside : lba + blocksFor size ≤ count.toNat} {b : Fin (sectors count).blocks} :
    b ∈ (requestPlan img lba size data inside).map Prod.fst ↔
      lba ≤ b.val ∧ b.val < lba + blocksFor size := by
  rw [requestPlan, List.map_map, List.mem_map]
  constructor
  · rintro ⟨k, _, rfl⟩
    exact ⟨Nat.le_add_right _ _, Nat.add_lt_add_left k.isLt lba⟩
  · rintro ⟨low, high⟩
    refine ⟨⟨b.val - lba, by omega⟩, List.mem_finRange _, Fin.ext ?_⟩
    exact Nat.add_sub_cancel' low

theorem overlay_requestPlan (enough : size ≤ data.length)
    (inside : lba + blocksFor size ≤ count.toNat) (room : count.toNat * sectorSize ≤ img.length) :
    sectorsOf count (overwrite img (lba * sectorSize) (data.take size)) =
      overlay (requestPlan img lba size data inside) (sectorsOf count img) := by
  funext b
  have room' := le_trans (Nat.mul_le_mul_right sectorSize inside) room
  rw [sectorsOf, sector_overwrite enough room']
  split
  · next there =>
      have member : (b, nextSector img lba (b - lba) size data) ∈
          requestPlan img lba size data inside := by
        refine List.mem_map.mpr ⟨⟨b.val - lba, by omega⟩, List.mem_finRange _, ?_⟩
        exact Prod.ext (Fin.ext (Nat.add_sub_cancel' there.1)) rfl
      exact (overlay_of_mem (distinct_requestPlan img lba size data inside) member _).symm
  · next outside =>
      have unwritten : b ∉ (requestPlan img lba size data inside).map Prod.fst :=
        fun member => outside (mem_requestPlan.mp member)
      rw [overlay_of_notMem unwritten, sectorsOf]

variable (d : ScsiDisk count)

/-- Logging a request logs its block writes. -/
theorem logRequest_eq (path name : String) (data : List Byte) (host : StoreHost)
    (inside : lba + blocksFor size ≤ count.toNat) : d.logRequest lba size data host =
      ((d.world path name).applyPlan (requestPlan d.image lba size data inside)
        fun b => host.journal b).timeline := by
  rw [World.timeline_applyPlan (distinct_requestPlan d.image lba size data inside), requestPlan,
    List.foldl_map, logRequest, ← List.map_coe_finRange_eq_range, List.foldl_map]
  rfl

theorem attached_logRequest (lba size : Nat) (data : List Byte)
    (host : StoreHost) : (d.logRequest lba size data host).attached = d.timeline.attached := by
  refine List.foldlRecOn (motive := fun t : Timeline _ => t.attached = d.timeline.attached) _ _
    rfl ?_
  intro t known k _
  exact (t.attached_willWrite _ _ _ _).trans known

/-! ## The disk refines the image with its timeline -/

/-- What a request of some bytes does to a disk: the log gets the block writes, the image
the bytes and, while the write-back works, the file those behind the prefix. -/
structure Stored (d : ScsiDisk count) (lba size : Nat) (data : List Byte) (host : StoreHost)
    (d' : ScsiDisk count) : Prop where
  blocks : d'.blocks = d.blocks
  hfsPrefixBlocks : d'.hfsPrefixBlocks = d.hfsPrefixBlocks
  regs : d'.regs = d.regs
  timeline : d'.timeline = d.logRequest lba size data host
  image : d'.image = overwrite d.image (lba * sectorSize) (data.take size)
  mirrored : d'.writeBack = true → d.writeBack = true ∧
    d'.file = if size ≤ (d.hfsPrefixBlocks.toNat - lba) * sectorSize then d.file
      else overwrite d.file ((lba - d.hfsPrefixBlocks.toNat) * sectorSize)
        ((data.take size).drop ((d.hfsPrefixBlocks.toNat - lba) * sectorSize))

/-- The write to the file changes nothing else, and a failed one ends the write-back. -/
theorem writeFile_spec (offset : Nat) (data : List Byte) (host : StoreHost) :
    ∃ file writeBack, d.writeFile offset data host = { d with file, writeBack } ∧
      (writeBack = true → d.writeBack = true ∧ file = overwrite d.file offset data) := by
  unfold writeFile
  split
  · exact ⟨_, d.writeBack, rfl, fun on => ⟨on, rfl⟩⟩
  · exact ⟨_, false, rfl, nofun⟩

/-- The write-back of a request changes nothing but the file. While it works, the file
gets the bytes of the request that lie behind the prefix. -/
theorem writeThrough_spec (lba : Nat) {length size : Nat}
    (short : size ≤ length * sectorSize) (data : List Byte) (host : StoreHost) :
    ∃ file writeBack, d.writeThrough lba length size data host = { d with file, writeBack } ∧
      (writeBack = true → d.writeBack = true ∧
        file = if size ≤ (d.hfsPrefixBlocks.toNat - lba) * sectorSize then d.file
          else overwrite d.file ((lba - d.hfsPrefixBlocks.toNat) * sectorSize)
            ((data.take size).drop ((d.hfsPrefixBlocks.toNat - lba) * sectorSize))) := by
  unfold writeThrough
  by_cases idle : d.writeBack = false ∨ size = 0
  · refine ⟨d.file, d.writeBack, if_pos idle, fun on => ⟨on, ?_⟩⟩
    have none : size = 0 := idle.resolve_left fun off => Bool.false_ne_true (off.symm.trans on)
    rw [none, if_pos (Nat.zero_le _)]
  · rw [if_neg idle]
    by_cases before : d.hfsPrefixBlocks ≠ 0#32 ∧ lba < d.hfsPrefixBlocks.toNat
    · rw [if_pos before]
      have start : lba - d.hfsPrefixBlocks.toNat = 0 := Nat.sub_eq_zero_of_le (Nat.le_of_lt before.2)
      by_cases synthetic : length ≤ d.hfsPrefixBlocks.toNat - lba ∨
          size ≤ (d.hfsPrefixBlocks.toNat - lba) * sectorSize
      · refine ⟨d.file, d.writeBack, if_pos synthetic, fun on => ⟨on, (if_pos ?_).symm⟩⟩
        exact synthetic.elim (fun few => le_trans short (Nat.mul_le_mul_right _ few)) id
      · rw [if_neg synthetic]
        rw [not_or] at synthetic
        rw [start, if_neg synthetic.2]
        exact d.writeFile_spec _ _ _
    · rw [if_neg before]
      have behind : d.hfsPrefixBlocks.toNat - lba = 0 := by
        by_contra low
        refine before ⟨fun zero => low ?_, by omega⟩
        rw [zero]
        exact Nat.zero_sub lba
      rw [not_or] at idle
      rw [behind, Nat.zero_mul, if_neg (fun none => idle.2 (Nat.le_zero.mp none))]
      exact d.writeFile_spec _ _ _

theorem writable_le_data (lba length : Nat) (data : List Byte) :
    d.writable lba length data ≤ data.length :=
  Nat.min_le_right _ _

theorem blocksFor_writable (lba length : Nat) (data : List Byte) :
    blocksFor (d.writable lba length data) ≤ length := by
  have bound : d.writable lba length data ≤ length * sectorSize :=
    le_trans (Nat.min_le_left _ _) (Nat.min_le_left _ _)
  unfold blocksFor sectorSize at *
  omega

theorem store_spec {d : ScsiDisk count} (attached : d.timeline.attached = true) (lba length : Nat)
    (data : List Byte) (host : StoreHost) :
    Stored d lba (d.writable lba length data) data host (d.store lba length data host) := by
  have short : d.writable lba length data ≤ length * sectorSize :=
    le_trans (Nat.min_le_left _ _) (Nat.min_le_left _ _)
  unfold store
  by_cases beyond : d.image.length ≤ lba * sectorSize
  · have nothing : d.writable lba length data = 0 := by
      unfold writable
      omega
    rw [if_pos beyond, nothing]
    refine ⟨rfl, rfl, rfl, rfl, ?_, fun on => ⟨on, (if_pos (Nat.zero_le _)).symm⟩⟩
    rw [List.take_zero, overwrite_nil]
  · rw [if_neg beyond]
    dsimp only
    rw [if_pos attached]
    generalize d.writable lba length data = size at short ⊢
    obtain ⟨file, writeBack, through, mirrored⟩ := writeThrough_spec
      { d with
        timeline := d.logRequest lba size data host
        image := overwrite d.image (lba * sectorSize) (data.take size) }
      lba short data host
    rw [through]
    exact ⟨rfl, rfl, rfl, rfl, rfl, mirrored⟩

/-- Where the write to the file succeeds, the write-back goes on. -/
theorem writeBack_store {host : StoreHost} (lands : host.file = none)
    (lba length : Nat) (data : List Byte) :
    (d.store lba length data host).writeBack = d.writeBack := by
  unfold store writeThrough writeFile
  rw [lands]
  dsimp only
  split_ifs <;> rfl

/-- A request writes its blocks. -/
theorem Stored.world {d d' : ScsiDisk count} {data : List Byte} {host : StoreHost}
    (stored : Stored d lba size data host d') (path name : String)
    (room : count.toNat * sectorSize ≤ d.image.length) (enough : size ≤ data.length)
    (inside : lba + blocksFor size ≤ count.toNat) :
    d'.world path name = (d.world path name).applyPlan (requestPlan d.image lba size data inside)
      fun b => host.journal b := by
  rw [World.applyPlan_eq, ← d.logRequest_eq path name data host inside, ScsiDisk.world,
    stored.image, stored.timeline, overlay_requestPlan enough inside room]
  rfl

/-- A disk in a process: every block is in the image, and while the write-back works the
file is the image behind the prefix. -/
structure Backed (d : ScsiDisk count) : Prop where
  blocks : d.blocks = count
  attached : d.timeline.attached = true
  room : count.toNat * sectorSize ≤ d.image.length
  behind : d.hfsPrefixBlocks.toNat ≤ count.toNat
  mirror : d.writeBack = true → d.image.drop (d.hfsPrefixBlocks.toNat * sectorSize) = d.file

/-- Two disks that differ in the content of their blocks and its history only. -/
structure SameShape (d d' : ScsiDisk count) : Prop where
  blocks : d'.blocks = d.blocks
  hfsPrefixBlocks : d'.hfsPrefixBlocks = d.hfsPrefixBlocks
  regs : d'.regs = d.regs
  length : d'.image.length = d.image.length
  tail : d'.image.drop (count.toNat * sectorSize) = d.image.drop (count.toNat * sectorSize)

theorem SameShape.refl : SameShape d d := ⟨rfl, rfl, rfl, rfl, rfl⟩

theorem SameShape.trans {d d' d'' : ScsiDisk count} (first : SameShape d d')
    (second : SameShape d' d'') : SameShape d d'' :=
  ⟨second.blocks.trans first.blocks, second.hfsPrefixBlocks.trans first.hfsPrefixBlocks,
    second.regs.trans first.regs, second.length.trans first.length, second.tail.trans first.tail⟩

section Request

variable {d d' : ScsiDisk count} {lba size : Nat} {data : List Byte} {host : StoreHost}

theorem Backed.sameShape (backed : Backed d) (stored : Stored d lba size data host d')
    (enough : size ≤ data.length) (inside : lba + blocksFor size ≤ count.toNat) :
    SameShape d d' := by
  have stop := end_le inside
  have room := backed.room
  have fits : lba * sectorSize + (data.take size).length ≤ d.image.length := by
    rw [List.length_take_of_le enough]
    omega
  refine ⟨stored.blocks, stored.hfsPrefixBlocks, stored.regs, ?_, ?_⟩
  · rw [stored.image, length_overwrite fits]
  · rw [stored.image]
    exact drop_overwrite_of_le fits (le_of_eq_of_le (congrArg _ (List.length_take_of_le enough)) stop)

/-- A request keeps the file behind the image. -/
theorem Stored.mirror (stored : Stored d lba size data host d') (enough : size ≤ data.length)
    (fits : lba * sectorSize + size ≤ d.image.length ∨ size = 0)
    (mirror : d.writeBack = true → d.image.drop (d.hfsPrefixBlocks.toNat * sectorSize) = d.file)
    (on : d'.writeBack = true) :
    d'.image.drop (d'.hfsPrefixBlocks.toNat * sectorSize) = d'.file := by
  obtain ⟨wasOn, file⟩ := stored.mirrored on
  have long := List.length_take_of_le enough
  rw [stored.hfsPrefixBlocks, stored.image, file]
  rcases fits with fits | rfl
  · rw [← long] at fits
    by_cases synthetic : size ≤ (d.hfsPrefixBlocks.toNat - lba) * sectorSize
    · rw [if_pos synthetic, ← mirror wasOn]
      by_cases before : lba ≤ d.hfsPrefixBlocks.toNat
      · refine drop_overwrite_of_le fits ?_
        rw [Nat.sub_mul] at synthetic
        have := Nat.mul_le_mul_right sectorSize before
        omega
      · rw [Nat.sub_eq_zero_of_le (Nat.le_of_not_le before)] at synthetic
        rw [Nat.le_zero.mp synthetic, List.take_zero, overwrite_nil]
    · rw [if_neg synthetic, drop_overwrite fits, Nat.sub_mul, Nat.sub_mul, mirror wasOn]
      rw [Nat.sub_mul] at synthetic
      omega
  · rw [if_pos (Nat.zero_le _), List.take_zero, overwrite_nil, mirror wasOn]

theorem Backed.stored (backed : Backed d) (stored : Stored d lba size data host d')
    (enough : size ≤ data.length) (inside : lba + blocksFor size ≤ count.toNat) : Backed d' := by
  have shape := backed.sameShape stored enough inside
  have attached : d'.timeline.attached = true := by
    rw [stored.timeline, attached_logRequest, backed.attached]
  exact ⟨shape.blocks.trans backed.blocks, attached, shape.length.symm ▸ backed.room,
    shape.hfsPrefixBlocks.symm ▸ backed.behind, stored.mirror enough
      (.inl ((end_le inside).trans backed.room)) backed.mirror⟩

end Request

end ScsiDisk

end Pom68k.Disk
