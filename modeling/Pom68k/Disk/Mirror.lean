import Pom68k.Disk.CrossProcess

/-! # The backing file follows the image

Guest and host write to a disk at any place and in any length. As long as the file takes
the bytes, it is the image without its prefix, and neither of them changes in a block that
no request names.
-/

namespace Pom68k.Disk

open Foundation

/-- A request to write, from the guest or from the host. -/
inductive DiskWrite where
  | guest (request : GuestWrite)
  | host (request : GuestWrite)

def DiskWrite.request : DiskWrite → GuestWrite
  | guest request => request
  | host request => request

/-- A block is one of those that a request names. -/
def DiskWrite.names (op : DiskWrite) (b : Nat) : Prop :=
  op.request.lba ≤ b ∧ b < op.request.lba + op.request.length

namespace ScsiDisk

variable {count : BitVec 32} {d : ScsiDisk count}

/-- `hostWrite`: whole blocks, at any place. -/
def hostWrite (d : ScsiDisk count) (lba : Nat) (data : List Byte) (length : Nat)
    (host : StoreHost) : ScsiDisk count :=
  d.store lba length (data.take (length * sectorSize)) host

def write (d : ScsiDisk count) : DiskWrite → ScsiDisk count
  | .guest op => d.guestWrite op.lba op.length op.data op.host
  | .host op => d.hostWrite op.lba op.data op.length op.host

/-- A disk that writes back, with the file behind its image. -/
structure Mirrored (d : ScsiDisk count) : Prop where
  attached : d.timeline.attached = true
  writeBack : d.writeBack = true
  file : d.image.drop (d.hfsPrefixBlocks.toNat * sectorSize) = d.file

/-- The disk is still mirrored, and its image is the same but for some blocks. -/
structure Follows (d d' : ScsiDisk count) (named : Nat → Prop) : Prop extends Mirrored d' where
  hfsPrefixBlocks : d'.hfsPrefixBlocks = d.hfsPrefixBlocks
  outside : ∀ i, ¬ named (i / sectorSize) → d'.image[i]? = d.image[i]?

section

variable (mirrored : d.Mirrored)
include mirrored

/-- A request, whatever its place and its length. -/
theorem Mirrored.store {host : StoreHost} (lands : host.file = none)
    (lba length : Nat) (data : List Byte) :
    Follows d (d.store lba length data host) fun b => lba ≤ b ∧ b < lba + length := by
  have stored := store_spec mirrored.attached lba length data host
  have enough := d.writable_le_data lba length data
  have short : d.writable lba length data ≤ length * sectorSize :=
    (Nat.min_le_left _ _).trans (Nat.min_le_left _ _)
  have fits : lba * sectorSize + d.writable lba length data ≤ d.image.length ∨
      d.writable lba length data = 0 := by
    unfold writable
    omega
  have on := (d.writeBack_store lands lba length data).trans mirrored.writeBack
  generalize d.writable lba length data = size at *
  refine ⟨⟨?_, on, stored.mirror enough fits (fun _ => mirrored.file) on⟩,
    stored.hfsPrefixBlocks, fun i other => ?_⟩
  · rw [stored.timeline, attached_logRequest, mirrored.attached]
  · rw [stored.image]
    rcases fits with fits | rfl
    · have long := List.length_take_of_le enough
      rw [getElem?_overwrite (by rwa [long]), if_neg]
      unfold sectorSize at *
      omega
    · rw [List.take_zero, overwrite_nil]

theorem Mirrored.write (op : DiskWrite)
    (lands : op.request.host.file = none) : Follows d (d.write op) op.names := by
  cases op with
  | host op => exact mirrored.store lands _ _ _
  | guest op =>
    rw [ScsiDisk.write, guestWrite]
    split
    · exact mirrored.store lands _ _ _
    · exact ⟨mirrored, rfl, fun _ _ => rfl⟩

theorem Mirrored.run (ops : List DiskWrite) (land : ∀ op ∈ ops, op.request.host.file = none) :
    Follows d (run ScsiDisk.write d ops) fun b => ∃ op ∈ ops, op.names b := by
  induction ops generalizing d with
  | nil => exact ⟨mirrored, rfl, fun _ _ => rfl⟩
  | cons op rest ih =>
    have first := mirrored.write op (land op List.mem_cons_self)
    have others := ih first.toMirrored (List.forall_mem_cons.mp land).2
    refine ⟨others.toMirrored, others.hfsPrefixBlocks.trans first.hfsPrefixBlocks,
      fun i outside => ?_⟩
    refine (others.outside i fun ⟨op', there, names⟩ => ?_).trans (first.outside i fun names => ?_)
    · exact outside ⟨op', List.mem_cons_of_mem _ there, names⟩
    · exact outside ⟨op, List.mem_cons_self, names⟩

/-- A block of the file is the block of the image behind the prefix. -/
theorem Mirrored.getElem?_file (i : Nat) :
    d.file[i]? = d.image[d.hfsPrefixBlocks.toNat * sectorSize + i]? := by
  rw [← mirrored.file, List.getElem?_drop]

end

theorem mirrored_openAs {host : ScsiHost} {file : List Byte} {undo : Option (List Byte)}
    {journal : JournalHost} (on : (openAs count host true file undo journal).writeBack = true) :
    (openAs count host true file undo journal).Mirrored := by
  have kept := (of_writeBack on).1
  refine ⟨(timeline_openAs on).1.attached, on, ?_⟩
  rw [hfsPrefixBlocks_openAs count host undo journal kept]
  exact (serve_eq kept host.candidates).2.2

/-- A disk is opened to write back, and then written by guest and host in any order, every
write to the file succeeding. Then the file is the image without its prefix, and a block
that no request names is as it was, in the image and in the file. -/
theorem file_follows_image (host : ScsiHost) (file : List Byte) (undo : Option (List Byte))
    (journal : JournalHost) (ops : List DiskWrite)
    (on : (openImage host true file undo journal).writeBack = true)
    (land : ∀ op ∈ ops, op.request.host.file = none) :
    let d := openImage host true file undo journal
    let d' := run write d ops
    let behind := d.hfsPrefixBlocks.toNat
    d'.hfsPrefixBlocks.toNat = behind ∧ d'.file = d'.image.drop (behind * sectorSize) ∧
      (∀ i, (∀ op ∈ ops, ¬ op.names (i / sectorSize)) → d'.image[i]? = d.image[i]?) ∧
      ∀ i, (∀ op ∈ ops, ¬ op.names (behind + i / sectorSize)) → d'.file[i]? = d.file[i]? := by
  intro d d' behind
  have opened : d.Mirrored := mirrored_openAs on
  have follows : Follows d d' _ := opened.run ops land
  have same : d'.hfsPrefixBlocks.toNat = behind := congrArg _ follows.hfsPrefixBlocks
  have outside (i : Nat) (others : ∀ op ∈ ops, ¬ op.names (i / sectorSize)) :
      d'.image[i]? = d.image[i]? :=
    follows.outside i fun ⟨op, there, names⟩ => others op there names
  refine ⟨same, same ▸ follows.file.symm, outside, fun i others => ?_⟩
  have place : (behind * sectorSize + i) / sectorSize = behind + i / sectorSize := by
    rw [Nat.add_comm, Nat.add_mul_div_right _ _ (by decide), Nat.add_comm]
  rw [follows.getElem?_file, opened.getElem?_file, same]
  exact outside _ (place ▸ others)

/-- A volume of two blocks: its prefix, its second block and a block behind it are written. -/
theorem file_follows_image_facade :
    let ops : List DiskWrite :=
      [.host (Sample.fill 1), .guest (Sample.fill 97), .host (Sample.fill 98)]
    let d := openImage Sample.facade true Sample.bare none {}
    d.writeBack = true ∧ d.hfsPrefixBlocks.toNat = 96 ∧
      (run write d ops).file = (run write d ops).image.drop (96 * sectorSize) := by
  intro ops d
  obtain ⟨-, on, low, -⟩ := Sample.served_bare.open none
  have follows := (file_follows_image Sample.facade Sample.bare none {} ops on (by decide)).2.1
  exact ⟨on, low, low ▸ follows⟩

end ScsiDisk

end Pom68k.Disk
