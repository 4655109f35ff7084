import Pom68k.Disk.Archive
import Pom68k.Foundation.XorDigest
import Pom68k.Foundation.OnceLog

/-! # Disk images and their digest

An image is a table of blocks of one size. Its digest is the exclusive or of a keyed
hash of every block, so that a write changes it by the hashes of the block's old and
new content.
-/

namespace Pom68k.Disk

open Foundation

/-- The shape of a block medium, as the timeline and its journal record it. -/
structure Geometry where
  blockSize : Nat
  blocks : Nat
  positive : 0 < blockSize
  sizeWord : blockSize < 2 ^ 32
  blocksWord : blocks < 2 ^ 32

abbrev Image (g : Geometry) := Fin g.blocks → Block g.blockSize

/-- Blocks to be written, in order. -/
abbrev BlockMap (g : Geometry) := List (Fin g.blocks × Block g.blockSize)

/-- The finalizer of the splitmix generator. -/
def mix (x : BitVec 64) : BitVec 64 :=
  let x := (x ^^^ x >>> 30) * 0xbf58476d1ce4e5b9#64
  let x := (x ^^^ x >>> 27) * 0x94d049bb133111eb#64
  x ^^^ x >>> 31

/-- The loops of `blockHash`: whole words keyed by their offset, then single bytes. -/
def hashBytes (h : BitVec 64) (i : Nat) : List Byte → BitVec 64
  | b0 :: b1 :: b2 :: b3 :: b4 :: b5 :: b6 :: b7 :: rest =>
    let w := getBytes 64 [b0, b1, b2, b3, b4, b5, b6, b7]
    hashBytes ((h ^^^ mix (w + BitVec.ofNat 64 i)) * 0x9fb21c651e98df25#64) (i + 8) rest
  | rest => rest.foldl (fun h b => (h ^^^ b.setWidth 64) * 0x100000001b3#64) h

def blockHash (lba : Nat) (bytes : List Byte) : BitVec 64 :=
  mix (hashBytes (mix (0x9e3779b97f4a7c15#64 ^^^ BitVec.ofNat 64 lba)) 0 bytes)

variable {g : Geometry}

/-- The digest of the whole image. -/
def imageDigest (image : Image g) : BitVec 64 :=
  xorAll fun lba => blockHash lba (image lba).1

/-- The change of the digest when a block is replaced. -/
def swapDigest (image : Image g) (lba : Fin g.blocks) (next : Block g.blockSize) : BitVec 64 :=
  blockHash lba (image lba).1 ^^^ blockHash lba next.1

theorem imageDigest_update (image : Image g) (lba : Fin g.blocks) (next : Block g.blockSize) :
    imageDigest (Function.update image lba next) =
      imageDigest image ^^^ swapDigest image lba next := by
  have table : (fun b : Fin g.blocks => blockHash b (Function.update image lba next b).1) =
      Function.update (fun b : Fin g.blocks => blockHash b (image b).1) lba
        (blockHash lba next.1) := by
    funext b
    by_cases here : b = lba
    · subst here
      rw [Function.update_self, Function.update_self]
    · rw [Function.update_of_ne here, Function.update_of_ne here]
  rw [imageDigest, table, xorAll_update]
  rfl

/-- The digest an image has after writes to different blocks. -/
theorem foldl_swapDigest {writes : BlockMap g} (distinct : (writes.map Prod.fst).Nodup)
    (image : Image g) :
    writes.foldl (fun d w => d ^^^ swapDigest image w.1 w.2) (imageDigest image) =
      imageDigest (overlay writes image) := by
  -- the swaps are computed from the image before any write, which no later swap can tell
  have step : ∀ (front back : BlockMap g), writes = front ++ back →
      back.foldl (fun d w => d ^^^ swapDigest image w.1 w.2) (imageDigest (overlay front image)) =
        imageDigest (overlay writes image) := by
    intro front back
    induction back generalizing front with
    | nil =>
      intro split
      rw [split, List.append_nil]
      rfl
    | cons w rest ih =>
      intro split
      have untouched : w.1 ∉ front.map Prod.fst := by
        rw [split, List.map_append, List.nodup_append] at distinct
        exact fun member => distinct.2.2 _ member _ List.mem_cons_self rfl
      have swap : swapDigest image w.1 w.2 = swapDigest (overlay front image) w.1 w.2 := by
        rw [swapDigest, swapDigest, overlay_of_notMem untouched]
      have longer := ih (front ++ [w]) (by rw [split, List.append_assoc, List.singleton_append])
      rw [List.foldl_cons, swap, ← imageDigest_update]
      rwa [overlay_append, overlay_cons] at longer
  exact step [] writes rfl

end Pom68k.Disk
