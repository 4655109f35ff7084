import Pom68k.Disk.TimelineFrame

/-! # The bytes of a disk state

The state of a disk is its geometry, the blocks written since attach with their
content, and the digest of the image. Reading it back gives these again.
-/

namespace Pom68k.Disk

open Foundation

variable {g : Geometry}

namespace Timeline

/-- The bytes of the state of an image, with the blocks written in some order. -/
def stateBytes (image : Image g) (order : List (Fin g.blocks)) : List Byte :=
  putBytes 4 (BitVec.ofNat 32 g.blockSize) ++ (putBytes 4 (BitVec.ofNat 32 g.blocks) ++
    (varintBytes (BitVec.ofNat 64 order.length) ++ (savedBlocks image order ++
      putBytes 8 (imageDigest image))))

theorem chunk_eq {t : Timeline g} {image : Image g} (attached : t.attached = true)
    (current : (t.freshen image).digest = imageDigest image) :
    t.chunk image = stateBytes image t.dirtyList := by
  rw [chunk, if_pos attached, current]
  rfl

variable {order : List (Fin g.blocks)}

/-- The blocks of a state are read back in their order. -/
theorem readBlocks_savedBlocks (image : Image g) (distinct : order.Nodup)
    (snap : OnceLog g.blocks (Block g.blockSize))
    (new : ∀ lba ∈ order, lba ∉ snap.entries.map Prod.fst) (rest : List Byte) (why : String) :
    ∃ snap' : OnceLog g.blocks (Block g.blockSize),
      readBlocks order.length snap ⟨savedBlocks image order ++ rest, true, why⟩ =
        (some snap', ⟨rest, true, why⟩) ∧
      snap'.entries = snap.entries ++ order.map fun lba => (lba, image lba) := by
  induction order generalizing snap with
  | nil => exact ⟨snap, rfl, (List.append_nil _).symm⟩
  | cons lba later ih =>
    rw [List.nodup_cons] at distinct
    have number : (BitVec.ofNat 32 lba.val).toNat = lba :=
      Nat.mod_eq_of_lt (lt_trans lba.isLt g.blocksWord)
    have unseen : ¬ snap.bits.test lba = true :=
      fun seen => new lba List.mem_cons_self ((snap.marked lba).mp seen)
    have entries := OnceLog.entries_add_of_notMem (e := (lba, image lba))
      (new lba List.mem_cons_self)
    have apart : ∀ lba' ∈ later, lba' ∉ (snap.add (lba, image lba)).entries.map Prod.fst := by
      intro lba' member there
      rcases OnceLog.mem_add.mp there with old | rfl
      · exact new lba' (List.mem_cons_of_mem _ member) old
      · exact distinct.1 member
    obtain ⟨snap', read, all⟩ := ih distinct.2 (snap.add (lba, image lba)) apart
    refine ⟨snap', ?_, ?_⟩
    · rw [savedBlocks, List.flatMap_cons, List.append_assoc, List.append_assoc,
        List.length_cons, readBlocks, Reader.word_putBytes _ (by decide)]
      dsimp only
      rw [Reader.bytes_append]
      simp only [number, lba.isLt, unseen]
      exact read
    · rw [all, entries, List.append_assoc, List.map_cons, List.singleton_append]

theorem length_le_blocks (distinct : order.Nodup) : order.length ≤ g.blocks := by
  have bound := List.Nodup.length_le_card distinct
  rwa [Fintype.card_fin] at bound

/-- A block size is not the one of a missing medium. -/
theorem blockSize_ne_zero (g : Geometry) : BitVec.ofNat 32 g.blockSize ≠ 0#32 := by
  have size : (BitVec.ofNat 32 g.blockSize).toNat = g.blockSize := Nat.mod_eq_of_lt g.sizeWord
  intro zero
  rw [zero] at size
  exact absurd size (Nat.ne_of_lt g.positive)

/-- A state that was written is read back, and only its bytes are taken. -/
theorem parse_stateBytes {t : Timeline g} (attached : t.attached = true) (image : Image g)
    (distinct : order.Nodup) (rest : List Byte) (why : String) :
    ∃ snap : OnceLog g.blocks (Block g.blockSize),
      t.parse ⟨stateBytes image order ++ rest, true, why⟩ =
        (.medium snap (imageDigest image), ⟨rest, true, why⟩) ∧
      snap.entries = order.map fun lba => (lba, image lba) := by
  have few := length_le_blocks distinct
  have count : (BitVec.ofNat 64 order.length).toNat = order.length :=
    Nat.mod_eq_of_lt (lt_of_le_of_lt few (lt_trans g.blocksWord (by decide)))
  have size : (BitVec.ofNat 32 g.blockSize).toNat = g.blockSize := Nat.mod_eq_of_lt g.sizeWord
  have blocks : (BitVec.ofNat 32 g.blocks).toNat = g.blocks := Nat.mod_eq_of_lt g.blocksWord
  have medium := blockSize_ne_zero g
  obtain ⟨snap, read, entries⟩ := readBlocks_savedBlocks image distinct .empty
    (fun _ _ => List.not_mem_nil) (putBytes 8 (imageDigest image) ++ rest) why
  refine ⟨snap, ?_, entries⟩
  rw [stateBytes]
  simp only [List.append_assoc]
  rw [parse, Reader.word_putBytes _ (by decide)]
  dsimp only
  rw [Reader.word_putBytes _ (by decide)]
  simp only [medium, attached, size, blocks, ne_eq, not_true]
  rw [parseBlocks, varint_varintBytes]
  simp only [Bool.true_eq_false, count, Nat.not_lt.mpr few, or_self, read]
  rw [Reader.word_putBytes _ (by decide)]
  simp only [Bool.true_eq_false, if_false]

/-- A state of an image of another size is refused. -/
theorem load_otherSize {g' : Geometry} {t : Timeline g'} (attached : t.attached = true)
    (current : Image g') (image : Image g) (order : List (Fin g.blocks)) (rest : List Byte)
    (why : String) (other : g.blocks ≠ g'.blocks) :
    (t.load current ⟨stateBytes image order ++ rest, true, why⟩).reader.ok = false := by
  have blocks : (BitVec.ofNat 32 g.blocks).toNat = g.blocks := Nat.mod_eq_of_lt g.blocksWord
  have medium := blockSize_ne_zero g
  rw [stateBytes]
  simp only [List.append_assoc]
  rw [load, parse, Reader.word_putBytes _ (by decide)]
  dsimp only
  rw [Reader.word_putBytes _ (by decide)]
  simp only [Bool.true_eq_false, if_false, medium, attached, blocks, ne_eq, other,
    not_false_iff, or_true, if_true, Reader.failWith]

end Timeline

end Pom68k.Disk
