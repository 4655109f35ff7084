import Mathlib.Data.BitVec

/-! # Digests kept by exclusive or

The digest of a table is the exclusive or of one word per entry, so it can be kept
up to date from the old and the new word of a changed entry alone.
-/

namespace Pom68k.Foundation

variable {w n : Nat}

/-- The exclusive or of the words of a table. -/
def xorAll (f : Fin n → BitVec w) : BitVec w :=
  (List.finRange n).foldl (fun d i => d ^^^ f i) 0#w

theorem foldl_xor_start (entries : List (Fin n)) (f : Fin n → BitVec w) (d : BitVec w) :
    entries.foldl (fun d i => d ^^^ f i) d = d ^^^ entries.foldl (fun d i => d ^^^ f i) 0#w := by
  induction entries generalizing d with
  | nil => simp
  | cons i rest ih =>
    rw [List.foldl_cons, List.foldl_cons, ih, ih (0#w ^^^ f i), BitVec.zero_xor, BitVec.xor_assoc]

theorem foldl_xor_update {entries : List (Fin n)} (distinct : entries.Nodup)
    (f : Fin n → BitVec w) (i : Fin n) (v : BitVec w) :
    entries.foldl (fun d j => d ^^^ Function.update f i v j) 0#w =
      entries.foldl (fun d j => d ^^^ f j) 0#w ^^^ (if i ∈ entries then f i ^^^ v else 0#w) := by
  induction entries with
  | nil => simp
  | cons j rest ih =>
    rw [List.nodup_cons] at distinct
    rw [List.foldl_cons, List.foldl_cons, foldl_xor_start, foldl_xor_start rest f,
      ih distinct.2, BitVec.zero_xor, BitVec.zero_xor]
    by_cases here : i = j
    · subst here
      rw [Function.update_self, if_neg distinct.1, if_pos List.mem_cons_self, BitVec.xor_zero]
      rw [BitVec.xor_comm (f i), BitVec.xor_assoc, ← BitVec.xor_assoc (f i), BitVec.xor_self,
        BitVec.zero_xor, BitVec.xor_comm]
    · rw [Function.update_of_ne (Ne.symm here)]
      simp only [List.mem_cons, here, false_or]
      rw [BitVec.xor_assoc]

/-- Changing one entry changes the digest by its old and its new word. -/
theorem xorAll_update (f : Fin n → BitVec w) (i : Fin n) (v : BitVec w) :
    xorAll (Function.update f i v) = xorAll f ^^^ (f i ^^^ v) := by
  unfold xorAll
  rw [foldl_xor_update (List.nodup_finRange n), if_pos (List.mem_finRange i)]

end Pom68k.Foundation
