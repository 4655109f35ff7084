import Mathlib.Data.BitVec

/-! # Bitmaps

A set of numbers kept as words of sixty-four bits.
-/

namespace Pom68k.Foundation

/-- The words of a bitmap. -/
abbrev Bitmap := Nat → BitVec 64

namespace Bitmap

def empty : Bitmap := fun _ => 0#64

def test (bits : Bitmap) (i : Nat) : Bool := (bits (i / 64)).getLsbD (i % 64)

def set (bits : Bitmap) (i : Nat) : Bitmap :=
  Function.update bits (i / 64) (bits (i / 64) ||| 1#64 <<< (i % 64))

@[simp] theorem test_empty (i : Nat) : empty.test i = false := by
  simp [empty, test]

@[simp] theorem test_set (bits : Bitmap) (i j : Nat) :
    (bits.set i).test j = (decide (i = j) || bits.test j) := by
  unfold test set
  by_cases word : j / 64 = i / 64
  · rw [word, Function.update_self, BitVec.getLsbD_or, BitVec.getLsbD_shiftLeft]
    have inWord : j % 64 < 64 := Nat.mod_lt _ (by decide)
    by_cases same : i = j
    · subst same
      simp [inWord]
    · simp only [same]
      by_cases below : j % 64 < i % 64
      · simp [below]
      · have above : ¬ j % 64 - i % 64 = 0 := by omega
        simp [above]
  · have apart : ¬ i = j := fun same => word (by rw [same])
    rw [Function.update_of_ne word]
    simp [apart]

end Bitmap

end Pom68k.Foundation
