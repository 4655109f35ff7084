import Mathlib.Data.Bool.Count
import Mathlib.Data.List.GetD
import Pom68k.Foundation.Overwrite

/-! # Strings in pieces

A string that arrives in pieces, in any order and with overlaps, and its usual
representation: a buffer, and a mark for each place that has been written. The number of
marks alone says that nothing is missing only if none is set behind the end.
-/

namespace Pom68k.Foundation

variable {α : Type} {marks : List Bool}

/-- A piece with the place it belongs to. -/
structure Piece (α : Type) where
  off : Nat
  content : List α

/-- What a piece has for a place. -/
def Piece.get (p : Piece α) (i : Nat) : Option α :=
  if p.off ≤ i then p.content[i - p.off]? else none

/-- What was received last for a place. The newest piece stands first. -/
def latest : List (Piece α) → Nat → Option α
  | [], _ => none
  | p :: older, i => (p.get i).or (latest older i)

theorem Piece.isSome_get (p : Piece α) (i : Nat) :
    (p.get i).isSome ↔ p.off ≤ i ∧ i < p.off + p.content.length := by
  rw [Piece.get]
  split_ifs with start
  · rw [Option.isSome_iff_ne_none, ne_eq, List.getElem?_eq_none_iff]
    omega
  · exact iff_of_false Bool.false_ne_true fun inside => start inside.1

/-- A buffer with marks stands for some pieces. -/
structure Represents (data : List α) (marks : List Bool) (pieces : List (Piece α)) : Prop where
  sizes : data.length = marks.length
  marked : ∀ i, marks.getD i false = (latest pieces i).isSome
  stored : ∀ i a, latest pieces i = some a → data[i]? = some a

theorem represents_nil : Represents ([] : List α) [] [] where
  sizes := rfl
  marked _ := rfl
  stored _ _ received := by cases received

section

variable {data : List α} {pieces : List (Piece α)} (holds : Represents data marks pieces)
include holds

/-- The buffer may grow before a piece is written. -/
theorem Represents.grow (n : Nat) (fill : α) :
    Represents (data ++ List.replicate n fill) (marks ++ List.replicate n false) pieces where
  sizes := by
    rw [List.length_append, List.length_append, List.length_replicate, List.length_replicate,
      holds.sizes]
  marked i := by
    rw [← holds.marked]
    by_cases inside : i < marks.length
    · rw [List.getD_append _ _ _ _ inside]
    · rw [List.getD_append_right _ _ _ _ (Nat.not_lt.mp inside), List.getD_eq_getElem?_getD,
        List.getElem?_getD_replicate_default_eq, List.getD_eq_default _ _ (Nat.not_lt.mp inside)]
  stored i a received := by
    have there := holds.stored i a received
    rw [List.getElem?_append_left (List.getElem?_eq_some_iff.mp there).1, there]

/-- A piece is written over what was there. -/
theorem Represents.place {p : Piece α} (room : p.off + p.content.length ≤ data.length) :
    Represents (overwrite data p.off p.content)
      (overwrite marks p.off (List.replicate p.content.length true)) (p :: pieces) := by
  have room' : p.off + (List.replicate p.content.length true).length ≤ marks.length := by
    rwa [List.length_replicate, ← holds.sizes]
  refine ⟨?_, fun i => ?_, fun i a received => ?_⟩
  · rw [length_overwrite room, length_overwrite room', holds.sizes]
  · rw [List.getD_eq_getElem?_getD, getElem?_overwrite room', List.length_replicate, latest,
      Option.isSome_or]
    split_ifs with inside
    · rw [List.getElem?_replicate, if_pos (by omega), (p.isSome_get i).mpr inside]
      rfl
    · rw [← List.getD_eq_getElem?_getD, holds.marked,
        Bool.eq_false_iff.mpr (mt (p.isSome_get i).mp inside), Bool.false_or]
  · rw [getElem?_overwrite room]
    rw [latest] at received
    split_ifs with inside
    · have here := (p.isSome_get i).mpr inside
      rwa [Option.or_of_isSome here, Piece.get, if_pos inside.1] at received
    · have absent : p.get i = none :=
        Option.not_isSome_iff_eq_none.mp (mt (p.isSome_get i).mp inside)
      rw [absent] at received
      exact holds.stored i a received

end

/-! ## Counting the marks -/

theorem count_overwrite_true {off n : Nat} (room : off + n ≤ marks.length) :
    (overwrite marks off (List.replicate n true)).count true =
      marks.count true + ((marks.drop off).take n).count false := by
  have split : marks = marks.take off ++ ((marks.drop off).take n ++ marks.drop (off + n)) := by
    rw [← List.drop_drop, List.take_append_drop, List.take_append_drop]
  have whole : ((marks.drop off).take n).count true + ((marks.drop off).take n).count false = n := by
    rw [List.count_true_add_count_false, List.length_take, List.length_drop]
    omega
  have count := congrArg (List.count true) split
  rw [List.count_append, List.count_append] at count
  rw [overwrite, List.length_replicate, List.count_append, List.count_append,
    List.count_replicate_self]
  omega

/-- With as many marks as places, nothing is missing just if no mark is set behind them. -/
theorem full_iff_none_behind {n : Nat} (count : marks.count true = n) (size : n ≤ marks.length) :
    (∀ i, i < n → marks.getD i false = true) ↔ ∀ i, n ≤ i → marks.getD i false = false := by
  have parts : (marks.take n).count true + (marks.drop n).count true = n := by
    rw [← List.count_append, List.take_append_drop, count]
  have front : (marks.take n).length = n := by rw [List.length_take, Nat.min_eq_left size]
  have full : (∀ i, i < n → marks.getD i false = true) ↔ (marks.take n).count true = n := by
    nth_rewrite 3 [← front]
    rw [List.count_eq_length]
    constructor
    · intro all b inside
      obtain ⟨i, low, rfl⟩ := List.mem_iff_getElem.mp inside
      have here := all i (by omega)
      rw [List.getD_eq_getElem?_getD, List.getElem?_eq_getElem (by omega), Option.getD_some] at here
      rw [List.getElem_take, here]
    · intro all i low
      have here := all _ (List.getElem_mem (n := i) (by omega))
      rw [List.getElem_take] at here
      rw [List.getD_eq_getElem?_getD, List.getElem?_eq_getElem (by omega), Option.getD_some, ← here]
  have clear : (∀ i, n ≤ i → marks.getD i false = false) ↔ (marks.drop n).count true = 0 := by
    rw [List.count_eq_zero]
    constructor
    · intro none inside
      obtain ⟨i, low, here⟩ := List.mem_iff_getElem.mp inside
      have behind := none (n + i) (by omega)
      rw [List.getElem_drop] at here
      rw [List.length_drop] at low
      rw [List.getD_eq_getElem?_getD, List.getElem?_eq_getElem (by omega), here]
        at behind
      cases behind
    · intro none i behind
      refine Bool.eq_false_iff.mpr fun here => none ?_
      rw [List.getD_eq_getElem?_getD] at here
      have inside : i < marks.length := by
        by_contra outside
        rw [List.getElem?_eq_none (by omega)] at here
        cases here
      rw [List.getElem?_eq_getElem inside] at here
      refine List.mem_iff_getElem.mpr ⟨i - n, by rw [List.length_drop]; omega, ?_⟩
      rw [List.getElem_drop, ← here]
      congr 1
      omega
  rw [full, clear]
  omega

end Pom68k.Foundation
