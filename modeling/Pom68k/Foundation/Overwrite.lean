import Mathlib.Data.List.TakeDrop

/-! # Overwriting a part of a byte string

A write into the middle of a list, seen through the elements, through a suffix and
through slices of one size.
-/

namespace Pom68k.Foundation

variable {α : Type}

/-- Replaces the elements from an offset on. -/
def overwrite (bytes : List α) (offset : Nat) (data : List α) : List α :=
  bytes.take offset ++ (data ++ bytes.drop (offset + data.length))

/-- A slice of a fixed size, filled up behind the end. -/
def slice (n : Nat) (fill : α) (bytes : List α) (k : Nat) : List α :=
  (bytes.drop (n * k)).takeD n fill

@[simp] theorem length_slice (n : Nat) (fill : α) (bytes : List α) (k : Nat) :
    (slice n fill bytes k).length = n :=
  List.takeD_length ..

variable {bytes data : List α} {offset n : Nat} {fill : α}

section

variable (room : offset + data.length ≤ bytes.length)
include room

theorem length_overwrite : (overwrite bytes offset data).length = bytes.length := by
  rw [overwrite, List.length_append, List.length_append, List.length_take, List.length_drop]
  omega

/-- Outside the written range nothing changes; inside it are the written elements. -/
theorem getElem?_overwrite (i : Nat) :
    (overwrite bytes offset data)[i]? =
      if offset ≤ i ∧ i < offset + data.length then data[i - offset]? else bytes[i]? := by
  have front : (bytes.take offset).length = offset := by
    rw [List.length_take]
    omega
  rw [overwrite]
  by_cases before : i < offset
  · rw [List.getElem?_append_left (by omega), List.getElem?_take_of_lt before, if_neg (by omega)]
  rw [List.getElem?_append_right (by omega), front]
  by_cases inside : i - offset < data.length
  · rw [List.getElem?_append_left inside, if_pos (by omega)]
  · rw [List.getElem?_append_right (by omega), List.getElem?_drop, if_neg (by omega)]
    congr 1
    omega

/-- What a suffix that starts inside or before the written range sees of a write. -/
theorem drop_overwrite (start : n ≤ offset + data.length) :
    (overwrite bytes offset data).drop n =
      overwrite (bytes.drop n) (offset - n) (data.drop (n - offset)) := by
  have room' : offset - n + (data.drop (n - offset)).length ≤ (bytes.drop n).length := by
    rw [List.length_drop, List.length_drop]
    omega
  refine List.ext_getElem? fun i => ?_
  rw [List.getElem?_drop, getElem?_overwrite room, getElem?_overwrite room', List.length_drop,
    List.getElem?_drop, List.getElem?_drop]
  by_cases inside : offset ≤ n + i ∧ n + i < offset + data.length
  · rw [if_pos inside, if_pos (by omega)]
    congr 1
    omega
  · rw [if_neg inside, if_neg (by omega)]

/-- A write behind which a suffix starts is not seen. -/
theorem drop_overwrite_of_le (behind : offset + data.length ≤ n) :
    (overwrite bytes offset data).drop n = bytes.drop n := by
  refine List.ext_getElem? fun i => ?_
  rw [List.getElem?_drop, getElem?_overwrite room, List.getElem?_drop, if_neg (by omega)]

end

theorem overwrite_middle {first part last : List α} (size : data.length = part.length) :
    overwrite (first ++ (part ++ last)) first.length data = first ++ (data ++ last) := by
  rw [overwrite, List.take_left, size, ← List.length_append, ← List.append_assoc first part,
    List.drop_left]

theorem overwrite_nil (bytes : List α) (offset : Nat) : overwrite bytes offset [] = bytes := by
  rw [overwrite, List.nil_append, List.length_nil, Nat.add_zero, List.take_append_drop]

/-- A write changes nothing just if the bytes are there already. -/
theorem overwrite_eq_self_iff (room : offset + data.length ≤ bytes.length) :
    overwrite bytes offset data = bytes ↔ (bytes.drop offset).take data.length = data := by
  constructor
  · intro same
    have seen := congrArg (fun l => (l.drop offset).take data.length) same
    rw [← seen, drop_overwrite room (Nat.le_add_right ..), overwrite, Nat.sub_self, List.take_zero,
      List.nil_append, List.drop_zero, List.take_left]
  · intro there
    rw [overwrite, ← List.drop_drop]
    nth_rewrite 1 [← there]
    rw [List.take_append_drop, List.take_append_drop]

theorem getElem?_takeD {j : Nat} (inside : j < n) (l : List α) (fill : α) :
    (l.takeD n fill)[j]? = some (l.getD j fill) := by
  induction n generalizing l j with
  | zero => cases inside
  | succ n ih =>
    rw [List.takeD_succ]
    cases j with
    | zero => cases l <;> rfl
    | succ j =>
      rw [List.getElem?_cons_succ, ih (Nat.lt_of_succ_lt_succ inside)]
      cases l <;> rfl

theorem getElem?_slice {j : Nat} (inside : j < n) (fill : α) (bytes : List α) (k : Nat) :
    (slice n fill bytes k)[j]? = some (bytes.getD (n * k + j) fill) := by
  rw [slice, getElem?_takeD inside, List.getD_eq_getElem?_getD, List.getElem?_drop,
    List.getD_eq_getElem?_getD]

/-- A list of the size of a slice is the slice if its elements are. -/
theorem slice_eq {part : List α} {k : Nat} (size : part.length = n)
    (same : ∀ j, j < n → part[j]? = some (bytes.getD (n * k + j) fill)) :
    slice n fill bytes k = part := by
  refine List.ext_getElem? fun j => ?_
  by_cases inside : j < n
  · rw [getElem?_slice inside, same j inside]
  · rw [List.getElem?_eq_none (by rw [length_slice]; omega), List.getElem?_eq_none (by omega)]

/-- Slices agree when the elements do. -/
theorem slice_congr {bytes' : List α} {k k' : Nat}
    (same : ∀ j, j < n → bytes[n * k + j]? = bytes'[n * k' + j]?) :
    slice n fill bytes k = slice n fill bytes' k' := by
  refine slice_eq (length_slice ..) fun j inside => ?_
  rw [getElem?_slice inside, List.getD_eq_getElem?_getD, List.getD_eq_getElem?_getD, same j inside]

/-- Byte strings of one length with the same slices and the same rest are equal. -/
theorem eq_of_slices {count : Nat} {bytes' : List α} (positive : 0 < n)
    (size : bytes.length = bytes'.length) (room : n * count ≤ bytes.length)
    (slices : ∀ k, k < count → slice n fill bytes k = slice n fill bytes' k)
    (rest : bytes.drop (n * count) = bytes'.drop (n * count)) : bytes = bytes' := by
  refine List.ext_getElem? fun i => ?_
  by_cases inside : i < n * count
  · have position : n * (i / n) + i % n = i := Nat.div_add_mod i n
    have low : i % n < n := Nat.mod_lt i positive
    have which : i / n < count := Nat.div_lt_of_lt_mul inside
    have same := congrArg (fun l => l[i % n]?) (slices (i / n) which)
    simp only [getElem?_slice low, position, Option.some.injEq] at same
    rw [List.getD_eq_getElem?_getD, List.getD_eq_getElem?_getD,
      List.getElem?_eq_getElem (by omega), List.getElem?_eq_getElem (by omega)] at same
    rw [List.getElem?_eq_getElem (by omega), List.getElem?_eq_getElem (by omega)]
    exact congrArg some same
  · have same := congrArg (fun l => l[i - n * count]?) rest
    simp only [List.getElem?_drop] at same
    rwa [Nat.add_sub_cancel' (Nat.not_lt.mp inside)] at same

end Pom68k.Foundation
