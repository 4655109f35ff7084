import Mathlib.Data.BitVec

/-! # Unions of bit masks

A summary byte kept beside a collection is often the union of one mask per
member. The union of a list of masks is characterised bit by bit: a bit of the
union is set exactly when some member sets it, so two lists whose members set
the same bits have the same union whatever their order and multiplicity.
-/

namespace Pom68k.Foundation

variable {w : Nat}

/-- The union of a list of masks, accumulated from the left. -/
def orAll (masks : List (BitVec w)) : BitVec w :=
  masks.foldl (· ||| ·) 0#w

variable (masks : List (BitVec w)) {first second : BitVec w}

theorem foldl_or_start (start : BitVec w) :
    masks.foldl (· ||| ·) start = start ||| orAll masks := by
  induction masks generalizing start with
  | nil => exact BitVec.or_zero.symm
  | cons mask rest ih =>
    unfold orAll
    rw [List.foldl_cons, List.foldl_cons, ih, ih (0#w ||| mask), BitVec.zero_or, BitVec.or_assoc]

@[simp] theorem orAll_cons (mask : BitVec w) (rest : List (BitVec w)) :
    orAll (mask :: rest) = mask ||| orAll rest := by
  change rest.foldl (· ||| ·) (0#w ||| mask) = _
  rw [foldl_or_start, BitVec.zero_or]

/-- A bit of the union is set exactly when some mask of the list sets it. -/
theorem getLsbD_orAll (i : Nat) :
    (orAll masks).getLsbD i = true ↔ ∃ mask ∈ masks, mask.getLsbD i = true := by
  induction masks with
  | nil => simp [orAll]
  | cons mask rest ih =>
    rw [orAll_cons, BitVec.getLsbD_or, Bool.or_eq_true, ih]
    simp only [List.mem_cons, exists_eq_or_imp]

/-- A mask is nonzero exactly when one of its bits is set. -/
theorem ne_zero_iff_getLsbD (mask : BitVec w) : mask ≠ 0#w ↔ ∃ i, mask.getLsbD i = true := by
  constructor
  · intro nonzero
    by_contra none
    apply nonzero
    apply BitVec.eq_of_getLsbD_eq
    intro i _
    have clear : ¬ mask.getLsbD i = true := fun set => none ⟨i, set⟩
    simpa using clear
  · rintro ⟨i, set⟩ rfl
    simp at set

/-- The union is nonzero exactly when some mask of the list is. -/
theorem orAll_ne_zero_iff : orAll masks ≠ 0#w ↔ ∃ mask ∈ masks, mask ≠ 0#w := by
  simp only [ne_zero_iff_getLsbD, getLsbD_orAll]
  constructor
  · rintro ⟨i, mask, member, set⟩
    exact ⟨mask, member, i, set⟩
  · rintro ⟨mask, member, i, set⟩
    exact ⟨i, mask, member, set⟩

theorem or_ne_zero_left (nonzero : first ≠ 0#w) : first ||| second ≠ 0#w := by
  rw [ne_zero_iff_getLsbD] at nonzero ⊢
  obtain ⟨i, set⟩ := nonzero
  exact ⟨i, by rw [BitVec.getLsbD_or, set, Bool.true_or]⟩

theorem or_ne_zero_right (nonzero : second ≠ 0#w) : first ||| second ≠ 0#w := by
  rw [BitVec.or_comm]
  exact or_ne_zero_left nonzero

/-- A mask collected by setting the bits of the list that pass a test. -/
theorem getLsbD_foldl_setBit (test : Nat → Prop) [DecidablePred test] (bits : List Nat)
    (start : BitVec w) {j : Nat} (bound : j < w) :
    (bits.foldl (fun mask i => if test i then mask ||| (1#w <<< i) else mask) start).getLsbD j =
        true ↔ start.getLsbD j = true ∨ j ∈ bits ∧ test j := by
  induction bits generalizing start with
  | nil => simp
  | cons i rest ih =>
    rw [List.foldl_cons, ih]
    by_cases passes : test i
    · rw [if_pos passes, ← BitVec.twoPow_eq, BitVec.getLsbD_or]
      by_cases same : j = i
      · subst same
        simp [bound, passes]
      · simp [same, Ne.symm same]
    · rw [if_neg passes]
      by_cases same : j = i
      · subst same
        simp [passes]
      · simp [same]

end Pom68k.Foundation
