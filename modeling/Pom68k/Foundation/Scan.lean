import Mathlib.Logic.Function.Basic
import Mathlib.Data.List.Basic

/-! # Scans

Computations over buffers and tables that a program indexes with numbers it has read. A
scan ends with a result, or it refuses its input; or it shows a fault: an access outside,
or a loop that does not come to its end. A scan that ends has shown no fault.
-/

namespace Pom68k.Foundation

/-- How a scan stops without a result. -/
inductive Stop where
  | refused
  | outside
  | endless
deriving DecidableEq

abbrev Scan := Except Stop

namespace Scan

variable {α β : Type} {x : Scan α} {f : α → Scan β} {Q Q' : α → Prop} {R : β → Prop}
  {buffer : List α}

/-- The scan refuses its input, or ends with a result that meets a condition. -/
def Ends (x : Scan α) (Q : α → Prop) : Prop :=
  match x with
  | .ok a => Q a
  | .error stop => stop = .refused

def refuse : Scan α := .error .refused

/-- Goes on under a condition. -/
def check (condition : Prop) [Decidable condition] : Scan Unit :=
  if condition then .ok () else .error .refused

/-- The element at an index. -/
def read (buffer : List α) (i : Nat) : Scan α :=
  match buffer[i]? with
  | some a => .ok a
  | none => .error .outside

/-- The elements of a range. -/
def range (buffer : List α) (offset n : Nat) : Scan (List α) :=
  if offset + n ≤ buffer.length then .ok ((buffer.drop offset).take n) else .error .outside

@[simp] theorem ok_bind (a : α) (f : α → Scan β) : (Except.ok a >>= f) = f a := rfl

theorem check_of {condition : Prop} [Decidable condition] (holds : condition) :
    check condition = .ok () :=
  if_pos holds

theorem range_of {offset n : Nat} (inside : offset + n ≤ buffer.length) :
    range buffer offset n = .ok ((buffer.drop offset).take n) :=
  if_pos inside

@[simp] theorem ends_ok (a : α) : Ends (.ok a) Q ↔ Q a := Iff.rfl

@[simp] theorem ends_pure (a : α) : Ends (pure a) Q ↔ Q a := Iff.rfl

theorem ends_error {stop : Stop} : Ends (.error stop : Scan α) Q ↔ stop = .refused := Iff.rfl

@[simp] theorem ends_refuse : Ends refuse Q := rfl

theorem Ends.bind (first : x.Ends Q) (rest : ∀ a, Q a → (f a).Ends R) : Ends (x >>= f) R := by
  cases x with
  | error stop => exact first
  | ok a => exact rest a first

theorem ends_check {condition : Prop} [Decidable condition] {f : Unit → Scan β}
    (rest : condition → (f ()).Ends R) : Ends (check condition >>= f) R := by
  unfold check
  split
  next holds => exact rest holds
  next fails => exact rfl

theorem ends_of_ok {a : α} (done : x = .ok a) (holds : Q a) : x.Ends Q := by
  rwa [done]

theorem Ends.mono (before : x.Ends Q) (result : ∀ a, Q a → Q' a) : x.Ends Q' := by
  cases x with
  | error stop => exact before
  | ok a => exact result a before

theorem ends_read {i : Nat} (inside : i < buffer.length) (rest : (f buffer[i]).Ends R) :
    Ends (read buffer i >>= f) R := by
  unfold read
  rwa [List.getElem?_eq_getElem inside]

theorem ends_range {offset n : Nat} {f : List α → Scan β} (inside : offset + n ≤ buffer.length)
    (rest : (f ((buffer.drop offset).take n)).Ends R) : Ends (range buffer offset n >>= f) R := by
  rwa [range_of inside]

/-- A loop over the first numbers, by what holds after so many turns of it. -/
theorem foldlM_range {σ : Type} {f : σ → Nat → Scan σ} {P : Nat → σ → Prop} {n : Nat} {s : σ}
    (start : P 0 s) (turn : ∀ k < n, ∀ s, P k s → ∃ next, f s k = .ok next ∧ P (k + 1) next) :
    ∃ last, (List.range n).foldlM f s = .ok last ∧ P n last := by
  induction n with
  | zero => exact ⟨s, rfl, start⟩
  | succ n ih =>
    obtain ⟨before, ran, holds⟩ := ih fun k inside => turn k (by omega)
    obtain ⟨next, last, result⟩ := turn n (Nat.lt_succ_self n) before holds
    refine ⟨next, ?_, result⟩
    rw [List.range_succ, List.foldlM_append, ran, ok_bind, List.foldlM_cons, last]
    rfl

/-- The same for a loop that may refuse. -/
theorem ends_foldlM_range {σ : Type} {f : σ → Nat → Scan σ} {P : Nat → σ → Prop} {n : Nat}
    {s : σ} (start : P 0 s) (turn : ∀ k < n, ∀ s, P k s → (f s k).Ends (P (k + 1))) :
    Ends ((List.range n).foldlM f s) (P n) := by
  induction n with
  | zero => exact start
  | succ n ih =>
    rw [List.range_succ, List.foldlM_append]
    refine (ih fun k inside => turn k (by omega)).bind fun last holds => ?_
    exact (turn n (Nat.lt_succ_self n) last holds).bind fun _ result => result

-- From here on a scan is known by the rules above; a goal about a long one is not computed.
attribute [irreducible] Ends

end Scan

/-! ## Tables -/

/-- A table of some size, with a value at each index. -/
structure Table (n : Nat) (α : Type) where
  cell : Nat → α

namespace Table

variable {n : Nat} {α : Type} {t : Table n α} {i : Nat}

def read (t : Table n α) (i : Nat) : Scan α := if i < n then .ok (t.cell i) else .error .outside

def write (t : Table n α) (i : Nat) (v : α) : Scan (Table n α) :=
  if i < n then .ok ⟨Function.update t.cell i v⟩ else .error .outside

theorem read_inside (inside : i < n) : t.read i = .ok (t.cell i) := if_pos inside

theorem write_inside (inside : i < n) (v : α) : t.write i v = .ok ⟨Function.update t.cell i v⟩ :=
  if_pos inside

theorem write_bind {β : Type} (inside : i < n) (v : α) (f : Table n α → Scan β) :
    (t.write i v >>= f) = f ⟨Function.update t.cell i v⟩ := by
  rw [write_inside inside, Scan.ok_bind]

end Table

/-! ## Rows

A buffer written as rows of one size. -/

section Rows

variable {α : Type} {row : Nat → List α} {n m i : Nat}

theorem length_rows (size : ∀ i < n, (row i).length = m) :
    ((List.range n).flatMap row).length = n * m := by
  induction n with
  | zero => exact (Nat.zero_mul m).symm
  | succ n ih =>
    rw [List.range_succ, List.flatMap_append, List.length_append,
      ih fun i inside => size i (by omega), List.flatMap_singleton,
      size n (Nat.lt_succ_self n), Nat.succ_mul]

theorem row_of_rows (size : ∀ i < n, (row i).length = m) (inside : i < n) :
    (((List.range n).flatMap row).drop (i * m)).take m = row i := by
  induction n with
  | zero => exact absurd inside (Nat.not_lt_zero _)
  | succ n ih =>
    have before := length_rows (n := n) fun i inside => size i (by omega)
    rw [List.range_succ, List.flatMap_append, List.flatMap_singleton]
    rcases Nat.lt_succ_iff_lt_or_eq.mp inside with less | rfl
    · have room : i * m + m ≤ n * m := by
        rw [← Nat.succ_mul]
        exact Nat.mul_le_mul_right m less
      rw [List.drop_append_of_le_length (by omega),
        List.take_append_of_le_length (by rw [List.length_drop]; omega)]
      exact ih (fun i inside => size i (by omega)) less
    · rw [← before, List.drop_left, ← size i inside, List.take_length]

end Rows

end Pom68k.Foundation
