import Pom68k.Foundation.Overwrite

/-! # Checked access

Buffers whose accesses may fall outside: an access that does has no result, and neither
has a computation that makes one.
-/

namespace Pom68k.Foundation

variable {α : Type}

/-- The elements of a range. -/
def readAt (buffer : List α) (offset n : Nat) : Option (List α) :=
  if offset + n ≤ buffer.length then some ((buffer.drop offset).take n) else none

/-- A range replaced. -/
def writeAt (buffer : List α) (offset : Nat) (data : List α) : Option (List α) :=
  if offset + data.length ≤ buffer.length then some (overwrite buffer offset data) else none

variable {buffer : List α} {offset : Nat}

theorem getElem?_inside {i : Nat} (inside : i < buffer.length) : ∃ a, buffer[i]? = some a :=
  ⟨_, List.getElem?_eq_getElem inside⟩

/-- Accesses one after the other. -/
theorem bind_inside {β γ : Type} {x : Option β} {f : β → Option γ} (first : ∃ a, x = some a)
    (rest : ∀ a, x = some a → ∃ b, f a = some b) : ∃ b, (x >>= f) = some b := by
  obtain ⟨a, here⟩ := first
  rw [here]
  exact rest a here

theorem readAt_inside {n : Nat} (inside : offset + n ≤ buffer.length) :
    readAt buffer offset n = some ((buffer.drop offset).take n) :=
  if_pos inside

theorem readAt_isSome {n : Nat} : (readAt buffer offset n).isSome ↔ offset + n ≤ buffer.length := by
  rw [readAt]
  split_ifs with inside
  · exact iff_of_true rfl inside
  · exact iff_of_false Bool.false_ne_true inside

theorem writeAt_inside {data : List α} (inside : offset + data.length ≤ buffer.length) :
    writeAt buffer offset data = some (overwrite buffer offset data) :=
  if_pos inside

/-- A write inside keeps the length, and everything else as it was. -/
theorem writeAt_spec {data : List α} (inside : offset + data.length ≤ buffer.length) :
    ∃ written, writeAt buffer offset data = some written ∧ written.length = buffer.length ∧
      ∀ i, i < offset ∨ offset + data.length ≤ i → written[i]? = buffer[i]? := by
  refine ⟨_, writeAt_inside inside, length_overwrite inside, fun i outside => ?_⟩
  rw [getElem?_overwrite inside, if_neg (by omega)]

/-! ## The last entry of a list that answers to a key -/

/-- Splits a list at its last entry that meets a condition. -/
def splitLast (p : α → Bool) : List α → Option (List α × α × List α)
  | [] => none
  | x :: xs =>
    match splitLast p xs with
    | some (front, y, back) => some (x :: front, y, back)
    | none => if p x then some ([], x, xs) else none

theorem splitLast_none {p : α → Bool} {l : List α} (missing : splitLast p l = none) :
    ∀ x ∈ l, p x = false := by
  induction l with
  | nil => exact List.forall_mem_nil _
  | cons y ys ih =>
    rw [splitLast] at missing
    cases rest : splitLast p ys with
    | some found =>
      rw [rest] at missing
      cases missing
    | none =>
      rw [rest] at missing
      refine List.forall_mem_cons.mpr ⟨Bool.eq_false_iff.mpr fun meets => ?_, ih rest⟩
      rw [if_pos meets] at missing
      cases missing

theorem splitLast_some {p : α → Bool} {l front back : List α} {x : α}
    (found : splitLast p l = some (front, x, back)) : l = front ++ x :: back ∧ p x = true := by
  induction l generalizing front with
  | nil => cases found
  | cons y ys ih =>
    rw [splitLast] at found
    cases rest : splitLast p ys with
    | some inner =>
      rw [rest] at found
      cases found
      obtain ⟨same, meets⟩ := ih rest
      exact ⟨by rw [same, List.cons_append], meets⟩
    | none =>
      rw [rest] at found
      split_ifs at found with meets
      cases found
      exact ⟨rfl, meets⟩

end Pom68k.Foundation
