import Pom68k.Foundation.Pieces

/-! # Patches

A string that pieces are written into, one after the other.
-/

namespace Pom68k.Foundation

variable {α : Type}

/-- The places of a piece. -/
def Piece.Covers (p : Piece α) (i : Nat) : Prop := p.off ≤ i ∧ i < p.off + p.content.length

/-- A piece that lies inside of a string of some length. -/
def Piece.Inside (size : Nat) (p : Piece α) : Prop := p.off + p.content.length ≤ size

/-- Pieces without a common place. -/
def Piece.Apart (p q : Piece α) : Prop := ∀ i, p.Covers i → ¬q.Covers i

def patched (bytes : List α) (pieces : List (Piece α)) : List α :=
  pieces.foldl (fun bytes p => overwrite bytes p.off p.content) bytes

theorem patched_cons (bytes : List α) (p : Piece α) (rest : List (Piece α)) :
    patched bytes (p :: rest) = patched (overwrite bytes p.off p.content) rest := rfl

theorem patched_append (bytes : List α) (ps qs : List (Piece α)) :
    patched bytes (ps ++ qs) = patched (patched bytes ps) qs :=
  List.foldl_append ..

variable {bytes : List α} {i base count size : Nat} {pieces : List (Piece α)}

theorem getElem?_patched_outside (room : ∀ p ∈ pieces, p.Inside bytes.length)
    (outside : ∀ p ∈ pieces, ¬p.Covers i) : (patched bytes pieces)[i]? = bytes[i]? := by
  induction pieces generalizing bytes with
  | nil => rfl
  | cons p rest ih =>
    have here := room p List.mem_cons_self
    have same : (overwrite bytes p.off p.content).length = bytes.length := length_overwrite here
    rw [patched_cons, ih]
    · exact (getElem?_overwrite here i).trans (if_neg (outside p List.mem_cons_self))
    · rw [same]
      exact (List.forall_mem_cons.mp room).2
    · exact (List.forall_mem_cons.mp outside).2

/-- A piece apart from all others stays as it was written. -/
theorem getElem?_patched_inside {p : Piece α} (room : ∀ p ∈ pieces, p.Inside bytes.length)
    (apart : pieces.Pairwise Piece.Apart) (there : p ∈ pieces) (covers : p.Covers i) :
    (patched bytes pieces)[i]? = p.content[i - p.off]? := by
  induction pieces generalizing bytes with
  | nil => cases there
  | cons q rest ih =>
    obtain ⟨first, others⟩ := List.pairwise_cons.mp apart
    have here := room q List.mem_cons_self
    have later : ∀ p ∈ rest, p.Inside (overwrite bytes q.off q.content).length := by
      rw [length_overwrite here]
      exact (List.forall_mem_cons.mp room).2
    rw [patched_cons]
    rcases List.mem_cons.mp there with rfl | there
    · rw [getElem?_patched_outside later fun r inside => first r inside i covers]
      exact (getElem?_overwrite here i).trans (if_pos covers)
    · exact ih later others there

/-! ## Units of one size -/

theorem unit_fits {total s : Nat} (inside : s < count)
    (room : (base + count) * size ≤ total) : (base + s) * size + size ≤ total := by
  rw [← Nat.add_one_mul]
  exact (Nat.mul_le_mul_right _ (by omega)).trans room

/-- The unit of a place, and the place in it. -/
theorem unit_of_place (start : base * size ≤ i) (stop : i < (base + count) * size) :
    0 < size ∧ i / size - base < count ∧ (base + (i / size - base)) * size + i % size = i := by
  have positive : 0 < size := by
    by_contra none
    rw [Nat.eq_zero_of_not_pos none] at stop
    exact Nat.not_lt_zero _ stop
  have low : base ≤ i / size := (Nat.le_div_iff_mul_le positive).mpr start
  have high : i / size < base + count := (Nat.div_lt_iff_lt_mul positive).mpr stop
  have place : base + (i / size - base) = i / size := by omega
  refine ⟨positive, by omega, ?_⟩
  rw [place, Nat.mul_comm, Nat.div_add_mod]

/-- A row of units, written in any order. -/
def units (size base : Nat) (content : Nat → List α) (order : List Nat) : List (Piece α) :=
  order.map fun s => ⟨(base + s) * size, content s⟩

theorem getElem?_patched_units {content : Nat → List α}
    {order : List Nat} (sizes : ∀ s < count, (content s).length = size)
    (perm : order.Perm (List.range count)) (room : (base + count) * size ≤ bytes.length)
    (i : Nat) :
    (patched bytes (units size base content order))[i]? =
      if base * size ≤ i ∧ i < (base + count) * size then (content (i / size - base))[i % size]?
      else bytes[i]? := by
  have known {s : Nat} : s ∈ order ↔ s < count := perm.mem_iff.trans List.mem_range
  have covers {s i : Nat} (inside : s < count) :
      (⟨(base + s) * size, content s⟩ : Piece α).Covers i ↔
        (base + s) * size ≤ i ∧ i < (base + s) * size + size := by
    rw [Piece.Covers, sizes s inside]
  have fits : ∀ p ∈ units size base content order, p.Inside bytes.length := by
    intro p there
    obtain ⟨s, inside, rfl⟩ := List.mem_map.mp there
    rw [Piece.Inside, sizes s (known.mp inside)]
    exact unit_fits (known.mp inside) room
  split_ifs with here
  · obtain ⟨positive, inside, place⟩ := unit_of_place here.1 here.2
    have apart : (units size base content order).Pairwise Piece.Apart := by
      have distinct : order.Nodup := perm.nodup_iff.mpr List.nodup_range
      rw [units, List.pairwise_map]
      refine distinct.imp_of_mem fun {s t} hs ht differ j first second => differ ?_
      have unit {u : Nat} (inside : u ∈ order)
          (covered : (⟨(base + u) * size, content u⟩ : Piece α).Covers j) :
          j / size = base + u := by
        obtain ⟨low, high⟩ := (covers (known.mp inside)).mp covered
        exact Nat.div_eq_of_lt_le low (by rwa [Nat.add_one_mul])
      have := unit hs first
      have := unit ht second
      omega
    have there : (⟨(base + (i / size - base)) * size, content (i / size - base)⟩ : Piece α) ∈
        units size base content order :=
      List.mem_map_of_mem (known.mpr inside)
    have small := Nat.mod_lt i positive
    rw [getElem?_patched_inside fits apart there ((covers inside).mpr (by omega))]
    exact congrArg (fun k => (content (i / size - base))[k]?)
      (show i - (base + (i / size - base)) * size = i % size by omega)
  · refine getElem?_patched_outside fits fun p there => ?_
    obtain ⟨s, inside, rfl⟩ := List.mem_map.mp there
    rw [covers (known.mp inside)]
    have : base * size ≤ (base + s) * size := Nat.mul_le_mul_right _ (by omega)
    have := unit_fits (known.mp inside) (Nat.le_refl ((base + count) * size))
    omega

end Pom68k.Foundation
