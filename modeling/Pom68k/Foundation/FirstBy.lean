import Mathlib.Data.List.Nodup

/-! # The first of each kind

A list without the elements whose key was already there.
-/

namespace Pom68k.Foundation

variable {α κ : Type*} [DecidableEq κ] (key : α → κ)

/-- Takes one more element, unless one of its kind is there. -/
def keepFirst (kept : List α) (x : α) : List α :=
  if key x ∈ kept.map key then kept else kept ++ [x]

/-- The first element of each kind, in order. -/
def firstBy (l : List α) : List α := l.foldl (keepFirst key) []

variable {key} {l : List α}

theorem foldl_keepFirst_new (kept : List α) (new : ((kept ++ l).map key).Nodup) :
    l.foldl (keepFirst key) kept = kept ++ l := by
  induction l generalizing kept with
  | nil => rw [List.foldl_nil, List.append_nil]
  | cons x rest ih =>
    have absent : key x ∉ kept.map key := by
      rw [List.map_append, List.nodup_append] at new
      intro there
      exact new.2.2 _ there _ (List.mem_map_of_mem List.mem_cons_self) rfl
    have joined : kept ++ x :: rest = kept ++ [x] ++ rest := by simp
    rw [List.foldl_cons, keepFirst, if_neg absent, ih _ (joined ▸ new), ← joined]

theorem foldl_keepFirst_known {kept l : List α} (known : ∀ x ∈ l, key x ∈ kept.map key) :
    l.foldl (keepFirst key) kept = kept := by
  induction l with
  | nil => rfl
  | cons x rest ih =>
    rw [List.foldl_cons, keepFirst, if_pos (known x List.mem_cons_self)]
    exact ih (List.forall_mem_cons.mp known).2

/-- Seen twice is seen once. -/
theorem firstBy_twice (distinct : (l.map key).Nodup) : firstBy key (l ++ l) = l := by
  rw [firstBy, List.foldl_append, foldl_keepFirst_new [] distinct]
  exact foldl_keepFirst_known fun x inside => List.mem_map_of_mem inside

theorem nodup_firstBy (l : List α) : ((firstBy key l).map key).Nodup := by
  refine List.foldlRecOn (motive := fun kept : List α => (kept.map key).Nodup) l _ List.nodup_nil
    fun kept distinct x _ => ?_
  rw [keepFirst]
  split_ifs with there
  · exact distinct
  · rw [List.map_append]
    exact distinct.append (List.nodup_singleton _) (by simpa using there)

theorem mem_foldl_keepFirst {kept l : List α} {x : α}
    (inside : x ∈ l.foldl (keepFirst key) kept) : x ∈ kept ∨ x ∈ l := by
  induction l generalizing kept with
  | nil => exact .inl inside
  | cons y rest ih =>
    rcases ih inside with there | there
    · rw [keepFirst] at there
      split_ifs at there
      · exact .inl there
      · rcases List.mem_append.mp there with there | there
        · exact .inl there
        · rw [List.mem_singleton.mp there]
          exact .inr List.mem_cons_self
    · exact .inr (List.mem_cons_of_mem _ there)

theorem mem_of_mem_firstBy {x : α} (inside : x ∈ firstBy key l) : x ∈ l :=
  (mem_foldl_keepFirst inside).resolve_left List.not_mem_nil

end Pom68k.Foundation
