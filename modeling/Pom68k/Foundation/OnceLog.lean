import Pom68k.Foundation.Bitmap
import Pom68k.Foundation.UndoLog

/-! # Logs with one entry per key

A log of numbered entries with a bitmap of the numbers it has. An entry is added
only if its number is not in the bitmap, so the first entry of each number stays.
-/

namespace Pom68k.Foundation

/-- Entries in the order they were added, and the bitmap of their numbers. -/
structure OnceLog (n : Nat) (β : Type) where
  bits : Bitmap
  entries : List (Fin n × β)
  distinct : (entries.map Prod.fst).Nodup
  marked : ∀ i : Fin n, bits.test i = true ↔ i ∈ entries.map Prod.fst

namespace OnceLog

variable {n : Nat} {β : Type}

def empty : OnceLog n β where
  bits := .empty
  entries := []
  distinct := List.nodup_nil
  marked i := by simp

/-- Adds an entry unless its number is there already. -/
def add (log : OnceLog n β) (e : Fin n × β) : OnceLog n β :=
  if fresh : log.bits.test e.1 = true then log
  else
    { bits := log.bits.set e.1
      entries := log.entries ++ [e]
      distinct := by
        rw [List.map_append, List.nodup_append]
        refine ⟨log.distinct, List.nodup_singleton _, fun i old i' new same => fresh ?_⟩
        rw [List.map_singleton, List.mem_singleton] at new
        rw [log.marked, ← new, ← same]
        exact old
      marked := fun i => by
        rw [Bitmap.test_set, Bool.or_eq_true, decide_eq_true_iff, log.marked, List.map_append,
          List.mem_append, List.map_singleton, List.mem_singleton, Fin.val_inj, or_comm, eq_comm] }

/-- Adds entries one after another. -/
def addAll (log : OnceLog n β) (es : List (Fin n × β)) : OnceLog n β :=
  es.foldl add log

@[simp] theorem entries_empty : (empty : OnceLog n β).entries = [] := rfl

variable {e : Fin n × β} {log : OnceLog n β}

theorem add_of_mem (there : e.1 ∈ log.entries.map Prod.fst) : log.add e = log :=
  dif_pos ((log.marked e.1).mpr there)

theorem entries_add_of_notMem
    (new : e.1 ∉ log.entries.map Prod.fst) : (log.add e).entries = log.entries ++ [e] := by
  rw [add, dif_neg fun marked => new ((log.marked e.1).mp marked)]

theorem mem_add {i : Fin n} :
    i ∈ (log.add e).entries.map Prod.fst ↔ i ∈ log.entries.map Prod.fst ∨ i = e.1 := by
  by_cases there : e.1 ∈ log.entries.map Prod.fst
  · rw [add_of_mem there]
    exact ⟨Or.inl, fun either => either.elim id fun same => same ▸ there⟩
  · rw [entries_add_of_notMem there, List.map_append, List.mem_append, List.map_singleton,
      List.mem_singleton]

/-- An entry of the grown log is an old one or the one that was added. -/
theorem of_mem_add {e' : Fin n × β} (member : e' ∈ (log.add e).entries) :
    e' ∈ log.entries ∨ e' = e := by
  by_cases there : e.1 ∈ log.entries.map Prod.fst
  · rw [add_of_mem there] at member
    exact .inl member
  · rwa [entries_add_of_notMem there, List.mem_append, List.mem_singleton] at member

variable (log)

/-- Of the added entries the log takes the first of each number it did not have. -/
theorem entries_addAll (es : List (Fin n × β)) :
    (log.addAll es).entries =
      log.entries ++ (firsts es).filter fun e => e.1 ∉ log.entries.map Prod.fst := by
  induction es generalizing log with
  | nil => simp [addAll, firsts]
  | cons e rest ih =>
    rw [addAll, List.foldl_cons, ← addAll, ih, firsts]
    by_cases there : e.1 ∈ log.entries.map Prod.fst
    · rw [add_of_mem there, List.filter_cons_of_neg (by simpa using there), List.filter_filter]
      congr 1
      refine List.filter_congr fun e' _ => ?_
      by_cases same : e'.1 = e.1
      · simp [same, there]
      · simp [same]
    · rw [List.filter_cons_of_pos (by simpa using there), entries_add_of_notMem there,
        List.append_assoc, List.singleton_append, List.filter_filter]
      congr 2
      refine List.filter_congr fun e' _ => ?_
      by_cases same : e'.1 = e.1 <;> simp [same]

theorem entries_addAll_empty (es : List (Fin n × β)) :
    ((empty : OnceLog n β).addAll es).entries = firsts es := by
  rw [entries_addAll, entries_empty]
  exact List.filter_eq_self.mpr fun e _ => by simp

end OnceLog

end Pom68k.Foundation
