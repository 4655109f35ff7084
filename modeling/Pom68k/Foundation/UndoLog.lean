import Mathlib.Data.List.Nodup
import Mathlib.Logic.Function.Basic

/-! # Undo logs

A store is a function from keys to values. Before a key is overwritten its value
may be appended to a log; undoing the log from its end restores the store as it
was when the log was empty. A key that is already in the log need not be logged
again, because the earlier entry is undone last.
-/

namespace Pom68k.Foundation

variable {κ β : Type} [DecidableEq κ]

/-- Performs writes in order. -/
def overlay (writes : List (κ × β)) (f : κ → β) : κ → β :=
  writes.foldl (fun f w => Function.update f w.1 w.2) f

/-- Undoes a log, the last entry first. -/
def rewind (log : List (κ × β)) (f : κ → β) : κ → β :=
  log.foldr (fun e f => Function.update f e.1 e.2) f

/-- The first entry of each key. -/
@[grind =] def firsts : List (κ × β) → List (κ × β)
  | [] => []
  | e :: rest => e :: (firsts rest).filter fun e' => e'.1 ≠ e.1

@[simp] theorem rewind_nil (f : κ → β) : rewind [] f = f := rfl

@[simp] theorem rewind_cons (e : κ × β) (log : List (κ × β)) (f : κ → β) :
    rewind (e :: log) f = Function.update (rewind log f) e.1 e.2 := rfl

@[simp] theorem overlay_cons (w : κ × β) (writes : List (κ × β)) (f : κ → β) :
    overlay (w :: writes) f = overlay writes (Function.update f w.1 w.2) := rfl

theorem rewind_append (log log' : List (κ × β)) (f : κ → β) :
    rewind (log ++ log') f = rewind log (rewind log' f) :=
  List.foldr_append

variable {k : κ} {log writes : List (κ × β)}

/-- A key outside the log keeps its value. -/
theorem rewind_of_notMem (unlogged : k ∉ log.map Prod.fst) (f : κ → β) : rewind log f k = f k := by
  induction log with
  | nil => rfl
  | cons e rest ih =>
    rw [List.map_cons, List.mem_cons, not_or] at unlogged
    rw [rewind_cons, Function.update_of_ne unlogged.1]
    exact ih unlogged.2

theorem overlay_of_notMem
    (unwritten : k ∉ writes.map Prod.fst) (f : κ → β) : overlay writes f k = f k := by
  induction writes generalizing f with
  | nil => rfl
  | cons w rest ih =>
    rw [List.map_cons, List.mem_cons, not_or] at unwritten
    rw [overlay_cons, ih unwritten.2, Function.update_of_ne unwritten.1]

/-- What the store holds for a logged key does not matter. -/
theorem rewind_of_mem (logged : k ∈ log.map Prod.fst)
    (f f' : κ → β) : rewind log f k = rewind log f' k := by
  induction log with
  | nil => cases logged
  | cons e rest ih =>
    rw [rewind_cons, rewind_cons]
    by_cases here : k = e.1
    · rw [here, Function.update_self, Function.update_self]
    · rw [Function.update_of_ne here, Function.update_of_ne here]
      exact ih ((List.mem_cons.mp logged).resolve_left here)

theorem rewind_congr {f f' : κ → β}
    (same : ∀ k, k ∉ log.map Prod.fst → f k = f' k) : rewind log f = rewind log f' := by
  funext k
  by_cases logged : k ∈ log.map Prod.fst
  · exact rewind_of_mem logged f f'
  · rw [rewind_of_notMem logged, rewind_of_notMem logged]
    exact same k logged

/-- A write to a logged key is undone by the log as it is. -/
theorem rewind_update (logged : k ∈ log.map Prod.fst) (f : κ → β)
    (v : β) : rewind log (Function.update f k v) = rewind log f := by
  refine rewind_congr fun k' unlogged => Function.update_of_ne ?_ _ _
  rintro rfl
  exact unlogged logged

/-- A write is undone once the old value was appended to the log. -/
theorem rewind_append_update (log : List (κ × β)) (k : κ) (f : κ → β) (v : β) :
    rewind (log ++ [(k, f k)]) (Function.update f k v) = rewind log f := by
  rw [rewind_append, rewind_cons, rewind_nil, Function.update_idem, Function.update_eq_self]

/-- A value that was logged but not overwritten is put back where it is. -/
theorem rewind_append_self (log : List (κ × β)) (k : κ) (f : κ → β) :
    rewind (log ++ [(k, f k)]) f = rewind log f := by
  have undone := rewind_append_update log k f (f k)
  rwa [Function.update_eq_self] at undone

theorem mem_firsts : k ∈ (firsts log).map Prod.fst ↔ k ∈ log.map Prod.fst := by
  induction log with
  | nil => exact Iff.rfl
  | cons e rest ih =>
    rw [firsts, List.map_cons, List.map_cons, List.mem_cons, List.mem_cons, ← ih]
    by_cases here : k = e.1
    · simp [here]
    simp only [here, false_or, List.mem_map, List.mem_filter, decide_not,
      Bool.not_eq_true', decide_eq_false_iff_not]
    constructor
    · rintro ⟨e', ⟨member, _⟩, same⟩
      exact ⟨e', member, same⟩
    · rintro ⟨e', member, same⟩
      exact ⟨e', ⟨member, fun repeated => here (same ▸ repeated)⟩, same⟩

theorem firsts_subset {e : κ × β} (member : e ∈ firsts log) : e ∈ log := by
  induction log with
  | nil => exact member
  | cons e' rest ih =>
    rw [firsts, List.mem_cons] at member
    rcases member with rfl | later
    · exact List.mem_cons_self
    · exact List.mem_cons_of_mem _ (ih (List.mem_of_mem_filter later))

theorem nodup_firsts (log : List (κ × β)) : ((firsts log).map Prod.fst).Nodup := by
  induction log with
  | nil => exact List.nodup_nil
  | cons e rest ih =>
    rw [firsts, List.map_cons, List.nodup_cons]
    refine ⟨fun member => ?_, ih.sublist (List.filter_sublist.map Prod.fst)⟩
    obtain ⟨e', kept, same⟩ := List.mem_map.mp member
    exact absurd same (by simpa using (List.mem_filter.mp kept).2)

/-- A log without repeated keys has no other entries. -/
theorem firsts_of_nodup (distinct : (log.map Prod.fst).Nodup) : firsts log = log := by
  induction log with
  | nil => rfl
  | cons e rest ih =>
    rw [List.map_cons, List.nodup_cons] at distinct
    rw [firsts, ih distinct.2, List.filter_eq_self.mpr]
    intro e' member
    have other : e'.1 ≠ e.1 := fun same => distinct.1 (same ▸ List.mem_map_of_mem member)
    simpa using other

/-- Dropping the entries of a key that is undone later changes nothing. -/
theorem update_rewind_filter (k : κ) (v : β) (log : List (κ × β)) (f : κ → β) :
    Function.update (rewind (log.filter fun e => e.1 ≠ k) f) k v =
      Function.update (rewind log f) k v := by
  induction log with
  | nil => rfl
  | cons e rest ih =>
    by_cases here : e.1 = k
    · rw [List.filter_cons_of_neg (by simp [here]), ih, rewind_cons, here, Function.update_idem]
    · rw [List.filter_cons_of_pos (by simp [here]), rewind_cons, rewind_cons,
        Function.update_comm here, ih, Function.update_comm here]

/-- Undoing only the first entry of each key is enough. -/
theorem rewind_firsts (log : List (κ × β)) (f : κ → β) : rewind (firsts log) f = rewind log f := by
  induction log with
  | nil => rfl
  | cons e rest ih => rw [firsts, rewind_cons, rewind_cons, update_rewind_filter, ih]

/-- Writes to different keys can be performed in either order. -/
theorem overlay_eq_rewind (distinct : (writes.map Prod.fst).Nodup)
    (f : κ → β) : overlay writes f = rewind writes f := by
  induction writes generalizing f with
  | nil => rfl
  | cons w rest ih =>
    rw [List.map_cons, List.nodup_cons] at distinct
    rw [overlay_cons, ih distinct.2, rewind_cons]
    funext k
    by_cases here : k = w.1
    · rw [here, Function.update_self, rewind_of_notMem distinct.1, Function.update_self]
    · rw [Function.update_of_ne here]
      by_cases later : k ∈ rest.map Prod.fst
      · exact rewind_of_mem later _ _
      · rw [rewind_of_notMem later, rewind_of_notMem later, Function.update_of_ne here]

theorem overlay_append (writes writes' : List (κ × β)) (f : κ → β) :
    overlay (writes ++ writes') f = overlay writes' (overlay writes f) :=
  List.foldl_append

/-- A written key holds what the write to it says, if it is written once. -/
theorem overlay_of_mem (distinct : (writes.map Prod.fst).Nodup)
    {w : κ × β} (member : w ∈ writes) (f : κ → β) : overlay writes f w.1 = w.2 := by
  rw [overlay_eq_rewind distinct]
  induction writes with
  | nil => cases member
  | cons w' rest ih =>
    rw [List.map_cons, List.nodup_cons] at distinct
    rw [rewind_cons]
    rcases List.mem_cons.mp member with rfl | later
    · exact Function.update_self _ _ _
    · rw [Function.update_of_ne]
      · exact ih distinct.2 later
      · exact fun same => distinct.1 (same ▸ List.mem_map_of_mem later)

/-- Writes that change nothing can be left out. -/
theorem overlay_filter [DecidableEq β] (distinct : (writes.map Prod.fst).Nodup) (f : κ → β) :
    overlay (writes.filter fun w => f w.1 ≠ w.2) f = overlay writes f := by
  have distinct' : ((writes.filter fun w => f w.1 ≠ w.2).map Prod.fst).Nodup :=
    distinct.sublist (List.filter_sublist.map Prod.fst)
  funext k
  by_cases written : k ∈ writes.map Prod.fst
  · obtain ⟨w, member, rfl⟩ := List.mem_map.mp written
    rw [overlay_of_mem distinct member]
    by_cases same : f w.1 = w.2
    · rw [overlay_of_notMem, same]
      intro kept
      obtain ⟨w', member', key⟩ := List.mem_map.mp kept
      obtain ⟨member'', differs⟩ := List.mem_filter.mp member'
      have equal := List.inj_on_of_nodup_map distinct member'' member key
      subst equal
      exact absurd same (by simpa using differs)
    · exact overlay_of_mem distinct' (List.mem_filter.mpr ⟨member, by simpa using same⟩) f
  · rw [overlay_of_notMem written, overlay_of_notMem]
    exact fun kept => written ((List.filter_sublist.map Prod.fst).subset kept)

/-- What a log undoes for one function it undoes for another one that agrees outside. -/
theorem rewind_eq_iff {f f' old : κ → β} (undoes : rewind log f = old) :
    rewind log f' = old ↔ ∀ k, k ∉ log.map Prod.fst → f' k = old k := by
  constructor
  · intro same k unlogged
    rw [← same, rewind_of_notMem unlogged]
  · intro outside
    rw [← undoes]
    refine rewind_congr fun k unlogged => ?_
    rw [outside k unlogged, ← undoes, rewind_of_notMem unlogged]

omit [DecidableEq κ] in
theorem map_fst_graph (keys : List κ) (f : κ → β) :
    (keys.map fun k => (k, f k)).map Prod.fst = keys := by
  rw [List.map_map]
  exact List.map_id keys

/-- Some values of a function, put over another function. -/
theorem overlay_graph {keys : List κ} (distinct : keys.Nodup) (f f' : κ → β) :
    overlay (keys.map fun k => (k, f k)) f' = fun k => if k ∈ keys then f k else f' k := by
  funext k
  split
  · next member =>
      have written : (k, f k) ∈ keys.map fun k => (k, f k) := List.mem_map_of_mem member
      exact overlay_of_mem (by rwa [map_fst_graph]) written f'
  · next outside => exact overlay_of_notMem (by rwa [map_fst_graph]) f'

end Pom68k.Foundation
