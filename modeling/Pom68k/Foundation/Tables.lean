import Mathlib.Data.List.Nodup

/-! # Tables

What is found in a finite map after entries have been put into it or taken out.
-/

namespace Pom68k.Foundation

open Std

variable {α β : Type} {cmp : α → α → Ordering} [TransCmp cmp] [LawfulEqCmp cmp] {t : ExtTreeMap α β cmp}
  {entries : List (α × β)}

/-- Entries with different keys are all found, and hide what was there under their keys. -/
theorem getElem?_insertMany_iff (distinct : (entries.map Prod.fst).Nodup) {k : α} {v : β} :
    (t.insertMany entries)[k]? = some v ↔
      (k, v) ∈ entries ∨ k ∉ entries.map Prod.fst ∧ t[k]? = some v := by
  classical
  have apart : entries.Pairwise fun a b => ¬ cmp a.1 b.1 = .eq := by
    rw [List.Nodup, List.pairwise_map] at distinct
    exact distinct.imp fun different same => different (LawfulEqCmp.eq_of_compare same)
  by_cases inside : k ∈ entries.map Prod.fst
  · obtain ⟨⟨_, w⟩, listed, rfl⟩ := List.mem_map.mp inside
    rw [ExtTreeMap.getElem?_insertMany_list_of_mem ReflCmp.compare_self apart listed]
    constructor
    · rintro same
      cases same
      exact .inl listed
    · rintro (other | ⟨outside, _⟩)
      · have one := List.inj_on_of_nodup_map distinct listed other rfl
        cases one
        rfl
      · exact absurd inside outside
  · rw [ExtTreeMap.getElem?_insertMany_list_of_contains_eq_false (by simpa using inside)]
    constructor
    · exact fun found => .inr ⟨inside, found⟩
    · rintro (listed | ⟨_, found⟩)
      · exact absurd (List.mem_map_of_mem listed) inside
      · exact found

theorem getElem?_filter_iff {keep : α → β → Bool} {k : α} {v : β} :
    (t.filter keep)[k]? = some v ↔ t[k]? = some v ∧ keep k v = true := by
  rw [ExtTreeMap.getElem?_filter', Option.filter_eq_some_iff]

omit [LawfulEqCmp cmp] in
theorem getElem?_of_erase {a k : α} {v : β} (found : (t.erase a)[k]? = some v) :
    t[k]? = some v := by
  rw [ExtTreeMap.getElem?_erase] at found
  split at found
  · cases found
  · exact found

theorem getElem?_insert_iff {a k : α} {v w : β} :
    (t.insert a w)[k]? = some v ↔ (k = a ∧ v = w) ∨ (k ≠ a ∧ t[k]? = some v) := by
  rw [ExtTreeMap.getElem?_insert]
  split
  case isTrue same =>
    obtain rfl := LawfulEqCmp.eq_of_compare same
    simp [eq_comm]
  case isFalse other =>
    have different : k ≠ a := fun same => other (same ▸ ReflCmp.compare_self)
    simp [different]

/-- What holds of the entry put in and of those that were there holds of every entry. -/
@[elab_as_elim]
theorem of_getElem?_insert {P : α → β → Prop} {a k : α} {v w : β}
    (found : (t.insert a w)[k]? = some v) (new : P a w) (old : t[k]? = some v → P k v) : P k v := by
  rcases getElem?_insert_iff.mp found with ⟨rfl, rfl⟩ | ⟨_, there⟩
  · exact new
  · exact old there

/-- Two tables of which one leads back from the other still do so with a new pair in both. -/
theorem getElem?_insert_inverse {cmp' : β → β → Ordering} [TransCmp cmp'] [LawfulEqCmp cmp']
    {s : ExtTreeMap β α cmp'} (inverse : ∀ {k : α} {v : β}, t[k]? = some v → s[v]? = some k)
    {a k : α} {v w : β} (new : s[w]? = none) (found : (t.insert a w)[k]? = some v) :
    (s.insert w a)[v]? = some k := by
  rcases getElem?_insert_iff.mp found with ⟨rfl, rfl⟩ | ⟨_, there⟩
  · exact ExtTreeMap.getElem?_insert_self
  · refine getElem?_insert_iff.mpr (.inr ⟨?_, inverse there⟩)
    rintro rfl
    cases new.symm.trans (inverse there)

/-- A table is made of one of its entries and all the others. -/
theorem insertMany_insert_empty {a : α} {w : β} (distinct : (entries.map Prod.fst).Nodup)
    (there : t[a]? = some w) (listed : ∀ k v, (k, v) ∈ entries ↔ t[k]? = some v ∧ k ≠ a) :
    ((∅ : ExtTreeMap α β cmp).insert a w).insertMany entries = t := by
  refine ExtTreeMap.ext_getElem? fun {k} => Option.ext fun v => ?_
  rw [getElem?_insertMany_iff distinct, getElem?_insert_iff, listed]
  constructor
  · rintro (⟨found, _⟩ | ⟨_, ⟨rfl, rfl⟩ | ⟨_, nothing⟩⟩)
    · exact found
    · exact there
    · simp at nothing
  · intro found
    by_cases same : k = a
    · subst same
      refine .inr ⟨fun inside => ?_, .inl ⟨rfl, Option.some.inj (found.symm.trans there)⟩⟩
      obtain ⟨⟨b, x⟩, there, same⟩ := List.mem_map.mp inside
      exact ((listed b x).mp there).2 same
    · exact .inl ⟨found, same⟩

end Pom68k.Foundation
