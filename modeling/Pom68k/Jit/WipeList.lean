import Pom68k.Jit.LinkTable
import Pom68k.Foundation.Runs

/-! # The wipe lists of the link table

`clearLinks` visits the slots and cells that were listed when they took an entry. A cell knows
that it is listed. A slot is listed whenever it is found empty, and a retracted slot is empty
although it is still on the list.
-/

namespace Pom68k.Jit

open Foundation

/-- The operations on the links of an engine. -/
inductive LinkOp where
  | publish (pc : Addr) (super : Bool) (entry : EntryPoint)
  | retract (pc : Addr) (super : Bool)
  | clear
  | cell (k : Key) (target : Option EntryPoint)
deriving DecidableEq

namespace LinkTable

def step (t : LinkTable) : LinkOp → LinkTable
  | .publish pc super entry => t.publishLink pc super entry
  | .retract pc super => t.retractLink pc super
  | .clear => t.clearLinks
  | .cell k target => t.linkCell k target

/-- The lists name every slot and cell that is in use, and each cell once. -/
structure Listed (t : LinkTable) : Prop where
  slot : ∀ i, t.slots i ≠ ⟨kNoLink, none⟩ → i ∈ t.published
  inside : ∀ i ∈ t.published, i < kLinkSlots.toNat
  cell : ∀ k cell, t.cells k = some cell → cell.entry ≠ none → cell.listed = true
  marked : ∀ k, k ∈ t.publishedCells ↔ ∃ cell, t.cells k = some cell ∧ cell.listed = true
  once : t.publishedCells.Nodup

variable {t : LinkTable}

theorem linkIndex_lt (pc : Addr) : linkIndex pc < kLinkSlots.toNat := by
  exact lt_of_le_of_lt Nat.and_le_right (by decide)

theorem linkCell_cases (t : LinkTable) (k : Key) (target : Option EntryPoint) :
    t.linkCell k target = t.createCell k ∨
      ∃ entry, t.linkCell k target = (t.createCell k).bindCell k entry := by
  unfold linkCell
  split
  · exact .inr ⟨_, rfl⟩
  · exact .inl rfl

section

variable (listed : t.Listed)
include listed

theorem Listed.publishSlot (pc : Addr) (super : Bool) (entry : EntryPoint) :
    (t.publishSlot pc super entry).Listed := by
  have index := linkIndex_lt pc
  obtain ⟨slot, inside, cell, marked, once⟩ := listed
  unfold LinkTable.publishSlot
  refine ⟨?_, ?_, cell, marked, once⟩
  · intro i held
    by_cases here : i = linkIndex pc
    · grind
    · grind
  · grind

theorem Listed.bindCell (k : Key) (entry : EntryPoint) : (t.bindCell k entry).Listed := by
  obtain ⟨slot, inside, cell, marked, once⟩ := listed
  unfold LinkTable.bindCell
  split
  · exact ⟨slot, inside, cell, marked, once⟩
  · refine ⟨slot, inside, ?_, ?_, ?_⟩ <;> grind [Function.update_apply]

theorem Listed.retractLink (pc : Addr) (super : Bool) : (t.retractLink pc super).Listed := by
  obtain ⟨slot, inside, cell, marked, once⟩ := listed
  unfold LinkTable.retractLink
  refine ⟨?_, inside, ?_, ?_, once⟩ <;> grind [Function.update_apply, Option.map_eq_some_iff]

theorem Listed.clearLinks : t.clearLinks.Listed := by
  obtain ⟨slot, inside, cell, marked, once⟩ := listed
  unfold LinkTable.clearLinks
  refine ⟨?_, ?_, ?_, ?_, List.nodup_nil⟩ <;> grind

theorem Listed.createCell (k : Key) : (t.createCell k).Listed := by
  obtain ⟨slot, inside, cell, marked, once⟩ := listed
  unfold LinkTable.createCell
  split
  · refine ⟨slot, inside, ?_, ?_, once⟩ <;> grind [Function.update_apply]
  · exact ⟨slot, inside, cell, marked, once⟩

/-- Every operation keeps the lists complete. -/
theorem Listed.step (op : LinkOp) : (t.step op).Listed := by
  cases op with
  | publish pc super entry => exact (listed.publishSlot pc super entry).bindCell _ entry
  | retract pc super => exact listed.retractLink pc super
  | clear => exact listed.clearLinks
  | cell k target =>
    rw [LinkTable.step]
    rcases t.linkCell_cases k target with same | ⟨entry, same⟩
    · exact same ▸ listed.createCell k
    · exact same ▸ (listed.createCell k).bindCell k entry

end

theorem listed_empty : ({} : LinkTable).Listed where
  slot _ held := absurd rfl held
  inside _ none := absurd none List.not_mem_nil
  cell _ _ none := by cases none
  marked _ := iff_of_false List.not_mem_nil (by rintro ⟨_, none, _⟩; cases none)
  once := List.nodup_nil

/-- No slot is on the list twice, so the list is not longer than the table. -/
def Bounded (t : LinkTable) : Prop :=
  t.published.Nodup ∧ t.published.length ≤ kLinkSlots.toNat

theorem Listed.bounded (listed : t.Listed) (once : t.published.Nodup) : t.Bounded := by
  have among : t.published ⊆ List.range kLinkSlots.toNat :=
    fun i inside => List.mem_range.mpr (listed.inside i inside)
  have few := (List.subperm_of_subset once among).length_le
  rw [List.length_range] at few
  exact ⟨once, few⟩

theorem published_bindCell (k : Key) (entry : EntryPoint) :
    (t.bindCell k entry).published = t.published := by
  unfold bindCell
  split <;> rfl

/-! ## Slots that were given up -/

/-- The slots for which a block was retracted since the last clear, or published with the tag of
an empty slot. -/
def vacated (gone : List Nat) : LinkOp → List Nat
  | .publish pc super _ => if linkTag pc super = kNoLink then linkIndex pc :: gone else gone
  | .retract pc _ => linkIndex pc :: gone
  | .clear => []
  | .cell _ _ => gone

/-- No slot that was given up is published again. -/
def Settles (gone : List Nat) : LinkOp → Prop
  | .publish pc _ _ => linkIndex pc ∉ gone
  | _ => True

/-- A listed slot that is empty was given up. -/
def Vacated (t : LinkTable) (gone : List Nat) : Prop :=
  ∀ i ∈ t.published, (t.slots i).tag = kNoLink → i ∈ gone

variable {gone : List Nat}

theorem slots_bindCell (k : Key) (entry : EntryPoint) : (t.bindCell k entry).slots = t.slots := by
  unfold bindCell
  split <;> rfl

theorem Vacated.step (known : t.Vacated gone) (op : LinkOp) :
    (t.step op).Vacated (vacated gone op) := by
  cases op with
  | publish pc super entry =>
    rw [LinkTable.step, publishLink, Vacated, published_bindCell, slots_bindCell,
      LinkTable.publishSlot, vacated]
    intro i listed empty
    dsimp only at listed empty
    by_cases here : i = linkIndex pc
    · subst here
      rw [Function.update_self] at empty
      rw [if_pos empty]
      exact List.mem_cons_self
    · rw [Function.update_of_ne here] at empty
      have old : i ∈ gone := known i (by grind) empty
      split
      · exact List.mem_cons_of_mem _ old
      · exact old
  | retract pc super =>
    intro i listed empty
    by_cases here : i = linkIndex pc
    · exact here ▸ List.mem_cons_self
    · refine List.mem_cons_of_mem _ (known i listed ?_)
      rw [LinkTable.step, LinkTable.retractLink] at empty
      grind [Function.update_apply]
  | clear => exact fun i none => absurd none List.not_mem_nil
  | cell k target =>
    have created : (t.createCell k).Vacated gone := by
      unfold LinkTable.createCell
      split <;> exact known
    rw [LinkTable.step]
    rcases t.linkCell_cases k target with same | ⟨entry, same⟩
    · exact same ▸ created
    · rwa [same, Vacated, published_bindCell, slots_bindCell]

/-- A slot that was not given up is listed when it takes an entry just if it was not. -/
theorem Vacated.nodup_step (known : t.Vacated gone) (once : t.published.Nodup) {op : LinkOp}
    (settles : Settles gone op) : (t.step op).published.Nodup := by
  cases op with
  | publish pc super entry =>
    have fresh : (t.slots (linkIndex pc)).tag = kNoLink → linkIndex pc ∉ t.published :=
      fun empty listed => settles (known _ listed empty)
    rw [LinkTable.step, publishLink, published_bindCell, LinkTable.publishSlot]
    grind
  | retract => exact once
  | clear => exact List.nodup_nil
  | cell k target =>
    have created : (t.createCell k).published = t.published := by
      unfold LinkTable.createCell
      split <;> rfl
    rw [LinkTable.step]
    rcases t.linkCell_cases k target with same | ⟨entry, same⟩
    · rwa [same, created]
    · rwa [same, published_bindCell, created]

theorem Vacated.nodup_run {ops : List LinkOp} (known : t.Vacated gone) (once : t.published.Nodup)
    (settles : Along vacated Settles gone ops) : (run LinkTable.step t ops).published.Nodup := by
  induction ops generalizing t gone with
  | nil => exact once
  | cons op rest ih => exact ih (known.step op) (known.nodup_step once settles.1) settles.2

/-- After any operations the lists name every slot and every cell that holds an entry, and each
such cell once. Each slot is listed once as long as no slot is published again that was retracted,
or published with the tag of an empty one, since the table was last cleared. -/
theorem wipe_lists (ops : List LinkOp) :
    (∀ i, (run step {} ops).slots i ≠ ⟨kNoLink, none⟩ → i ∈ (run step {} ops).published) ∧
      (∀ k cell, (run step {} ops).cells k = some cell → cell.entry ≠ none →
        (run step {} ops).publishedCells.count k = 1) ∧
      (Along vacated Settles [] ops → (run step {} ops).Bounded) := by
  have listed : (run step {} ops).Listed :=
    run_invariant (fun _ op listed => listed.step op) listed_empty ops
  refine ⟨listed.slot, fun k cell present held => ?_, fun settles => ?_⟩
  · exact List.count_eq_one_of_mem listed.once
      ((listed.marked k).mpr ⟨cell, present, listed.cell k cell present held⟩)
  · have none : ({} : LinkTable).Vacated [] := fun i listed => absurd listed List.not_mem_nil
    exact listed.bounded (none.nodup_run List.nodup_nil settles)

/-- Two blocks are published and one is retracted; behind a clear it is published again. -/
theorem wipe_lists_cleared :
    let ops : List LinkOp := [.publish 0x1000 true 1, .publish 0x2000 false 2,
      .retract 0x1000 true, .clear, .publish 0x1000 true 1]
    Along vacated Settles [] ops ∧ (run step {} ops).published = [2048] ∧
      (run step {} ops).Bounded := by
  intro ops
  have settles : Along vacated Settles [] ops := by
    simp only [ops, Along, Settles]
    decide
  exact ⟨settles, by decide +kernel, (wipe_lists ops).2.2 settles⟩

/-- A block is published, retracted and published again: its slot is listed twice. -/
theorem slot_listed_twice :
    (run step {} [.publish 0x1000 true 1, .retract 0x1000 true, .publish 0x1000 true 1]).published =
      [2048, 2048] := by
  decide +kernel

end LinkTable

end Pom68k.Jit
