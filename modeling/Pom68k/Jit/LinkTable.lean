import Pom68k.Jit.Block

/-! # The block-link table

Generated code jumps from block to block through two structures: a
direct-mapped table tagged with the program counter and privilege level of the
target, and exact cells, one per constant target. Both are wiped through lists
of the slots and cells that may hold an entry, so the lists have to name every
one that does.
-/

namespace Pom68k.Jit

/-- `Engine::LinkSlot`. -/
structure LinkSlot where
  tag : Addr
  entry : Option EntryPoint
deriving Repr, DecidableEq

/-- `Engine::LinkCell`. -/
structure LinkCell where
  entry : Option EntryPoint := none
  listed : Bool := false
deriving Repr, DecidableEq

def kLinkSlots : Addr := 262144

def kNoLink : Addr := 0xFFFFFFFF

def linkIndex (pc : Addr) : Nat := ((pc >>> 1) &&& (kLinkSlots - 1)).toNat

/-- The tag of a link slot, `pc | super`. -/
def linkTag (pc : Addr) (super : Bool) : Addr := pc ||| (if super then 1#32 else 0#32)

/-- The link table and cells of an engine. A cell is created on first request and
lives as long as the engine. -/
structure LinkTable where
  slots : Nat → LinkSlot := fun _ => ⟨kNoLink, none⟩
  published : List Nat := []
  cells : Key → Option LinkCell := fun _ => none
  publishedCells : List Key := []

theorem Site.key_inj {site other : Site} (same : site.key = other.key) : site = other := by
  obtain ⟨counter, privilege⟩ := Jit.key_inj same
  cases other
  cases counter
  cases privilege
  rfl

namespace LinkTable

/-- The half of `Engine::publishLink` that fills the direct-mapped slot. -/
def publishSlot (t : LinkTable) (pc : Addr) (super : Bool) (entry : EntryPoint) : LinkTable :=
  { t with
    published :=
      if (t.slots (linkIndex pc)).tag = kNoLink then t.published ++ [linkIndex pc]
      else t.published
    slots := Function.update t.slots (linkIndex pc) ⟨linkTag pc super, some entry⟩ }

/-- The half of `Engine::publishLink` and of `Engine::linkCell` that binds an
existing cell. -/
def bindCell (t : LinkTable) (k : Key) (entry : EntryPoint) : LinkTable :=
  match t.cells k with
  | none => t
  | some cell =>
    { t with
      cells := Function.update t.cells k (some ⟨some entry, true⟩)
      publishedCells :=
        if cell.listed then t.publishedCells else t.publishedCells ++ [k] }

/-- `Engine::publishLink`. -/
def publishLink (t : LinkTable) (pc : Addr) (super : Bool) (entry : EntryPoint) : LinkTable :=
  (t.publishSlot pc super entry).bindCell (key pc super) entry

/-- `Engine::retractLink`. -/
def retractLink (t : LinkTable) (pc : Addr) (super : Bool) : LinkTable :=
  { t with
    slots :=
      if (t.slots (linkIndex pc)).tag = linkTag pc super then
        Function.update t.slots (linkIndex pc) ⟨kNoLink, none⟩
      else t.slots
    cells := Function.update t.cells (key pc super)
      ((t.cells (key pc super)).map fun cell => { cell with entry := none }) }

/-- `Engine::clearLinks`: only the listed slots and cells are visited. -/
def clearLinks (t : LinkTable) : LinkTable :=
  { slots := fun i => if i ∈ t.published then ⟨kNoLink, none⟩ else t.slots i
    published := []
    cells := fun k =>
      if k ∈ t.publishedCells then (t.cells k).map fun _ => ⟨none, false⟩ else t.cells k
    publishedCells := [] }

/-- The cell of a key is created unbound. -/
def createCell (t : LinkTable) (k : Key) : LinkTable :=
  match t.cells k with
  | none => { t with cells := Function.update t.cells k (some {}) }
  | some _ => t

/-- `Engine::linkCell`. The target is the entry point of the block at the key when
that block is compiled and proved under the current generation. -/
def linkCell (t : LinkTable) (k : Key) (target : Option EntryPoint) : LinkTable :=
  match (t.createCell k).cells k, target with
  | some ⟨none, _⟩, some entry => (t.createCell k).bindCell k entry
  | _, _ => t.createCell k

/-- Every entry of the table is `good` for the site its slot or cell stands for,
and the two lists name every slot and cell that `clearLinks` has to visit. -/
structure Sound (t : LinkTable) (good : Site → EntryPoint → Prop) : Prop where
  slot : ∀ i entry, (t.slots i).entry = some entry → ∃ site : Site,
    (t.slots i).tag = linkTag site.pc site.super ∧ i = linkIndex site.pc ∧ good site entry
  cell : ∀ k cell entry, t.cells k = some cell → cell.entry = some entry → ∃ site : Site,
    k = site.key ∧ good site entry
  slotListed : ∀ i, (t.slots i).tag ≠ kNoLink ∨ (t.slots i).entry ≠ none → i ∈ t.published
  cellListed : ∀ k cell, t.cells k = some cell → cell.listed = true ∨ cell.entry ≠ none →
    k ∈ t.publishedCells

variable {t : LinkTable} {good better : Site → EntryPoint → Prop}

theorem update_eq_iff {α β : Type} [DecidableEq α] {g : α → β} {a x : α} {v y : β} :
    Function.update g a v x = y ↔ x = a ∧ v = y ∨ x ≠ a ∧ g x = y := by
  rw [Function.update_apply, ite_eq_iff]

theorem sound_empty (good : Site → EntryPoint → Prop) : ({} : LinkTable).Sound good where
  slot := fun _ _ held => by cases held
  cell := fun _ _ _ present => by cases present
  slotListed := fun _ held => by rcases held with tagged | bound <;> contradiction
  cellListed := fun _ _ present => by cases present

section

variable (sound : t.Sound good)
include sound

theorem Sound.mono
    (weaken : ∀ site entry, good site entry → better site entry) : t.Sound better where
  slot := fun i entry held =>
    let ⟨site, tagged, here, target⟩ := sound.slot i entry held
    ⟨site, tagged, here, weaken site entry target⟩
  cell := fun k cell entry present held =>
    let ⟨site, keyed, target⟩ := sound.cell k cell entry present held
    ⟨site, keyed, weaken site entry target⟩
  slotListed := sound.slotListed
  cellListed := sound.cellListed

section

variable {site : Site} {entry : EntryPoint} (target : good site entry)
include target

theorem Sound.publishSlot : (t.publishSlot site.pc site.super entry).Sound good where
  slot := by
    intro i held holds
    by_cases here : i = linkIndex site.pc
    · subst here
      simp only [LinkTable.publishSlot, Function.update_self, Option.some.injEq] at holds ⊢
      subst holds
      exact ⟨site, rfl, rfl, target⟩
    · simp only [LinkTable.publishSlot, Function.update_of_ne here] at holds ⊢
      exact sound.slot i held holds
  cell := sound.cell
  slotListed := by
    intro i held
    by_cases here : i = linkIndex site.pc
    · subst here
      simp only [LinkTable.publishSlot]
      split
      · exact List.mem_append_right _ (List.mem_singleton.mpr rfl)
      · rename_i tagged
        exact sound.slotListed _ (Or.inl tagged)
    · simp only [LinkTable.publishSlot, Function.update_of_ne here] at held ⊢
      have listed := sound.slotListed i held
      split
      · exact List.mem_append_left _ listed
      · exact listed
  cellListed := sound.cellListed

theorem Sound.bindCell : (t.bindCell site.key entry).Sound good := by
  unfold LinkTable.bindCell
  split
  · exact sound
  rename_i old present
  refine ⟨sound.slot, ?_, sound.slotListed, ?_⟩
  · intro k cell held holds bound
    rcases update_eq_iff.mp holds with ⟨rfl, ⟨⟩⟩ | ⟨_, holds⟩
    · cases bound
      exact ⟨site, rfl, target⟩
    · exact sound.cell k cell held holds bound
  · intro k cell holds listed
    rcases update_eq_iff.mp holds with ⟨rfl, -⟩ | ⟨_, holds⟩
    · split
      next old_listed => exact sound.cellListed _ old present (Or.inl old_listed)
      next => exact List.mem_append_right _ (List.mem_singleton.mpr rfl)
    · have member := sound.cellListed k cell holds listed
      split
      · exact member
      · exact List.mem_append_left _ member

/-- Publishing an entry that is good for its site keeps the table sound. -/
theorem Sound.publishLink : (t.publishLink site.pc site.super entry).Sound good :=
  (sound.publishSlot target).bindCell target

end

/-- Retracting a site leaves no entry for it. If its slot carries another tag then
another block took the slot over, and the tag tells the two apart. -/
theorem Sound.retractLink (gone : Site) :
    (t.retractLink gone.pc gone.super).Sound (fun site entry => good site entry ∧ site ≠ gone) := by
  have emptied : ∀ i entry, ((t.retractLink gone.pc gone.super).slots i).entry = some entry →
      (t.retractLink gone.pc gone.super).slots i = t.slots i ∧
        ¬ (i = linkIndex gone.pc ∧ (t.slots i).tag = linkTag gone.pc gone.super) := by
    intro i entry held
    unfold LinkTable.retractLink at held ⊢
    dsimp only at held ⊢
    split at held
    · rename_i carries
      by_cases here : i = linkIndex gone.pc
      · subst here
        simp at held
      · rw [if_pos carries, Function.update_of_ne here]
        exact ⟨rfl, fun both => here both.1⟩
    · rename_i other
      rw [if_neg other]
      refine ⟨rfl, fun both => other ?_⟩
      rw [← both.1]
      exact both.2
  constructor
  · intro i entry held
    obtain ⟨unchanged, other⟩ := emptied i entry held
    rw [unchanged] at held ⊢
    obtain ⟨site, tagged, here, target⟩ := sound.slot i entry held
    refine ⟨site, tagged, here, target, ?_⟩
    rintro rfl
    exact other ⟨here, tagged⟩
  · intro k cell entry present bound
    rcases update_eq_iff.mp present with ⟨rfl, wiped⟩ | ⟨here, present⟩
    · obtain ⟨old, _, rfl⟩ := Option.map_eq_some_iff.mp wiped
      cases bound
    · obtain ⟨site, keyed, target⟩ := sound.cell k cell entry present bound
      refine ⟨site, keyed, target, ?_⟩
      rintro rfl
      exact here keyed
  · intro i held
    apply sound.slotListed
    unfold LinkTable.retractLink at held
    split at held
    · by_cases here : i = linkIndex gone.pc
      · subst here
        simp at held
      · simpa only [Function.update_of_ne here] using held
    · exact held
  · intro k cell present listed
    rcases update_eq_iff.mp present with ⟨rfl, wiped⟩ | ⟨_, present⟩
    · obtain ⟨old, holds, rfl⟩ := Option.map_eq_some_iff.mp wiped
      refine sound.cellListed _ old holds (Or.inl ?_)
      simpa using listed
    · exact sound.cellListed k cell present listed

/-- After `clearLinks` no slot and no cell holds an entry. -/
theorem Sound.clearLinks_unbound :
    (∀ i, t.clearLinks.slots i = ⟨kNoLink, none⟩) ∧
      ∀ k cell, t.clearLinks.cells k = some cell → cell = ⟨none, false⟩ := by
  constructor
  · intro i
    by_cases listed : i ∈ t.published
    · exact if_pos listed
    have untouched : t.clearLinks.slots i = t.slots i := if_neg listed
    have unheld : ¬ ((t.slots i).tag ≠ kNoLink ∨ (t.slots i).entry ≠ none) :=
      fun held => listed (sound.slotListed i held)
    rw [untouched]
    simp only [ne_eq, not_or, not_not] at unheld
    cases slotEq : t.slots i
    rw [slotEq] at unheld
    rwa [LinkSlot.mk.injEq]
  · intro k cell present
    by_cases listed : k ∈ t.publishedCells
    · have wiped : (t.cells k).map (fun _ => (⟨none, false⟩ : LinkCell)) = some cell := by
        simpa only [LinkTable.clearLinks, if_pos listed] using present
      obtain ⟨_, _, rfl⟩ := Option.map_eq_some_iff.mp wiped
      rfl
    · have untouched : t.cells k = some cell := by
        simpa only [LinkTable.clearLinks, if_neg listed] using present
      have unheld : ¬ (cell.listed = true ∨ cell.entry ≠ none) :=
        fun held => listed (sound.cellListed k cell untouched held)
      simp only [not_or, not_not, Bool.not_eq_true] at unheld
      rw [LinkCell.mk.injEq]
      exact ⟨unheld.2, unheld.1⟩

/-- A cleared table is sound for any target condition. -/
theorem Sound.clearLinks (better : Site → EntryPoint → Prop) : t.clearLinks.Sound better := by
  obtain ⟨slots, cells⟩ := sound.clearLinks_unbound
  constructor
  · intro i entry held
    rw [slots i] at held
    cases held
  · intro k cell entry present bound
    rw [cells k cell present] at bound
    cases bound
  · intro i held
    rw [slots i] at held
    rcases held with tagged | bound <;> contradiction
  · intro k cell present listed
    rw [cells k cell present] at listed
    rcases listed with marked | bound <;> contradiction

theorem Sound.createCell (created : Key) : (t.createCell created).Sound good := by
  unfold LinkTable.createCell
  split
  · refine ⟨sound.slot, ?_, sound.slotListed, ?_⟩
    · intro k cell entry present bound
      rcases update_eq_iff.mp present with ⟨rfl, ⟨⟩⟩ | ⟨_, present⟩
      · cases bound
      · exact sound.cell k cell entry present bound
    · intro k cell present listed
      rcases update_eq_iff.mp present with ⟨rfl, ⟨⟩⟩ | ⟨_, present⟩
      · rcases listed with marked | bound <;> contradiction
      · exact sound.cellListed k cell present listed
  · exact sound

/-- A cell bound on request holds a good entry for its site. -/
theorem Sound.linkCell (site : Site) {target : Option EntryPoint}
    (targets : ∀ entry, target = some entry → good site entry) :
    (t.linkCell site.key target).Sound good := by
  unfold LinkTable.linkCell
  split
  · rename_i entry _
    exact (sound.createCell site.key).bindCell (targets entry rfl)
  · exact sound.createCell site.key

end

end LinkTable

end Pom68k.Jit
