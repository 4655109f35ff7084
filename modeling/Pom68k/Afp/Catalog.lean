import Pom68k.Afp.Path
import Pom68k.Foundation.Tables

/-! # The catalogue

Numbers for the objects of the shared folder. Two maps lead from paths to numbers and back, and a
third keeps what the host called the object a number was given to. One move or deletion may be
pending in it.
-/

namespace Pom68k.Afp

open Foundation Std

def rootId : Nat := 2

-- The order of the keys under one name, so that all modules speak of the same maps.
instance transOrd_path : TransOrd Path := inferInstance

structure Catalog where
  pathToId : ExtTreeMap Path Nat
  idToPath : ExtTreeMap Nat Path
  /-- The identity text of each object; empty while an old entry has none. -/
  hosts : ExtTreeMap Nat Bytes
  nextId : Nat
  pendingSource : Path
  pendingDestination : Path
  pendingSidecar : Bool
  pendingDelete : Bool
  deriving DecidableEq

namespace Catalog

def initial : Catalog where
  pathToId := (∅ : ExtTreeMap Path Nat).insert [] rootId
  idToPath := (∅ : ExtTreeMap Nat Path).insert rootId []
  hosts := ∅
  nextId := 16
  pendingSource := []
  pendingDestination := []
  pendingSidecar := false
  pendingDelete := false

/-- The entries of a path and of everything below it. -/
def below (c : Catalog) (rel : Path) : List (Path × Nat) :=
  c.pathToId.toList.filter fun entry => rel.Below entry.1

def gone (c : Catalog) (rel : Path) : List Nat := (c.below rel).map Prod.snd

def dropId (c : Catalog) (rel : Path) : Catalog :=
  { c with
    pathToId := c.pathToId.filter fun path _ => !rel.Below path
    idToPath := c.idToPath.filter fun id _ => id ∉ c.gone rel
    hosts := c.hosts.filter fun id _ => id ∉ c.gone rel }

/-- The entries at and below a path, under another path. -/
def moved (c : Catalog) (source destination : Path) : List (Path × Nat) :=
  (c.below source).map fun entry => (destination ++ entry.1.drop source.length, entry.2)

def moveIds (c : Catalog) (source destination : Path) : Catalog :=
  let moved := c.moved source destination
  let rest := c.dropId source
  { rest with
    pathToId := rest.pathToId.insertMany moved
    idToPath := rest.idToPath.insertMany (moved.map Prod.swap)
    hosts := rest.hosts.insertMany
      (moved.filterMap fun entry => c.hosts[entry.2]?.map fun identity => (entry.2, identity)) }

/-- A new number. -/
def issue (c : Catalog) (rel : Path) (identity : Bytes) : Catalog :=
  { c with
    nextId := c.nextId + 1
    pathToId := c.pathToId.insert rel c.nextId
    idToPath := c.idToPath.insert c.nextId rel
    hosts := c.hosts.insert c.nextId identity }

def bind (c : Catalog) (id : Nat) (identity : Bytes) : Catalog :=
  { c with hosts := c.hosts.insert id identity }

def pend (c : Catalog) (source destination : Path) (sidecar delete : Bool) : Catalog :=
  { c with
    pendingSource := source
    pendingDestination := destination
    pendingSidecar := sidecar
    pendingDelete := delete }

/-! ## Lookups -/

variable {c : Catalog} {rel source destination p q : Path} {id : Nat} {text : Bytes}

theorem mem_below : (p, id) ∈ c.below rel ↔ rel.Below p ∧ c.pathToId[p]? = some id := by
  rw [below, List.mem_filter, ExtTreeMap.mem_toList_iff_getElem?_eq_some, decide_eq_true_iff,
    and_comm]

theorem mem_gone : id ∈ c.gone rel ↔ ∃ p, rel.Below p ∧ c.pathToId[p]? = some id := by
  simp [gone, mem_below]

theorem dropId_pathToId :
    (c.dropId rel).pathToId[p]? = some id ↔ ¬ rel.Below p ∧ c.pathToId[p]? = some id := by
  rw [dropId, and_comm]
  simp

theorem dropId_idToPath :
    (c.dropId rel).idToPath[id]? = some p ↔ id ∉ c.gone rel ∧ c.idToPath[id]? = some p := by
  rw [dropId, and_comm]
  simp

theorem dropId_hosts :
    (c.dropId rel).hosts[id]? = some text ↔ id ∉ c.gone rel ∧ c.hosts[id]? = some text := by
  rw [dropId, and_comm]
  simp

theorem mem_moved :
    (q, id) ∈ c.moved source destination ↔
      ∃ p, source.Below p ∧ c.pathToId[p]? = some id ∧ q = destination ++ p.drop source.length := by
  constructor
  · intro inside
    obtain ⟨⟨p, _⟩, listed, same⟩ := List.mem_map.mp inside
    cases same
    exact ⟨p, (mem_below.mp listed).1, (mem_below.mp listed).2, rfl⟩
  · rintro ⟨p, under, found, rfl⟩
    exact List.mem_map.mpr ⟨(p, id), mem_below.mpr ⟨under, found⟩, rfl⟩

theorem moved_ids (c : Catalog) (source destination : Path) :
    (c.moved source destination).map Prod.snd = c.gone source := by
  rw [moved, List.map_map]
  rfl

theorem nodup_paths (c : Catalog) : (c.pathToId.toList.map Prod.fst).Nodup := by
  rw [ExtTreeMap.map_fst_toList_eq_keys]
  exact ExtTreeMap.nodup_keys

theorem nodup_below (c : Catalog) (rel : Path) : ((c.below rel).map Prod.fst).Nodup :=
  c.nodup_paths.sublist (List.filter_sublist.map Prod.fst)

theorem nodup_moved (c : Catalog) (source destination : Path) :
    ((c.moved source destination).map Prod.fst).Nodup := by
  rw [moved, List.map_map]
  have inj : ∀ p ∈ (c.below source).map Prod.fst, ∀ q ∈ (c.below source).map Prod.fst,
      destination ++ p.drop source.length = destination ++ q.drop source.length → p = q := by
    simp only [List.mem_map, Prod.exists, exists_and_right, exists_eq_right, mem_below]
    rintro p ⟨_, first, _⟩ q ⟨_, second, _⟩ same
    rw [← first.append_drop, ← second.append_drop, List.append_cancel_left same]
  have images := List.Nodup.map_on inj (c.nodup_below source)
  rwa [List.map_map] at images

theorem moveIds_pathToId :
    (c.moveIds source destination).pathToId[q]? = some id ↔
      (q, id) ∈ c.moved source destination ∨
        q ∉ (c.moved source destination).map Prod.fst ∧ ¬ source.Below q ∧
          c.pathToId[q]? = some id := by
  rw [moveIds, getElem?_insertMany_iff (c.nodup_moved source destination), dropId_pathToId]

/-! ## Numbers and paths -/

/-- What holds of a catalogue whatever happens to it: a path leads to a number that leads back,
and numbers have been given out. -/
structure Sound (c : Catalog) : Prop where
  root : c.pathToId[([] : Path)]? = some rootId
  forth : ∀ {p : Path} {id : Nat}, c.pathToId[p]? = some id → c.idToPath[id]? = some p
  issued : ∀ {id : Nat} {p : Path}, c.idToPath[id]? = some p → id = rootId ∨ 16 ≤ id ∧ id < c.nextId
  next : 16 ≤ c.nextId
  named : ∀ {id : Nat} {p : Path}, c.idToPath[id]? = some p → id ≠ rootId → p ≠ []
  bound : ∀ {id : Nat} {text : Bytes}, c.hosts[id]? = some text →
    id ≠ rootId ∧ ∃ p, c.idToPath[id]? = some p

namespace Sound

section

variable (sound : c.Sound)
include sound

theorem one (first : c.pathToId[p]? = some id) (second : c.pathToId[q]? = some id) : p = q :=
  Option.some.inj ((sound.forth first).symm.trans (sound.forth second))

theorem idToPath_root : c.idToPath[rootId]? = some [] := sound.forth sound.root

theorem nodup_ids (source destination : Path) :
    ((c.moved source destination).map Prod.snd).Nodup := by
  rw [moved, List.map_map]
  refine List.Nodup.map_on ?_ ((c.nodup_below source).of_map Prod.fst)
  rintro ⟨p, id⟩ first ⟨q, _⟩ second same
  cases same
  rw [sound.one (mem_below.mp first).2 (mem_below.mp second).2]

theorem mem_gone_iff (found : c.idToPath[id]? = some p) :
    id ∈ c.gone rel ↔ rel.Below p ∧ c.pathToId[p]? = some id := by
  rw [mem_gone]
  constructor
  · rintro ⟨q, under, known⟩
    obtain rfl : q = p := Option.some.inj ((sound.forth known).symm.trans found)
    exact ⟨under, known⟩
  · exact fun known => ⟨p, known⟩

theorem moveIds_idToPath :
    (c.moveIds source destination).idToPath[id]? = some q ↔
      (q, id) ∈ c.moved source destination ∨ id ∉ c.gone source ∧ c.idToPath[id]? = some q := by
  have keys : ((c.moved source destination).map Prod.swap).map Prod.fst =
      (c.moved source destination).map Prod.snd := by
    rw [List.map_map]
    rfl
  rw [moveIds, getElem?_insertMany_iff (by rw [keys]; exact sound.nodup_ids source destination),
    keys, moved_ids, dropId_idToPath]
  simp

/-- Objects keep their identities when they move. -/
theorem moveIds_hosts : (c.moveIds source destination).hosts = c.hosts := by
  have keys : ((c.moved source destination).filterMap fun entry =>
      c.hosts[entry.2]?.map fun identity => (entry.2, identity)).map Prod.fst |>.Sublist
        ((c.moved source destination).map Prod.snd) := by
    induction c.moved source destination with
    | nil => exact .slnil
    | cons entry rest ih =>
      rw [List.filterMap_cons]
      cases c.hosts[entry.2]? with
      | none => exact ih.cons _
      | some identity => exact ih.cons_cons _
  refine ExtTreeMap.ext_getElem? fun {id} => Option.ext fun text => ?_
  rw [moveIds, getElem?_insertMany_iff ((sound.nodup_ids source destination).sublist keys),
    dropId_hosts]
  have listed : (id, text) ∈ ((c.moved source destination).filterMap fun entry =>
      c.hosts[entry.2]?.map fun identity => (entry.2, identity)) ↔
        id ∈ c.gone source ∧ c.hosts[id]? = some text := by
    rw [← moved_ids c source destination, List.mem_filterMap]
    constructor
    · rintro ⟨⟨q, _⟩, inside, same⟩
      obtain ⟨identity, found, same⟩ := Option.map_eq_some_iff.mp same
      cases same
      exact ⟨List.mem_map.mpr ⟨_, inside, rfl⟩, found⟩
    · rintro ⟨inside, found⟩
      obtain ⟨⟨q, _⟩, entry, rfl⟩ := List.mem_map.mp inside
      exact ⟨_, entry, Option.map_eq_some_iff.mpr ⟨text, found, rfl⟩⟩
  constructor
  · rintro (inside | ⟨_, _, found⟩)
    · exact (listed.mp inside).2
    · exact found
  · intro found
    by_cases inside : id ∈ c.gone source
    · exact .inl (listed.mpr ⟨inside, found⟩)
    · refine .inr ⟨fun key => inside ?_, inside, found⟩
      rw [← moved_ids c source destination]
      exact keys.subset key

end

theorem initial : Catalog.initial.Sound where
  root := by decide
  forth := by
    intro p id found
    refine of_getElem?_insert found (by decide) ?_
    simp
  issued := by
    intro id p found
    refine of_getElem?_insert found (.inl rfl) ?_
    simp
  next := Nat.le_refl 16
  named := by
    intro id p found
    refine of_getElem?_insert found (fun other => absurd rfl other) ?_
    simp
  bound := by
    intro id text found
    simp [Catalog.initial] at found

section

variable (sound : c.Sound)
include sound

theorem dropId (named : rel ≠ []) : (c.dropId rel).Sound where
  root := dropId_pathToId.mpr ⟨Path.not_below_nil named, sound.root⟩
  forth := by
    intro p id found
    obtain ⟨outside, found⟩ := dropId_pathToId.mp found
    refine dropId_idToPath.mpr ⟨?_, sound.forth found⟩
    rw [sound.mem_gone_iff (sound.forth found)]
    exact fun inside => outside inside.1
  issued found := sound.issued (dropId_idToPath.mp found).2
  next := sound.next
  named found := sound.named (dropId_idToPath.mp found).2
  bound := by
    intro id text found
    obtain ⟨stays, found⟩ := dropId_hosts.mp found
    obtain ⟨other, p, known⟩ := sound.bound found
    exact ⟨other, p, dropId_idToPath.mpr ⟨stays, known⟩⟩

theorem moveIds (from_named : source ≠ []) (to_named : destination ≠ []) :
    (c.moveIds source destination).Sound where
  root := by
    refine moveIds_pathToId.mpr (.inr ⟨?_, Path.not_below_nil from_named, sound.root⟩)
    intro inside
    obtain ⟨⟨_, id⟩, inside, rfl⟩ := List.mem_map.mp inside
    obtain ⟨p, _, _, same⟩ := mem_moved.mp inside
    exact to_named (List.append_eq_nil_iff.mp same.symm).1
  forth := by
    intro q id found
    rw [sound.moveIds_idToPath]
    rcases moveIds_pathToId.mp found with inside | ⟨_, outside, found⟩
    · exact .inl inside
    · refine .inr ⟨?_, sound.forth found⟩
      rw [sound.mem_gone_iff (sound.forth found)]
      exact fun inside => outside inside.1
  issued := by
    intro id q found
    rcases sound.moveIds_idToPath.mp found with inside | ⟨_, found⟩
    · obtain ⟨p, _, found, _⟩ := mem_moved.mp inside
      exact sound.issued (sound.forth found)
    · exact sound.issued found
  next := sound.next
  named := by
    intro id q found other
    rcases sound.moveIds_idToPath.mp found with inside | ⟨_, found⟩
    · obtain ⟨p, _, _, rfl⟩ := mem_moved.mp inside
      exact fun empty => to_named (List.append_eq_nil_iff.mp empty).1
    · exact sound.named found other
  bound := by
    intro id text found
    rw [sound.moveIds_hosts] at found
    obtain ⟨other, p, known⟩ := sound.bound found
    refine ⟨other, ?_⟩
    by_cases inside : id ∈ c.gone source
    · rw [← moved_ids c source destination] at inside
      obtain ⟨⟨q, _⟩, listed, rfl⟩ := List.mem_map.mp inside
      exact ⟨q, sound.moveIds_idToPath.mpr (.inl listed)⟩
    · exact ⟨p, sound.moveIds_idToPath.mpr (.inr ⟨inside, known⟩)⟩

theorem fresh : c.idToPath[c.nextId]? = none := by
  rw [Option.eq_none_iff_forall_ne_some]
  intro p found
  have next := sound.next
  rcases sound.issued found with root | ⟨_, small⟩
  · rw [root, rootId] at next
    omega
  · omega

theorem issue (named : rel ≠ []) : (c.issue rel text).Sound where
  root := by
    rw [Catalog.issue, getElem?_insert_iff]
    exact .inr ⟨named.symm, sound.root⟩
  forth := getElem?_insert_inverse sound.forth sound.fresh
  issued := by
    intro id p found
    refine of_getElem?_insert found (.inr ⟨sound.next, Nat.lt_succ_self _⟩) fun found => ?_
    exact (sound.issued found).imp_right fun ⟨low, high⟩ => ⟨low, Nat.lt_succ_of_lt high⟩
  next := Nat.le_succ_of_le sound.next
  named found := of_getElem?_insert found (fun _ => named) sound.named
  bound := by
    intro id other found
    rw [Catalog.issue, getElem?_insert_iff] at found
    simp only [Catalog.issue, getElem?_insert_iff]
    have next := sound.next
    rcases found with ⟨rfl, rfl⟩ | ⟨old, found⟩
    · exact ⟨by rw [rootId]; omega, rel, .inl ⟨rfl, rfl⟩⟩
    · obtain ⟨apart, p, known⟩ := sound.bound found
      exact ⟨apart, p, .inr ⟨old, known⟩⟩

theorem bind (other : id ≠ rootId) (known : c.idToPath[id]? = some p) : (c.bind id text).Sound where
  root := sound.root
  forth := sound.forth
  issued := sound.issued
  next := sound.next
  named := sound.named
  bound found := of_getElem?_insert found ⟨other, p, known⟩ sound.bound

theorem pend {sidecar delete : Bool} : (c.pend source destination sidecar delete).Sound :=
  ⟨sound.root, sound.forth, sound.issued, sound.next, sound.named, sound.bound⟩

end

end Sound

end Catalog

end Pom68k.Afp
