import Pom68k.Afp.CatalogReading
import Pom68k.Afp.Metadata

/-! # Everything stays in the folder

Every path that the server hands to the host is the shared folder, a path of plain names below it,
the metadata beside such a path, or a file of its own catalogue.
-/

namespace Pom68k.Afp

open Foundation Program

/-! ## Places a server may touch -/

/-- A name that a file of the host can have. -/
def HostName (name : Name) : Prop := name ≠ [] ∧ slash ∉ name ∧ 0#8 ∉ name

/-- Names below the folder that are not hidden. -/
def PlainNames (names : List Name) : Prop :=
  ∀ name ∈ names, validPart name = true ∧ slash ∉ name

/-- The shared folder, a path below it, the metadata of either, or the catalogue. -/
inductive Confined : Spot → Prop where
  | plain {names : List Name} (plain : PlainNames names) : Confined (.under names)
  | metadataFolder {names : List Name} (plain : PlainNames names) :
      Confined (.under (names ++ [appleDouble]))
  | metadata {names : List Name} {name : Name} (plain : PlainNames names)
      (part : validPart name = true ∧ slash ∉ name) :
      Confined (.under (names ++ [appleDouble, name]))
  | staging {names : List Name} (plain : PlainNames names) :
      Confined (.under (names ++ [appleDouble, sidecarStaging]))
  | beside : Confined .beside
  | catalog : Confined (.under [catalogName])
  | catalogStaging : Confined (.under [catalogStaging])
  | lock : Confined (.under [lockName])

/-- The paths that an operation names to the host. -/
def HostOp.asked : HostOp → List Spot
  | .look names | .list names | .makeDir names | .makeDirs names | .create names
  | .resize names _ | .write names _ _ | .remove names | .sync names => [.under names]
  | .read spot => [spot]
  | .replace names _ =>
    [.under names, .under (names.dropLast ++ [sidecarStaging]), .under names.dropLast]
  | .rename source target => [.under source, .under target]
  | .purge folder _ => [.under folder]
  | .lock => [.under [lockName]]
  | .readCatalog => [.under [catalogName]]
  | .commit _ => [.under [catalogName], .under [catalogStaging], .under []]

def HostOp.Confined (op : HostOp) : Prop := ∀ spot ∈ op.asked, Afp.Confined spot

/-- All paths that an operation touches: what is found in a folder that is emptied goes as well. -/
def HostOp.paths (op : HostOp) : List Spot := op.asked ++ op.purged.map .under

theorem slash_not_mem_splitOn (rel : Path) : ∀ part ∈ rel.splitOn slash, slash ∉ part := by
  induction rel with
  | nil => simp [List.splitOn]
  | cons c rest ih =>
    rw [List.splitOn] at ih ⊢
    rw [List.splitOnP_cons_eq_if_modifyHead]
    split
    · simpa using ih
    case isFalse other =>
      cases parts : rest.splitOnP (· == slash) with
      | nil => simp
      | cons first others =>
        rw [parts, List.forall_mem_cons] at ih
        rw [List.modifyHead_cons, List.forall_mem_cons, List.mem_cons, not_or]
        exact ⟨⟨fun same => other (by simp [same]), ih.1⟩, ih.2⟩

variable {rel : Path} {op : HostOp} {names : List Name}

theorem Path.Tidy.plainNames (tidy : rel.Tidy) : PlainNames rel.names := by
  rcases tidy with rfl | valid
  · exact fun name inside => absurd inside (by simp [Path.names])
  · rw [Path.names, if_neg valid.ne_nil]
    exact fun name inside => ⟨valid name inside, slash_not_mem_splitOn rel name inside⟩

theorem PlainNames.dropLast (plain : PlainNames names) :
    PlainNames names.dropLast := fun name inside => plain name (List.mem_of_mem_dropLast inside)

theorem Path.Valid.names_ne_nil (valid : rel.Valid) : rel.names ≠ [] := by
  rw [Path.names, if_neg valid.ne_nil]
  exact List.splitOn_ne_nil slash rel

theorem confined_sidecar (valid : rel.Valid) : Confined (.under (sidecar rel.names)) := by
  have plain := Path.Tidy.plainNames (.inr valid)
  have last := List.getLast?_eq_some_getLast valid.names_ne_nil
  rw [sidecar, last]
  exact .metadata plain.dropLast (plain _ (List.getLast_mem valid.names_ne_nil))

theorem sidecar_dropLast (names : List Name) :
    (sidecar names).dropLast = names.dropLast ++ [appleDouble] := by
  rw [sidecar, List.dropLast_append_of_ne_nil (by simp)]
  rfl

theorem confined_spotOf (tidy : rel.Tidy) : Confined (spotOf rel) := by
  rw [spotOf]
  split
  · exact .beside
  case isFalse named => exact confined_sidecar (tidy.resolve_left named)

theorem confined_parent (tidy : rel.Tidy) : Confined (.under rel.names.dropLast) :=
  .plain tidy.plainNames.dropLast

theorem confined_metadataFolder (tidy : rel.Tidy) :
    Confined (.under (sidecar rel.names).dropLast) := by
  rw [sidecar_dropLast]
  exact .metadataFolder tidy.plainNames.dropLast

/-! ## Names on the host -/

/-- All names in the folder are names a host can give. -/
def Volume.Named (v : Volume) : Prop := ∀ item ∈ v.items, ∀ name ∈ item.1, HostName name

theorem hostName_of_part {name : Name} (part : validPart name = true ∧ slash ∉ name) :
    HostName name := by
  have valid := part.1
  rw [validPart, decide_eq_true_iff] at valid
  exact ⟨valid.1, part.2, valid.2.2⟩

theorem Confined.hostNames (confined : Confined (.under names)) :
    ∀ name ∈ names, HostName name := by
  have plain : ∀ {names : List Name}, PlainNames names → ∀ name ∈ names, HostName name :=
    fun plain name inside => hostName_of_part (plain name inside)
  have own : ∀ name ∈ [appleDouble, sidecarStaging, catalogName, Afp.catalogStaging, lockName],
      HostName name := by
    simp only [HostName]
    decide
  cases confined with
  | plain fine => exact plain fine
  | metadataFolder fine =>
    rw [List.forall_mem_append]
    exact ⟨plain fine, List.forall_mem_singleton.mpr (own _ (by decide))⟩
  | metadata fine part =>
    rw [List.forall_mem_append, List.forall_mem_cons, List.forall_mem_singleton]
    exact ⟨plain fine, own _ (by decide), hostName_of_part part⟩
  | staging fine =>
    rw [List.forall_mem_append, List.forall_mem_cons, List.forall_mem_singleton]
    exact ⟨plain fine, own _ (by decide), own _ (by decide)⟩
  | catalog | catalogStaging | lock => exact List.forall_mem_singleton.mpr (own _ (by decide))

namespace Volume

variable {v v' : Volume} {names : List Name}

theorem Named.put (named : v.Named) (fine : ∀ name ∈ names, HostName name) (node : Node) :
    (v.put names node).Named :=
  List.forall_mem_cons.mpr ⟨fine, fun item kept => named item (List.mem_filter.mp kept).1⟩

theorem Named.makeDirs (named : v.Named) (fine : ∀ name ∈ names, HostName name) {fresh : Identity}
    (made : v.makeDirs fresh names = some v') : v'.Named := by
  induction names generalizing v' with
  | nil =>
    cases made
    exact named
  | cons name above ih =>
    have upper := (List.forall_mem_cons.mp fine).2
    rw [Volume.makeDirs] at made
    split at made
    · split at made
      · cases made
        exact named
      · cases made
    · obtain ⟨v₁, first, rfl⟩ := Option.map_eq_some_iff.mp made
      refine (ih upper first).put ?_ _
      rw [List.forall_mem_append, List.forall_mem_singleton]
      exact ⟨fun name inside => upper name (List.mem_reverse.mp inside),
        (List.forall_mem_cons.mp fine).1⟩

theorem Named.settle (named : v.Named) {result : Option Volume}
    (made : ∀ v', result = some v' → v'.Named) : (v.settle result).2.Named := by
  cases result with
  | none => exact named
  | some v' => exact made v' rfl

theorem hostNames_plain (fine : ∀ name ∈ names, HostName name) :
    ∀ name ∈ Afp.plain names, HostName name := fun name inside =>
  fine name (List.mem_filter.mp inside).1

section

variable (named : v.Named)
include named

theorem Named.rewrite (fine : ∀ name ∈ names, HostName name)
    {change : Bytes → Bytes} (made : v.rewrite names change = some v') : v'.Named := by
  obtain ⟨node, _, made⟩ := Option.bind_eq_some_iff.mp made
  obtain ⟨data, _, rfl⟩ := Option.map_eq_some_iff.mp made
  exact named.put (hostNames_plain fine) _

theorem Named.create (fine : ∀ name ∈ names, HostName name) {fresh : Identity}
    (made : v.create fresh names = some v') : v'.Named := by
  rw [Volume.create] at made
  split at made
  all_goals
    split at made
    all_goals cases made
    exact named.put (hostNames_plain fine) _

theorem Named.rename {source target : List Name}
    (fine : ∀ name ∈ target, HostName name) (made : v.rename source target = some v') :
    v'.Named := by
  rw [Volume.rename] at made
  split at made
  · cases made
  split at made
  · cases made
    intro item listed
    obtain ⟨old, there, rfl⟩ := List.mem_map.mp listed
    dsimp only [renamed]
    split
    · rw [List.forall_mem_append]
      exact ⟨hostNames_plain fine, fun name inside => named old there name
        (List.mem_of_mem_drop inside)⟩
    · exact named old there
  · cases made

theorem Named.remove (names : List Name) : (v.remove names).2.Named := by
  rw [Volume.remove]
  split
  · exact named
  · split
    · exact named
    · exact fun item listed => named item (List.mem_filter.mp listed).1

/-- Operations inside the folder make no other names. -/
theorem Named.apply (inside : op.Confined) (answer : Answer) : (v.apply answer op).2.Named := by
  cases op with
  | look | list | sync | lock | readCatalog | commit => exact named
  | read spot =>
    cases spot
    · exact named
    · exact named
  | makeDir names =>
    have fine := (inside _ (List.mem_singleton_self _)).hostNames
    refine named.settle fun v' made => ?_
    rw [Volume.makeDir] at made
    split at made
    · cases made
      exact named.put (hostNames_plain fine) _
    · cases made
  | makeDirs names =>
    have fine := (inside _ (List.mem_singleton_self _)).hostNames
    refine named.settle fun v' made => named.makeDirs (fun name inside => ?_) made
    exact hostNames_plain fine name (List.mem_reverse.mp inside)
  | create names =>
    have fine := (inside _ (List.mem_singleton_self _)).hostNames
    exact named.settle fun v' made => named.create fine made
  | resize | write =>
    have fine := (inside _ (List.mem_singleton_self _)).hostNames
    exact named.settle fun v' made => named.rewrite fine made
  | replace names data =>
    have fine := (inside _ (List.mem_cons_self ..)).hostNames
    refine named.settle fun v' made => ?_
    rw [Volume.replace] at made
    split at made
    · cases made
      exact named.put (hostNames_plain fine) _
    · cases made
  | rename source target =>
    have fine := (inside (.under target) (by simp [HostOp.asked])).hostNames
    exact named.settle fun v' made => named.rename fine made
  | remove names => exact named.remove names
  | purge folder entry => exact named.remove entry

end

end Volume

/-! ## Catalogues of plain paths -/

namespace Catalog

/-- All paths of the catalogue are plain. -/
structure Neat (c : Catalog) : Prop extends c.Sound where
  tidy : ∀ {id : Nat} {p : Path}, c.idToPath[id]? = some p → p.Tidy
  source : c.pendingSource.Tidy
  destination : c.pendingDestination.Tidy

variable {c : Catalog} {source destination p : Path} {id : Nat} {text : Bytes}

section

variable (neat : c.Neat)
include neat

theorem Neat.pathToId (there : c.pathToId[p]? = some id) : p.Tidy := neat.tidy (neat.forth there)

theorem Neat.bind (other : id ≠ rootId) (known : c.idToPath[id]? = some p) :
    (c.bind id text).Neat :=
  ⟨neat.toSound.bind other known, neat.tidy, neat.source, neat.destination⟩

theorem Neat.dropId (named : rel ≠ []) : (c.dropId rel).Neat :=
  ⟨neat.toSound.dropId named, fun found => neat.tidy (dropId_idToPath.mp found).2, neat.source,
    neat.destination⟩

theorem Neat.moveIds (from_named : source ≠ []) (valid : destination.Valid) :
    (c.moveIds source destination).Neat := by
  refine ⟨neat.toSound.moveIds from_named valid.ne_nil, ?_, neat.source, neat.destination⟩
  intro id q found
  rcases neat.moveIds_idToPath.mp found with inside | ⟨_, found⟩
  · obtain ⟨p, below, there, rfl⟩ := mem_moved.mp inside
    have named : p ≠ [] := by
      rintro rfl
      exact Path.not_below_nil from_named below
    exact .inr (Path.Valid.moved below ((neat.pathToId there).resolve_left named) valid)
  · exact neat.tidy found

theorem Neat.issue (valid : rel.Valid) : (c.issue rel text).Neat := by
  refine ⟨neat.toSound.issue valid.ne_nil, ?_, neat.source, neat.destination⟩
  intro id p found
  exact of_getElem?_insert found (.inr valid) neat.tidy

theorem Neat.pend {sidecar delete : Bool} (from_tidy : source.Tidy)
    (to_tidy : destination.Tidy) : (c.pend source destination sidecar delete).Neat :=
  ⟨neat.toSound.pend, neat.tidy, from_tidy, to_tidy⟩

end

theorem neat_initial : Catalog.initial.Neat where
  toSound := .initial
  tidy := by
    intro id p found
    refine of_getElem?_insert found (.inl rfl) ?_
    simp
  source := .inl rfl
  destination := .inl rfl

theorem Accepted.neat (accepted : c.Accepted) : c.Neat where
  toSound := accepted.toSound
  tidy := by
    intro id p found
    by_cases root : id = rootId
    · subst root
      exact .inl (Option.some.inj (found.symm.trans accepted.idToPath_root))
    · exact .inr (accepted.valid (accepted.back found) root)
  source := by
    have journal := accepted.journal
    rw [journalValid, decide_eq_true_iff] at journal
    by_cases none : c.pendingSource = []
    · exact .inl none
    · exact .inr (validCatalogPath_iff.mp (journal.2.2 none).1)
  destination := by
    have journal := accepted.journal
    rw [journalValid, decide_eq_true_iff] at journal
    by_cases none : c.pendingSource = []
    · exact .inl (journal.2.1 none).1
    · have target := (journal.2.2 none).2.2
      split at target
      · exact .inl target
      · exact .inr (validCatalogPath_iff.mp target.1)

end Catalog

/-! ## Operations that stay inside -/

/-- The catalogue is neat and everything done so far stayed inside. -/
structure Safe (w : World) : Prop where
  neat : w.cat.Neat
  named : w.vol.Named
  confined : ∀ moment ∈ w.trace, moment.op.Confined

theorem Safe.did {w : World} (safe : Safe w) (inside : op.Confined) : Safe (w.did op) := by
  refine ⟨safe.neat, ?_, List.forall_mem_cons.mpr ⟨inside, safe.confined⟩⟩
  rw [World.did]
  dsimp only [World.volAfter]
  split
  · exact safe.named
  · exact safe.named.apply inside _

theorem Safe.withCat {w : World} (safe : Safe w) {c : Catalog} (neat : c.Neat) :
    Safe (w.withCat c) := ⟨neat, safe.named, safe.confined⟩

/-- An operation that touches one place. -/
theorem confined_single {spot : Spot} (only : op.asked = [spot]) (inside : Confined spot) :
    op.Confined := by
  intro other listed
  rw [only] at listed
  obtain rfl := List.mem_singleton.mp listed
  exact inside

theorem confined_look (tidy : rel.Tidy) : (HostOp.look rel.names).Confined :=
  confined_single rfl (.plain tidy.plainNames)

theorem confined_commit (bytes : Bytes) : (HostOp.commit bytes).Confined := by
  intro spot listed
  simp only [HostOp.asked, List.mem_cons, List.not_mem_nil, or_false] at listed
  rcases listed with rfl | rfl | rfl
  · exact .catalog
  · exact .catalogStaging
  · exact .plain (by simp [PlainNames])

theorem Safe.save {w w' : World} (step : Save w w') (safe : Safe w) : Safe w' := by
  cases step with
  | look known => exact safe.did (confined_look (safe.neat.pathToId known))
  | bind known other => exact safe.withCat (safe.neat.bind other (safe.neat.forth known))
  | commit => exact safe.did (confined_commit _)

theorem Safe.tend {w w' : World} (tidy : rel.Tidy) (step : Tend rel w w') (safe : Safe w) :
    Safe w' := by
  have valid : rel ≠ [] → rel.Valid := tidy.resolve_left
  cases step with
  | save step => exact safe.save step
  | look known =>
    rcases known with rfl | ⟨id, leads⟩
    · exact safe.did (confined_look tidy)
    · exact safe.did (confined_look (safe.neat.tidy leads))
  | bind named there =>
    exact safe.withCat (safe.neat.bind (safe.neat.ne_root named there) (safe.neat.forth there))
  | drop named => exact safe.withCat (safe.neat.dropId named)
  | move named _ leads bound =>
    exact safe.withCat
      (safe.neat.moveIds (safe.neat.named leads (safe.neat.bound bound).1) (valid named))
  | issue named => exact safe.withCat (safe.neat.issue (valid named))

end Pom68k.Afp
