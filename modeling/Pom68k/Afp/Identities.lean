import Pom68k.Afp.CatalogFile

/-! # Numbers for host objects

The server at work on its catalogue: every look at the host and every change of it is one
operation, and a number follows its object from name to name by what the host calls the object.
-/

namespace Pom68k.Afp

open Foundation Program

/-- An operation, and the disk and the catalogue right after it. -/
structure Moment where
  op : HostOp
  vol : Volume
  cat : Catalog

structure World where
  cat : Catalog
  vol : Volume
  /-- What has been done, the last first. -/
  trace : List Moment
  /-- What the host answers, by the number of the operation. -/
  oracle : Nat → Answer

abbrev Action := Program World CatalogError

namespace World

variable (w : World)

def answer : Answer := w.oracle w.trace.length

def outcome (op : HostOp) : Outcome :=
  if w.answer.refuses then .refused else (w.vol.apply w.answer op).1

def volAfter (op : HostOp) : Volume :=
  if w.answer.refuses then w.vol else (w.vol.apply w.answer op).2

def did (op : HostOp) : World :=
  { w with vol := w.volAfter op, trace := ⟨op, w.volAfter op, w.cat⟩ :: w.trace }

def withCat (cat : Catalog) : World := { w with cat := cat }

end World

def perform (op : HostOp) : Action Outcome := do
  let w ← get
  set (w.did op)
  return w.outcome op

def update (change : Catalog → Catalog) : Action Unit := modify fun w => w.withCat (change w.cat)

/-- The same files and folders; the catalogue file may differ. -/
def Volume.SameTree (v' v : Volume) : Prop := v'.root = v.root ∧ v'.items = v.items

/-- The text of what a path leads to, empty when there is nothing. -/
def Volume.identityAt (v : Volume) (rel : Path) : Bytes :=
  match v.look rel.names with
  | some node => node.identity.text
  | none => []

def hostIdentity (rel : Path) : Action Bytes := do
  let w ← get
  match ← perform (.look rel.names) with
  | .refused => throw .uninspectedIdentity
  | .absent => return []
  | .done => if w.answer.birthless then throw .birthless else return w.vol.identityAt rel

/-! ## Saving -/

/-- The identity that is saved with a number. Entries of older files are given theirs now. -/
def boundIdentity (path : Path) (id : Nat) : Action Bytes := do
  let known := ((← get).cat.hosts[id]?).getD []
  if known ≠ [] then return known
  else
    update (·.bind id [])
    let identity ← hostIdentity path
    update (·.bind id identity)
    if identity = [] then throw .unboundLegacy else return identity

def saveRecords : List (Path × Nat) → Bytes → Action Bytes
  | [], bytes => pure bytes
  | (path, id) :: rest, bytes =>
    if id = rootId then saveRecords rest bytes
    else do
      let identity ← boundIdentity path id
      let bytes := bytes ++ recordBytes path id identity
      if maxCatalogBytes - 4 < bytes.length then throw .full
      else saveRecords rest bytes

def saveCatalog : Action Unit := do
  let c := (← get).cat
  let bytes ← saveRecords c.pathToId.toList (headerBytes c)
  let bytes := bytes ++ journalBytes c
  if maxCatalogBytes - 4 < bytes.length then throw .full
  else
    match ← perform (.commit (sealed bytes)) with
    | .done => return ()
    | _ => throw .uncommitted

/-! ## Numbers and paths -/

/-- The path that stands for none. -/
def noPath : Path := [0x01]

def pathForId (id : Nat) : Action Path := do
  let c := (← get).cat
  match c.idToPath[id]? with
  | none => return noPath
  | some path =>
    match c.hosts[id]? with
    | none => return path
    | some identity => if (← hostIdentity path) ≠ identity then return noPath else return path

def dropId (rel : Path) : Action Unit := do
  update (·.dropId rel)
  saveCatalog

def moveIds (source destination : Path) : Action Unit := do
  update (·.moveIds source destination)
  saveCatalog

/-- The one number among the entries whose object has the identity and is no longer where the
number leads, or zero when there are several. -/
def displaced (identity : Bytes) (found : Nat) : List (Nat × Bytes) → Action Nat
  | [] => pure found
  | (id, known) :: rest =>
    if known ≠ identity then displaced identity found rest
    else do
      match (← get).cat.idToPath[id]? with
      | none => throw .outOfRange
      | some path =>
        if (← hostIdentity path) = identity then displaced identity found rest
        else if found ≠ 0 then return 0
        else displaced identity id rest

/-- The number of an object that is not under its path in the catalogue. -/
def newIdFor (rel : Path) (identity : Bytes) : Action Nat := do
  let found ← displaced identity 0 (← get).cat.hosts.toList
  if found ≠ 0 then
    match (← get).cat.idToPath[found]? with
    | none => throw .outOfRange
    | some previous =>
      moveIds previous rel
      return found
  else
    let id := (← get).cat.nextId
    if id = 2 ^ 32 - 1 then throw .exhausted
    else
      update (·.issue rel identity)
      saveCatalog
      return id

def idForPath (rel : Path) : Action Nat := do
  if rel = [] then return rootId
  else
    let identity ← hostIdentity rel
    if identity = [] then throw .missingObject
    else
      let c := (← get).cat
      match c.pathToId[rel]? with
      | none => newIdFor rel identity
      | some id =>
        if c.hosts[id]?.all (· = identity) then
          update (·.bind id identity)
          return id
        else
          -- the name is the same, the object is not
          update (·.dropId rel)
          newIdFor rel identity

/-! ## Looking -/

variable {rel : Path} {w : World}

section Rules

variable {r : World → World → Prop} {Q : Outcome → World → Prop} {op : HostOp}

@[simp] theorem World.did_look_vol (names : List Name) : (w.did (.look names)).vol = w.vol := by
  simp only [World.did, World.volAfter, Volume.apply, ite_self]

theorem wp_perform {R : CatalogError → World → Prop} :
    wp (perform op) Q R w ↔ Q (w.outcome op) (w.did op) := Iff.rfl

theorem steps_perform (step : r w (w.did op)) (result : Q (w.outcome op) (w.did op)) :
    Steps r (perform op) Q w := ⟨.single step, result⟩

theorem outcome_look_absent {names : List Name} (outcome : w.outcome (.look names) = .absent) :
    w.vol.look names = none := by
  rw [World.outcome] at outcome
  split at outcome
  · cases outcome
  cases found : w.vol.look names with
  | none => rfl
  | some node =>
    rw [Volume.apply, found] at outcome
    cases outcome

theorem steps_perform_bind {α : Type} {f : Outcome → Action α} {Q : α → World → Prop}
    (step : r w (w.did op)) (rest : Steps r (f (w.outcome op)) Q (w.did op)) :
    Steps r (perform op >>= f) Q w :=
  (steps_perform (Q := fun o s => o = w.outcome op ∧ s = w.did op) step ⟨rfl, rfl⟩).bind
    fun _ _ same => by
      rwa [same.1, same.2]

theorem steps_hostIdentity {Q : Bytes → World → Prop} (step : r w (w.did (.look rel.names)))
    (result : Q (w.vol.identityAt rel) (w.did (.look rel.names))) :
    Steps r (hostIdentity rel) Q w := by
  refine steps_get_bind (steps_perform_bind step ?_)
  cases outcome : w.outcome (.look rel.names) with
  | refused => exact steps_throw _
  | absent =>
    have nothing := outcome_look_absent outcome
    rw [Volume.identityAt, nothing] at result
    exact steps_pure result
  | done =>
    dsimp only
    split
    · exact steps_throw _
    · exact steps_pure result

theorem steps_hostIdentity_bind {α : Type} {f : Bytes → Action α} {Q : α → World → Prop}
    (step : r w (w.did (.look rel.names)))
    (rest : Steps r (f (w.vol.identityAt rel)) Q (w.did (.look rel.names))) :
    Steps r (hostIdentity rel >>= f) Q w :=
  (steps_hostIdentity (Q := fun a s => a = w.vol.identityAt rel ∧ s = w.did (.look rel.names)) step
    ⟨rfl, rfl⟩).bind fun _ _ same => by
      rwa [same.1, same.2]

end Rules

/-! ## What saving does -/

namespace Catalog

/-- The identity kept with a number, empty when there is none. -/
def known (c : Catalog) (id : Nat) : Bytes := (c.hosts[id]?).getD []

def entryBytes (c : Catalog) (entry : Path × Nat) : Bytes :=
  if entry.2 = rootId then [] else recordBytes entry.1 entry.2 (c.known entry.2)

/-- The file without its checksum. -/
def render (c : Catalog) : Bytes :=
  headerBytes c ++ c.pathToId.toList.flatMap c.entryBytes ++ journalBytes c

/-- Every number has an identity. -/
def Bound (c : Catalog) : Prop :=
  ∀ {p : Path} {id : Nat}, c.pathToId[p]? = some id → id ≠ rootId → c.known id ≠ []

/-- Only identities that were missing have been filled in. -/
def Filled (c c' : Catalog) : Prop :=
  c' = { c with hosts := c'.hosts } ∧ ∀ id, c.known id ≠ [] → c'.known id = c.known id

theorem Filled.refl (c : Catalog) : Filled c c := ⟨rfl, fun _ _ => rfl⟩

theorem Filled.trans {a b c : Catalog} (first : Filled a b) (second : Filled b c) : Filled a c := by
  refine ⟨?_, fun id kept => ?_⟩
  · rw [second.1, first.1]
  · rw [second.2 id (by rwa [first.2 id kept]), first.2 id kept]

theorem known_bind (c : Catalog) (id other : Nat) (text : Bytes) :
    (c.bind id text).known other = if other = id then text else c.known other := by
  rw [known, Catalog.bind, Std.ExtTreeMap.getElem?_insert]
  by_cases same : other = id
  · subst same
    simp
  · have apart : compare id other ≠ .eq := fun eq => same (Std.LawfulEqCmp.eq_of_compare eq).symm
    simp [same, apart, known]

theorem Filled.bind {c : Catalog} {id : Nat} {text : Bytes} (unbound : c.known id = []) :
    Filled c (c.bind id text) := by
  refine ⟨rfl, fun other kept => ?_⟩
  rw [known_bind, if_neg]
  rintro rfl
  exact kept unbound

end Catalog

/-- The steps of saving. -/
inductive Save : World → World → Prop where
  | look {w : World} {path : Path} {id : Nat} (known : w.cat.pathToId[path]? = some id) :
      Save w (w.did (.look path.names))
  | bind {w : World} {path : Path} {id : Nat} {text : Bytes}
      (known : w.cat.pathToId[path]? = some id) (other : id ≠ rootId)
      (unbound : w.cat.known id = []) (text_eq : text = [] ∨ text = w.vol.identityAt path) :
      Save w (w.withCat (w.cat.bind id text))
  | commit {w : World} (bound : w.cat.Bound)
      (fits : w.cat.render.length ≤ maxCatalogBytes - 4) :
      Save w (w.did (.commit (sealed w.cat.render)))

theorem steps_boundIdentity {path : Path} {id : Nat} (there : w.cat.pathToId[path]? = some id)
    (other : id ≠ rootId) :
    Steps Save (boundIdentity path id)
      (fun text w' => w.cat.Filled w'.cat ∧ w'.vol = w.vol ∧ text ≠ [] ∧ w'.cat.known id = text)
      w := by
  refine steps_get_bind ?_
  dsimp only
  split
  case isTrue kept => exact steps_pure ⟨.refl _, rfl, kept, rfl⟩
  case isFalse missing =>
    have unbound : w.cat.known id = [] := not_not.mp missing
    refine steps_modify_bind (.bind there other unbound (.inl rfl)) ?_
    refine steps_hostIdentity_bind (.look there) ?_
    set w₁ := w.withCat (w.cat.bind id [])
    have empty : w₁.cat.known id = [] := by
      rw [show w₁.cat = w.cat.bind id [] from rfl, Catalog.known_bind, if_pos rfl]
    refine steps_modify_bind ?_ ?_
    · exact .bind there other empty (.inr (by rw [World.did_look_vol]))
    · split
      · exact steps_throw _
      case isFalse named =>
        refine steps_pure ⟨?_, World.did_look_vol _, named, ?_⟩
        · exact (Catalog.Filled.bind unbound).trans (Catalog.Filled.bind empty)
        · exact (Catalog.known_bind _ _ _ _).trans (if_pos rfl)

theorem Catalog.Filled.pathToId {c c' : Catalog} (filled : c.Filled c') :
    c'.pathToId = c.pathToId := by
  rw [filled.1]

theorem steps_saveRecords {entries : List (Path × Nat)} {bytes : Bytes}
    (there : ∀ entry ∈ entries, w.cat.pathToId[entry.1]? = some entry.2) :
    Steps Save (saveRecords entries bytes)
      (fun out w' => w.cat.Filled w'.cat ∧ w'.vol = w.vol ∧
        (∀ entry ∈ entries, entry.2 ≠ rootId → w'.cat.known entry.2 ≠ []) ∧
        out = bytes ++ entries.flatMap w'.cat.entryBytes) w := by
  induction entries generalizing bytes w with
  | nil => exact steps_pure ⟨.refl _, rfl, by simp, by simp⟩
  | cons entry rest ih =>
    obtain ⟨path, id⟩ := entry
    have first := there _ (List.mem_cons_self ..)
    have later : ∀ entry ∈ rest, w.cat.pathToId[entry.1]? = some entry.2 := fun entry inside =>
      there entry (List.mem_cons_of_mem _ inside)
    rw [saveRecords]
    split
    case isTrue root =>
      refine (ih later).mono ?_
      rintro out w' ⟨filled, vol, bound, rfl⟩
      refine ⟨filled, vol, List.forall_mem_cons.mpr ⟨fun other => absurd root other, bound⟩, ?_⟩
      rw [List.flatMap_cons, Catalog.entryBytes, if_pos root, List.nil_append]
    case isFalse other =>
      refine (steps_boundIdentity first other).bind ?_
      rintro text w₁ ⟨filled₁, vol₁, named, known⟩
      dsimp only
      split
      · exact steps_throw _
      rw [← filled₁.pathToId] at later
      refine (ih later).mono ?_
      rintro out w' ⟨filled, vol, bound, rfl⟩
      have kept : w'.cat.known id = text := by rw [filled.2 id (by rwa [known]), known]
      refine ⟨filled₁.trans filled, vol.trans vol₁,
        List.forall_mem_cons.mpr ⟨fun _ => by rwa [kept], bound⟩, ?_⟩
      rw [List.flatMap_cons, Catalog.entryBytes, if_neg other, kept, List.append_assoc]

theorem steps_saveCatalog :
    Steps Save saveCatalog
      (fun _ w' => w.cat.Filled w'.cat ∧ w'.cat.Bound ∧
        w'.vol = { w.vol with catalog := some (sealed w'.cat.render) }) w := by
  refine steps_get_bind ((steps_saveRecords fun entry inside => ?_).bind ?_)
  · exact Std.ExtTreeMap.mem_toList_iff_getElem?_eq_some.mp inside
  rintro out w₁ ⟨filled, vol, bound, rfl⟩
  dsimp only
  have rendered : headerBytes w.cat ++ w.cat.pathToId.toList.flatMap w₁.cat.entryBytes ++
      journalBytes w.cat = w₁.cat.render := by
    rw [filled.1]
    rfl
  have all : w₁.cat.Bound := by
    intro p id found other
    rw [filled.pathToId] at found
    exact bound (p, id) (Std.ExtTreeMap.mem_toList_iff_getElem?_eq_some.mpr found) other
  rw [rendered]
  split
  · exact steps_throw _
  case isFalse fits =>
    refine steps_perform_bind (.commit all (Nat.le_of_not_lt fits)) ?_
    cases outcome : w₁.outcome (.commit (sealed w₁.cat.render)) with
    | refused | absent => exact steps_throw _
    | done =>
      refine steps_pure ⟨filled, all, ?_⟩
      rw [World.outcome] at outcome
      rw [World.did]
      dsimp only [World.volAfter]
      split at outcome
      · cases outcome
      case isFalse accepted =>
        rw [if_neg accepted, Volume.apply, vol]

/-! ## What asking for a number does -/

/-- The steps of finding the number of a path. -/
inductive Tend (rel : Path) : World → World → Prop where
  | save {w w' : World} (step : Save w w') : Tend rel w w'
  | look {w : World} {path : Path}
      (known : path = rel ∨ ∃ id : Nat, w.cat.idToPath[id]? = some path) :
      Tend rel w (w.did (.look path.names))
  | bind {w : World} {id : Nat} (named : rel ≠ []) (there : w.cat.pathToId[rel]? = some id)
      (same : w.cat.hosts[id]?.all (· = w.vol.identityAt rel) = true)
      (found : w.vol.identityAt rel ≠ []) :
      Tend rel w (w.withCat (w.cat.bind id (w.vol.identityAt rel)))
  | drop {w : World} {id : Nat} {old : Bytes} (named : rel ≠ [])
      (there : w.cat.pathToId[rel]? = some id) (bound : w.cat.hosts[id]? = some old)
      (other : old ≠ w.vol.identityAt rel) : Tend rel w (w.withCat (w.cat.dropId rel))
  | move {w : World} {id : Nat} {previous : Path} (named : rel ≠ [])
      (absent : w.cat.pathToId[rel]? = none) (leads : w.cat.idToPath[id]? = some previous)
      (bound : w.cat.hosts[id]? = some (w.vol.identityAt rel)) (found : w.vol.identityAt rel ≠ [])
      (displaced : w.vol.identityAt previous ≠ w.vol.identityAt rel) :
      Tend rel w (w.withCat (w.cat.moveIds previous rel))
  | issue {w : World} (named : rel ≠ []) (absent : w.cat.pathToId[rel]? = none)
      (room : w.cat.nextId ≠ 2 ^ 32 - 1) (found : w.vol.identityAt rel ≠ []) :
      Tend rel w (w.withCat (w.cat.issue rel (w.vol.identityAt rel)))

/-- How a number was found for an object that was not under its path. -/
inductive Renumbered (rel : Path) (identity : Bytes) (c : Catalog) : Nat → Catalog → Prop where
  | moved {id : Nat} {previous : Path} {c' : Catalog} (leads : c.idToPath[id]? = some previous)
      (bound : c.hosts[id]? = some identity) (filled : (c.moveIds previous rel).Filled c') :
      Renumbered rel identity c id c'
  | issued {c' : Catalog} (filled : (c.issue rel identity).Filled c') :
      Renumbered rel identity c c.nextId c'

/-- How a number was found. -/
inductive Identified (rel : Path) (identity : Bytes) (c : Catalog) : Nat → Catalog → Prop where
  | known {id : Nat} (there : c.pathToId[rel]? = some id) :
      Identified rel identity c id (c.bind id identity)
  | absent {id : Nat} {c' : Catalog} (absent : c.pathToId[rel]? = none)
      (found : Renumbered rel identity c id c') : Identified rel identity c id c'
  | replaced {id old : Nat} {c' : Catalog} (there : c.pathToId[rel]? = some old)
      (found : Renumbered rel identity (c.dropId rel) id c') : Identified rel identity c id c'

/-- The object of a number is no longer where the number leads. -/
def Displaced (c : Catalog) (v : Volume) (identity : Bytes) (id : Nat) : Prop :=
  c.hosts[id]? = some identity ∧ ∀ path, c.idToPath[id]? = some path → v.identityAt path ≠ identity

theorem steps_displaced {identity : Bytes} {found : Nat} {entries : List (Nat × Bytes)}
    (bound : ∀ entry ∈ entries, w.cat.hosts[entry.1]? = some entry.2)
    (so_far : found ≠ 0 → Displaced w.cat w.vol identity found) :
    Steps (Tend rel) (displaced identity found entries)
      (fun id w' => w'.cat = w.cat ∧ w'.vol = w.vol ∧
        (id ≠ 0 → Displaced w.cat w.vol identity id)) w := by
  induction entries generalizing found w with
  | nil => exact steps_pure ⟨rfl, rfl, so_far⟩
  | cons entry rest ih =>
    obtain ⟨id, known⟩ := entry
    have first := bound _ (List.mem_cons_self ..)
    have later : ∀ entry ∈ rest, w.cat.hosts[entry.1]? = some entry.2 := fun entry inside =>
      bound entry (List.mem_cons_of_mem _ inside)
    rw [displaced]
    split
    · exact ih later so_far
    case isFalse same =>
      obtain rfl := not_not.mp same
      refine steps_get_bind ?_
      split
      · exact steps_throw _
      case h_2 path leads =>
        refine steps_hostIdentity_bind (.look (.inr ⟨id, leads⟩)) ?_
        have again : ∀ {start : Nat}, (start ≠ 0 → Displaced w.cat w.vol known start) →
            Steps (Tend rel) (displaced known start rest)
              (fun id w' => w'.cat = w.cat ∧ w'.vol = w.vol ∧
                (id ≠ 0 → Displaced w.cat w.vol known id)) (w.did (.look path.names)) := by
          intro start kept
          have steps := @ih (w.did (.look path.names)) start later
            (by rwa [World.did_look_vol])
          rwa [World.did_look_vol] at steps
        split
        · exact again so_far
        case isFalse elsewhere =>
          split
          · exact steps_pure ⟨rfl, World.did_look_vol _, fun other => absurd rfl other⟩
          · refine again fun _ => ⟨first, fun other found => ?_⟩
            rwa [Option.some.inj (found.symm.trans leads)]

theorem steps_newIdFor (named : rel ≠ []) (absent : w.cat.pathToId[rel]? = none)
    (found : w.vol.identityAt rel ≠ []) : Steps (Tend rel) (newIdFor rel (w.vol.identityAt rel))
      (fun id w' => Renumbered rel (w.vol.identityAt rel) w.cat id w'.cat ∧
        w'.vol.SameTree w.vol) w := by
  refine steps_get_bind ((steps_displaced (fun entry inside => ?_) (absurd rfl)).bind ?_)
  · exact Std.ExtTreeMap.mem_toList_iff_getElem?_eq_some.mp inside
  rintro id w₁ ⟨cat, vol, bound⟩
  split
  case isTrue some =>
    refine steps_get_bind ?_
    split
    · exact steps_throw _
    case h_2 previous leads =>
      rw [← vol] at found
      have moves : Steps (Tend rel) (moveIds previous rel) (fun _ w' =>
          (w.cat.moveIds previous rel).Filled w'.cat ∧ w'.vol.SameTree w.vol) w₁ := by
        refine steps_modify_bind ?_ ((steps_saveCatalog.widen fun _ _ => .save).mono ?_)
        · rw [← cat, ← vol] at bound
          exact .move named (by rwa [cat]) leads (bound some).1 found ((bound some).2 _ leads)
        · rintro _ w' ⟨filled, _, disk⟩
          rw [disk, ← vol, ← cat]
          exact ⟨filled, rfl, rfl⟩
      refine moves.bind ?_
      rintro _ w' ⟨filled, disk⟩
      exact steps_pure ⟨.moved (by rwa [← cat]) (bound some).1 filled, disk⟩
  case isFalse none =>
    refine steps_get_bind ?_
    dsimp only
    split
    · exact steps_throw _
    case isFalse room =>
      rw [← vol] at found ⊢
      refine steps_modify_bind (.issue named (by rwa [cat]) room found) ?_
      refine (steps_saveCatalog.widen fun _ _ => .save).bind ?_
      rintro _ w' ⟨filled, _, disk⟩
      refine steps_pure ⟨?_, by rw [disk]; exact ⟨rfl, rfl⟩⟩
      rw [cat] at filled ⊢
      exact .issued filled

theorem steps_idForPath : Steps (Tend rel) (idForPath rel) (fun id w' => w'.vol.SameTree w.vol ∧
        (rel = [] ∧ id = rootId ∧ w'.cat = w.cat ∨
          rel ≠ [] ∧ w.vol.identityAt rel ≠ [] ∧
            Identified rel (w.vol.identityAt rel) w.cat id w'.cat)) w := by
  rw [idForPath]
  split
  case isTrue root => exact steps_pure ⟨⟨rfl, rfl⟩, .inl ⟨root, rfl, rfl⟩⟩
  case isFalse named =>
    refine steps_hostIdentity_bind (.look (.inl rfl)) ?_
    split
    · exact steps_throw _
    case isFalse found =>
      refine steps_get_bind ?_
      set w₁ := w.did (.look rel.names)
      have vol : w₁.vol = w.vol := World.did_look_vol _
      rw [← vol] at found ⊢
      dsimp only
      split
      case h_1 absent =>
        refine (steps_newIdFor named absent found).mono ?_
        rintro id w' ⟨numbered, disk⟩
        exact ⟨disk, .inr ⟨named, found, .absent absent numbered⟩⟩
      case h_2 id there =>
        split
        case isTrue same =>
          refine steps_modify_bind (.bind named there same found) (steps_pure ⟨⟨rfl, rfl⟩, .inr ?_⟩)
          exact ⟨named, found, .known there⟩
        case isFalse differs =>
          obtain ⟨old, bound, other⟩ : ∃ old, w₁.cat.hosts[id]? = some old ∧
              old ≠ w₁.vol.identityAt rel := by
            cases bound : w₁.cat.hosts[id]? with
            | none => simp [bound] at differs
            | some old => exact ⟨old, rfl, by simpa [bound] using differs⟩
          refine steps_modify_bind (.drop named there bound other) ?_
          have gone : (w₁.cat.dropId rel).pathToId[rel]? = none := by
            rw [Option.eq_none_iff_forall_ne_some]
            exact fun id found => (Catalog.dropId_pathToId.mp found).1 (.inl rfl)
          refine (steps_newIdFor (w := w₁.withCat (w₁.cat.dropId rel)) named gone found).mono ?_
          rintro id' w' ⟨numbered, disk⟩
          exact ⟨disk, .inr ⟨named, found, .replaced there numbered⟩⟩

end Pom68k.Afp
