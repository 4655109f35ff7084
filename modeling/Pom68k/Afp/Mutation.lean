import Pom68k.Afp.Identities

/-! # Moves and deletions

A move or a deletion touches an object, the metadata beside it and the catalogue. The catalogue
is saved with the operation pending in it before the host is touched, and once more without it
when everything is done; a server that starts with a pending operation finishes or forgets it.
-/

namespace Pom68k.Afp

open Foundation Program

def present (names : List Name) : Action Bool := do
  match ← perform (.look names) with
  | .refused => throw .uninspectedPath
  | .absent => return false
  | .done => return true

def syncParent (names : List Name) : Action Unit := do
  match ← perform (.sync names.dropLast) with
  | .done => return ()
  | _ => throw .unsynced

/-! ## Moves -/

/-- The metadata at its new place, unless an earlier attempt has moved it. -/
def moveSidecar (src dst : List Name) : Bool → Action Unit
  | false => return ()
  | true => do
      match ← perform (.makeDirs dst.dropLast) with
      | .done =>
        match ← perform (.rename src dst) with
        | .done => return ()
        | _ => throw .unfinishedMove
      | _ => throw .unfinishedMove

def finishSidecar (src dst : List Name) : Bool → Action Unit
  | false => return ()
  | true => do
      let source ← present src
      let destination ← present dst
      if source = destination then throw .ambiguousSidecar
      else
        moveSidecar src dst source
        syncParent src
        syncParent dst

def finishCatalogMove : Action Unit := do
  let c := (← get).cat
  let source := c.pendingSource
  let destination := c.pendingDestination
  finishSidecar (sidecar source.names) (sidecar destination.names) c.pendingSidecar
  syncParent source.names
  syncParent destination.names
  update fun c => c.pend [] [] false c.pendingDelete
  moveIds source destination

def moveHostPath (source destination : Path) : Action Int := do
  if source = [] ∨ destination = [] then return -5000
  else
    let src := source.names
    let dst := destination.names
    if !(← present src) then return -5018
    else if ← present dst <||> present (sidecar dst) then return -5017
    else
      let hasSidecar ← present (sidecar src)
      let _ ← idForPath source
      update fun c => c.pend source destination hasSidecar c.pendingDelete
      saveCatalog
      match ← perform (.rename src dst) with
      | .done =>
        syncParent src
        syncParent dst
        finishCatalogMove
        return 0
      | _ =>
        update fun c => c.pend [] [] false c.pendingDelete
        saveCatalog
        return -5018

/-! ## Deletions -/

/-- One object after another; the first that stays ends it. -/
def removeEach (folder : List Name) : List (List Name) → Action Bool
  | [] => return true
  | names :: rest => do
      match ← perform (.purge folder names) with
      | .refused => return false
      | _ => removeEach folder rest

/-- What is at and below a name, the furthest down first. -/
def Volume.tree (v : Volume) (names : List Name) : List (List Name) :=
  ((v.items.map (·.1)).filter fun item => plain names <+: item).insertionSort
    fun a b => b.length ≤ a.length

def removeSidecar (metadata : List Name) : Bool → Action Unit
  | false => return ()
  | true => do
      match ← perform (.remove metadata) with
      | .refused => throw .unfinishedDeletion
      | _ => syncParent metadata

def finishCatalogDelete : Action Unit := do
  let c := (← get).cat
  let host := c.pendingSource.names
  removeSidecar (sidecar host) c.pendingSidecar
  syncParent host
  update fun c => c.pend [] c.pendingDestination false false
  dropId c.pendingSource

/-- The error that stands in the way of a deletion, if there is one, and whether it is a folder. -/
def inspect (host : List Name) : Action (Except Int Bool) := do
  let v := (← get).vol
  match ← perform (.look host) with
  | .refused => return .error (-5000)
  | _ =>
    if (v.look host).any Node.isDir then
      match ← perform (.list host) with
      | .done =>
        if (v.listing host).any (· ≠ appleDouble) then return .error (-5007)
        else return .ok true
      | _ => return .error (-5000)
    else return .ok false

/-- What is left of the metadata in a folder. -/
def clearFolder (host : List Name) : Bool → Action Bool
  | false => return true
  | true => do
      let folder := host ++ [appleDouble]
      removeEach folder ((← get).vol.tree folder)

/-- Whether the object is gone. -/
def removeObject (host : List Name) (directory : Bool) : Action Bool := do
  if ← clearFolder host directory then
    match ← perform (.remove host) with
    | .done => return true
    | _ => return false
  else return false

def deleteHostPath (source : Path) : Action Int := do
  if source = [] then return -5000
  else
    let host := source.names
    if !(← present host) then return -5018
    else
      match ← inspect host with
      | .error e => return e
      | .ok directory =>
        let _ ← idForPath source
        update fun c => c.pend source [] c.pendingSidecar true
        let hasSidecar ← present (sidecar host)
        update fun c => c.pend source [] hasSidecar true
        saveCatalog
        if ← removeObject host directory then
          syncParent host
          finishCatalogDelete
          return 0
        else
          update fun c => c.pend [] c.pendingDestination false false
          saveCatalog
          return -5000

/-! ## Starting -/

/-- What the host must have kept of the object of a pending operation. -/
def checkPending (c : Catalog) (source : Bool) : Action Unit := do
  match (c.pathToId[c.pendingSource]?).bind fun id => c.hosts[id]? with
  | none => return ()
  | some identity =>
    if source then
      if (← hostIdentity c.pendingSource) ≠ identity then throw .changed
    else if !c.pendingDelete then
      if (← hostIdentity c.pendingDestination) ≠ identity then throw .changed

def recoverCatalogMove : Action Unit := do
  let c := (← get).cat
  if c.pendingSource = [] then return ()
  else
    let source ← present c.pendingSource.names
    checkPending c source
    if c.pendingDelete then
      if !source then finishCatalogDelete
      else
        update fun c => c.pend [] c.pendingDestination false false
        saveCatalog
    else
      let destination ← present c.pendingDestination.names
      if source && !destination then
        update fun c => c.pend [] [] false c.pendingDelete
        saveCatalog
      else if !source && destination then finishCatalogMove
      else throw .ambiguousMove

def loadCatalog : Action Unit := do
  update fun c => c.pend [] [] false false
  match ← perform .lock with
  | .done =>
    match ← perform .readCatalog with
    | .refused => throw .unreadable
    | .absent => return ()
    | .done =>
      match parseCatalog ((← get).vol.catalog.getD []) with
      | .error e => throw e
      | .ok c =>
        update fun _ => c
        recoverCatalogMove
  | _ => throw .busy

/-- The server with a folder to serve. -/
def configure : Action Unit := do
  update fun _ => .initial
  loadCatalog

/-! ## Operations that leave the catalogue alone -/

def HostOp.commits : HostOp → Bool
  | .commit _ => true
  | _ => false

/-- A step by an operation of some kind. -/
inductive Did (ok : HostOp → Prop) : World → World → Prop where
  | did {w : World} {op : HostOp} (fine : ok op) : Did ok w (w.did op)

/-- All that is done are host operations of some kind; the catalogue in memory is not touched. -/
def Does {α : Type} (ok : HostOp → Prop) (p : Action α) : Prop :=
  ∀ w, Steps (Did ok) p (fun _ _ => True) w

/-- A condition on the world and one on the catalogue in memory. -/
abbrev Both (C : World → Prop) (I : Catalog → Prop) (w : World) : Prop := C w ∧ I w.cat

/-- The conditions outlast the operation, however it ends. -/
def Keeps {α : Type} (C : World → Prop) (I : Catalog → Prop) (p : Action α) : Prop :=
  Triple (Both C I) p (fun _ => Both C I) fun _ => Both C I

section Does

variable {α β : Type} {ok : HostOp → Prop} {p : Action α} {f : α → Action β}
  {names src dst host : List Name} {rel : Path}

theorem Does.bind (first : Does ok p) (rest : ∀ a, Does ok (f a)) : Does ok (p >>= f) :=
  fun w => (first w).bind fun a w' _ => rest a w'

theorem Does.mono (does : Does ok p) {ok' : HostOp → Prop} (wider : ∀ {op}, ok op → ok' op) :
    Does ok' p := fun w => (does w).widen fun _ _ step => by
  cases step with
  | did fine => exact .did (wider fine)

@[simp] theorem does_pure (a : α) : Does ok (pure a : Action α) := fun _ => walks_pure

@[simp] theorem does_throw (e : CatalogError) : Does ok (throw e : Action α) := fun _ => steps_throw e

@[simp] theorem does_get : Does ok (get : Action World) := fun _ => steps_get trivial

theorem does_perform {op : HostOp} (fine : ok op) : Does ok (perform op) :=
  fun _ => steps_perform (.did fine) trivial

theorem does_present (look : ok (.look names)) : Does ok (present names) := by
  refine (does_perform look).bind fun outcome => ?_
  cases outcome <;> simp

theorem does_syncParent (sync : ok (.sync names.dropLast)) : Does ok (syncParent names) := by
  refine (does_perform sync).bind fun outcome => ?_
  cases outcome <;> simp

theorem does_hostIdentity (look : ok (.look rel.names)) : Does ok (hostIdentity rel) := by
  refine does_get.bind fun w => (does_perform look).bind fun outcome => ?_
  cases outcome
  · exact does_throw _
  · exact does_pure _
  · dsimp only
    split <;> simp

theorem does_moveSidecar (make : ok (.makeDirs dst.dropLast)) (rename : ok (.rename src dst))
    (source : Bool) : Does ok (moveSidecar src dst source) := by
  cases source with
  | false => exact does_pure _
  | true =>
    refine (does_perform make).bind fun made => ?_
    cases made
    · exact does_throw _
    · exact does_throw _
    · refine (does_perform rename).bind fun renamed => ?_
      cases renamed <;> simp

theorem does_finishSidecar (looks : ok (.look src) ∧ ok (.look dst))
    (make : ok (.makeDirs dst.dropLast)) (rename : ok (.rename src dst))
    (syncs : ok (.sync src.dropLast) ∧ ok (.sync dst.dropLast)) (pending : Bool) :
    Does ok (finishSidecar src dst pending) := by
  cases pending with
  | false => exact does_pure _
  | true =>
    refine (does_present looks.1).bind fun source => (does_present looks.2).bind fun there => ?_
    split
    · exact does_throw _
    · exact (does_moveSidecar make rename source).bind fun _ =>
        (does_syncParent syncs.1).bind fun _ => does_syncParent syncs.2

theorem does_removeSidecar (remove : ok (.remove names)) (sync : ok (.sync names.dropLast))
    (pending : Bool) : Does ok (removeSidecar names pending) := by
  cases pending with
  | false => exact does_pure _
  | true =>
    refine (does_perform remove).bind fun outcome => ?_
    cases outcome
    · exact does_throw _
    · exact does_syncParent sync
    · exact does_syncParent sync

theorem does_removeEach {objects : List (List Name)}
    (purge : ∀ object ∈ objects, ok (.purge names object)) : Does ok (removeEach names objects) := by
  induction objects with
  | nil => exact does_pure _
  | cons object rest ih =>
    obtain ⟨first, others⟩ := List.forall_mem_cons.mp purge
    refine (does_perform first).bind fun outcome => ?_
    cases outcome
    · exact does_pure _
    · exact ih others
    · exact ih others

theorem does_clearFolder (purge : ∀ object, ok (.purge (host ++ [appleDouble]) object))
    (directory : Bool) : Does ok (clearFolder host directory) := by
  cases directory with
  | false => exact does_pure _
  | true => exact does_get.bind fun _ => does_removeEach fun object _ => purge object

theorem does_inspect (look : ok (.look host)) (list : ok (.list host)) :
    Does ok (inspect host) := by
  refine does_get.bind fun w => (does_perform look).bind fun outcome => ?_
  split
  · exact does_pure _
  split
  · refine (does_perform list).bind fun listed => ?_
    split
    · split
      · exact does_pure _
      · exact does_pure _
    · exact does_pure _
  · exact does_pure _

theorem does_checkPending {c : Catalog} (source : ok (.look c.pendingSource.names))
    (destination : ok (.look c.pendingDestination.names)) (there : Bool) :
    Does ok (checkPending c there) := by
  have compared {rel : Path} (look : ok (.look rel.names)) (identity : Bytes) :
      Does ok (do if (← hostIdentity rel) ≠ identity then throw .changed : Action Unit) := by
    refine (does_hostIdentity look).bind fun actual => ?_
    split <;> simp
  rw [checkPending]
  split
  · exact does_pure _
  split
  · exact compared source _
  · split
    · exact compared destination _
    · exact does_pure _

end Does

/-! ## What moves and deletions do to the catalogue -/

/-- A condition that filling in an identity keeps. -/
def Fillable (I : Catalog → Prop) : Prop :=
  ∀ {c : Catalog} {path : Path} {id : Nat} {text : Bytes},
    c.pathToId[path]? = some id → id ≠ rootId → c.known id = [] → I c → I (c.bind id text)

/-- A condition that says nothing of the pending operation. -/
def Pendable (I : Catalog → Prop) : Prop :=
  ∀ {c : Catalog} {source destination : Path} {sidecar delete : Bool}, I c →
    I (c.pend source destination sidecar delete)

/-- A condition that outlasts a pending operation, and what is left of it in the end. -/
structure Leaves (I E : Catalog → Prop) : Prop where
  pend : Pendable I
  fill : Fillable I
  weaken : ∀ c, I c → E c
  filled : Fillable E

theorem Leaves.same {I : Catalog → Prop} (pend : Pendable I) (fill : Fillable I) : Leaves I I :=
  ⟨pend, fill, fun _ same => same, fill⟩

/-- A condition that is kept while the number of a path is found. -/
structure Stable (rel : Path) (I : Catalog → Prop) : Prop extends Leaves I I where
  tend : ∀ {w w' : World}, Tend rel w w' → I w.cat → I w'.cat

theorem Save.keeps {I : Catalog → Prop} {w w' : World} (step : Save w w') (fillable : Fillable I)
    (start : I w.cat) : I w'.cat := by
  cases step with
  | look | commit => exact start
  | bind known other unbound => exact fillable known other unbound start

/-! ## Phases of an operation -/

/-- A condition that operations of some kind keep, and what is left of it when one fails. -/
structure Outlasts (ok : HostOp → Prop) (I E : World → Prop) : Prop where
  did : ∀ {w : World} {op : HostOp}, ok op → I w → I (w.did op)
  fails : ∀ {w : World}, I w → E w

/-- Files and folders are left as they are. -/
def HostOp.Inspects (op : HostOp) : Prop :=
  ∀ (v : Volume) (answer : Answer), (v.apply answer op).2.SameTree v

/-- A condition that looking around keeps, and what the number of a path leads from it to. -/
structure Numbers (ok : HostOp → Prop) (rel : Path) (I L E : World → Prop) : Prop where
  idle : Outlasts (fun op => ok op ∧ op.Inspects) I E
  number : Triple I (idForPath rel) (fun _ => L) fun _ => E

theorem inspects_look {ok : HostOp → Prop} {names : List Name} (fine : ok (.look names)) :
    ok (.look names) ∧ (HostOp.look names).Inspects := ⟨fine, fun _ _ => ⟨rfl, rfl⟩⟩

/-- What a move or a deletion asks of the host for a path. -/
structure Permits (ok : HostOp → Prop) (rel : Path) : Prop where
  look : ok (.look rel.names)
  list : ok (.list rel.names)
  remove : ok (.remove rel.names)
  sync : ok (.sync rel.names.dropLast)
  lookSidecar : ok (.look (sidecar rel.names))
  removeSidecar : ok (.remove (sidecar rel.names))
  syncFolder : ok (.sync (sidecar rel.names).dropLast)

theorem wp_present {w : World} {names : List Name} {Q : Bool → World → Prop}
    {R : CatalogError → World → Prop} (result : Q (w.vol.look names).isSome (w.did (.look names)))
    (error : ∀ e, R e (w.did (.look names))) : wp (present names) Q R w := by
  rw [present, wp_bind, wp_perform]
  cases refuses : w.answer.refuses with
  | true =>
    have outcome : w.outcome (.look names) = .refused := by simp [World.outcome, refuses]
    rw [outcome]
    exact error _
  | false =>
    cases found : w.vol.look names with
    | none =>
      have outcome : w.outcome (.look names) = .absent := by
        simp [World.outcome, refuses, Volume.apply, found]
      rw [found] at result
      rwa [outcome]
    | some node =>
      have outcome : w.outcome (.look names) = .done := by
        simp [World.outcome, refuses, Volume.apply, found]
      rw [found] at result
      rwa [outcome]

section Phases

variable {α : Type} {p : Action α} {ok : HostOp → Prop} {source destination : Path}
  {P I L S K J F E : World → Prop}

theorem Does.during (does : Does ok p) (lasts : Outlasts ok I E) :
    Triple I p (fun _ => I) fun _ => E := by
  have kept : ∀ w w' : World, Did ok w w' → I w → I w' := by
    rintro w _ ⟨fine⟩
    exact lasts.did fine
  exact fun w start => wp_mono ((does w).keeps kept start) (fun _ _ last => last.1)
    fun _ _ last => lasts.fails last

/-- The pending move, with the numbers moved at its end. -/
theorem triple_finishCatalogMove (first : Permits ok source) (second : Permits ok destination)
    (makeFolder : ok (.makeDirs (sidecar destination.names).dropLast))
    (rename : ok (.rename (sidecar source.names) (sidecar destination.names)))
    (lasts : Outlasts ok J E)
    (moved : Triple J (do
      update fun c => c.pend [] [] false c.pendingDelete
      moveIds source destination) (fun _ => F) fun _ => E) :
    Triple
      (fun w => J w ∧ w.cat.pendingSource = source ∧ w.cat.pendingDestination = destination)
      finishCatalogMove (fun _ => F) fun _ => E := by
  rintro w ⟨start, rfl, rfl⟩
  have sidecars := does_finishSidecar ⟨first.lookSidecar, second.lookSidecar⟩ makeFolder
    rename ⟨first.syncFolder, second.syncFolder⟩ w.cat.pendingSidecar
  rw [finishCatalogMove, wp_bind]
  exact ((sidecars.during lasts).bind fun _ => ((does_syncParent first.sync).during lasts).bind
    fun _ => ((does_syncParent second.sync).during lasts).bind fun _ => moved) w start

/-- A move: looks, the number of the path, the pending move saved, and the move done and finished
or undone. -/
theorem triple_moveHostPath (first : Permits ok source) (second : Permits ok destination)
    (rename : ok (.rename source.names destination.names)) (numbers : Numbers ok source I L E)
    (pending : Outlasts ok J E) (ends : ∀ w, I w → F w)
    (pend : source ≠ destination → ∀ w hasSidecar, L w →
      S (w.withCat (w.cat.pend source destination hasSidecar w.cat.pendingDelete)))
    (save : Triple S saveCatalog (fun _ => J) fun _ => E)
    (undo : ∀ result : Int, Triple J (do
      update fun c => c.pend [] [] false c.pendingDelete
      saveCatalog
      return result) (fun _ => F) fun _ => E)
    (finish : Triple J finishCatalogMove (fun _ => F) fun _ => E) :
    Triple I (moveHostPath source destination) (fun _ => F) fun _ => E := by
  rw [moveHostPath]
  split
  · exact triple_pure ends
  intro w start
  obtain ⟨idle, number⟩ := numbers
  have start₁ := idle.did (inspects_look first.look) start
  refine wp_bind.mpr (wp_present ?_ fun _ => idle.fails start₁)
  split
  · exact ends _ start₁
  case isFalse there =>
    have start₂ := idle.did (inspects_look second.look) start₁
    -- what is moved is there and where it goes to is free, so the two differ
    have taken : wp (present destination.names <||> present (sidecar destination.names))
        (fun taken w' => I w' ∧ (taken = false → source ≠ destination)) (fun _ => E)
        (w.did (.look source.names)) := by
      refine wp_bind.mpr (wp_present ?_ fun _ => idle.fails start₂)
      rw [World.did_look_vol]
      cases found : (w.vol.look destination.names).isSome with
      | true => exact ⟨start₂, fun never => absurd never (by decide)⟩
      | false =>
        have apart : source ≠ destination := by
          rintro rfl
          simp [found] at there
        exact wp_mono ((does_present (inspects_look second.lookSidecar)).during idle _ start₂)
          fun _ _ last => ⟨last, fun _ => apart⟩
    refine wp_bind.mpr (wp_mono taken ?_)
    rintro taken w' ⟨start', apart⟩
    split
    · exact ends _ start'
    case isFalse free =>
      have look := (does_present (inspects_look first.lookSidecar)).during idle
      refine (look.bind fun hasSidecar => number.bind fun _ => Triple.bind ?_ fun _ =>
        save.bind fun _ => ((does_perform rename).during pending).bind fun outcome => ?_) w' start'
      · exact fun w known => pend (apart (by simpa using free)) w hasSidecar known
      cases outcome with
      | refused | absent => exact undo _
      | done =>
        exact ((does_syncParent first.sync).during pending).bind fun _ =>
          ((does_syncParent second.sync).during pending).bind fun _ =>
          finish.bind fun _ => triple_pure fun _ last => last

theorem triple_finishCatalogDelete (permits : Permits ok source) (lasts : Outlasts ok J E)
    (dropped : Triple J (do
      update fun c => c.pend [] c.pendingDestination false false
      dropId source) (fun _ => F) fun _ => E) :
    Triple (fun w => J w ∧ w.cat.pendingSource = source) finishCatalogDelete (fun _ => F)
      fun _ => E := by
  rintro w ⟨start, rfl⟩
  have sidecars := does_removeSidecar permits.removeSidecar permits.syncFolder w.cat.pendingSidecar
  rw [finishCatalogDelete, wp_bind]
  exact ((sidecars.during lasts).bind fun _ => ((does_syncParent permits.sync).during lasts).bind
    fun _ => dropped) w start

theorem triple_removeObject {host : List Name} {directory : Bool} (lasts : Outlasts ok J E)
    (clear : Triple J (clearFolder host directory) (fun _ => J) fun _ => E)
    (remove : ok (.remove host)) :
    Triple J (removeObject host directory) (fun _ => J) fun _ => E := by
  refine clear.bind fun cleared => ?_
  split
  · refine ((does_perform remove).during lasts).bind fun outcome => ?_
    cases outcome <;> exact triple_pure fun _ last => last
  · exact triple_pure fun _ last => last

/-- A deletion is pending first without its metadata, which is not saved. -/
theorem triple_deleteHostPath (permits : Permits ok source) (numbers : Numbers ok source I L E)
    (marked : Outlasts ok K E) (pending : Outlasts ok J E) (ends : ∀ w, I w → F w)
    (mark : ∀ w, L w → K (w.withCat (w.cat.pend source [] w.cat.pendingSidecar true)))
    (pend : ∀ w hasSidecar, K w → S (w.withCat (w.cat.pend source [] hasSidecar true)))
    (save : Triple S saveCatalog (fun _ => J) fun _ => E)
    (clear : ∀ directory,
      Triple J (clearFolder source.names directory) (fun _ => J) fun _ => E)
    (undo : ∀ result : Int, Triple J (do
      update fun c => c.pend [] c.pendingDestination false false
      saveCatalog
      return result) (fun _ => F) fun _ => E)
    (finish : Triple J finishCatalogDelete (fun _ => F) fun _ => E) :
    Triple I (deleteHostPath source) (fun _ => F) fun _ => E := by
  rw [deleteHostPath]
  split
  · exact triple_pure ends
  have look := inspects_look permits.look
  refine ((does_present look).during numbers.idle).bind fun there => ?_
  split
  · exact triple_pure ends
  refine ((does_inspect look ⟨permits.list, fun _ _ => ⟨rfl, rfl⟩⟩).during numbers.idle).bind
    fun checked => ?_
  split
  · exact triple_pure ends
  refine numbers.number.bind fun _ => Triple.bind (Q := fun _ => K) mark fun _ =>
    ((does_present permits.lookSidecar).during marked).bind fun hasSidecar =>
    Triple.bind (Q := fun _ => S) (fun w => pend w hasSidecar) fun _ => save.bind fun _ =>
    (triple_removeObject pending (clear _) permits.remove).bind fun removed => ?_
  split
  · exact ((does_syncParent permits.sync).during pending).bind fun _ =>
      finish.bind fun _ => triple_pure fun _ last => last
  · exact undo _

/-- What a server that starts does with the operation it finds pending. -/
theorem triple_recoverCatalogMove {c : Catalog} (same : ∀ w, J w → w.cat = c)
    (source : ok (.look c.pendingSource.names)) (destination : ok (.look c.pendingDestination.names))
    (lasts : Outlasts ok J E) (idle : c.pendingSource = [] → ∀ w, J w → F w)
    (delete : c.pendingSource ≠ [] → c.pendingDelete = true →
      Triple J finishCatalogDelete (fun _ => F) (fun _ => E) ∧
      Triple J (do
        update fun c => c.pend [] c.pendingDestination false false
        saveCatalog) (fun _ => F) fun _ => E)
    (move : c.pendingSource ≠ [] → c.pendingDelete = false →
      Triple J finishCatalogMove (fun _ => F) (fun _ => E) ∧
      Triple J (do
        update fun c => c.pend [] [] false c.pendingDelete
        saveCatalog) (fun _ => F) fun _ => E) :
    Triple J recoverCatalogMove (fun _ => F) fun _ => E := by
  intro w start
  obtain rfl := same w start
  rw [recoverCatalogMove, wp_bind, wp_get]
  dsimp only
  split
  case isTrue none => exact idle none w start
  case isFalse named =>
    refine (((does_present source).during lasts).bind fun there =>
      ((does_checkPending source destination there).during lasts).bind fun _ => ?_) w start
    split
    case isTrue deleting =>
      split
      · exact (delete named deleting).1
      · exact (delete named deleting).2
    case isFalse moving =>
      obtain ⟨finish, undo⟩ := move named (by simpa using moving)
      refine ((does_present destination).during lasts).bind fun taken => ?_
      split
      · exact undo
      · split
        · exact finish
        · exact triple_throw fun _ => lasts.fails

theorem triple_configure (lock : ok .lock) (read : ok .readCatalog) (lasts : Outlasts ok I E)
    (start : ∀ w, P w → I (w.withCat (Catalog.initial.pend [] [] false false)))
    (recover : ∀ {bytes : Bytes} {c : Catalog}, parseCatalog bytes = .ok c →
      Triple I (do update fun _ => c; recoverCatalogMove) (fun _ => I) fun _ => E) :
    Triple P configure (fun _ => I) fun _ => E := by
  intro w begins
  refine wp_bind.mpr (wp_bind.mpr ?_)
  refine (((does_perform lock).during lasts).bind fun locked => ?_) _ (start w begins)
  split
  · refine ((does_perform read).during lasts).bind fun found => ?_
    split
    · exact triple_throw fun _ => lasts.fails
    · exact triple_pure fun _ last => last
    · refine (does_get.during lasts).bind fun w => ?_
      split
      · exact triple_throw fun _ => lasts.fails
      case h_2 c parsed => exact recover parsed
  · exact triple_throw fun _ => lasts.fails

end Phases

/-! ## Conditions on the catalogue -/

section Rules

variable {ok : HostOp → Prop} {B C : World → Prop} {I E : Catalog → Prop} {source destination : Path}

/-- A condition that operations of some kind keep, looks and commits among them, and that says
nothing of the catalogue in memory. -/
structure Lasts (ok : HostOp → Prop) (C : World → Prop) : Prop where
  did : ∀ {w : World} {op : HostOp}, ok op → C w → C (w.did op)
  withCat : ∀ {w : World} (c : Catalog), C w → C (w.withCat c)
  look : ∀ names, ok (.look names)
  commit : ∀ bytes, ok (.commit bytes)

theorem lasts_all : Lasts (fun _ => True) fun _ => True := by
  constructor <;> intros <;> trivial

/-- Operations that empty no folder. -/
abbrev Free (ok : HostOp → Prop) : Prop := ∀ op : HostOp, op.purged = [] → ok op

theorem Free.permits (free : Free ok) (rel : Path) : Permits ok rel := by
  constructor <;> exact free _ rfl

theorem free_all : Free fun _ => True := fun _ _ => trivial

section

variable (lasts : Lasts ok C)
include lasts

theorem Lasts.save {w w' : World} (step : Save w w') (start : C w) : C w' := by
  cases step with
  | look => exact lasts.did (lasts.look _) start
  | bind => exact lasts.withCat _ start
  | commit => exact lasts.did (lasts.commit _) start

theorem Lasts.tend {rel : Path} {w w' : World} (step : Tend rel w w') (start : C w) : C w' := by
  cases step with
  | save step => exact lasts.save step start
  | look => exact lasts.did (lasts.look _) start
  | bind | drop | move | issue => exact lasts.withCat _ start

theorem Lasts.outlasts (weaken : ∀ c, I c → E c) : Outlasts ok (Both C I) (Both C E) :=
  ⟨fun fine start => ⟨lasts.did fine start.1, start.2⟩, fun start => ⟨start.1, weaken _ start.2⟩⟩

theorem keeps_saveCatalog (fillable : Fillable I) : Keeps C I saveCatalog := fun _ start =>
  wp_mono (steps_saveCatalog.keeps
    (fun _ _ step start => ⟨lasts.save step start.1, step.keeps fillable start.2⟩) start)
    fun _ _ last => last.1

theorem keeps_idForPath (stable : Stable source I) : Keeps C I (idForPath source) := fun _ start =>
  wp_mono (steps_idForPath.keeps
    (fun _ _ step start => ⟨lasts.tend step start.1, stable.tend step start.2⟩) start)
    fun _ _ last => last.1

end

/-- What keeps a condition goes on with it, or fails with what follows from it. -/
theorem Keeps.weakened {α : Type} {p : Action α} (keeps : Keeps C I p) (weaken : ∀ c, I c → E c) :
    Triple (Both C I) p (fun _ => Both C I) fun _ => Both C E :=
  keeps.mono (fun _ same => same) (fun _ _ same => same) fun _ w last => ⟨last.1, weaken w.cat last.2⟩

section

variable {change : Catalog → Catalog} (lasts : Lasts ok C) (kept : ∀ c, I c → E (change c))
include lasts kept

theorem keeps_update : Triple (Both C I) (update change) (fun _ => Both C E) fun _ => Both C E :=
  fun w start => ⟨lasts.withCat _ start.1, kept w.cat start.2⟩

/-- A change of the catalogue that is saved. -/
theorem keeps_saved (fillable : Fillable E) :
    Triple (Both C I) (do update change; saveCatalog) (fun _ => Both C E) fun _ => Both C E :=
  (keeps_update lasts kept).bind fun _ => keeps_saveCatalog lasts fillable

/-- A pending operation that is given up. -/
theorem keeps_undone (fillable : Fillable E) (result : Int) :
    Triple (Both C I) (do update change; saveCatalog; return result : Action Int)
      (fun _ => Both C E) fun _ => Both C E :=
  (keeps_update lasts kept).bind fun _ => (keeps_saveCatalog lasts fillable).bind fun _ =>
    triple_pure fun _ start => start

end

section

variable (lasts : Lasts ok C)
include lasts

theorem keeps_finishCatalogMove (free : Free ok) (leaves : Leaves I E)
    (moved : ∀ c, I c → E (c.moveIds source destination)) :
    Triple
      (fun w => Both C I w ∧ w.cat.pendingSource = source ∧ w.cat.pendingDestination = destination)
      finishCatalogMove (fun _ => Both C E) fun _ => Both C E := by
  refine triple_finishCatalogMove (free.permits _) (free.permits _) (free _ rfl) (free _ rfl)
    (lasts.outlasts leaves.weaken) ?_
  exact Triple.bind (Q := fun _ => Both C I)
    (fun _ start => ⟨lasts.withCat _ start.1, leaves.pend start.2⟩) fun _ =>
    keeps_saved lasts moved leaves.filled

theorem keeps_moveHostPath (free : Free ok) (numbers : Numbers ok source B (Both C I) (Both C E))
    (leaves : Leaves I E)
    (moved : source ≠ [] → destination ≠ [] → ∀ c, I c → E (c.moveIds source destination)) :
    Triple B (moveHostPath source destination) (fun _ => Both C E) fun _ => Both C E := by
  by_cases unnamed : source = [] ∨ destination = []
  · rw [moveHostPath, if_pos unnamed]
    exact triple_pure fun _ => numbers.idle.fails
  rw [not_or] at unnamed
  let J : Catalog → Prop := fun c =>
    I c ∧ c.pendingSource = source ∧ c.pendingDestination = destination
  have fillableJ : Fillable J := fun known other unbound start =>
    ⟨leaves.fill known other unbound start.1, start.2⟩
  have weakenJ : ∀ c, J c → E c := fun c start => leaves.weaken c start.1
  exact triple_moveHostPath (free.permits _) (free.permits _) (free _ rfl) numbers
    (lasts.outlasts weakenJ) (fun _ => numbers.idle.fails)
    (fun _ _ _ start => ⟨lasts.withCat _ start.1, leaves.pend start.2, rfl, rfl⟩)
    ((keeps_saveCatalog lasts fillableJ).weakened weakenJ)
    (keeps_undone lasts (fun _ start => leaves.weaken _ (leaves.pend start.1)) leaves.filled)
    ((keeps_finishCatalogMove lasts free leaves (moved unnamed.1 unnamed.2)).mono
      fun _ start => ⟨⟨start.1, start.2.1⟩, start.2.2⟩)

theorem keeps_finishCatalogDelete (permits : Permits ok source) (leaves : Leaves I E)
    (dropped : ∀ c, I c → E (c.dropId source)) :
    Triple (fun w => Both C I w ∧ w.cat.pendingSource = source) finishCatalogDelete
      (fun _ => Both C E) fun _ => Both C E := by
  refine triple_finishCatalogDelete permits (lasts.outlasts leaves.weaken) ?_
  exact Triple.bind (Q := fun _ => Both C I)
    (fun _ start => ⟨lasts.withCat _ start.1, leaves.pend start.2⟩) fun _ =>
    keeps_saved lasts dropped leaves.filled

theorem keeps_deleteHostPath (permits : Permits ok source)
    (clear : ∀ (J : Catalog → Prop) directory, Keeps C J (clearFolder source.names directory))
    (numbers : Numbers ok source B (Both C I) (Both C E)) (leaves : Leaves I E)
    (dropped : source ≠ [] → ∀ c, I c → E (c.dropId source)) :
    Triple B (deleteHostPath source) (fun _ => Both C E) fun _ => Both C E := by
  by_cases unnamed : source = []
  · rw [deleteHostPath, if_pos unnamed]
    exact triple_pure fun _ => numbers.idle.fails
  let J : Catalog → Prop := fun c => I c ∧ c.pendingSource = source
  have fillableJ : Fillable J := fun known other unbound start =>
    ⟨leaves.fill known other unbound start.1, start.2⟩
  have weakenJ : ∀ c, J c → E c := fun c start => leaves.weaken c start.1
  exact triple_deleteHostPath permits numbers (lasts.outlasts weakenJ) (lasts.outlasts weakenJ)
    (fun _ => numbers.idle.fails)
    (fun _ start => ⟨lasts.withCat _ start.1, leaves.pend start.2, rfl⟩)
    (fun _ _ start => ⟨lasts.withCat _ start.1, leaves.pend start.2.1, rfl⟩)
    ((keeps_saveCatalog lasts fillableJ).weakened weakenJ)
    (fun directory => (clear J directory).weakened weakenJ)
    (keeps_undone lasts (fun _ start => leaves.weaken _ (leaves.pend start.1)) leaves.filled)
    ((keeps_finishCatalogDelete lasts permits leaves (dropped unnamed)).mono
      fun _ start => ⟨⟨start.1, start.2.1⟩, start.2.2⟩)

theorem Stable.numbers (stable : Stable source I) :
    Numbers ok source (Both C I) (Both C I) (Both C I) :=
  ⟨⟨fun fine start => ⟨lasts.did fine.1 start.1, start.2⟩, fun start => start⟩,
    keeps_idForPath lasts stable⟩

end

theorem clears_all {host : List Name} (J : Catalog → Prop) (directory : Bool) :
    Keeps (fun _ => True) J (clearFolder host directory) :=
  (does_clearFolder (fun _ => trivial) directory).during (lasts_all.outlasts fun _ same => same)

end Rules

end Pom68k.Afp
