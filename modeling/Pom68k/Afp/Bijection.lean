import Pom68k.Afp.Mutation

/-! # Numbers and paths, one to one

The two maps of the catalogue are inverse to each other as long as nothing is moved onto a path
that is still in the catalogue. A path can be left there by an object that the host moved away.
-/

namespace Pom68k.Afp

open Foundation Program Std

/-! ## A host that is left alone -/

section

variable {v v' v'' : Volume} {w w' w'' : World}

theorem Volume.SameTree.trans (first : v'.SameTree v) (second : v''.SameTree v') :
    v''.SameTree v :=
  ⟨second.1.trans first.1, second.2.trans first.2⟩

theorem Volume.look_congr (same : v'.SameTree v) (names : List Name) :
    v'.look names = v.look names := by
  simp only [Volume.look, Volume.find, same.1, same.2]

theorem Volume.identityAt_congr (same : v'.SameTree v) (rel : Path) :
    v'.identityAt rel = v.identityAt rel := by
  rw [identityAt, look_congr same, identityAt]

/-- The same files and folders on the same host. -/
structure Still (w w' : World) : Prop where
  tree : w'.vol.SameTree w.vol
  oracle : w'.oracle = w.oracle

theorem Still.refl (w : World) : Still w w := ⟨⟨rfl, rfl⟩, rfl⟩

theorem Still.trans (first : Still w w') (second : Still w' w'') : Still w w'' :=
  ⟨first.tree.trans second.tree, second.oracle.trans first.oracle⟩

theorem Still.did {op : HostOp} (kept : ∀ answer, (w.vol.apply answer op).2.SameTree w.vol) :
    Still w (w.did op) := by
  refine ⟨?_, rfl⟩
  simp only [World.did, World.volAfter]
  split
  · exact ⟨rfl, rfl⟩
  · exact kept _

theorem lasts_still (w : World) : Lasts HostOp.Inspects (Still w) where
  did inspects still := still.trans (.did (inspects _))
  withCat _ still := ⟨still.tree, still.oracle⟩
  look _ _ _ := ⟨rfl, rfl⟩
  commit _ _ _ := ⟨rfl, rfl⟩

end

namespace Catalog

variable {c c' : Catalog} {rel source destination p q : Path} {id : Nat} {text : Bytes}

/-- The numbers lead back to their paths. -/
structure Exact (c : Catalog) : Prop extends c.Sound where
  back : ∀ {id : Nat} {p : Path}, c.idToPath[id]? = some p → c.pathToId[p]? = some id

/-- What is in the catalogue at and below a path is there from the source of the move. -/
def Free (c : Catalog) (source destination : Path) : Prop :=
  ∀ {p : Path} {id : Nat}, c.pathToId[p]? = some id → destination.Below p → source.Below p

/-- A path is in the catalogue, or nothing below it is. -/
def Clear (c : Catalog) (rel : Path) : Prop :=
  (∃ id, c.pathToId[rel]? = some id) ∨
    ∀ {p : Path} {id : Nat}, c.pathToId[p]? = some id → ¬ rel.Below p

theorem Exact.inverse (exact : c.Exact) : c.pathToId[p]? = some id ↔ c.idToPath[id]? = some p :=
  ⟨exact.forth, exact.back⟩

theorem exact_initial : Catalog.initial.Exact where
  toSound := .initial
  back := by
    intro id p found
    refine of_getElem?_insert found (by decide) ?_
    simp

section

variable (exact : c.Exact)
include exact

theorem Exact.dropId (named : rel ≠ []) : (c.dropId rel).Exact where
  toSound := exact.toSound.dropId named
  back := by
    intro id p found
    obtain ⟨stays, found⟩ := dropId_idToPath.mp found
    refine dropId_pathToId.mpr ⟨fun below => stays ?_, exact.back found⟩
    exact mem_gone.mpr ⟨p, below, exact.back found⟩

theorem Exact.moveIds (from_named : source ≠ []) (to_named : destination ≠ [])
    (free : c.Free source destination) : (c.moveIds source destination).Exact where
  toSound := exact.toSound.moveIds from_named to_named
  back := by
    intro id q found
    rw [moveIds_pathToId]
    rcases exact.moveIds_idToPath.mp found with inside | ⟨stays, found⟩
    · exact .inl inside
    have there := exact.back found
    have outside : ¬ source.Below q := fun below => stays (mem_gone.mpr ⟨q, below, there⟩)
    refine .inr ⟨fun covered => outside (free there ?_), outside, there⟩
    obtain ⟨⟨_, other⟩, listed, rfl⟩ := List.mem_map.mp covered
    obtain ⟨p, below, _, rfl⟩ := mem_moved.mp listed
    exact below.moved destination

theorem Exact.issue (named : rel ≠ []) (absent : c.pathToId[rel]? = none) :
    (c.issue rel text).Exact where
  toSound := exact.toSound.issue named
  back := getElem?_insert_inverse exact.back absent

theorem Exact.bind (other : id ≠ rootId) (known : c.idToPath[id]? = some p) :
    (c.bind id text).Exact where
  toSound := exact.toSound.bind other known
  back := exact.back

theorem Exact.pend {sidecar delete : Bool} : (c.pend source destination sidecar delete).Exact where
  toSound := exact.toSound.pend
  back := exact.back

end

/-- The numbers at and below a path can be moved without disturbing another. -/
structure Movable (source destination : Path) (c : Catalog) : Prop extends c.Exact where
  free : c.Free source destination

/-- Where a number is moved to that was given to the object there and leads elsewhere, the path is
clear. -/
def Calm (c : Catalog) (v : Volume) (rel : Path) : Prop :=
  v.identityAt rel ≠ [] → ∀ id, Displaced c v (v.identityAt rel) id → c.Clear rel

/-- A path can be asked for, and be moved, without disturbing another number. -/
structure Ready (v : Volume) (source destination : Path) (c : Catalog) : Prop extends
    c.Movable source destination where
  calm : c.Calm v source

/-- Numbers given out and withdrawn stay withdrawn. -/
structure Grown (c₀ c : Catalog) : Prop extends c.Sound where
  next_le : c₀.nextId ≤ c.nextId
  withdrawn : ∀ {id : Nat}, id < c₀.nextId → c₀.idToPath[id]? = none → c.idToPath[id]? = none

end Catalog

/-! ## One step of the catalogue -/

variable {rel source destination : Path} {id : Nat} {c c' c₀ : Catalog} {identity : Bytes}
  {v : Volume} {w w' : World}

namespace Catalog

theorem Sound.ne_root (sound : c.Sound) (named : rel ≠ []) (there : c.pathToId[rel]? = some id) :
    id ≠ rootId := by
  rintro rfl
  exact named (sound.one there sound.root)

theorem fillable_sound : Fillable Sound := fun known other _ sound =>
  sound.bind other (sound.forth known)

theorem Sound.tend (step : Tend source w w') (sound : w.cat.Sound) : w'.cat.Sound := by
  cases step with
  | save step => exact step.keeps fillable_sound sound
  | look => exact sound
  | bind named there => exact sound.bind (sound.ne_root named there) (sound.forth there)
  | drop named => exact sound.dropId named
  | move named _ leads bound =>
    exact sound.moveIds (sound.named leads (sound.bound bound).1) named
  | issue named => exact sound.issue named

/-- A look at what a number was given to moves none. -/
theorem Ready.save (same : w.vol.SameTree v) (step : Save w w')
    (ready : Ready v source destination w.cat) : Ready v source destination w'.cat := by
  cases step with
  | look | commit => exact ready
  | bind known other unbound text_eq =>
    refine ⟨⟨ready.toExact.bind other (ready.forth known), ready.free⟩, ?_⟩
    rintro found id ⟨bound, elsewhere⟩
    obtain ⟨rfl, rfl⟩ | ⟨_, bound⟩ := getElem?_insert_iff.mp bound
    · rcases text_eq with none | here
      · exact absurd none found
      · rw [Volume.identityAt_congr same] at here
        exact absurd here.symm (elsewhere _ (ready.forth known))
    · exact ready.calm found id ⟨bound, elsewhere⟩

theorem Ready.tend (same : w.vol.SameTree v) (step : Tend source w w')
    (ready : Ready v source destination w.cat) : Ready v source destination w'.cat := by
  have texts := Volume.identityAt_congr same
  cases step with
  | save step => exact ready.save same step
  | look => exact ready
  | bind named there =>
    exact ⟨⟨ready.toExact.bind (ready.ne_root named there) (ready.forth there), ready.free⟩,
      fun _ _ _ => .inl ⟨_, there⟩⟩
  | drop named =>
    refine ⟨⟨ready.toExact.dropId named, ?_⟩, fun _ _ _ => .inr ?_⟩
    · exact fun found => ready.free (dropId_pathToId.mp found).2
    · exact fun found => (dropId_pathToId.mp found).1
  | @move id previous named absent leads bound found displaced =>
    rw [texts] at bound found
    rw [texts, texts] at displaced
    have elsewhere : Displaced w.cat v (v.identityAt source) id :=
      ⟨bound, fun path there => Option.some.inj (leads.symm.trans there) ▸ displaced⟩
    have nothing : ∀ {p : Path} {id : Nat}, w.cat.pathToId[p]? = some id → ¬ source.Below p := by
      rcases ready.calm found id elsewhere with ⟨id, there⟩ | nothing
      · rw [there] at absent
        cases absent
      · exact nothing
    have from_named := ready.named leads (ready.bound bound).1
    refine ⟨⟨ready.toExact.moveIds from_named named fun found below =>
      absurd below (nothing found), ?_⟩, fun _ _ _ => .inl ⟨id, ?_⟩⟩
    · intro p other found below
      rcases moveIds_pathToId.mp found with inside | ⟨_, _, found⟩
      · obtain ⟨q, above, _, rfl⟩ := mem_moved.mp inside
        exact above.moved source
      · exact ready.free found below
    · refine moveIds_pathToId.mpr (.inl (mem_moved.mpr ?_))
      exact ⟨previous, .inl rfl, ready.back leads, by simp⟩
  | issue named absent =>
    refine ⟨⟨ready.toExact.issue named absent, ?_⟩, fun _ _ _ => .inl ⟨w.cat.nextId, ?_⟩⟩
    · intro p id found below
      simp only [World.withCat, Catalog.issue, getElem?_insert_iff] at found
      rcases found with ⟨rfl, _⟩ | ⟨_, found⟩
      · exact .inl rfl
      · exact ready.free found below
    · exact ExtTreeMap.getElem?_insert_self

theorem Grown.moveIds (grown : Grown c₀ c) (from_named : source ≠ [])
    (to_named : destination ≠ []) : Grown c₀ (c.moveIds source destination) where
  toSound := grown.toSound.moveIds from_named to_named
  next_le := grown.next_le
  withdrawn := by
    intro id old gone
    rw [Option.eq_none_iff_forall_ne_some]
    intro q found
    have none := grown.withdrawn old gone
    rcases grown.moveIds_idToPath.mp found with inside | ⟨_, found⟩
    · obtain ⟨p, _, there, _⟩ := mem_moved.mp inside
      rw [grown.forth there] at none
      cases none
    · rw [found] at none
      cases none

theorem Grown.dropId (grown : Grown c₀ c) (named : rel ≠ []) : Grown c₀ (c.dropId rel) where
  toSound := grown.toSound.dropId named
  next_le := grown.next_le
  withdrawn := by
    intro id old gone
    rw [Option.eq_none_iff_forall_ne_some]
    intro q found
    have there := (dropId_idToPath.mp found).2
    rw [grown.withdrawn old gone] at there
    cases there

theorem fillable_grown : Fillable (Grown c₀) := fun known other _ grown =>
  ⟨grown.toSound.bind other (grown.forth known), grown.next_le, grown.withdrawn⟩

theorem Grown.tend (step : Tend source w w') (grown : Grown c₀ w.cat) : Grown c₀ w'.cat := by
  cases step with
  | save step => exact step.keeps fillable_grown grown
  | look => exact grown
  | bind named there =>
    exact ⟨grown.toSound.bind (grown.ne_root named there) (grown.forth there), grown.next_le,
      grown.withdrawn⟩
  | drop named => exact grown.dropId named
  | move named _ leads bound =>
    exact grown.moveIds (grown.named leads (grown.bound bound).1) named
  | issue named =>
    refine ⟨grown.toSound.issue named, Nat.le_succ_of_le grown.next_le, ?_⟩
    intro id old gone
    have later := grown.next_le
    rw [Option.eq_none_iff_forall_ne_some]
    intro p found
    simp only [World.withCat, Catalog.issue, getElem?_insert_iff] at found
    rcases found with ⟨rfl, _⟩ | ⟨_, found⟩
    · omega
    · rw [grown.withdrawn old gone] at found
      cases found

theorem leaves_grown : Leaves (Grown c₀) (Grown c₀) :=
  .same (fun grown => ⟨grown.toSound.pend, grown.next_le, grown.withdrawn⟩) fillable_grown

theorem stable_grown : Stable source (Grown c₀) := ⟨leaves_grown, .tend⟩

theorem leaves_movable : Leaves (Movable source destination) Exact where
  pend movable := ⟨movable.toExact.pend, movable.free⟩
  fill known other _ movable := ⟨movable.toExact.bind other (movable.forth known), movable.free⟩
  weaken _ movable := movable.toExact
  filled known other _ exact := exact.bind other (exact.forth known)

end Catalog

/-! ## The number of a path -/

theorem Catalog.known_issue (c : Catalog) (rel : Path) (text : Bytes) :
    (c.issue rel text).known c.nextId = text := by
  simp [Catalog.known, Catalog.issue]

/-- A path has the number, and the number what the host calls the object there. -/
structure Found (rel : Path) (identity : Bytes) (id : Nat) (c : Catalog) : Prop where
  there : c.pathToId[rel]? = some id
  known : c.hosts[id]? = some identity

theorem Catalog.hosts_of_known (bound : c.known id ≠ []) : c.hosts[id]? = some (c.known id) := by
  rw [known] at bound ⊢
  cases found : c.hosts[id]? with
  | none => simp [found] at bound
  | some text => rfl

theorem Catalog.Filled.found (filled : c.Filled c') (named : identity ≠ [])
    (there : c.pathToId[rel]? = some id) (known : c.known id = identity) :
    Found rel identity id c' := by
  have same : c'.known id = identity := by rw [filled.2 id (by rwa [known]), known]
  refine ⟨by rwa [filled.pathToId], ?_⟩
  rw [hosts_of_known (by rwa [same]), same]

theorem Renumbered.found (numbered : Renumbered rel identity c id c') (exact : c.Exact)
    (named : identity ≠ []) : Found rel identity id c' := by
  cases numbered with
  | @moved _ previous _ leads bound filled =>
    refine filled.found named ?_ ?_
    · refine Catalog.moveIds_pathToId.mpr (.inl (Catalog.mem_moved.mpr ?_))
      exact ⟨previous, .inl rfl, exact.back leads, by simp⟩
    · rw [Catalog.known, exact.moveIds_hosts, bound]
      rfl
  | issued filled =>
    refine filled.found named ?_ (c.known_issue rel identity)
    exact ExtTreeMap.getElem?_insert_self

theorem Identified.found (identified : Identified rel identity c id c') (exact : c.Exact)
    (root : rel ≠ []) (named : identity ≠ []) : Found rel identity id c' := by
  cases identified with
  | known there => exact ⟨there, ExtTreeMap.getElem?_insert_self⟩
  | absent _ numbered => exact numbered.found exact named
  | replaced _ numbered => exact numbered.found (exact.dropId root) named

/-- A path that is ready to be asked for gets a number that is its own. -/
theorem wp_idForPath {w₀ : World} (still : Still w₀ w)
    (ready : w.cat.Ready w₀.vol source destination) : wp (idForPath source)
      (fun id w' => w'.cat.Movable source destination ∧ w'.vol.SameTree w.vol ∧
        (source = [] ∧ id = rootId ∨
          source ≠ [] ∧ Found source (w.vol.identityAt source) id w'.cat))
      (fun _ w' => w'.cat.Exact) w := by
  refine wp_mono (steps_idForPath.keeps
    (I := Both (Still w₀) (Catalog.Ready w₀.vol source destination)) (fun _ _ step start =>
      ⟨(lasts_still w₀).tend step start.1, start.2.tend start.1.tree step⟩) ⟨still, ready⟩) ?_ fun _ _ last => last.2.toExact
  rintro id w' ⟨after, disk, ⟨root, same, _⟩ | ⟨root, named, identified⟩⟩
  · exact ⟨after.2.toMovable, disk, .inl ⟨root, same⟩⟩
  · exact ⟨after.2.toMovable, disk, .inr ⟨root, identified.found ready.toExact root named⟩⟩

/-- The host answers the next question it is asked. -/
structure World.Answers (w : World) : Prop where
  accepts : w.answer.refuses = false
  born : w.answer.birthless = false

theorem wp_hostIdentity {Q : Bytes → World → Prop} {R : CatalogError → World → Prop}
    (result : Q (w.vol.identityAt rel) (w.did (.look rel.names)))
    (error : ¬ w.Answers → ∀ e, R e (w.did (.look rel.names))) : wp (hostIdentity rel) Q R w := by
  rw [hostIdentity, wp_bind, wp_get, wp_bind, wp_perform]
  cases outcome : w.outcome (.look rel.names) with
  | refused =>
    refine error (fun answers => ?_) _
    rw [World.outcome, answers.accepts, if_neg Bool.false_ne_true] at outcome
    cases found : w.vol.look rel.names <;> simp [Volume.apply, found] at outcome
  | absent =>
    have nothing := outcome_look_absent outcome
    rwa [Volume.identityAt, nothing] at result
  | done =>
    dsimp only
    split
    case isTrue unborn => exact error (fun answers => by simp [answers.born] at unborn) _
    case isFalse => exact result

/-- A number leads to its path while the object there is the one it was given to. -/
theorem wp_pathForId (exact : w.cat.Exact) (answers : w.Answers)
    (found : Found rel (w.vol.identityAt rel) id w.cat) :
    wp (pathForId id) (fun path _ => path = rel) (fun _ _ => False) w := by
  rw [pathForId, wp_bind, wp_get]
  simp only [exact.forth found.there, found.known]
  rw [wp_bind]
  refine wp_hostIdentity ?_ (absurd answers)
  simp

theorem wp_pathForId_root (exact : w.cat.Exact) :
    wp (pathForId rootId) (fun path _ => path = []) (fun _ _ => False) w := by
  have none : w.cat.hosts[rootId]? = none := by
    rw [Option.eq_none_iff_forall_ne_some]
    exact fun text found => (exact.bound found).1 rfl
  rw [pathForId, wp_bind]
  simp [exact.idToPath_root, none]

end Pom68k.Afp
