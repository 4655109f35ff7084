import Pom68k.Afp.ConfinedServer

/-! # Forks and their objects

A fork is opened on an object of the host and keeps the number of its path. The number may come
to lead elsewhere, or nowhere, but it is never given to another object.
-/

namespace Pom68k.Afp

open Foundation Program Std

/-! ## Numbers of opened objects -/

namespace Catalog

/-- The number leads nowhere or is that of the object. -/
structure Holds (c : Catalog) (id : Nat) (opened : Bytes) : Prop extends c.Sound where
  given : id < c.nextId
  same : ∀ {p : Path}, c.idToPath[id]? = some p → c.hosts[id]? = some opened

variable {c : Catalog} {id other : Nat} {opened text : Bytes} {rel source destination p : Path}

section

variable (holds : c.Holds id opened)
include holds

theorem Holds.bind (there : c.pathToId[p]? = some other) (apart : other ≠ rootId)
    (kept : c.hosts[other]? = some opened → text = opened) :
    (c.bind other text).Holds id opened where
  toSound := holds.toSound.bind apart (holds.forth there)
  given := holds.given
  same := by
    intro q leads
    refine getElem?_insert_iff.mpr ?_
    by_cases same : other = id
    · subst same
      exact .inl ⟨rfl, (kept (holds.same leads)).symm⟩
    · exact .inr ⟨fun eq => same eq.symm, holds.same leads⟩

theorem Holds.dropId (named : rel ≠ []) : (c.dropId rel).Holds id opened where
  toSound := holds.toSound.dropId named
  given := holds.given
  same := by
    intro p leads
    obtain ⟨kept, leads⟩ := dropId_idToPath.mp leads
    exact dropId_hosts.mpr ⟨kept, holds.same leads⟩

theorem Holds.moveIds (from_named : source ≠ []) (to_named : destination ≠ []) :
    (c.moveIds source destination).Holds id opened where
  toSound := holds.toSound.moveIds from_named to_named
  given := holds.given
  same := by
    intro q leads
    rw [holds.moveIds_hosts]
    rcases holds.moveIds_idToPath.mp leads with inside | ⟨_, leads⟩
    · obtain ⟨p, _, there, _⟩ := mem_moved.mp inside
      exact holds.same (holds.forth there)
    · exact holds.same leads

theorem Holds.issue (named : rel ≠ []) : (c.issue rel text).Holds id opened where
  toSound := holds.toSound.issue named
  given := Nat.lt_succ_of_lt holds.given
  same := by
    intro p leads
    have older := holds.given
    simp only [Catalog.issue, getElem?_insert_iff] at leads ⊢
    rcases leads with ⟨rfl, _⟩ | ⟨apart, leads⟩
    · omega
    · exact .inr ⟨apart, holds.same leads⟩

theorem Holds.pend {sidecar delete : Bool} :
    (c.pend source destination sidecar delete).Holds id opened :=
  ⟨holds.toSound.pend, holds.given, holds.same⟩

end

section

variable (named : opened ≠ [])
include named

theorem fillable_holds : Fillable (fun c => c.Holds id opened) := by
  intro c path other text known apart unbound holds
  refine holds.bind known apart fun bound => ?_
  rw [Catalog.known, bound] at unbound
  exact absurd unbound named

theorem Holds.tend {w w' : World} (step : Tend rel w w')
    (holds : w.cat.Holds id opened) : w'.cat.Holds id opened := by
  cases step with
  | save step => exact step.keeps (fillable_holds named) holds
  | look => exact holds
  | bind root there same =>
    refine holds.bind there (holds.ne_root root there) fun bound => ?_
    rw [bound] at same
    exact (by simpa using same : opened = _).symm
  | drop root => exact holds.dropId root
  | move root _ leads bound =>
    exact holds.moveIds (holds.named leads (holds.bound bound).1) root
  | issue root => exact holds.issue root

theorem leaves_holds : Leaves (fun c => c.Holds id opened) fun c => c.Holds id opened :=
  .same (fun holds => holds.pend) (fillable_holds named)

theorem stable_holds : Stable source (fun c => c.Holds id opened) :=
  ⟨leaves_holds named, Holds.tend named⟩

theorem Holds.effort {T : Prop} {asks : Deed → Prop} {w w' : World}
    (step : Effort T asks w w') (holds : w.cat.Holds id opened) : w'.cat.Holds id opened := by
  cases step with
  | work step =>
    cases step with
    | did => exact holds
    | tend _ step => exact holds.tend named step
  | move =>
    exact exec_of_both (keeps_moveHostPath lasts_all free_all
      ((stable_holds named).numbers lasts_all) (leaves_holds named)
      fun from_named to_named _ holds => holds.moveIds from_named to_named) holds
  | delete =>
    exact exec_of_both (keeps_deleteHostPath lasts_all (free_all.permits _) clears_all
      ((stable_holds named).numbers lasts_all) (leaves_holds named)
      fun root _ holds => holds.dropId root) holds

end

end Catalog

/-! ## Open forks -/

namespace Server

/-- Every fork holds on to its object, and what was written through a fork still belongs to it. -/
structure Bonded (s : Server) : Prop where
  fit : s.Fit False
  opened : ∀ {fork : Fork}, s.HasFork fork → fork.opened ≠ []
  holds : ∀ {fork : Fork}, s.HasFork fork → s.world.cat.Holds fork.id fork.opened
  born : ∀ {fork : Fork}, s.HasFork fork → fork.lifetime < s.births
  one : ∀ {fork fork' : Fork}, s.HasFork fork → s.HasFork fork' →
    fork.lifetime = fork'.lifetime → fork.id = fork'.id ∧ fork.opened = fork'.opened
  asked : ∀ {number : Nat} {w : PendingWrite}, s.writes[number]? = some w → w.lifetime < s.births
  belongs : ∀ {number : Nat} {w : PendingWrite} {fork : Fork}, s.writes[number]? = some w →
    s.HasFork fork → fork.lifetime = w.lifetime → w.id = fork.id ∧ w.opened = fork.opened

theorem Bonded.serve {asks : Deed → Prop} {s s' : Server}
    (step : Serve False asks s s') (bonded : s.Bonded) : s'.Bonded := by
  have fit : s'.Fit False := bonded.fit.serve step
  cases step with
  | effort step =>
    refine ⟨fit, bonded.opened, fun has => ?_, bonded.born, bonded.one, bonded.asked,
      bonded.belongs⟩
    exact (bonded.holds has).effort (bonded.opened has) step
  | sessions fewer =>
    exact ⟨fit, fun has => bonded.opened (fewer _ has), fun has => bonded.holds (fewer _ has),
      fun has => bonded.born (fewer _ has),
      fun has has' => bonded.one (fewer _ has) (fewer _ has'), bonded.asked,
      fun found has => bonded.belongs found (fewer _ has)⟩
  | @opened sid session new there other born named known =>
    have sound := bonded.fit.sane.sound
    refine ⟨fit, fun has => ?_, fun has => ?_, fun has => ?_, fun has has' same => ?_,
      fun found => ?_, fun found has same => ?_⟩
    · rcases hasFork_opened there has with rfl | has
      · exact named
      · exact bonded.opened has
    · rcases hasFork_opened there has with rfl | has
      · refine ⟨sound, ?_, fun _ => known⟩
        obtain ⟨apart, p, leads⟩ := sound.bound known
        exact ((sound.issued leads).resolve_left apart).2
      · exact bonded.holds has
    · rcases hasFork_opened there has with rfl | has
      · exact Nat.lt_succ_of_le (Nat.le_of_eq born)
      · exact Nat.lt_succ_of_lt (bonded.born has)
    · rcases hasFork_opened there has with rfl | old
      · rcases hasFork_opened there has' with rfl | old'
        · exact ⟨rfl, rfl⟩
        · exact absurd (bonded.born old') (by omega)
      · rcases hasFork_opened there has' with rfl | old'
        · exact absurd (bonded.born old) (by omega)
        · exact bonded.one old old' same
    · exact Nat.lt_succ_of_lt (bonded.asked found)
    · rcases hasFork_opened there has with rfl | has
      · exact absurd (bonded.asked found) (by omega)
      · exact bonded.belongs found has same
  | asked has id lifetime opened =>
    refine ⟨fit, bonded.opened, bonded.holds, bonded.born, bonded.one, fun found => ?_,
      fun found has' same => ?_⟩
    · rcases getElem?_insert_iff.mp found with ⟨_, rfl⟩ | ⟨_, found⟩
      · rw [lifetime]
        exact bonded.born has
      · exact bonded.asked found
    · rcases getElem?_insert_iff.mp found with ⟨_, rfl⟩ | ⟨_, found⟩
      · rw [id, opened]
        exact bonded.one has has' (same.trans lifetime).symm
      · exact bonded.belongs found has' same
  | answered number =>
    exact ⟨fit, bonded.opened, bonded.holds, bonded.born, bonded.one,
      fun found => bonded.asked (getElem?_of_erase found),
      fun found => bonded.belongs (getElem?_of_erase found)⟩
  | aside | host => exact ⟨fit, bonded.opened, bonded.holds, bonded.born, bonded.one, bonded.asked,
      bonded.belongs⟩
  | started _ none =>
    exact ⟨fit, fun has => absurd has (none _), fun has => absurd has (none _),
      fun has => absurd has (none _), fun has => absurd has (none _), bonded.asked,
      fun _ has => absurd has (none _)⟩

end Server

/-- What a guest asks of an open fork. -/
inductive ForkRequest where
  | getParms (bm : Nat)
  | setParms (bm len : Nat)
  | read (offR req : Nat) (nlMask nlChar : Octet)
  deriving DecidableEq, Repr

def ForkRequest.answer (fork : Fork) : ForkRequest → Action Reply
  | .getParms bm => fpGetForkParms fork bm
  | .setParms bm len => fpSetForkParms fork bm len
  | .read offR req nlMask nlChar => fpRead fork offR req nlMask nlChar

/-- The answer that is due, by what is told of the object at the path. -/
def ForkRequest.due (fork : Fork) : ForkRequest → Path → Told → Reply
  | .getParms bm => getParmsAnswer fork bm
  | .setParms _ _ => fun _ _ => ok
  | .read offR req nlMask nlChar => fun _ => readAnswer fork offR req nlMask nlChar

/-- One operation on the object at a path. -/
inductive Touch (path : Path) : World → World → Prop where
  | did {w : World} {op : HostOp} (of : op.Of path) : Touch path w (w.did op)

/-- The request ends with an error and no data. -/
def Refused : Except CatalogError Reply → Prop
  | .error _ => True
  | .ok reply => reply.result ≠ 0 ∧ reply.data = []

/-- All that is done is done to the object that was opened, found where its number leads, and the
reply comes from this object and its metadata, or the request fails and leaves the folder alone. -/
def Serves (id : Nat) (opened : Bytes) (due : Path → Told → Reply) (w : World)
    (p : Action Reply) : Prop :=
  (∃ path, ((pathForId id).exec w).1 = .ok path ∧ w.vol.identityAt path = opened ∧
    Relation.ReflTransGen (Touch path) w (p.exec w).2 ∧
    ∀ reply, (p.exec w).1 = .ok reply → w.vol.Answers path (due path) reply) ∨
  Refused (p.exec w).1 ∧ (p.exec w).2.vol = w.vol

/-- The number still leads to the object. -/
def Current (id : Nat) (opened : Bytes) (w : World) : Prop :=
  ∃ path, w.cat.idToPath[id]? = some path ∧ w.vol.identityAt path = opened

section Rules

variable {w : World} {id : Nat} {opened : Bytes}

/-- How the path of a fork is found: it is that of the object, or it is none, or the host does not
tell. -/
theorem wp_pathForId_held (holds : w.cat.Holds id opened) (apart : id ≠ rootId) :
    wp (pathForId id)
      (fun path w' => path ≠ [] ∧ w.vol.identityAt path = opened ∧
          w' = w.did (.look (Path.names path)) ∨
        path = noPath ∧ w'.vol = w.vol ∧ ¬ Current id opened w)
      (fun _ w' => w'.vol = w.vol) w := by
  rw [pathForId, wp_bind, wp_get]
  dsimp only
  split
  case h_1 nowhere =>
    refine .inr ⟨rfl, rfl, ?_⟩
    rintro ⟨path, found, _⟩
    rw [nowhere] at found
    cases found
  case h_2 path leads =>
    have named := holds.named leads apart
    rw [holds.same leads]
    refine wp_bind.mpr (wp_hostIdentity ?_ fun _ _ => World.did_look_vol _)
    split
    case isTrue other =>
      refine .inr ⟨rfl, World.did_look_vol _, ?_⟩
      rintro ⟨_, found, same⟩
      rw [Option.some.inj (leads.symm.trans found)] at other
      exact other same
    case isFalse same => exact .inl ⟨named, not_not.mp same, rfl⟩

/-- A request is served when all it does at a path is done to what is there, and when it fails
for a fork whose object is gone. -/
theorem Handles.serves {p : Action Reply} {fails : Volume → Prop} {due : Path → Told → Reply}
    (handles : Handles id fails due p) (holds : w.cat.Holds id opened) (apart : id ≠ rootId)
    (fine : Current id opened w ∨ fails w.vol) : Serves id opened due w p := by
  obtain ⟨f, rfl, does, refuses⟩ := handles
  rw [Serves, exec_bind]
  rcases exec_cases (wp_pathForId_held holds apart) with
    ⟨path, w₁, ended, ⟨named, same, rfl⟩ | ⟨rfl, vol, gone⟩⟩ | ⟨e, w₁, ended, vol⟩
  · rw [ended]
    dsimp only
    have widens : ∀ w w', Did (HostOp.Of path) w w' → Touch path w w' := by
      rintro _ _ ⟨of⟩
      exact .did of
    have touches := (does path named (w.did (.look (Path.names path)))).widen widens
    rw [World.did_look_vol] at touches
    refine .inl ⟨path, rfl, same, ?_⟩
    rcases exec_cases touches with ⟨reply, _, ends, reached, answers⟩ | ⟨_, _, ends, reached⟩
    · rw [ends]
      refine ⟨.head (.did .look) reached, ?_⟩
      rintro _ ⟨⟩
      exact answers
    · rw [ends]
      exact ⟨.head (.did .look) reached, by rintro _ ⟨⟩⟩
  · rw [ended]
    dsimp only
    refine .inr ?_
    rw [← vol] at fine ⊢
    rcases exec_cases (refuses w₁ (fine.resolve_left gone)) with
      ⟨_, _, ends, failed, disk⟩ | ⟨_, _, ends, disk⟩
    · rw [ends]
      exact ⟨failed, disk⟩
    · rw [ends]
      exact ⟨trivial, disk⟩
  · rw [ended]
    exact .inr ⟨trivial, vol⟩

end Rules

/-! ## Forks whose object is gone -/

namespace Sample

/-- A file in the shared folder. -/
def oneFile : Volume where
  root := rootIdentity
  items := [([a], ⟨nodeA.identity, some [1, 2, 3]⟩)]
  beside := none
  catalog := none

def fileServer : Server := { server with world := { world with vol := oneFile } }

def openA : Bytes := [26, 0, 0, 1, 0, 0, 0, 2, 0, 0, 0, 3, 2, 1, 0x61]

def opened : Server :=
  run Server.after (fileServer.after .start) [.openSession station, .command 1 station openA]

def fork : Fork := ⟨16, false, true, 0, [0x31, colon]⟩

end Sample

end Pom68k.Afp
