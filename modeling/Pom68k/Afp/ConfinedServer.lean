import Pom68k.Afp.Histories
import Pom68k.Afp.Serve

/-! # A server stays in its folder -/

namespace Pom68k.Afp

open Foundation Program Std

/-- A path that does not end in a slash. -/
def Path.Closed (path : Path) : Prop := path.getLast? ≠ some slash

instance (path : Path) : Decidable path.Closed := inferInstanceAs (Decidable (_ ≠ _))

/-- Whatever is moved by the event goes to a path that does not end in a slash. The names that
other programs make are names a host can have. -/
def Closing (s : Server) (event : Event) : Prop :=
  (∀ source destination, event.Asks s (.move source destination) → source ≠ [] →
    destination.Closed) ∧
    ∀ vol, event.Asks s (.host vol) → vol.Named

/-- A folder that the event deletes has only metadata of the server in its metadata folder. -/
def Clearing (s : Server) (event : Event) : Prop :=
  ∀ source vol, event.Asks s (.delete source vol) →
    ∀ entry ∈ vol.tree (source.names ++ [appleDouble]), Confined (.under entry)

theorem Path.Aimed.tidy {destination : Path} (aimed : destination.Aimed)
    (closed : destination.Closed) : destination.Tidy := by
  obtain ⟨folder, leaf, tidy, none | valid, rfl⟩ := aimed
  · subst none
    rw [Path.child] at closed ⊢
    split at closed
    case isTrue root =>
      rw [if_pos root]
      exact .inl rfl
    case isFalse =>
      refine absurd ?_ closed
      rw [List.getLast?_append]
      rfl
  · exact .inr (tidy.child valid)

variable {asks : Deed → Prop}

theorem Sane.effort {w w' : World} (step : Effort False asks w w') (sane : Sane False w) :
    Sane False w' := by
  refine ⟨?_, False.elim⟩
  cases step with
  | work step => exact (sane.work step).sound
  | move => exact (sound_moveHostPath lasts_all free_all ⟨trivial, sane.sound⟩).2
  | delete =>
    exact (sound_deleteHostPath lasts_all (free_all.permits _) clears_all ⟨trivial, sane.sound⟩).2

variable {s : Server}

namespace Server

theorem hasFork_opened {sid : BitVec 8} {session : Session} {births : Nat}
    {fork new : Fork} (there : s.sessions[sid]? = some session)
    (has : HasFork
      { s with
        births := births
        sessions := s.sessions.insert sid
          { session with
            forks := session.forks.insert session.nextFork new
            nextFork := session.nextFork + 1 } } fork) : fork = new ∨ s.HasFork fork := by
  obtain ⟨other, session₁, ref, found, inside⟩ := has
  rcases getElem?_insert_iff.mp found with ⟨rfl, rfl⟩ | ⟨_, found⟩
  · rcases getElem?_insert_iff.mp inside with ⟨_, same⟩ | ⟨_, inside⟩
    · exact .inl same
    · exact .inr ⟨_, session, ref, there, inside⟩
  · exact .inr ⟨other, session₁, ref, found, inside⟩

theorem Fit.serve {s s' : Server} (step : Serve False asks s s') (fit : s.Fit False) :
    s'.Fit False := by
  cases step with
  | effort step => exact ⟨fit.sane.effort step, fit.forks, fit.writes⟩
  | sessions fewer => exact ⟨fit.sane, fun has => fit.forks (fewer _ has), fit.writes⟩
  | opened there other =>
    refine ⟨fit.sane, fun has => ?_, fit.writes⟩
    rcases hasFork_opened there has with rfl | has
    · exact other
    · exact fit.forks has
  | asked has id =>
    refine ⟨fit.sane, fit.forks, ?_⟩
    intro number w found
    rcases getElem?_insert_iff.mp found with ⟨_, rfl⟩ | ⟨_, found⟩
    · rw [id]
      exact fit.forks has
    · exact fit.writes found
  | answered number =>
    exact ⟨fit.sane, fit.forks, fun found => fit.writes (getElem?_of_erase found)⟩
  | aside => exact ⟨fit.sane, fit.forks, fit.writes⟩
  | started => exact ⟨⟨(sound_configure lasts_all free_all trivial).2, False.elim⟩, fit.forks, fit.writes⟩
  | host => exact ⟨⟨fit.sane.sound, False.elim⟩, fit.forks, fit.writes⟩

end Server

theorem fit_step {event : Event} (fit : s.Fit False) : (step s event).1.Fit False :=
  keeps_reached (fun _ _ step fit => fit.serve step) (serve_step fit event) fit

/-- A server before it is first started. -/
structure Server.Unused (s : Server) : Prop where
  sessions : s.sessions = ∅
  writes : s.writes = ∅

/-- The server after an event. -/
def Server.after (s : Server) (event : Event) : Server := (step s event).1

/-- The catalogue in memory is forgotten at once when a server starts. -/
theorem Server.after_start (s : Server) :
    s.after .start = Server.after { s with world := s.world.withCat .initial } .start := rfl

theorem Server.Unused.fit (unused : s.Unused) :
    Fit False { s with world := s.world.withCat .initial } := by
  refine ⟨⟨.initial, False.elim⟩, ?_, ?_⟩
  · rintro fork ⟨sid, session, ref, found, _⟩
    simp [unused.sessions] at found
  · intro number w found
    simp [unused.writes] at found

theorem fit_start (unused : s.Unused) : (s.after .start).Fit False := by
  rw [s.after_start]
  exact fit_step unused.fit

/-! ## What is removed with a folder -/

/-- All that was removed with a folder was metadata of the server. -/
def Clean (w : World) : Prop :=
  ∀ moment ∈ w.trace, ∀ entry ∈ moment.op.purged, Confined (.under entry)

/-- Nothing has come into the folder. -/
def Shed (v : Volume) (w : World) : Prop := w.vol.items ⊆ v.items ∧ Clean w

/-- Operations that bring nothing into the folder, and empty no folder. -/
def HostOp.sheds : HostOp → Bool
  | .look _ | .list _ | .sync _ | .remove _ | .commit _ => true
  | _ => false

theorem Volume.items_remove (v : Volume) (names : List Name) :
    (v.remove names).2.items ⊆ v.items := by
  rw [Volume.remove]
  split
  · exact List.Subset.refl _
  · split
    · exact List.Subset.refl _
    · exact List.filter_subset_self _

section Cleaning

variable {w : World} {v : Volume} {op : HostOp} {source : Path}

theorem Clean.did (clean : Clean w) (fine : ∀ entry ∈ op.purged, Confined (.under entry)) :
    Clean (w.did op) :=
  List.forall_mem_cons.mpr ⟨fine, clean⟩

theorem lasts_clean : Lasts (fun op => op.purged = []) Clean where
  did empty clean := clean.did (by simp [empty])
  withCat _ clean := clean
  look _ := rfl
  commit _ := rfl

theorem Shed.did (shed : Shed v w) (less : (w.vol.apply w.answer op).2.items ⊆ w.vol.items)
    (fine : ∀ entry ∈ op.purged, Confined (.under entry)) : Shed v (w.did op) := by
  refine ⟨List.Subset.trans ?_ shed.1, shed.2.did fine⟩
  dsimp only [World.did, World.volAfter]
  split
  · exact List.Subset.refl _
  · exact less

theorem lasts_shed (v : Volume) : Lasts (fun op => op.sheds = true) (Shed v) where
  did {w op} sheds shed := by
    cases op with
    | remove names => exact shed.did (w.vol.items_remove names) (List.forall_mem_nil _)
    | look | list | sync | commit => exact shed.did (List.Subset.refl _) (List.forall_mem_nil _)
    | _ => cases sheds
  withCat _ shed := shed
  look _ := rfl
  commit _ := rfl

/-- The metadata folder of a folder is emptied of what was in it when the deletion began. -/
theorem keeps_clearFolder
    (fine : ∀ entry ∈ v.tree (source.names ++ [appleDouble]), Confined (.under entry))
    (J : Catalog → Prop) (directory : Bool) : Keeps (Shed v) J (clearFolder source.names directory) := by
  cases directory with
  | false => exact triple_pure fun _ start => start
  | true =>
    intro w start
    have lasts : Outlasts (fun op => ∃ folder entry, op = .purge folder entry ∧
        Confined (.under entry)) (Both (Shed v) J) (Both (Shed v) J) := by
      refine ⟨?_, id⟩
      rintro w _ ⟨folder, entry, rfl, confined⟩ ⟨shed, same⟩
      exact ⟨shed.did (w.vol.items_remove entry) (List.forall_mem_singleton.mpr confined), same⟩
    refine (does_removeEach fun object inside => ?_).during lasts w start
    refine ⟨_, object, rfl, fine object ?_⟩
    simp only [Volume.tree, List.mem_insertionSort, List.mem_filter] at inside ⊢
    exact ⟨List.map_subset _ start.1.1 inside.1, inside.2⟩

end Cleaning

theorem purged_of_ordinary {op : HostOp} (ordinary : op.ordinary = true) : op.purged = [] := by
  cases op <;> first | rfl | cases ordinary

theorem Clean.serve {s s' : Server} (step : Serve False asks s s')
    (fine : ∀ source vol, asks (.delete source vol) →
      ∀ entry ∈ vol.tree (source.names ++ [appleDouble]), Confined (.under entry))
    (fit : s.Fit False) (clean : Clean s.world) : Clean s'.world := by
  have free : Free fun op => op.purged = [] := fun _ same => same
  cases step with
  | effort step =>
    cases step with
    | work step =>
      cases step with
      | did ordinary => exact lasts_clean.did (purged_of_ordinary ordinary) clean
      | tend _ step => exact lasts_clean.tend step clean
    | move => exact (sound_moveHostPath lasts_clean free ⟨clean, fit.sane.sound⟩).1
    | delete _ asked =>
      refine (sound_deleteHostPath (lasts_shed s.world.vol) ?_ (keeps_clearFolder (fine _ _ asked))
        ⟨⟨List.Subset.refl _, clean⟩, fit.sane.sound⟩).1.2
      constructor <;> rfl
  | started => exact (sound_configure lasts_clean free clean).1
  | sessions | opened | asked | answered | aside | host => exact clean

theorem clean_step {event : Event} (clearing : Clearing s event)
    (start : s.Fit False ∧ Clean s.world) :
    (s.after event).Fit False ∧ Clean (s.after event).world :=
  keeps_reached (I := fun s : Server => s.Fit False ∧ Clean s.world)
    (fun _ _ step start => ⟨start.1.serve step, start.2.serve step clearing start.1⟩)
    (serve_step start.1 event) start

theorem clean_run {events : List Event} (unused : s.Unused) (clean : Clean s.world)
    (clearing : Along Server.after Clearing (s.after .start) events) :
    (run Server.after (s.after .start) events).Fit False ∧
      Clean (run Server.after (s.after .start) events).world := by
  refine clearing.invariant (fun _ _ => clean_step) ?_
  rw [s.after_start]
  exact clean_step (fun _ _ never => by cases never) ⟨unused.fit, clean⟩

namespace Sample

/-- A folder in the shared folder, and its file system. -/
def nested : Volume where
  root := rootIdentity
  items := [([a], ⟨nodeA.identity, none⟩)]
  beside := none
  catalog := none

def server : Server where
  world := { world with vol := nested }
  volName := a
  statusBlock := []
  date := 0
  sessions := ∅
  nextSid := 1
  catalogError := none
  now := 0
  cpuHz := 1
  births := 0
  writes := ∅
  asked := 0

def station : Station := ⟨1, 1⟩

/-- The folder is to go to a folder that does not exist, under a name that says where the root
is. -/
def moveToRoot : List Event :=
  [.openSession station, .command 1 station
    [23, 0, 0, 1, 0, 0, 0, 2, 0, 0, 0, 2, 2, 1, 0x61, 2, 1, 0x62, 2, 1, 0]]

/-- The folder holds the metadata of a file that is no longer in it. -/
def stocked : Server :=
  { server with
    world :=
      { world with
        vol :=
          { nested with
            items := [([a], ⟨nodeA.identity, none⟩), ([a, appleDouble], ⟨nodeA.identity, none⟩),
              ([a, appleDouble, b], nodeB)] } } }

/-- The folder is to be deleted. -/
def delete : Bytes := [8, 0, 0, 1, 0, 0, 0, 2, 2, 1, 0x61]

def deletion : List Event := [.openSession station, .command 1 station delete]

theorem named_stocked : stocked.world.vol.Named := by
  simp only [Volume.Named, HostName]
  decide

theorem closing_deletion : Along Server.after Closing (stocked.after .start) deletion := by
  refine ⟨⟨fun _ _ asked => asked.elim, by rintro _ ⟨⟩⟩, ⟨?_, by rintro _ ⟨⟩⟩, trivial⟩
  rintro source destination ⟨w, ⟨other, _⟩ | ⟨other, _⟩⟩ _
  · exact absurd other (by decide)
  · exact absurd other (by decide)

theorem clearing_deletion : Along Server.after Clearing (stocked.after .start) deletion := by
  refine ⟨fun _ _ asked => asked.elim, ?_, trivial⟩
  rintro source _ ⟨used, w, _, ended, rfl⟩
  have goal : ((resolvePath (rd32 delete 4) (delete.drop 8)).exec
      ((stocked.after .start).after (.openSession station)).world).1 = .ok (.ok (a, 3)) := by
    decide +kernel
  have kept : ((resolvePath (rd32 delete 4) (delete.drop 8)).exec
      ((stocked.after .start).after (.openSession station)).world).2.vol.tree
        [a, appleDouble] = [[a, appleDouble, b], [a, appleDouble]] := by
    decide +kernel
  rw [ended] at goal kept
  cases goal
  rw [show Path.names a ++ [appleDouble] = [a, appleDouble] by decide, kept]
  have plain : PlainNames [a] := by
    rw [PlainNames]
    decide
  intro entry inside
  simp only [List.mem_cons, List.not_mem_nil, or_false] at inside
  obtain rfl | rfl := inside
  · exact .metadata plain (by decide)
  · exact .metadataFolder plain

end Sample

end Pom68k.Afp
