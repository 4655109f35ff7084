import Pom68k.Afp.CatalogReading
import Pom68k.Foundation.Runs

/-! # Histories of a catalogue

Numbers asked for, moves and deletions in any order, with other programs at work on the folder
between them.
-/

namespace Pom68k.Afp

open Foundation Program

/-- What happens to a shared folder and its catalogue. -/
inductive CatalogEvent where
  | idForPath (rel : Path)
  | moveHostPath (source destination : Path)
  | deleteHostPath (source : Path)
  /-- Other programs leave the folder as it is now. -/
  | host (vol : Volume)

def catalogStep (w : World) : CatalogEvent → World
  | .idForPath rel => ((idForPath rel).exec w).2
  | .moveHostPath source destination => ((moveHostPath source destination).exec w).2
  | .deleteHostPath source => ((deleteHostPath source).exec w).2
  | .host vol => { w with vol := vol }

/-- Nothing is in the catalogue at or below the path a number is about to be moved to. -/
def Undisturbed (w : World) : CatalogEvent → Prop
  | .idForPath rel => w.cat.Calm w.vol rel
  | .moveHostPath source destination => w.cat.Calm w.vol source ∧ w.cat.Free source destination
  | .deleteHostPath source => w.cat.Calm w.vol source
  | .host _ => True

variable {w : World}

theorem exec_of_triple {α : Type} {p : Action α} {P E : World → Prop}
    (triple : Triple P p (fun _ => E) fun _ => E) (start : P w) : E (p.exec w).2 := by
  have ends := triple w start
  rw [wp] at ends
  split at ends
  · rename_i ended
    rwa [ended]
  · rename_i ended
    rwa [ended]

theorem exec_of_both {α : Type} {p : Action α} {I E : Catalog → Prop}
    (triple : Triple (Both (fun _ => True) I) p (fun _ => Both (fun _ => True) E)
      fun _ => Both (fun _ => True) E) (start : I w.cat) : E (p.exec w).2.cat :=
  (exec_of_triple triple ⟨trivial, start⟩).2

theorem numbers_ready {source destination : Path} : Numbers (fun _ => True) source
    (Both (Still w) (Catalog.Ready w.vol source destination))
    (Both (fun _ => True) (Catalog.Movable source destination))
    (Both (fun _ => True) Catalog.Exact) where
  idle := ⟨fun fine start => ⟨(lasts_still w).did fine.2 start.1, start.2⟩,
    fun start => ⟨trivial, start.2.toExact⟩⟩
  number _ start := wp_mono (wp_idForPath start.1 start.2) (fun _ _ last => ⟨trivial, last.1⟩)
    fun _ _ last => ⟨trivial, last⟩

theorem exact_catalogStep {event : CatalogEvent} (calm : Undisturbed w event)
    (exact : w.cat.Exact) : (catalogStep w event).cat.Exact := by
  cases event with
  | idForPath rel =>
    have ready : w.cat.Ready w.vol rel rel := ⟨⟨exact, fun _ below => below⟩, calm⟩
    exact exec_of_triple (fun w start => wp_mono (numbers_ready.number w start)
      (fun _ _ last => last.2.toExact) fun _ _ last => last.2) ⟨.refl w, ready⟩
  | moveHostPath source destination =>
    have ready : w.cat.Ready w.vol source destination := ⟨⟨exact, calm.2⟩, calm.1⟩
    exact (exec_of_triple (keeps_moveHostPath lasts_all free_all numbers_ready
      Catalog.leaves_movable fun from_named to_named _ movable =>
        movable.toExact.moveIds from_named to_named movable.free) ⟨.refl w, ready⟩).2
  | deleteHostPath source =>
    have ready : w.cat.Ready w.vol source source := ⟨⟨exact, fun _ below => below⟩, calm⟩
    exact (exec_of_triple (keeps_deleteHostPath lasts_all (free_all.permits _) clears_all
      numbers_ready Catalog.leaves_movable fun named _ movable => movable.toExact.dropId named)
      ⟨.refl w, ready⟩).2
  | host vol => exact exact

theorem grown_catalogStep {c₀ : Catalog} (event : CatalogEvent) (grown : c₀.Grown w.cat) :
    c₀.Grown (catalogStep w event).cat := by
  cases event with
  | idForPath rel =>
    exact exec_of_both
      (keeps_idForPath lasts_all Catalog.stable_grown) grown
  | moveHostPath source destination =>
    exact exec_of_both (keeps_moveHostPath lasts_all free_all
      (Catalog.stable_grown.numbers lasts_all) Catalog.leaves_grown
      fun from_named to_named _ grown => grown.moveIds from_named to_named) grown
  | deleteHostPath source =>
    exact exec_of_both (keeps_deleteHostPath lasts_all (free_all.permits _) clears_all
      (Catalog.stable_grown.numbers lasts_all) Catalog.leaves_grown
      fun named _ grown => grown.dropId named) grown
  | host vol => exact grown

theorem exact_run {events : List CatalogEvent} (calm : Along catalogStep Undisturbed w events)
    (exact : w.cat.Exact) : (run catalogStep w events).cat.Exact :=
  calm.invariant (fun _ _ => exact_catalogStep) exact

theorem grown_run (sound : w.cat.Sound) (events : List CatalogEvent) :
    w.cat.Grown (run catalogStep w events).cat :=
  run_invariant (I := fun last : World => w.cat.Grown last.cat) (fun _ event => grown_catalogStep event)
    ⟨sound, Nat.le_refl _, fun _ gone => gone⟩ events

/-- The number a path has just been given leads back to it. -/
theorem pathForId_idForPath {w w' : World} {rel : Path} {id : Nat} (exact : w.cat.Exact)
    (calm : w.cat.Calm w.vol rel) (found : (idForPath rel).exec w = (.ok id, w'))
    (answers : w'.Answers) : ((pathForId id).exec w').1 = .ok rel := by
  have ready : w.cat.Ready w.vol rel rel := ⟨⟨exact, fun _ below => below⟩, calm⟩
  have ends := wp_idForPath (.refl w) ready
  rw [wp, found] at ends
  obtain ⟨after, disk, ⟨rfl, rfl⟩ | ⟨root, there⟩⟩ := ends
  · exact exec_of_wp (wp_pathForId_root after.toExact)
  · rw [← Volume.identityAt_congr disk] at there
    exact exec_of_wp (wp_pathForId after.toExact answers there)

/-- Where a history begins: a folder never served before, or a catalogue that has been read. -/
def Catalog.Started (c : Catalog) : Prop := c = .initial ∨ ∃ bytes, parseCatalog bytes = .ok c

theorem Catalog.Started.exact {c : Catalog} (started : c.Started) : c.Exact := by
  rcases started with rfl | ⟨bytes, read⟩
  · exact exact_initial
  · exact (accepted_of_parse read).toExact

/-- As long as no number is moved to where another is still listed, the two maps are inverse, all
numbers have been given out and none a second time, and a number leads to the path it was just
found for. -/
theorem catalogue_one_to_one {w : World} {events : List CatalogEvent} (started : w.cat.Started)
    (calm : Along catalogStep Undisturbed w events) :
    (∀ (p : Path) (id : Nat), (run catalogStep w events).cat.pathToId[p]? = some id ↔
      (run catalogStep w events).cat.idToPath[id]? = some p) ∧
    (∀ (p : Path) (id : Nat), (run catalogStep w events).cat.idToPath[id]? = some p →
      id < (run catalogStep w events).cat.nextId) ∧
    (∀ front back, events = front ++ back → ∀ id < (run catalogStep w front).cat.nextId,
      (run catalogStep w front).cat.idToPath[id]? = none →
        (run catalogStep w events).cat.idToPath[id]? = none) ∧
    (∀ (rel : Path) (id : Nat) (w' : World),
      Undisturbed (run catalogStep w events) (.idForPath rel) →
        (idForPath rel).exec (run catalogStep w events) = (.ok id, w') → w'.Answers →
          ((pathForId id).exec w').1 = .ok rel) := by
  have exact := exact_run calm started.exact
  refine ⟨fun p id => exact.inverse, fun p id found => ?_, ?_, ?_⟩
  · have next := exact.next
    rcases exact.issued found with rfl | ⟨_, small⟩
    · exact Nat.lt_of_lt_of_le (by decide) next
    · exact small
  · rintro front back rfl id small gone
    rw [along_append] at calm
    have halfway := exact_run calm.1 started.exact
    rw [run_append]
    exact (grown_run halfway.toSound back).withdrawn small gone
  · exact fun rel id w' calm found answers => pathForId_idForPath exact calm found answers

namespace Sample

def identity (digit : Octet) (isDigit : identityChar digit = true) : Identity where
  text := [digit, colon]
  ne_nil := by simp
  short := by simp
  chars := by
    rw [List.all_cons, isDigit]
    rfl

def rootIdentity : Identity := identity 0x30 (by decide)

def nodeA : Node := ⟨identity 0x31 (by decide), some []⟩

def nodeB : Node := ⟨identity 0x32 (by decide), some []⟩

def a : Path := [0x61]

def b : Path := [0x62]

def c : Path := [0x63]

/-- Two files in a folder. -/
def folder : Volume where
  root := rootIdentity
  items := [([a], nodeA), ([b], nodeB)]
  beside := none
  catalog := none

/-- The second file under another name. -/
def renamed : Volume where
  root := rootIdentity
  items := [([a], nodeA), ([c], nodeB)]
  beside := none
  catalog := none

/-- A host that does what it is asked to. -/
def willing (_ : Nat) : Answer := ⟨false, false, identity 0x39 (by decide), 0⟩

def world : World where
  cat := .initial
  vol := folder
  trace := []
  oracle := willing

/-- Both files get numbers, the second is renamed by another program, and the first is moved to
the name the second had. -/
def stale : List CatalogEvent := [.idForPath a, .idForPath b, .host renamed, .moveHostPath a b]

def fresh : List CatalogEvent := [.idForPath a, .host renamed, .moveHostPath a b]

end Sample

theorem free_of_toList {c : Catalog} {source destination : Path}
    (free : ∀ entry ∈ c.pathToId.toList, destination.Below entry.1 → source.Below entry.1) :
    c.Free source destination := fun {p id} found below =>
  free (p, id) (Std.ExtTreeMap.mem_toList_iff_getElem?_eq_some.mpr found) below

/-- The same with the second file never asked for: nothing is left behind under its name. -/
theorem catalogue_one_to_one_renamed :
    (run catalogStep Sample.world Sample.fresh).cat.idToPath[16]? = some Sample.b := by
  have calm : Along catalogStep Undisturbed Sample.world Sample.fresh := by
    refine ⟨fun _ id displaced => ?_, trivial, ⟨fun _ _ _ => .inl ⟨16, ?_⟩, free_of_toList ?_⟩,
      trivial⟩
    · cases displaced.1
    · decide +kernel
    · decide +kernel
  exact ((catalogue_one_to_one (.inl rfl) calm).1 Sample.b 16).mp (by decide +kernel)

/-- A number that was left behind leads to a path that has another number, and a number found for
a path does not lead back to it. -/
theorem catalogue_stale_number :
    (run catalogStep Sample.world Sample.stale).cat.idToPath[17]? = some Sample.b ∧
      (run catalogStep Sample.world Sample.stale).cat.pathToId[Sample.b]? = some 16 ∧
      ((idForPath Sample.c).exec (run catalogStep Sample.world Sample.stale)).1 = .ok 17 ∧
      ((do pathForId (← idForPath Sample.c)).exec (run catalogStep Sample.world Sample.stale)).1 =
        .ok noPath := by
  decide +kernel

/-! ## The catalogue stays sound -/

section Sound

variable {ok : HostOp → Prop} {C : World → Prop} {source destination : Path}

theorem leaves_sound : Leaves Catalog.Sound Catalog.Sound :=
  .same (fun sound => sound.pend) Catalog.fillable_sound

theorem stable_sound : Stable source Catalog.Sound := ⟨leaves_sound, .tend⟩

theorem testBit_journalFlags (c : Catalog) : (journalFlags c).testBit 1 = c.pendingDelete := by
  rw [journalFlags]
  cases c.pendingSidecar <;> cases c.pendingDelete <;> rfl

section

variable (lasts : Lasts ok C)
include lasts

theorem sound_deleteHostPath (permits : Permits ok source)
    (clear : ∀ (J : Catalog → Prop) directory, Keeps C J (clearFolder source.names directory))
    (start : Both C Catalog.Sound w) :
    Both C Catalog.Sound ((deleteHostPath source).exec w).2 :=
  exec_of_triple (keeps_deleteHostPath lasts permits clear (stable_sound.numbers lasts)
    leaves_sound fun named _ sound => sound.dropId named) start

variable (free : Free ok)
include free

theorem sound_moveHostPath (start : Both C Catalog.Sound w) :
    Both C Catalog.Sound ((moveHostPath source destination).exec w).2 :=
  exec_of_triple (keeps_moveHostPath lasts free (stable_sound.numbers lasts)
    leaves_sound
    fun from_named to_named _ sound => sound.moveIds from_named to_named) start

theorem sound_recoverCatalogMove {c : Catalog} (accepted : c.Accepted) :
    Triple (Both C (· = c)) recoverCatalogMove (fun _ => Both C Catalog.Sound)
      fun _ => Both C Catalog.Sound := by
  have journal := accepted.journal
  rw [journalValid, decide_eq_true_iff, testBit_journalFlags] at journal
  have sound := accepted.toSound
  have weaken : ∀ c', c' = c → c'.Sound := fun _ same => same ▸ sound
  have undone {change : Catalog → Catalog} (kept : (change c).Sound) :=
    keeps_saved (I := (· = c)) lasts (fun _ same => same ▸ kept) Catalog.fillable_sound
  refine triple_recoverCatalogMove (fun _ same => same.2) (free _ rfl) (free _ rfl)
    (lasts.outlasts weaken) (fun _ _ start => ⟨start.1, weaken _ start.2⟩) ?_ ?_
  · intro pending _
    refine ⟨(keeps_finishCatalogDelete lasts (free.permits _) leaves_sound
      fun _ sound => sound.dropId pending).mono ?_, undone sound.pend⟩
    rintro w ⟨start, rfl⟩
    exact ⟨⟨start, sound⟩, rfl⟩
  · intro pending moving
    have target := (journal.2.2 pending).2.2
    rw [if_neg (by simp [moving])] at target
    have to_named := (validCatalogPath_iff.mp target.1).ne_nil
    refine ⟨(keeps_finishCatalogMove lasts free leaves_sound
      fun _ sound => sound.moveIds pending to_named).mono ?_, undone sound.pend⟩
    rintro w ⟨start, rfl⟩
    exact ⟨⟨start, sound⟩, rfl, rfl⟩

/-- Whatever was in memory, a server starts with a sound catalogue. -/
theorem sound_configure (start : C w) : Both C Catalog.Sound (configure.exec w).2 := by
  refine exec_of_triple (triple_configure (free _ rfl) (free _ rfl)
    (lasts.outlasts fun _ sound => sound) ?_ fun parsed => ?_) start
  · exact fun w start => ⟨lasts.withCat _ start, Catalog.Sound.initial.pend⟩
  · refine Triple.bind ?_ fun _ =>
      sound_recoverCatalogMove lasts free (accepted_of_parse parsed)
    exact fun w start => ⟨lasts.withCat _ start.1, rfl⟩

end

end Sound

end Pom68k.Afp
