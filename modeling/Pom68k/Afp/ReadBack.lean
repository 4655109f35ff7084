import Pom68k.Afp.ConfinedServer

/-! # What is saved can be read

Every catalogue that the server puts on the disk is accepted when it is read again and is the one
in memory, as long as the two maps in memory are inverse to each other.
-/

namespace Pom68k.Afp

open Foundation Program Std

namespace Catalog

variable {c c' : Catalog} {rel source destination p : Path} {id : Nat} {text : Bytes}

/-- Nothing is pending. -/
structure Idle (c : Catalog) : Prop where
  source : c.pendingSource = []
  destination : c.pendingDestination = []
  sidecar : c.pendingSidecar = false
  delete : c.pendingDelete = false

/-- What is there to be written can be written. -/
structure Writable (c : Catalog) : Prop extends c.Neat where
  texts : ∀ {id : Nat} {text : Bytes}, c.hosts[id]? = some text → text = [] ∨ IdentityText text
  next_lt : c.nextId < 2 ^ 32

section

variable (writable : c.Writable)
include writable

theorem Writable.bind (other : id ≠ rootId)
    (known : c.idToPath[id]? = some p) (isText : text = [] ∨ IdentityText text) :
    (c.bind id text).Writable where
  toNeat := writable.toNeat.bind other known
  texts found := of_getElem?_insert found isText writable.texts
  next_lt := writable.next_lt

theorem Writable.dropId (named : rel ≠ []) : (c.dropId rel).Writable :=
  ⟨writable.toNeat.dropId named, fun found => writable.texts (dropId_hosts.mp found).2,
    writable.next_lt⟩

theorem Writable.moveIds (from_named : source ≠ [])
    (valid : destination.Valid) : (c.moveIds source destination).Writable where
  toNeat := writable.toNeat.moveIds from_named valid
  texts := by
    rw [writable.moveIds_hosts]
    exact writable.texts
  next_lt := writable.next_lt

theorem Writable.issue (valid : rel.Valid) (room : c.nextId ≠ 2 ^ 32 - 1)
    (isText : text = [] ∨ IdentityText text) : (c.issue rel text).Writable where
  toNeat := writable.toNeat.issue valid
  texts found := of_getElem?_insert found isText writable.texts
  next_lt := by
    have below := writable.next_lt
    rw [Catalog.issue]
    dsimp only
    omega

theorem Writable.pend {sidecar delete : Bool} (from_tidy : source.Tidy)
    (to_tidy : destination.Tidy) : (c.pend source destination sidecar delete).Writable :=
  ⟨writable.toNeat.pend from_tidy to_tidy, writable.texts, writable.next_lt⟩

end

theorem writable_initial : Catalog.initial.Writable :=
  ⟨neat_initial, fun found => by simp [Catalog.initial] at found, by decide⟩

/-- Every number leads to a path that has the number. -/
def Back (c : Catalog) : Prop :=
  ∀ {id : Nat} {p : Path}, c.idToPath[id]? = some p → c.pathToId[p]? = some id

/-- The pending operation is one that the reader takes. -/
def Journaled (c : Catalog) : Prop :=
  c.Back → journalValid true c c.pendingSource c.pendingDestination (journalFlags c) = true

theorem Idle.journaled (idle : c.Idle) : c.Journaled := by
  intro _
  rw [idle.source, idle.destination, journalFlags, idle.sidecar, idle.delete]
  rfl

theorem Writable.accepted (writable : c.Writable) (back : c.Back) (bound : c.Bound)
    (journaled : c.Journaled) : c.Accepted where
  toExact := ⟨writable.toSound, back⟩
  valid found other := (writable.pathToId found).resolve_left
    (writable.named (writable.forth found) other)
  texts := by
    intro id text found
    refine (writable.texts found).resolve_left ?_
    rintro rfl
    obtain ⟨other, p, leads⟩ := writable.bound found
    refine bound (back leads) other ?_
    rw [known, found]
    rfl
  next_lt := writable.next_lt
  journal := journaled back

end Catalog

/-- What is put on the disk while the maps are inverse is read back as it is in memory. -/
def Moment.ReadsBack (moment : Moment) : Prop :=
  ∀ bytes, moment.op = .commit bytes → moment.cat.Back → parseCatalog bytes = .ok moment.cat

/-- The server stays in its folder and all it saved can be read back. -/
structure Careful (w : World) : Prop where
  safe : Safe w
  writable : w.cat.Writable
  reads : ∀ moment ∈ w.trace, moment.ReadsBack

theorem identityAt_text (v : Volume) (rel : Path) :
    v.identityAt rel = [] ∨ IdentityText (v.identityAt rel) := by
  rw [Volume.identityAt]
  split
  case h_1 node _ => exact .inr node.identity.isText
  case h_2 => exact .inl rfl

variable {op : HostOp} {c : Catalog} {id : Nat}

section Steps

variable {w w' : World} {rel : Path}

theorem Careful.did (careful : Careful w) (apart : op.commits = false) (inside : op.Confined) :
    Careful (w.did op) := by
  refine ⟨careful.safe.did inside, careful.writable,
    List.forall_mem_cons.mpr ⟨?_, careful.reads⟩⟩
  rintro bytes rfl
  cases apart

theorem Careful.withCat (careful : Careful w) (writable : c.Writable) :
    Careful (w.withCat c) := ⟨careful.safe.withCat writable.toNeat, writable, careful.reads⟩

theorem Careful.save (step : Save w w') (journaled : w.cat.Journaled) (careful : Careful w) :
    Careful w' ∧ w'.cat.Journaled := by
  cases step with
  | look known =>
    exact ⟨careful.did rfl (confined_look (careful.safe.neat.pathToId known)), journaled⟩
  | @bind path id text known other _ text_eq =>
    refine ⟨careful.withCat (careful.writable.bind other (careful.writable.forth known) ?_),
      journaled⟩
    rcases text_eq with rfl | rfl
    · exact .inl rfl
    · exact identityAt_text _ _
  | commit bound fits =>
    refine ⟨⟨careful.safe.did (confined_commit _), careful.writable,
      List.forall_mem_cons.mpr ⟨?_, careful.reads⟩⟩, journaled⟩
    rintro bytes ⟨⟩ back
    exact parse_sealed_render (careful.writable.accepted back bound journaled) bound fits

theorem Catalog.Idle.save (step : Save w w') (idle : w.cat.Idle) : w'.cat.Idle := by
  cases step with
  | look | commit => exact idle
  | bind => exact ⟨idle.source, idle.destination, idle.sidecar, idle.delete⟩

theorem Careful.tend (tidy : rel.Tidy) (step : Tend rel w w') (idle : w.cat.Idle)
    (careful : Careful w) : Careful w' ∧ w'.cat.Idle := by
  have valid : rel ≠ [] → rel.Valid := tidy.resolve_left
  have writable := careful.writable
  cases step with
  | save step => exact ⟨(careful.save step idle.journaled).1, idle.save step⟩
  | look known =>
    refine ⟨careful.did rfl (confined_look ?_), idle⟩
    rcases known with rfl | ⟨id, leads⟩
    · exact tidy
    · exact writable.tidy leads
  | bind named there =>
    refine ⟨careful.withCat (writable.bind (writable.ne_root named there) (writable.forth there)
      (identityAt_text _ _)), ?_⟩
    exact ⟨idle.source, idle.destination, idle.sidecar, idle.delete⟩
  | drop named => exact ⟨careful.withCat (writable.dropId named), idle.1, idle.2, idle.3, idle.4⟩
  | move named _ leads bound =>
    refine ⟨careful.withCat (writable.moveIds ?_ (valid named)), idle.1, idle.2, idle.3, idle.4⟩
    exact writable.named leads (writable.bound bound).1
  | issue named _ room =>
    exact ⟨careful.withCat (writable.issue (valid named) room (identityAt_text _ _)), idle.1,
      idle.2, idle.3, idle.4⟩

/-- Careful, and with nothing pending. -/
def AtRest (w : World) : Prop := Careful w ∧ w.cat.Idle

theorem commits_of_ordinary (ordinary : op.ordinary = true) : op.commits = false := by
  cases op <;> first | rfl | cases ordinary

theorem AtRest.work (step : Work True w w') (rest : AtRest w) : AtRest w' := by
  cases step with
  | did ordinary inside =>
    exact ⟨rest.1.did (commits_of_ordinary ordinary) (inside trivial), rest.2⟩
  | tend tidy step => exact rest.1.tend (tidy trivial) step rest.2

end Steps

/-! ## Moves and deletions -/

section Rules

variable {α : Type} {p : Action α} {Q : α → Prop} {I E : Catalog → Prop} {hasSidecar : Bool}
  {source destination rel : Path} {w : World}

/-- From a catalogue of some kind the action ends careful: with nothing pending, unless it
fails. -/
abbrev Settles (I : Catalog → Prop) (p : Action α) : Prop :=
  Triple (fun w => Careful w ∧ I w.cat) p (fun _ w => AtRest w) fun _ w => Careful w

/-- The action is careful, and keeps the kind of catalogue unless it fails. -/
abbrev Retains (I : Catalog → Prop) (p : Action α) : Prop :=
  Triple (fun w => Careful w ∧ I w.cat) p (fun _ w => Careful w ∧ I w.cat) fun _ w => Careful w

theorem settles_pure (a : α) : Settles Catalog.Idle (pure a : Action α) :=
  triple_pure fun _ rest => rest

theorem Working.rests (working : Working True Q p) :
    Triple AtRest p (fun a w => AtRest w ∧ Q a) fun _ w => Careful w := fun w rest =>
  wp_mono ((working w ⟨rest.1.safe.neat.toSound, fun _ => rest.1.safe⟩).keeps
    (fun _ _ => AtRest.work) rest) (fun _ _ last => last) fun _ _ last => last.1

/-- An operation inside the folder other than the one on the catalogue. -/
def HostOp.Quiet (op : HostOp) : Prop := op.commits = false ∧ op.Confined

theorem quiet_single {spot : Spot} (other : op.commits = false) (only : op.asked = [spot])
    (inside : Confined spot) : op.Quiet :=
  ⟨other, confined_single only inside⟩

theorem quiet_look (tidy : rel.Tidy) : (HostOp.look rel.names).Quiet := ⟨rfl, confined_look tidy⟩

theorem quiet_rename {first second : List Name} (left : Confined (.under first))
    (right : Confined (.under second)) : (HostOp.rename first second).Quiet := by
  refine ⟨rfl, fun spot listed => ?_⟩
  simp only [HostOp.asked, List.mem_cons, List.not_mem_nil, or_false] at listed
  rcases listed with rfl | rfl
  · exact left
  · exact right

/-- Operations inside the folder that leave the catalogue alone. -/
theorem outlasts_careful (I : Catalog → Prop) :
    Outlasts HostOp.Quiet (fun w => Careful w ∧ I w.cat) Careful :=
  ⟨fun quiet start => ⟨start.1.did quiet.1 quiet.2, start.2⟩, And.left⟩

theorem permits_quiet (valid : rel.Valid) : Permits HostOp.Quiet rel := by
  have plain := Path.Tidy.plainNames (.inr valid)
  have metadata := confined_sidecar valid
  have folder := confined_metadataFolder (.inr valid)
  exact ⟨quiet_look (.inr valid), quiet_single rfl rfl (.plain plain),
    quiet_single rfl rfl (.plain plain), quiet_single rfl rfl (confined_parent (.inr valid)),
    quiet_single rfl rfl metadata, quiet_single rfl rfl metadata, quiet_single rfl rfl folder⟩

/-- Saving with an operation pending that the reader takes. -/
theorem saved_pending (fillable : Fillable I) :
    Triple (fun w => Careful w ∧ w.cat.Journaled ∧ I w.cat) saveCatalog
      (fun _ w => Careful w ∧ I w.cat) fun _ w => Careful w := by
  have kept : ∀ w w' : World, Save w w' → Careful w ∧ w.cat.Journaled ∧ I w.cat →
      Careful w' ∧ w'.cat.Journaled ∧ I w'.cat := by
    rintro w w' step ⟨careful, journaled, start⟩
    obtain ⟨careful', journaled'⟩ := careful.save step journaled
    exact ⟨careful', journaled', step.keeps fillable start⟩
  exact fun w start => wp_mono (steps_saveCatalog.keeps kept start)
    (fun _ _ last => ⟨last.1.1, last.1.2.2⟩) fun _ _ last => last.1

/-- Saving with nothing pending. -/
theorem rests_saveCatalog : Settles Catalog.Idle saveCatalog :=
  (saved_pending (fun _ _ _ idle => ⟨idle.source, idle.destination, idle.sidecar,
    idle.delete⟩)).mono (fun _ rest => ⟨rest.1, rest.2.journaled, rest.2⟩)

section

variable {change : Catalog → Catalog}
  (writable : ∀ c : Catalog, I c → c.Writable → (change c).Writable)
  (idle : ∀ c : Catalog, I c → (change c).Idle)
include writable idle

/-- A change of the catalogue that leaves nothing pending. -/
theorem rests_update : Settles I (update change) := fun _ start =>
  ⟨start.1.withCat (writable _ start.2 start.1.writable), idle _ start.2⟩

theorem rests_saved : Settles I (do update change; saveCatalog) :=
  (rests_update writable idle).bind fun _ => rests_saveCatalog

theorem rests_undone (result : Int) :
    Settles I (do update change; saveCatalog; return result : Action Int) :=
  (rests_update writable idle).bind fun _ => rests_saveCatalog.bind fun _ => settles_pure _

end

/-- The move that is pending. -/
def Pending (source destination : Path) (c : Catalog) : Prop :=
  c.pendingSource = source ∧ c.pendingDestination = destination

/-- The move that is pending, and that it is no deletion. -/
def Moving (source destination : Path) (c : Catalog) : Prop :=
  Pending source destination c ∧ c.pendingDelete = false

theorem rests_finishCatalogMove (from_valid : source.Valid) (to_valid : destination.Valid) :
    Settles (Moving source destination) finishCatalogMove := by
  have moved : Settles (fun c => c.pendingDelete = false) (do
      update fun c => c.pend [] [] false c.pendingDelete
      moveIds source destination) := by
    refine Triple.bind
      (rests_update (I := fun c => c.pendingDelete = false) ?_ ?_) fun _ =>
      rests_saved ?_ ?_
    · exact fun _ _ writable => writable.pend (.inl rfl) (.inl rfl)
    · exact fun _ moving => ⟨rfl, rfl, rfl, moving⟩
    · exact fun _ _ writable => writable.moveIds from_valid.ne_nil to_valid
    · exact fun _ idle => ⟨idle.1, idle.2, idle.3, idle.4⟩
  exact (triple_finishCatalogMove (permits_quiet from_valid) (permits_quiet to_valid)
    (quiet_single rfl rfl (confined_metadataFolder (.inr to_valid)))
    (quiet_rename (confined_sidecar from_valid) (confined_sidecar to_valid))
    (outlasts_careful fun c => c.pendingDelete = false) moved).mono
    (fun _ start => ⟨⟨start.1, start.2.2⟩, start.2.1⟩)

/-- A path that has just been asked for is listed, unless the maps are at odds. -/
def Listed (rel : Path) (c : Catalog) : Prop := c.Back → rel ∈ c.pathToId

theorem mem_of_pathToId {i : Nat} (there : c.pathToId[rel]? = some i) : rel ∈ c.pathToId := by
  rw [ExtTreeMap.mem_iff_isSome_getElem?, there]
  rfl

theorem listed_of_identified {identity : Bytes} {c c' : Catalog} (sound : c.Sound)
    (named : rel ≠ []) (found : Identified rel identity c id c') : Listed rel c' := by
  have renumbered : ∀ {c : Catalog}, c.Sound → Renumbered rel identity c id c' → Listed rel c' := by
    intro c sound numbered back
    cases numbered with
    | @moved _ previous _ leads bound filled =>
      rw [filled.pathToId]
      by_cases gone : id ∈ c.gone previous
      · obtain ⟨p, below, there⟩ := Catalog.mem_gone.mp gone
        obtain rfl := Option.some.inj ((sound.forth there).symm.trans leads)
        refine mem_of_pathToId (i := id) (Catalog.moveIds_pathToId.mpr (.inl ?_))
        exact Catalog.mem_moved.mpr ⟨p, .inl rfl, there, by simp⟩
      · -- a number left behind contradicts that the maps are inverse
        have stays : c'.idToPath[id]? = some previous := by
          rw [filled.1]
          exact sound.moveIds_idToPath.mpr (.inr ⟨gone, leads⟩)
        have there := back stays
        rw [filled.pathToId] at there
        rcases Catalog.moveIds_pathToId.mp there with inside | ⟨_, outside, _⟩
        · obtain ⟨p, below, there, _⟩ := Catalog.mem_moved.mp inside
          exact absurd (Catalog.mem_gone.mpr ⟨p, below, there⟩) gone
        · exact absurd (.inl rfl) outside
    | issued filled =>
      rw [filled.pathToId]
      exact mem_of_pathToId (ExtTreeMap.getElem?_insert_self)
  cases found with
  | known there => exact fun _ => mem_of_pathToId there
  | absent _ numbered => exact renumbered sound numbered
  | replaced _ numbered => exact renumbered (sound.dropId named) numbered

theorem numbers_careful (tidy : rel.Tidy) (named : rel ≠ []) :
    Numbers HostOp.Quiet rel AtRest (fun w => AtRest w ∧ Listed rel w.cat) Careful where
  idle := ⟨fun fine => (outlasts_careful Catalog.Idle).did fine.1, And.left⟩
  number := by
    intro w rest
    have working : Working True _ (idForPath rel) := working_idForPath fun _ => tidy
    refine wp_mono (wp_and (working.rests w rest) (@steps_idForPath rel w)) ?_ fun _ _ last => last.1
    rintro id w' ⟨⟨rest', _⟩, _, _, ⟨root, _⟩ | ⟨_, _, identified⟩⟩
    · exact absurd root named
    · exact ⟨rest', listed_of_identified rest.1.safe.neat.toSound named identified⟩

theorem journalFlags_le (c : Catalog) : journalFlags c ≤ 3 := by
  rw [journalFlags]
  split <;> split <;> omega

theorem journaled_move (from_valid : source.Valid) (to_valid : destination.Valid)
    (apart : source ≠ destination) (idle : c.Idle) (listed : Listed source c) :
    (c.pend source destination hasSidecar c.pendingDelete).Journaled := by
  intro back
  rw [journalValid, decide_eq_true_iff, testBit_journalFlags]
  refine ⟨journalFlags_le _, fun none => absurd none from_valid.ne_nil,
    fun _ => ⟨?_, listed back, ?_⟩⟩
  · exact validCatalogPath_iff.mpr from_valid
  · rw [if_neg (by simp [Catalog.pend, idle.delete])]
    exact ⟨validCatalogPath_iff.mpr to_valid, apart⟩

theorem rests_moveHostPath (from_tidy : source.Tidy) (to_tidy : source ≠ [] → destination.Tidy) :
    Settles Catalog.Idle (moveHostPath source destination) := by
  by_cases unnamed : source = [] ∨ destination = []
  · rw [moveHostPath, if_pos unnamed]
    exact settles_pure _
  rw [not_or] at unnamed
  have from_valid := from_tidy.resolve_left unnamed.1
  have to_valid := (to_tidy unnamed.1).resolve_left unnamed.2
  refine triple_moveHostPath (permits_quiet from_valid) (permits_quiet to_valid)
    (quiet_rename (.plain from_tidy.plainNames) (.plain (to_tidy unnamed.1).plainNames))
    (numbers_careful from_tidy unnamed.1) (outlasts_careful (Moving source destination))
    (fun _ rest => rest) ?_
    (saved_pending fun _ _ _ moving => moving)
    (rests_undone (fun _ _ writable => writable.pend (.inl rfl) (.inl rfl))
      fun _ moving => ⟨rfl, rfl, rfl, moving.2⟩)
    (rests_finishCatalogMove from_valid to_valid)
  rintro apart w hasSidecar ⟨⟨careful, idle⟩, listed⟩
  exact ⟨careful.withCat (careful.writable.pend (.inr from_valid) (.inr to_valid)),
    journaled_move from_valid to_valid apart idle listed, ⟨rfl, rfl⟩, idle.delete⟩

/-- The deletion that is pending. -/
def Deleting (source : Path) (c : Catalog) : Prop :=
  c.pendingSource = source ∧ c.pendingDestination = []

theorem journaled_delete (valid : source.Valid) (listed : Listed source c) :
    (c.pend source [] hasSidecar true).Journaled := by
  intro back
  rw [journalValid, decide_eq_true_iff, testBit_journalFlags]
  refine ⟨journalFlags_le _, fun none => absurd none valid.ne_nil, fun _ => ⟨?_, listed back, ?_⟩⟩
  · exact validCatalogPath_iff.mpr valid
  · have deletes : (c.pend source [] hasSidecar true).pendingDelete = true := rfl
    rfl

theorem rests_finishCatalogDelete (valid : source.Valid) :
    Settles (Deleting source) finishCatalogDelete := by
  have dropped : Settles (fun c => c.pendingDestination = []) (do
      update fun c => c.pend [] c.pendingDestination false false
      dropId source) := by
    refine Triple.bind
      (rests_update (I := fun c => c.pendingDestination = []) ?_ ?_) fun _ =>
      rests_saved ?_ ?_
    · exact fun _ none writable => writable.pend (.inl rfl) (.inl none)
    · exact fun _ none => ⟨rfl, none, rfl, rfl⟩
    · exact fun _ _ writable => writable.dropId valid.ne_nil
    · exact fun _ idle => ⟨idle.1, idle.2, idle.3, idle.4⟩
  exact (triple_finishCatalogDelete (permits_quiet valid)
    (outlasts_careful fun c => c.pendingDestination = []) dropped).mono
    (fun _ start => ⟨⟨start.1, start.2.2⟩, start.2.1⟩)

theorem rests_deleteHostPath (tidy : source.Tidy) :
    Settles Catalog.Idle (deleteHostPath source) := by
  by_cases unnamed : source = []
  · rw [deleteHostPath, if_pos unnamed]
    exact settles_pure _
  have valid := tidy.resolve_left unnamed
  refine triple_deleteHostPath (permits_quiet valid) (numbers_careful tidy unnamed)
    (outlasts_careful (Listed source)) (outlasts_careful (Deleting source)) (fun _ rest => rest)
    ?_ ?_
    (saved_pending fun _ _ _ deleting => deleting)
    (fun directory => (does_clearFolder (fun _ => quiet_single rfl rfl
      (.metadataFolder (Path.Tidy.plainNames tidy))) directory).during (outlasts_careful _))
    (rests_undone (fun _ deleting writable => writable.pend (.inl rfl) (.inl deleting.2))
      fun _ deleting => ⟨rfl, deleting.2, rfl, rfl⟩)
    (rests_finishCatalogDelete valid)
  · rintro w ⟨⟨careful, _⟩, listed⟩
    exact ⟨careful.withCat (careful.writable.pend tidy (.inl rfl)), listed⟩
  · rintro w hasSidecar ⟨careful, listed⟩
    exact ⟨careful.withCat (careful.writable.pend tidy (.inl rfl)),
      journaled_delete valid listed, rfl, rfl⟩

/-! ### Starting -/

theorem rests_recoverCatalogMove (accepted : c.Accepted) : Settles (· = c) recoverCatalogMove := by
  have journal := accepted.journal
  rw [journalValid, decide_eq_true_iff, testBit_journalFlags] at journal
  have neat := accepted.neat
  refine triple_recoverCatalogMove (fun _ start => start.2) (quiet_look neat.source)
    (quiet_look neat.destination) (outlasts_careful (· = c)) ?_ ?_ ?_
  · rintro none w ⟨careful, rfl⟩
    obtain ⟨empty, flags⟩ := journal.2.1 none
    refine ⟨careful, none, empty, ?_, ?_⟩
    · rw [journalFlags] at flags
      cases sidecar : w.cat.pendingSidecar
      · rfl
      · simp [sidecar] at flags
    · rw [journalFlags] at flags
      cases delete : w.cat.pendingDelete
      · rfl
      · simp [delete] at flags
  · intro pending deleting
    have target := (journal.2.2 pending).2.2
    rw [if_pos deleting] at target
    constructor
    · refine (rests_finishCatalogDelete (neat.source.resolve_left pending)).mono ?_
      rintro w ⟨careful, rfl⟩
      exact ⟨careful, rfl, target⟩
    · refine rests_saved (I := (· = c)) ?_ ?_
      · rintro _ rfl writable
        exact writable.pend (.inl rfl) neat.destination
      · rintro _ rfl
        exact ⟨rfl, target, rfl, rfl⟩
  · intro pending moving
    have target := (journal.2.2 pending).2.2
    rw [if_neg (by simp [moving])] at target
    constructor
    · refine (rests_finishCatalogMove (neat.source.resolve_left pending)
        (validCatalogPath_iff.mp target.1)).mono ?_
      rintro w ⟨careful, rfl⟩
      exact ⟨careful, ⟨rfl, rfl⟩, moving⟩
    · refine rests_saved (I := (· = c)) (fun _ _ writable => writable.pend (.inl rfl) (.inl rfl)) ?_
      rintro _ rfl
      exact ⟨rfl, rfl, rfl, moving⟩

/-- A server that starts needs nothing of the catalogue in its memory. -/
theorem rests_configure :
    Triple (fun w => w.vol.Named ∧ (∀ moment ∈ w.trace, moment.op.Confined) ∧
      ∀ moment ∈ w.trace, moment.ReadsBack) configure (fun _ w => AtRest w)
      fun _ w => Careful w := by
  refine triple_configure (quiet_single rfl rfl .lock) (quiet_single rfl rfl .catalog)
    (outlasts_careful Catalog.Idle) ?_ fun parsed => ?_
  · rintro w ⟨named, confined, reads⟩
    exact ⟨⟨⟨Catalog.neat_initial.pend (.inl rfl) (.inl rfl), named, confined⟩,
      Catalog.writable_initial.pend (.inl rfl) (.inl rfl), reads⟩, rfl, rfl, rfl, rfl⟩
  · have accepted := accepted_of_parse parsed
    refine Triple.bind ?_ fun _ =>
      rests_recoverCatalogMove accepted
    exact fun w rest => ⟨rest.1.withCat ⟨accepted.neat, fun found => .inr (accepted.texts found),
      accepted.next_lt⟩, rfl⟩

end Rules

/-! ## Events -/

section Events

variable {w : World} {s : Server} {body : Bytes} {p : Serving (Option Reply)}

theorem rests_moveReply {paths : Except Int (Path × Path)}
    (aimed : Gives True (fun src dst => src.Tidy ∧ dst.Aimed) paths)
    (closed : ∀ src dst, paths = .ok (src, dst) → src ≠ [] → dst.Closed) :
    Settles Catalog.Idle (moveReply paths) := by
  rcases paths with e | ⟨src, dst⟩
  · exact settles_pure _
  · obtain ⟨tidy, aimed⟩ := aimed src dst rfl trivial
    refine (rests_moveHostPath tidy fun named => ?_).bind fun _ => settles_pure _
    exact aimed.tidy (closed src dst rfl named)

/-- From a world the action ends careful, with nothing pending unless it fails. -/
abbrev SettlesFrom {α : Type} (w : World) (p : Action α) : Prop :=
  wp p (fun _ w => AtRest w) (fun _ w => Careful w) w

/-- A command that moves something to where its paths say. -/
theorem rests_moving {paths : Action (Except Int (Path × Path))} {least : Nat}
    (working : Working True (Gives True fun src dst => src.Tidy ∧ dst.Aimed) paths)
    (rest : AtRest w)
    (closed : ∀ src dst w', paths.exec w = (.ok (.ok (src, dst)), w') → src ≠ [] → dst.Closed) :
    SettlesFrom w (do if body.length < least then return err kErrParam else moveReply (← paths)) := by
  split
  · exact rest
  rw [SettlesFrom, wp_bind]
  rcases exec_cases (working.rests w rest) with
    ⟨found, w', ended, rest', aimed⟩ | ⟨e, w', ended, careful⟩
  · rw [wp, ended]
    refine rests_moveReply aimed ?_ w' rest'
    rintro src dst rfl
    exact closed src dst w' ended
  · rwa [wp, ended]

theorem rests_fpDelete : Settles Catalog.Idle (fpDelete body) := by
  rw [fpDelete]
  split
  · exact settles_pure _
  have working : Working True _ (resolvePath (rd32 body 4) (body.drop 8)) :=
    working_resolvePath _ _
  refine working.rests.bind fun result => ?_
  split
  · exact triple_pure fun _ start => start.1
  case h_2 rel used =>
    intro w start
    exact ((rests_deleteHostPath (start.2 rel used rfl trivial)).bind fun _ =>
      settles_pure _) w start.1

/-- Without moves, deletions and the like the world stays at rest. -/
theorem AtRest.serve {asks : Deed → Prop} (none : ∀ deed, ¬ asks deed) {s s' : Server}
    (step : Serve True asks s s') (rest : AtRest s.world) : AtRest s'.world := by
  cases step with
  | effort step =>
    cases step with
    | work step => exact rest.work step
    | move _ asked | delete _ asked => exact absurd asked (none _)
  | started asked | host asked => exact absurd asked (none _)
  | sessions | opened | asked | answered | aside => exact rest

/-- What a server that answers commands keeps to. -/
structure Server.Trusted (s : Server) : Prop where
  fit : s.Fit False
  careful : Careful s.world
  idle : s.catalogError = none → s.world.cat.Idle

theorem Server.Fit.safely (fit : s.Fit False) (safe : Safe s.world) : s.Fit True :=
  ⟨⟨fit.sane.sound, fun _ => safe⟩, fit.forks, fit.writes⟩

/-- The same of a server with its world. -/
abbrev Server.Settles {α : Type} (s : Server) (p : Serving α) : Prop :=
  wp p (fun _ s => AtRest s.world) (fun _ s => Careful s.world) s

theorem rests_onWorld {p : Action Reply} (ends : SettlesFrom s.world p) :
    s.Settles (onWorld p) := wp_zoom.mpr ends

theorem rests_dispatchAfp {sid : BitVec 8} {session : Session} (fit : s.Fit True)
    (rest : AtRest s.world) (there : s.sessions[sid]? = some session)
    (closed : ∀ src dst, Asks body s.world (.move src dst) → src ≠ [] → dst.Closed) :
    s.Settles (dispatchAfp sid session body) := by
  by_cases deletes : body.head? = some 8
  · have same : dispatchAfp sid session body = onWorld (fpDelete body) := by
      rw [dispatchAfp, deletes]
      rfl
    rw [same]
    exact rests_onWorld (rests_fpDelete _ rest)
  by_cases renames : body.head? = some 28
  · have same : dispatchAfp sid session body = onWorld (fpRename body) := by
      rw [dispatchAfp, renames]
      rfl
    rw [same]
    refine rests_onWorld (rests_moving (working_renamePaths body) rest fun src dst w' ended => ?_)
    exact closed src dst ⟨w', .inl ⟨renames, ended⟩⟩
  by_cases moves : body.head? = some 23
  · have same : dispatchAfp sid session body = onWorld (fpMoveAndRename body) := by
      rw [dispatchAfp, moves]
      rfl
    rw [same]
    refine rests_onWorld (rests_moving (working_movePaths body) rest fun src dst w' ended => ?_)
    exact closed src dst ⟨w', .inr ⟨moves, ended⟩⟩
  · have none : ∀ deed, ¬ Asks body s.world deed := by
      rintro (⟨_, _⟩ | ⟨_, _⟩ | _ | _) asked
      · obtain ⟨w', ⟨code, _⟩ | ⟨code, _⟩⟩ := asked
        · exact renames code
        · exact moves code
      · obtain ⟨_, _, code, _⟩ := asked
        exact deletes code
      · exact asked
      · exact asked
    exact wp_mono ((serve_dispatchAfp fit rfl there body).keeps
      (fun _ _ step => AtRest.serve none step) rest) (fun _ _ last => last.1) fun _ _ last => last.1

/-- Careful, and with nothing pending unless commands are refused. -/
def Server.Kept (s : Server) : Prop := Careful s.world ∧ (s.catalogError = none → s.world.cat.Idle)

theorem Server.Trusted.kept (trusted : s.Trusted) : s.Kept := ⟨trusted.careful, trusted.idle⟩

theorem Server.Kept.refused {e : CatalogError} (careful : Careful s.world) :
    { s with catalogError := some e }.Kept := ⟨careful, fun never => by cases never⟩

theorem kept_guarded (ends : wp p (fun _ s => s.Kept) (fun _ s => Careful s.world) s) :
    (guarded s p).1.Kept := by
  rw [guarded]
  rcases exec_cases ends with ⟨_, _, ended, kept⟩ | ⟨_, _, ended, careful⟩
  · rwa [ended]
  · rw [ended]
    exact .refused careful

theorem careful_guarded (ends : s.Settles p) : (guarded s p).1.Kept :=
  kept_guarded (wp_mono ends (fun _ _ rest => ⟨rest.1, fun _ => rest.2⟩) fun _ _ last => last)

/-- A request that is refused or attended to with the session in place. -/
theorem careful_withSession {sid : BitVec 8} {src : Station}
    {next : Server → Session → Server × Option Reply} (trusted : s.Trusted)
    (rest : ∀ s' session, s'.Fit True → s'.world = s.world → s'.catalogError = s.catalogError →
      s'.sessions[sid]? = some session → (next s' session).1.Kept) :
    (withSession s sid src next).1.Kept := by
  rw [withSession]
  split
  · exact trusted.kept
  case h_2 session there =>
    split
    · exact trusted.kept
    have fit := trusted.fit.safely trusted.careful.safe
    refine rest _ _ ⟨fit.sane, fun has => fit.forks ?_, fit.writes⟩ rfl rfl
      (ExtTreeMap.getElem?_insert_self)
    exact Server.hasFork_insert { session with lastHeard := s.now } there
      (fun ref fork found => ⟨ref, found⟩) _ has

theorem careful_pathForId (other : id ≠ rootId) (I : Catalog → Prop) :
    Triple (fun w => Careful w ∧ I w.cat) (pathForId id)
      (fun path w => (Careful w ∧ I w.cat) ∧ path.Valid) fun _ w => Careful w := by
  have none : noPath.Valid := Path.valid_of_part (by decide) (by decide)
  intro w start
  rw [pathForId, wp_bind, wp_get]
  dsimp only
  split
  · exact ⟨start, none⟩
  case h_2 path leads =>
    have valid : path.Valid :=
      (start.1.writable.tidy leads).resolve_left (start.1.writable.named leads other)
    split
    · exact ⟨start, valid⟩
    refine (((does_hostIdentity (quiet_look (.inr valid))).during (outlasts_careful I)).bind fun _ => ?_)
      w start
    split
    · exact triple_pure fun _ kept => ⟨kept, none⟩
    · exact triple_pure fun _ kept => ⟨kept, valid⟩

/-- A request on a fork leaves the catalogue alone. -/
theorem Handles.careful {fails : Volume → Prop} {answer : Path → Told → Reply} {p : Action Reply}
    (handles : Handles id fails answer p) (other : id ≠ rootId) (I : Catalog → Prop) :
    Retains I p := by
  obtain ⟨f, rfl, does⟩ := handles.does
  refine (careful_pathForId other I).bind fun path w start => ?_
  have quiet : Does HostOp.Quiet (f path) := (does path start.2.ne_nil).mono fun of =>
    ⟨by cases of <;> rfl, of.confined start.2⟩
  exact quiet.during (outlasts_careful I) w start.1

/-- The data of a write changes nothing of the catalogue, whether commands are refused or not. -/
theorem careful_continued (trusted : s.Trusted) {number : Nat} {write : PendingWrite}
    (found : s.writes[number]? = some write) (data : Bytes) {s' : Server}
    (same : s'.world = s.world) (refused : s'.catalogError = s.catalogError) :
    (guarded s' (do return some (← onWorld (writeFork write data)))).1.Kept := by
  have ends := (handles_write write data).careful (trusted.fit.writes found) (· = s.world.cat)
    s'.world (by rw [same]; exact ⟨trusted.careful, rfl⟩)
  refine kept_guarded (wp_bind.mpr (wp_zoom.mpr (wp_mono ends ?_)))
  rintro _ w ⟨careful, cat⟩
  refine ⟨careful, fun none => ?_⟩
  rw [cat]
  exact trusted.idle (refused.symm.trans none)

theorem careful_start (named : s.world.vol.Named)
    (confined : ∀ moment ∈ s.world.trace, moment.op.Confined)
    (reads : ∀ moment ∈ s.world.trace, moment.ReadsBack) : (s.after .start).Kept := by
  have ends : { s with sessions := ∅, catalogError := none }.Settles (onWorld configure) :=
    wp_zoom.mpr (rests_configure s.world ⟨named, confined, reads⟩)
  rw [Server.after, step]
  rcases exec_cases ends with ⟨_, _, ended, rest⟩ | ⟨_, _, ended, careful⟩
  · rw [ended]
    exact ⟨rest.1, fun _ => rest.2⟩
  · rw [ended]
    exact .refused careful

theorem trusted_after {event : Event} (closing : Closing s event) (trusted : s.Trusted) :
    (s.after event).Trusted := by
  have fit : (s.after event).Fit False := fit_step trusted.fit
  suffices kept : (s.after event).Kept from ⟨fit, kept.1, kept.2⟩
  have same := trusted.kept
  cases event with
  | start =>
    exact careful_start trusted.careful.safe.named trusted.careful.safe.confined
      trusted.careful.reads
  | openSession src =>
    rw [Server.after, step]
    split <;> exact same
  | closeSession sid src =>
    rw [Server.after, step]
    split
    · exact same
    · split
      · exact same
      · exact same
  | tickle sid src =>
    refine careful_withSession trusted fun s' session _ world refused _ => ?_
    rwa [Server.Kept, world, refused]
  | command sid src body =>
    refine careful_withSession trusted fun s' session fit' world refused there => ?_
    split
    · rwa [Server.Kept, world, refused]
    case isFalse open_ =>
      have none : s.catalogError = none := by
        rw [← refused]
        simpa using open_
      refine careful_guarded (wp_bind.mpr (rests_dispatchAfp fit' ?_ there ?_))
      · rw [world]
        exact ⟨trusted.careful, trusted.idle none⟩
      · rw [world]
        exact closing.1
  | write sid src body =>
    refine careful_withSession trusted fun s' session fit' world refused there => ?_
    split
    · rwa [Server.Kept, world, refused]
    case isFalse open_ =>
      have none : s.catalogError = none := by
        rw [← refused]
        simpa using open_
      have handled : Steps (Serve True fun _ => False) (handleWrite session body) _ s' :=
        serve_handleWrite fit' there body
      refine careful_guarded (wp_mono (handled.keeps (fun _ _ step => AtRest.serve (by simp) step)
        ?_) (fun _ _ last => last.1) fun _ _ last => last.1)
      rw [world]
      exact ⟨trusted.careful, trusted.idle none⟩
  | continued number okFlag pkts =>
    rw [Server.after, step]
    split
    · exact same
    case h_2 write found =>
      dsimp only
      split
      · exact same
      split
      · exact same
      · exact careful_continued trusted found _ rfl rfl
  | tick now => exact same
  | host vol =>
    have safe := trusted.careful.safe
    exact ⟨⟨⟨safe.neat, closing.2 vol rfl, safe.confined⟩, trusted.careful.writable,
      trusted.careful.reads⟩, trusted.idle⟩

end Events

section Runs

variable {s : Server} {events : List Event}

theorem trusted_run (unused : s.Unused) (trace : s.world.trace = []) (named : s.world.vol.Named)
    (closing : Along Server.after Closing (s.after .start) events) :
    (run Server.after (s.after .start) events).Trusted := by
  have started := careful_start named (by simp [trace]) (by simp [trace])
  have start : (s.after .start).Trusted := ⟨fit_start unused, started.1, started.2⟩
  exact closing.invariant (fun _ _ => trusted_after) start

/-- As long as nothing is moved to a path that ends in a slash, and no folder is deleted that has
something other than metadata of the server in its metadata folder, every path that the host is
handed or that it removes is the shared folder, a path of plain names below it, their metadata or
the catalogue. -/
theorem paths_confined (unused : s.Unused) (trace : s.world.trace = []) (named : s.world.vol.Named)
    (closing : Along Server.after Closing (s.after .start) events)
    (clearing : Along Server.after Clearing (s.after .start) events) :
    ∀ moment ∈ (run Server.after (s.after .start) events).world.trace, ∀ spot ∈ moment.op.paths,
      Confined spot := by
  intro moment listed spot inside
  rcases List.mem_append.mp inside with asked | purged
  · exact (trusted_run unused trace named closing).careful.safe.confined moment listed spot asked
  · obtain ⟨entry, removed, rfl⟩ := List.mem_map.mp purged
    exact (clean_run unused (by simp [Clean, trace]) clearing).2 moment listed entry removed

/-- As long as nothing is moved to a path that ends in a slash, every catalogue saved while the
two maps are inverse to each other is read back as it was. -/
theorem saved_catalogue_read_back (unused : s.Unused) (trace : s.world.trace = [])
    (named : s.world.vol.Named)
    (closing : Along Server.after Closing (s.after .start) events) :
    ∀ moment ∈ (run Server.after (s.after .start) events).world.trace, ∀ bytes,
      moment.op = .commit bytes → moment.cat.Back → parseCatalog bytes = .ok moment.cat :=
  (trusted_run unused trace named closing).careful.reads

end Runs

/-- A folder is deleted, and the metadata of a file that was in it. -/
theorem paths_confined_delete :
    (.purge [Sample.a, appleDouble] [Sample.a, appleDouble, Sample.b] : HostOp) ∈
      (run Server.after (Sample.stocked.after .start) Sample.deletion).world.trace.map Moment.op ∧
      Confined (.under [Sample.a, appleDouble, Sample.b]) := by
  have performed : (.purge [Sample.a, appleDouble] [Sample.a, appleDouble, Sample.b] : HostOp) ∈
      (run Server.after (Sample.stocked.after .start) Sample.deletion).world.trace.map
        Moment.op := by
    decide +kernel
  refine ⟨performed, ?_⟩
  obtain ⟨moment, inside, op⟩ := List.mem_map.mp performed
  refine paths_confined ⟨rfl, rfl⟩ rfl Sample.named_stocked Sample.closing_deletion
    Sample.clearing_deletion moment inside _ ?_
  rw [op]
  decide

/-- A folder is renamed to a path with an empty name behind its last slash. -/
theorem renamed_behind_slash :
    (.rename [Sample.a] [Sample.b, []] : HostOp) ∈ (run Server.after (Sample.server.after .start)
      Sample.moveToRoot).world.trace.map Moment.op ∧
      ¬ ∀ spot ∈ (.rename [Sample.a] [Sample.b, []] : HostOp).paths, Confined spot := by
  refine ⟨by decide +kernel, fun inside => ?_⟩
  have names := (inside (.under [Sample.b, []]) (by decide)).hostNames
  exact (names [] (by decide)).1 rfl

theorem HostOp.eq_commit (commits : op.commits = true) : ∃ bytes, op = .commit bytes := by
  cases op with
  | commit bytes => exact ⟨bytes, rfl⟩
  | _ => cases commits

/-- A catalogue saved when a folder is about to be deleted. -/
theorem saved_catalogue_read_back_delete :
    ∃ moment ∈ (run Server.after (Sample.stocked.after .start) Sample.deletion).world.trace,
      ∃ bytes, moment.op = .commit bytes ∧ (moment.cat.pathToId[Sample.a]? = some 16 ∧
        moment.cat.pendingDelete = true) ∧ parseCatalog bytes = .ok moment.cat := by
  have saved : ((run Server.after (Sample.stocked.after .start) Sample.deletion).world.trace.any
      fun moment => moment.op.commits && decide (moment.cat.pathToId[Sample.a]? = some 16 ∧
          moment.cat.pendingDelete = true) && moment.cat.idToPath.toList.all fun entry =>
            decide (moment.cat.pathToId[entry.2]? = some entry.1)) = true := by
    decide +kernel
  obtain ⟨moment, inside, fine⟩ := List.any_eq_true.mp saved
  simp only [Bool.and_eq_true, decide_eq_true_eq] at fine
  obtain ⟨⟨commits, listed⟩, entries⟩ := fine
  obtain ⟨bytes, op⟩ := HostOp.eq_commit commits
  have back : moment.cat.Back := fun {id p} leads => of_decide_eq_true <|
    List.all_eq_true.mp entries (id, p) (ExtTreeMap.mem_toList_iff_getElem?_eq_some.mpr leads)
  exact ⟨moment, inside, bytes, op, listed, saved_catalogue_read_back ⟨rfl, rfl⟩ rfl
    Sample.named_stocked Sample.closing_deletion moment inside bytes op back⟩

/-- The catalogue that is saved has a journal that is not taken. -/
def HostOp.spoils : HostOp → Bool
  | .commit bytes =>
    match parseCatalog bytes with
    | .ok _ => false
    | .error error => error = .badJournal
  | _ => false

theorem HostOp.eq_of_spoils (spoils : op.spoils = true) :
    ∃ bytes, op = .commit bytes ∧ parseCatalog bytes = .error .badJournal := by
  cases op with
  | commit bytes =>
    refine ⟨bytes, rfl, ?_⟩
    rw [HostOp.spoils] at spoils
    cases parsed : parseCatalog bytes with
    | ok c => simp [parsed] at spoils
    | error error =>
      rw [parsed] at spoils
      rw [of_decide_eq_true spoils]
  | _ => cases spoils

/-- A catalogue is saved whose pending move the reader does not take. -/
theorem saved_catalogue_refused :
    ∃ moment ∈ (run Server.after (Sample.server.after .start) Sample.moveToRoot).world.trace,
      ∃ bytes, moment.op = .commit bytes ∧ parseCatalog bytes = .error .badJournal := by
  have refused : ((run Server.after (Sample.server.after .start) Sample.moveToRoot).world.trace.any
      fun moment => moment.op.spoils) = true := by
    decide +kernel
  obtain ⟨moment, inside, spoils⟩ := List.any_eq_true.mp refused
  exact ⟨moment, inside, HostOp.eq_of_spoils spoils⟩

end Pom68k.Afp
