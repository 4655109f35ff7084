import Pom68k.Afp.Commands
import Pom68k.Afp.Confinement

/-! # Ordinary work

Apart from moves and deletions, all that a command does to the host are single operations inside
the shared folder, and all it does to the catalogue is done to find the number of a path. What
these steps keep is kept by every command made of them.
-/

namespace Pom68k.Afp

open Foundation Program

/-- Operations that neither rename nor remove, and leave the catalogue file alone. -/
def HostOp.ordinary : HostOp → Bool
  | .rename _ _ | .remove _ | .purge _ _ | .lock | .readCatalog | .commit _ => false
  | _ => true

/-- The steps of ordinary work. Whether they stay in the folder is only asked under a
condition, as it does not matter for all that can be said of them. -/
inductive Work (T : Prop) : World → World → Prop where
  | did {w : World} {op : HostOp} (ordinary : op.ordinary = true) (inside : T → op.Confined) :
      Work T w (w.did op)
  | tend {w w' : World} {rel : Path} (tidy : T → rel.Tidy) (step : Tend rel w w') : Work T w w'

structure Sane (T : Prop) (w : World) : Prop where
  sound : w.cat.Sound
  safe : T → Safe w

variable {T : Prop}

theorem Sane.work {w w' : World} (step : Work T w w') (sane : Sane T w) : Sane T w' := by
  cases step with
  | did _ inside => exact ⟨sane.sound, fun t => (sane.safe t).did (inside t)⟩
  | tend tidy step => exact ⟨sane.sound.tend step, fun t => (sane.safe t).tend (tidy t) step⟩

/-- From a sane state the operation only works, and its results meet a condition. -/
def Working {α : Type} (T : Prop) (Q : α → Prop) (p : Action α) : Prop :=
  ∀ w, Sane T w → Steps (Work T) p (fun a _ => Q a) w

abbrev Works {α : Type} (T : Prop) (p : Action α) : Prop := Working T (fun _ => True) p

section Rules

variable {α β : Type} {p : Action α} {f : α → Action β} {Q : α → Prop} {Q' : β → Prop} {op : HostOp}
  {rel source destination : Path}

theorem Working.remains (working : Working T Q p) {w : World} (sane : Sane T w) :
    wp p (fun a w => Sane T w ∧ Q a) (fun _ w => Sane T w) w :=
  (working w sane).keeps (fun _ _ => Sane.work) sane

theorem Working.bind (first : Working T Q p) (rest : ∀ a, Q a → Working T Q' (f a)) :
    Working T Q' (p >>= f) := by
  intro w sane
  have both := wp_and (first w sane) (first.remains sane)
  have steps : Steps (Work T) p (fun a w => Sane T w ∧ Q a) w :=
    wp_mono both (fun _ _ last => ⟨last.1.1, last.2⟩) fun _ _ last => last.1
  exact steps.bind fun a w' result => rest a result.2 w' result.1

theorem working_pure {a : α} (result : Q a) : Working T Q (pure a : Action α) := fun _ _ =>
  steps_pure result

theorem works_pure {a : α} : Works T (pure a : Action α) := working_pure trivial

theorem Working.weaken (working : Working T Q p) {Q' : α → Prop} (weaker : ∀ a, Q a → Q' a) :
    Working T Q' p := fun w safe => (working w safe).mono fun a _ => weaker a

theorem working_get : Working T (Sane T) (get : Action World) := fun _ safe => steps_get safe

theorem working_perform (ordinary : op.ordinary = true) (inside : T → op.Confined) :
    Works T (perform op) := fun _ _ =>
  steps_perform (.did ordinary inside) trivial

/-- An operation that touches one place. -/
theorem working_single {spot : Spot} (ordinary : op.ordinary = true) (only : op.asked = [spot])
    (inside : T → Confined spot) : Works T (perform op) :=
  working_perform ordinary fun t => confined_single only (inside t)

theorem plainly (tidy : T → rel.Tidy) (t : T) : Confined (.under rel.names) :=
  .plain (tidy t).plainNames

theorem Identified.ne_root {identity : Bytes} {c c' : Catalog} {id : Nat} (sound : c.Sound)
    (named : rel ≠ []) (found : Identified rel identity c id c') : id ≠ rootId := by
  have renumbered : ∀ {c : Catalog}, c.Sound → Renumbered rel identity c id c' → id ≠ rootId := by
    intro c sound numbered
    cases numbered with
    | moved _ bound => exact (sound.bound bound).1
    | issued =>
      rintro same
      exact absurd sound.next (by rw [same]; decide)
  cases found with
  | known there => exact sound.ne_root named there
  | absent _ numbered => exact renumbered sound numbered
  | replaced _ numbered => exact renumbered (sound.dropId named) numbered

theorem working_idForPath (tidy : T → rel.Tidy) :
    Working T (fun id => rel ≠ [] → id ≠ rootId) (idForPath rel) := by
  intro w safe
  refine (steps_idForPath.widen fun _ _ => .tend tidy).mono ?_
  rintro id w' ⟨_, ⟨rfl, _⟩ | ⟨named, _, found⟩⟩
  · exact absurd rfl
  · exact fun _ => found.ne_root safe.sound named

variable {names : List Name} {ok : HostOp → Prop}

theorem working_look (inside : T → Confined (.under names)) :
    Works T (perform (.look names)) := working_single rfl rfl inside

/-- Ordinary operations are ordinary work. -/
theorem Does.working (does : Does (fun op => op.ordinary = true ∧ (T → op.Confined)) p) :
    Works T p := fun w _ =>
  (does w).widen fun _ _ step => by
    cases step with
    | did fine => exact .did fine.1 fine.2

theorem working_pathForId (id : Nat) :
    Working T (fun path : Path => (T → path.Tidy) ∧ (id ≠ rootId → path ≠ []))
      (pathForId id) := by
  have none : (T → noPath.Tidy) ∧ (id ≠ rootId → noPath ≠ []) :=
    ⟨fun _ => .inr (Path.valid_of_part (by decide) (by decide)), fun _ => by decide⟩
  refine working_get.bind fun w sane => ?_
  dsimp only
  split
  · exact working_pure none
  case h_2 path leads =>
    have tidy : T → path.Tidy := fun t => (sane.safe t).neat.tidy leads
    have some := sane.sound.named leads
    split
    · exact working_pure ⟨tidy, some⟩
    refine (((does_hostIdentity ⟨rfl, fun t => confined_look (tidy t)⟩).working)).bind fun
    actual _ => ?_
    split
    · exact working_pure none
    · exact working_pure ⟨tidy, some⟩

/-- What is found, if anything is, meets a condition. -/
abbrev Gives (T : Prop) (P : α → β → Prop) (result : Except Int (α × β)) : Prop :=
  ∀ a b, result = .ok (a, b) → T → P a b

theorem working_failed {P : α → β → Prop} (e : Int) :
    Working T (Gives T P) (pure (.error e) : Action (Except Int (α × β))) :=
  working_pure (by rintro _ _ ⟨⟩)

theorem working_resolvePath (dirId : Nat) (bytes : Bytes) :
    Working T (Gives T fun rel _ => rel.Tidy) (resolvePath dirId bytes) := by
  rcases bytes with _ | ⟨type, _ | ⟨len, rest⟩⟩
  · exact working_failed _
  · exact working_failed _
  · rw [resolvePath]
    split
    · exact working_failed _
    refine (working_pathForId dirId).bind fun rel tidy => ?_
    split
    · exact working_failed _
    split
    · exact working_failed _
    case h_2 path walked =>
      refine working_pure ?_
      rintro _ _ ⟨⟩ t
      exact tidy_walkElements (tidy.1 t) (by simp) walked

theorem working_withPath {dirId : Nat} {bytes : Bytes} {next : Path → Nat → Action Reply}
    (rest : ∀ rel used, (T → rel.Tidy) → Works T (next rel used)) :
    Works T (withPath dirId bytes next) := by
  refine (working_resolvePath dirId bytes).bind fun result tidy => ?_
  split
  · exact works_pure
  case h_2 rel used => exact rest rel used (tidy rel used rfl)

/-! ### Looking -/

/-- The operations that concern the object at a path, its metadata and their folders. -/
inductive HostOp.Of (path : Path) : HostOp → Prop where
  | look : Of path (.look path.names)
  | read : Of path (.read (.under path.names))
  | metadata : Of path (.read (.under (sidecar path.names)))
  | resize (size : Nat) : Of path (.resize path.names size)
  | write (position : Nat) (data : Bytes) : Of path (.write path.names position data)
  | folder : Of path (.makeDirs (sidecar path.names).dropLast)
  | sync : Of path (.sync path.names.dropLast)
  | replace (data : Bytes) : Of path (.replace (sidecar path.names) data)

theorem working_existsAt (inside : T → Confined (.under names)) : Works T (existsAt names) := by
  refine (working_look inside).bind fun outcome _ => ?_
  cases outcome <;> exact works_pure

theorem does_adRead {spot : Spot} (read : ok (.read spot)) : Does ok (adRead spot) := by
  refine does_get.bind fun w => (does_perform read).bind fun outcome => ?_
  cases outcome <;> exact does_pure _

theorem does_adWrite (make : ok (.makeDirs (sidecar names).dropLast))
    (sync : ok (.sync names.dropLast)) {m : AdMeta}
    (replace : ok (.replace (sidecar names) (adBytes m))) : Does ok (adWrite names m) := by
  have made : Does ok (adFolder names) := by
    refine does_get.bind fun w => (does_perform make).bind fun outcome => ?_
    cases outcome with
    | refused | absent => exact does_pure _
    | done =>
      dsimp only
      split
      · refine (does_perform sync).bind fun synced => ?_
        cases synced <;> exact does_pure _
      · exact does_pure _
  refine made.bind fun fine => ?_
  split
  · refine (does_perform replace).bind fun outcome => ?_
    cases outcome <;> exact does_pure _
  · exact does_pure _

theorem HostOp.Of.confined (of : op.Of rel) (valid : rel.Valid) : op.Confined := by
  have tidy : rel.Tidy := .inr valid
  cases of with
  | look | read | resize | write => exact confined_single rfl (.plain tidy.plainNames)
  | metadata => exact confined_single rfl (confined_sidecar valid)
  | folder => exact confined_single rfl (confined_metadataFolder tidy)
  | sync => exact confined_single rfl (confined_parent tidy)
  | replace data =>
    intro spot listed
    have plain := tidy.plainNames.dropLast
    simp only [HostOp.asked, List.mem_cons, List.not_mem_nil, or_false, sidecar_dropLast,
      List.append_assoc] at listed
    rcases listed with rfl | rfl | rfl
    · exact confined_sidecar valid
    · exact .staging plain
    · exact .metadataFolder plain

/-- What is done to one object is ordinary work. -/
theorem working_of (does : Does (HostOp.Of rel) p) (valid : T → rel.Valid) : Works T p :=
  (does.mono fun of => ⟨by cases of <;> rfl, fun t => of.confined (valid t)⟩).working

/-- What is told of an object is told under its path, and the shared folder is a folder. -/
theorem working_statNode (tidy : T → rel.Tidy) :
    Working T (fun info => ∀ ni, info = some ni → ni.rel = rel ∧ (rel = [] → ni.isDir = true))
      (statNode rel) := by
  refine working_get.bind fun w _ => ?_
  refine (working_look (plainly tidy)).bind fun outcome _ => ?_
  split
  case h_1 node found =>
    refine (((does_adRead ⟨rfl, fun t => confined_single rfl ((fun t => confined_spotOf (tidy t))
      t)⟩).working)).bind fun ad _ => working_pure ?_
    rintro _ ⟨⟩
    refine ⟨rfl, fun root => ?_⟩
    subst root
    cases found
    rfl
  case h_2 => exact working_pure (by rintro _ ⟨⟩)

theorem working_dirOffspring (tidy : T → rel.Tidy) : Works T (dirOffspring rel.names) := by
  refine working_get.bind fun w _ => ?_
  refine (working_single rfl rfl (plainly tidy)).bind fun outcome _ => ?_
  cases outcome <;> exact works_pure

theorem working_packParams {ni : NodeInfo} (tidy : T → ni.rel.Tidy) (nodeId parentId bitmap : Nat)
    (asDir : Bool) : Works T (packParams ni nodeId parentId bitmap asDir) := by
  rw [packParams]
  split
  · exact (working_dirOffspring tidy).bind fun _ _ => works_pure
  · exact works_pure

/-! ### Commands -/

theorem working_parentNumber (tidy : T → rel.Tidy) : Works T (parentNumber rel) := by
  rw [parentNumber]
  split
  · exact works_pure
  · exact (working_idForPath fun t => (tidy t).parent).weaken fun _ _ => trivial

theorem shown_rel (ni : NodeInfo) (volName : Bytes) (rel : Path) :
    (ni.shown volName rel).rel = ni.rel := by
  rw [NodeInfo.shown]
  split <;> rfl

theorem working_fpGetFileDirParms (volName c : Bytes) : Works T (fpGetFileDirParms volName c) := by
  rw [fpGetFileDirParms]
  split
  · exact works_pure
  refine working_withPath fun rel _ tidy => ?_
  refine (working_statNode tidy).bind fun info told => ?_
  cases info with
  | none => exact works_pure
  | some ni =>
    have shown : T → (ni.shown volName rel).rel.Tidy := by rwa [shown_rel, (told ni rfl).1]
    refine (working_idForPath tidy).bind fun id _ => ?_
    refine (working_parentNumber tidy).bind fun parent _ => ?_
    exact (working_packParams shown _ _ _ _).bind fun _ _ => works_pure

theorem mem_visibleNames {name : Name} (shown : name ∈ visibleNames names) :
    name ∈ names ∧ name ≠ [] ∧ name.head? ≠ some dot := by
  have kept := (List.mem_insertionSort _).mp shown
  rw [List.mem_filter, decide_eq_true_iff] at kept
  exact ⟨kept.1, kept.2.1, kept.2.2.1⟩

theorem working_listNames (tidy : T → rel.Tidy) :
    Working T (fun names => T → ∀ name ∈ names, HostName name) (listNames rel.names) := by
  refine working_get.bind fun w sane => ?_
  refine (working_single rfl rfl (plainly tidy)).bind fun outcome _ => ?_
  have listed : T → ∀ name ∈ w.vol.listing rel.names, HostName name := by
    intro t name inside
    obtain ⟨item, there, found⟩ := List.mem_filterMap.mp inside
    split at found
    · exact (sane.safe t).named item there name (List.mem_of_getLast? found)
    · cases found
  cases outcome with
  | done => exact working_pure listed
  | refused | absent => exact working_pure (by simp)

theorem working_enumerateFrom (valid : ∀ name ∈ names, T → (rel.child name).Valid)
    (dirIdNum fbm dbm reqcnt cap act : Nat) (d : Bytes) :
    Works T (enumerateFrom rel dirIdNum fbm dbm reqcnt cap names act d) := by
  induction names generalizing act d with
  | nil => exact works_pure
  | cons name rest ih =>
    obtain ⟨first, later⟩ := List.forall_mem_cons.mp valid
    have tidy : T → (rel.child name).Tidy := fun t => .inr (first t)
    rw [enumerateFrom]
    generalize (if reqcnt ≠ 0 then reqcnt else 0xFFFF) = wanted
    split
    · refine (working_statNode tidy).bind fun info told => ?_
      cases info with
      | none => exact ih later _ _
      | some ni =>
        have shown : T → ni.rel.Tidy := by rwa [(told ni rfl).1]
        dsimp only
        generalize (if ni.isDir = true then dbm else fbm) = bitmap
        split
        · exact ih later _ _
        refine (working_idForPath tidy).bind fun id _ => ?_
        refine (working_packParams shown _ _ _ _).bind fun packed _ => ?_
        split
        · exact works_pure
        · exact ih later _ _
    · exact works_pure

variable (c : Bytes)

theorem working_fpEnumerate : Works T (fpEnumerate c) := by
  rw [fpEnumerate]
  split
  · exact works_pure
  refine working_withPath fun rel _ tidy => ?_
  split
  · exact works_pure
  refine working_get.bind fun w _ => ?_
  refine (working_look (plainly tidy)).bind fun outcome _ => ?_
  cases outcome with
  | refused | absent => exact works_pure
  | done =>
    dsimp only
    split
    · refine (working_idForPath tidy).bind fun id _ => ?_
      refine (working_listNames tidy).bind fun names host => ?_
      have valid : ∀ sindex, ∀ name ∈ (visibleNames names).drop sindex,
          T → (rel.child name).Valid := by
        intro sindex name inside t
        have shown := mem_visibleNames (List.mem_of_mem_drop inside)
        refine (tidy t).child (Path.valid_of_part (host t name shown.1).2.1 ?_)
        rw [validPart, decide_eq_true_iff]
        exact ⟨(host t name shown.1).1, shown.2.2, (host t name shown.1).2.2⟩
      exact (working_enumerateFrom (valid _) _ _ _ _ _ _ _).bind fun _ _ => works_pure
    · exact works_pure

/-- Both commands make an object and ask for its number. -/
theorem working_fpCreate : Works T (fpCreateDir c) ∧ Works T (fpCreateFile c) := by
  rw [fpCreateDir, fpCreateFile]
  constructor
  all_goals
    split
    · exact works_pure
    refine working_withPath fun rel _ tidy => ?_
    refine (working_existsAt (plainly tidy)).bind fun taken _ => ?_
    split
    · exact works_pure
    refine (working_single rfl rfl (plainly tidy)).bind fun outcome _ => ?_
    cases outcome with
    | done => exact (working_idForPath tidy).bind fun _ _ => works_pure
    | refused | absent => exact works_pure

theorem working_fpSetParms : Works T (fpSetParms c) := by
  rw [fpSetParms]
  split
  · exact works_pure
  refine working_withPath fun rel used tidy => ?_
  refine (working_statNode tidy).bind fun info told => ?_
  cases info with
  | none => exact works_pure
  | some ni =>
    dsimp only
    split
    case isTrue changes =>
      refine ((working_of (does_adWrite .folder .sync (.replace _)) (fun t => (tidy
        t).resolve_left changes.2))).bind fun written _ => ?_
      split <;> exact works_pure
    case isFalse => exact works_pure

/-- A name, perhaps none, below a folder. -/
def Path.Aimed (destination : Path) : Prop :=
  ∃ folder leaf : Path, folder.Tidy ∧ leaf.Tidy ∧ destination = folder.child leaf

theorem Path.Tidy.leaf (tidy : rel.Tidy) : rel.leaf.Tidy := by
  rcases tidy with rfl | valid
  · exact .inl rfl
  · exact .inr valid.leaf

/-- A path is resolved, and what follows works on it. -/
theorem working_resolved {P : α → β → Prop} {dirId : Nat} {bytes : Bytes}
    {next : Path → Nat → Action (Except Int (α × β))}
    (rest : ∀ rel used, (T → rel.Tidy) → Working T (Gives T P) (next rel used)) :
    Working T (Gives T P) (do
      match ← resolvePath dirId bytes with
      | .error e => return .error e
      | .ok (rel, used) => next rel used) := by
  refine (working_resolvePath dirId bytes).bind fun result tidy => ?_
  split
  · exact working_failed _
  case h_2 rel used => exact rest rel used (tidy rel used rfl)

/-- What a rename goes from and to: a new name in the same folder. -/
theorem working_renamePaths :
    Working T (Gives T fun src dst => src.Tidy ∧ dst.Aimed) (renamePaths c) := by
  refine working_resolved fun rel _ tidy => working_resolved fun newRel _ tidy' => working_pure ?_
  rintro _ _ ⟨⟩ t
  exact ⟨tidy t, rel.parent, newRel.leaf, (tidy t).parent, (tidy' t).leaf, rfl⟩

/-- What a move goes from and to: another folder, and the old name if no new one is given. -/
theorem working_movePaths :
    Working T (Gives T fun src dst => src.Tidy ∧ dst.Aimed) (movePaths c) := by
  refine working_resolved fun src _ tidy => working_resolved fun dstDir _ tidy' => ?_
  dsimp only
  split
  · refine working_resolved fun nn _ tidy'' => working_pure ?_
    rintro _ _ ⟨⟩ t
    exact ⟨tidy t, dstDir, nn.leaf, tidy' t, (tidy'' t).leaf, rfl⟩
  · refine working_pure ?_
    rintro _ _ ⟨⟩ t
    exact ⟨tidy t, dstDir, src.leaf, tidy' t, (tidy t).leaf, rfl⟩

end Rules

end Pom68k.Afp
