import Pom68k.Afp.Server
import Pom68k.Afp.Work

/-! # What a server does

Every event is answered in steps of a few kinds: ordinary work, a move or a deletion, and
changes of the sessions, of the open forks and of the writes that wait for data.
-/

namespace Pom68k.Afp

open Foundation Program Std

/-! ## Commands on forks -/

/-- What a request learns of an object from the host. -/
structure Told where
  node : Option Node
  ad : Option AdMeta
  mtime : Int

/-- The host shows the metadata of the object at the path, or keeps it to itself. -/
def Volume.TellsAd (v : Volume) (path : Path) (ad : Option AdMeta) : Prop :=
  ad = none ∨ ad = (v.metadata (.under (sidecar path.names))).bind adParse

/-- The same of the object and its metadata. -/
def Volume.Tells (v : Volume) (path : Path) (told : Told) : Prop :=
  (told.node = none ∨ told.node = v.look path.names) ∧ v.TellsAd path told.ad

/-- The request fails and returns no data, or is answered from what is told of the object. -/
def Volume.Answers (v : Volume) (path : Path) (answer : Told → Reply) (reply : Reply) : Prop :=
  (reply.result ≠ 0 ∧ reply.data = []) ∨ ∃ told, v.Tells path told ∧ reply = answer told

/-- A request that goes to the object its number leads to and is answered from it, and that fails
without a change of the folder for the path that stands for none, if the folder is such a one. -/
def Handles (id : Nat) (fails : Volume → Prop) (answer : Path → Told → Reply)
    (p : Action Reply) : Prop :=
  ∃ f : Path → Action Reply, p = pathForId id >>= f ∧
    (∀ path : Path, path ≠ [] → ∀ w,
      Steps (Did (HostOp.Of path)) (f path) (fun reply _ => w.vol.Answers path (answer path) reply) w) ∧
    ∀ w, fails w.vol →
      wp (f noPath) (fun reply w' => (reply.result ≠ 0 ∧ reply.data = []) ∧ w'.vol = w.vol)
        (fun _ w' => w'.vol = w.vol) w

variable {answer : Path → Told → Reply} {fails : Volume → Prop} {w : World} {id : Nat}

theorem Handles.does {p : Action Reply} (handles : Handles id fails answer p) :
    ∃ f : Path → Action Reply,
      p = pathForId id >>= f ∧ ∀ path : Path, path ≠ [] → Does (HostOp.Of path) (f path) := by
  obtain ⟨f, whole, steps, -⟩ := handles
  exact ⟨f, whole, fun path named w => (steps path named w).mono fun _ _ _ => trivial⟩

theorem Handles.working {T : Prop} {p : Action Reply} (handles : Handles id fails answer p)
    (other : id ≠ rootId) : Works T p := by
  obtain ⟨f, rfl, does⟩ := handles.does
  refine (working_pathForId id).bind fun path found => ?_
  exact working_of (does path (found.2 other)) fun t => (found.1 t).resolve_left (found.2 other)

/-- No object and no metadata goes by the path that stands for none. -/
def Volume.Nameless (v : Volume) : Prop :=
  v.look noPath.names = none ∧ v.look (sidecar noPath.names) = none

@[simp] theorem World.did_read_vol (w : World) (spot : Spot) : (w.did (.read spot)).vol = w.vol := by
  cases spot <;> simp only [World.did, World.volAfter, Volume.apply, ite_self]

section Answers

def getParmsAnswer (fork : Fork) (bm : Nat) (path : Path) (told : Told) : Reply :=
  match told.node with
  | none => err kErrNoObj
  | some node =>
    ok (put16 bm ++ packBytes (nodeInfo path told.mtime told.ad node) fork.id rootId 0 bm false)

def readAnswer (fork : Fork) (offR req : Nat) (nlMask nlChar : Octet) (told : Told) : Reply :=
  let reply (data : Bytes) := readReply (min req (8 * 578)) nlMask nlChar
    ((data.drop offR).take (min req (8 * 578)))
  if fork.resource then reply (told.ad.getD {}).rsrc
  else
    match told.node with
    | none => err kErrNoObj
    | some node => reply (node.data.getD [])

def writeAnswer (w : PendingWrite) (data : Bytes) (told : Told) : Reply :=
  let position :=
    if w.resource then writePosition kMaxRsrcFork (told.ad.getD {}).rsrc.length w data
    else writePosition kMaxDataFork ((told.node.bind (·.data)).getD []).length w data
  match position with
  | none => err kErrParam
  | some position => wroteTo position data

variable {v : Volume} {path : Path} {answer : Told → Reply} {reply : Reply}

theorem steps_err {r : World → World → Prop} {code : Int} (fails : code ≠ 0) :
    Steps r (pure (err code) : Action Reply) (fun reply _ => v.Answers path answer reply) w :=
  steps_pure (.inl ⟨fails, rfl⟩)

theorem answers_node {node : Node} (found : v.look path.names = some node)
    (same : reply = answer ⟨some node, none, 0⟩) : v.Answers path answer reply :=
  .inr ⟨_, ⟨.inr found.symm, .inl rfl⟩, same⟩

theorem answers_ad {ad : Option AdMeta} (tells : v.TellsAd path ad)
    (same : reply = answer ⟨none, ad, 0⟩) : v.Answers path answer reply :=
  .inr ⟨_, ⟨.inl rfl, tells⟩, same⟩

theorem steps_adRead (w : World) :
    Steps (Did (HostOp.Of path)) (adRead (.under (sidecar path.names)))
      (fun ad _ => w.vol.TellsAd path ad) w := by
  refine steps_get_bind (steps_perform_bind (.did .metadata) ?_)
  split
  · exact steps_pure (.inr rfl)
  · exact steps_pure (.inl rfl)

end Answers

section Forks

variable (fork : Fork)

theorem handles_getParms (bm : Nat) :
    Handles fork.id Volume.Nameless (getParmsAnswer fork bm) (fpGetForkParms fork bm) := by
  refine ⟨_, rfl, fun path named w => ?_, fun w nameless => ?_⟩
  · have told : Steps (Did (HostOp.Of path)) (statNode path) (fun info _ =>
        ∀ ni, info = some ni → ∃ node ad, w.vol.look path.names = some node ∧
          w.vol.TellsAd path ad ∧ ni = nodeInfo path w.answer.mtime ad node) w := by
      refine steps_get_bind (steps_perform_bind (.did .look) ?_)
      split
      case h_1 node _ found =>
        rw [spotOf, if_neg named]
        refine (steps_adRead _).bind fun ad _ tells => steps_pure ?_
        rintro _ ⟨⟩
        rw [World.did_look_vol] at tells
        exact ⟨node, ad, found, tells, rfl⟩
      case h_2 => exact steps_pure (by rintro _ ⟨⟩)
    refine told.bind fun info w' known => ?_
    cases info with
    | none => exact steps_err (by decide)
    | some ni =>
      obtain ⟨node, ad, found, tells, rfl⟩ := known ni rfl
      exact steps_pure (.inr ⟨⟨some node, ad, w.answer.mtime⟩, ⟨.inr found.symm, tells⟩, rfl⟩)
  · simp only [statNode, wp_bind, wp_get, wp_perform]
    split
    case h_1 done found =>
      rw [nameless.1] at found
      cases found
    case h_2 => exact ⟨⟨by decide, rfl⟩, World.did_look_vol _⟩

variable {fork}

theorem fpSetForkParms_shut (shut : fork.writable = false) (bm len : Nat) :
    fpSetForkParms fork bm len = pure (err kErrAccess) := by
  rw [fpSetForkParms, shut]
  rfl

theorem handles_setParms (writable : fork.writable = true) (bm len : Nat) :
    Handles fork.id (fun _ => True) (fun _ _ => ok) (fpSetForkParms fork bm len) := by
  rw [fpSetForkParms, writable]
  refine ⟨_, rfl, fun path named w => ?_, fun w _ => ⟨⟨by decide, rfl⟩, rfl⟩⟩
  have done : w.vol.Answers path (fun _ => ok) ok := answers_ad (.inl rfl) rfl
  split
  · exact steps_err (by decide)
  split
  · split
    · exact steps_err (by decide)
    · refine (does_perform (.resize _) w).bind fun outcome _ _ => ?_
      split
      · exact steps_pure done
      · exact steps_err (by decide)
  split
  · split
    · exact steps_err (by decide)
    · refine (steps_adRead w).bind fun m w' _ => ?_
      refine (does_adWrite .folder .sync (.replace _) w').bind fun written _ _ => ?_
      split
      · exact steps_pure done
      · exact steps_err (by decide)
  · exact steps_pure done

theorem handles_write (w : PendingWrite) (data : Bytes) :
    Handles w.id (fun _ => True) (fun _ => writeAnswer w data) (writeFork w data) := by
  refine ⟨_, rfl, fun path named world => ?_, fun w _ => ⟨⟨by decide, rfl⟩, rfl⟩⟩
  split
  · exact steps_err (by decide)
  split
  case isTrue resource =>
    refine (steps_adRead world).bind fun ad w' tells => ?_
    dsimp only
    split
    · exact steps_err (by decide)
    case h_2 position placed =>
      refine (does_adWrite .folder .sync (.replace _) w').bind fun written _ _ => ?_
      split
      · exact steps_pure (answers_ad tells (by simp only [writeAnswer, resource, ↓reduceIte, placed]))
      · exact steps_err (by decide)
  case isFalse data_fork =>
    refine steps_get_bind ((does_perform .read world).bind fun outcome w' _ => ?_)
    split
    case h_1 old found =>
      split
      · exact steps_err (by decide)
      case h_2 position placed =>
        obtain ⟨node, there, held⟩ := Option.bind_eq_some_iff.mp found
        refine (does_perform (.write _ _) w').bind fun written _ _ => ?_
        split
        · exact steps_pure (answers_node there (by simp [writeAnswer, data_fork, held, placed]))
        · exact steps_err (by decide)
    case h_2 => exact steps_err (by decide)

theorem readReply_nil {want : Nat} {d : Bytes} (some : 0 < want) (empty : d = [])
    (nlMask nlChar : Octet) :
    (readReply want nlMask nlChar d).result ≠ 0 ∧ (readReply want nlMask nlChar d).data = [] := by
  subst empty
  have whole : untilNewline nlMask nlChar [] (decide (([] : Bytes).length < want)) = ([], true) := by
    rw [untilNewline]
    split <;> simp [some]
  rw [readReply, whole]
  exact ⟨by decide, rfl⟩

theorem handles_read (offR : Nat) {req : Nat} (nlMask nlChar : Octet) :
    Handles fork.id (fun v => v.Nameless ∧ 0 < req)
      (fun _ => readAnswer fork offR req nlMask nlChar) (fpRead fork offR req nlMask nlChar) := by
  refine ⟨_, rfl, fun path named w => ?_, fun w nameless => ?_⟩
  · split
    case isTrue resource =>
      refine (steps_adRead w).bind fun ad _ tells => steps_pure (answers_ad tells ?_)
      simp only [readAnswer, resource, ↓reduceIte]
    case isFalse data_fork =>
      refine steps_get_bind ((does_perform .read w).bind fun outcome _ _ => ?_)
      split
      · exact steps_err (by decide)
      · exact steps_err (by decide)
      case h_3 node _ found =>
        exact steps_pure (answers_node found (by simp [readAnswer, data_fork]))
  · obtain ⟨nameless, some⟩ := nameless
    have wants : 0 < min req (8 * 578) := by omega
    split
    · have none : w.vol.metadata (.under (sidecar noPath.names)) = none := by
        rw [Volume.metadata, nameless.2]
        rfl
      have empty : (({} : AdMeta).rsrc.drop offR).take (min req (8 * 578)) = [] := by
        rw [List.drop_nil, List.take_nil]
      have reply := readReply_nil wants empty nlMask nlChar
      rw [wp_bind, adRead, wp_bind, wp_get, wp_bind, wp_perform, none]
      cases w.outcome (.read (.under (sidecar noPath.names))) with
      | done | refused | absent => exact ⟨reply, World.did_read_vol _ _⟩
    · rw [wp_bind, wp_get, wp_bind, wp_perform, nameless.1]
      cases w.outcome (.read (.under noPath.names)) with
      | done | refused | absent => exact ⟨⟨by decide, rfl⟩, World.did_read_vol _ _⟩

end Forks

/-! ## Commands that move or delete -/

/-- What an event brings about beyond ordinary work. -/
inductive Deed where
  | move (source destination : Path)
  /-- A deletion, with the folder as it is when it begins. -/
  | delete (source : Path) (vol : Volume)
  | start
  | host (vol : Volume)
  deriving DecidableEq, Repr

/-- Ordinary work, and the moves and deletions that are asked for. -/
inductive Effort (T : Prop) (asks : Deed → Prop) : World → World → Prop where
  | work {w w' : World} (step : Work T w w') : Effort T asks w w'
  | move {w : World} {source destination : Path} (tidy : T → source.Tidy ∧ destination.Aimed)
      (asked : asks (.move source destination)) :
      Effort T asks w ((moveHostPath source destination).exec w).2
  | delete {w : World} {source : Path} (tidy : T → source.Tidy)
      (asked : asks (.delete source w.vol)) :
      Effort T asks w ((deleteHostPath source).exec w).2

/-- The move or deletion that a command asks for. -/
def Asks (body : Bytes) (w : World) : Deed → Prop
  | .move source destination =>
    ∃ w', body.head? = some 28 ∧
        (renamePaths body).exec w = (.ok (.ok (source, destination)), w') ∨
      body.head? = some 23 ∧ (movePaths body).exec w = (.ok (.ok (source, destination)), w')
  | .delete source vol =>
    ∃ used w', body.head? = some 8 ∧
      (resolvePath (rd32 body 4) (body.drop 8)).exec w = (.ok (.ok (source, used)), w') ∧
      w'.vol = vol
  | _ => False

section Efforts

variable {T : Prop} {α : Type} {asks : Deed → Prop} {p : Action α} {w : World} {body : Bytes}

theorem Working.effort {Q : α → Prop} (working : Working T Q p) (sane : Sane T w) :
    Steps (Effort T asks) p (fun a w => Sane T w ∧ Q a) w :=
  wp_mono (wp_and (working w sane) (working.remains sane))
    (fun _ _ last => ⟨last.1.1.lift id fun _ _ => .work, last.2⟩)
    fun _ _ last => last.1.lift id fun _ _ => .work

/-- A command that moves something to where its paths say. -/
theorem effort_moving {paths : Action (Except Int (Path × Path))} {least : Nat}
    (working : Working T (Gives T fun src dst => src.Tidy ∧ dst.Aimed) paths) (sane : Sane T w)
    (asked : ∀ src dst w', paths.exec w = (.ok (.ok (src, dst)), w') → asks (.move src dst)) :
    Walks (Effort T asks)
      (do if body.length < least then return err kErrParam else moveReply (← paths)) w := by
  split
  · exact walks_pure
  refine (working.effort sane).ended.bind fun found w' result => ?_
  rcases found with e | ⟨src, dst⟩
  · exact walks_pure
  · have moved : Walks (Effort T asks) (moveHostPath src dst) w' :=
      steps_whole (.move (result.1.2 src dst rfl) (asked src dst w' result.2))
    exact moved.bind fun _ _ _ => walks_pure

theorem effort_fpDelete (sane : Sane T w) (code : body.head? = some 8) :
    Walks (Effort T (Asks body w)) (fpDelete body) w := by
  rw [fpDelete]
  split
  · exact walks_pure
  refine (((working_resolvePath _ _).effort sane).ended).bind fun result w' found => ?_
  split
  · exact walks_pure
  case h_2 rel used =>
    have deleted : Walks (Effort T (Asks body w)) (deleteHostPath rel) w' :=
      steps_whole (.delete (found.1.2 rel used rfl) ⟨used, w', code, found.2, rfl⟩)
    exact deleted.bind fun _ _ _ => walks_pure

end Efforts

/-! ## Steps of the server -/

namespace Server

/-- The fork is open in one of the sessions. -/
def HasFork (s : Server) (fork : Fork) : Prop :=
  ∃ (sid : BitVec 8) (session : Session) (ref : BitVec 16),
    s.sessions[sid]? = some session ∧ session.forks[ref]? = some fork

/-- A session that is put back with no other forks than it had. -/
theorem hasFork_insert {s : Server} {sid : BitVec 8} {session : Session} (session' : Session)
    (there : s.sessions[sid]? = some session)
    (fewer : ∀ (ref : BitVec 16) (fork : Fork), session'.forks[ref]? = some fork →
      ∃ ref : BitVec 16, session.forks[ref]? = some fork) (fork : Fork)
    (has : HasFork { s with sessions := s.sessions.insert sid session' } fork) :
    s.HasFork fork := by
  obtain ⟨other, session₁, ref, found, inside⟩ := has
  rcases getElem?_insert_iff.mp found with ⟨rfl, rfl⟩ | ⟨_, found⟩
  · obtain ⟨ref, inside⟩ := fewer ref fork inside
    exact ⟨_, session, ref, there, inside⟩
  · exact ⟨other, session₁, ref, found, inside⟩

/-- The world is sane and no fork leads to the shared folder itself. -/
structure Fit (T : Prop) (s : Server) : Prop where
  sane : Sane T s.world
  forks : ∀ {fork : Fork}, s.HasFork fork → fork.id ≠ rootId
  writes : ∀ {number : Nat} {w : PendingWrite}, s.writes[number]? = some w → w.id ≠ rootId

end Server

/-- The steps in which events are answered, with what may be asked for. -/
inductive Serve (T : Prop) (asks : Deed → Prop) : Server → Server → Prop where
  | effort {s : Server} {w : World} (step : Effort T asks s.world w) :
      Serve T asks s { s with world := w }
  | sessions {s : Server} {sessions : ExtTreeMap (BitVec 8) Session}
      (fewer : ∀ fork, Server.HasFork { s with sessions := sessions } fork → s.HasFork fork) :
      Serve T asks s { s with sessions := sessions }
  | opened {s : Server} {sid : BitVec 8} {session : Session} {fork : Fork}
      (there : s.sessions[sid]? = some session) (other : fork.id ≠ rootId)
      (born : fork.lifetime = s.births) (named : fork.opened ≠ [])
      (known : s.world.cat.hosts[fork.id]? = some fork.opened) :
      Serve T asks s
        { s with
          births := s.births + 1
          sessions := s.sessions.insert sid
            { session with
              forks := session.forks.insert session.nextFork fork
              nextFork := session.nextFork + 1 } }
  | asked {s : Server} {fork : Fork} {w : PendingWrite} (has : s.HasFork fork) (id : w.id = fork.id)
      (lifetime : w.lifetime = fork.lifetime) (opened : w.opened = fork.opened) :
      Serve T asks s { s with writes := s.writes.insert s.asked w, asked := s.asked + 1 }
  | answered {s : Server} (number : Nat) : Serve T asks s { s with writes := s.writes.erase number }
  | aside {s : Server} {nextSid : BitVec 8} {catalogError : Option CatalogError} {now : Int} :
      Serve T asks s { s with nextSid := nextSid, catalogError := catalogError, now := now }
  | started {s : Server} (asked : asks .start) (none : ∀ fork, ¬ s.HasFork fork) :
      Serve T asks s { s with world := (configure.exec s.world).2 }
  | host {s : Server} {vol : Volume} (asked : asks (.host vol)) :
      Serve T asks s { s with world := { s.world with vol := vol } }

section Rules

variable {T : Prop} {α : Type} {asks : Deed → Prop} {p : Action α} {s : Server}

theorem steps_onWorld {Q : α → World → Prop} (steps : Steps (Effort T asks) p Q s.world) :
    Steps (Serve T asks) (onWorld p) (fun a s' => ∃ w, Q a w ∧ s' = { s with world := w }) s :=
  steps.zoom rfl fun _ _ step => .effort step

theorem serve_effort (walks : Walks (Effort T asks) p s.world) :
    Walks (Serve T asks) (onWorld p) s :=
  (steps_onWorld walks).mono fun _ _ _ => trivial

/-- Ordinary work on the world, which stays safe. -/
theorem serve_onWorld {Q : α → Prop} (working : Working T Q p) (sane : Sane T s.world) :
    Steps (Serve T asks) (onWorld p)
      (fun a s' => ∃ w, (Sane T w ∧ Q a) ∧ s' = { s with world := w }) s :=
  steps_onWorld (working.effort sane)

/-- A command that ends with its work. -/
theorem serve_work {Q : α → Prop} (working : Working T Q p) (sane : Sane T s.world) :
    Walks (Serve T asks) (onWorld p) s :=
  (serve_onWorld working sane).mono fun _ _ _ => trivial

variable {session : Session} {sid : BitVec 8}

theorem serve_setSession {session' : Session} (there : s.sessions[sid]? = some session)
    (fewer : ∀ (ref : BitVec 16) (fork : Fork), session'.forks[ref]? = some fork →
      ∃ ref : BitVec 16, session.forks[ref]? = some fork) :
    Steps (Serve T asks) (setSession sid session')
      (fun _ s' => s' = { s with sessions := s.sessions.insert sid session' }) s := by
  exact steps_modify (.sessions (Server.hasFork_insert _ there fewer)) rfl

theorem serve_withFork (fit : s.Fit T)
    (there : s.sessions[sid]? = some session) (ref : Nat) {next : Fork → Action Reply}
    (working : ∀ fork : Fork, fork.id ≠ rootId → Works T (next fork)) :
    Walks (Serve T asks) (withFork session ref next) s := by
  rw [withFork]
  split
  · exact walks_pure
  case h_2 fork found =>
    exact serve_work (working fork (fit.forks ⟨sid, session, _, there, found⟩)) fit.sane

theorem Identified.known_host {rel : Path} {identity : Bytes} {c c' : Catalog}
    (identified : Identified rel identity c id c') (sound : c.Sound) (root : rel ≠ [])
    (named : identity ≠ []) : c'.hosts[id]? = some identity := by
  have filled : ∀ {c₁ : Catalog}, c₁.Filled c' → c₁.known id = identity →
      c'.hosts[id]? = some identity := by
    intro c₁ filled known
    have same : c'.known id = identity := by rw [filled.2 id (by rwa [known]), known]
    rw [Catalog.hosts_of_known (by rwa [same]), same]
  have renumbered : ∀ {c : Catalog}, c.Sound → Renumbered rel identity c id c' →
      c'.hosts[id]? = some identity := by
    intro c sound numbered
    cases numbered with
    | moved _ bound kept =>
      refine filled kept ?_
      rw [Catalog.known, sound.moveIds_hosts, bound]
      rfl
    | issued kept => exact filled kept (c.known_issue rel identity)
  cases identified with
  | known => exact ExtTreeMap.getElem?_insert_self
  | absent _ numbered => exact renumbered sound numbered
  | replaced _ numbered => exact renumbered (sound.dropId root) numbered

/-- The number of a path and what the host calls the object there belong together. -/
theorem effort_idForPath {rel : Path} (tidy : T → rel.Tidy) (named : rel ≠ []) (sane : Sane T w) :
    Steps (Effort T asks) (idForPath rel) (fun id w' => Sane T w' ∧ id ≠ rootId ∧
      w'.vol.identityAt rel ≠ [] ∧ w'.cat.hosts[id]? = some (w'.vol.identityAt rel)) w := by
  have effort : Steps (Effort T asks) (idForPath rel) _ w := (working_idForPath tidy).effort sane
  refine wp_mono (wp_and effort (@steps_idForPath rel w)) ?_ fun _ _ last => last.1
  rintro id w' ⟨⟨reached, sane', other⟩, _, disk, ⟨root, _⟩ | ⟨_, found, identified⟩⟩
  · exact absurd root named
  · refine ⟨reached, sane', other named, ?_⟩
    rw [Volume.identityAt_congr disk]
    exact ⟨found, identified.known_host sane.sound named found⟩

theorem serve_fpOpenFork (fit : s.Fit T) (there : s.sessions[sid]? = some session) (c : Bytes) :
    Walks (Serve T asks) (fpOpenFork sid session c) s := by
  rw [fpOpenFork]
  split
  · exact walks_pure
  refine (serve_onWorld (working_resolvePath _ _) fit.sane).bind ?_
  rintro result _ ⟨w₁, ⟨sane₁, tidy⟩, rfl⟩
  split
  · exact walks_pure
  case h_2 rel used =>
    have rel_tidy := tidy rel used rfl
    refine (serve_onWorld (working_statNode rel_tidy) sane₁).bind ?_
    rintro info _ ⟨w₂, ⟨sane₂, told⟩, rfl⟩
    cases info with
    | none => exact walks_pure
    | some ni =>
      obtain ⟨shown, root⟩ := told ni rfl
      dsimp only
      split
      · exact walks_pure
      case isFalse file =>
        have named : rel ≠ [] := fun none => file (root none)
        refine (steps_onWorld
          (effort_idForPath rel_tidy named sane₂)).bind ?_
        rintro id _ ⟨w₃, ⟨sane₃, other, some, known⟩, rfl⟩
        refine steps_get_bind ?_
        refine steps_modify_bind (.opened there other rfl some known) ?_
        refine (serve_onWorld (working_idForPath fun t => (rel_tidy t).parent) sane₃).bind ?_
        rintro parent _ ⟨w₄, ⟨sane₄, _⟩, rfl⟩
        have packs : Working T _ (packParams ni id parent (rd16 c 8) false) :=
          working_packParams (by rwa [shown]) id parent (rd16 c 8) false
        refine (serve_work packs sane₄).bind ?_
        exact fun _ _ _ => walks_pure

theorem serve_volumeInfo (sane : Sane T s.world) (bm : Nat) :
    Walks (Serve T asks) (volumeInfo bm) s := by
  have looked : Works T (perform (.look [])) := working_look fun _ => .plain (by simp [PlainNames])
  exact (serve_work looked sane).bind fun _ _ _ => walks_pure

theorem serve_dispatchAfp (fit : s.Fit T) (world : s.world = w)
    (there : s.sessions[sid]? = some session) (c : Bytes) :
    Walks (Serve T (Asks c w)) (dispatchAfp sid session c) s := by
  subst world
  have sane := fit.sane
  rw [dispatchAfp]
  split
  · exact walks_pure
  case h_2 code head =>
    have coded : ∀ {n : BitVec 8}, code.toNat = n.toNat → c.head? = some n :=
      fun same => head.trans (congrArg some (BitVec.eq_of_toNat_eq same))
    split
    case h_1 | h_2 =>
      refine (serve_setSession there ?_).bind fun _ _ _ => walks_pure
      intro ref fork none
      simp at none
    case h_3 =>
      split
      · exact walks_pure
      refine (serve_setSession there ?_).bind ?_
      · exact fun ref fork found => ⟨ref, found⟩
      · rintro _ _ rfl
        refine serve_volumeInfo ?_ _
        exact sane
    case h_4 =>
      split
      · exact walks_pure
      · exact serve_volumeInfo sane _
    case h_5 => exact steps_get_bind (serve_work (working_fpGetFileDirParms _ c) sane)
    case h_6 => exact serve_work (working_fpEnumerate c) sane
    case h_7 => exact serve_work (working_fpCreate c).1 sane
    case h_8 => exact serve_work (working_fpCreate c).2 sane
    case h_9 same => exact serve_effort (effort_fpDelete sane (coded same))
    case h_10 same =>
      exact serve_effort (effort_moving (working_renamePaths c) sane fun src dst w' ended =>
        ⟨w', .inl ⟨coded same, ended⟩⟩)
    case h_11 same =>
      exact serve_effort (effort_moving (working_movePaths c) sane fun src dst w' ended =>
        ⟨w', .inr ⟨coded same, ended⟩⟩)
    case h_12 | h_13 | h_14 => exact serve_work (working_fpSetParms c) sane
    case h_15 => exact serve_fpOpenFork fit there c
    case h_16 =>
      split
      · exact walks_pure
      · exact serve_withFork fit there _ fun fork other => (handles_getParms fork _).working other
    case h_17 =>
      split
      · exact walks_pure
      refine serve_withFork fit there _ fun fork other => ?_
      cases writable : fork.writable with
      | false =>
        rw [fpSetForkParms_shut writable]
        exact works_pure
      | true => exact (handles_setParms writable _ _).working other
    case h_18 =>
      split
      · exact walks_pure
      · exact serve_withFork fit there _ fun fork other => (handles_read _ _ _).working other
    case h_19 =>
      split
      · exact walks_pure
      · refine (serve_setSession there ?_).bind fun _ _ _ => walks_pure
        exact fun ref fork found => ⟨ref, getElem?_of_erase found⟩
    case h_20 =>
      split <;> exact walks_pure
    -- the others only answer
    all_goals first | exact walks_pure | exact steps_get_bind walks_pure

theorem serve_handleWrite (fit : s.Fit T) (there : s.sessions[sid]? = some session) (c : Bytes) :
    Walks (Serve T asks) (handleWrite session c) s := by
  rw [handleWrite]
  split
  · exact walks_pure
  split
  · exact walks_pure
  case h_2 fork found =>
    split
    · exact walks_pure
    refine (serve_onWorld (working_pathForId fork.id) fit.sane).bind ?_
    rintro path _ ⟨w, ⟨sane, _⟩, rfl⟩
    split
    · exact walks_pure
    · have has : Server.HasFork { s with world := w } fork := ⟨sid, session, _, there, found⟩
      exact steps_modify_bind (.asked has rfl rfl rfl) (walks_pure)

/-- An event with a failure that is remembered. -/
theorem serve_guarded {p : Serving (Option Reply)} (steps : Walks (Serve T asks) p s) :
    Relation.ReflTransGen (Serve T asks) s (guarded s p).1 := by
  rw [Walks, Steps, wp] at steps
  rw [guarded]
  split
  case h_1 ended =>
    rw [ended] at steps
    exact steps.1
  case h_2 ended =>
    rw [ended] at steps
    exact steps.tail .aside

/-- A request is attended to with the session in place. -/
theorem serve_withSession {src : Station}
    {next : Server → Session → Server × Option Reply} (fit : s.Fit T)
    (rest : ∀ s' session, s'.Fit T → s'.world = s.world → s'.sessions[sid]? = some session →
      Relation.ReflTransGen (Serve T asks) s' (next s' session).1) :
    Relation.ReflTransGen (Serve T asks) s (withSession s sid src next).1 := by
  rw [withSession]
  split
  · exact .refl
  case h_2 session there =>
    split
    · exact .refl
    have fewer := Server.hasFork_insert { session with lastHeard := s.now } there
      fun ref fork found => ⟨ref, found⟩
    refine Relation.ReflTransGen.head (.sessions fewer) (rest _ _ ?_ rfl ?_)
    · exact ⟨fit.sane, fun has => fit.forks (fewer _ has), fit.writes⟩
    · exact ExtTreeMap.getElem?_insert_self

end Rules

/-- What an event asks for. -/
def Event.Asks (event : Event) (s : Server) : Deed → Prop :=
  match event with
  | .command _ _ body => Afp.Asks body s.world
  | .start => (· = .start)
  | .host vol => (· = .host vol)
  | _ => fun _ => False

/-- Every event is answered in steps of the server. -/
theorem serve_step {T : Prop} {s : Server} (fit : s.Fit T) (event : Event) :
    Relation.ReflTransGen (Serve T (event.Asks s)) s (step s event).1 := by
  cases event with
  | start =>
    set s₁ : Server := { s with sessions := ∅, catalogError := none }
    have none : ∀ fork, ¬ s₁.HasFork fork := by
      rintro fork ⟨sid, session, ref, found, _⟩
      simp [s₁] at found
    have cleared : Relation.ReflTransGen (Serve T (Event.start.Asks s)) s s₁ :=
      .head (.sessions (fun fork has => absurd has (none fork))) (.single .aside)
    have begun : Serve T (Event.start.Asks s) s₁ ((onWorld configure).exec s₁).2 :=
      .started rfl none
    rw [step]
    split
    case h_1 ended =>
      rw [ended] at begun
      exact cleared.tail begun
    case h_2 ended =>
      rw [ended] at begun
      exact (cleared.tail begun).tail .aside
  | openSession src =>
    rw [step]
    split
    · exact .single .aside
    case h_2 sid next _ =>
      have fewer : ∀ session : Session, session.forks = ∅ → ∀ fork,
          Server.HasFork { s with sessions := s.sessions.insert sid session } fork →
            s.HasFork fork := by
        rintro session none fork ⟨other, session₁, ref, found, inside⟩
        rcases getElem?_insert_iff.mp found with ⟨_, rfl⟩ | ⟨_, found⟩
        · simp [none] at inside
        · exact ⟨other, session₁, ref, found, inside⟩
      exact .head (.sessions (fewer _ rfl)) (.single .aside)
  | closeSession sid src =>
    rw [step]
    split
    · exact .refl
    split
    · exact .refl
    · refine .single (.sessions ?_)
      rintro fork ⟨other, session, ref, found, inside⟩
      exact ⟨other, session, ref, getElem?_of_erase found, inside⟩
  | tickle sid src => exact serve_withSession fit fun _ _ _ _ _ => .refl
  | command sid src body =>
    refine serve_withSession fit fun s' session fit' world there => ?_
    split
    · exact .refl
    · refine serve_guarded ((serve_dispatchAfp fit' world there body).bind ?_)
      exact fun _ _ _ => walks_pure
  | write sid src body =>
    refine serve_withSession fit fun s' session fit' world there => ?_
    split
    · exact .refl
    · exact serve_guarded (serve_handleWrite fit' there body)
  | continued number okFlag pkts =>
    rw [step]
    split
    · exact .refl
    case h_2 w found =>
      dsimp only
      refine .head (.answered number) ?_
      split
      · exact .refl
      split
      · exact .refl
      · refine serve_guarded ?_
        refine Steps.bind (serve_work ((handles_write w _).working (fit.writes found)) ?_) ?_
        · exact fit.sane
        · exact fun _ _ _ => walks_pure
  | tick now =>
    have fewer : ∀ keep : BitVec 8 → Session → Bool, ∀ fork,
        Server.HasFork { s with sessions := s.sessions.filter keep } fork → s.HasFork fork := by
      rintro keep fork ⟨other, session, ref, found, inside⟩
      exact ⟨other, session, ref, (getElem?_filter_iff.mp found).1, inside⟩
    exact .head (.sessions (fewer _)) (.single .aside)
  | host vol => exact .single (.host rfl)

end Pom68k.Afp
