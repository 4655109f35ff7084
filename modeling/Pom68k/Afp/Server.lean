import Pom68k.Afp.Commands

/-! # The file server

Sessions with their open forks, the commands of a guest, and writes whose data arrives later. A
server whose catalogue has failed refuses all further commands.
-/

namespace Pom68k.Afp

open Foundation Program Std

structure Fork where
  id : Nat
  resource : Bool
  writable : Bool
  /-- Tells this opening from every other. -/
  lifetime : Nat
  /-- What the host called the object when the fork was opened. -/
  opened : Bytes
  deriving DecidableEq, Repr

/-! ## Commands on an open fork -/

def fpGetForkParms (fork : Fork) (bm : Nat) : Action Reply := do
  match ← statNode (← pathForId fork.id) with
  | none => return err kErrNoObj
  | some ni => return ok (put16 bm ++ (← packParams ni fork.id rootId bm false))

def fpSetForkParms (fork : Fork) (bm len : Nat) : Action Reply := do
  if !fork.writable then return err kErrAccess
  else
    let relative ← pathForId fork.id
    if relative = noPath then return err kErrNoObj
    else if bm.testBit 9 then
      if len > kMaxDataFork then return err kErrParam
      else
        match ← perform (.resize relative.names len) with
        | .done => return ok
        | _ => return err kErrMisc
    else if bm.testBit 10 then
      if len > kMaxRsrcFork then return err kErrParam
      else
        let m := (← adRead (.under (sidecar relative.names))).getD {}
        if ← adWrite relative.names { m with rsrc := resized len m.rsrc } then return ok
        else return err kErrMisc
    else return ok

/-- A line of text ends a read. -/
def untilNewline (nlMask nlChar : Octet) (d : Bytes) (eof : Bool) : Bytes × Bool :=
  if nlMask = 0 then (d, eof)
  else
    match d.findIdx? fun c => c &&& nlMask = nlChar &&& nlMask with
    | some i => (d.take (i + 1), false)
    | none => (d, eof)

def readReply (want : Nat) (nlMask nlChar : Octet) (d : Bytes) : Reply :=
  let (d, eof) := untilNewline nlMask nlChar d (d.length < want)
  { result := if eof then kErrEof else 0, data := d }

def fpRead (fork : Fork) (offR req : Nat) (nlMask nlChar : Octet) : Action Reply := do
  let relative ← pathForId fork.id
  let want := min req (8 * 578)
  if fork.resource then
    let m := (← adRead (.under (sidecar relative.names))).getD {}
    return readReply want nlMask nlChar ((m.rsrc.drop offR).take want)
  else
    let v := (← get).vol
    match ← perform (.read (.under relative.names)), v.look relative.names with
    | .refused, _ | _, none => return err kErrNoObj
    | _, some node =>
      return readReply want nlMask nlChar (((node.data.getD []).drop offR).take want)

/-- A write whose data has been asked for. -/
structure PendingWrite where
  id : Nat
  resource : Bool
  lifetime : Nat
  opened : Bytes
  offW : Int
  fromEof : Bool
  deriving DecidableEq, Repr

/-- The data that came, behind four octets in each packet. -/
def writeData (pkts : List Bytes) : Bytes := pkts.flatMap fun p => p.drop 4

/-- Where a write goes, unless that is outside what a fork may be. -/
def writePosition (limit length : Nat) (w : PendingWrite) (data : Bytes) : Option Nat :=
  let at_ := if w.fromEof then (length : Int) + w.offW else w.offW
  if at_ < 0 ∨ at_.toNat + data.length > limit then none else some at_.toNat

/-- The reply of a write is the position behind it. -/
def wroteTo (position : Nat) (data : Bytes) : Reply := ok (put32 (position + data.length))

def writeFork (w : PendingWrite) (data : Bytes) : Action Reply := do
  let relative ← pathForId w.id
  if relative = noPath then return err kErrNoObj
  else if w.resource then
    let m := (← adRead (.under (sidecar relative.names))).getD {}
    match writePosition kMaxRsrcFork m.rsrc.length w data with
    | none => return err kErrParam
    | some position =>
      if ← adWrite relative.names { m with rsrc := splice m.rsrc position data } then
        return wroteTo position data
      else return err kErrMisc
  else
    let v := (← get).vol
    match ← perform (.read (.under relative.names)), (v.look relative.names).bind (·.data) with
    | .done, some old =>
      match writePosition kMaxDataFork old.length w data with
      | none => return err kErrParam
      | some position =>
        match ← perform (.write relative.names position data) with
        | .done => return wroteTo position data
        | _ => return err kErrMisc
    | _, _ => return err kErrAccess

/-! ## Sessions -/

structure Station where
  net : BitVec 16
  node : BitVec 8
  deriving DecidableEq, Repr

instance transOrd_byte : TransOrd (BitVec 8) := inferInstance

instance transOrd_ref : TransOrd (BitVec 16) := inferInstance

structure Session where
  wss : Station
  lastHeard : Int
  volOpen : Bool
  forks : ExtTreeMap (BitVec 16) Fork
  nextFork : BitVec 16

structure Server where
  world : World
  volName : Bytes
  /-- What the server tells of itself. -/
  statusBlock : Bytes
  /-- The date it reports. -/
  date : Int
  sessions : ExtTreeMap (BitVec 8) Session
  nextSid : BitVec 8
  /-- Why commands are refused. -/
  catalogError : Option CatalogError
  now : Int
  cpuHz : Int
  /-- How many forks have been opened. -/
  births : Nat
  writes : ExtTreeMap Nat PendingWrite
  /-- How many writes have been asked for. -/
  asked : Nat

abbrev Serving := Program Server CatalogError

def onWorld {α : Type} (p : Action α) : Serving α :=
  zoom Server.world (fun w s => { s with world := w }) p

def setSession (sid : BitVec 8) (session : Session) : Serving Unit :=
  modify fun s => { s with sessions := s.sessions.insert sid session }

/-- One more open fork. -/
def addFork (sid : BitVec 8) (session : Session) (fork : Fork) : Serving Unit :=
  modify fun s =>
    { s with
      births := s.births + 1
      sessions := s.sessions.insert sid
        { session with
          forks := session.forks.insert session.nextFork fork
          nextFork := session.nextFork + 1 } }

def fpOpenFork (sid : BitVec 8) (session : Session) (c : Bytes) : Serving Reply := do
  if c.length < 12 then return err kErrParam
  else
    let bm := rd16 c 8
    match ← onWorld (resolvePath (rd32 c 4) (c.drop 12)) with
    | .error e => return err e
    | .ok (rel, _) =>
      match ← onWorld (statNode rel) with
      | none => return err kErrNoObj
      | some ni =>
        if ni.isDir then return err kErrBadType
        else
          let id ← onWorld (idForPath rel)
          let s ← get
          let fork : Fork :=
            { id := id
              resource := (rd16 c 0).testBit 7
              writable := (rd16 c 10).testBit 1
              lifetime := s.births
              opened := s.world.vol.identityAt rel }
          addFork sid session fork
          let parent ← onWorld (idForPath rel.parent)
          let p ← onWorld (packParams ni id parent bm false)
          return ok (put16 bm ++ put16 session.nextFork.toNat ++ p)

/-- A text behind its length, and the rest. -/
def pascal (c : Bytes) : Option (Bytes × Bytes) :=
  match c with
  | [] => none
  | l :: rest => if rest.length < l.toNat then none else some (rest.take l.toNat, rest.drop l.toNat)

/-- Any user is let in who speaks a version of the protocol. -/
def fpLogin (c : Bytes) : Reply :=
  match pascal (c.drop 1) with
  | none => err kErrParam
  | some (vers, rest) =>
    if (pascal rest).isNone then err kErrParam
    else if [0x41#8, 0x46#8, 0x50#8] <+: vers then ok
    else err (-5003)

def fpGetUserInfo (c : Bytes) : Reply :=
  if c.length < 8 then err kErrParam
  else
    let bm := rd16 c 6
    ok (put16 bm ++ (if bm.testBit 0 then put32 100 else []) ++
      if bm.testBit 1 then put32 100 else [])

/-- A command that goes on with an open fork. -/
def withFork (session : Session) (ref : Nat) (next : Fork → Action Reply) : Serving Reply :=
  match session.forks[BitVec.ofNat 16 ref]? with
  | none => return err kErrParam
  | some fork => onWorld (next fork)

/-- The volume is looked at for its size, which is not modelled. -/
def volumeInfo (bm : Nat) : Serving Reply := do
  let _ ← onWorld (perform (.look []))
  return ok (put16 bm)

def dispatchAfp (sid : BitVec 8) (session : Session) (c : Bytes) : Serving Reply := do
  match c.head? with
  | none => return err kErrParam
  | some code =>
    match code.toNat with
    | 20 | 2 =>
      setSession sid { session with forks := ∅, volOpen := false }
      return ok
    | 24 =>
      if c.length < 4 then return err kErrParam
      else
        setSession sid { session with volOpen := true }
        volumeInfo (rd16 c 2)
    | 17 => if c.length < 6 then return err kErrParam else volumeInfo (rd16 c 4)
    | 34 => onWorld (fpGetFileDirParms (← get).volName c)
    | 9 => onWorld (fpEnumerate c)
    | 6 => onWorld (fpCreateDir c)
    | 7 => onWorld (fpCreateFile c)
    | 8 => onWorld (fpDelete c)
    | 28 => onWorld (fpRename c)
    | 23 => onWorld (fpMoveAndRename c)
    | 29 | 30 | 35 => onWorld (fpSetParms c)
    | 26 => fpOpenFork sid session c
    | 14 =>
      if c.length < 6 then return err kErrParam
      else withFork session (rd16 c 2) fun fork => fpGetForkParms fork (rd16 c 4)
    | 31 =>
      if c.length < 10 then return err kErrParam
      else withFork session (rd16 c 2) fun fork => fpSetForkParms fork (rd16 c 4) (rd32 c 6)
    | 27 =>
      if c.length < 14 then return err kErrParam
      else withFork session (rd16 c 2) fun fork =>
        fpRead fork (rd32 c 4) (rd32 c 8) (c.getD 12 0) (c.getD 13 0)
    | 4 =>
      if c.length < 4 then return err kErrParam
      else
        setSession sid
          { session with forks := session.forks.erase (BitVec.ofNat 16 (rd16 c 2)) }
        return ok
    | 1 => if c.length < 12 then return err kErrParam else return ok (put32 (rd32 c 4))
    | 48 => return ok (put16 1)
    | 15 => return ok (← get).statusBlock
    | 16 =>
      let s ← get
      let name := s.volName.take 27
      return ok (put32 (afpDate s.date) ++ [1, 0, BitVec.ofNat 8 name.length] ++ name)
    | 18 => return fpLogin c
    | 37 => return fpGetUserInfo c
    | 32 | 10 | 11 | 49 | 53 | 54 | 56 | 57 | 192 => return ok
    | 51 | 52 | 55 | 58 => return err kErrNoItem
    | _ => return err kErrNoOp

/-- The first half of a write: the guest is asked for the data. No reply is due yet. -/
def handleWrite (session : Session) (c : Bytes) : Serving (Option Reply) := do
  if c.length < 12 ∨ c.head? ≠ some 33 then return some (err kErrParam)
  else
    match session.forks[BitVec.ofNat 16 (rd16 c 2)]? with
    | none => return some (err kErrAccess)
    | some fork =>
      if !fork.writable then return some (err kErrAccess)
      else if (← onWorld (pathForId fork.id)) = noPath then return some (err kErrNoObj)
      else
        modify fun s =>
          { s with
            writes := s.writes.insert s.asked
              { id := fork.id
                resource := fork.resource
                lifetime := fork.lifetime
                opened := fork.opened
                offW := (BitVec.ofNat 32 (rd32 c 4)).toInt
                fromEof := (rd16 c 0).testBit 7 }
            asked := s.asked + 1 }
        return none

/-! ## Events -/

inductive Event where
  | start
  | openSession (src : Station)
  | closeSession (sid : BitVec 8) (src : Station)
  | tickle (sid : BitVec 8) (src : Station)
  | command (sid : BitVec 8) (src : Station) (body : Bytes)
  | write (sid : BitVec 8) (src : Station) (body : Bytes)
  /-- The data of a write, or that it never came. -/
  | continued (number : Nat) (okFlag : Bool) (pkts : List Bytes)
  | tick (now : Int)
  /-- Other programs leave the folder as it is now. -/
  | host (vol : Volume)

/-- A failure of the catalogue is remembered and told to the guest. -/
def guarded (s : Server) (p : Serving (Option Reply)) : Server × Option Reply :=
  match p.exec s with
  | (.ok reply, s) => (s, reply)
  | (.error e, s) => ({ s with catalogError := some e }, some (err (-5014)))

/-- A free session number, tried from the next one on. -/
def freeSid (sessions : ExtTreeMap (BitVec 8) Session) : Nat → BitVec 8 → Option (BitVec 8) × BitVec 8
  | 0, next => (none, next)
  | tries + 1, next =>
    let after := if next + 1 = 0 then 1 else next + 1
    if next ≠ 0 ∧ next ∉ sessions then (some next, after) else freeSid sessions tries after

def aspTooMany : Int := -1040

def aspSessClosed : Int := -1072

/-- A request of the station that opened the session. -/
def withSession (s : Server) (sid : BitVec 8) (src : Station)
    (next : Server → Session → Server × Option Reply) : Server × Option Reply :=
  match s.sessions[sid]? with
  | none => (s, none)
  | some session =>
    if src ≠ session.wss then (s, some (err aspSessClosed))
    else
      let session := { session with lastHeard := s.now }
      next { s with sessions := s.sessions.insert sid session } session

/-- The fork of a pending write is still open. -/
def Server.alive (s : Server) (lifetime : Nat) : Bool :=
  s.sessions.toList.any fun entry => entry.2.forks.toList.any fun fork => fork.2.lifetime = lifetime

def step (s : Server) : Event → Server × Option Reply
  | .start =>
    let s := { s with sessions := ∅, catalogError := none }
    match (onWorld configure).exec s with
    | (.ok _, s) => (s, none)
    | (.error e, s) => ({ s with catalogError := some e }, none)
  | .openSession src =>
    match freeSid s.sessions 255 s.nextSid with
    | (none, next) => ({ s with nextSid := next }, some (err aspTooMany))
    | (some sid, next) =>
      let session : Session :=
        { wss := src, lastHeard := s.now, volOpen := false, forks := ∅, nextFork := 1 }
      ({ s with nextSid := next, sessions := s.sessions.insert sid session }, some ok)
  | .closeSession sid src =>
    match s.sessions[sid]? with
    | none => (s, some ok)
    | some session =>
      if src ≠ session.wss then (s, some (err aspSessClosed))
      else ({ s with sessions := s.sessions.erase sid }, some ok)
  | .tickle sid src => withSession s sid src fun s _ => (s, none)
  | .command sid src body =>
    withSession s sid src fun s session =>
      if s.catalogError.isSome then (s, some (err (-5014)))
      else guarded s do return some (← dispatchAfp sid session body)
  | .write sid src body =>
    withSession s sid src fun s session =>
      if s.catalogError.isSome then (s, some (err (-5014)))
      else guarded s (handleWrite session body)
  | .continued number okFlag pkts =>
    match s.writes[number]? with
    | none => (s, none)
    | some w =>
      let s := { s with writes := s.writes.erase number }
      if !s.alive w.lifetime then (s, some (err aspSessClosed))
      else if !okFlag then (s, some (err kErrMisc))
      else guarded s do return some (← onWorld (writeFork w (writeData pkts)))
  | .tick now =>
    ({ s with
      now := now
      sessions := s.sessions.filter fun _ session => ¬ now - session.lastHeard > 120 * s.cpuHz },
      none)
  | .host vol => ({ s with world := { s.world with vol := vol } }, none)

end Pom68k.Afp
