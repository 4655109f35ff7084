import Pom68k.Afp.Metadata

/-! # Commands on paths

The commands of a guest that name a directory number and a path: looking, listing, making,
deleting, renaming, and setting metadata.
-/

namespace Pom68k.Afp

open Foundation Program

def kErrAccess : Int := -5000
def kErrBitmap : Int := -5004
def kErrEof : Int := -5009
def kErrNoItem : Int := -5012
def kErrMisc : Int := -5014
def kErrExist : Int := -5017
def kErrNoObj : Int := -5018
def kErrParam : Int := -5019
def kErrNoOp : Int := -5024
def kErrBadType : Int := -5025
def kErrNoDir : Int := -5029

/-- The result code of a reply and its data. -/
structure Reply where
  result : Int
  data : Bytes := []
  deriving DecidableEq, Repr

def err (e : Int) : Reply := { result := e }

def ok (d : Bytes := []) : Reply := { result := 0, data := d }

/-- A path below a numbered directory, and how many octets it took. -/
def resolvePath (dirId : Nat) (p : Bytes) : Action (Except Int (Path × Nat)) := do
  match p with
  | type :: len :: s =>
    if (type ≠ 1 ∧ type ≠ 2) ∨ len.toNat > s.length then return .error kErrParam
    else
      let rel ← pathForId dirId
      if rel = noPath then return .error kErrNoDir
      else
        match walkElements rel [] (s.take len.toNat) with
        | none => return .error kErrParam
        | some rel => return .ok (rel, 2 + len.toNat)
  | _ => return .error kErrParam

/-- A command that goes on with a path or ends with its error. -/
def withPath (dirId : Nat) (p : Bytes) (next : Path → Nat → Action Reply) : Action Reply := do
  match ← resolvePath dirId p with
  | .error e => return err e
  | .ok (rel, used) => next rel used

/-- What the host has at a path. -/
def existsAt (names : List Name) : Action Bool := do
  match ← perform (.look names) with
  | .done => return true
  | _ => return false

/-! ## Looking -/

/-- The shared folder goes by the name of the volume. -/
def NodeInfo.shown (ni : NodeInfo) (volName : Bytes) (rel : Path) : NodeInfo :=
  if rel = [] then { ni with macName := volName } else ni

def parentNumber (rel : Path) : Action Nat :=
  if rel = [] then pure 1 else idForPath rel.parent

def fpGetFileDirParms (volName : Bytes) (c : Bytes) : Action Reply := do
  if c.length < 12 then return err kErrParam
  else
    let fbm := rd16 c 8
    let dbm := rd16 c 10
    withPath (rd32 c 4) (c.drop 12) fun rel _ => do
      match ← statNode rel with
      | none => return err kErrNoObj
      | some ni =>
        let ni := ni.shown volName rel
        let id ← idForPath rel
        let parent ← parentNumber rel
        let p ← packParams ni id parent (if ni.isDir then dbm else fbm) ni.isDir
        return ok (put16 fbm ++ put16 dbm ++ [if ni.isDir then 0x80 else 0x00, 0] ++ p)

/-! ## Listing -/

def toLower (c : Octet) : Octet := if 0x41#8 ≤ c ∧ c ≤ 0x5A#8 then c + 0x20#8 else c

/-- The order of names, with capital and small letters alike. -/
def nameLe (a b : Name) : Bool := (compare (b.map toLower) (a.map toLower)).isGE

/-- The names a guest is shown, in the server's order. -/
def visibleNames (names : List Name) : List Name :=
  (names.filter fun nm => nm ≠ [] ∧ nm.head? ≠ some dot ∧ nm.length ≤ 31).insertionSort
    fun a b => nameLe a b

/-- One entry of the reply: its size, whether it is a folder, its parameters, all even. -/
def entryOf (isDir : Bool) (p : Bytes) : Bytes :=
  let esz := p.length + 2 + (p.length + 2) % 2
  [BitVec.ofNat 8 esz, if isDir then 0x80 else 0x00] ++ p ++
    if (p.length + 2) % 2 = 1 then [0] else []

/-- Entries are added while they are wanted and fit. -/
def enumerateFrom (rel : Path) (dirIdNum fbm dbm reqcnt cap : Nat) :
    List Name → Nat → Bytes → Action (Nat × Bytes)
  | [], act, d => return (act, d)
  | nm :: rest, act, d =>
    if act < (if reqcnt ≠ 0 then reqcnt else 0xFFFF) then do
      match ← statNode (rel.child nm) with
      | none => enumerateFrom rel dirIdNum fbm dbm reqcnt cap rest act d
      | some ni =>
        if (if ni.isDir then dbm else fbm) = 0 then
          enumerateFrom rel dirIdNum fbm dbm reqcnt cap rest act d
        else
          let id ← idForPath (rel.child nm)
          let p ← packParams ni id dirIdNum (if ni.isDir then dbm else fbm) ni.isDir
          let entry := entryOf ni.isDir p
          if d.length + entry.length > cap + 6 then return (act, d)
          else enumerateFrom rel dirIdNum fbm dbm reqcnt cap rest (act + 1) (d ++ entry)
    else return (act, d)

/-- The reply with the count where it belongs. -/
def enumerateReply (fbm dbm act : Nat) (entries : Bytes) : Reply :=
  if act = 0 then err kErrNoObj else ok (put16 fbm ++ put16 dbm ++ put16 act ++ entries)

def listNames (names : List Name) : Action (List Name) := do
  let v := (← get).vol
  match ← perform (.list names) with
  | .done => return v.listing names
  | _ => return []

def fpEnumerate (c : Bytes) : Action Reply := do
  if c.length < 18 then return err kErrParam
  else
    let fbm := rd16 c 8
    let dbm := rd16 c 10
    let reqcnt := rd16 c 12
    let sindex := rd16 c 14
    let maxsz := rd16 c 16
    withPath (rd32 c 4) (c.drop 18) fun rel _ => do
      if sindex = 0 ∨ (fbm = 0 ∧ dbm = 0) then return err kErrBitmap
      else
        let v := (← get).vol
        match ← perform (.look rel.names) with
        | .done =>
          if (v.look rel.names).any Node.isDir then
            let dirIdNum ← idForPath rel
            let names := visibleNames (← listNames rel.names)
            let cap := min (if maxsz ≠ 0 then maxsz else 4000) 4000
            let (act, d) ← enumerateFrom rel dirIdNum fbm dbm reqcnt cap
              (names.drop (sindex - 1)) 0 (put16 fbm ++ put16 dbm ++ put16 0)
            return enumerateReply fbm dbm act (d.drop 6)
          else return err kErrNoDir
        | _ => return err kErrNoDir

/-! ## Making and removing -/

def fpCreateDir (c : Bytes) : Action Reply := do
  if c.length < 8 then return err kErrParam
  else
    withPath (rd32 c 4) (c.drop 8) fun rel _ => do
      if ← existsAt rel.names then return err kErrExist
      else
        match ← perform (.makeDir rel.names) with
        | .done => return ok (put32 (← idForPath rel))
        | _ => return err kErrAccess

def fpCreateFile (c : Bytes) : Action Reply := do
  if c.length < 8 then return err kErrParam
  else
    let hard := (rd16 c 0).testBit 7
    withPath (rd32 c 4) (c.drop 8) fun rel _ => do
      if (← existsAt rel.names) && !hard then return err kErrExist
      else
        match ← perform (.create rel.names) with
        | .done =>
          let _ ← idForPath rel
          return ok
        | _ => return err kErrAccess

def answerOf (result : Int) : Reply := if result ≠ 0 then err result else ok

def fpDelete (c : Bytes) : Action Reply := do
  if c.length < 8 then return err kErrParam
  else
    withPath (rd32 c 4) (c.drop 8) fun rel _ => do
      return answerOf (← deleteHostPath rel)

/-! ## Renaming -/

/-- What is moved, and where to: a new name in the same folder. -/
def renamePaths (c : Bytes) : Action (Except Int (Path × Path)) := do
  match ← resolvePath (rd32 c 4) (c.drop 8) with
  | .error e => return .error e
  | .ok (rel, u1) =>
    match ← resolvePath (rd32 c 4) (c.drop (8 + u1)) with
    | .error e => return .error e
    | .ok (newRel, _) => return .ok (rel, rel.parent.child newRel.leaf)

/-- What is moved, and where to: another folder, and a new name if there is one. -/
def movePaths (c : Bytes) : Action (Except Int (Path × Path)) := do
  match ← resolvePath (rd32 c 4) (c.drop 12) with
  | .error e => return .error e
  | .ok (src, u1) =>
    match ← resolvePath (rd32 c 8) (c.drop (12 + u1)) with
    | .error e => return .error e
    | .ok (dstDir, u2) =>
      let p := c.drop (12 + u1 + u2)
      if p.length > 2 ∧ p[1]? ≠ some 0 then
        match ← resolvePath (rd32 c 8) p with
        | .error e => return .error e
        | .ok (nn, _) => return .ok (src, dstDir.child nn.leaf)
      else return .ok (src, dstDir.child src.leaf)

def moveReply (paths : Except Int (Path × Path)) : Action Reply :=
  match paths with
  | .error e => return err e
  | .ok (src, dst) => return answerOf (← moveHostPath src dst)

def fpRename (c : Bytes) : Action Reply := do
  if c.length < 8 then return err kErrParam else moveReply (← renamePaths c)

def fpMoveAndRename (c : Bytes) : Action Reply := do
  if c.length < 12 then return err kErrParam else moveReply (← movePaths c)

/-! ## Metadata -/

/-- The parameters of a set, bit by bit; an unknown one ends them. -/
def setParams (c : Bytes) (bm : Nat) : List Nat → Nat → AdMeta × Bool → AdMeta × Bool
  | [], _, m => m
  | bit :: bits, off, (m, dirty) =>
    if c.length ≤ off then (m, dirty)
    else if bm.testBit bit then
      match bit with
      | 0 => setParams c bm bits (off + 2) (m, dirty)
      | 2 => setParams c bm bits (off + 4)
          (if off + 4 ≤ c.length then ({ m with cdate := rd32 c off }, true) else (m, dirty))
      | 3 => setParams c bm bits (off + 4) (m, dirty)
      | 4 => setParams c bm bits (off + 4)
          (if off + 4 ≤ c.length then ({ m with bdate := rd32 c off }, true) else (m, dirty))
      | 5 => setParams c bm bits (off + 32)
          (if off + 32 ≤ c.length then
            ({ m with finder := (c.drop off).take 32, hasFinder := true }, true)
          else (m, dirty))
      | _ => (m, dirty)
    else setParams c bm bits off (m, dirty)

def fpSetParms (c : Bytes) : Action Reply := do
  if c.length < 12 then return err kErrParam
  else
    withPath (rd32 c 4) (c.drop 10) fun rel used => do
      let off := 10 + used + (10 + used) % 2
      match ← statNode rel with
      | none => return err kErrNoObj
      | some ni =>
        let (m, dirty) := setParams c (rd16 c 8) (List.range 16) off (ni.ad, false)
        if dirty ∧ rel ≠ [] then
          if ← adWrite rel.names m then return ok else return err kErrMisc
        else return ok

end Pom68k.Afp
