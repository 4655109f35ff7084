import Pom68k.Afp.Mutation

/-! # Metadata

Finder information, dates and the resource fork of a file are kept in a second file beside it.
What the server tells a guest of a file or folder is packed by a bitmap of parameters.
-/

namespace Pom68k.Afp

open Foundation Program

def rd16 (c : Bytes) (i : Nat) : Nat := number ((c.drop i).take 2)

def rd32 (c : Bytes) (i : Nat) : Nat := number ((c.drop i).take 4)

def put16 (x : Nat) : Bytes := bigEndian 2 x

def put32 (x : Nat) : Bytes := bigEndian 4 x

def pstr (s : Bytes) : Bytes := BitVec.ofNat 8 (min s.length 31) :: s.take 31

def kMaxRsrcFork : Nat := 16 * 1024 * 1024

def kMaxDataFork : Nat := 0x7fffffff

/-! ## The metadata file -/

structure AdMeta where
  finder : Bytes := List.replicate 32 0
  hasFinder : Bool := false
  cdate : Nat := 0
  bdate : Nat := 0
  rsrc : Bytes := []
  deriving DecidableEq, Repr

def adMagic : Nat := 0x00051607

/-- One entry of the table at the front of the file. Entries that reach past the end are skipped,
and entries not known are. -/
def adEntry (b : Bytes) (m : AdMeta) (e : Nat) : AdMeta :=
  let id := rd32 b e
  let off := rd32 b (e + 4)
  let len := rd32 b (e + 8)
  let body := (b.drop off).take len
  if off > b.length ∨ len > b.length - off then m
  else if id = 9 ∧ len ≥ 16 then
    { m with finder := body.take 32 ++ m.finder.drop (min len 32), hasFinder := true }
  else if id = 8 ∧ len ≥ 16 then { m with cdate := rd32 b off, bdate := rd32 b (off + 8) }
  else if id = 2 then { m with rsrc := body }
  else m

/-- The entries as far as the file holds them. -/
def adEntries (b : Bytes) : Nat → Nat → AdMeta → AdMeta
  | 0, _, m => m
  | count + 1, e, m => if e + 12 > b.length then m else adEntries b count (e + 12) (adEntry b m e)

def adParse (b : Bytes) : Option AdMeta :=
  if b.length > kMaxRsrcFork + 4096 then none
  else if b.length < 26 ∨ rd32 b 0 ≠ adMagic then none
  else some (adEntries b (rd16 b 24) 26 {})

def adBytes (m : AdMeta) : Bytes :=
  let off := 26 + 3 * 12
  put32 adMagic ++ put32 0x00020000 ++ List.replicate 16 0 ++ put16 3 ++
    put32 9 ++ put32 off ++ put32 32 ++
    put32 8 ++ put32 (off + 32) ++ put32 16 ++
    put32 2 ++ put32 (off + 48) ++ put32 m.rsrc.length ++
    m.finder ++ put32 m.cdate ++ put32 m.cdate ++ put32 m.bdate ++ put32 0 ++ m.rsrc

/-- What is in a metadata file. -/
def Volume.metadata (v : Volume) : Spot → Option Bytes
  | .beside => v.beside
  | .under names => (v.look names).bind (·.data)

def adRead (spot : Spot) : Action (Option AdMeta) := do
  let v := (← get).vol
  match ← perform (.read spot) with
  | .done => return (v.metadata spot).bind adParse
  | _ => return none

/-- The folder for metadata is made when it is not there, and is then made durable. -/
def adFolder (names : List Name) : Action Bool := do
  let folder := (sidecar names).dropLast
  let created := ((← get).vol.find (plain folder)).isNone
  match ← perform (.makeDirs folder) with
  | .done =>
    if created then
      match ← perform (.sync names.dropLast) with
      | .done => return true
      | _ => return false
    else return true
  | _ => return false

def adWrite (names : List Name) (m : AdMeta) : Action Bool := do
  if ← adFolder names then
    match ← perform (.replace (sidecar names) (adBytes m)) with
    | .done => return true
    | _ => return false
  else return false

/-! ## What is told of an object -/

structure NodeInfo where
  rel : Path
  macName : Bytes
  isDir : Bool
  dsize : Nat
  mtime : Int
  ad : AdMeta
  hasAd : Bool
  deriving DecidableEq, Repr

/-- Where the metadata of a path is; that of the folder itself is beside the folder. -/
def spotOf (rel : Path) : Spot := if rel = [] then .beside else .under (sidecar rel.names)

/-- What is told of an object and its metadata. -/
def nodeInfo (rel : Path) (mtime : Int) (ad : Option AdMeta) (node : Node) : NodeInfo where
  rel := rel
  macName := unixToMac rel.leaf
  isDir := node.isDir
  dsize := (node.data.getD []).length
  mtime := mtime
  ad := ad.getD {}
  hasAd := ad.isSome

def statNode (rel : Path) : Action (Option NodeInfo) := do
  let w ← get
  match ← perform (.look rel.names), w.vol.look rel.names with
  | .done, some node => return some (nodeInfo rel w.answer.mtime (← adRead (spotOf rel)) node)
  | _, _ => return none

def dirOffspring (names : List Name) : Action Nat := do
  let v := (← get).vol
  match ← perform (.list names) with
  | .done => return ((v.listing names).filter fun name => name.head? ≠ some dot).length
  | _ => return 0

def kAfpEpoch : Int := 946684800

def afpDate (unixSecs : Int) : Nat := ((unixSecs - kAfpEpoch) % 4294967296).toNat

/-- What one bit of the bitmap asks for. The long name is given by its offset. -/
def paramBytes (n : NodeInfo) (nodeId parentId offspring : Nat) (asDir : Bool) (nameAt : Nat) :
    Nat → Bytes
  | 0 => put16 0
  | 1 => put32 parentId
  | 2 => put32 (if n.hasAd ∧ n.ad.cdate ≠ 0 then n.ad.cdate else afpDate n.mtime)
  | 3 => put32 (afpDate n.mtime)
  | 4 => put32 (if n.hasAd then n.ad.bdate else 0)
  | 5 => if n.hasAd then n.ad.finder else List.replicate 32 0
  | 6 => put16 nameAt
  | 7 => put16 0
  | 8 => put32 nodeId
  | 9 => if asDir then put16 offspring else put32 (min n.dsize 0xFFFFFFFF)
  | 10 => if asDir then put32 0 else put32 n.ad.rsrc.length
  | 11 => if asDir then put32 0 else []
  | 12 => if asDir then [0x87, 0x07, 0x07, 0x07] else []
  | _ => []

/-- The parameters in ascending order of their bits, the name behind them. -/
def packBytes (n : NodeInfo) (nodeId parentId offspring bitmap : Nat) (asDir : Bool) : Bytes :=
  let fixed := fun nameAt => (List.range 16).flatMap fun bit =>
    if bitmap.testBit bit then paramBytes n nodeId parentId offspring asDir nameAt bit else []
  fixed (fixed 0).length ++ if bitmap.testBit 6 then pstr n.macName else []

def packParams (n : NodeInfo) (nodeId parentId bitmap : Nat) (asDir : Bool) : Action Bytes := do
  if asDir ∧ bitmap.testBit 9 then
    return packBytes n nodeId parentId (← dirOffspring n.rel.names) bitmap asDir
  else return packBytes n nodeId parentId 0 bitmap asDir

end Pom68k.Afp
