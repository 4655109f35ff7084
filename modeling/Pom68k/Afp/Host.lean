import Pom68k.Afp.Path
import Pom68k.Foundation.Program

/-! # The host below the shared folder

Files and folders of the host, the operations a server asks for and what they leave. The host
may refuse any of them. Every operation is written down with the volume right after it: these
volumes are what a crash can leave behind.
-/

namespace Pom68k.Afp

open Foundation

abbrev Name := Bytes

/-- The characters of an identity: digits, each number closed by a colon. -/
def identityChar (c : Octet) : Bool := (0x30#8 ≤ c ∧ c ≤ 0x39#8) ∨ c = colon

/-- What the host tells objects apart by: device, inode and time of birth as one text. -/
structure Identity where
  text : Bytes
  ne_nil : text ≠ []
  short : text.length ≤ 256
  chars : text.all identityChar = true
  deriving DecidableEq, Repr

structure Node where
  identity : Identity
  /-- `none` for a folder. -/
  data : Option Bytes
  deriving DecidableEq, Repr

def Node.isDir (node : Node) : Bool := node.data.isNone

def appleDouble : Name := [0x2E, 0x41, 0x70, 0x70, 0x6C, 0x65, 0x44, 0x6F, 0x75, 0x62, 0x6C, 0x65]

def catalogName : Name :=
  [0x2E, 0x70, 0x6F, 0x6D, 0x36, 0x38, 0x6B, 0x2D, 0x61, 0x66, 0x70, 0x2D, 0x63, 0x61, 0x74, 0x61,
    0x6C, 0x6F, 0x67]

def lockName : Name := catalogName ++ [0x2E, 0x6C, 0x6F, 0x63, 0x6B]

def catalogStaging : Name := catalogName ++ [0x2E, 0x74, 0x6D, 0x70]

def sidecarStaging : Name :=
  [0x2E, 0x70, 0x6F, 0x6D, 0x36, 0x38, 0x6B, 0x2D, 0x61, 0x66, 0x70, 0x2D, 0x73, 0x69, 0x64, 0x65,
    0x63, 0x61, 0x72, 0x2E, 0x74, 0x6D, 0x70]

/-- The names on the way from the shared folder. The last one is empty behind a trailing slash. -/
def Path.names (rel : Path) : List Name := if rel = [] then [] else rel.splitOn slash

/-- Where the metadata of an object is kept. -/
def sidecar (names : List Name) : List Name :=
  names.dropLast ++ [appleDouble, names.getLast?.getD []]

/-- Empty names take no step. -/
def plain (names : List Name) : List Name := names.filter (· ≠ [])

/-- The shared folder and what is in it, in no order. The server's own catalogue is kept apart,
and so is the sidecar of the folder itself, which is beside the folder. -/
structure Volume where
  root : Identity
  items : List (List Name × Node)
  beside : Option Bytes
  catalog : Option Bytes
  deriving DecidableEq, Repr

/-- Metadata that the server reads. -/
inductive Spot where
  | beside
  | under (names : List Name)
  deriving DecidableEq, Repr

inductive HostOp where
  | look (names : List Name)
  | list (names : List Name)
  | read (spot : Spot)
  | makeDir (names : List Name)
  | makeDirs (names : List Name)
  | create (names : List Name)
  | resize (names : List Name) (size : Nat)
  | write (names : List Name) (position : Nat) (data : Bytes)
  | replace (names : List Name) (data : Bytes)
  | rename (source target : List Name)
  | remove (names : List Name)
  /-- Something found in a folder that is emptied. -/
  | purge (folder entry : List Name)
  | sync (names : List Name)
  | lock
  | readCatalog
  | commit (bytes : Bytes)
  deriving DecidableEq, Repr

/-- What an operation that empties a folder removes. -/
def HostOp.purged : HostOp → List (List Name)
  | .purge _ entry => [entry]
  | _ => []

inductive Outcome where
  | refused
  | absent
  | done
  deriving DecidableEq, Repr

/-- What the host adds to an operation of its own accord. -/
structure Answer where
  refuses : Bool
  /-- The file system does not tell inodes and times of birth. -/
  birthless : Bool
  /-- The identity of what the operation makes. -/
  fresh : Identity
  mtime : Int

namespace Volume

variable (v : Volume)

def find (names : List Name) : Option Node :=
  if names = [] then some ⟨v.root, none⟩
  else (v.items.find? fun item => item.1 = names).map (·.2)

/-- What a path leads to. Behind a trailing slash only a folder is found. -/
def look (names : List Name) : Option Node :=
  if names.getLast? = some [] then (v.find (plain names)).filter Node.isDir
  else v.find (plain names)

def isFolder (names : List Name) : Bool := (v.find names).any Node.isDir

/-- The names in a folder. -/
def listing (names : List Name) : List Name :=
  v.items.filterMap fun item =>
    if item.1 ≠ [] ∧ item.1.dropLast = plain names then item.1.getLast? else none

def put (names : List Name) (node : Node) : Volume :=
  { v with items := (names, node) :: v.items.filter fun item => item.1 ≠ names }

def makeDir (fresh : Identity) (names : List Name) : Option Volume :=
  if names ≠ [] ∧ v.isFolder names.dropLast ∧ v.find names = none then
    some (v.put names ⟨fresh, none⟩)
  else none

/-- The folder and the missing ones above it, from the name furthest down. -/
def makeDirs (fresh : Identity) : List Name → Option Volume
  | [] => some v
  | name :: above =>
    match v.find (above.reverse ++ [name]) with
    | some node => if node.isDir then some v else none
    | none => (makeDirs fresh above).map fun v => v.put (above.reverse ++ [name]) ⟨fresh, none⟩

def create (fresh : Identity) (names : List Name) : Option Volume :=
  match v.look names with
  | some node => if node.isDir then none else some (v.put (plain names) { node with data := some [] })
  | none =>
    if names.getLast? ≠ some [] ∧ v.isFolder (plain names).dropLast then
      some (v.put (plain names) ⟨fresh, some []⟩)
    else none

/-- New contents for a file. -/
def rewrite (names : List Name) (change : Bytes → Bytes) : Option Volume :=
  (v.look names).bind fun node =>
    node.data.map fun data => v.put (plain names) { node with data := some (change data) }

def replace (fresh : Identity) (names : List Name) (data : Bytes) : Option Volume :=
  if names.getLast? ≠ some [] ∧ v.isFolder (plain names).dropLast ∧ ¬ v.isFolder (plain names) then
    some (v.put (plain names) ⟨fresh, some data⟩)
  else none

/-- Where a name is once something has been renamed. -/
def renamed (source target names : List Name) : List Name :=
  if source <+: names then target ++ names.drop source.length else names

/-- The server renames to names it has found absent, so nothing is ever replaced. -/
def rename (source target : List Name) : Option Volume :=
  match v.look source with
  | none => none
  | some node =>
    if (target.getLast? = some [] → node.isDir = true) ∧ plain target ≠ [] ∧
        v.find (plain target) = none ∧ v.isFolder (plain target).dropLast ∧
        ¬ plain source <+: plain target then
      some { v with items := v.items.map fun item =>
        (renamed (plain source) (plain target) item.1, item.2) }
    else none

/-- A file or an empty folder. -/
def remove (names : List Name) : Outcome × Volume :=
  if (v.look names).isNone then (.absent, v)
  else if v.items.any fun item => plain names <+: item.1 ∧ item.1 ≠ plain names then (.refused, v)
  else (.done, { v with items := v.items.filter fun item => item.1 ≠ plain names })

end Volume

/-- An operation that is done or refused as a whole. -/
def Volume.settle (v : Volume) (result : Option Volume) : Outcome × Volume :=
  match result with
  | some v => (.done, v)
  | none => (.refused, v)

def splice (data : Bytes) (position : Nat) (bytes : Bytes) : Bytes :=
  data.take position ++ List.replicate (position - data.length) 0#8 ++ bytes ++
    data.drop (position + bytes.length)

def resized (size : Nat) (data : Bytes) : Bytes :=
  data.take size ++ List.replicate (size - data.length) 0#8

def Volume.apply (v : Volume) (answer : Answer) : HostOp → Outcome × Volume
  | .look names => (if (v.look names).isSome then .done else .absent, v)
  | .list names => (if (v.look names).any Node.isDir then .done else .refused, v)
  | .read .beside => (if v.beside.isSome then .done else .absent, v)
  | .read (.under names) => (if (v.look names).any (!·.isDir) then .done else .absent, v)
  | .makeDir names => v.settle (v.makeDir answer.fresh (plain names))
  | .makeDirs names => v.settle (v.makeDirs answer.fresh (plain names).reverse)
  | .create names => v.settle (v.create answer.fresh names)
  | .resize names size => v.settle (v.rewrite names (resized size))
  -- a write of nothing leaves the file as it is, wherever it goes
  | .write names position data =>
    v.settle (v.rewrite names fun old => if data = [] then old else splice old position data)
  | .replace names data => v.settle (v.replace answer.fresh names data)
  | .rename source target => v.settle (v.rename source target)
  | .remove names => v.remove names
  | .purge _ entry => v.remove entry
  | .sync names => (if (v.look names).isSome then .done else .refused, v)
  | .lock => (.done, v)
  | .readCatalog => (if v.catalog.isSome then .done else .absent, v)
  | .commit bytes => (.done, { v with catalog := some bytes })

end Pom68k.Afp
