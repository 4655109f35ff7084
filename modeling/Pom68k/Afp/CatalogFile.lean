import Pom68k.Afp.Catalog
import Pom68k.Afp.Host
import Pom68k.Foundation.BigEndian

/-! # The catalogue file

The catalogue as it is committed to the shared folder, and the reader that takes the four
versions of it. The reader trusts nothing: numbers, paths, identities and the pending operation
are checked one by one.
-/

namespace Pom68k.Afp

open Foundation Std

inductive CatalogError where
  | busy
  | unreadable
  | badSize
  | truncated
  | unknownFormat
  | badHeader
  | badRecord
  | badIdentity
  | badHostIdentityLength
  | badHostIdentity
  | truncatedJournal
  | badJournal
  | checksumMismatch
  | unboundLegacy
  | full
  | uncommitted
  | missingObject
  | exhausted
  | uninspectedIdentity
  | birthless
  | uninspectedPath
  | unsynced
  | changed
  | ambiguousMove
  | ambiguousSidecar
  | unfinishedMove
  | unfinishedDeletion
  /-- A key looked up that is not in the map; nothing catches this one. -/
  | outOfRange
  deriving DecidableEq, Repr

def maxCatalogBytes : Nat := 16 * 1024 * 1024

/-- `POMCNID` and the digit of the version. -/
def magic (version : Octet) : Bytes := [0x50, 0x4F, 0x4D, 0x43, 0x4E, 0x49, 0x44, version]

def checksum (bytes : Bytes) : Nat :=
  (bytes.foldl (fun hash c => (hash ^^^ c.setWidth 32) * 16777619#32) 2166136261#32).toNat

/-! ## Writing -/

def headerBytes (c : Catalog) : Bytes :=
  magic 0x34 ++ bigEndian 4 c.nextId ++ bigEndian 4 (c.pathToId.size - 1)

def recordBytes (path : Path) (id : Nat) (identity : Bytes) : Bytes :=
  bigEndian 4 id ++ bigEndian 4 path.length ++ path ++ (bigEndian 4 identity.length ++ identity)

def journalFlags (c : Catalog) : Nat :=
  (if c.pendingSidecar then 1 else 0) + (if c.pendingDelete then 2 else 0)

def journalBytes (c : Catalog) : Bytes :=
  bigEndian 4 c.pendingSource.length ++ c.pendingSource ++
    (bigEndian 4 c.pendingDestination.length ++ c.pendingDestination ++
      bigEndian 4 (journalFlags c))

/-- The bytes with their checksum behind them. -/
def sealed (payload : Bytes) : Bytes := payload ++ bigEndian 4 (checksum payload)

/-! ## Reading -/

/-- A reader takes what it reads off the front. -/
abbrev Reading := Program Bytes CatalogError

def take (n : Nat) : Reading Bytes := do
  let rest ← get
  set (rest.drop n)
  pure (rest.take n)

def read32 : Reading Nat := do
  if (← get).length < 4 then throw .truncated
  else return number (← take 4)

/-- A number and its path. -/
def readEntry (c : Catalog) : Reading (Nat × Path) := do
  let id ← read32
  let length ← read32
  if id < 16 ∨ c.nextId ≤ id ∨ (← get).length < length then throw .badRecord
  else
    let rel ← take length
    if validCatalogPath rel = false ∨ id ∈ c.idToPath ∨ rel ∈ c.pathToId then throw .badIdentity
    else return (id, rel)

def readIdentity : Reading Bytes := do
  let size ← read32
  if size = 0 ∨ 256 < size ∨ (← get).length < size then throw .badHostIdentityLength
  else
    let identity ← take size
    if identity.all identityChar then return identity else throw .badHostIdentity

def Catalog.enter (c : Catalog) (id : Nat) (rel : Path) : Catalog :=
  { c with idToPath := c.idToPath.insert id rel, pathToId := c.pathToId.insert rel id }

def readRecord (identities : Bool) (c : Catalog) : Reading Catalog := do
  let (id, rel) ← readEntry c
  if identities then return (c.enter id rel).bind id (← readIdentity)
  else return c.enter id rel

def readRecords (identities : Bool) : Nat → Catalog → Reading Catalog
  | 0, c => pure c
  | count + 1, c => do
      let c ← readRecord identities c
      readRecords identities count c

def readPath : Reading Path := do
  let length ← read32
  if (← get).length < length then throw .truncatedJournal
  else take length

/-- What the pending operation must be for the reader to take it. -/
def journalValid (deletion : Bool) (c : Catalog) (source destination : Path) (flags : Nat) : Bool :=
  flags ≤ (if deletion then 3 else 1) ∧
    (source = [] → destination = [] ∧ flags = 0) ∧
    (source ≠ [] → validCatalogPath source = true ∧ source ∈ c.pathToId ∧
      if flags.testBit 1 then destination = []
      else validCatalogPath destination = true ∧ source ≠ destination)

def readJournal (deletion : Bool) (c : Catalog) : Reading Catalog := do
  let source ← readPath
  let destination ← readPath
  let flags ← read32
  if journalValid deletion c source destination flags then
    return c.pend source destination (flags.testBit 0) (flags.testBit 1)
  else throw .badJournal

/-- The first version has no pending operation. -/
def readPending (version : Octet) (c : Catalog) : Reading Catalog :=
  if version = 0x31#8 then pure c else readJournal (version = 0x34#8 ∨ version = 0x33#8) c

/-- The file behind its first eight bytes. Each version has what the ones before it have. -/
def readFile (version : Octet) (bytes : Bytes) : Reading Catalog := do
  let next ← read32
  let count ← read32
  if next < 16 ∨ (bytes.length - 20) / 9 < count then throw .badHeader
  else
    let c ← readRecords (version = 0x34#8) count { Catalog.initial with nextId := next }
    let c ← readPending version c
    let payload := bytes.take (bytes.length - (← get).length)
    let stored ← read32
    if (← get) ≠ [] ∨ checksum payload ≠ stored then throw .checksumMismatch else pure c

def parseCatalog (bytes : Bytes) : Except CatalogError Catalog :=
  if bytes.length < 20 ∨ maxCatalogBytes < bytes.length then throw .badSize
  else
    match [0x34#8, 0x33#8, 0x32#8, 0x31#8].find? fun version => bytes.take 8 = magic version with
    | none => throw .unknownFormat
    | some version => ((readFile version bytes).exec (bytes.drop 8)).1

end Pom68k.Afp
