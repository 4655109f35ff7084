import Pom68k.Disk.Journal

/-! # The timeline of a disk

The timeline says which disk content a save state belongs to. It keeps the digest of
the image, the bytes every block had before its first write since the image was
attached, and, with write-back, a reverse journal in a file beside the image. A
restore is planned before anything is written: the plan either lands on the digest
of the state or is refused.
-/

namespace Pom68k.Disk

open Foundation

/-- What the host does with the journal file while a medium is attached: whether the
existing file can be opened, a new one created and its header written (a failed write
leaves the first bytes), a torn tail cut off and the file opened again, and a
compacted file put in its place and opened. -/
structure JournalHost where
  opens : Bool := true
  creates : Bool := true
  header : Option Nat := none
  resizes : Bool := true
  reopens : Bool := true
  replaces : Bool := true
  opensCompacted : Bool := true

/-- A timeline: `attached` is a block size other than zero, `dirty` the log since
attach with its bitmap, `journal` an open journal file, and `epochBits` the blocks
recorded since the last epoch. `file` is the content of the journal file on the host,
which outlives the process. -/
structure Timeline (g : Geometry) where
  attached : Bool := false
  digest : BitVec 64 := 0#64
  stale : Bool := false
  dirty : OnceLog g.blocks (Block g.blockSize) := .empty
  loadOrder : List (Fin g.blocks) := []
  name : String := ""
  journalPath : String := ""
  journal : Bool := false
  epochBits : Bitmap := .empty
  journalCap : Nat := 256 * 2 ^ 20
  file : Option (List Byte) := none

namespace Timeline

variable {g : Geometry}

/-- `dirtyList_`: the blocks written since attach, in the order of their first write. -/
def dirtyList (t : Timeline g) : List (Fin g.blocks) := t.dirty.entries.map Prod.fst

/-- `pristine_`: one slot for each of them, with its bytes at attach. -/
def pristine (t : Timeline g) : List (Block g.blockSize) := t.dirty.entries.map Prod.snd

def detach (t : Timeline g) : Timeline g :=
  { t with
    attached := false, digest := 0#64, stale := false, dirty := .empty, journalPath := "",
    journal := false, epochBits := .empty }

/-- `fullDigest`: a detached timeline has no blocks. -/
def fullDigest (t : Timeline g) (image : Image g) : BitVec 64 :=
  if t.attached then imageDigest image else 0#64

/-- The effect of `digest`: a stale digest is computed again. -/
def freshen (t : Timeline g) (image : Image g) : Timeline g :=
  if t.stale then { t with digest := t.fullDigest image, stale := false } else t

def imageTouched (t : Timeline g) : Timeline g := { t with stale := true }

/-- Appends to the journal file. A failed write leaves the first bytes behind and the
journal is dropped. -/
def append (t : Timeline g) (bytes : List Byte) (landed : Option Nat) : Timeline g :=
  match landed with
  | none => { t with file := t.file.map (· ++ bytes) }
  | some n => { t with file := t.file.map (· ++ bytes.take n), journal := false }

/-- The journal's part of `willWrite`: one record for each block and epoch. -/
def recordOld (t : Timeline g) (lba : Fin g.blocks) (cur : Block g.blockSize)
    (landed : Option Nat) : Timeline g :=
  if t.journal && !t.epochBits.test lba then
    { t with epochBits := t.epochBits.set lba }.append (Record.block lba cur).bytes landed
  else t

/-- `willWrite` for a block of the image. -/
def logWrite (t : Timeline g) (lba : Fin g.blocks) (cur next : Block g.blockSize)
    (landed : Option Nat) : Timeline g :=
  let t := { t with dirty := t.dirty.add (lba, cur) }.recordOld lba cur landed
  if t.stale then t
  else { t with digest := t.digest ^^^ (blockHash lba cur.1 ^^^ blockHash lba next.1) }

def willWrite (t : Timeline g) (lba : Nat) (cur next : Block g.blockSize)
    (landed : Option Nat) : Timeline g :=
  if inside : t.attached = true ∧ lba < g.blocks then t.logWrite ⟨lba, inside.2⟩ cur next landed
  else t

/-- A journal started over. -/
def newJournal (t : Timeline g) (host : JournalHost) : Timeline g :=
  if host.creates then
    match host.header with
    | none => { t with file := some (header g), journal := true }
    | some n => { t with file := some ((header g).take n), journal := false }
  else { t with journal := false }

/-- `compactJournal` on the whole records of the file. -/
def compactJournal (t : Timeline g) (host : JournalHost) (file : List Byte) : Timeline g :=
  { t with
    file := some (if host.replaces then compacted g t.journalCap file else file)
    journal := host.opensCompacted }

/-- `openJournal` on a journal of this geometry: a torn tail is cut off, and an
oversized history is compacted. -/
def resumeJournal (t : Timeline g) (host : JournalHost) (file : List Byte) : Timeline g :=
  let stop := (walkJournal g file).2
  if stop ≠ file.length ∧ ¬ (host.resizes = true ∧ host.reopens = true) then
    { t with file := some (if host.resizes then file.take stop else file), journal := false }
  else if t.journalCap < stop then t.compactJournal host (file.take stop)
  else { t with file := some (file.take stop), journal := true }

def openJournal (t : Timeline g) (host : JournalHost) : Timeline g :=
  match t.file with
  | some file =>
    if host.opens ∧ headerSize ≤ file.length ∧ file.take headerSize = header g then
      t.resumeJournal host file
    else t.newJournal host
  | none => t.newJournal host

def attach (t : Timeline g) (image : Image g) (journalPath name : String)
    (host : JournalHost) : Timeline g :=
  let t := { t.detach with
    name := name, attached := true, digest := imageDigest image, journalPath := journalPath }
  if journalPath = "" then t else t.openJournal host

def journalEpoch (t : Timeline g) (d : BitVec 64) (landed : Option Nat) : Timeline g :=
  if t.journal then
    match landed with
    | none =>
      { t.append (Record.epoch d : Record g).bytes none with epochBits := .empty }
    | some n => t.append (Record.epoch d : Record g).bytes (some n)
  else t

/-- `journalCandidate` for the file at the journal's path. -/
def journalCandidate (t : Timeline g) (target : BitVec 64) : Option (BlockMap g) :=
  if t.journalPath = "" then none else t.file.bind (journalMap g target)

/-- What the next process finds when this one ends: the journal file, with the bytes of
a record that was being appended. -/
def ended (t : Timeline g) (torn : List Byte) : Timeline g :=
  { file := if t.journal then t.file.map (· ++ torn) else t.file }

/-! ## Save and restore -/

/-- The bytes of the blocks written since attach. -/
def savedBlocks (image : Image g) (blocks : List (Fin g.blocks)) : List Byte :=
  blocks.flatMap fun lba => putBytes 4 (BitVec.ofNat 32 lba.val) ++ (image lba).1

/-- The bytes `save` writes. -/
def chunk (t : Timeline g) (image : Image g) : List Byte :=
  if t.attached then
    putBytes 4 (BitVec.ofNat 32 g.blockSize) ++ (putBytes 4 (BitVec.ofNat 32 g.blocks) ++
      (varintBytes (BitVec.ofNat 64 t.dirtyList.length) ++ (savedBlocks image t.dirtyList ++
        putBytes 8 (t.freshen image).digest)))
  else putBytes 4 0#32 ++ putBytes 4 0#32

/-- What `save` does to the timeline. -/
def save (t : Timeline g) (image : Image g) (landed : Option Nat) : Timeline g :=
  if t.attached then (t.freshen image).journalEpoch (t.freshen image).digest landed else t

/-- What a state records about a disk: nothing was attached, or the blocks written and
the digest. -/
inductive Recorded (g : Geometry) where
  | refused
  | noMedium
  | medium (snap : OnceLog g.blocks (Block g.blockSize)) (target : BitVec 64)

/-- The loop of `load` over the state's blocks. A block number outside the image, or
one that comes twice, is refused. -/
def readBlocks : Nat → OnceLog g.blocks (Block g.blockSize) → Reader →
    Option (OnceLog g.blocks (Block g.blockSize)) × Reader
  | 0, snap, r => (some snap, r)
  | count + 1, snap, r =>
    match r.word 32 4 with
    | (lba, r') =>
      match r'.bytes g.blockSize with
      | (bytes, r'') =>
        if inside : r''.ok = true ∧ lba.toNat < g.blocks then
          if snap.bits.test lba.toNat then (none, r''.fail)
          else readBlocks count (snap.add (⟨lba.toNat, inside.2⟩, bytes)) r''
        else (none, r''.fail)

/-- The part of `load` after the geometry. -/
def parseBlocks (r : Reader) : Recorded g × Reader :=
  match r.varint with
  | (count, r) =>
    if r.ok = false ∨ g.blocks < count.toNat then (.refused, r.fail)
    else
      match readBlocks count.toNat .empty r with
      | (none, r) => (.refused, r)
      | (some snap, r) =>
        match r.word 64 8 with
        | (target, r) => if r.ok = false then (.refused, r) else (.medium snap target, r)

/-- The part of `load` that reads the state. -/
def parse (t : Timeline g) (r : Reader) : Recorded g × Reader :=
  match r.word 32 4 with
  | (bs, r) =>
    match r.word 32 4 with
    | (n, r) =>
      if r.ok = false then (.refused, r)
      else if bs = 0#32 then (.noMedium, r)
      else if t.attached = false then
        (.refused, r.failWith "the state has a disk where this machine has none")
      else if bs.toNat ≠ g.blockSize ∨ n.toNat ≠ g.blocks then
        (.refused, r.failWith ("disk " ++ t.name ++
          ": the attached image has another size than the state's"))
      else parseBlocks r

/-- The digest the image would have after some writes, for a digest that is not stale. -/
def digestAfter (t : Timeline g) (image : Image g) (writes : BlockMap g) : BitVec 64 :=
  writes.foldl (fun d w => d ^^^ swapDigest image w.1 w.2) t.digest

/-- The first candidate: the image as attached, plus the blocks of the state. -/
def logCandidate (t : Timeline g) (snap : OnceLog g.blocks (Block g.blockSize)) : BlockMap g :=
  (t.dirty.entries.filter fun e => !snap.bits.test e.1) ++ snap.entries

/-- The candidate `load` settles on, the log before the journal. -/
def chooseMap (t : Timeline g) (image : Image g) (snap : OnceLog g.blocks (Block g.blockSize))
    (target : BitVec 64) : Option (BlockMap g) :=
  if t.digestAfter image (t.logCandidate snap) = target then some (t.logCandidate snap)
  else (t.journalCandidate target).filter fun m => t.digestAfter image m = target

/-- The reason of a refusal by content. -/
def contentDiffers (t : Timeline g) : String :=
  "disk " ++ t.name ++ ": " ++
    if t.journalPath = "" then
      "its content differs from the state's (the image changed after the state was saved)"
    else
      "its content differs from the state's and its journal cannot rewind it (" ++
        t.journalPath ++ ")"

/-- What `load` leaves: the timeline, the reader and the blocks to write. -/
structure Loaded (g : Geometry) where
  timeline : Timeline g
  reader : Reader
  plan : BlockMap g

def load (t : Timeline g) (image : Image g) (r : Reader) : Loaded g :=
  match t.parse r with
  | (.refused, r) => ⟨t, r, []⟩
  | (.noMedium, r) => ⟨t, r, []⟩
  | (.medium snap target, r) =>
    let t := { t with loadOrder := snap.entries.map Prod.fst }.freshen image
    match t.chooseMap image snap target with
    | none => ⟨t, r.failWith t.contentDiffers, []⟩
    | some m => ⟨t, r, m.filter fun w => image w.1 ≠ w.2⟩

/-- The content of a block when the image was attached: its slot of the log, or the
image if it was never written. -/
def opened (t : Timeline g) (image : Image g) (lba : Fin g.blocks) : Block g.blockSize :=
  match t.dirty.entries.reverse.find? fun e => e.1 = lba with
  | some e => e.2
  | none => image lba

/-- `commitLoad`: the log in the order of the state, then the blocks it does not have
that still differ from their content at attach. -/
def commitLoad (t : Timeline g) (image : Image g) : Timeline g :=
  if t.attached then
    { t with
      dirty := (OnceLog.empty.addAll (t.loadOrder.map fun lba => (lba, t.opened image lba))).addAll
        (t.dirty.entries.filter fun e => e.2 ≠ image e.1)
      loadOrder := [] }
  else t

end Timeline

end Pom68k.Disk
