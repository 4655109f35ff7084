import Pom68k.Disk.Archive

/-! # What the SCSI controllers drive

The targets on the bus are machine-owned objects behind an interface; what they answer is
theirs. In front of them sits the guest agent's mailbox: two vendor commands are answered
by it, whatever target is selected.
-/

namespace Pom68k.Scsi

open Disk (Byte)

/-- The length of a command descriptor block, from its group code. -/
def cdbLength (op : Byte) : Nat :=
  match (op >>> 5).toNat with
  | 0 => 6
  | 1 | 2 => 10
  | 5 => 12
  | _ => 6

/-- A command descriptor block of the length its group code asks for. -/
def whole : List Byte → Bool
  | [] => false
  | op :: rest => cdbLength op ≤ rest.length + 1

/-- What a command comes back with: a status byte, the bytes for the initiator, and the
device after it. -/
structure Answer (δ : Type) where
  status : Byte
  data : List Byte
  device : δ

/-- `ScsiTarget`: what a controller may ask of the targets. `δ` is the state of all of
them; each is told apart by a number that stands for its address. -/
structure Targets (δ : Type) where
  present : δ → Nat → Bool
  selectLun : δ → Nat → Byte → δ
  writeByteCount : δ → Nat → List Byte → Int
  extendDataOut : δ → Nat → List Byte → List Byte → Nat → Nat
  command : δ → Nat → List Byte → List Byte → Answer δ

/-- `ScsiTarget::kNoIdentify`. -/
def kNoIdentify : Byte := 0xFF

/-! ## The agent's mailbox -/

/-- `ScsiAgentMailbox`, with the snapshot it keeps. -/
structure Mailbox where
  polls : BitVec 32 := 0
  pending : Bool := false
  pendingKind : Byte := 0
  pendingId : Byte := 0
  lastKind : Byte := 0
  lastId : Byte := 0
  lastErr : BitVec 16 := 0
  lastDrive : Nat := 0
  lastText : List Byte := []
  reported : Bool := false
  seq : Byte := 0
deriving DecidableEq

namespace Mailbox

def kPoll : Byte := 0xC0

def kReport : Byte := 0xC1

def kPayload : Nat := 64

/-- `ScsiAgentMailbox::handles`. -/
def handles (cdb : List Byte) : Bool :=
  decide (6 ≤ cdb.length) && (cdb.head? == some kPoll || cdb.head? == some kReport)

/-- `ScsiAgentMailbox::writeByteCount`. -/
def writeByteCount (cdb : List Byte) : Int :=
  if 6 ≤ cdb.length ∧ cdb.head? = some kReport then (cdb.getD 4 0).toNat else 0

/-- `ScsiAgentMailbox::post`. The sequence number skips zero. -/
def post (m : Mailbox) (kind : Byte) (id : Byte) : Mailbox :=
  { m with
    pending := true
    pendingKind := kind
    pendingId := id
    seq := if m.seq + 1 = 0 then 1 else m.seq + 1 }

/-- The page a poll is answered with. -/
def page (m : Mailbox) : List Byte :=
  [0x50, 0x4F, 0x4D, 0x41, 1, if m.pending then m.pendingKind else 0,
    if m.pending then m.pendingId else 0, if m.pending then m.seq else 0] ++
    List.replicate (kPayload - 8) 0

/-- A report that has the mark of the agent is taken down. -/
def take (m : Mailbox) (report : List Byte) : Mailbox :=
  { m with
    reported := true
    lastKind := report.getD 5 0
    lastId := report.getD 6 0
    lastErr := (report.getD 8 0).setWidth 16 <<< 8 ||| (report.getD 9 0).setWidth 16
    lastDrive := (report.getD 10 0).toNat * 256 + (report.getD 11 0).toNat
    lastText := (report.drop 13).take (report.getD 12 0).toNat
    pending := m.pending && report.getD 7 0 != m.seq }

/-- `ScsiAgentMailbox::command`. -/
def command (m : Mailbox) (cdb : List Byte) (payload : List Byte) : Answer Mailbox :=
  if handles cdb = false then ⟨0x02, [], m⟩
  else if cdb.head? = some kPoll then
    let alloc := if cdb.getD 4 0 = 0 then kPayload else (cdb.getD 4 0).toNat
    ⟨0x00, m.page.take alloc, { m with polls := m.polls + 1 }⟩
  else if payload.length < 12 ∨ payload.take 4 ≠ [0x50, 0x4F, 0x4D, 0x52] then ⟨0x02, [], m⟩
  else ⟨0x00, [], m.take payload⟩

end Mailbox

/-! ## A command given to a target -/

/-- What the model writes down when a controller has a command carried out: the descriptor
block and whether it holds a byte the controller made itself, the payload handed over and
the bytes the processor had supplied for it. -/
structure Call where
  cdb : List Byte
  tainted : Bool
  payload : List Byte
  given : List Byte
deriving DecidableEq

namespace Sample

/-- Targets that are there, take so many bytes for a command, and answer with a good status
and so many of their own. -/
def targets (count : Int) (reply : List Byte) : Targets Unit where
  present _ _ := true
  selectLun _ _ _ := ()
  writeByteCount _ _ _ := count
  extendDataOut _ _ _ _ expected := expected
  command _ _ _ _ := ⟨0, reply, ()⟩

end Sample

end Pom68k.Scsi
