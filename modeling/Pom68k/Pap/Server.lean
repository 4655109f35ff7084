import Pom68k.Atalk.Stack

/-! # The printer

A printer for one connection at a time. It pulls a job by asking its client for data, one request
after the other, answers the queries it finds in the job, and hands the job over when the client
has said that it is at its end.

The answer to a request comes with no word of the connection it was made for. The connections are
numbered here so that one can speak of it, and what happens is written down in a log; the server
itself reads neither.
-/

namespace Pom68k.Pap

open Atalk (Addr Octet Packet)

def kPapSock : Octet := 131#8

def kOpen : Octet := 1#8
def kOpenReply : Octet := 2#8
def kRead : Octet := 3#8
def kData : Octet := 4#8
def kTickle : Octet := 5#8
def kClose : Octet := 6#8
def kCloseReply : Octet := 7#8
def kSendStatus : Octet := 8#8
def kStatus : Octet := 9#8

def kMaxData : Nat := 512

def text (s : String) : List Octet := s.toList.map fun c => BitVec.ofNat 8 c.toNat

/-- A text with its length in front, cut off where the length no longer counts it. -/
def statusStr (s : List Octet) : List Octet := BitVec.ofNat 8 (min s.length 255) :: s.take 255

/-! ## Queues of the host -/

inductive DestinationKind where
  | cupsDefault
  | cupsQueue
  | file
  deriving DecidableEq, Repr

inductive QueuePhase where
  | unknown
  | idle
  | processing
  | stopped
  deriving DecidableEq, Repr

structure QueueState where
  phase : QueuePhase := .unknown
  accepting : Bool := false
  reason : List Octet := []
  deriving DecidableEq, Repr

/-- What is known of the host's queues. -/
structure QueueView where
  polled : Bool := false
  cups : Bool := false
  activeQueue : List Octet := []
  state : QueueState := {}
  deriving DecidableEq, Repr

def papStatusLine (queue : List Octet) (st : QueueState) : List Octet :=
  let quoted := text "\"" ++ queue ++ text "\""
  if st.phase = .unknown then text "status: busy; info: " ++ quoted ++ text " appears to be offline."
  else
    let line :=
      if ¬ st.accepting ∧ st.phase ≠ .processing then
        text "status: busy; info: " ++ quoted ++ text " is rejecting jobs; "
      else if st.phase = .stopped then
        text "status: idle; info: " ++ quoted ++ text " is stopped, accepting jobs ; "
      else if st.phase = .processing then
        text "status: busy; info: " ++ quoted ++ text " is processing a job ; "
      else text "status: idle; info: " ++ quoted ++ text " is ready ; "
    (line ++ st.reason).take 255

/-! ## The server -/

/-- A transaction of a client, by a number of its own. -/
structure Txn where
  number : Nat
  src : Addr
  req : Packet
  deriving DecidableEq

inductive Happening where
  | responded (txn : Nat) (pkts : List Packet)
  | tickled (client : Addr) (req : Packet)
  | opened (serial : Nat)
  /-- A request for data of a connection. -/
  | asked (read serial : Nat) (client : Addr) (req : Packet)
  /-- What a client returned to such a request, and whether it was the end. -/
  | returned (serial : Nat) (data : List Octet) (eof : Bool)
  | spooled (serial : Nat) (job : List Octet)
  deriving DecidableEq

structure Server where
  enabled : Bool := false
  isOpen : Bool := false
  connId : Octet := 0#8
  client : Addr := {}
  seq : BitVec 16 := 0#16
  readInFlight : Bool := false
  eofSeen : Bool := false
  job : List Octet := []
  scanned : Nat := 0
  answers : List Octet := []
  pendingClientRead : Option Nat := none
  lastHeard : Int := 0
  nextTickle : Int := 0
  dest : DestinationKind := .cupsDefault
  view : QueueView := {}
  now : Int := 0
  cpuHz : Int
  /-- The number of the connection that was opened last. -/
  serial : Nat := 0
  /-- Requests for data that have not ended, with the connections they were made for. -/
  reads : List (Nat × Nat) := []
  nextRead : Nat := 0
  log : List Happening := []

namespace Server

variable (s : Server)

def note (happening : Happening) : Server := { s with log := s.log ++ [happening] }

def statusLine : List Octet :=
  if s.isOpen then text "status: busy; source: AppleTalk"
  else if s.dest = .file then text "status: idle"
  else if ¬ s.view.polled ∨ s.view.activeQueue = [] ∨ (s.dest = .cupsDefault ∧ ¬ s.view.cups) then
    text "status: idle"
  else papStatusLine s.view.activeQueue s.view.state

def refusesJobs : Bool :=
  if s.dest = .file then false
  else if ¬ s.view.polled ∨ s.view.activeQueue = [] ∨ (s.dest = .cupsDefault ∧ ¬ s.view.cups) then
    false
  else s.view.state.phase = .unknown ∨ (¬ s.view.state.accepting ∧ s.view.state.phase ≠ .processing)

/-- A read of the client that was put off is answered before it is dropped. -/
def releaseClientRead : Server :=
  match s.pendingClientRead with
  | none => s
  | some t => { s with pendingClientRead := none }.note (.responded t [[s.connId, kData, 1, 0]])

def setEnabled (on : Bool) : Server :=
  if on = s.enabled then s
  else if on then { s with enabled := true }
  else { s with enabled := false, isOpen := false }.releaseClientRead

/-! ### Queries -/

def isEol (c : Octet) : Bool := c = 0x0A#8 ∨ c = 0x0D#8

def isQuery (line : List Octet) : Bool := line.length > 8 ∧ line.take 8 = text "%%?Begin"

/-- How far the complete lines reach, and what is answered to them. -/
def scanLines (line : List Octet) : List Octet → Nat × List Octet
  | [] => (0, [])
  | c :: rest =>
    if isEol c then
      let (reach, answers) := scanLines [] rest
      (line.length + 1 + reach, (if isQuery line then text "*\r" else []) ++ answers)
    else scanLines (line ++ [c]) rest

def scanQueries : Server :=
  let (reach, answers) := scanLines [] (s.job.drop s.scanned)
  { s with scanned := s.scanned + reach, answers := s.answers ++ answers }

/-- Up to so many packets of answers, and the answers that are left. -/
def answerPackets (connId : Octet) : Nat → List Octet → List Packet × List Octet
  | 0, answers => ([], answers)
  | _ + 1, [] => ([], [])
  | count + 1, answers =>
    let (pkts, left) := answerPackets connId count (answers.drop kMaxData)
    (([connId, kData, 0, 0] ++ answers.take kMaxData) :: pkts, left)

/-- The third octet of the last packet says that it is the end. -/
def markEnd (pkts : List Packet) : List Packet :=
  pkts.dropLast ++ (pkts.getLast?.map fun p => p.set 2 1).toList

def flushClientRead : Server :=
  match s.pendingClientRead with
  | none => s
  | some t =>
    if s.answers = [] ∧ ¬ s.eofSeen then s
    else
      let (pkts, left) := answerPackets s.connId 8 s.answers
      let pkts :=
        if pkts = [] then [[s.connId, kData, 1, 0]]
        else if s.eofSeen ∧ left = [] then markEnd pkts
        else pkts
      { s with pendingClientRead := none, answers := left }.note (.responded t pkts)

/-! ### The job -/

def finishJob : Server :=
  if s.job = [] then s
  else { s with job := [], scanned := 0 }.note (.spooled s.serial s.job)

def issueRead : Server :=
  if ¬ s.isOpen ∨ s.readInFlight ∨ s.eofSeen then s
  else
    let seq := s.seq + 1
    { s with
      readInFlight := true
      seq := seq
      reads := s.reads ++ [(s.nextRead, s.serial)]
      nextRead := s.nextRead + 1 }.note
        (.asked s.nextRead s.serial s.client ([s.connId, kRead] ++ Atalk.put16 seq))

/-- What the packets of an answer hold behind their user bytes. -/
def dataOf (pkts : List Packet) : List Octet := pkts.flatMap fun p => p.drop 4

def isEof (pkts : List Packet) : Bool := pkts.any fun p => p.length ≥ 3 ∧ p[2]? ≠ some 0

/-- Data for the connection that is open. -/
def received (pkts : List Packet) : Server :=
  let s := { s with lastHeard := s.now, job := s.job ++ dataOf pkts }.scanQueries.flushClientRead
  if isEof pkts then { s with eofSeen := true }.finishJob.flushClientRead
  else s.issueRead

/-- The end of a request for data, with or without an answer. -/
def readDone (ok : Bool) (pkts : List Packet) : Server :=
  let s := { s with readInFlight := false }
  if ¬ s.isOpen then s
  else if ¬ ok then { s with isOpen := false }.releaseClientRead
  else s.received pkts

/-! ### What a client asks for -/

def isBusy (cid : Octet) : Bool := (s.isOpen ∧ cid ≠ s.connId) ∨ (¬ s.isOpen ∧ s.refusesJobs)

def openReply (cid : Octet) : Packet :=
  let mark : Octet := if s.isBusy cid then 0xFF else 0
  [cid, kOpenReply, mark, mark, kPapSock, 8, mark, mark] ++
    statusStr (if s.isOpen ∧ cid ≠ s.connId then text "status: busy" else s.statusLine)

/-- The new connection, with nothing left of the one before. -/
def opened (cid : Octet) (src : Addr) (sock : Octet) : Server :=
  { s with
    isOpen := true
    connId := cid
    client := { src with sock := sock }
    seq := 0
    readInFlight := false
    eofSeen := false
    job := []
    scanned := 0
    answers := []
    serial := s.serial + 1 }.note (.opened (s.serial + 1))

def openConn (cid : Octet) (t : Txn) (sock : Octet) : Server :=
  let replied := s.note (.responded t.number [s.openReply cid])
  if s.isBusy cid then replied
  else
    { (replied.opened cid t.src sock).releaseClientRead with
      lastHeard := s.now
      nextTickle := s.now + 60 * s.cpuHz }.issueRead

def closeConn (cid : Octet) (t : Txn) : Server :=
  let replied := s.note (.responded t.number [[cid, kCloseReply, 0, 0]])
  if s.isOpen ∧ cid = s.connId then
    -- the client left before the end of its job
    let s := if s.job ≠ [] ∧ ¬ s.eofSeen then replied.finishJob else replied
    { s with isOpen := false }.releaseClientRead
  else replied

def papHandler (t : Txn) : Server :=
  match t.req with
  | cid :: func :: _ :: _ :: data =>
    if ¬ s.enabled then s
    else if func = kOpen then
      match data with
      | sock :: _ :: _ => s.openConn cid t sock
      | _ => s
    else if func = kRead then
      if ¬ s.isOpen ∨ cid ≠ s.connId then s
      else { s with lastHeard := s.now, pendingClientRead := some t.number }.flushClientRead
    else if func = kSendStatus then
      s.note (.responded t.number [[0, kStatus, 0, 0, 0, 0, 0, 0] ++ statusStr s.statusLine])
    else if func = kClose then s.closeConn cid t
    else if func = kTickle then
      if s.isOpen ∧ cid = s.connId then { s with lastHeard := s.now } else s
    else s
  | _ => s

def tick (now : Int) : Server :=
  let s := { s with now := now }
  if ¬ s.enabled ∨ ¬ s.isOpen then s
  else if now - s.lastHeard > 120 * s.cpuHz then { s with isOpen := false }.releaseClientRead
  else if now ≥ s.nextTickle then
    { s with nextTickle := now + 60 * s.cpuHz }.note (.tickled s.client [s.connId, kTickle, 0, 0])
  else s

end Server

inductive Event where
  | setEnabled (on : Bool)
  | setDestination (dest : DestinationKind)
  | polled (view : QueueView)
  | request (t : Txn)
  | completed (read : Nat) (ok : Bool) (pkts : List Packet)
  | tick (now : Int)

/-- One event. A request for data that has ended is no longer there to end again. -/
def step (s : Server) : Event → Server
  | .setEnabled on => s.setEnabled on
  | .setDestination dest => { s with dest := dest }
  | .polled view => { s with view := view }
  | .request t => s.papHandler t
  | .completed read ok pkts =>
    match s.reads.find? fun entry => entry.1 = read with
    | none => s
    | some (_, serial) =>
      let s := { s with reads := s.reads.filter fun entry => entry.1 ≠ read }
      let s :=
        if ok then s.note (.returned serial (Server.dataOf pkts) (Server.isEof pkts)) else s
      s.readDone ok pkts
  | .tick now => s.tick now

end Pom68k.Pap
