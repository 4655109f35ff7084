import Mathlib.Algebra.Group.Int.Defs
import Pom68k.MacIp.Packet

/-! # TCP connections of the gateway

The endpoint that faces the guest: it acknowledges in-order data, keeps what the host sent
until the guest has acknowledged it, and repeats the oldest of it on a timer. The host side
is a socket; what its calls return is not up to the gateway.
-/

namespace Pom68k.MacIp

open Foundation

def kMss : Nat := 536

inductive ConnState where
  | connecting | established | dead
deriving DecidableEq

structure TcpConn where
  gIp : BitVec 32
  rIp : BitVec 32
  gPort : BitVec 16
  rPort : BitVec 16
  state : ConnState := .connecting
  isn : BitVec 32
  sndSeq : BitVec 32
  sndUna : BitVec 32
  rcvNxt : BitVec 32
  guestWin : Nat
  synAcked : Bool := false
  guestFin : Bool := false
  finSent : Bool := false
  sockEof : Bool := false
  toHost : List Octet := []
  unacked : List Octet := []
  rtxTimer : Int
  rtxCount : Nat := 0
  lastAct : Int
deriving DecidableEq

/-- A segment for the guest. -/
structure Segment where
  flags : Octet
  seq : BitVec 32
  ack : BitVec 32
  data : List Octet
deriving DecidableEq

/-- A segment of the guest, with the shifts its window-scale options ask for. -/
structure GuestSegment where
  gIp : BitVec 32
  rIp : BitVec 32
  gPort : BitVec 16
  rPort : BitVec 16
  seq : BitVec 32
  ack : BitVec 32
  flags : Octet
  window : BitVec 16
  payload : List Octet
  scales : List Octet := []
deriving DecidableEq

/-- The cycle counter of the machine and the rate it runs at. -/
structure Clock where
  now : Int
  cpuHz : Int

/-- A flag of a segment: FIN 1, SYN 2, RST 4, ACK 16. -/
def flag (flags mask : Octet) : Bool := flags &&& mask ≠ 0#8

/-- What a step of a connection does outside: segments for the guest, octets written to and
read from the socket, and its shutdown. -/
structure TcpOut where
  segments : List Segment := []
  written : List Octet := []
  received : List Octet := []
  shut : Bool := false

instance : Append TcpOut where
  append a b :=
    ⟨a.segments ++ b.segments, a.written ++ b.written, a.received ++ b.received, a.shut || b.shut⟩

/-! ## What the socket calls return -/

inductive ConnectResult where
  | connected | pending | failed

inductive SendResult where
  | wrote (n : Nat) | again | interrupted | failed

/-- What `recv` finds: some octets, of which it takes as many as there is room for, the end
of the stream, or an error. -/
inductive RecvResult where
  | data (first : Octet) (rest : List Octet) | eof | again | interrupted | failed

/-- The results of the calls of one pump, in order. Where a list ends the call would block. -/
structure PumpHost where
  connect : ConnectResult := .pending
  sends : List SendResult := []
  recvs : List RecvResult := []

namespace TcpConn

/-- `sendTcpSeg`. -/
def segment (c : TcpConn) (flags : Octet) (seq : BitVec 32) (data : List Octet) : Segment :=
  ⟨flags, seq, if flag flags 0x10#8 then c.rcvNxt else 0#32, data⟩

def sendTcpSeg (c : TcpConn) (flags : Octet) (seq : BitVec 32) (data : List Octet) : TcpOut :=
  { segments := [c.segment flags seq data] }

/-- The connection is over, with a reset for the guest or without. -/
def dropTcp (c : TcpConn) (rst : Bool) : TcpConn × TcpOut :=
  ({ c with state := .dead }, if rst then c.sendTcpSeg 0x14#8 c.sndSeq [] else {})

/-- A stage after another; a connection that was dropped goes no further. -/
def andThen (r : TcpConn × TcpOut) (stage : TcpConn → TcpConn × TcpOut) : TcpConn × TcpOut :=
  if r.1.state = .dead then r else ((stage r.1).1, r.2 ++ (stage r.1).2)

/-! ## Segments of the guest -/

/-- The connection a SYN opens. -/
def opened (seg : GuestSegment) (isn : BitVec 32) (clock : Clock) : TcpConn :=
  { gIp := seg.gIp, rIp := seg.rIp, gPort := seg.gPort, rPort := seg.rPort
    isn := isn, sndSeq := isn, sndUna := isn
    rcvNxt := seg.seq + 1#32
    guestWin := seg.window.toNat
    lastAct := clock.now
    rtxTimer := clock.now + 15 * clock.cpuHz }

theorem sub_succ_lt {una seq : BitVec 32} (behind : una ≠ seq) :
    (seq - (una + 1#32)).toNat < (seq - una).toNat := by
  bv_omega

/-- The acknowledgement loop: the SYN, then data, then the FIN. -/
def ackLoop (c : TcpConn) (ack : BitVec 32) : TcpConn :=
  if seqLt c.sndUna ack ∧ seqLt c.sndUna (c.sndSeq + 1#32) then
    if c.synAcked = false then
      ackLoop { c with synAcked := true, sndUna := c.sndUna + 1#32 } ack
    else if c.unacked ≠ [] then
      let k := min c.unacked.length (ack - c.sndUna).toNat
      if k = 0 then c
      else
        ackLoop { c with unacked := c.unacked.drop k, sndUna := c.sndUna + BitVec.ofNat 32 k } ack
    else if c.finSent ∧ c.sndUna ≠ c.sndSeq then
      ackLoop { c with sndUna := c.sndUna + 1#32 } ack
    else c
  else c
termination_by ((!c.synAcked).toNat, c.unacked.length, (c.sndSeq - c.sndUna).toNat)
decreasing_by
  · rename_i fresh
    rw [fresh]
    exact Prod.Lex.left _ _ Nat.zero_lt_one
  · rename_i waiting _
    refine Prod.Lex.right _ (Prod.Lex.left _ _ ?_)
    have := List.length_pos_iff.mpr waiting
    rw [List.length_drop]
    omega
  · rename_i fin
    refine Prod.Lex.right _ (Prod.Lex.right _ ?_)
    exact sub_succ_lt fin.2

/-- What an acknowledgement changes. The timer starts again, whatever it covers. -/
def takeAck (c : TcpConn) (seg : GuestSegment) (clock : Clock) : TcpConn :=
  if flag seg.flags 0x10#8 then
    { c.ackLoop seg.ack with rtxCount := 0, rtxTimer := clock.now + clock.cpuHz }
  else c

/-- Data is taken in order only, and answered in any case. -/
def takePayload (c : TcpConn) (seg : GuestSegment) : TcpConn × TcpOut :=
  if seg.payload = [] then (c, {})
  else
    let c :=
      if seg.seq = c.rcvNxt then
        { c with
          toHost := c.toHost ++ seg.payload
          rcvNxt := c.rcvNxt + BitVec.ofNat 32 seg.payload.length }
      else c
    (c, c.sendTcpSeg 0x10#8 c.sndSeq [])

/-- The FIN of the guest. The end of its data is compared in 64 bits. -/
def takeFin (c : TcpConn) (seg : GuestSegment) : TcpConn × TcpOut :=
  if flag seg.flags 0x01#8 ∧
      (seg.seq.toNat + seg.payload.length = c.rcvNxt.toNat ∨ seg.seq = c.rcvNxt) then
    let c := if c.guestFin then c else { c with guestFin := true, rcvNxt := c.rcvNxt + 1#32 }
    (c, c.sendTcpSeg 0x10#8 c.sndSeq [])
  else (c, {})

/-- The connection a segment belongs to. -/
def isFor (c : TcpConn) (seg : GuestSegment) : Bool :=
  c.gIp = seg.gIp ∧ c.gPort = seg.gPort ∧ c.rIp = seg.rIp ∧ c.rPort = seg.rPort ∧ c.state ≠ .dead

/-- `handleTcpFromGuest` for a connection that is there. -/
def receive (c : TcpConn) (seg : GuestSegment) (clock : Clock) : TcpConn × TcpOut :=
  let c := { c with lastAct := clock.now, guestWin := seg.window.toNat }
  if flag seg.flags 0x04#8 then c.dropTcp false
  else if flag seg.flags 0x02#8 ∧ c.state = .established then
    (c, if c.synAcked then {} else c.sendTcpSeg 0x12#8 c.isn [])
  else andThen ((c.takeAck seg clock).takePayload seg) fun c => c.takeFin seg

/-! ## The pump -/

/-- The host connection under way: the SYN is answered when it stands. -/
def awaitHost (c : TcpConn) (result : ConnectResult) (clock : Clock) : TcpConn × TcpOut :=
  match result with
  | .connected =>
    ({ c with
      sndSeq := c.isn + 1#32
      state := .established
      rtxTimer := clock.now + clock.cpuHz }, c.sendTcpSeg 0x12#8 c.isn [])
  | .pending => if c.rtxTimer ≤ clock.now then c.dropTcp true else (c, {})
  | .failed => c.dropTcp true

/-- Guest to host, in pieces of at most 4096 octets. -/
def writeHost (c : TcpConn) : List SendResult → TcpConn × TcpOut
  | [] => (c, {})
  | result :: rest =>
    if c.toHost = [] then (c, {})
    else
      match result with
      | .again => (c, {})
      | .interrupted => c.writeHost rest
      | .failed => c.dropTcp true
      | .wrote n =>
        let w := min n (min c.toHost.length 4096)
        if w = 0 then c.dropTcp true
        else
          let r := { c with toHost := c.toHost.drop w }.writeHost rest
          (r.1, { written := c.toHost.take w } ++ r.2)

def shutHost (c : TcpConn) : TcpConn × TcpOut :=
  (c, { shut := c.guestFin && decide (c.toHost = []) && !c.sockEof })

/-- The octets that may be in flight. -/
def window (c : TcpConn) : Nat := min (32 * kMss) c.guestWin

/-- Octets of the host are sent and kept. -/
def sendData (c : TcpConn) (buf : List Octet) (clock : Clock) : TcpConn × TcpOut :=
  ({ c with
    unacked := c.unacked ++ buf
    sndSeq := c.sndSeq + BitVec.ofNat 32 buf.length
    rtxTimer := if c.rtxCount = 0 then clock.now + clock.cpuHz else c.rtxTimer },
    { segments := [c.segment 0x18#8 c.sndSeq buf], received := buf })

/-- Host to guest, never more than the guest has room for. -/
def readHost (c : TcpConn) (clock : Clock) : List RecvResult → TcpConn × TcpOut
  | [] => (c, {})
  | result :: rest =>
    if c.synAcked = false ∨ c.sockEof = true ∨ c.window ≤ c.unacked.length then (c, {})
    else
      match result with
      | .data first more =>
        let sent :=
          c.sendData ((first :: more).take (min kMss (c.window - c.unacked.length))) clock
        let r := sent.1.readHost clock rest
        (r.1, sent.2 ++ r.2)
      | .eof => ({ c with sockEof := true }, {})
      | .interrupted => c.readHost clock rest
      | .again => (c, {})
      | .failed => c.dropTcp true

/-- The FIN, once the host is done. -/
def sendFin (c : TcpConn) (clock : Clock) : TcpConn × TcpOut :=
  if c.sockEof = true ∧ c.finSent = false ∧ c.synAcked = true then
    ({ c with
      finSent := true
      sndSeq := c.sndSeq + 1#32
      rtxTimer := clock.now + clock.cpuHz }, c.sendTcpSeg 0x11#8 c.sndSeq [])
  else (c, {})

/-- What is repeated when the timer is up: the SYN, the oldest data, or the FIN. -/
def repeated (c : TcpConn) : TcpOut :=
  if c.synAcked = false then c.sendTcpSeg 0x12#8 c.isn []
  else if c.unacked ≠ [] then c.sendTcpSeg 0x18#8 c.sndUna (c.unacked.take kMss)
  else if c.finSent then c.sendTcpSeg 0x11#8 (c.sndSeq - 1#32) []
  else {}

/-- Another try, with a growing pause; after ten it is given up. -/
def retry (c : TcpConn) (clock : Clock) : TcpConn × TcpOut :=
  if 10 < c.rtxCount then c.dropTcp true
  else ({ c with rtxTimer := clock.now + clock.cpuHz * 2 ^ min (c.rtxCount - 1) 5 }, c.repeated)

def retransmit (c : TcpConn) (clock : Clock) : TcpConn × TcpOut :=
  if c.sndUna ≠ c.sndSeq ∧ c.rtxTimer ≤ clock.now then
    { c with rtxCount := c.rtxCount + 1 }.retry clock
  else (c, {})

/-- A connection both sides are done with is closed, an idle one is reset. -/
def finish (c : TcpConn) (clock : Clock) : TcpConn × TcpOut :=
  if c.guestFin = true ∧ c.finSent = true ∧ c.sndUna = c.sndSeq ∧ c.toHost = [] then
    c.dropTcp false
  else if 600 * clock.cpuHz < clock.now - c.lastAct then c.dropTcp true
  else (c, {})

def tcpPump (c : TcpConn) (host : PumpHost) (clock : Clock) : TcpConn × TcpOut :=
  match c.state with
  | .connecting => c.awaitHost host.connect clock
  | .dead => (c, {})
  | .established =>
    [fun c => c.writeHost host.sends, shutHost, fun c => c.readHost clock host.recvs,
      fun c => c.sendFin clock, fun c => c.retransmit clock, fun c => c.finish clock].foldl
        andThen (c, {})

/-- The packet of a segment: the gateway speaks for the remote host. -/
def packet (c : TcpConn) (ipId : BitVec 16) (seg : Segment) : List Octet :=
  let options :=
    if flag seg.flags 0x02#8 then [2#8, 4#8] ++ octets16 (BitVec.ofNat 16 kMss) else []
  let th := 20 + options.length
  let ip (sum : BitVec 16) : List Octet :=
    [0x45#8, 0#8] ++ octets16 (BitVec.ofNat 16 (20 + th + seg.data.length)) ++ octets16 ipId ++
      [0#8, 0#8, 64#8, 6#8] ++ octets16 sum ++ octets32 c.rIp ++ octets32 c.gIp
  let tcp (sum : BitVec 16) : List Octet :=
    octets16 c.rPort ++ octets16 c.gPort ++ octets32 seg.seq ++ octets32 seg.ack ++
      [BitVec.ofNat 8 (th / 4 * 16), seg.flags] ++ octets16 8192#16 ++ octets16 sum ++
        [0#8, 0#8] ++ options ++ seg.data
  ip (checksum (ip 0#16) 0#32) ++ tcp (l4sum c.rIp c.gIp 6#8 (tcp 0#16))

end TcpConn

end Pom68k.MacIp
