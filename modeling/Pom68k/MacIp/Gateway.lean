import Pom68k.MacIp.Reassembly

/-! # The gateway

Datagrams of a guest, over AppleTalk or Ethernet, and the tick that drives the host
sockets. A step has no result if it would look outside of a buffer.
-/

namespace Pom68k.MacIp

open Foundation

def kMtu : Nat := 586

def kLeaseLifetimeSec : Int := 3600

/-- An AppleTalk address to answer to. -/
structure Addr where
  net : BitVec 16 := 0#16
  node : Octet := 0#8
  sock : Octet := 0#8
  longHdr : Bool := false

/-- The way back to a guest address: over Ethernet or to an AppleTalk address. -/
structure Lease where
  addr : Addr := {}
  lastSeen : Int
  ether : Bool := false
  mac : BitVec 48 := 0#48

structure UdpFlow where
  gIp : BitVec 32
  gPort : BitVec 16
  rIp : BitVec 32
  rPort : BitVec 16
  lastAct : Int

/-- What leaves the gateway: a datagram on one of the links, or on a host socket. -/
inductive Output where
  | ether (dst : BitVec 32) (packet : List Octet)
  | ddp (addr : Addr) (packet : List Octet)
  | datagram (d : UdpDatagram)
  | stream (c : TcpConn) (written : List Octet) (shut : Bool)

structure Gateway where
  enabled : Bool := false
  etherSink : Bool := false
  gw : BitVec 32 := 0xC0A89701#32
  mask : BitVec 32 := 0xFFFFFF00#32
  ipId : BitVec 16 := 1#16
  isnCounter : BitVec 32 := 0x12340000#32
  leases : BitVec 32 → Option Lease := fun _ => none
  udp : List UdpFlow := []
  tcp : List TcpConn := []
  frags : List FragSet := []
  tcpSynWindowScale : Nat := 0
  lastWindowScale : Option Octet := none

/-- The parts of a packet that is too long for AppleTalk, headers and all. -/
def fragments (pkt : List Octet) : List (List Octet) :=
  let ihl := (pkt.getD 0 0#8 &&& 0x0F#8).toNat * 4
  let maxPay := (kMtu - ihl) / 8 * 8
  let size := pkt.length - ihl
  (List.range ((size + (maxPay - 1)) / maxPay)).map fun k =>
    let off := k * maxPay
    let part := min maxPay (size - off)
    let more : BitVec 16 := if off + part < size then 0x2000#16 else 0#16
    let f := pkt.take ihl ++ (pkt.drop (ihl + off)).take part
    let f := overwrite f 2 (octets16 (BitVec.ofNat 16 f.length))
    let f := overwrite f 6 (octets16 (BitVec.ofNat 16 (off / 8) ||| more))
    let f := overwrite f 10 (octets16 0#16)
    overwrite f 10 (octets16 (checksum (f.take ihl) 0#32))

namespace Gateway

def sendIpToGuest (g : Gateway) (dst : BitVec 32) (pkt : List Octet) : List Output :=
  match g.leases dst with
  | none => []
  | some lease =>
    if lease.ether then if g.etherSink then [.ether dst pkt] else []
    else if pkt.length ≤ kMtu then [.ddp lease.addr pkt]
    else (fragments pkt).map fun part => .ddp lease.addr part

/-- The segments of a connection are sent, each with an identification of its own. -/
def transmit (g : Gateway) (c : TcpConn) : List Segment → Gateway × List Output
  | [] => (g, [])
  | seg :: rest =>
    let r := { g with ipId := g.ipId + 1#16 }.transmit c rest
    (r.1, g.sendIpToGuest c.gIp (c.packet g.ipId seg) ++ r.2)

/-- What a connection did goes out. -/
def emit (g : Gateway) (c : TcpConn) (out : TcpOut) : Gateway × List Output :=
  let r := g.transmit c out.segments
  (r.1, .stream c out.written out.shut :: r.2)

/-! ## Datagrams of the guest -/

/-- The source of a datagram in the own network is remembered, unless the address belongs
to the other link. -/
def learn (g : Gateway) (sip : BitVec 32) (src : Addr) (ether : Bool) (clock : Clock) :
    Option Gateway :=
  if sip &&& g.mask = g.gw &&& g.mask ∧ sip ≠ g.gw then
    match g.leases sip with
    | none =>
      some { g with leases := Function.update g.leases sip (some ⟨src, clock.now, ether, 0#48⟩) }
    | some lease =>
      if lease.ether ≠ ether then none
      else
        some { g with
          leases := Function.update g.leases sip (some ⟨src, clock.now, ether, lease.mac⟩) }
  else some g

/-- The answer to an echo request for the gateway itself. -/
def echo (g : Gateway) (sip : BitVec 32) (p : List Octet) (ihl : Nat) : Option (List Octet) := do
  let r ← wr32 p 12 g.gw
  let r ← wr32 r 16 sip
  let r ← writeAt r ihl [0#8]
  let r ← wr16 r (ihl + 2) 0#16
  let ic ← csum r ihl (p.length - ihl)
  let r ← wr16 r (ihl + 2) ic
  let r ← wr16 r 10 0#16
  let sum ← csum r 0 ihl
  wr16 r 10 sum

/-- A datagram for the gateway itself. -/
def answer (g : Gateway) (sip : BitVec 32) (proto : Octet) (p : List Octet) (ihl : Nat) :
    Option (List Output) :=
  if proto = 1#8 ∧ ihl + 8 ≤ p.length then do
    let kind : Octet ← p[ihl]?
    if kind = 8#8 then
      let r ← g.echo sip p ihl
      some (g.sendIpToGuest sip r)
    else some []
  else some []

/-- `handleUdpFromGuest` behind its reads. A flow that is not there yet needs a socket. -/
def handleUdpFromGuest (g : Gateway) (d : UdpDatagram) (socket : Bool) (clock : Clock) :
    Gateway × List Output :=
  let here (f : UdpFlow) : Bool :=
    f.gIp = d.gIp ∧ f.gPort = d.gPort ∧ f.rIp = d.rIp ∧ f.rPort = d.rPort
  match splitLast here g.udp with
  | some (front, f, back) =>
    ({ g with udp := front ++ { f with lastAct := clock.now } :: back }, [.datagram d])
  | none =>
    if socket then
      ({ g with udp := g.udp ++ [⟨d.gIp, d.gPort, d.rIp, d.rPort, clock.now⟩] }, [.datagram d])
    else (g, [])

/-- The reset for a segment no connection is there for. -/
def resetFor (seg : GuestSegment) : TcpConn :=
  { gIp := seg.gIp, rIp := seg.rIp, gPort := seg.gPort, rPort := seg.rPort
    isn := 0#32, sndSeq := 0#32, sndUna := 0#32
    rcvNxt := seg.seq + BitVec.ofNat 32 seg.payload.length + 1#32
    guestWin := 4096, rtxTimer := 0, lastAct := 0 }

/-- The guests that asked for a window scale are counted. -/
def noteScales (g : Gateway) (seg : GuestSegment) : Gateway :=
  { g with
    tcpSynWindowScale := g.tcpSynWindowScale + seg.scales.length
    lastWindowScale := seg.scales.getLast?.or g.lastWindowScale }

def nextIsn (g : Gateway) : BitVec 32 := g.isnCounter + 0x10000#32

/-- A segment no connection is there for: a SYN opens one, anything else is reset. -/
def handleStray (g : Gateway) (seg : GuestSegment) (socket : Bool) (clock : Clock) :
    Gateway × List Output :=
  if flag seg.flags 0x02#8 = false ∨ flag seg.flags 0x10#8 = true then
    if flag seg.flags 0x04#8 then (g, [])
    else g.transmit (resetFor seg) [(resetFor seg).segment 0x14#8 seg.ack []]
  else if socket then
    ({ g with isnCounter := g.nextIsn, tcp := g.tcp ++ [TcpConn.opened seg g.nextIsn clock] }, [])
  else (g, [])

/-- A segment for a connection that is there. -/
def handleSegment (g : Gateway) (front : List TcpConn) (c : TcpConn) (back : List TcpConn)
    (seg : GuestSegment) (clock : Clock) : Gateway × List Output :=
  let r := c.receive seg clock
  { g with tcp := front ++ r.1 :: back }.emit r.1 r.2

/-- `handleTcpFromGuest` behind its reads. -/
def handleTcpFromGuest (g : Gateway) (seg : GuestSegment) (socket : Bool) (clock : Clock) :
    Gateway × List Output :=
  match splitLast (fun c => c.isFor seg) g.tcp with
  | some (front, c, back) => (g.noteScales seg).handleSegment front c back seg clock
  | none => (g.noteScales seg).handleStray seg socket clock

/-- A whole datagram for the outside. -/
def dispatch (g : Gateway) (proto : Octet) (p : List Octet) (socket : Bool) (clock : Clock) :
    Option (Gateway × List Output) :=
  if proto = 6#8 then do
    match ← parseTcp p with
    | none => some (g, [])
    | some seg => some (g.handleTcpFromGuest seg socket clock)
  else if proto = 17#8 then do
    match ← parseUdp p with
    | none => some (g, [])
    | some d => some (g.handleUdpFromGuest d socket clock)
  else some (g, [])

/-- A datagram for the outside: a fragment has to wait for the rest. -/
def forward (g : Gateway) (proto : Octet) (p : List Octet) (socket : Bool) (clock : Clock) :
    Option (Gateway × List Output) := do
  let frag : BitVec 16 ← rd16 p 6
  if frag &&& 0x3FFF#16 = 0#16 then g.dispatch proto p socket clock
  else
    let r ← reassemble g.frags p clock.now
    let g := { g with frags := r.1 }
    match r.2 with
    | none => some (g, [])
    | some whole => g.dispatch proto whole socket clock

/-- A datagram that has passed the checks. -/
def route (g : Gateway) (src : Addr) (ether : Bool) (p : List Octet) (socket : Bool)
    (clock : Clock) : Option (Gateway × List Output) := do
  let ihl ← headerLength p
  let sip ← rd32 p 12
  let dip ← rd32 p 16
  let proto ← p[9]?
  match g.learn sip src ether clock with
  | none => some (g, [])
  | some g =>
    if dip = g.gw then
      let out ← g.answer sip proto p ihl
      some (g, out)
    else if dip &&& g.mask = g.gw &&& g.mask then some (g, [])
    else g.forward proto p socket clock

def handleIp (g : Gateway) (src : Addr) (ether : Bool) (p : List Octet) (socket : Bool)
    (clock : Clock) : Option (Gateway × List Output) :=
  if (if ether then g.etherSink else g.enabled) = false then some (g, [])
  else do
    match ← trimmed p with
    | none => some (g, [])
    | some p => g.route src ether p socket clock

/-! ## The tick -/

/-- Every connection is pumped in turn. -/
def pumpAll (g : Gateway) (clock : Clock) : List TcpConn → List PumpHost →
    Gateway × List TcpConn × List Output
  | [], _ => (g, [], [])
  | c :: rest, hosts =>
    let r := c.tcpPump (hosts.headD {}) clock
    let sent := g.emit r.1 r.2
    let later := sent.1.pumpAll clock rest hosts.tail
    (later.1, r.1 :: later.2.1, sent.2 ++ later.2.2)

/-- The packet of a datagram from the host. -/
def udpPacket (f : UdpFlow) (ipId : BitVec 16) (payload : List Octet) : List Octet :=
  let ip (sum : BitVec 16) : List Octet :=
    [0x45#8, 0#8] ++ octets16 (BitVec.ofNat 16 (28 + payload.length)) ++ octets16 ipId ++
      [0#8, 0#8, 64#8, 17#8] ++ octets16 sum ++ octets32 f.rIp ++ octets32 f.gIp
  let udp (sum : BitVec 16) : List Octet :=
    octets16 f.rPort ++ octets16 f.gPort ++ octets16 (BitVec.ofNat 16 (8 + payload.length)) ++
      octets16 sum ++ payload
  ip (checksum (ip 0#16) 0#32) ++ udp (l4sum f.rIp f.gIp 17#8 (udp 0#16))

/-- What the socket of a flow has, up to an empty datagram; one too long for the buffer is
dropped. -/
def drainFlow (g : Gateway) (f : UdpFlow) (clock : Clock) : List (List Octet) →
    Gateway × UdpFlow × List Output
  | [] => (g, f, [])
  | payload :: rest =>
    if payload = [] then (g, f, [])
    else
      let f := { f with lastAct := clock.now }
      if 65536 < payload.length then g.drainFlow f clock rest
      else
        let r := { g with ipId := g.ipId + 1#16 }.drainFlow f clock rest
        (r.1, r.2.1, g.sendIpToGuest f.gIp (udpPacket f g.ipId payload) ++ r.2.2)

def drainAll (g : Gateway) (clock : Clock) : List UdpFlow → List (List (List Octet)) →
    Gateway × List UdpFlow × List Output
  | [], _ => (g, [], [])
  | f :: rest, waiting =>
    let r := g.drainFlow f clock (waiting.headD [])
    let later := r.1.drainAll clock rest waiting.tail
    let kept := if 120 * clock.cpuHz < clock.now - r.2.1.lastAct then [] else [r.2.1]
    (later.1, kept ++ later.2.1, r.2.2 ++ later.2.2)

/-- An idle lease is given back; one bound to a hardware address is kept. -/
def reclaim (clock : Clock) (lease : Lease) : Option Lease :=
  if (lease.ether = false ∨ lease.mac = 0#48) ∧
      kLeaseLifetimeSec * clock.cpuHz < clock.now - lease.lastSeen then none
  else some lease

def tick (g : Gateway) (clock : Clock) (hosts : List PumpHost)
    (waiting : List (List (List Octet))) : Gateway × List Output :=
  if g.enabled = false ∧ g.etherSink = false then (g, [])
  else
    let pumped := g.pumpAll clock g.tcp hosts
    let live := pumped.2.1.filter fun c : TcpConn => c.state ≠ .dead
    let g := { pumped.1 with tcp := live }
    let drained := g.drainAll clock g.udp waiting
    ({ drained.1 with
      udp := drained.2.1
      frags := expire g.frags clock
      leases := fun ip => (g.leases ip).bind (reclaim clock) }, pumped.2.2 ++ drained.2.2)

/-! ## Switching the links -/

/-- The sockets and leases of a link go, with those of addresses nobody holds. -/
def retireLink (g : Gateway) (ether : Bool) : Gateway :=
  let belongs (ip : BitVec 32) : Bool := (g.leases ip).all fun lease => lease.ether = ether
  { g with
    udp := g.udp.filter fun f => !belongs f.gIp
    tcp := g.tcp.filter fun c => !belongs c.gIp
    leases := fun ip => (g.leases ip).filter fun lease => lease.ether ≠ ether }

def setEnabled (g : Gateway) (on : Bool) : Gateway :=
  if on = g.enabled then g
  else if on then { g with enabled := true }
  else { g with enabled := false }.retireLink false

def setEtherSink (g : Gateway) (on : Bool) : Gateway :=
  { if on then g else g.retireLink true with etherSink := on }

/-- Another network: the links start again. -/
def configure (g : Gateway) (gw mask : BitVec 32) : Gateway :=
  let retired := (g.setEnabled false).retireLink true
  { retired with gw := gw, mask := mask }.setEnabled g.enabled

/-! ## Steps -/

/-- Everything that moves the gateway. The control plane hands out leases. -/
inductive Op where
  | ip (src : Addr) (ether : Bool) (p : List Octet) (socket : Bool) (clock : Clock)
  | tick (clock : Clock) (hosts : List PumpHost) (waiting : List (List (List Octet)))
  | setEnabled (on : Bool)
  | setEtherSink (on : Bool)
  | configure (gw mask : BitVec 32)
  | leases (leases : BitVec 32 → Option Lease)

def step (g : Gateway) : Op → Option (Gateway × List Output)
  | .ip src ether p socket clock => g.handleIp src ether p socket clock
  | .tick clock hosts waiting => some (g.tick clock hosts waiting)
  | .setEnabled on => some (g.setEnabled on, [])
  | .setEtherSink on => some (g.setEtherSink on, [])
  | .configure gw mask => some (g.configure gw mask, [])
  | .leases leases => some ({ g with leases := leases }, [])

end Gateway

end Pom68k.MacIp
