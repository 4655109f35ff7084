import Mathlib.Data.BitVec

/-! # The node on the cable

A node of an AppleTalk network: frames of the cable, datagrams, the network number it takes
over from a router, and transactions in both roles. What a bound handler does with a
transaction is not up to the node: it answers at once, keeps it for later, or drops it.
-/

namespace Pom68k.Atalk

abbrev Octet := BitVec 8

def kLlapShortDdp : Octet := 0x01#8
def kLlapLongDdp : Octet := 0x02#8
def kLlapEnq : Octet := 0x81#8
def kLlapAck : Octet := 0x82#8

def kDdpRtmpData : Octet := 1#8
def kDdpAtp : Octet := 3#8
def kDdpAep : Octet := 4#8
def kDdpRtmpReq : Octet := 5#8

def kSockRtmp : Octet := 1#8
def kSockAep : Octet := 4#8

def kMaxDdpData : Nat := 586

def kAtpFuncMask : Octet := 0xC0#8
def kAtpTReq : Octet := 0x40#8
def kAtpTResp : Octet := 0x80#8
def kAtpTRel : Octet := 0xC0#8
def kAtpXo : Octet := 0x20#8
def kAtpEom : Octet := 0x10#8

/-- The octets of a word, the high one first. -/
def put16 (x : BitVec 16) : List Octet := [x.extractLsb' 8 8, x.extractLsb' 0 8]

/-- An address; replies take the form of header the requester used. -/
structure Addr where
  net : BitVec 16 := 0#16
  node : Octet := 0#8
  sock : Octet := 0#8
  longHdr : Bool := false
deriving DecidableEq

/-- A packet of a response: four user bytes and data. -/
abbrev Packet := List Octet

/-- A transaction that a handler is to answer. -/
structure AtpTxn where
  src : Addr
  req : Packet
  tid : BitVec 16
  bitmap : Octet
  sock : Octet
  xo : Bool
  done : Bool := false
deriving DecidableEq

structure XoEntry where
  pkts : List Packet
  expires : Int
deriving DecidableEq

structure PendingTxn where
  txn : Nat
  expires : Int
deriving DecidableEq

/-- A request of the node itself. -/
structure PendingReq where
  id : Nat
  tid : BitVec 16
  dst : Addr
  srcSock : Octet
  req : Packet
  need : Octet
  xo : Bool
  tries : Nat
  nextRetry : Int
  resp : List Packet := []
  respCount : Int := -1
deriving DecidableEq

abbrev TxnKey := BitVec 64

def txnKey (a : Addr) (localSocket : Octet) (tid : BitVec 16) : TxnKey :=
  localSocket.setWidth 64 <<< 48 ||| a.net.setWidth 64 <<< 32 ||| a.node.setWidth 64 <<< 24 |||
    a.sock.setWidth 64 <<< 16 ||| tid.setWidth 64

structure AtalkStack where
  net : BitVec 16 := 2#16
  seededNet : BitVec 16 := 2#16
  routerSeen : Int := 0
  routerNode : Octet := 0#8
  node : Octet := 128#8
  cpuHz : Int := 15667200
  now : Int := 0
  nextRtmp : Int := 0
  nextTid : BitVec 16 := 1#16
  /-- The sockets with a transaction handler, and those with a handler for datagrams. -/
  atpHandlers : Octet → Bool := fun _ => false
  ddpHandlers : Octet → Bool := fun _ => false
  xoCache : TxnKey → Option XoEntry := fun _ => none
  pendingTxns : TxnKey → Option PendingTxn := fun _ => none
  /-- All transactions a handler was ever given, in order. -/
  txns : List AtpTxn := []
  requests : List PendingReq := []
  /-- How many requests were ever made. -/
  made : Nat := 0

/-- What a handler does with a transaction before it returns. -/
inductive Reaction where
  | respond (pkts : List Packet)
  | keep
  | ignore
deriving DecidableEq

/-- What the node does outside: frames on the cable, a try of one of its requests, a handler
that is given a transaction, and the end of a request. -/
inductive Output where
  | frame (bytes : List Octet)
  | tried (id : Nat) (frames : List (List Octet))
  | invoked (txn : Nat)
  | done (id : Nat) (ok : Bool) (pkts : List Packet)
deriving DecidableEq

/-- A datagram as it came in. -/
structure Ddp where
  src : Addr
  dstSock : Octet
  type : Octet
  payload : List Octet
deriving DecidableEq

/-- A packet of a transaction: what follows the header is user bytes and data. -/
structure Atp where
  ctrl : Octet
  bs : Octet
  tid : BitVec 16
  body : Packet
deriving DecidableEq

def Atp.func (a : Atp) : Octet := a.ctrl &&& kAtpFuncMask

def Atp.xo (a : Atp) : Bool := a.ctrl &&& kAtpXo ≠ 0#8

def Atp.eom (a : Atp) : Bool := a.ctrl &&& kAtpEom ≠ 0#8

/-- The place of a packet in its response. -/
def Atp.seq (a : Atp) : Nat := (a.bs &&& 0x07#8).toNat

/-- Packets of less than eight octets are none. -/
def Atp.parse : List Octet → Option Atp
  | ctrl :: bs :: t1 :: t0 :: body =>
    if body.length < 4 then none else some ⟨ctrl, bs, t1 ++ t0, body⟩
  | _ => none

/-- `configure`, with the handler of the zone information socket. -/
def AtalkStack.configure (s : AtalkStack) (net : BitVec 16) (node : Octet) (cpuHz : Int) :
    AtalkStack :=
  { s with
    net := net
    seededNet := net
    routerSeen := 0
    routerNode := 0#8
    node := node
    cpuHz := if 0 < cpuHz then cpuHz else 15667200
    nextRtmp := 0
    atpHandlers := Function.update s.atpHandlers 6#8 true }

/-! ## The cable -/

/-- The datagram in a frame, if it has one for this node. A short header stands for the
network of the cable. -/
def AtalkStack.received (s : AtalkStack) : List Octet → Option Ddp
  | dst :: src :: type :: rest =>
    if type ≠ kLlapShortDdp ∧ type ≠ kLlapLongDdp then none
    else if dst ≠ s.node ∧ dst ≠ 0xFF#8 then none
    else
      match rest with
      | l1 :: l0 :: more =>
        let len := (l1 &&& 0x03#8).toNat * 256 + l0.toNat
        if rest.length < len then none
        else if type = kLlapShortDdp then
          match more with
          | dstSock :: srcSock :: ddpType :: payload =>
            if len < 5 then none
            else
              some ⟨⟨s.net, src, srcSock, false⟩, dstSock, ddpType, payload.take (len - 5)⟩
          | _ => none
        else
          match more with
          | _ :: _ :: _ :: _ :: n1 :: n0 :: _ :: srcNode :: dstSock :: srcSock :: ddpType ::
              payload =>
              if len < 13 then none
              else some ⟨⟨n1 ++ n0, srcNode, srcSock, true⟩, dstSock, ddpType,
                payload.take (len - 13)⟩
          | _ => none
      | _ => none
  | _ => none

/-- The frame of a datagram; one that is too long is not sent. -/
def AtalkStack.sendDdp (s : AtalkStack) (dst : Addr) (srcSock ddpType : Octet) (p : List Octet) :
    List (List Octet) :=
  if kMaxDdpData < p.length then []
  else if dst.longHdr = false then
    [[dst.node, s.node, kLlapShortDdp] ++ put16 (BitVec.ofNat 16 (5 + p.length)) ++
      [dst.sock, srcSock, ddpType] ++ p]
  else
    [[dst.node, s.node, kLlapLongDdp] ++ put16 (BitVec.ofNat 16 (13 + p.length)) ++ put16 0#16 ++
      put16 (if dst.net ≠ 0#16 then dst.net else s.net) ++ put16 s.net ++
      [dst.node, s.node, dst.sock, srcSock, ddpType] ++ p]

/-! ## The router -/

/-- How long a router may be silent; it is staggered by node. -/
def AtalkStack.routerHoldCycles (s : AtalkStack) : Int := (60 + s.node.toNat % 30) * s.cpuHz

def AtalkStack.deferring (s : AtalkStack) : Bool :=
  s.routerSeen ≠ 0 ∧ s.now - s.routerSeen < s.routerHoldCycles

/-- Another node routes this cable: its number is the number of the network. -/
def AtalkStack.noteForeignRouter (s : AtalkStack) (src : Addr) : List Octet → AtalkStack
  | n1 :: n0 :: _ =>
    if src.node = s.node ∨ n1 ++ n0 = 0#16 then s
    else
      { s with
        routerSeen := if s.now ≠ 0 then s.now else 1
        routerNode := src.node
        net := n1 ++ n0 }
  | _ => s

def AtalkStack.sendRtmpData (s : AtalkStack) : List (List Octet) :=
  s.sendDdp ⟨s.net, 0xFF#8, kSockRtmp, false⟩ kSockRtmp kDdpRtmpData
    (put16 s.net ++ [8#8, s.node] ++ put16 s.net ++ [0#8])

def AtalkStack.handleRtmpReq (s : AtalkStack) (src : Addr) (p : List Octet) : List (List Octet) :=
  if p.head? = some 1#8 then s.sendDdp src kSockRtmp kDdpRtmpData (put16 s.net ++ [8#8, s.node])
  else []

/-! ## Transactions to answer -/

/-- User bytes are filled up to four. -/
def padded (pk : Packet) : Packet := pk ++ List.replicate (4 - pk.length) 0#8

/-- One packet of a response; the last one says so. -/
def atpResponse (tid : BitVec 16) (pkts : List Packet) (i : Nat) (pk : Packet) : List Octet :=
  [kAtpTResp ||| (if i + 1 = pkts.length then kAtpEom else 0#8), BitVec.ofNat 8 i] ++ put16 tid ++
    padded pk

/-- The packets of a response that a bitmap asks for, at most eight. -/
def AtalkStack.sendAtpResponses (s : AtalkStack) (dst : Addr) (srcSock : Octet) (tid : BitVec 16)
    (pkts : List Packet) (bitmap : Octet) : List (List Octet) :=
  (pkts.zipIdx.take 8).flatMap fun (pk, i) =>
    if bitmap.getLsbD i then s.sendDdp dst srcSock kDdpAtp (atpResponse tid pkts i pk) else []

def AtpTxn.key (t : AtpTxn) : TxnKey := txnKey t.src t.sock t.tid

def AtalkStack.release (s : AtalkStack) : Int := s.now + 30 * s.cpuHz

/-- A handler answers a transaction, once. -/
def AtalkStack.respond (s : AtalkStack) (id : Nat) (pkts : List Packet) :
    AtalkStack × List Output :=
  match s.txns[id]? with
  | none => (s, [])
  | some t =>
    if t.done then (s, [])
    else
      ({ s with
        txns := s.txns.set id { t with done := true }
        xoCache :=
          if t.xo then Function.update s.xoCache t.key (some ⟨pkts, s.release⟩)
          else s.xoCache
        pendingTxns := Function.update s.pendingTxns t.key none },
        (s.sendAtpResponses t.src t.sock t.tid pkts t.bitmap).map .frame)

/-- A handler is given a new transaction. One it drops is forgotten. -/
def AtalkStack.invoke (s : AtalkStack) (src : Addr) (dstSock : Octet) (a : Atp)
    (reaction : Reaction) : AtalkStack × List Output :=
  let id := s.txns.length
  let key := txnKey src dstSock a.tid
  let s := { s with
    txns := s.txns ++ [⟨src, a.body, a.tid, a.bs, dstSock, a.xo, false⟩]
    pendingTxns := Function.update s.pendingTxns key (some ⟨id, s.release⟩) }
  match reaction with
  | .respond pkts => ((s.respond id pkts).1, .invoked id :: (s.respond id pkts).2)
  | .keep => (s, [.invoked id])
  | .ignore => ({ s with pendingTxns := Function.update s.pendingTxns key none }, [.invoked id])

/-- A request: answered from the cache, still with its handler, or new. -/
def AtalkStack.handleTReq (s : AtalkStack) (src : Addr) (dstSock : Octet) (a : Atp)
    (reaction : Reaction) : AtalkStack × List Output :=
  match s.xoCache (txnKey src dstSock a.tid) with
  | some cached => (s, (s.sendAtpResponses src dstSock a.tid cached.pkts a.bs).map .frame)
  | none =>
    if (s.pendingTxns (txnKey src dstSock a.tid)).isSome then (s, [])
    else s.invoke src dstSock a reaction

def AtalkStack.handleTRel (s : AtalkStack) (src : Addr) (dstSock : Octet) (a : Atp) : AtalkStack :=
  { s with
    xoCache := Function.update s.xoCache (txnKey src dstSock a.tid) none
    pendingTxns := Function.update s.pendingTxns (txnKey src dstSock a.tid) none }

/-! ## Requests of the node -/

/-- A list brought to a length. -/
def resized (l : List Packet) (n : Nat) : List Packet :=
  l.take n ++ List.replicate (n - l.length) []

/-- The packet of a response that came in. -/
def PendingReq.accept (r : PendingReq) (a : Atp) : PendingReq :=
  let resp := if r.resp.length ≤ a.seq then resized r.resp (a.seq + 1) else r.resp
  let need := r.need &&& ~~~(1#8 <<< a.seq)
  { r with
    resp := resp.set a.seq a.body
    need :=
      if a.eom then
        (List.range 8).foldl (fun need b => if a.seq < b then need &&& ~~~(1#8 <<< b) else need)
          need
      else need
    respCount := if a.eom then a.seq + 1 else r.respCount }

/-- The packets that are handed on. -/
def PendingReq.result (r : PendingReq) : List Packet :=
  if 0 ≤ r.respCount then resized r.resp r.respCount.toNat else r.resp

def PendingReq.expects (r : PendingReq) (src : Addr) (a : Atp) : Bool :=
  r.tid = a.tid ∧ r.dst.net = src.net ∧ r.dst.node = src.node ∧ r.dst.sock = src.sock

/-- A request takes a packet, and is over when it needs no other. -/
def AtalkStack.collect (s : AtalkStack) (a : Atp) (r : PendingReq) :
    Option PendingReq × List Output :=
  let r := r.accept a
  if r.need = 0#8 then
    let rel := [kAtpTRel, 0#8] ++ put16 a.tid ++ List.replicate 4 0#8
    (none, (if r.xo then (s.sendDdp r.dst r.srcSock kDdpAtp rel).map .frame else []) ++
      [.done r.id true r.result])
  else (some r, [])

/-- A response goes to the first request it can be for. -/
def AtalkStack.handleTResp (s : AtalkStack) (src : Addr) (a : Atp) :
    List PendingReq → List PendingReq × List Output
  | [] => ([], [])
  | r :: rest =>
    if r.expects src a then ((s.collect a r).1.toList ++ rest, (s.collect a r).2)
    else
      let later := s.handleTResp src a rest
      (r :: later.1, later.2)

/-- The frames of a request. -/
def PendingReq.sent (r : PendingReq) (s : AtalkStack) : List (List Octet) :=
  s.sendDdp r.dst r.srcSock kDdpAtp
    ([kAtpTReq ||| (if r.xo then kAtpXo else 0#8), r.need] ++ put16 r.tid ++ r.req)

/-- A request whose time is up is tried again, or given up after the fifth try. -/
def AtalkStack.retryOne (s : AtalkStack) (r : PendingReq) : Option PendingReq × List Output :=
  if s.now < r.nextRetry then (some r, [])
  else if 5 < r.tries + 1 then (none, [.done r.id false []])
  else
    (some { r with tries := r.tries + 1, nextRetry := s.now + s.cpuHz }, [.tried r.id (r.sent s)])

def AtalkStack.retry (s : AtalkStack) (requests : List PendingReq) :
    List PendingReq × List Output :=
  (requests.filterMap fun r => (s.retryOne r).1, requests.flatMap fun r => (s.retryOne r).2)

/-- Numbers of transactions skip zero. -/
def advanceTid (tid : BitVec 16) : BitVec 16 := if tid + 1#16 = 0#16 then 1#16 else tid + 1#16

def wanted (maxResp : Int) : Octet := BitVec.ofNat 8 (2 ^ (min maxResp 8).toNat - 1)

/-- A request; one that wants no response is over at once. -/
def AtalkStack.atpRequest (s : AtalkStack) (dst : Addr) (srcSock : Octet) (req : Packet)
    (maxResp : Int) (xo : Bool) : AtalkStack × List Output :=
  let bitmap := if 0 < maxResp then wanted maxResp else 0#8
  let r : PendingReq :=
    ⟨s.made, s.nextTid, dst, srcSock, padded req, bitmap, xo, 1, s.now + s.cpuHz, [], -1⟩
  let s' := { s with nextTid := advanceTid s.nextTid, made := s.made + 1 }
  if maxResp ≤ 0 then (s', [.tried r.id (r.sent s), .done r.id true []])
  else ({ s' with requests := s.requests ++ [r] }, [.tried r.id (r.sent s)])

/-! ## Steps -/

def AtalkStack.handleAtp (s : AtalkStack) (src : Addr) (dstSock : Octet) (p : List Octet)
    (reaction : Reaction) : AtalkStack × List Output :=
  match Atp.parse p with
  | none => (s, [])
  | some a =>
    if a.func = kAtpTReq then s.handleTReq src dstSock a reaction
    else if a.func = kAtpTResp then
      let r := s.handleTResp src a s.requests
      ({ s with requests := r.1 }, r.2)
    else if a.func = kAtpTRel then (s.handleTRel src dstSock a, [])
    else (s, [])

/-- The sockets of the node itself. -/
def AtalkStack.serveSocket (s : AtalkStack) (d : Ddp) : AtalkStack × List Output :=
  if d.dstSock = kSockRtmp then
    if d.type = kDdpRtmpData then (s.noteForeignRouter d.src d.payload, [])
    else if d.type = kDdpRtmpReq ∧ s.deferring = false then
      (s, (s.handleRtmpReq d.src d.payload).map .frame)
    else (s, [])
  else if d.dstSock = kSockAep ∧ d.type = kDdpAep ∧ d.payload.head? = some 1#8 then
    (s, (s.sendDdp d.src kSockAep kDdpAep (d.payload.set 0 2#8)).map .frame)
  else (s, [])

/-- Transactions come first, then handlers for datagrams, then the sockets of the node. -/
def AtalkStack.handleDdp (s : AtalkStack) (d : Ddp) (reaction : Reaction) :
    AtalkStack × List Output :=
  if d.type = kDdpAtp ∧ s.atpHandlers d.dstSock then
    s.handleAtp d.src d.dstSock d.payload reaction
  else if s.ddpHandlers d.dstSock then (s, [])
  else s.serveSocket d

/-- The node answers those who ask for its number, and hears what is sent to it. -/
def AtalkStack.onGuestFrame (s : AtalkStack) (bytes : List Octet) (reaction : Reaction) :
    AtalkStack × List Output :=
  if bytes.take 3 = [s.node, s.node, kLlapEnq] then (s, [.frame [s.node, s.node, kLlapAck]])
  else
    match s.received bytes with
    | none => (s, [])
    | some d => s.handleDdp d reaction

/-- The routing of the cable: a beacon every ten seconds unless another node routes it, and
the number of its own once that one is gone. -/
def AtalkStack.beacon (s : AtalkStack) : AtalkStack × List Output :=
  let due := s.nextRtmp ≤ s.now
  let out := if due ∧ s.deferring = false then s.sendRtmpData.map .frame else []
  let s := if due then { s with nextRtmp := s.now + 10 * s.cpuHz } else s
  (if s.routerSeen ≠ 0 ∧ s.deferring = false then
    { s with net := s.seededNet, routerSeen := 0, routerNode := 0#8 }
  else s, out)

/-- What is over is forgotten. -/
def AtalkStack.sweep (s : AtalkStack) : AtalkStack :=
  { s with
    xoCache := fun k => (s.xoCache k).filter fun e => s.now < e.expires
    pendingTxns := fun k => (s.pendingTxns k).filter fun p => s.now < p.expires }

def AtalkStack.tick (s : AtalkStack) (now : Int) (runProtocols : Bool) : AtalkStack × List Output :=
  let s := { s with now := now }
  if runProtocols = false then (s, [])
  else
    let b := s.beacon
    let s := b.1.sweep
    let r := s.retry s.requests
    ({ s with requests := r.1 }, b.2 ++ r.2)

inductive Event where
  | frame (bytes : List Octet) (reaction : Reaction)
  | tick (now : Int) (runProtocols : Bool)
  | reply (txn : Nat) (pkts : List Packet)
  | request (dst : Addr) (srcSock : Octet) (req : Packet) (maxResp : Int) (xo : Bool)

def AtalkStack.step (s : AtalkStack) : Event → AtalkStack × List Output
  | .frame bytes reaction => s.onGuestFrame bytes reaction
  | .tick now runProtocols => s.tick now runProtocols
  | .reply txn pkts => s.respond txn pkts
  | .request dst srcSock req maxResp xo => s.atpRequest dst srcSock req maxResp xo

/-! ## What a step can do -/

/-- The packet of a transaction in a frame, if it is for a socket with a handler. -/
def AtalkStack.heard (s : AtalkStack) (bytes : List Octet) : Option (Ddp × Atp) :=
  (s.received bytes).bind fun d =>
    if d.type = kDdpAtp ∧ s.atpHandlers d.dstSock then (Atp.parse d.payload).map (d, ·) else none

namespace AtalkStack

variable {s : AtalkStack} {bytes : List Octet}

theorem received_enq (enq : bytes.take 3 = [s.node, s.node, kLlapEnq]) :
    s.received bytes = none := by
  match bytes with
  | [] | [_] | [_, _] => rfl
  | dst :: src :: type :: rest =>
    obtain rfl : type = kLlapEnq := by simp_all
    rfl

/-- Packets of transactions go to the transactions. -/
theorem onGuestFrame_of_heard {d : Ddp} {a : Atp} (heard : s.heard bytes = some (d, a))
    (reaction : Reaction) : s.onGuestFrame bytes reaction =
      if a.func = kAtpTReq then s.handleTReq d.src d.dstSock a reaction
      else if a.func = kAtpTResp then
        ({ s with requests := (s.handleTResp d.src a s.requests).1 },
          (s.handleTResp d.src a s.requests).2)
      else if a.func = kAtpTRel then (s.handleTRel d.src d.dstSock a, [])
      else (s, []) := by
  obtain ⟨d', came, rest⟩ := Option.bind_eq_some_iff.mp heard
  split at rest
  case isFalse => cases rest
  case isTrue bound =>
    obtain ⟨a', parsed, same⟩ := Option.map_eq_some_iff.mp rest
    cases same
    have here : bytes.take 3 ≠ [s.node, s.node, kLlapEnq] := fun enq => by
      rw [received_enq enq] at came
      cases came
    rw [onGuestFrame, if_neg here, came]
    simp only [handleDdp, bound, if_true, handleAtp, parsed, and_self]

/-- The network number another router announces. -/
def announced (s : AtalkStack) (src : Addr) : List Octet → Option (BitVec 16)
  | n1 :: n0 :: _ => if src.node = s.node ∨ n1 ++ n0 = 0#16 then none else some (n1 ++ n0)
  | _ => none

/-- The network number that an event brings: the one of another router, or the node's own once
no router has been heard for its time. -/
def brings (s : AtalkStack) : Event → Option (BitVec 16)
  | .frame bytes _ =>
    (s.received bytes).bind fun d =>
      if d.dstSock = kSockRtmp ∧ d.type = kDdpRtmpData ∧ s.ddpHandlers kSockRtmp = false then
        s.announced d.src d.payload
      else none
  | .tick now true =>
    if s.routerSeen ≠ 0 ∧ deferring { s with now := now } = false then some s.seededNet else none
  | _ => none

/-- The state with other news of routers. -/
def routed (s : AtalkStack) (net : Option (BitVec 16)) (seen : Int) (router : Octet) : AtalkStack :=
  { s with net := net.getD s.net, routerSeen := seen, routerNode := router }

theorem noteForeignRouter_eq (s : AtalkStack) (src : Addr) (p : List Octet) :
    ∃ seen router, s.noteForeignRouter src p = s.routed (s.announced src p) seen router := by
  fun_cases noteForeignRouter s src p
  case case2 n1 n0 rest other => exact ⟨_, src.node, by rw [announced, if_neg other]; rfl⟩
  all_goals exact ⟨s.routerSeen, s.routerNode, by simp [announced, routed, *]⟩

theorem serveSocket_eq (s : AtalkStack) (d : Ddp) (free : ¬ s.ddpHandlers d.dstSock = true) :
    ∃ seen router frames, s.serveSocket d = (s.routed
      (if d.dstSock = kSockRtmp ∧ d.type = kDdpRtmpData ∧ s.ddpHandlers kSockRtmp = false then
        s.announced d.src d.payload
      else none) seen router, List.map Output.frame frames) := by
  fun_cases serveSocket s d
  case case1 rtmp data =>
    obtain ⟨seen, router, noted⟩ := noteForeignRouter_eq s d.src d.payload
    rw [rtmp, Bool.not_eq_true] at free
    exact ⟨seen, router, [], by rw [noted, if_pos ⟨rtmp, data, free⟩]; rfl⟩
  case case2 data _ =>
    exact ⟨s.routerSeen, s.routerNode, _, by rw [if_neg fun all => data all.2.1]; rfl⟩
  case case3 data _ =>
    exact ⟨s.routerSeen, s.routerNode, [], by rw [if_neg fun all => data all.2.1]; rfl⟩
  case case4 other _ =>
    exact ⟨s.routerSeen, s.routerNode, _, by rw [if_neg fun all => other all.1]; rfl⟩
  case case5 other _ =>
    exact ⟨s.routerSeen, s.routerNode, [], by rw [if_neg fun all => other all.1]; rfl⟩

/-- Any other frame changes at most what is known of routers. -/
theorem onGuestFrame_of_not_heard (silent : s.heard bytes = none) (reaction : Reaction) :
    ∃ seen router frames, s.onGuestFrame bytes reaction =
      (s.routed (s.brings (.frame bytes reaction)) seen router, List.map Output.frame frames) := by
  rw [onGuestFrame, brings]
  split
  case isTrue enq => exact ⟨s.routerSeen, s.routerNode, [_], by rw [received_enq enq]; rfl⟩
  case isFalse =>
    cases came : s.received bytes with
    | none => exact ⟨s.routerSeen, s.routerNode, [], rfl⟩
    | some d =>
      rw [heard, came, Option.bind_some] at silent
      simp only [handleDdp, Option.bind_some]
      split at silent
      case isTrue bound =>
        have broken : Atp.parse d.payload = none := Option.map_eq_none_iff.mp silent
        have other : kDdpAtp ≠ kDdpRtmpData := by decide
        rw [if_pos bound, handleAtp, broken, if_neg fun all => other (bound.1.symm.trans all.2.1)]
        exact ⟨s.routerSeen, s.routerNode, [], rfl⟩
      case isFalse other =>
        rw [if_neg other]
        split
        case isTrue taken =>
          rw [if_neg fun all => Bool.false_ne_true (all.2.2.symm.trans (all.1 ▸ taken))]
          exact ⟨s.routerSeen, s.routerNode, [], rfl⟩
        case isFalse free => exact serveSocket_eq s d free

theorem beacon_eq (s : AtalkStack) :
    ∃ seen router due frames, s.beacon =
      ({ s.routed (s.brings (.tick s.now true)) seen router with nextRtmp := due },
        List.map Output.frame frames) := by
  have same (due : Int) : deferring { s with nextRtmp := due } = s.deferring := rfl
  have told : s.brings (.tick s.now true) =
      if s.routerSeen ≠ 0 ∧ s.deferring = false then some s.seededNet else none := rfl
  rw [told, beacon]
  by_cases due : s.nextRtmp ≤ s.now
  · simp only [due, if_true, same, true_and]
    split <;> split <;> first
      | exact ⟨_, _, _, _, rfl⟩
      | exact ⟨_, _, _, [], rfl⟩
  · simp only [due, if_false, false_and]
    split
    · exact ⟨0, 0#8, _, [], rfl⟩
    · exact ⟨s.routerSeen, s.routerNode, _, [], rfl⟩

/-- A tick that runs the protocols: news of routers, the sweep, and the requests due. -/
theorem tick_eq (s : AtalkStack) (now : Int) :
    ∃ seen router due frames swept,
      swept = sweep { s.routed (s.brings (.tick now true)) seen router with
        nextRtmp := due, now := now } ∧
      s.tick now true =
        ({ swept with requests := (swept.retry s.requests).1 },
          List.map Output.frame frames ++ (swept.retry s.requests).2) := by
  obtain ⟨seen, router, due, frames, sent⟩ := beacon_eq { s with now := now }
  refine ⟨seen, router, due, frames, _, rfl, ?_⟩
  rw [tick, sent]
  rfl

end AtalkStack

/-- The node of the emulator, at its usual place on the cable. -/
def Sample.node : AtalkStack := AtalkStack.configure {} 2#16 128#8 15667200

end Pom68k.Atalk
