import Pom68k.Foundation.Runs
import Pom68k.Atalk.Stack

/-! # Requests to be served once

A client asks for a transaction to be served exactly once, and asks again until it has heard
the whole answer. What the node owes to it is kept in a ledger beside the node: from the time
a handler was given the request, until the client releases it or half a minute after it was
answered, no handler is given it again, and the answer stays the same.

The node finds a request by a key that holds the number of the network, and that number
changes when another router is heard.
-/

namespace Pom68k.Atalk

open Foundation

/-- A request as its client sees it. A client on the cable has no need of a network. -/
structure Ident where
  net : Option (BitVec 16)
  node : Octet
  sock : Octet
  dstSock : Octet
  tid : BitVec 16
deriving DecidableEq

def AtalkStack.ident (s : AtalkStack) (src : Addr) (dstSock : Octet) (tid : BitVec 16) : Ident :=
  ⟨if src.net = s.net ∨ src.net = 0#16 then none else some src.net, src.node, src.sock, dstSock,
    tid⟩

/-- The time in which a request is owed one service: the transactions that handlers were
given for it, and the answer with the time it was made. -/
structure Period where
  txns : List Nat
  reply : Option (List Packet × Int)
deriving DecidableEq

/-- The first answer to one of its transactions is the answer of a period. -/
def Period.answered (p : Period) (id : Nat) (pkts : List Packet) (now : Int) : Period :=
  if id ∈ p.txns ∧ p.reply.isNone then { p with reply := some (pkts, now) } else p

abbrev Ledger := Ident → Option Period

namespace Ledger

def invoked (L : Ledger) (i : Ident) (id : Nat) : Ledger :=
  Function.update L i <| some <|
    match L i with
    | none => ⟨[id], none⟩
    | some p => { p with txns := p.txns ++ [id] }

def replied (L : Ledger) (id : Nat) (pkts : List Packet) (now : Int) : Ledger := fun i =>
  (L i).map fun p => p.answered id pkts now

/-- Half a minute after the answer a period is over. -/
def expire (L : Ledger) (cpuHz now : Int) : Ledger := fun i =>
  (L i).filter fun p => p.reply.all fun r => now < r.2 + 30 * cpuHz

end Ledger

/-- The node with the ledger of its clients. -/
structure Watched where
  stack : AtalkStack
  ledger : Ledger := fun _ => none

namespace Watched

open AtalkStack

/-- What a step writes to the ledger. -/
def record (w : Watched) : Event → Ledger
  | .frame bytes reaction =>
    match w.stack.heard bytes with
    | none => w.ledger
    | some (d, a) =>
      let i := w.stack.ident d.src d.dstSock a.tid
      let id := w.stack.txns.length
      if a.func = kAtpTReq then
        if .invoked id ∈ (w.stack.onGuestFrame bytes reaction).2 then
          let L := if a.xo then w.ledger.invoked i id else w.ledger
          match reaction with
          | .respond pkts => L.replied id pkts w.stack.now
          | .keep | .ignore => L
        else w.ledger
      else if a.func = kAtpTRel then Function.update w.ledger i none
      else w.ledger
  | .tick now _ => w.ledger.expire w.stack.cpuHz now
  | .reply id pkts =>
    if (w.stack.txns[id]?).any fun t => t.done = false then
      w.ledger.replied id pkts w.stack.now
    else w.ledger
  | .request .. => w.ledger

def step (w : Watched) (e : Event) : Watched := ⟨(w.stack.step e).1, w.record e⟩

/-- Nothing comes between the node and its clients: no other number of the network is brought while
a request is owed, a client on the cable does not leave it out of a long header, no handler
drops a request, and an answer is given in time and while the request stands. -/
structure Sane (w : Watched) (e : Event) : Prop where
  steady : (∀ net, w.stack.brings e = some net → net = w.stack.net) ∨ ∀ i, w.ledger i = none
  numbered : ∀ bytes reaction d a, e = .frame bytes reaction →
    w.stack.heard bytes = some (d, a) → d.src.net = 0#16 → w.stack.net = 0#16
  heeded : ∀ bytes d a, e = .frame bytes .ignore → w.stack.heard bytes = some (d, a) →
    a.func = kAtpTReq → a.xo = false
  prompt : ∀ now k (p : PendingTxn) (t : AtpTxn), e = .tick now true →
    w.stack.pendingTxns k = some p → w.stack.txns[p.txn]? = some t → t.xo = true →
    now < p.expires
  timely : ∀ id pkts (t : AtpTxn), e = .reply id pkts → w.stack.txns[id]? = some t →
    t.done = false →
    (∃ x, w.stack.pendingTxns t.key = some ⟨id, x⟩) ∨
      w.stack.xoCache t.key = none ∧ w.stack.pendingTxns t.key = none

end Watched

/-! ## What the node holds of a request -/

/-- A transaction that is not yet answered is pending, one that is stands in the cache. -/
def AtalkStack.Holds (s : AtalkStack) (id : Nat) (t : AtpTxn) :
    Option (List Packet × Int) → Prop
  | none => t.done = false ∧ ∃ x, s.pendingTxns t.key = some ⟨id, x⟩
  | some (pkts, at_) => t.done = true ∧ s.xoCache t.key = some ⟨pkts, at_ + 30 * s.cpuHz⟩

/-- The node can find what it owes for a request. -/
def AtalkStack.Owes (s : AtalkStack) (i : Ident) (p : Period) : Prop :=
  ∃ id t, p.txns = [id] ∧ s.txns[id]? = some t ∧ t.xo = true ∧
    (t.src.net = 0#16 → s.net = 0#16) ∧ s.ident t.src t.sock t.tid = i ∧ s.Holds id t p.reply

/-- The node owes what the ledger says. -/
structure Faithful (s : AtalkStack) (L : Ledger) : Prop where
  apart : ∀ k, s.pendingTxns k ≠ none → s.xoCache k = none
  owes : ∀ i p, L i = some p → s.Owes i p

/-! ## Keys -/

theorem extract_txnKey (a : Addr) (u : Octet) (t : BitVec 16) :
    (txnKey a u t).extractLsb' 32 16 = a.net ∧ (txnKey a u t).extractLsb' 24 8 = a.node ∧
      (txnKey a u t).extractLsb' 16 8 = a.sock ∧ (txnKey a u t).extractLsb' 48 8 = u ∧
      (txnKey a u t).extractLsb' 0 16 = t := by
  refine ⟨?_, ?_, ?_, ?_, ?_⟩ <;>
    refine BitVec.eq_of_getLsbD_eq fun i inside => ?_ <;>
    simp [txnKey] <;> grind

/-- The parts of a key can be read back. -/
theorem txnKey_inj {a b : Addr} {u v : Octet} {t r : BitVec 16}
    (same : txnKey a u t = txnKey b v r) :
    a.net = b.net ∧ a.node = b.node ∧ a.sock = b.sock ∧ u = v ∧ t = r := by
  obtain ⟨net, node, sock, dst, tid⟩ := extract_txnKey a u t
  obtain ⟨net', node', sock', dst', tid'⟩ := extract_txnKey b v r
  rw [same] at net node sock dst tid
  exact ⟨net.symm.trans net', node.symm.trans node', sock.symm.trans sock',
    dst.symm.trans dst', tid.symm.trans tid'⟩

variable {id : Nat}

namespace AtalkStack

variable {s s' : AtalkStack} {a b : Addr} {u v : Octet} {t r : BitVec 16}
  {reply : Option (List Packet × Int)}

theorem ident_of_key (same : txnKey a u t = txnKey b v r) : s.ident a u t = s.ident b v r := by
  obtain ⟨net, node, sock, dst, tid⟩ := txnKey_inj same
  rw [ident, ident, net, node, sock, dst, tid]

/-- As long as the number of the network stays, a request comes under one key. -/
theorem key_of_ident (first : a.net = 0#16 → s.net = 0#16) (second : b.net = 0#16 → s.net = 0#16)
    (same : s.ident a u t = s.ident b v r) : txnKey a u t = txnKey b v r := by
  obtain ⟨net, node, sock, dst, tid⟩ := Ident.mk.inj same
  have together : a.net = b.net := by grind
  rw [txnKey, txnKey, together, node, sock, dst, tid]

/-! ## What stays with the node -/

theorem Holds.found {t : AtpTxn} (holds : s.Holds id t reply) (gone : s.xoCache t.key = none)
    (idle : s.pendingTxns t.key = none) : False := by
  match reply, holds with
  | none, ⟨_, x, kept⟩ => simp [kept] at idle
  | some _, ⟨_, kept⟩ => simp [kept] at gone

theorem Holds.congr {t : AtpTxn}
    (holds : s.Holds id t reply) (pending : s'.pendingTxns t.key = s.pendingTxns t.key)
    (cached : s'.xoCache t.key = s.xoCache t.key := by rfl)
    (hz : s'.cpuHz = s.cpuHz := by rfl) : s'.Holds id t reply := by
  match reply, holds with
  | none, holds => exact ⟨holds.1, pending ▸ holds.2⟩
  | some _, holds => exact ⟨holds.1, by rw [cached, hz, holds.2]⟩

/-- A step that leaves a transaction and its key alone leaves what is owed for it. -/
theorem Owes.keep {i : Ident} {p : Period} (owes : s.Owes i p) (net : s'.net = s.net)
    (same : ∀ id t, p.txns = [id] → s.txns[id]? = some t → s.ident t.src t.sock t.tid = i →
      s.Holds id t p.reply → s'.txns[id]? = some t ∧ s'.Holds id t p.reply) : s'.Owes i p := by
  obtain ⟨id, t, one, found, xo, numbered, named, holds⟩ := owes
  obtain ⟨found', holds'⟩ := same id t one found named holds
  exact ⟨id, t, one, found', xo, net ▸ numbered, by rw [← named, ident, ident, net], holds'⟩

end AtalkStack

open AtalkStack

variable {s : AtalkStack} {L : Ledger} {w : Watched} {reaction : Reaction} {bytes : List Octet}
  {a : Atp}

/-! ## Answers -/

theorem respond_of_done {pkts : List Packet}
    (closed : (s.txns[id]?).any (fun t => t.done = false) = false) :
    s.respond id pkts = (s, []) := by
  rw [AtalkStack.respond]
  cases found : s.txns[id]? with
  | none => rfl
  | some t => simp_all

theorem respond_of_fresh {t : AtpTxn} (found : s.txns[id]? = some t) (fresh : t.done = false)
    (pkts : List Packet) : (s.respond id pkts).1 =
      { s with
        txns := s.txns.set id { t with done := true }
        xoCache :=
          if t.xo then Function.update s.xoCache t.key (some ⟨pkts, s.release⟩) else s.xoCache
        pendingTxns := Function.update s.pendingTxns t.key none } := by
  simp only [AtalkStack.respond, found, fresh, Bool.false_eq_true, if_false]

section

variable (faithful : Faithful s L)
include faithful

theorem Faithful.respond {t : AtpTxn}
    (found : s.txns[id]? = some t) (fresh : t.done = false) (pkts : List Packet)
    (timely : (∃ x, s.pendingTxns t.key = some ⟨id, x⟩) ∨
      s.xoCache t.key = none ∧ s.pendingTxns t.key = none) :
    Faithful (s.respond id pkts).1 (L.replied id pkts s.now) := by
  have gone : s.xoCache t.key = none := by
    rcases timely with ⟨x, pending⟩ | idle
    · exact faithful.apart t.key (by simp [pending])
    · exact idle.1
  rw [respond_of_fresh found fresh]
  refine ⟨fun k pending => ?_, fun i p live => ?_⟩
  · dsimp only at pending ⊢
    by_cases key : k = t.key
    · simp [key] at pending
    · rw [Function.update_of_ne key] at pending
      split
      · rw [Function.update_of_ne key, faithful.apart k pending]
      · exact faithful.apart k pending
  · obtain ⟨p, old, rfl⟩ := Option.map_eq_some_iff.mp live
    obtain ⟨id', t', one, found', xo, numbered, named, holds⟩ := faithful.owes i p old
    by_cases same : id' = id
    · subst same
      cases found.symm.trans found'
      have unanswered : p.reply = none := by
        cases reply : p.reply with
        | none => rfl
        | some r =>
          rw [reply] at holds
          exact absurd holds.1 (by simp [fresh])
      have inside : id' < s.txns.length := (List.getElem?_eq_some_iff.mp found).1
      rw [Period.answered, if_pos (c := id' ∈ p.txns ∧ _) ⟨by simp [one], by simp [unanswered]⟩]
      refine ⟨id', { t with done := true }, one, by simp [inside], xo, numbered, named, rfl, ?_⟩
      simp [xo, AtpTxn.key, release]
    · rw [Period.answered, if_neg (c := id ∈ p.txns ∧ _) (by simp [one, Ne.symm same])]
      have apart : t'.key ≠ t.key := fun key => by
        rw [← key] at gone timely
        rcases timely with ⟨x, pending⟩ | idle
        · match reply : p.reply, holds with
          | none, ⟨_, y, pending'⟩ => simp_all
          | some _, ⟨_, cached⟩ => simp_all
        · exact holds.found idle.1 idle.2
      refine ⟨id', t', one, ?_, xo, numbered, named, holds.congr ?_ ?_⟩
      · simp [List.getElem?_set_ne (Ne.symm same), found']
      · dsimp only
        rw [Function.update_of_ne apart]
      · dsimp only
        split
        · rw [Function.update_of_ne apart]
        · rfl

/-! ## Requests -/

/-- A handler is given a request that nothing is held of. -/
theorem Faithful.invoke_keep {src : Addr} {dstSock : Octet}
    (numbered : src.net = 0#16 → s.net = 0#16) (gone : s.xoCache (txnKey src dstSock a.tid) = none)
    (idle : s.pendingTxns (txnKey src dstSock a.tid) = none) :
    Faithful (s.invoke src dstSock a .keep).1
      (if a.xo then L.invoked (s.ident src dstSock a.tid) s.txns.length else L) := by
  have kept : ∀ i p, L i = some p → (s.invoke src dstSock a .keep).1.Owes i p := by
    intro i p live
    refine (faithful.owes i p live).keep rfl fun id t _ found _ holds => ⟨?_, ?_⟩
    · exact (List.getElem?_append_left (List.getElem?_eq_some_iff.mp found).1).trans found
    · have apart : t.key ≠ txnKey src dstSock a.tid := fun key =>
        holds.found (key ▸ gone) (key ▸ idle)
      refine holds.congr ?_
      dsimp only [invoke]
      rw [Function.update_of_ne apart]
  refine ⟨fun k pending => ?_, fun i p live => ?_⟩
  · dsimp only [invoke] at pending ⊢
    by_cases key : k = txnKey src dstSock a.tid
    · rw [key, gone]
    · rw [Function.update_of_ne key] at pending
      exact faithful.apart k pending
  · by_cases xo : a.xo
    · rw [if_pos xo, Ledger.invoked] at live
      by_cases named : i = s.ident src dstSock a.tid
      · have absent : L (s.ident src dstSock a.tid) = none := by
          by_contra present
          obtain ⟨p', live'⟩ := Option.ne_none_iff_exists'.mp present
          obtain ⟨id, t, _, _, _, numbered', named', holds⟩ := faithful.owes _ p' live'
          have key : t.key = txnKey src dstSock a.tid := key_of_ident numbered' numbered named'
          exact holds.found (key ▸ gone) (key ▸ idle)
        subst named
        rw [Function.update_self, absent] at live
        cases live
        refine ⟨s.txns.length, ⟨src, a.body, a.tid, a.bs, dstSock, a.xo, false⟩, rfl,
          List.getElem?_concat_length, xo, numbered, rfl, rfl, s.release, ?_⟩
        dsimp only [invoke, AtpTxn.key]
        rw [Function.update_self]
      · rw [Function.update_of_ne named] at live
        exact kept i p live
    · rw [if_neg xo] at live
      exact kept i p live

theorem Faithful.invoke_ignore {src : Addr} {dstSock : Octet}
    (idle : s.pendingTxns (txnKey src dstSock a.tid) = none) :
    Faithful (s.invoke src dstSock a .ignore).1 L := by
  have same : (s.invoke src dstSock a .ignore).1.pendingTxns = s.pendingTxns := by
    dsimp only [invoke]
    rw [Function.update_idem, ← idle, Function.update_eq_self]
  refine ⟨fun k pending => faithful.apart k (same ▸ pending), fun i p live => ?_⟩
  refine (faithful.owes i p live).keep rfl fun id t _ found _ holds => ⟨?_, ?_⟩
  · exact (List.getElem?_append_left (List.getElem?_eq_some_iff.mp found).1).trans found
  · exact holds.congr (congrFun same _)

theorem Faithful.release (src : Addr) (dstSock : Octet) (a : Atp) :
    Faithful (s.handleTRel src dstSock a)
      (Function.update L (s.ident src dstSock a.tid) none) := by
  refine ⟨fun k pending => ?_, fun i p live => ?_⟩
  · dsimp only [handleTRel] at pending ⊢
    by_cases key : k = txnKey src dstSock a.tid
    · rw [key, Function.update_self]
    · rw [Function.update_of_ne key] at pending ⊢
      exact faithful.apart k pending
  · by_cases named : i = s.ident src dstSock a.tid
    · simp [named] at live
    · rw [Function.update_of_ne named] at live
      refine (faithful.owes i p live).keep rfl fun id t _ found named' holds => ⟨found, ?_⟩
      have apart : t.key ≠ txnKey src dstSock a.tid := fun key =>
        named (named'.symm.trans (ident_of_key key))
      refine holds.congr ?_ ?_ <;>
      · dsimp only [handleTRel]
        rw [Function.update_of_ne apart]

theorem Faithful.routed (net : Option (BitVec 16)) (seen : Int) (router : Octet)
    (steady : (∀ n, net = some n → n = s.net) ∨ ∀ i, L i = none) :
    Faithful (s.routed net seen router) L := by
  refine ⟨faithful.apart, fun i p live => ?_⟩
  rcases steady with same | none
  · have kept : net.getD s.net = s.net := by
      cases net with
      | none => rfl
      | some n => exact same n rfl
    refine (faithful.owes i p live).keep kept fun id t _ found _ holds => ⟨found, ?_⟩
    exact holds.congr rfl
  · rw [none i] at live
    cases live

/-- What is over by the clock is over in the ledger. -/
theorem Faithful.expire (cpuHz now : Int) : Faithful s (L.expire cpuHz now) :=
  ⟨faithful.apart, fun i p live => faithful.owes i p (Option.filter_eq_some_iff.mp live).1⟩

theorem Faithful.sweep
    (prompt : ∀ k p t, s.pendingTxns k = some p → s.txns[p.txn]? = some t → t.xo = true →
      s.now < p.expires) : Faithful s.sweep (L.expire s.cpuHz s.now) := by
  refine ⟨fun k pending => ?_, fun i p live => ?_⟩
  · dsimp only [AtalkStack.sweep] at pending ⊢
    rw [faithful.apart k fun idle => pending (by rw [idle, Option.filter_none]), Option.filter_none]
  · obtain ⟨live, going⟩ := Option.filter_eq_some_iff.mp live
    obtain ⟨id, t, one, found, xo, numbered, named, holds⟩ := faithful.owes i p live
    refine ⟨id, t, one, found, xo, numbered, named, ?_⟩
    match reply : p.reply, holds with
    | none, ⟨fresh, x, pending⟩ =>
      refine ⟨fresh, x, ?_⟩
      dsimp only [AtalkStack.sweep]
      rw [pending, Option.filter_some, if_pos (by simpa using prompt _ _ t pending found xo)]
    | some (pkts, then_), ⟨closed, cached⟩ =>
      refine ⟨closed, ?_⟩
      rw [reply] at going
      dsimp only [AtalkStack.sweep]
      rw [cached, Option.filter_some, if_pos (by simpa using going)]

end

/-! ## Steps -/

theorem Faithful.handleTReq (faithful : Faithful w.stack w.ledger)
    (sane : w.Sane (.frame bytes reaction)) {d : Ddp} (heard : w.stack.heard bytes = some (d, a))
    (asks : a.func = kAtpTReq) :
    Faithful (w.step (.frame bytes reaction)).stack (w.step (.frame bytes reaction)).ledger := by
  have moved : w.stack.onGuestFrame bytes reaction =
      w.stack.handleTReq d.src d.dstSock a reaction := by
    rw [onGuestFrame_of_heard heard, if_pos asks]
  dsimp only [Watched.step, Watched.record, AtalkStack.step]
  simp only [heard, asks, if_true]
  rw [moved, AtalkStack.handleTReq]
  cases cached : w.stack.xoCache (txnKey d.src d.dstSock a.tid) with
  | some entry => simpa using faithful
  | none =>
    cases pending : w.stack.pendingTxns (txnKey d.src d.dstSock a.tid) with
    | some entry => simpa using faithful
    | none =>
      have kept := faithful.invoke_keep (sane.numbered _ _ d a rfl heard) cached pending
      rw [Option.isSome_none, if_neg Bool.false_ne_true]
      match reaction, sane with
      | .keep, sane => simpa [invoke] using kept
      | .ignore, sane =>
        have plain := sane.heeded bytes d a rfl heard asks
        simpa [plain] using faithful.invoke_ignore pending
      | .respond pkts, sane =>
        have answered := kept.respond List.getElem?_concat_length rfl pkts
          (.inl ⟨w.stack.release, Function.update_self ..⟩)
        rwa [if_pos (by simp [invoke])]

theorem Faithful.step {e : Event} (sane : w.Sane e) (faithful : Faithful w.stack w.ledger) :
    Faithful (w.step e).stack (w.step e).ledger := by
  cases e with
  | frame bytes reaction =>
    cases heard : w.stack.heard bytes with
    | none =>
      obtain ⟨seen, router, frames, moved⟩ := onGuestFrame_of_not_heard heard reaction
      simp only [Watched.step, Watched.record, AtalkStack.step, heard, moved]
      exact faithful.routed _ seen router sane.steady
    | some packet =>
      obtain ⟨d, a⟩ := packet
      by_cases asks : a.func = kAtpTReq
      · exact faithful.handleTReq sane heard asks
      simp only [Watched.step, Watched.record, AtalkStack.step, heard,
        onGuestFrame_of_heard heard, asks]
      by_cases answers : a.func = kAtpTResp
      · have other : kAtpTResp ≠ kAtpTRel := by decide
        simp only [answers]
        exact ⟨faithful.apart, faithful.owes⟩
      · simp only [answers, if_false]
        split
        · exact faithful.release d.src d.dstSock a
        · exact faithful
  | tick now runProtocols =>
    cases runProtocols with
    | false =>
      have expired := faithful.expire w.stack.cpuHz now
      exact ⟨expired.apart, expired.owes⟩
    | true =>
      obtain ⟨seen, router, due, frames, swept, rfl, moved⟩ := tick_eq w.stack now
      simp only [Watched.step, AtalkStack.step, moved]
      have routed := faithful.routed _ seen router sane.steady
      have later : Faithful { w.stack.routed _ seen router with nextRtmp := due, now := now }
          w.ledger := ⟨routed.apart, routed.owes⟩
      have ended := later.sweep fun k p t => sane.prompt now k p t rfl
      exact ⟨ended.apart, ended.owes⟩
  | reply id pkts =>
    simp only [Watched.step, Watched.record, AtalkStack.step]
    split
    case isTrue fresh =>
      cases found : w.stack.txns[id]? with
      | none => simp [found] at fresh
      | some t =>
        have fresh : t.done = false := by simpa [found] using fresh
        exact faithful.respond found fresh pkts (sane.timely id pkts t rfl found fresh)
    case isFalse closed =>
      rwa [respond_of_done (Bool.eq_false_of_not_eq_true closed)]
  | request dst srcSock req maxResp xo =>
    simp only [Watched.step, AtalkStack.step, atpRequest]
    split <;> exact ⟨faithful.apart, faithful.owes⟩

/-! ## Runs -/

/-- Nothing is owed to anyone yet. -/
structure AtalkStack.Idle (s : AtalkStack) : Prop where
  xoCache : ∀ k, s.xoCache k = none
  pendingTxns : ∀ k, s.pendingTxns k = none

namespace Sample

/-- Node 5 asks for its zone, to be served once. -/
def zoneRequest : List Octet :=
  [128#8, 5#8, 1#8, 0#8, 13#8, 6#8, 200#8, 3#8, 0x60#8, 1#8, 0#8, 1#8, 7#8, 0#8, 0#8, 0#8]

/-- Node 130 routes the cable as network 3. -/
def beacon : List Octet := [255#8, 130#8, 1#8, 0#8, 9#8, 1#8, 1#8, 1#8, 0#8, 3#8, 8#8, 130#8]

def zoneReply : List Packet := [[1#8, 0#8, 0#8, 1#8, 1#8, 42#8]]

def asked : Ident := ⟨none, 5#8, 200#8, 6#8, 1#16⟩

/-- The node when it has answered. -/
def answered : Watched :=
  run Watched.step ⟨node, fun _ => none⟩ [.frame zoneRequest (.respond zoneReply)]

/-- The packet in the request. -/
def packet : Ddp × Atp :=
  (⟨⟨2#16, 5#8, 200#8, false⟩, 6#8, 3#8, [0x60#8, 1#8, 0#8, 1#8, 7#8, 0#8, 0#8, 0#8]⟩,
    ⟨0x60#8, 1#8, 1#16, [7#8, 0#8, 0#8, 0#8]⟩)

end Sample

end Pom68k.Atalk
