import Pom68k.MacIp.Gateway
import Pom68k.Foundation.Runs

/-! # The stream from the host to the guest

A connection sends the guest one stream: a SYN, the octets of the host, a FIN. Everything
it does with sequence numbers is accounted for by that stream and by how many of its units
the guest has acknowledged.
-/

namespace Pom68k.MacIp

open Foundation

/-- The sending half of a connection. -/
structure Sender where
  state : ConnState
  isn : BitVec 32
  sndSeq : BitVec 32
  sndUna : BitVec 32
  synAcked : Bool
  finSent : Bool
  sockEof : Bool
  unacked : List Octet

def TcpConn.sender (c : TcpConn) : Sender :=
  ⟨c.state, c.isn, c.sndSeq, c.sndUna, c.synAcked, c.finSent, c.sockEof, c.unacked⟩

/-- A sequence number of the stream: the SYN is unit 0, the octets follow, then the FIN. -/
def place (isn : BitVec 32) (unit : Nat) : BitVec 32 := isn + BitVec.ofNat 32 unit

theorem place_add (isn : BitVec 32) (unit n : Nat) :
    place isn unit + BitVec.ofNat 32 n = place isn (unit + n) := by
  rw [place, place, BitVec.add_assoc, BitVec.ofNat_add]

theorem place_sub (isn : BitVec 32) (unit n : Nat) :
    place isn (unit + n) - place isn unit = BitVec.ofNat 32 n := by
  rw [← place_add, BitVec.add_comm, BitVec.add_sub_cancel]

/-- A sender has received some octets of the host, and so many units of its stream are
acknowledged. -/
structure Streams (s : Sender) (got : List Octet) (acked : Nat) : Prop where
  sndUna : s.sndUna = place s.isn acked
  syn : s.synAcked = decide (acked ≠ 0)
  queue : s.unacked = got.drop (acked - 1)
  bound : acked ≤ 1 + got.length + s.finSent.toNat
  early : acked = 0 → got = [] ∧ s.finSent = false
  eof : s.finSent = true → s.sockEof = true
  connecting : s.state = .connecting → s.sndSeq = s.isn ∧ got = [] ∧ s.finSent = false
  established : s.state = .established → s.sndSeq = place s.isn (1 + got.length + s.finSent.toNat)

variable {s : Sender} {k : Nat} {seg : Segment} {got : List Octet} {ack una : BitVec 32}

theorem Streams.synAcked_iff {acked : Nat} (streams : Streams s got acked) :
    s.synAcked = true ↔ acked ≠ 0 := by
  rw [streams.syn, decide_eq_true_iff]

section

variable {acked : Nat} (streams : Streams s got acked)
include streams

theorem Streams.dead : Streams { s with state := .dead } got acked :=
  { streams with connecting := nofun, established := nofun }

/-! ## Acknowledgements -/

/-- The next unit is acknowledged: the SYN, or the FIN behind all octets. -/
theorem Streams.unit (room : acked + 1 ≤ 1 + got.length + s.finSent.toNat)
    (single : s.unacked = []) :
    Streams { s with synAcked := true, sndUna := s.sndUna + 1#32 } got (acked + 1) where
  sndUna := by
    rw [streams.sndUna]
    exact place_add s.isn acked 1
  syn := rfl
  queue := by
    have none := List.drop_eq_nil_iff.mp (streams.queue.symm.trans single)
    rw [single, List.drop_eq_nil_iff.mpr (by omega)]
  bound := room
  early := nofun
  eof := streams.eof
  connecting := streams.connecting
  established := streams.established

/-- Octets at the front of the queue are acknowledged. -/
theorem Streams.octets (handshake : acked ≠ 0) (inside : k ≤ s.unacked.length) :
    Streams { s with unacked := s.unacked.drop k, sndUna := s.sndUna + BitVec.ofNat 32 k } got
      (acked + k) where
  sndUna := by
    rw [streams.sndUna]
    exact place_add s.isn acked k
  syn := by
    rw [streams.syn, decide_eq_true handshake, decide_eq_true (by omega)]
  queue := by
    change s.unacked.drop k = _
    rw [streams.queue, List.drop_drop]
    congr 1
    omega
  bound := by
    have := streams.bound
    rw [streams.queue, List.length_drop] at inside
    change _ ≤ 1 + got.length + s.finSent.toNat
    omega
  early none := absurd none (by omega)
  eof := streams.eof
  connecting := streams.connecting
  established := streams.established

/-- The FIN is still to be acknowledged while the sender is behind its own sequence number
with an empty queue. -/
theorem Streams.fin_pending (alive : s.state ≠ .dead) (fin : s.finSent = true)
    (behind : s.sndUna ≠ s.sndSeq) : acked + 1 ≤ 1 + got.length + s.finSent.toNat := by
  have bound := streams.bound
  rcases Nat.lt_or_eq_of_le bound with less | all
  · exact less
  refine absurd ?_ behind
  cases state : s.state with
  | dead => exact absurd state alive
  | connecting =>
    have open_ := (streams.connecting state).2.2
    rw [fin] at open_
    cases open_
  | established => rw [streams.sndUna, streams.established state, all]

end

theorem toNat_sub_add (covered : k ≤ (ack - una).toNat) :
    (ack - (una + BitVec.ofNat 32 k)).toNat = (ack - una).toNat - k := by
  bv_omega

/-- An acknowledgement of some units, and then of more. -/
theorem covered_trans {n : Nat} (before : seqLt una ack = true)
    (covered : k ≤ (ack - una).toNat)
    (after : n = 0 ∨ (ack - (una + BitVec.ofNat 32 k)).toNat ≤ 2 ^ 31 ∧
      n ≤ (ack - (una + BitVec.ofNat 32 k)).toNat) :
    k + n = 0 ∨ (ack - una).toNat ≤ 2 ^ 31 ∧ k + n ≤ (ack - una).toNat := by
  have bound := (seqLt_iff.mp before).2
  rw [toNat_sub_add covered] at after
  omega

/-- How far an acknowledgement moves the sender: not behind what it names, and not behind
what was sent. -/
theorem Streams.ackLoop {c : TcpConn} {acked : Nat} (ack : BitVec 32)
    (streams : Streams c.sender got acked) (alive : c.state ≠ .dead) :
    ∃ n, Streams (c.ackLoop ack).sender got (acked + n) ∧
      (n = 0 ∨ (ack - c.sndUna).toNat ≤ 2 ^ 31 ∧ n ≤ (ack - c.sndUna).toNat) ∧
      (c.ackLoop ack).state = c.state ∧ (c.ackLoop ack).isn = c.isn ∧
      (c.ackLoop ack).finSent = c.finSent := by
  fun_induction TcpConn.ackLoop c ack generalizing acked with
  | case1 c before fresh ih =>
    have none : acked = 0 := by
      by_contra some
      cases fresh.symm.trans (streams.synAcked_iff.mpr some)
    subst none
    have empty : c.unacked = [] := by
      rw [show c.unacked = got.drop (0 - 1) from streams.queue, (streams.early rfl).1, List.drop_nil]
    have next := streams.unit (by omega) empty
    obtain ⟨n, moved, covered, same⟩ := ih next alive
    exact ⟨1 + n, Nat.add_assoc .. ▸ moved,
      covered_trans before.1 (seqLt_iff.mp before.1).1 covered, same⟩
  | case2 c before acknowledged waiting none => exact ⟨0, streams, .inl rfl, rfl, rfl, rfl⟩
  | case3 c before acknowledged waiting k some =>
    rename_i ih
    have handshake := streams.synAcked_iff.mp (Bool.not_eq_false _ ▸ acknowledged)
    have next := streams.octets handshake (show k ≤ c.unacked.length from Nat.min_le_left ..)
    obtain ⟨n, moved, covered, same⟩ := ih next alive
    exact ⟨k + n, Nat.add_assoc .. ▸ moved,
      covered_trans before.1 (Nat.min_le_right ..) covered, same⟩
  | case4 c before acknowledged waiting fin ih =>
    have next := streams.unit (streams.fin_pending alive fin.1 fin.2) (not_not.mp waiting)
    have syn : c.synAcked = true := Bool.not_eq_false _ ▸ acknowledged
    rw [← syn] at next
    obtain ⟨n, moved, covered, same⟩ := ih next alive
    exact ⟨1 + n, Nat.add_assoc .. ▸ moved,
      covered_trans before.1 (seqLt_iff.mp before.1).1 covered, same⟩
  | case5 c => exact ⟨0, streams, .inl rfl, rfl, rfl, rfl⟩
  | case6 c => exact ⟨0, streams, .inl rfl, rfl, rfl, rfl⟩

/-! ## The stages of a pump -/

/-- A segment carries a part of the stream under the sequence number it has there; a FIN
stands behind all of it. -/
structure Carries (isn : BitVec 32) (got : List Octet) (seg : Segment) : Prop where
  data : seg.data ≠ [] → ∃ i, seg.seq = place isn (1 + i) ∧ seg.data <+: got.drop i
  fin : flag seg.flags 0x01#8 = true → seg.seq = place isn (1 + got.length) ∧ seg.data = []

/-- More of the stream does not matter to a segment without a FIN. -/
theorem Carries.more {isn : BitVec 32} (carries : Carries isn got seg) {more : List Octet}
    (last : flag seg.flags 0x01#8 = true → more = []) : Carries isn (got ++ more) seg where
  data some := by
    obtain ⟨i, seq, here⟩ := carries.data some
    have inside : i ≤ got.length := by
      by_contra outside
      rw [List.drop_eq_nil_iff.mpr (by omega)] at here
      exact some (List.prefix_nil.mp here)
    refine ⟨i, seq, here.trans ?_⟩
    rw [List.drop_append_of_le_length inside]
    exact List.prefix_append ..
  fin ends := by
    rw [last ends, List.append_nil]
    exact carries.fin ends

theorem carries_empty {isn : BitVec 32} (empty : seg.data = [])
    (open_ : flag seg.flags 0x01#8 = false) : Carries isn got seg where
  data some := absurd empty some
  fin ends := absurd ends (Bool.eq_false_iff.mp open_)

/-- What a stage does to a connection with a stream: it may add what it received, within
the window, and what it sends is of the stream. -/
structure Advances (c : TcpConn) (got : List Octet) (acked : Nat) (r : TcpConn × TcpOut) :
    Prop where
  state : r.1.state = c.state ∨ r.1.state = .dead
  isn : r.1.isn = c.isn
  sndUna : r.1.sndUna = c.sndUna
  guestWin : r.1.guestWin = c.guestWin
  streams : Streams r.1.sender (got ++ r.2.received) acked
  queue : r.1.unacked = c.unacked ++ r.2.received
  fits : r.2.received ≠ [] → r.1.unacked.length ≤ c.window
  closed : c.finSent = true → r.1.finSent = true ∧ r.2.received = []
  carries : ∀ seg ∈ r.2.segments, Carries c.isn (got ++ r.2.received) seg
  fins : ∀ seg ∈ r.2.segments, flag seg.flags 0x01#8 = true → r.1.finSent = true

section

variable {c : TcpConn} {acked : Nat} {r : TcpConn × TcpOut}

theorem Advances.andThen {stage : TcpConn → TcpConn × TcpOut} (first : Advances c got acked r)
    (second : r.1.state = c.state → Advances r.1 (got ++ r.2.received) acked (stage r.1)) :
    Advances c got acked (TcpConn.andThen r stage) := by
  rw [TcpConn.andThen]
  split_ifs with dead
  · exact first
  · have same := first.state.resolve_right dead
    have next := second same
    have received : (r.2 ++ (stage r.1).2).received = r.2.received ++ (stage r.1).2.received := rfl
    refine ⟨same ▸ next.state, next.isn.trans first.isn, next.sndUna.trans first.sndUna,
      next.guestWin.trans first.guestWin, ?_, ?_, ?_, ?_, ?_, ?_⟩
    · rw [received, ← List.append_assoc]
      exact next.streams
    · rw [received, ← List.append_assoc, ← first.queue]
      exact next.queue
    · intro some
      rw [received] at some
      by_cases none : (stage r.1).2.received = []
      · rw [none, List.append_nil] at some
        rw [next.queue, none, List.append_nil]
        exact first.fits some
      · have fits := next.fits none
        rwa [TcpConn.window, first.guestWin] at fits
    · intro fin
      obtain ⟨fin', none⟩ := first.closed fin
      obtain ⟨fin'', none'⟩ := next.closed fin'
      exact ⟨fin'', by rw [received, none, none']; rfl⟩
    · intro seg inside
      rw [received, ← List.append_assoc]
      rcases List.mem_append.mp inside with inside | inside
      · exact (first.carries seg inside).more fun ends =>
          (next.closed (first.fins seg inside ends)).2
      · have carries := next.carries seg inside
        rwa [first.isn] at carries
    · exact List.forall_mem_append.mpr
        ⟨fun seg inside ends => (next.closed (first.fins seg inside ends)).1, next.fins⟩

/-- What is not of the sending half does not matter. -/
theorem Advances.of_sender {c' : TcpConn} (next : Advances c' got acked r)
    (same : c'.sender = c.sender) (guestWin : c'.guestWin = c.guestWin) :
    Advances c got acked r := by
  have state : c'.state = c.state := congrArg Sender.state same
  have isn : c'.isn = c.isn := congrArg Sender.isn same
  have sndUna : c'.sndUna = c.sndUna := congrArg Sender.sndUna same
  have unacked : c'.unacked = c.unacked := congrArg Sender.unacked same
  have finSent : c'.finSent = c.finSent := congrArg Sender.finSent same
  have window : c'.window = c.window := by rw [TcpConn.window, TcpConn.window, guestWin]
  exact ⟨state ▸ next.state, isn ▸ next.isn, sndUna ▸ next.sndUna, guestWin ▸ next.guestWin,
    next.streams, unacked ▸ next.queue, window ▸ next.fits, finSent ▸ next.closed,
    isn ▸ next.carries, next.fins⟩

/-- A stage that leaves the sender alone and sends nothing of the stream. -/
theorem advances_quiet (streams : Streams c.sender got acked)
    (same : r.1.sender = c.sender) (guestWin : r.1.guestWin = c.guestWin)
    (received : r.2.received = [])
    (carries : ∀ seg ∈ r.2.segments, Carries c.isn got seg)
    (fins : ∀ seg ∈ r.2.segments, flag seg.flags 0x01#8 = true → c.finSent = true) :
    Advances c got acked r where
  state := .inl (congrArg Sender.state same)
  isn := congrArg Sender.isn same
  sndUna := congrArg Sender.sndUna same
  guestWin := guestWin
  streams := by
    rwa [received, List.append_nil, same]
  queue := by
    rw [received, List.append_nil]
    exact congrArg Sender.unacked same
  fits some := absurd received some
  closed fin := ⟨(congrArg Sender.finSent same).trans fin, received⟩
  carries seg inside := by
    rw [received, List.append_nil]
    exact carries seg inside
  fins seg inside ends := (congrArg Sender.finSent same).trans (fins seg inside ends)

theorem advances_none (streams : Streams c.sender got acked) : Advances c got acked (c, {}) :=
  advances_quiet streams rfl rfl rfl (List.forall_mem_nil _)
    (List.forall_mem_nil _)

/-- A segment without octets and without a FIN. -/
theorem bare_sendTcpSeg (c : TcpConn) {flags : Octet} (open_ : flag flags 0x01#8 = false)
    (seq : BitVec 32) (inside : seg ∈ (c.sendTcpSeg flags seq []).segments) :
    seg.data = [] ∧ flag seg.flags 0x01#8 = false := by
  rw [List.mem_singleton.mp inside]
  exact ⟨rfl, open_⟩

theorem bare_dropTcp (c : TcpConn) (rst : Bool) (inside : seg ∈ (c.dropTcp rst).2.segments) :
    seg.data = [] ∧ flag seg.flags 0x01#8 = false := by
  cases rst with
  | false => cases inside
  | true => exact bare_sendTcpSeg c (by decide) _ inside

section

variable (streams : Streams c.sender got acked)
include streams

theorem advances_dropTcp (rst : Bool) : Advances c got acked (c.dropTcp rst) := by
  have received : (c.dropTcp rst).2.received = [] := by cases rst <;> rfl
  refine ⟨.inr rfl, rfl, rfl, rfl, ?_, ?_, fun some => absurd received some,
    fun fin => ⟨fin, received⟩, fun seg inside => ?_, fun seg inside ends => ?_⟩
  · rw [received, List.append_nil]
    exact streams.dead
  · rw [received, List.append_nil]
    rfl
  · exact carries_empty (bare_dropTcp c rst inside).1 (bare_dropTcp c rst inside).2
  · exact absurd ends (Bool.eq_false_iff.mp (bare_dropTcp c rst inside).2)

/-- Octets for the host do not touch the sender. -/
theorem advances_writeHost (results : List SendResult) :
    Advances c got acked (c.writeHost results) := by
  induction results generalizing c with
  | nil => exact advances_none streams
  | cons result rest ih =>
    unfold TcpConn.writeHost
    split_ifs with empty
    · exact advances_none streams
    · cases result with
      | again => exact advances_none streams
      | interrupted => exact ih streams
      | failed => exact advances_dropTcp streams true
      | wrote n =>
        dsimp only
        split_ifs with stuck
        · exact advances_dropTcp streams true
        · have next := ih (c := { c with
            toHost := c.toHost.drop (min n (min c.toHost.length 4096)) }) streams
          exact ⟨next.state, next.isn, next.sndUna, next.guestWin, next.streams, next.queue,
            next.fits, next.closed, next.carries, next.fins⟩

theorem advances_shutHost : Advances c got acked c.shutHost :=
  advances_quiet streams rfl rfl rfl (List.forall_mem_nil _)
    (List.forall_mem_nil _)

section

variable (up : c.state = .established)
include up

theorem Streams.sndSeq_eq (more : c.finSent = false) : c.sndSeq = place c.isn (1 + got.length) := by
  have all := streams.established up
  change c.sndSeq = place c.isn (1 + got.length + c.finSent.toNat) at all
  rwa [more] at all

/-- Octets of the host are sent behind all before them. -/
theorem advances_sendData (syn : c.synAcked = true) (more : c.sockEof = false)
    {buf : List Octet} (room : c.unacked.length + buf.length ≤ c.window) (clock : Clock) :
    Advances c got acked (c.sendData buf clock) := by
  have fin : c.finSent = false :=
    Bool.eq_false_iff.mpr fun fin => Bool.false_ne_true (more.symm.trans (streams.eof fin))
  have seq := streams.sndSeq_eq up fin
  have behind : acked - 1 ≤ got.length := by
    have bound := streams.bound
    change acked ≤ 1 + got.length + c.finSent.toNat at bound
    rw [fin] at bound
    change acked ≤ 1 + got.length + 0 at bound
    omega
  have push : ¬flag 0x18#8 0x01#8 = true := by decide
  refine ⟨.inl rfl, rfl, rfl, rfl, ?_, rfl, fun _ => ?_, fun ends => ?_, fun seg inside => ?_,
    fun seg inside ends => ?_⟩
  · refine ⟨streams.sndUna, streams.syn, ?_, ?_, ?_, streams.eof, ?_, ?_⟩
    · rw [List.drop_append_of_le_length behind]
      exact congrArg (fun l => l ++ buf) streams.queue
    · have bound := streams.bound
      rw [List.length_append]
      omega
    · intro none
      exact absurd none (streams.synAcked_iff.mp syn)
    · intro waiting
      cases up.symm.trans waiting
    · intro _
      change c.sndSeq + _ = place c.isn (1 + (got ++ buf).length + c.finSent.toNat)
      rw [seq, place_add, fin, List.length_append, Nat.add_assoc]
      rfl
  · rwa [TcpConn.sendData, List.length_append]
  · cases fin.symm.trans ends
  · rw [List.mem_singleton.mp inside]
    refine ⟨fun _ => ⟨got.length, seq, ?_⟩, fun ends => absurd ends push⟩
    rw [List.drop_left]
    exact List.prefix_rfl
  · rw [List.mem_singleton.mp inside] at ends
    exact absurd ends push

theorem advances_readHost (clock : Clock) (results : List RecvResult) :
    Advances c got acked (c.readHost clock results) := by
  induction results generalizing c got with
  | nil => exact advances_none streams
  | cons result rest ih =>
    unfold TcpConn.readHost
    by_cases shut : c.synAcked = false ∨ c.sockEof = true ∨ c.window ≤ c.unacked.length
    · rw [if_pos shut]
      exact advances_none streams
    · rw [if_neg shut]
      simp only [not_or, Bool.not_eq_false, Bool.not_eq_true] at shut
      obtain ⟨syn, more, room⟩ := shut
      cases result with
      | again => exact advances_none streams
      | interrupted => exact ih streams up
      | failed => exact advances_dropTcp streams true
      | eof =>
        refine ⟨.inl rfl, rfl, rfl, rfl, ?_, (List.append_nil _).symm,
          fun some => absurd rfl some, fun fin => ⟨fin, rfl⟩,
          List.forall_mem_nil _,
          List.forall_mem_nil _⟩
        rw [List.append_nil]
        exact { streams with eof := fun _ => rfl }
      | data first later =>
        dsimp only
        generalize taken : (first :: later).take (min kMss (c.window - c.unacked.length)) = buf
        have fits : c.unacked.length + buf.length ≤ c.window := by
          rw [← taken, List.length_take]
          omega
        have step := advances_sendData streams up syn more fits clock
        have both : Advances c got acked
            (TcpConn.andThen (c.sendData buf clock) fun c => c.readHost clock rest) :=
          step.andThen fun _ => ih step.streams up
        rwa [TcpConn.andThen, if_neg] at both
        rw [show (c.sendData buf clock).1.state = .established from up]
        exact nofun

theorem advances_sendFin (clock : Clock) : Advances c got acked (c.sendFin clock) := by
  rw [TcpConn.sendFin]
  split_ifs with due
  · obtain ⟨done, fin, syn⟩ := due
    have seq := streams.sndSeq_eq up fin
    refine ⟨.inl rfl, rfl, rfl, rfl, ?_, (List.append_nil _).symm, fun some => absurd rfl some,
      fun _ => ⟨rfl, rfl⟩, fun seg inside => ?_, fun _ _ _ => rfl⟩
    · change Streams _ (got ++ []) acked
      rw [List.append_nil]
      refine ⟨streams.sndUna, streams.syn, streams.queue, ?_, ?_, fun _ => done, ?_, ?_⟩
      · have bound := streams.bound
        change acked ≤ 1 + got.length + c.finSent.toNat at bound
        rw [fin] at bound
        exact bound.trans (Nat.le_succ _)
      · intro none
        exact absurd none (streams.synAcked_iff.mp syn)
      · intro waiting
        cases up.symm.trans waiting
      · intro _
        rw [seq]
        exact place_add c.isn (1 + got.length) 1
    · rw [List.mem_singleton.mp inside]
      change Carries _ (got ++ []) _
      rw [List.append_nil]
      exact ⟨fun some => absurd rfl some, fun _ => ⟨seq, rfl⟩⟩
  · exact advances_none streams

/-- What is repeated is of the stream: the SYN, the front of the queue, or the FIN. -/
theorem carries_repeated (inside : seg ∈ c.repeated.segments) :
    Carries c.isn got seg ∧ (flag seg.flags 0x01#8 = true → c.finSent = true) := by
  rw [TcpConn.repeated] at inside
  split_ifs at inside with syn waiting fin
  · obtain ⟨empty, open_⟩ := bare_sendTcpSeg c (by decide) _ inside
    exact ⟨carries_empty empty open_, fun ends => absurd ends (Bool.eq_false_iff.mp open_)⟩
  · rw [List.mem_singleton.mp inside]
    have handshake := streams.synAcked_iff.mp (Bool.not_eq_false _ ▸ syn)
    have push : ¬flag 0x18#8 0x01#8 = true := by decide
    refine ⟨⟨fun _ => ⟨acked - 1, ?_, ?_⟩, fun ends => absurd ends push⟩,
      fun ends => absurd ends push⟩
    · rw [Nat.add_sub_cancel' (by omega)]
      exact streams.sndUna
    · rw [show c.unacked = got.drop (acked - 1) from streams.queue]
      exact List.take_prefix ..
  · rw [List.mem_singleton.mp inside]
    refine ⟨⟨fun some => absurd rfl some, fun _ => ⟨?_, rfl⟩⟩, fun _ => fin⟩
    have all := streams.established up
    change c.sndSeq = place c.isn (1 + got.length + c.finSent.toNat) at all
    rw [all, fin, ← place_add]
    exact BitVec.add_sub_cancel ..
  · cases inside

end

end

theorem received_repeated (c : TcpConn) : c.repeated.received = [] := by
  rw [TcpConn.repeated]
  split_ifs <;> rfl

section

variable (streams : Streams c.sender got acked)
include streams

theorem advances_retry (up : c.state = .established)
    (clock : Clock) : Advances c got acked (c.retry clock) := by
  rw [TcpConn.retry]
  split_ifs
  · exact advances_dropTcp streams true
  · exact advances_quiet streams rfl rfl (received_repeated c)
      (fun seg inside => (carries_repeated streams up inside).1)
      fun seg inside => (carries_repeated streams up inside).2

theorem advances_retransmit (up : c.state = .established)
    (clock : Clock) : Advances c got acked (c.retransmit clock) := by
  rw [TcpConn.retransmit]
  split_ifs
  · have next := advances_retry (c := { c with rtxCount := c.rtxCount + 1 }) streams up clock
    exact next.of_sender rfl rfl
  · exact advances_none streams

theorem advances_finish (clock : Clock) : Advances c got acked (c.finish clock) := by
  rw [TcpConn.finish]
  split_ifs
  · exact advances_dropTcp streams false
  · exact advances_dropTcp streams true
  · exact advances_none streams

end

/-- Stages one after the other. -/
theorem advances_foldl (up : c.state = .established) {stages : List (TcpConn → TcpConn × TcpOut)}
    (each : ∀ stage ∈ stages, ∀ c got, Streams c.sender got acked → c.state = .established →
      Advances c got acked (stage c))
    (start : Advances c got acked r) :
    Advances c got acked (stages.foldl TcpConn.andThen r) :=
  List.foldlRecOn stages _ start fun r advances stage inside => advances.andThen fun same =>
    each stage inside r.1 _ advances.streams (same.trans up)

/-- A pump of a connection that stands. -/
theorem advances_tcpPump (streams : Streams c.sender got acked) (up : c.state = .established)
    (host : PumpHost) (clock : Clock) : Advances c got acked (c.tcpPump host clock) := by
  rw [TcpConn.tcpPump, up]
  refine advances_foldl up ?_ (advances_none streams)
  simp only [List.forall_mem_cons]
  exact ⟨fun _ _ streams _ => advances_writeHost streams host.sends,
    fun _ _ streams _ => advances_shutHost streams,
    fun _ _ streams up => advances_readHost streams up clock host.recvs,
    fun _ _ streams up => advances_sendFin streams up clock,
    fun _ _ streams up => advances_retransmit streams up clock,
    fun _ _ streams _ => advances_finish streams clock,
    List.forall_mem_nil _⟩

/-! ## Steps of a connection -/

/-- A step that sends nothing of the stream and receives nothing; some more units may be
acknowledged. -/
structure Acknowledges (c : TcpConn) (got : List Octet) (acked n : Nat) (r : TcpConn × TcpOut) :
    Prop where
  streams : Streams r.1.sender got (acked + n)
  isn : r.1.isn = c.isn
  finSent : r.1.finSent = c.finSent
  received : r.2.received = []
  bare : ∀ seg ∈ r.2.segments, seg.data = [] ∧ flag seg.flags 0x01#8 = false

theorem acknowledges_dropTcp (streams : Streams c.sender got acked) (rst : Bool) :
    Acknowledges c got acked 0 (c.dropTcp rst) where
  streams := streams.dead
  isn := rfl
  finSent := rfl
  received := by cases rst <;> rfl
  bare _ inside := bare_dropTcp c rst inside

/-- The SYN is answered when the host connection stands, which takes its unit off the
sequence numbers. -/
theorem acknowledges_awaitHost (streams : Streams c.sender got acked)
    (waiting : c.state = .connecting) (result : ConnectResult) (clock : Clock) :
    Acknowledges c got acked 0 (c.awaitHost result clock) := by
  cases result with
  | connected =>
    obtain ⟨-, none, open_⟩ := streams.connecting waiting
    refine ⟨{ streams with connecting := nofun, established := fun _ => ?_ }, rfl, rfl, rfl,
      fun _ inside => bare_sendTcpSeg c (by decide) _ inside⟩
    change c.isn + 1#32 = place c.isn (1 + got.length + c.finSent.toNat)
    rw [none, show c.finSent = false from open_]
    rfl
  | pending =>
    rw [TcpConn.awaitHost]
    split_ifs
    · exact acknowledges_dropTcp streams true
    · exact ⟨streams, rfl, rfl, rfl, List.forall_mem_nil _⟩
  | failed => exact acknowledges_dropTcp streams true

/-- The sender is not touched, and nothing of the stream is sent. -/
def Leaves (c : TcpConn) (r : TcpConn × TcpOut) : Prop :=
  r.1.sender = c.sender ∧ r.2.received = [] ∧
    ∀ s ∈ r.2.segments, s.data = [] ∧ flag s.flags 0x01#8 = false

/-- Segments of the guest with their payload and FIN do not touch the sender. -/
theorem sender_takePayload (c : TcpConn) (seg : GuestSegment) : Leaves c (c.takePayload seg) := by
  rw [TcpConn.takePayload]
  split_ifs
  · exact ⟨rfl, rfl, List.forall_mem_nil _⟩
  · exact ⟨rfl, rfl, fun _ inside => bare_sendTcpSeg _ (by decide) _ inside⟩
  · exact ⟨rfl, rfl, fun _ inside => bare_sendTcpSeg _ (by decide) _ inside⟩

theorem sender_takeFin (c : TcpConn) (seg : GuestSegment) : Leaves c (c.takeFin seg) := by
  rw [TcpConn.takeFin]
  split_ifs
  · exact ⟨rfl, rfl, fun _ inside => bare_sendTcpSeg _ (by decide) _ inside⟩
  · exact ⟨rfl, rfl, fun _ inside => bare_sendTcpSeg _ (by decide) _ inside⟩
  · exact ⟨rfl, rfl, List.forall_mem_nil _⟩

/-- An acknowledgement of a segment, if it has one. -/
theorem streams_takeAck (streams : Streams c.sender got acked) (alive : c.state ≠ .dead)
    (seg : GuestSegment) (clock : Clock) :
    ∃ n, Streams (c.takeAck seg clock).sender got (acked + n) ∧
      (n = 0 ∨ flag seg.flags 0x10#8 = true ∧ (seg.ack - c.sndUna).toNat ≤ 2 ^ 31 ∧
        n ≤ (seg.ack - c.sndUna).toNat) ∧ (c.takeAck seg clock).isn = c.isn ∧
      (c.takeAck seg clock).finSent = c.finSent := by
  rw [TcpConn.takeAck]
  split_ifs with ack
  · obtain ⟨n, moved, covered, -, isn, fin⟩ := streams.ackLoop seg.ack alive
    exact ⟨n, moved, covered.imp_right fun covered => ⟨ack, covered⟩, isn, fin⟩
  · exact ⟨0, streams, .inl rfl, rfl, rfl⟩

/-- A segment of the guest acknowledges at most what it says. -/
theorem acknowledges_receive (streams : Streams c.sender got acked) (alive : c.state ≠ .dead)
    (seg : GuestSegment) (clock : Clock) :
    ∃ n, Acknowledges c got acked n (c.receive seg clock) ∧
      (n = 0 ∨ flag seg.flags 0x10#8 = true ∧ (seg.ack - c.sndUna).toNat ≤ 2 ^ 31 ∧
        n ≤ (seg.ack - c.sndUna).toNat) := by
  rw [TcpConn.receive]
  generalize touched : { c with lastAct := clock.now, guestWin := seg.window.toNat } = c₁
  have same : c₁.sender = c.sender := by
    rw [← touched]
    rfl
  have state : c₁.state = c.state := congrArg Sender.state same
  have isn : c₁.isn = c.isn := congrArg Sender.isn same
  have sndUna : c₁.sndUna = c.sndUna := congrArg Sender.sndUna same
  have finSent : c₁.finSent = c.finSent := congrArg Sender.finSent same
  have streams₁ : Streams c₁.sender got acked := by rwa [same]
  split_ifs with reset syn known
  · have dropped := acknowledges_dropTcp streams₁ false
    exact ⟨0, ⟨dropped.streams, isn, finSent, rfl, dropped.bare⟩, .inl rfl⟩
  · exact ⟨0, ⟨streams₁, isn, finSent, rfl, List.forall_mem_nil _⟩, .inl rfl⟩
  · exact ⟨0, ⟨streams₁, isn, finSent, rfl, fun _ inside => bare_sendTcpSeg c₁ (by decide) _ inside⟩,
      .inl rfl⟩
  · obtain ⟨n, moved, covered, isn', finSent'⟩ := streams_takeAck streams₁ (state ▸ alive) seg clock
    obtain ⟨same₂, received₂, bare₂⟩ := sender_takePayload (c₁.takeAck seg clock) seg
    obtain ⟨same₃, received₃, bare₃⟩ :=
      sender_takeFin ((c₁.takeAck seg clock).takePayload seg).1 seg
    rw [sndUna] at covered
    refine ⟨n, ?_, covered⟩
    rw [TcpConn.andThen]
    split_ifs with dead
    · exact ⟨same₂ ▸ moved, (congrArg Sender.isn same₂).trans (isn'.trans isn),
        (congrArg Sender.finSent same₂).trans (finSent'.trans finSent), received₂, bare₂⟩
    · refine ⟨same₃ ▸ same₂ ▸ moved,
        (congrArg Sender.isn (same₃.trans same₂)).trans (isn'.trans isn),
        (congrArg Sender.finSent (same₃.trans same₂)).trans (finSent'.trans finSent), ?_, ?_⟩
      · exact (congrArg₂ (fun a b => a ++ b) received₂ received₃).trans rfl
      · exact List.forall_mem_append.mpr ⟨bare₂, bare₃⟩

end

end Pom68k.MacIp
