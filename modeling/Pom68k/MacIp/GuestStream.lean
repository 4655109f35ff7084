import Pom68k.MacIp.HostStream

/-! # What the host is sent

The other direction of a connection: what the guest sends, in whatever order it comes in,
reaches the socket as the stream of the guest, and the socket is shut behind all of it.
-/

namespace Pom68k.MacIp

open Foundation

/-- A segment is the part at `i` of the stream whose octets are numbered from `first` on.
Numbers wrap around; they are read as the places closest to what comes `next`. A SYN has the
number before the first octet. -/
structure GuestSegment.PartAt (seg : GuestSegment) (first : BitVec 32) (stream : List Octet)
    (next i : Nat) : Prop where
  number : seg.seq + (if flag seg.flags 0x02#8 then 1#32 else 0#32) = place first i
  syn : flag seg.flags 0x02#8 = true → i = 0
  inside : i ≤ stream.length
  payload : seg.payload <+: stream.drop i
  fin : flag seg.flags 0x01#8 = true → i + seg.payload.length = stream.length
  below : next < i + 2 ^ 31
  above : i + seg.payload.length < next + 2 ^ 31

def GuestSegment.PartOf (seg : GuestSegment) (first : BitVec 32) (stream : List Octet)
    (next : Nat) : Prop :=
  ∃ i, seg.PartAt first stream next i

/-! ## Stages that take nothing in -/

/-- A stage that at most hands octets on to the host. -/
structure Drains (c : TcpConn) (r : TcpConn × TcpOut) : Prop where
  rcvNxt : r.1.rcvNxt = c.rcvNxt
  guestFin : r.1.guestFin = c.guestFin
  kept : r.2.written ++ r.1.toHost = c.toHost
  shut : r.2.shut = true → c.guestFin = true ∧ r.1.toHost = []

section

variable {c : TcpConn} {r : TcpConn × TcpOut}

theorem Drains.none (c : TcpConn) : Drains c (c, {}) := ⟨rfl, rfl, rfl, nofun⟩

theorem Drains.andThen {stage : TcpConn → TcpConn × TcpOut} (first : Drains c r)
    (second : Drains r.1 (stage r.1)) : Drains c (TcpConn.andThen r stage) := by
  rw [TcpConn.andThen]
  split_ifs
  · exact first
  · refine ⟨second.rcvNxt.trans first.rcvNxt, second.guestFin.trans first.guestFin, ?_,
      fun shut => ?_⟩
    · change (r.2.written ++ (stage r.1).2.written) ++ (stage r.1).1.toHost = _
      rw [List.append_assoc, second.kept, first.kept]
    · rcases Bool.or_eq_true_iff.mp shut with before | now
      · obtain ⟨fin, empty⟩ := first.shut before
        have kept := second.kept
        rw [empty] at kept
        exact ⟨fin, (List.append_eq_nil_iff.mp kept).2⟩
      · rw [← first.guestFin]
        exact second.shut now

variable (c)

theorem drains_dropTcp (rst : Bool) : Drains c (c.dropTcp rst) := by
  rw [TcpConn.dropTcp]
  split_ifs <;> exact ⟨rfl, rfl, rfl, nofun⟩

theorem drains_writeHost (results : List SendResult) : Drains c (c.writeHost results) := by
  induction results generalizing c with
  | nil => exact .none c
  | cons result rest ih =>
    unfold TcpConn.writeHost
    split_ifs with empty
    · exact .none c
    · cases result with
      | again => exact .none c
      | interrupted => exact ih c
      | failed => exact drains_dropTcp c true
      | wrote n =>
        dsimp only
        generalize min n (min c.toHost.length 4096) = w
        split_ifs with none
        · exact drains_dropTcp c true
        · have later := ih { c with toHost := c.toHost.drop w }
          refine ⟨later.rcvNxt, later.guestFin, ?_, later.shut⟩
          have kept : _ ++ _ = c.toHost.drop w := later.kept
          change (c.toHost.take w ++ _) ++ _ = c.toHost
          rw [List.append_assoc, kept, List.take_append_drop]

theorem drains_shutHost : Drains c c.shutHost := by
  refine ⟨rfl, rfl, rfl, fun shut => ?_⟩
  simp only [TcpConn.shutHost, Bool.and_eq_true, decide_eq_true_eq] at shut
  exact ⟨shut.1.1, shut.1.2⟩

variable (clock : Clock)

theorem drains_readHost (results : List RecvResult) : Drains c (c.readHost clock results) := by
  induction results generalizing c with
  | nil => exact .none c
  | cons result rest ih =>
    unfold TcpConn.readHost
    by_cases shut : c.synAcked = false ∨ c.sockEof = true ∨ c.window ≤ c.unacked.length
    · rw [if_pos shut]
      exact .none c
    · rw [if_neg shut]
      cases result with
      | again => exact .none c
      | interrupted => exact ih c
      | failed => exact drains_dropTcp c true
      | eof => exact ⟨rfl, rfl, rfl, by rintro ⟨⟩⟩
      | data first more =>
        have later := ih (c.sendData
          ((first :: more).take (min kMss (c.window - c.unacked.length))) clock).1
        exact ⟨later.rcvNxt, later.guestFin, later.kept, later.shut⟩

theorem drains_sendFin : Drains c (c.sendFin clock) := by
  rw [TcpConn.sendFin]
  split_ifs
  · exact ⟨rfl, rfl, rfl, by rintro ⟨⟩⟩
  · exact .none c

theorem drains_retransmit : Drains c (c.retransmit clock) := by
  have quiet (c : TcpConn) : c.repeated.written = [] ∧ c.repeated.shut = false := by
    rw [TcpConn.repeated]
    split_ifs <;> exact ⟨rfl, rfl⟩
  rw [TcpConn.retransmit]
  split_ifs
  · rw [TcpConn.retry]
    split_ifs
    · exact ⟨rfl, rfl, rfl, by rintro ⟨⟩⟩
    · obtain ⟨written, shut⟩ := quiet { c with rtxCount := c.rtxCount + 1 }
      refine ⟨rfl, rfl, ?_, fun shuts => ?_⟩
      · rw [written, List.nil_append]
      · cases shut.symm.trans shuts
  · exact .none c

theorem drains_finish : Drains c (c.finish clock) := by
  rw [TcpConn.finish]
  split_ifs
  · exact drains_dropTcp c false
  · exact drains_dropTcp c true
  · exact .none c

theorem drains_awaitHost (result : ConnectResult) (clock : Clock) :
    Drains c (c.awaitHost result clock) := by
  cases result with
  | connected => exact ⟨rfl, rfl, rfl, nofun⟩
  | pending =>
    rw [TcpConn.awaitHost]
    split_ifs
    · exact drains_dropTcp c true
    · exact .none c
  | failed => exact drains_dropTcp c true

variable {c}

theorem drains_foldl {stages : List (TcpConn → TcpConn × TcpOut)}
    (each : ∀ stage ∈ stages, ∀ c, Drains c (stage c)) (start : Drains c r) :
    Drains c (stages.foldl TcpConn.andThen r) :=
  List.foldlRecOn stages _ start fun r drains stage inside =>
    drains.andThen (each stage inside r.1)

variable (c)

/-- A tick takes nothing in. -/
theorem drains_tcpPump (host : PumpHost) (clock : Clock) : Drains c (c.tcpPump host clock) := by
  unfold TcpConn.tcpPump
  split
  · exact drains_awaitHost c host.connect clock
  · exact .none c
  · refine drains_foldl ?_ (.none c)
    simp only [List.forall_mem_cons]
    exact ⟨fun c => drains_writeHost c host.sends, drains_shutHost,
      fun c => drains_readHost c clock host.recvs, fun c => drains_sendFin c clock,
      fun c => drains_retransmit c clock, fun c => drains_finish c clock,
      List.forall_mem_nil _⟩

/-! ## Segments of the guest -/

/-- What faces the guest on the receiving side. -/
structure Receiver where
  rcvNxt : BitVec 32
  guestFin : Bool
  toHost : List Octet

def TcpConn.receiver (c : TcpConn) : Receiver := ⟨c.rcvNxt, c.guestFin, c.toHost⟩

theorem receiver_ackLoop (ack : BitVec 32) : (c.ackLoop ack).receiver = c.receiver := by
  fun_induction TcpConn.ackLoop c ack <;> first | rfl | assumption

variable (seg : GuestSegment)

theorem receiver_takeAck (clock : Clock) : (c.takeAck seg clock).receiver = c.receiver := by
  rw [TcpConn.takeAck]
  split_ifs
  · exact receiver_ackLoop c seg.ack
  · rfl

/-- Payload is taken if it is what comes next. -/
theorem takePayload_spec :
    (c.takePayload seg).2.written = [] ∧ (c.takePayload seg).2.shut = false ∧
    (c.takePayload seg).1.state = c.state ∧ (c.takePayload seg).1.guestFin = c.guestFin ∧
      (((seg.payload = [] ∨ seg.seq ≠ c.rcvNxt) ∧ (c.takePayload seg).1.toHost = c.toHost ∧
          (c.takePayload seg).1.rcvNxt = c.rcvNxt) ∨
        (seg.payload ≠ [] ∧ seg.seq = c.rcvNxt ∧
          (c.takePayload seg).1.toHost = c.toHost ++ seg.payload ∧
          (c.takePayload seg).1.rcvNxt = c.rcvNxt + BitVec.ofNat 32 seg.payload.length)) := by
  rw [TcpConn.takePayload]
  split_ifs with empty due
  · exact ⟨rfl, rfl, rfl, rfl, .inl ⟨.inl empty, rfl, rfl⟩⟩
  · exact ⟨rfl, rfl, rfl, rfl, .inr ⟨empty, due, rfl, rfl⟩⟩
  · exact ⟨rfl, rfl, rfl, rfl, .inl ⟨.inr due, rfl, rfl⟩⟩

/-- A FIN is taken once, if it is what comes next. -/
theorem takeFin_spec :
    (c.takeFin seg).2.written = [] ∧ (c.takeFin seg).2.shut = false ∧
    (c.takeFin seg).1.toHost = c.toHost ∧
      (((c.takeFin seg).1.guestFin = c.guestFin ∧ (c.takeFin seg).1.rcvNxt = c.rcvNxt) ∨
        (flag seg.flags 0x01#8 = true ∧ c.guestFin = false ∧
          (seg.seq + BitVec.ofNat 32 seg.payload.length = c.rcvNxt ∨ seg.seq = c.rcvNxt) ∧
          (c.takeFin seg).1.guestFin = true ∧
          (c.takeFin seg).1.rcvNxt = c.rcvNxt + 1#32)) := by
  rw [TcpConn.takeFin]
  split_ifs with ends again
  · exact ⟨rfl, rfl, rfl, .inl ⟨rfl, rfl⟩⟩
  · refine ⟨rfl, rfl, rfl, .inr ⟨ends.1, Bool.eq_false_iff.mpr again, ends.2.imp_left ?_, rfl, rfl⟩⟩
    bv_omega
  · exact ⟨rfl, rfl, rfl, .inl ⟨rfl, rfl⟩⟩

end

/-- Places close to each other have different numbers. -/
theorem place_inj {first : BitVec 32} {a b : Nat} (same : place first a = place first b)
    (below : a < b + 2 ^ 32) (above : b < a + 2 ^ 32) : a = b := by
  have low : BitVec.ofNat 32 a = BitVec.ofNat 32 b := (BitVec.add_right_inj first).mp same
  have mod := congrArg BitVec.toNat low
  rw [BitVec.toNat_ofNat, BitVec.toNat_ofNat] at mod
  omega

/-- What a connection has taken of the stream of its guest. -/
structure Takes (first : BitVec 32) (stream taken : List Octet) (r : Receiver) : Prop where
  part : taken <+: stream
  rcvNxt : r.rcvNxt = place first (taken.length + r.guestFin.toNat)
  fin : r.guestFin = true → taken = stream

section

variable {first : BitVec 32} {stream written : List Octet} {c : TcpConn} {seg : GuestSegment}

theorem prefix_append_of_drop {taken more : List Octet} (part : taken <+: stream)
    (next : more <+: stream.drop taken.length) : taken ++ more <+: stream := by
  obtain ⟨rest, rfl⟩ := part
  rw [List.drop_left] at next
  exact (List.prefix_append_right_inj taken).mpr next

theorem GuestSegment.PartAt.length_le {next i : Nat} (part : seg.PartAt first stream next i) :
    i + seg.payload.length ≤ stream.length := by
  have fits := part.payload.length_le
  have inside := part.inside
  rw [List.length_drop] at fits
  omega

/-- A segment whose number comes next is the part that comes next. -/
theorem GuestSegment.PartAt.eq_next {next i : Nat} (part : seg.PartAt first stream next i)
    (due : seg.seq = place first next) : i = next := by
  have number := part.number
  have below := part.below
  have above := part.above
  by_cases syn : flag seg.flags 0x02#8 = true
  · rw [if_pos syn, due, place_add] at number
    have start := part.syn syn
    have := place_inj number (by omega) (by omega)
    omega
  · rw [if_neg syn, due, BitVec.add_zero] at number
    exact (place_inj number (by omega) (by omega)).symm

section

variable (takes : Takes first stream (written ++ c.toHost) c.receiver)
include takes

/-- What a segment of the stream brings is what comes next. -/
theorem Takes.takePayload (part : seg.payload ≠ [] → seg.PartOf first stream
      ((written ++ c.toHost).length + c.guestFin.toNat)) :
    Takes first stream (written ++ (c.takePayload seg).1.toHost)
      (c.takePayload seg).1.receiver := by
  obtain ⟨-, -, -, fin, ⟨-, toHost, rcvNxt⟩ | ⟨some, due, toHost, rcvNxt⟩⟩ := takePayload_spec c seg
  · rwa [TcpConn.receiver, toHost, rcvNxt, fin]
  obtain ⟨i, part⟩ := part some
  have room := part.length_le
  have here := part.eq_next (due.trans takes.rcvNxt)
  have open_ : c.guestFin = false := by
    by_contra ended
    rw [Bool.not_eq_false] at ended
    rw [takes.fin ended, ended] at here
    change i = stream.length + 1 at here
    omega
  have nxt : c.rcvNxt = place first (written ++ c.toHost).length := by
    have nxt : c.rcvNxt = place first (_ + c.guestFin.toNat) := takes.rcvNxt
    rwa [open_] at nxt
  rw [open_] at here
  have here : i = (written ++ c.toHost).length := here
  rw [TcpConn.receiver, toHost, rcvNxt, fin, open_, ← List.append_assoc]
  refine ⟨prefix_append_of_drop takes.part (here ▸ part.payload), ?_, nofun⟩
  rw [nxt, place_add]
  exact congrArg (place first) List.length_append.symm

/-- A FIN is taken behind all of the stream. -/
theorem Takes.takeFin (known : flag seg.flags 0x01#8 = true → c.guestFin = false →
      (seg.seq + BitVec.ofNat 32 seg.payload.length = c.rcvNxt ∨ seg.seq = c.rcvNxt) →
      (written ++ c.toHost).length = stream.length) :
    Takes first stream (written ++ (c.takeFin seg).1.toHost) (c.takeFin seg).1.receiver := by
  obtain ⟨-, -, toHost, ⟨fin, rcvNxt⟩ | ⟨ends, open_, due, fin, rcvNxt⟩⟩ := takeFin_spec c seg
  · rwa [TcpConn.receiver, toHost, rcvNxt, fin]
  have whole : written ++ c.toHost = stream :=
    takes.part.eq_of_length (known ends open_ due)
  rw [TcpConn.receiver, toHost, rcvNxt, fin, whole]
  refine ⟨List.prefix_rfl, ?_, fun _ => rfl⟩
  have nxt : c.rcvNxt = place first (_ + c.guestFin.toNat) := takes.rcvNxt
  rw [open_, whole] at nxt
  rw [nxt, place_add]
  rfl

/-- Where the FIN of a segment comes next, with what the segment has brought. -/
theorem Takes.fin_due {i : Nat}
    (part : seg.PartAt first stream ((written ++ c.toHost).length + c.guestFin.toNat) i)
    (plain : flag seg.flags 0x02#8 = true → seg.payload = [])
    (ends : flag seg.flags 0x01#8 = true) (open_ : c.guestFin = false)
    (due : seg.seq + BitVec.ofNat 32 seg.payload.length = (c.takePayload seg).1.rcvNxt ∨
      seg.seq = (c.takePayload seg).1.rcvNxt) :
    (written ++ (c.takePayload seg).1.toHost).length = stream.length := by
  have last := part.fin ends
  have nxt : c.rcvNxt = place first ((written ++ c.toHost).length + c.guestFin.toNat) :=
    takes.rcvNxt
  have same : (written ++ c.toHost).length + c.guestFin.toNat = (written ++ c.toHost).length := by
    rw [open_]
    rfl
  obtain ⟨-, -, -, -, ⟨other, toHost, rcvNxt⟩ | ⟨some, here, toHost, rcvNxt⟩⟩ :=
    takePayload_spec c seg
  · -- Nothing was taken: the FIN stands alone, or behind octets that were there before.
    have alone (here : seg.seq = c.rcvNxt) (empty : seg.payload = []) :
        (written ++ c.toHost).length = stream.length := by
      rw [← last, empty, part.eq_next (here.trans nxt), same]
      rfl
    rw [toHost]
    rw [rcvNxt] at due
    rcases due with due | here
    · by_cases syn : flag seg.flags 0x02#8 = true
      · have empty := plain syn
        rw [empty] at due
        exact alone ((BitVec.add_zero _).symm.trans due) empty
      · have number := part.number
        rw [if_neg syn, BitVec.add_zero] at number
        have below := part.below
        have above := part.above
        rw [number, place_add, nxt] at due
        rw [← last, place_inj due (by omega) (by omega), same]
    · exact alone here (other.resolve_right (not_not_intro here))
  · rw [toHost, ← List.append_assoc, ← last, part.eq_next (here.trans nxt), same]
    exact List.length_append

end

/-- What a segment of the guest does on the receiving side. -/
structure Admits (first : BitVec 32) (stream written : List Octet) (c : TcpConn)
    (r : TcpConn × TcpOut) : Prop where
  takes : Takes first stream (written ++ r.1.toHost) r.1.receiver
  guestFin : c.guestFin = true → r.1.guestFin = true
  written : r.2.written = []
  shut : r.2.shut = false

theorem Takes.congr {c' : TcpConn} (same : c'.receiver = c.receiver)
    (takes : Takes first stream (written ++ c.toHost) c.receiver) :
    Takes first stream (written ++ c'.toHost) c'.receiver := by
  have toHost : c'.toHost = c.toHost := congrArg Receiver.toHost same
  rwa [toHost, same]

/-- Payload and FIN of a segment, one after the other. -/
theorem Takes.segment (takes : Takes first stream (written ++ c.toHost) c.receiver)
    (part : seg.payload ≠ [] ∨ flag seg.flags 0x01#8 = true → seg.PartOf first stream
      ((written ++ c.toHost).length + c.guestFin.toNat))
    (plain : flag seg.flags 0x02#8 = true → flag seg.flags 0x01#8 = true → seg.payload = []) :
    Admits first stream written c (TcpConn.andThen (c.takePayload seg) fun c => c.takeFin seg) := by
  have payload := takes.takePayload fun some => part (.inl some)
  obtain ⟨written₁, shut₁, -, fin₁, -⟩ := takePayload_spec c seg
  rw [TcpConn.andThen]
  split_ifs with dead
  · exact ⟨payload, fin₁.trans, written₁, shut₁⟩
  · obtain ⟨written₂, shut₂, -, fin₂⟩ := takeFin_spec (c.takePayload seg).1 seg
    refine ⟨payload.takeFin fun ends open_ due => ?_, fun ended => ?_, ?_, ?_⟩
    · obtain ⟨i, here⟩ := part (.inr ends)
      exact takes.fin_due here (fun syn => plain syn ends) ends (fin₁.symm.trans open_) due
    · rcases fin₂ with ⟨fin₂, -⟩ | ⟨-, -, -, fin₂, -⟩
      · exact fin₂.trans (fin₁.trans ended)
      · exact fin₂
    · change (c.takePayload seg).2.written ++ ((c.takePayload seg).1.takeFin seg).2.written = []
      rw [written₁, written₂]
      rfl
    · change ((c.takePayload seg).2.shut || ((c.takePayload seg).1.takeFin seg).2.shut) = false
      rw [shut₁, shut₂]
      rfl

theorem Takes.receive (takes : Takes first stream (written ++ c.toHost) c.receiver)
    (part : seg.payload ≠ [] ∨ flag seg.flags 0x01#8 = true → seg.PartOf first stream
      ((written ++ c.toHost).length + c.guestFin.toNat))
    (plain : c.state = .connecting → flag seg.flags 0x02#8 = true →
      flag seg.flags 0x01#8 = true → seg.payload = []) (alive : c.state ≠ .dead) (clock : Clock) :
    Admits first stream written c (c.receive seg clock) := by
  rw [TcpConn.receive]
  generalize touched : { c with lastAct := clock.now, guestWin := seg.window.toNat } = c₁
  have same : c₁.receiver = c.receiver := by rw [← touched]; rfl
  have state : c₁.state = c.state := by rw [← touched]
  have guestFin : c.guestFin = true → c₁.guestFin = true := fun ended =>
    (congrArg Receiver.guestFin same).trans ended
  split_ifs with reset syn known
  · have dropped : (c₁.dropTcp false).1.receiver = c.receiver := same
    exact ⟨takes.congr dropped, guestFin, rfl, rfl⟩
  · exact ⟨takes.congr same, guestFin, rfl, rfl⟩
  · exact ⟨takes.congr same, guestFin, rfl, rfl⟩
  · have same₂ := (receiver_takeAck c₁ seg clock).trans same
    have guestFin₂ : (c₁.takeAck seg clock).guestFin = c.guestFin :=
      congrArg Receiver.guestFin same₂
    have toHost₂ : (c₁.takeAck seg clock).toHost = c.toHost := congrArg Receiver.toHost same₂
    have part₂ : seg.payload ≠ [] ∨ flag seg.flags 0x01#8 = true → seg.PartOf first stream
        ((written ++ (c₁.takeAck seg clock).toHost).length +
          (c₁.takeAck seg clock).guestFin.toNat) := by
      rwa [toHost₂, guestFin₂]
    have admits := (takes.congr same₂).segment part₂ fun flagged => by
        refine plain ?_ flagged
        have waiting : c.state ≠ .established := fun up => syn ⟨flagged, state.trans up⟩
        cases here : c.state with
        | connecting => rfl
        | established => exact absurd here waiting
        | dead => exact absurd here alive
    exact ⟨admits.takes, fun ended => admits.guestFin (guestFin₂.trans ended), admits.written,
      admits.shut⟩

end

/-! ## Runs -/

namespace Flow

/-- What has been taken of the stream of the guest. -/
def accepted (f : Flow) : List Octet := f.out.written ++ f.conn.toHost

/-- The place in the stream, with its end, that comes next. -/
def next (f : Flow) : Nat := f.accepted.length + f.conn.guestFin.toNat

/-- Segments that carry something are parts of one stream. -/
def Delivers (first : BitVec 32) (stream : List Octet) (f : Flow) : TcpEvent → Prop
  | .segment seg _ =>
    seg.payload ≠ [] ∨ flag seg.flags 0x01#8 = true → seg.PartOf first stream f.next
  | .pump _ _ => True

/-- While the host is still being connected to, no SYN comes with octets and a FIN. -/
def Plain (f : Flow) : TcpEvent → Prop
  | .segment seg _ => f.conn.state = .connecting → flag seg.flags 0x02#8 = true →
      flag seg.flags 0x01#8 = true → seg.payload = []
  | .pump _ _ => True

structure Delivered (first : BitVec 32) (stream : List Octet) (f : Flow) : Prop where
  takes : Takes first stream f.accepted f.conn.receiver
  shut : f.out.shut = true → f.conn.guestFin = true ∧ f.conn.toHost = []

variable {first : BitVec 32} {stream : List Octet} {f : Flow}

section

variable (delivered : Delivered first stream f) {event : TcpEvent}
include delivered

theorem Delivered.drains (drains : Drains f.conn (f.conn.act event)) :
    Delivered first stream (f.step event) := by
  have accepted : (f.step event).accepted = f.accepted := by
    change (f.out.written ++ (f.conn.act event).2.written) ++ (f.conn.act event).1.toHost = _
    rw [List.append_assoc, drains.kept]
    rfl
  refine ⟨⟨accepted ▸ delivered.takes.part, ?_, fun ended => ?_⟩, fun shut => ?_⟩
  · change (f.conn.act event).1.rcvNxt = place first (_ + (f.conn.act event).1.guestFin.toNat)
    rw [accepted, drains.rcvNxt, drains.guestFin]
    exact delivered.takes.rcvNxt
  · rw [accepted]
    exact delivered.takes.fin (drains.guestFin.symm.trans ended)
  · rcases Bool.or_eq_true_iff.mp shut with before | now
    · obtain ⟨ended, empty⟩ := delivered.shut before
      have kept := drains.kept
      rw [empty] at kept
      exact ⟨drains.guestFin.trans ended, (List.append_eq_nil_iff.mp kept).2⟩
    · obtain ⟨ended, empty⟩ := drains.shut now
      exact ⟨drains.guestFin.trans ended, empty⟩

theorem Delivered.admits (admits : Admits first stream f.out.written f.conn (f.conn.act event)) :
    Delivered first stream (f.step event) := by
  have written : (f.step event).out.written = f.out.written := by
    change f.out.written ++ (f.conn.act event).2.written = _
    rw [admits.written, List.append_nil]
  have takes : Takes first stream (f.step event).accepted (f.step event).conn.receiver := by
    rw [accepted, written]
    exact admits.takes
  refine ⟨takes, fun shut => ?_⟩
  have before : f.out.shut = true := by
    rcases Bool.or_eq_true_iff.mp shut with before | now
    · exact before
    · cases admits.shut.symm.trans now
  obtain ⟨ended, empty⟩ := delivered.shut before
  have whole : f.out.written = stream := by
    have whole := delivered.takes.fin ended
    rwa [accepted, empty, List.append_nil] at whole
  have part := takes.part.length_le
  rw [accepted, written, whole, List.length_append] at part
  exact ⟨admits.guestFin ended, List.length_eq_zero_iff.mp (by omega)⟩

theorem Delivered.step (delivers : f.Delivers first stream event) (plain : f.Plain event) :
    Delivered first stream (f.step event) := by
  cases event with
  | pump host clock => exact delivered.drains (drains_tcpPump f.conn host clock)
  | segment seg clock =>
    by_cases dead : f.conn.state = .dead
    · refine delivered.drains ?_
      rw [TcpConn.act, if_pos dead]
      exact .none _
    · refine delivered.admits ?_
      rw [TcpConn.act, if_neg dead]
      exact delivered.takes.receive delivers plain dead clock

end

/-- The host is sent the stream of the guest. If every segment that carries something is a
part of one stream, and no SYN brings octets with a FIN while the host is being connected
to, the socket is given the stream from its beginning, each octet once; the number that is
acknowledged counts what was taken; and the socket is shut only behind the whole stream. -/
theorem guest_stream_intact (syn : GuestSegment) (isn : BitVec 32) (clock : Clock)
    (stream : List Octet) (events : List TcpEvent)
    (delivers : Along step (Delivers (syn.seq + 1#32) stream) (opened syn isn clock) events)
    (plain : Along step Plain (opened syn isn clock) events) :
    let f := run step (opened syn isn clock) events
    f.out.written <+: stream ∧ f.accepted = stream.take f.accepted.length ∧
    f.conn.rcvNxt = syn.seq + 1#32 + BitVec.ofNat 32 f.accepted.length +
      (if f.conn.guestFin then 1#32 else 0#32) ∧
    (f.conn.guestFin = true → f.accepted = stream) ∧
    (f.out.shut = true → f.conn.guestFin = true ∧ f.out.written = stream) := by
  intro f
  have start : Delivered (syn.seq + 1#32) stream (opened syn isn clock) :=
    ⟨⟨List.nil_prefix, (BitVec.add_zero _).symm, nofun⟩, nofun⟩
  have delivered : Delivered (syn.seq + 1#32) stream f :=
    (delivers.and plain).invariant (fun _ _ both held => held.step both.1 both.2) start
  have nxt : f.conn.rcvNxt = place _ (_ + f.conn.guestFin.toNat) := delivered.takes.rcvNxt
  refine ⟨(List.prefix_append _ _).trans delivered.takes.part,
    List.prefix_iff_eq_take.mp delivered.takes.part, ?_, delivered.takes.fin, fun shut => ?_⟩
  · rw [nxt, ← place_add]
    cases f.conn.guestFin <;> rfl
  · obtain ⟨ended, empty⟩ := delivered.shut shut
    have whole := delivered.takes.fin ended
    rw [accepted, empty, List.append_nil] at whole
    exact ⟨ended, whole⟩

namespace Sample

def clock : Clock := ⟨0, 1⟩

/-- A segment of the guest, from port 1 to port 2. -/
def guest (flags : Octet) (seq ack : BitVec 32) (payload : List Octet) : GuestSegment :=
  ⟨1#32, 2#32, 1#16, 2#16, seq, ack, flags, 8192#16, payload, []⟩

/-- A whole transaction in one segment: SYN, an octet and FIN. -/
def hasty : GuestSegment := guest 0x03#8 0#32 0#32 [0x41#8]

/-- It is repeated before the host connection stands. -/
def hurried : List TcpEvent :=
  [.segment hasty clock, .pump { connect := .connected } clock, .pump {} clock]

/-- The same stream in turn: the octet comes with the FIN once the connection stands. -/
def patient : List TcpEvent :=
  [.pump { connect := .connected } clock, .segment (guest 0x01#8 1#32 0#32 [0x41#8]) clock,
    .pump { sends := [.wrote 1] } clock]

end Sample

/-- The repeated segment ends one octet early: its FIN is taken at the number of the octet,
and the socket is shut without it. -/
theorem guest_stream_lost :
    Along step (Delivers 1#32 [0x41#8]) (opened Sample.hasty 0x10000#32 Sample.clock)
      Sample.hurried ∧
    (run step (opened Sample.hasty 0x10000#32 Sample.clock) Sample.hurried).out.shut = true ∧
    (run step (opened Sample.hasty 0x10000#32 Sample.clock) Sample.hurried).out.written = [] := by
  refine ⟨⟨fun _ => ⟨0, ?_⟩, trivial, trivial, trivial⟩, by decide +kernel, by decide +kernel⟩
  exact ⟨by decide, fun _ => rfl, by decide, List.prefix_rfl, fun _ => rfl, by decide, by decide⟩

theorem guest_stream_intact_patient :
    (run step (opened (Sample.guest 0x02#8 0#32 0#32 []) 0x10000#32 Sample.clock)
      Sample.patient).out.shut = true ∧
    (run step (opened (Sample.guest 0x02#8 0#32 0#32 []) 0x10000#32 Sample.clock)
      Sample.patient).out.written = [0x41#8] := by
  have shut : (run step (opened (Sample.guest 0x02#8 0#32 0#32 []) 0x10000#32 Sample.clock)
      Sample.patient).out.shut = true := by decide +kernel
  refine ⟨shut, ((guest_stream_intact (Sample.guest 0x02#8 0#32 0#32 []) 0x10000#32 Sample.clock
    [0x41#8] Sample.patient ?_ ?_).2.2.2.2 shut).2⟩
  · refine ⟨trivial, fun _ => ⟨0, ?_⟩, trivial, trivial⟩
    exact ⟨by decide, nofun, by decide, List.prefix_rfl, fun _ => rfl, by decide, by decide⟩
  · exact ⟨trivial, fun _ => nofun, trivial, trivial⟩

end Flow

end Pom68k.MacIp
