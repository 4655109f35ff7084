import Pom68k.MacIp.Stream
import Pom68k.MacIp.Bounds

/-! # What the guest is sent

A connection over its whole life, with what its socket has delivered and what it has sent:
the guest is sent the stream of the host and nothing else, and nothing of it is forgotten
before the guest has acknowledged it.
-/

namespace Pom68k.MacIp

open Foundation

/-- What happens to a connection: a segment of the guest, or a tick. -/
inductive TcpEvent where
  | segment (seg : GuestSegment) (clock : Clock)
  | pump (host : PumpHost) (clock : Clock)

/-- A segment only reaches a connection that is not dead. -/
def TcpConn.act (c : TcpConn) : TcpEvent → TcpConn × TcpOut
  | .segment seg clock => if c.state = .dead then (c, {}) else c.receive seg clock
  | .pump host clock => c.tcpPump host clock

/-- An event names a sequence number the guest has everything before of, and `n` units
from `una` on are before it. -/
def TcpEvent.Covers (event : TcpEvent) (una : BitVec 32) (n : Nat) : Prop :=
  ∃ seg clock, event = .segment seg clock ∧ flag seg.flags 0x10#8 = true ∧
    (seg.ack - una).toNat ≤ 2 ^ 31 ∧ n ≤ (seg.ack - una).toNat

variable {event : TcpEvent}

theorem TcpEvent.Covers.small {una : BitVec 32} {n : Nat}
    (covered : n = 0 ∨ event.Covers una n) : n < 2 ^ 32 := by
  rcases covered with none | ⟨seg, clock, -, -, near, inside⟩ <;> omega

theorem Carries.octets {isn : BitVec 32} {got : List Octet} {seg : Segment}
    (carries : Carries isn got seg) :
    ∃ i, ∀ j < seg.data.length,
      seg.seq + BitVec.ofNat 32 j = isn + 1#32 + BitVec.ofNat 32 (i + j) ∧
        got[i + j]? = seg.data[j]? := by
  by_cases empty : seg.data = []
  · rw [empty]
    exact ⟨0, fun _ outside => absurd outside (Nat.not_lt_zero _)⟩
  · obtain ⟨i, seq, part⟩ := carries.data empty
    refine ⟨i, fun j inside => ⟨?_, ?_⟩⟩
    · rw [seq, place_add, place, BitVec.add_assoc, ← BitVec.ofNat_add, Nat.add_assoc]
    · obtain ⟨rest, whole⟩ := part
      rw [← List.getElem?_drop, ← whole, List.getElem?_append_left inside]

/-- A connection with everything it has sent and received, and the number of sequence
numbers that were acknowledged. -/
structure Flow where
  conn : TcpConn
  out : TcpOut := {}
  acked : Nat := 0

namespace Flow

def opened (seg : GuestSegment) (isn : BitVec 32) (clock : Clock) : Flow :=
  { conn := TcpConn.opened seg isn clock }

def step (f : Flow) (event : TcpEvent) : Flow where
  conn := (f.conn.act event).1
  out := f.out ++ (f.conn.act event).2
  acked := f.acked + ((f.conn.act event).1.sndUna - f.conn.sndUna).toNat

/-- How many octets of the host are no longer kept for repetition. -/
def released (f : Flow) : Nat := f.out.received.length - f.conn.unacked.length

/-- The stream of a connection accounts for its state and for all it has sent. -/
structure Intact (isn : BitVec 32) (f : Flow) : Prop where
  first : f.conn.isn = isn
  streams : Streams f.conn.sender f.out.received f.acked
  carries : ∀ seg ∈ f.out.segments, Carries isn f.out.received seg
  fins : ∀ seg ∈ f.out.segments, flag seg.flags 0x01#8 = true → f.conn.finSent = true

theorem received_step (f : Flow) (event : TcpEvent) :
    (f.step event).out.received = f.out.received ++ (f.conn.act event).2.received := rfl

section

variable {isn : BitVec 32} {f : Flow} (intact : Intact isn f)
include intact

/-- A step that advances the stream. -/
theorem Intact.advances (advances : Advances f.conn f.out.received f.acked (f.conn.act event)) :
    Intact isn (f.step event) where
  first := advances.isn.trans intact.first
  streams := by
    have still : (f.step event).acked = f.acked := by
      rw [step, advances.sndUna, BitVec.sub_self]
      rfl
    rw [still]
    exact advances.streams
  carries seg inside := by
    rw [received_step]
    rcases List.mem_append.mp inside with inside | inside
    · exact (intact.carries seg inside).more fun ends =>
        (advances.closed (intact.fins seg inside ends)).2
    · exact intact.first ▸ advances.carries seg inside
  fins seg inside ends := by
    rcases List.mem_append.mp inside with inside | inside
    · exact (advances.closed (intact.fins seg inside ends)).1
    · exact advances.fins seg inside ends

/-- A step that at most acknowledges. -/
theorem Intact.acknowledges {n : Nat} (small : n < 2 ^ 32)
    (acknowledges : Acknowledges f.conn f.out.received f.acked n (f.conn.act event)) :
    Intact isn (f.step event) ∧ (f.step event).acked = f.acked + n := by
  have moved : (f.step event).acked = f.acked + n := by
    have here : (f.conn.act event).1.sndUna = place f.conn.isn (f.acked + n) :=
      acknowledges.streams.sndUna.trans (congrArg (fun i => place i _) acknowledges.isn)
    have before : f.conn.sndUna = place f.conn.isn f.acked := intact.streams.sndUna
    rw [step, here, before, place_sub, BitVec.toNat_ofNat, Nat.mod_eq_of_lt small]
  have received : (f.step event).out.received = f.out.received := by
    rw [received_step, acknowledges.received, List.append_nil]
  refine ⟨⟨acknowledges.isn.trans intact.first, ?_, fun seg inside => ?_,
    fun seg inside ends => ?_⟩, moved⟩
  · rw [moved, received]
    exact acknowledges.streams
  · rw [received]
    rcases List.mem_append.mp inside with inside | inside
    · exact intact.carries seg inside
    · exact carries_empty (acknowledges.bare seg inside).1 (acknowledges.bare seg inside).2
  · rcases List.mem_append.mp inside with inside | inside
    · exact acknowledges.finSent.trans (intact.fins seg inside ends)
    · exact absurd ends (Bool.eq_false_iff.mp (acknowledges.bare seg inside).2)

/-- An event advances the stream, or acknowledges units of it that it covers. -/
theorem Intact.act (event : TcpEvent) :
    Advances f.conn f.out.received f.acked (f.conn.act event) ∨
      ∃ n, Acknowledges f.conn f.out.received f.acked n (f.conn.act event) ∧
        (n = 0 ∨ event.Covers f.conn.sndUna n) := by
  have quiet (same : f.conn.act event = (f.conn, {})) :
      Advances f.conn f.out.received f.acked (f.conn.act event) :=
    same ▸ advances_none intact.streams
  cases event with
  | segment seg clock =>
    by_cases dead : f.conn.state = .dead
    · exact .inl (quiet (if_pos dead))
    · have moved : f.conn.act (.segment seg clock) = f.conn.receive seg clock := if_neg dead
      obtain ⟨n, acknowledges, covered⟩ := acknowledges_receive intact.streams dead seg clock
      exact .inr ⟨n, moved ▸ acknowledges,
        covered.imp_right fun covered => ⟨seg, clock, rfl, covered⟩⟩
  | pump host clock =>
    cases state : f.conn.state with
    | connecting =>
      have moved : f.conn.act (.pump host clock) = f.conn.awaitHost host.connect clock := by
        rw [TcpConn.act, TcpConn.tcpPump, state]
      exact .inr ⟨0, moved ▸ acknowledges_awaitHost intact.streams state host.connect clock,
        .inl rfl⟩
    | established => exact .inl (advances_tcpPump intact.streams state host clock)
    | dead => exact .inl (quiet (by rw [TcpConn.act, TcpConn.tcpPump, state]))

end

/-! ## What one more step may do -/

section

variable {isn : BitVec 32} {f : Flow}

section

variable (intact : Intact isn f)
include intact

theorem Intact.queue :
    f.conn.unacked = f.out.received.drop (f.acked - 1) := intact.streams.queue

theorem Intact.released_eq : f.released = min (f.acked - 1) f.out.received.length := by
  rw [released, intact.queue, List.length_drop]
  omega

/-- An octet is let go of only when a segment of the guest acknowledges it. -/
theorem Intact.covered {i : Nat} (kept : f.released ≤ i) (gone : i < (f.step event).released) :
    ∃ seg clock, event = .segment seg clock ∧ flag seg.flags 0x10#8 = true ∧
      seqLt (place isn (1 + i)) seg.ack = true := by
  rcases intact.act event with advances | ⟨n, acknowledges, covered⟩
  · -- the queue grows by what was received, so nothing is let go of
    have same : (f.step event).released = f.released := by
      rw [released, received_step, List.length_append]
      change _ - (f.conn.act event).1.unacked.length = _
      rw [advances.queue, List.length_append, released]
      omega
    omega
  · obtain ⟨next, moved⟩ := intact.acknowledges (TcpEvent.Covers.small covered) acknowledges
    rw [next.released_eq, moved, received_step, acknowledges.received, List.append_nil] at gone
    rw [intact.released_eq] at kept
    obtain none | ⟨seg, clock, rfl, ack, near, inside⟩ := covered
    · omega
    have unit : 1 + i = f.acked + (1 + i - f.acked) := by omega
    have here : f.conn.sndUna = place isn f.acked :=
      intact.streams.sndUna.trans (congrArg (fun i => place i _) intact.first)
    have before : 1 + i - f.acked ≤ (seg.ack - f.conn.sndUna).toNat := by omega
    refine ⟨seg, clock, rfl, ack, seqLt_iff.mpr ?_⟩
    rw [unit, ← place_add, ← here, toNat_sub_add before]
    omega

/-- Something new is sent only into the window. -/
theorem Intact.window (new : (f.step event).out.received ≠ f.out.received) :
    (f.step event).conn.unacked.length ≤ min (32 * kMss) f.conn.guestWin := by
  rw [received_step] at new
  rcases intact.act event with advances | ⟨n, acknowledges, -⟩
  · refine advances.fits fun none => new ?_
    rw [none, List.append_nil]
  · rw [acknowledges.received, List.append_nil] at new
    exact absurd rfl new

end

end

end Flow

end Pom68k.MacIp
