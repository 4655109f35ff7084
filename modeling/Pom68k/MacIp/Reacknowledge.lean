import Pom68k.MacIp.GuestStream

/-! # What is sent again is acknowledged again

A guest whose acknowledgement got lost repeats what it has sent. Octets are acknowledged
each time they come; a FIN that comes without them is acknowledged only the first time.
-/

namespace Pom68k.MacIp

open Foundation

/-- Octets and FIN of a segment have numbers below the one that comes next. -/
def GuestSegment.Below (seg : GuestSegment) (next : BitVec 32) : Prop :=
  (seg.payload ≠ [] ∨ flag seg.flags 0x01#8 = true) ∧
    seg.payload.length + (flag seg.flags 0x01#8).toNat ≤ (next - seg.seq).toNat ∧
    (next - seg.seq).toNat < 2 ^ 31

instance (seg : GuestSegment) (next : BitVec 32) : Decidable (seg.Below next) :=
  inferInstanceAs (Decidable (_ ∧ _))

theorem GuestSegment.Below.ne {seg : GuestSegment} {next : BitVec 32} (below : seg.Below next) :
    seg.seq ≠ next := by
  rintro rfl
  obtain ⟨carries, room, -⟩ := below
  rw [BitVec.sub_self] at room
  change _ ≤ 0 at room
  rcases carries with some | ends
  · have := List.length_pos_iff.mpr some
    omega
  · rw [ends] at room
    change _ + 1 ≤ 0 at room
    omega

/-- Among what is sent is an acknowledgement of everything before a number. -/
def TcpOut.Acknowledges (out : TcpOut) (next : BitVec 32) : Prop :=
  ∃ s ∈ out.segments, flag s.flags 0x10#8 = true ∧ s.ack = next

section

variable {c : TcpConn} {seg : GuestSegment}

end

namespace Flow.Sample

/-- A guest that answers the SYN and closes at once, behind some octets. -/
def goodbye (payload : List Octet) : GuestSegment := guest 0x11#8 1#32 0x10001#32 payload

/-- A connection that stands. -/
def standing : Flow :=
  (opened (guest 0x02#8 0#32 0#32 []) 0x10000#32 clock).step (.pump { connect := .connected } clock)

/-- And its guest has closed. -/
def closed (payload : List Octet) : Flow := standing.step (.segment (goodbye payload) clock)

/-- What the first FIN makes of the connection. -/
def closing (payload : List Octet) : TcpConn :=
  (TcpConn.andThen
    ({ standing.conn with synAcked := true, sndUna := 0x10001#32 }.takePayload (goodbye payload))
    fun c => c.takeFin (goodbye payload)).1

variable {payload : List Octet}

end Flow.Sample

end Pom68k.MacIp
