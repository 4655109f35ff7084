import Pom68k.MacIp.Tcp

/-! # Datagrams of the guest

The checks an IP datagram has to pass and how the handlers take it apart. No octet outside
of it is looked at.
-/

namespace Pom68k.MacIp

open Foundation

/-- The length of the IP header. -/
def headerLength (p : List Octet) : Option Nat := do
  let first ← p[0]?
  return (first &&& 0x0F#8).toNat * 4

/-- The checks at the start of `handleIp`: version 4, a whole header, and a total length
that is inside of what came in. That length counts from there on. -/
def trimmed (p : List Octet) : Option (Option (List Octet)) :=
  if p.length < 20 then some none
  else do
    let first : Octet ← p[0]?
    if first >>> 4 ≠ 4#8 then some none
    else
      let ihl ← headerLength p
      if ihl < 20 ∨ p.length < ihl then some none
      else
        let total ← rd16 p 2
        if total.toNat < ihl ∨ p.length < total.toNat then some none
        else some (some (p.take total.toNat))

/-- An IP header of its own length. -/
structure IsHeader (hdr : List Octet) : Prop where
  long : 20 ≤ hdr.length
  own : headerLength hdr = some hdr.length

/-- A datagram with its whole header. -/
structure IsDatagram (p : List Octet) (ihl : Nat) : Prop where
  own : headerLength p = some ihl
  long : 20 ≤ ihl
  whole : ihl ≤ p.length

variable {p : List Octet}

theorem headerLength_take {n : Nat} (some : 0 < n) : headerLength (p.take n) = headerLength p := by
  rw [headerLength, headerLength, List.getElem?_take_of_lt some]

/-- What passes the checks is a datagram, and the checks stay inside of what came in. -/
theorem trimmed_spec (p : List Octet) :
    ∃ kept, trimmed p = some kept ∧ ∀ q, kept = some q → ∃ ihl, IsDatagram q ihl := by
  rw [trimmed]
  split_ifs with short
  · exact ⟨none, rfl, nofun⟩
  · obtain ⟨first, read⟩ := getElem?_inside (show 0 < p.length by omega)
    obtain ⟨total, read'⟩ := rd16_inside (show 2 + 2 ≤ p.length by omega)
    have own : headerLength p = some ((first &&& 0x0F#8).toNat * 4) := by rw [headerLength, read]; rfl
    simp only [read, own, read', Option.bind_eq_bind, Option.bind_some]
    split_ifs with version header size
    · exact ⟨none, rfl, nofun⟩
    · exact ⟨none, rfl, nofun⟩
    · exact ⟨none, rfl, nofun⟩
    · refine ⟨_, rfl, ?_⟩
      rintro q ⟨⟩
      refine ⟨_, ?_, Nat.not_lt.mp (not_or.mp header).1, ?_⟩
      · rwa [headerLength_take (by omega)]
      · rw [List.length_take]
        omega

/-! ## UDP -/

structure UdpDatagram where
  gIp : BitVec 32
  rIp : BitVec 32
  gPort : BitVec 16
  rPort : BitVec 16
  payload : List Octet

/-- What `handleUdpFromGuest` reads. -/
def parseUdp (p : List Octet) : Option (Option UdpDatagram) := do
  let ihl ← headerLength p
  if p.length < ihl + 8 then some none
  else
    let gIp ← rd32 p 12
    let rIp ← rd32 p 16
    let gPort ← rd16 p ihl
    let rPort ← rd16 p (ihl + 2)
    let payload ← readAt p (ihl + 8) (p.length - ihl - 8)
    return some ⟨gIp, rIp, gPort, rPort, payload⟩

theorem parseUdp_inside {ihl : Nat} (datagram : IsDatagram p ihl) :
    ∃ parsed, parseUdp p = some parsed := by
  have := datagram.long
  rw [parseUdp, datagram.own, Option.bind_eq_bind, Option.bind_some]
  split_ifs with short
  · exact ⟨none, rfl⟩
  · refine bind_inside (rd32_inside (by omega)) fun gIp _ => ?_
    refine bind_inside (rd32_inside (by omega)) fun rIp _ => ?_
    refine bind_inside (rd16_inside (by omega)) fun gPort _ => ?_
    refine bind_inside (rd16_inside (by omega)) fun rPort _ => ?_
    exact bind_inside ⟨_, readAt_inside (by omega)⟩ fun payload _ => ⟨_, rfl⟩

/-! ## TCP -/

/-- The shift a window-scale option asks for; other options have none. -/
def scaleAt (p : List Octet) (i : Nat) (kind len : Octet) : Option (List Octet) :=
  if kind = 3#8 ∧ len = 3#8 then (p[i]?).map fun b => [b] else some []

/-- The option scan of a SYN, over the TCP header of `th` octets at `t`. -/
def scanOptions (p : List Octet) (t th o : Nat) : Option (List Octet) :=
  if th ≤ o then some []
  else do
    let kind : Octet ← p[t + o]?
    if kind = 0#8 then some []
    else if kind = 1#8 then scanOptions p t th (o + 1)
    else if th ≤ o + 1 then some []
    else
      let len : Octet ← p[t + o + 1]?
      if len.toNat < 2 ∨ th < o + len.toNat then some []
      else
        let found ← scaleAt p (t + o + 2) kind len
        let rest ← scanOptions p t th (o + len.toNat)
        some (found ++ rest)
termination_by th - o

theorem scaleAt_inside {i : Nat} (kind : Octet) {len : Octet} (inside : len = 3#8 → i < p.length) :
    ∃ found, scaleAt p i kind len = some found := by
  rw [scaleAt]
  split_ifs with scale
  · obtain ⟨b, read⟩ := getElem?_inside (inside scale.2)
    exact ⟨[b], by rw [read]; rfl⟩
  · exact ⟨[], rfl⟩

theorem scanOptions_inside {t th : Nat} (inside : t + th ≤ p.length) (o : Nat) :
    ∃ found, scanOptions p t th o = some found := by
  induction left : th - o using Nat.strongRecOn generalizing o with
  | _ left ih =>
    rw [scanOptions]
    by_cases done : th ≤ o
    · exact ⟨[], if_pos done⟩
    rw [if_neg done]
    refine bind_inside (getElem?_inside (by omega)) fun kind _ => ?_
    split_ifs with stop skip last
    · exact ⟨[], rfl⟩
    · exact ih _ (by omega) (o + 1) rfl
    · exact ⟨[], rfl⟩
    refine bind_inside (getElem?_inside (by omega)) fun len _ => ?_
    split_ifs with bad
    · exact ⟨[], rfl⟩
    have three : len = 3#8 → t + o + 2 < p.length := by
      rintro rfl
      have : (3#8 : Octet).toNat = 3 := rfl
      omega
    refine bind_inside (scaleAt_inside kind three) fun found _ => ?_
    exact bind_inside (ih _ (by omega) (o + len.toNat) rfl) fun rest _ => ⟨found ++ rest, rfl⟩

/-- What `handleTcpFromGuest` reads. -/
def parseTcp (p : List Octet) : Option (Option GuestSegment) := do
  let ihl ← headerLength p
  if p.length < ihl + 20 then some none
  else
    let gIp ← rd32 p 12
    let rIp ← rd32 p 16
    let gPort ← rd16 p ihl
    let rPort ← rd16 p (ihl + 2)
    let seq ← rd32 p (ihl + 4)
    let ack ← rd32 p (ihl + 8)
    let offset ← p[ihl + 12]?
    let flags ← p[ihl + 13]?
    let window ← rd16 p (ihl + 14)
    let th := (offset >>> 4).toNat * 4
    if th < 20 ∨ p.length < ihl + th then some none
    else
      let payload ← readAt p (ihl + th) (p.length - ihl - th)
      let scales ←
        if flag flags 0x02#8 && !flag flags 0x10#8 then scanOptions p ihl th 20 else some []
      return some { gIp, rIp, gPort, rPort, seq, ack, flags, window, payload, scales }

theorem parseTcp_inside {ihl : Nat} (datagram : IsDatagram p ihl) :
    ∃ parsed, parseTcp p = some parsed := by
  rw [parseTcp, datagram.own, Option.bind_eq_bind, Option.bind_some]
  split_ifs with short
  · exact ⟨none, rfl⟩
  · refine bind_inside (rd32_inside (by omega)) fun gIp _ => ?_
    refine bind_inside (rd32_inside (by omega)) fun rIp _ => ?_
    refine bind_inside (rd16_inside (by omega)) fun gPort _ => ?_
    refine bind_inside (rd16_inside (by omega)) fun rPort _ => ?_
    refine bind_inside (rd32_inside (by omega)) fun seq _ => ?_
    refine bind_inside (rd32_inside (by omega)) fun ack _ => ?_
    refine bind_inside (getElem?_inside (by omega)) fun offset _ => ?_
    refine bind_inside (getElem?_inside (by omega)) fun flags _ => ?_
    refine bind_inside (rd16_inside (by omega)) fun window _ => ?_
    dsimp only
    split
    · exact ⟨none, rfl⟩
    · refine bind_inside ⟨_, readAt_inside (by omega)⟩ fun payload _ => ?_
      split_ifs with pure
      · exact bind_inside (scanOptions_inside (by omega) 20) fun scales _ => ⟨_, rfl⟩
      · exact ⟨_, rfl⟩

end Pom68k.MacIp
