import Pom68k.MacIp.Gateway
import Pom68k.Foundation.Runs

/-! # No access outside of a buffer

Whatever a guest sends, the handlers stay inside of the datagram and of the buffers that
collect fragments, with one exception: the checksum of a rebuilt header is taken over the
header length of the fragment that came last, and that may be more than was rebuilt.
-/

namespace Pom68k.MacIp

open Foundation

/-! ## Fragments -/

theorem FragSet.isHeader_of_complete {s : FragSet} (sound : s.Sound) (complete : s.Complete) :
    IsHeader s.hdr :=
  sound.header.resolve_left complete.1

/-- Taking a fragment stays inside of the buffers of the set, keeps them in order, and what
it gives out is a datagram with the header of the set. -/
theorem FragSet.take_spec {front back : List FragSet} {s : FragSet} {f : Fragment}
    (others : ∀ t ∈ front ++ back, t.Sound) (sound : s.Sound) (valid : f.Valid) :
    ∃ sets whole, FragSet.take front s back f = some (sets, whole) ∧ (∀ t ∈ sets, t.Sound) ∧
      ∀ out, whole = some out → ∃ hdr body, out = hdr ++ body ∧ IsHeader hdr := by
  have sound' := sound.placed valid
  rw [take_eq sound valid]
  split_ifs with complete
  · refine ⟨_, _, rfl, others, ?_⟩
    rintro out ⟨⟩
    exact ⟨_, _, rfl, isHeader_of_complete sound' complete⟩
  · obtain ⟨before, behind⟩ := List.forall_mem_append.mp others
    exact ⟨_, _, rfl, List.forall_mem_append.mpr
      ⟨before, List.forall_mem_cons.mpr ⟨sound', behind⟩⟩, nofun⟩

variable {sets : List FragSet} {ihl : Nat} {p : List Octet}

theorem gather_spec {f : Fragment} (sound : ∀ s ∈ sets, s.Sound) (valid : f.Valid) (now : Int) :
    ∃ sets' whole, gather sets f now = some (sets', whole) ∧ (∀ s ∈ sets', s.Sound) ∧
      ∀ out, whole = some out → ∃ hdr body, out = hdr ++ body ∧ IsHeader hdr := by
  rw [gather]
  by_cases large : kMaxReasmBytes < f.stop
  · rw [if_pos large]
    exact ⟨_, _, rfl, sound, nofun⟩
  · rw [if_neg large]
    cases found : splitLast (fun s => s.key = f.key) sets with
    | none =>
      split_ifs with full
      · exact ⟨_, _, rfl, sound, nofun⟩
      · refine FragSet.take_spec ?_ (FragSet.sound_fresh f.key now) valid
        rwa [List.append_nil]
    | some parts =>
      obtain ⟨rfl, -⟩ := splitLast_some found
      obtain ⟨before, rest⟩ := List.forall_mem_append.mp sound
      obtain ⟨here, behind⟩ := List.forall_mem_cons.mp rest
      exact FragSet.take_spec (List.forall_mem_append.mpr ⟨before, behind⟩) here valid

/-- The fields are written inside, and what is left is the checksum. -/
theorem rebuild_blank {out : List Octet} (long : 20 ≤ out.length) (ihl : Nat) :
    ∃ blank, rebuild out ihl = (csum blank 0 ihl).bind (wr16 blank 10) ∧
      blank.length = out.length ∧ ∀ i, i < 2 ∨ 12 ≤ i → blank[i]? = out[i]? := by
  obtain ⟨out₁, write₁, size₁, same₁⟩ := wr16_inside (show 2 + 2 ≤ out.length by omega)
    (BitVec.ofNat 16 out.length)
  obtain ⟨out₂, write₂, size₂, same₂⟩ := wr16_inside (show 6 + 2 ≤ out₁.length by omega) 0#16
  obtain ⟨out₃, write₃, size₃, same₃⟩ := wr16_inside (show 10 + 2 ≤ out₂.length by omega) 0#16
  refine ⟨out₃, ?_, by omega, fun i outside => ?_⟩
  · simp only [rebuild, write₁, write₂, write₃, Option.bind_eq_bind, Option.bind_some]
  · rw [same₃ i (by omega), same₂ i (by omega), same₁ i (by omega)]

/-- The header is rebuilt inside just if the checksum is. -/
theorem rebuild_isSome {out : List Octet} (long : 20 ≤ out.length) (ihl : Nat) :
    (rebuild out ihl).isSome ↔ ihl ≤ out.length := by
  obtain ⟨blank, same, size, -⟩ := rebuild_blank long ihl
  rw [same]
  cases sum : csum blank 0 ihl with
  | none =>
    refine iff_of_false Bool.false_ne_true fun inside => ?_
    obtain ⟨_, summed⟩ := csum_inside (show 0 + ihl ≤ blank.length by omega)
    cases sum.symm.trans summed
  | some v =>
    have := csum_isSome.mp (Option.isSome_of_eq_some sum)
    obtain ⟨_, written, -⟩ := wr16_inside (show 10 + 2 ≤ blank.length by omega) v
    exact iff_of_true (Option.isSome_of_eq_some written) (by omega)

/-- A rebuilt datagram keeps its header length and its payload. -/
theorem rebuild_spec {out whole : List Octet} (long : 20 ≤ out.length)
    (rebuilt : rebuild out ihl = some whole) :
    whole.length = out.length ∧ ∀ i, i < 2 ∨ 12 ≤ i → whole[i]? = out[i]? := by
  obtain ⟨blank, same, size, rest⟩ := rebuild_blank long ihl
  obtain ⟨sum, -, write⟩ := Option.bind_eq_some_iff.mp (same.symm.trans rebuilt)
  obtain ⟨_, written, size', rest'⟩ := wr16_inside (show 10 + 2 ≤ blank.length by omega) sum
  cases write.symm.trans written
  exact ⟨by omega, fun i outside => by rw [rest' i (by omega), rest i outside]⟩

theorem isDatagram_rebuild {hdr body whole : List Octet} (header : IsHeader hdr)
    (rebuilt : rebuild (hdr ++ body) ihl = some whole) : IsDatagram whole hdr.length := by
  have := header.long
  obtain ⟨size, same⟩ := rebuild_spec (by rw [List.length_append]; omega) rebuilt
  refine ⟨?_, header.long, ?_⟩
  · rw [← header.own, headerLength, headerLength, same 0 (by omega),
      List.getElem?_append_left (by omega)]
  · rw [size, List.length_append]
    omega

/-- The header of a fragment is not longer than the datagram the fragment completes. -/
def Covers (sets : List FragSet) (p : List Octet) (now : Int) : Prop :=
  ∀ f sets' out, parseFragment p = some (some f) → gather sets f now = some (sets', some out) →
    f.hdr.length ≤ out.length

/-- Reassembly stays inside just if the header of a completing fragment is covered. -/
theorem reassemble_spec (sound : ∀ s ∈ sets, s.Sound) (datagram : IsDatagram p ihl) (now : Int) :
    ((reassemble sets p now).isSome ↔ Covers sets p now) ∧
      ∀ sets' whole, reassemble sets p now = some (sets', whole) → (∀ s ∈ sets', s.Sound) ∧
        ∀ out, whole = some out → ∃ ihl', IsDatagram out ihl' := by
  obtain ⟨f, parsed, valid, -⟩ := parseFragment_inside datagram
  obtain ⟨sets', whole, gathered, sound', given⟩ := gather_spec sound valid now
  have covers : Covers sets p now ↔ ∀ out, whole = some out → f.hdr.length ≤ out.length := by
    constructor
    · rintro covers out rfl
      exact covers f sets' out parsed gathered
    · intro covers f' sets'' out parsed' gathered'
      cases parsed.symm.trans parsed'
      cases gathered.symm.trans gathered'
      exact covers out rfl
  rw [covers]
  simp only [reassemble, parsed, gathered, Option.bind_eq_bind, Option.bind_some]
  cases whole with
  | none =>
    refine ⟨iff_of_true rfl nofun, ?_⟩
    rintro _ _ ⟨⟩
    exact ⟨sound', nofun⟩
  | some out =>
    obtain ⟨hdr, body, rfl, header⟩ := given out rfl
    have := header.long
    have long : 20 ≤ (hdr ++ body).length := by
      rw [List.length_append]
      omega
    dsimp only
    cases rebuilt : rebuild (hdr ++ body) f.hdr.length with
    | none =>
      refine ⟨iff_of_false Bool.false_ne_true fun covered => ?_, nofun⟩
      have inside := (rebuild_isSome long f.hdr.length).mpr (covered _ rfl)
      rw [rebuilt] at inside
      cases inside
    | some out' =>
      refine ⟨iff_of_true rfl ?_, ?_⟩
      · rintro _ ⟨⟩
        exact (rebuild_isSome long f.hdr.length).mp (by rw [rebuilt]; rfl)
      · rintro _ _ ⟨⟩
        refine ⟨sound', ?_⟩
        rintro _ ⟨⟩
        exact ⟨_, isDatagram_rebuild header rebuilt⟩

/-! ## Handlers -/

namespace Gateway

theorem echo_inside (datagram : IsDatagram p ihl)
    (room : ihl + 8 ≤ p.length) (g : Gateway) (sip : BitVec 32) :
    ∃ r, g.echo sip p ihl = some r := by
  have := datagram.long
  obtain ⟨r₁, write₁, size₁, -⟩ := wr32_inside (show 12 + 4 ≤ p.length by omega) g.gw
  obtain ⟨r₂, write₂, size₂, -⟩ := wr32_inside (show 16 + 4 ≤ r₁.length by omega) sip
  obtain ⟨r₃, write₃, size₃, -⟩ :=
    writeAt_spec (show ihl + [0#8].length ≤ r₂.length by change ihl + 1 ≤ _; omega)
  obtain ⟨r₄, write₄, size₄, -⟩ := wr16_inside (show ihl + 2 + 2 ≤ r₃.length by omega) 0#16
  obtain ⟨ic, sum₄⟩ := csum_inside (show ihl + (p.length - ihl) ≤ r₄.length by omega)
  obtain ⟨r₅, write₅, size₅, -⟩ := wr16_inside (show ihl + 2 + 2 ≤ r₄.length by omega) ic
  obtain ⟨r₆, write₆, size₆, -⟩ := wr16_inside (show 10 + 2 ≤ r₅.length by omega) 0#16
  obtain ⟨sum, sum₆⟩ := csum_inside (show 0 + ihl ≤ r₆.length by omega)
  obtain ⟨r₇, write₇, -⟩ := wr16_inside (show 10 + 2 ≤ r₆.length by omega) sum
  simp only [echo, write₁, write₂, write₃, write₄, sum₄, write₅, write₆, sum₆, write₇,
    Option.bind_eq_bind, Option.bind_some]
  exact ⟨r₇, rfl⟩

theorem answer_inside (datagram : IsDatagram p ihl) (g : Gateway)
    (sip : BitVec 32) (proto : Octet) : ∃ out, g.answer sip proto p ihl = some out := by
  rw [answer]
  split_ifs with ping
  · refine bind_inside (getElem?_inside (by omega)) fun kind _ => ?_
    split_ifs
    · exact bind_inside (echo_inside datagram ping.2 g sip) fun r _ => ⟨_, rfl⟩
    · exact ⟨_, rfl⟩
  · exact ⟨_, rfl⟩

/-- The handlers behind the dispatch leave the fragments alone. -/
theorem frags_transmit (g : Gateway) (c : TcpConn) (segs : List Segment) :
    (g.transmit c segs).1.frags = g.frags := by
  induction segs generalizing g with
  | nil => rfl
  | cons seg rest ih => exact ih _

theorem frags_emit (g : Gateway) (c : TcpConn) (out : TcpOut) : (g.emit c out).1.frags = g.frags :=
  frags_transmit g c out.segments

theorem frags_handleStray (g : Gateway) (seg : GuestSegment) (socket : Bool) (clock : Clock) :
    ∃ g' out, g.handleStray seg socket clock = (g', out) ∧ g'.frags = g.frags := by
  rw [handleStray]
  split_ifs
  · exact ⟨_, _, rfl, rfl⟩
  · exact ⟨_, _, (Prod.mk.eta ..).symm, frags_transmit g _ _⟩
  · exact ⟨_, _, rfl, rfl⟩
  · exact ⟨_, _, rfl, rfl⟩

theorem frags_handleTcp (g : Gateway) (seg : GuestSegment) (socket : Bool) (clock : Clock) :
    (g.handleTcpFromGuest seg socket clock).1.frags = g.frags := by
  rw [handleTcpFromGuest]
  split
  · exact frags_emit _ _ _
  · obtain ⟨g', out, handled, same⟩ := frags_handleStray (g.noteScales seg) seg socket clock
    rwa [handled]

theorem frags_handleUdp (g : Gateway) (d : UdpDatagram) (socket : Bool) (clock : Clock) :
    (g.handleUdpFromGuest d socket clock).1.frags = g.frags := by
  rw [handleUdpFromGuest]
  split
  · rfl
  · split_ifs <;> rfl

theorem dispatch_inside (datagram : IsDatagram p ihl) (g : Gateway)
    (proto : Octet) (socket : Bool) (clock : Clock) :
    ∃ g' out, g.dispatch proto p socket clock = some (g', out) ∧ g'.frags = g.frags := by
  obtain ⟨tcp, parsedTcp⟩ := parseTcp_inside datagram
  obtain ⟨udp, parsedUdp⟩ := parseUdp_inside datagram
  simp only [dispatch, parsedTcp, parsedUdp]
  split_ifs
  · cases tcp with
    | none => exact ⟨_, _, rfl, rfl⟩
    | some seg => exact ⟨_, _, rfl, frags_handleTcp g seg socket clock⟩
  · cases udp with
    | none => exact ⟨_, _, rfl, rfl⟩
    | some d => exact ⟨_, _, rfl, frags_handleUdp g d socket clock⟩
  · exact ⟨_, _, rfl, rfl⟩

variable {g : Gateway} {now : Int}

theorem frags_learn {g' : Gateway} {sip : BitVec 32} {src : Addr} {ether : Bool} {clock : Clock}
    (learned : g.learn sip src ether clock = some g') : g'.frags = g.frags := by
  rw [learn] at learned
  split_ifs at learned
  · split at learned
    · cases learned
      rfl
    · split_ifs at learned
      cases learned
      rfl
  · cases learned
    rfl

/-- The sets of a gateway are in order. -/
def Sound (g : Gateway) : Prop := ∀ s ∈ g.frags, s.Sound

/-- A datagram that has passed the checks, if it is a fragment for the outside. -/
def outbound (g : Gateway) (src : Addr) (ether : Bool) (p : List Octet) (clock : Clock) :
    Option (List Octet) := do
  let sip ← rd32 p 12
  let dip ← rd32 p 16
  let g ← g.learn sip src ether clock
  if dip = g.gw ∨ dip &&& g.mask = g.gw &&& g.mask then none
  else
    let frag : BitVec 16 ← rd16 p 6
    if frag &&& 0x3FFF#16 = 0#16 then none else some p

/-- The fragment that what came in is handed to reassembly as. -/
def fragment (g : Gateway) (src : Addr) (ether : Bool) (p : List Octet) (clock : Clock) :
    Option (List Octet) :=
  if (if ether then g.etherSink else g.enabled) = false then none
  else (trimmed p).join.bind fun q => g.outbound src ether q clock

/-- A step whose datagram, if it is the last missing fragment of another, does not have a
header longer than that. -/
def Fits (g : Gateway) : Op → Prop
  | .ip src ether p _ clock =>
    ∀ q, g.fragment src ether p clock = some q → Covers g.frags q clock.now
  | _ => True

/-- What one datagram does to the sets: nothing, or it is taken as a fragment. -/
inductive Moved (sets : List FragSet) (now : Int) : List FragSet → Prop
  | same : Moved sets now sets
  | took {p : List Octet} {ihl : Nat} {sets' : List FragSet} {whole : Option (List Octet)} :
      IsDatagram p ihl → reassemble sets p now = some (sets', whole) → Moved sets now sets'

theorem Moved.sound {sets' : List FragSet} (moved : Moved sets now sets')
    (sound : ∀ s ∈ sets, s.Sound) : ∀ s ∈ sets', s.Sound := by
  cases moved with
  | same => exact sound
  | took datagram taken => exact ((reassemble_spec sound datagram now).2 _ _ taken).1

/-- What a handler may come to: a result that moved the sets, just if a condition is met. -/
def Meets (sets : List FragSet) (now : Int) (result : Option (Gateway × List Output))
    (condition : Prop) : Prop :=
  (result.isSome ↔ condition) ∧ ∀ g out, result = some (g, out) → Moved sets now g.frags

theorem meets_some (moved : Moved sets now g.frags)
    (out : List Output) {condition : Prop} (holds : condition) :
    Meets sets now (some (g, out)) condition := by
  refine ⟨iff_of_true rfl holds, ?_⟩
  rintro _ _ ⟨⟩
  exact moved

theorem dispatch_meets (moved : Moved sets now g.frags) (datagram : IsDatagram p ihl)
    (proto : Octet) (socket : Bool) (clock : Clock) {condition : Prop} (holds : condition) :
    Meets sets now (g.dispatch proto p socket clock) condition := by
  obtain ⟨g', out, dispatched, same⟩ := dispatch_inside datagram g proto socket clock
  rw [dispatched]
  exact meets_some (same ▸ moved) out holds

theorem forward_meets (sound : g.Sound)
    (datagram : IsDatagram p ihl) {frag : BitVec 16} (read : rd16 p 6 = some frag) (proto : Octet)
    (socket : Bool) (clock : Clock) :
    Meets g.frags clock.now (g.forward proto p socket clock)
      (frag &&& 0x3FFF#16 ≠ 0#16 → Covers g.frags p clock.now) := by
  simp only [forward, read, Option.bind_eq_bind, Option.bind_some]
  split_ifs with single
  · exact dispatch_meets .same datagram proto socket clock fun part => absurd single part
  · obtain ⟨inside, spec⟩ := reassemble_spec sound datagram clock.now
    have condition : (frag &&& 0x3FFF#16 ≠ 0#16 → Covers g.frags p clock.now) ↔
        Covers g.frags p clock.now := ⟨fun covers => covers single, fun covers _ => covers⟩
    rw [condition, ← inside]
    cases result : reassemble g.frags p clock.now with
    | none => exact ⟨Iff.rfl, nofun⟩
    | some r =>
      obtain ⟨sets, whole⟩ := r
      have moved : Moved g.frags clock.now { g with frags := sets }.frags := .took datagram result
      cases whole with
      | none => exact meets_some moved [] rfl
      | some out =>
        obtain ⟨ihl', datagram'⟩ := (spec sets _ result).2 out rfl
        exact dispatch_meets moved datagram' proto socket clock rfl

theorem route_meets (sound : g.Sound)
    (datagram : IsDatagram p ihl) (src : Addr) (ether socket : Bool) (clock : Clock) :
    Meets g.frags clock.now (g.route src ether p socket clock)
      (∀ q, g.outbound src ether p clock = some q → Covers g.frags q clock.now) := by
  have := datagram.long
  have := datagram.whole
  obtain ⟨sip, read₁⟩ := rd32_inside (show 12 + 4 ≤ p.length by omega)
  obtain ⟨dip, read₂⟩ := rd32_inside (show 16 + 4 ≤ p.length by omega)
  obtain ⟨proto, read₃⟩ := getElem?_inside (show 9 < p.length by omega)
  obtain ⟨frag, read₄⟩ := rd16_inside (show 6 + 2 ≤ p.length by omega)
  simp only [route, outbound, datagram.own, read₁, read₂, read₃, Option.bind_eq_bind,
    Option.bind_some]
  cases learned : g.learn sip src ether clock with
  | none => exact meets_some .same [] nofun
  | some g' =>
    have same := frags_learn learned
    have sound' : g'.Sound := by rwa [Sound, same]
    simp only [read₄, Option.bind_some]
    rw [← same]
    by_cases own : dip = g'.gw
    · obtain ⟨out, answered⟩ := answer_inside datagram g' sip proto
      rw [if_pos own, if_pos (.inl own), answered]
      exact meets_some .same out nofun
    · by_cases inside : dip &&& g'.mask = g'.gw &&& g'.mask
      · rw [if_neg own, if_pos inside, if_pos (.inr inside)]
        exact meets_some .same [] nofun
      · rw [if_neg own, if_neg inside, if_neg (not_or.mpr ⟨own, inside⟩)]
        have condition : (frag &&& 0x3FFF#16 ≠ 0#16 → Covers g'.frags p clock.now) ↔
            ∀ q, (if frag &&& 0x3FFF#16 = 0#16 then none else some p) = some q →
              Covers g'.frags q clock.now := by
          split_ifs with single
          · exact iff_of_true (fun part => absurd single part) nofun
          · exact ⟨fun covers q here => Option.some.inj here ▸ covers single,
              fun covers _ => covers p rfl⟩
        rw [← condition]
        exact forward_meets sound' datagram read₄ proto socket clock

theorem handleIp_meets (sound : g.Sound) (src : Addr) (ether : Bool) (p : List Octet)
    (socket : Bool) (clock : Clock) :
    Meets g.frags clock.now (g.handleIp src ether p socket clock)
      (g.Fits (.ip src ether p socket clock)) := by
  rw [handleIp, Fits, fragment]
  by_cases off : (if ether then g.etherSink else g.enabled) = false
  · rw [if_pos off, if_pos off]
    exact meets_some .same [] nofun
  · rw [if_neg off, if_neg off]
    obtain ⟨kept, checked, given⟩ := trimmed_spec p
    rw [checked, Option.bind_eq_bind]
    cases kept with
    | none => exact meets_some .same [] nofun
    | some q =>
      obtain ⟨ihl, datagram⟩ := given q rfl
      exact route_meets sound datagram src ether socket clock

theorem frags_pumpAll (g : Gateway) (clock : Clock) (conns : List TcpConn)
    (hosts : List PumpHost) : (g.pumpAll clock conns hosts).1.frags = g.frags := by
  induction conns generalizing g hosts with
  | nil => rfl
  | cons c rest ih => exact (ih _ _).trans (frags_emit g _ _)

theorem frags_tick (g : Gateway) (clock : Clock) (hosts : List PumpHost)
    (waiting : List (List (List Octet))) :
    (g.tick clock hosts waiting).1.frags = g.frags ∨
      (g.tick clock hosts waiting).1.frags = expire g.frags clock := by
  rw [tick]
  split_ifs
  · exact .inl rfl
  · refine .inr ?_
    change expire (g.pumpAll clock g.tcp hosts).1.frags clock = _
    rw [frags_pumpAll]

theorem frags_setEnabled (g : Gateway) (on : Bool) : (g.setEnabled on).frags = g.frags := by
  rw [setEnabled]
  split_ifs <;> rfl

theorem frags_configure (g : Gateway) (gw mask : BitVec 32) :
    (g.configure gw mask).frags = g.frags := by
  rw [configure, frags_setEnabled]
  exact frags_setEnabled g false

/-- A step without what goes out. -/
def next (g : Gateway) (op : Op) : Option Gateway := (g.step op).map Prod.fst

/-- A step has a result just if its datagram fits, and then the sets were left alone, took
it as a fragment, or dropped what had expired. -/
theorem next_spec (sound : g.Sound) (op : Op) :
    ((g.next op).isSome ↔ g.Fits op) ∧ ∀ g', g.next op = some g' →
      (∃ now, Moved g.frags now g'.frags) ∨ ∃ clock, g'.frags = expire g.frags clock := by
  have quiet {h : Gateway} (same : h.frags = g.frags) (g' : Gateway) (here : some h = some g') :
      (∃ now, Moved g.frags now g'.frags) ∨ ∃ clock, g'.frags = expire g.frags clock := by
    cases here
    exact .inl ⟨0, same ▸ .same⟩
  cases op with
  | ip src ether p socket clock =>
    obtain ⟨inside, moved⟩ := handleIp_meets sound src ether p socket clock
    refine ⟨(Option.isSome_map ▸ inside :), fun g' here => ?_⟩
    obtain ⟨r, stepped, rfl⟩ := Option.map_eq_some_iff.mp here
    exact .inl ⟨clock.now, moved r.1 r.2 stepped⟩
  | tick clock hosts waiting =>
    refine ⟨iff_of_true rfl trivial, fun g' here => ?_⟩
    rcases frags_tick g clock hosts waiting with same | expired
    · exact quiet same g' here
    · cases here
      exact .inr ⟨clock, expired⟩
  | setEnabled on => exact ⟨iff_of_true rfl trivial, quiet (frags_setEnabled g on)⟩
  | setEtherSink on => exact ⟨iff_of_true rfl trivial, quiet ((by cases on <;> rfl))⟩
  | configure gw mask => exact ⟨iff_of_true rfl trivial, quiet (frags_configure g gw mask)⟩
  | leases leases =>
    exact ⟨iff_of_true rfl trivial, quiet rfl⟩

theorem sound_next {g' : Gateway} {op : Op} (sound : g.Sound) (moved : g.next op = some g') :
    g'.Sound := by
  rcases (next_spec sound op).2 g' moved with ⟨now, moved⟩ | ⟨clock, expired⟩
  · exact moved.sound sound
  · rw [Sound, expired]
    exact fun s inside => sound s (List.mem_of_mem_filter inside)

/-- Over any sequence of datagrams, ticks and changes of the links, no access is outside of
a buffer just if no fragment completes a datagram shorter than its own header. -/
theorem gateway_inside (gw mask : BitVec 32) (ops : List Op) :
    (attempt next { gw := gw, mask := mask } ops).isSome ↔
      Through next Fits { gw := gw, mask := mask } ops := by
  exact attempt_isSome_iff (fun g op sound => (next_spec sound op).1)
    (fun g op g' sound moved => sound_next sound moved)
    (fun s inside => absurd inside List.not_mem_nil) ops

namespace Sample

/-- A part of a UDP datagram, with a header of some words. -/
def part (words total : Octet) (frag : BitVec 16) (rest : List Octet) : Op :=
  .ip {} false
    ([0x40#8 ||| words, 0#8, 0#8, total, 0#8, 1#8] ++ octets16 frag ++ [64#8, 17#8, 0#8, 0#8] ++
      octets32 0xC0A89702#32 ++ octets32 0x0A000001#32 ++ rest) true ⟨0, 1⟩

/-- Eight octets behind a short header, then one behind the longest. -/
def mixed : List Op :=
  [.setEnabled true, part 5#8 28#8 0x2000#16 (List.replicate 8 0#8),
    part 15#8 61#8 0x0001#16 (List.replicate 41 0#8)]

end Sample

/-- Fragments with headers of different lengths make the checksum run over the end. -/
theorem gateway_outside : ¬∀ ops : List Op, (attempt next {} ops).isSome := by
  intro inside
  have faults : (attempt next {} Sample.mixed).isSome = false := by decide +kernel
  cases faults.symm.trans (inside Sample.mixed)

end Gateway

end Pom68k.MacIp
