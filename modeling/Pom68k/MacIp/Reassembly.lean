import Pom68k.MacIp.Datagram
import Pom68k.Foundation.Pieces

/-! # Fragments

A fragmented datagram is put back together before it is handled. A set keeps what has come
in for one datagram with a mark for each octet; it is complete when the number of marks is
the length its last fragment named.
-/

namespace Pom68k.MacIp

open Foundation

def kMaxReasmBytes : Nat := 16 * 1024

def kMaxFragSets : Nat := 16

def kFragTtlSec : Int := 15

/-- What the fragments of one datagram have in common. -/
structure FragKey where
  sip : BitVec 32
  dip : BitVec 32
  id : BitVec 16
  proto : Octet
deriving DecidableEq

/-- A fragment taken apart. -/
structure Fragment where
  key : FragKey
  off : Nat
  more : Bool
  hdr : List Octet
  payload : List Octet
deriving DecidableEq

/-- Where the octets of a fragment end. -/
def Fragment.stop (f : Fragment) : Nat := f.off + f.payload.length

/-- `FragSet`; the marks are its `have`. -/
structure FragSet where
  key : FragKey
  firstSeen : Int
  totalLen : Nat := 0
  haveCount : Nat := 0
  hdr : List Octet := []
  data : List Octet := []
  marks : List Bool := []
deriving DecidableEq

/-- The reads of `reassemble` in the fragment. -/
def parseFragment (p : List Octet) : Option (Option Fragment) := do
  let ihl ← headerLength p
  if p.length < ihl then some none
  else
    let frag ← rd16 p 6
    let sip ← rd32 p 12
    let dip ← rd32 p 16
    let proto ← p[9]?
    let id ← rd16 p 4
    let hdr ← readAt p 0 ihl
    let payload ← readAt p ihl (p.length - ihl)
    return some
      { key := ⟨sip, dip, id, proto⟩
        off := (frag &&& 0x1FFF#16).toNat * 8
        more := frag &&& 0x2000#16 ≠ 0#16
        hdr, payload }

namespace FragSet

/-- The loop over the marks: an octet that was there before is not counted again. -/
def mark (marks : List Bool) (count off : Nat) : Nat → Option (List Bool × Nat)
  | 0 => some (marks, count)
  | n + 1 => do
      let held ← marks[off]?
      mark (marks.set off true) (if held then count else count + 1) (off + 1) n

/-- The buffers are made long enough. -/
def grow (s : FragSet) (stop : Nat) : FragSet :=
  { s with
    data := s.data ++ List.replicate (stop - s.data.length) 0#8
    marks := s.marks ++ List.replicate (stop - s.data.length) false }

/-- A fragment is copied in. -/
def place (s : FragSet) (f : Fragment) : Option FragSet := do
  let s := s.grow (f.off + f.payload.length)
  let marked ← mark s.marks s.haveCount f.off f.payload.length
  let data ← writeAt s.data f.off f.payload
  return { s with
    data
    marks := marked.1
    haveCount := marked.2
    hdr := if f.off = 0 then f.hdr else s.hdr
    totalLen := if f.more then s.totalLen else f.off + f.payload.length }

/-- Header and payload of a set that counts as complete. -/
def whole (s : FragSet) : Option (Option (List Octet)) :=
  if s.hdr = [] ∨ s.totalLen = 0 ∨ s.haveCount ≠ s.totalLen then some none
  else do
    let body ← readAt s.data 0 s.totalLen
    return some (s.hdr ++ body)

/-- A set gets a fragment; once complete it is given out and forgotten. -/
def take (front : List FragSet) (s : FragSet) (back : List FragSet) (f : Fragment) :
    Option (List FragSet × Option (List Octet)) := do
  let s ← s.place f
  match ← s.whole with
  | none => return (front ++ s :: back, none)
  | some out => return (front ++ back, some out)

end FragSet

/-- The set of a fragment is found or made. A fragment that would need too much is
refused. -/
def gather (sets : List FragSet) (f : Fragment) (now : Int) :
    Option (List FragSet × Option (List Octet)) :=
  if kMaxReasmBytes < f.stop then some (sets, none)
  else
    match splitLast (fun s => s.key = f.key) sets with
    | some (front, s, back) => FragSet.take front s back f
    | none =>
      if kMaxFragSets ≤ sets.length then some (sets, none)
      else FragSet.take sets { key := f.key, firstSeen := now } [] f

/-- The header of the rebuilt datagram. The length of the header that is summed up is that
of the fragment at hand. -/
def rebuild (out : List Octet) (ihl : Nat) : Option (List Octet) := do
  let out ← wr16 out 2 (BitVec.ofNat 16 out.length)
  let out ← wr16 out 6 0#16
  let out ← wr16 out 10 0#16
  let sum ← csum out 0 ihl
  wr16 out 10 sum

def reassemble (sets : List FragSet) (p : List Octet) (now : Int) :
    Option (List FragSet × Option (List Octet)) := do
  match ← parseFragment p with
  | none => return (sets, none)
  | some f =>
    let gathered ← gather sets f now
    match gathered.2 with
    | none => return (gathered.1, none)
    | some out =>
      let out ← rebuild out f.hdr.length
      return (gathered.1, some out)

/-- Sets that were never completed are dropped by `tick`. -/
def expire (sets : List FragSet) (clock : Clock) : List FragSet :=
  sets.filter fun s => clock.now - s.firstSeen ≤ kFragTtlSec * clock.cpuHz

/-! ## Inside the buffers -/

/-- A fragment as the parser gives it out. -/
def Fragment.Valid (f : Fragment) : Prop := IsHeader f.hdr

/-- The buffers of a set fit together. -/
structure FragSet.Sound (s : FragSet) : Prop where
  sizes : s.data.length = s.marks.length
  tail : s.totalLen ≤ s.data.length
  count : s.haveCount = s.marks.count true
  header : s.hdr = [] ∨ IsHeader s.hdr

theorem parseFragment_inside {p : List Octet} {ihl : Nat} (datagram : IsDatagram p ihl) :
    ∃ f, parseFragment p = some (some f) ∧ f.Valid ∧ f.hdr = p.take ihl ∧
      f.payload = p.drop ihl := by
  have := datagram.long
  have := datagram.whole
  obtain ⟨frag, read₁⟩ := rd16_inside (show 6 + 2 ≤ p.length by omega)
  obtain ⟨sip, read₂⟩ := rd32_inside (show 12 + 4 ≤ p.length by omega)
  obtain ⟨dip, read₃⟩ := rd32_inside (show 16 + 4 ≤ p.length by omega)
  obtain ⟨proto, read₄⟩ := getElem?_inside (show 9 < p.length by omega)
  obtain ⟨id, read₅⟩ := rd16_inside (show 4 + 2 ≤ p.length by omega)
  have read₆ := readAt_inside (show 0 + ihl ≤ p.length by omega)
  have read₇ := readAt_inside (show ihl + (p.length - ihl) ≤ p.length by omega)
  simp only [parseFragment, datagram.own, Option.bind_eq_bind, Option.bind_some,
    if_neg (Nat.not_lt.mpr datagram.whole), read₁, read₂, read₃, read₄, read₅, read₆, read₇]
  refine ⟨_, rfl, ⟨?_, ?_⟩, rfl, ?_⟩
  · rw [List.drop_zero, List.length_take]
    omega
  · rw [List.drop_zero, headerLength_take (by omega), datagram.own, List.length_take,
      Nat.min_eq_left datagram.whole]
  · rw [← List.length_drop, List.take_length]

namespace FragSet

theorem mark_inside {marks : List Bool} {count off n : Nat} (room : off + n ≤ marks.length) :
    mark marks count off n =
      some (overwrite marks off (List.replicate n true),
        count + ((marks.drop off).take n).count false) := by
  induction n generalizing marks count off with
  | zero => rw [List.replicate_zero, overwrite_nil, List.take_zero]; rfl
  | succ n ih =>
    have here : marks[off]? = some marks[off] := List.getElem?_eq_getElem (by omega)
    rw [mark, here, Option.bind_eq_bind, Option.bind_some, ih (by rw [List.length_set]; omega)]
    have rest : marks.drop off = marks[off] :: marks.drop (off + 1) :=
      List.drop_eq_getElem_cons (by omega)
    have later : (marks.set off true).drop (off + 1) = marks.drop (off + 1) :=
      List.drop_set_of_lt (by omega)
    rw [later, rest, List.take_succ_cons, List.count_cons]
    refine congrArg some (Prod.ext ?_ ?_)
    · refine List.ext_getElem? fun i => ?_
      rw [getElem?_overwrite (by rw [List.length_replicate, List.length_set]; omega),
        getElem?_overwrite (by rw [List.length_replicate]; omega), List.length_replicate,
        List.length_replicate, List.getElem?_set, List.getElem?_replicate,
        List.getElem?_replicate]
      split_ifs <;> first | rfl | omega
    · cases marks[off] with
      | false =>
        change count + 1 + _ = count + (_ + 1)
        omega
      | true => rfl

theorem sound_fresh (key : FragKey) (now : Int) : Sound { key := key, firstSeen := now } where
  sizes := rfl
  tail := Nat.zero_le _
  count := rfl
  header := .inl rfl

variable {s : FragSet}

theorem Sound.grow (sound : s.Sound) (stop : Nat) : (s.grow stop).Sound where
  sizes := by
    rw [FragSet.grow, List.length_append, List.length_append, List.length_replicate,
      List.length_replicate, sound.sizes]
  tail := by
    rw [FragSet.grow, List.length_append]
    exact sound.tail.trans (Nat.le_add_right ..)
  count := by
    have none : (List.replicate (stop - s.data.length) false).count true = 0 :=
      List.count_eq_zero.mpr fun inside => Bool.false_ne_true (List.eq_of_mem_replicate inside).symm
    rw [FragSet.grow, List.count_append, none]
    exact sound.count
  header := sound.header

theorem le_length_grow (s : FragSet) (stop : Nat) : stop ≤ (s.grow stop).data.length := by
  rw [FragSet.grow, List.length_append, List.length_replicate]
  omega

/-- The set after a fragment has been copied in. -/
def placed (s : FragSet) (f : Fragment) : FragSet :=
  let s := s.grow (f.off + f.payload.length)
  let marks := overwrite s.marks f.off (List.replicate f.payload.length true)
  { s with
    data := overwrite s.data f.off f.payload
    marks
    haveCount := marks.count true
    hdr := if f.off = 0 then f.hdr else s.hdr
    totalLen := if f.more then s.totalLen else f.off + f.payload.length }

theorem place_eq (sound : s.Sound) (f : Fragment) : s.place f = some (s.placed f) := by
  have sound' := sound.grow (f.off + f.payload.length)
  have room := s.le_length_grow (f.off + f.payload.length)
  have room' := sound'.sizes ▸ room
  rw [place, placed, mark_inside room', writeAt_inside room, count_overwrite_true room', sound'.count]
  rfl

theorem Sound.placed {f : Fragment} (sound : s.Sound) (valid : f.Valid) : (s.placed f).Sound := by
  have sound' := sound.grow (f.off + f.payload.length)
  have room := s.le_length_grow (f.off + f.payload.length)
  have data : (s.placed f).data.length = (s.grow (f.off + f.payload.length)).data.length :=
    length_overwrite room
  have marks : (s.placed f).marks.length = (s.grow (f.off + f.payload.length)).marks.length :=
    length_overwrite (by rwa [List.length_replicate, ← sound'.sizes])
  refine ⟨?_, ?_, rfl, ?_⟩
  · rw [data, marks, sound'.sizes]
  · rw [data]
    change (if f.more then s.totalLen else f.off + f.payload.length) ≤ _
    split_ifs
    · exact sound'.tail
    · exact room
  · change (if f.off = 0 then f.hdr else s.hdr) = [] ∨ IsHeader (if f.off = 0 then f.hdr else s.hdr)
    split_ifs
    · exact .inr valid
    · exact sound.header

theorem represents_placed {pieces : List (Piece Octet)}
    (holds : Represents s.data s.marks pieces) (f : Fragment) :
    Represents (s.placed f).data (s.placed f).marks (⟨f.off, f.payload⟩ :: pieces) :=
  (holds.grow (f.off + f.payload.length - s.data.length) 0#8).place (p := ⟨f.off, f.payload⟩)
    (s.le_length_grow (f.off + f.payload.length))

/-- A set counts as complete: header and end are known, and there are as many marks as the
end says. -/
def Complete (s : FragSet) : Prop := s.hdr ≠ [] ∧ s.totalLen ≠ 0 ∧ s.haveCount = s.totalLen

instance (s : FragSet) : Decidable s.Complete := inferInstanceAs (Decidable (_ ∧ _ ∧ _))

theorem whole_eq (sound : s.Sound) :
    s.whole = some (if s.Complete then some (s.hdr ++ s.data.take s.totalLen) else none) := by
  rw [whole]
  by_cases complete : s.Complete
  · rw [if_neg (by simpa [Complete] using complete), if_pos complete,
      readAt_inside (by have := sound.tail; omega)]
    rfl
  · rw [if_neg complete, if_pos]
    by_contra done
    simp only [not_or, not_not] at done
    exact complete done

theorem take_eq (sound : s.Sound) {f : Fragment} (valid : f.Valid) (front back : List FragSet) :
    take front s back f =
      if (s.placed f).Complete then
        some (front ++ back, some ((s.placed f).hdr ++ (s.placed f).data.take (s.placed f).totalLen))
      else some (front ++ s.placed f :: back, none) := by
  rw [take, place_eq sound, Option.bind_eq_bind, Option.bind_some,
    whole_eq (sound.placed valid), Option.bind_eq_bind]
  split_ifs <;> rfl

end FragSet

end Pom68k.MacIp
