import Mathlib.Data.List.Nodup
import Pom68k.MacIp.Bounds

/-! # Reassembled datagrams

What has come in for a datagram is a list of fragments, of which the newest counts where
they overlap. A set stands for such a list; it is given out whole just if no fragment
reaches behind the end that the last one with the end named.
-/

namespace Pom68k.MacIp

open Foundation

def Fragment.piece (f : Fragment) : Piece Octet := ⟨f.off, f.payload⟩

/-- The octet received last for a place; the newest fragment stands first. -/
def received (parts : List Fragment) : Nat → Option Octet := latest (parts.map Fragment.piece)

/-- The end named by the newest fragment that is a last one. -/
def tailEnd (parts : List Fragment) : Nat :=
  match parts.find? fun f => !f.more with
  | some f => f.stop
  | none => 0

/-- No fragment has octets behind the end. -/
def NoneBeyond (parts : List Fragment) : Prop :=
  ∀ f ∈ parts, f.payload ≠ [] → f.stop ≤ tailEnd parts

instance (parts : List Fragment) : Decidable (NoneBeyond parts) :=
  inferInstanceAs (Decidable (∀ f ∈ parts, f.payload ≠ [] → f.stop ≤ tailEnd parts))

variable {parts : List Fragment}

theorem received_none_iff {n : Nat} :
    (∀ i, n ≤ i → received parts i = none) ↔ ∀ f ∈ parts, f.payload ≠ [] → f.stop ≤ n := by
  induction parts with
  | nil => exact iff_of_true (fun _ _ => rfl) (List.forall_mem_nil _)
  | cons f older ih =>
    have here : (∀ i, n ≤ i → f.piece.get i = none) ↔ (f.payload ≠ [] → f.stop ≤ n) := by
      constructor
      · intro none some
        have positive := List.length_pos_iff.mpr some
        by_contra beyond
        have last : f.off ≤ f.stop - 1 ∧ f.stop - 1 < f.off + f.payload.length := by
          rw [Fragment.stop]
          omega
        have absent := none (f.stop - 1) (by omega)
        have present := (f.piece.isSome_get (f.stop - 1)).mpr last
        rw [absent] at present
        cases present
      · intro low i behind
        refine Option.not_isSome_iff_eq_none.mp fun present => ?_
        obtain ⟨start, stop⟩ := (f.piece.isSome_get i).mp present
        change f.off ≤ i at start
        change i < f.off + f.payload.length at stop
        have := low (List.length_pos_iff.mp (by omega))
        rw [Fragment.stop] at this
        omega
    rw [List.forall_mem_cons, ← here, ← ih, ← forall_and]
    refine forall_congr' fun i => ?_
    rw [← imp_and]
    refine imp_congr_right fun _ => ?_
    exact Option.or_eq_none_iff

/-! ## The fragments of the sets -/

/-- What `handleIp` hands on: a datagram with its whole header. -/
structure Datagram where
  bytes : List Octet
  ihl : Nat
  ok : IsDatagram bytes ihl

/-- The sets together with the fragments each of them has taken, the newest first. -/
structure Ledger where
  sets : List FragSet := []
  log : FragKey → List Fragment := fun _ => []

namespace Ledger

inductive Event where
  | fragment (p : Datagram) (now : Int)
  | expire (clock : Clock)

/-- The fragments of the sets that are there. -/
def kept (sets : List FragSet) (log : FragKey → List Fragment) (key : FragKey) : List Fragment :=
  if key ∈ sets.map FragSet.key then log key else []

/-- A fragment that is not refused is noted for its set. -/
def noted (l : Ledger) (f : Fragment) : FragKey → List Fragment :=
  if kMaxReasmBytes < f.stop then l.log else Function.update l.log f.key (f :: l.log f.key)

def step (l : Ledger) : Event → Ledger
  | .fragment p now =>
    match parseFragment p.bytes with
    | some (some f) =>
      match gather l.sets f now with
      | some (sets, _) => ⟨sets, kept sets (l.noted f)⟩
      | none => l
    | _ => l
  | .expire clock => ⟨expire l.sets clock, kept (expire l.sets clock) l.log⟩

/-- A set stands for the fragments it has taken. -/
structure Stands (s : FragSet) (parts : List Fragment) : Prop where
  sound : s.Sound
  holds : Represents s.data s.marks (parts.map Fragment.piece)
  tail : s.totalLen = tailEnd parts

/-- Every set stands for its fragments, and no two for the same datagram. -/
structure Tracks (l : Ledger) : Prop where
  stands : ∀ s ∈ l.sets, Stands s (l.log s.key)
  keys : (l.sets.map FragSet.key).Nodup
  rest : ∀ key, key ∉ l.sets.map FragSet.key → l.log key = []

theorem stands_fresh (key : FragKey) (now : Int) : Stands { key := key, firstSeen := now } [] where
  sound := FragSet.sound_fresh key now
  holds := represents_nil
  tail := rfl

variable {f : Fragment} {s : FragSet} {sets : List FragSet} {l : Ledger}

theorem Stands.placed (stands : Stands s parts) (valid : f.Valid) :
    Stands (s.placed f) (f :: parts) where
  sound := stands.sound.placed valid
  holds := FragSet.represents_placed stands.holds f
  tail := by
    change (if f.more then s.totalLen else f.stop) = _
    rw [tailEnd, List.find?_cons]
    cases f.more with
    | false => rfl
    | true => exact stands.tail

theorem tracks_kept {log : FragKey → List Fragment}
    (stands : ∀ s ∈ sets, Stands s (log s.key)) (keys : (sets.map FragSet.key).Nodup) :
    Tracks ⟨sets, kept sets log⟩ where
  stands s inside := by
    change Stands s (if _ then _ else _)
    rw [if_pos (List.mem_map_of_mem inside)]
    exact stands s inside
  keys := keys
  rest _ absent := if_neg absent

theorem tracks_expire (tracks : Tracks l) (clock : Clock) : Tracks (l.step (.expire clock)) :=
  tracks_kept (fun s inside => tracks.stands s (List.mem_of_mem_filter inside))
    ((List.filter_sublist.map FragSet.key).nodup tracks.keys)

/-- A fragment that is not refused goes to a set that stands for the fragments of its
datagram so far, among sets for others. -/
theorem gather_eq_take (tracks : Tracks l) (f : Fragment) (now : Int)
    (small : ¬kMaxReasmBytes < f.stop) :
    gather l.sets f now = some (l.sets, none) ∧ f.key ∉ l.sets.map FragSet.key ∨
      ∃ front s back, gather l.sets f now = FragSet.take front s back f ∧ s.key = f.key ∧
        Stands s (l.log f.key) ∧ (∀ t ∈ front ++ back, t ∈ l.sets) ∧
        ((front ++ s :: back).map FragSet.key).Nodup := by
  rw [gather, if_neg small]
  cases found : splitLast (fun s => s.key = f.key) l.sets with
  | none =>
    have absent : f.key ∉ l.sets.map FragSet.key := by
      intro inside
      obtain ⟨s, member, same⟩ := List.mem_map.mp inside
      exact of_decide_eq_false (splitLast_none found s member) same
    split_ifs with full
    · exact .inl ⟨rfl, absent⟩
    · refine .inr ⟨l.sets, _, [], rfl, rfl, ?_, ?_, ?_⟩
      · rw [tracks.rest f.key absent]
        exact stands_fresh f.key now
      · intro t inside
        rwa [List.append_nil] at inside
      · rw [List.map_append, List.nodup_append]
        refine ⟨tracks.keys, List.nodup_singleton _, ?_⟩
        rintro key inside _ here rfl
        rw [List.mem_singleton.mp here] at inside
        exact absent inside
  | some parts =>
    obtain ⟨front, s, back⟩ := parts
    obtain ⟨split, same⟩ := splitLast_some found
    have key : s.key = f.key := of_decide_eq_true same
    refine .inr ⟨front, s, back, rfl, key, ?_, ?_, ?_⟩
    · rw [← key]
      refine tracks.stands s ?_
      rw [split]
      exact List.mem_append_right _ List.mem_cons_self
    · rw [split]
      exact (List.Sublist.append_left (List.sublist_cons_self s back) front).subset
    · rw [← split]
      exact tracks.keys

/-- The sets after a fragment stand for their fragments, whether one was given out or not. -/
theorem tracks_take (tracks : Tracks l) (valid : f.Valid)
    {front back : List FragSet} (key : s.key = f.key)
    (stands : Stands s (l.log f.key)) (others : ∀ t ∈ front ++ back, t ∈ l.sets)
    (keys : ((front ++ s :: back).map FragSet.key).Nodup)
    {whole : Option (List Octet)} (taken : FragSet.take front s back f = some (sets, whole)) :
    Tracks ⟨sets, kept sets (Function.update l.log f.key (f :: l.log f.key))⟩ := by
  have apart : ∀ t ∈ front ++ back, t.key ≠ f.key := by
    intro t inside same
    have moved : (front ++ s :: back).Perm (s :: (front ++ back)) := List.perm_middle
    have nodup := (moved.map FragSet.key).nodup_iff.mp keys
    rw [List.map_cons, List.nodup_cons, key, ← same] at nodup
    exact nodup.1 (List.mem_map_of_mem inside)
  have old : ∀ t ∈ front ++ back,
      Stands t (Function.update l.log f.key (f :: l.log f.key) t.key) := by
    intro t inside
    rw [Function.update_of_ne (apart t inside)]
    exact tracks.stands t (others t inside)
  rw [FragSet.take_eq stands.sound valid] at taken
  split_ifs at taken with complete
  · cases taken
    refine tracks_kept old ((List.Sublist.map FragSet.key ?_).nodup keys)
    exact List.Sublist.append_left (List.sublist_cons_self s back) front
  · cases taken
    obtain ⟨before, behind⟩ := List.forall_mem_append.mp old
    refine tracks_kept (List.forall_mem_append.mpr
      ⟨before, List.forall_mem_cons.mpr ⟨?_, behind⟩⟩) ?_
    · have here : (s.placed f).key = f.key := key
      rw [here, Function.update_self]
      exact stands.placed valid
    · rwa [List.map_append, List.map_cons] at keys ⊢

theorem tracks_step (tracks : Tracks l) (event : Event) : Tracks (l.step event) := by
  cases event with
  | expire clock => exact tracks_expire tracks clock
  | fragment p now =>
    obtain ⟨f, parsed, valid, -⟩ := parseFragment_inside p.ok
    obtain ⟨sets, whole, gathered, -⟩ :=
      gather_spec (fun s inside => (tracks.stands s inside).sound) valid now
    rw [step, parsed]
    dsimp only
    rw [gathered]
    by_cases large : kMaxReasmBytes < f.stop
    · rw [gather, if_pos large] at gathered
      cases gathered
      rw [noted, if_pos large]
      exact tracks_kept tracks.stands tracks.keys
    · rw [noted, if_neg large]
      rcases gather_eq_take tracks f now large with ⟨refused, absent⟩ |
        ⟨front, s, back, took, key, stands, others, keys⟩
      · cases refused.symm.trans gathered
        refine tracks_kept (fun s inside => ?_) tracks.keys
        rw [Function.update_of_ne]
        · exact tracks.stands s inside
        · intro same
          exact absent (same ▸ List.mem_map_of_mem inside)
      · exact tracks_take tracks valid key stands others keys (took.symm.trans gathered)

theorem tracks_empty : Tracks {} where
  stands _ inside := absurd inside List.not_mem_nil
  keys := List.nodup_nil
  rest _ _ := rfl

/-! ## What is given out -/

/-- A set that counts as complete is whole just if nothing was received behind its end. -/
theorem Stands.whole_iff (stands : Stands s parts) (complete : s.Complete) :
    (∀ i, i < tailEnd parts → ∃ b, received parts i = some b ∧
      (s.data.take s.totalLen)[i]? = some b) ↔ NoneBeyond parts := by
  have count : s.marks.count true = tailEnd parts := by
    rw [← stands.sound.count, complete.2.2, stands.tail]
  have size : tailEnd parts ≤ s.marks.length := by
    rw [← stands.tail, ← stands.sound.sizes]
    exact stands.sound.tail
  have full : (∀ i, i < tailEnd parts → (received parts i).isSome = true) ↔ NoneBeyond parts := by
    have counted := full_iff_none_behind count size
    simp only [stands.holds.marked] at counted
    refine counted.trans (Iff.trans ?_ received_none_iff)
    exact forall₂_congr fun i _ => Option.isSome_eq_false_iff.trans Option.isNone_iff_eq_none
  rw [← full]
  refine forall₂_congr fun i inside => ⟨fun ⟨b, here, _⟩ => by rw [here]; rfl, fun here => ?_⟩
  obtain ⟨b, here⟩ := Option.isSome_iff_exists.mp here
  refine ⟨b, here, ?_⟩
  rw [List.getElem?_take_of_lt (by rwa [stands.tail])]
  exact stands.holds.stored i b here

/-- What comes out of a set: its header and the octets before its end. -/
theorem gather_delivered (tracks : Tracks l) (valid : f.Valid) {now : Int} {out : List Octet}
    (delivered : gather l.sets f now = some (sets, some out)) :
    ∃ s, Stands s (f :: l.log f.key) ∧ s.Complete ∧ out = s.hdr ++ s.data.take s.totalLen := by
  have small : ¬kMaxReasmBytes < f.stop := by
    intro large
    rw [gather, if_pos large] at delivered
    cases delivered
  rcases gather_eq_take tracks f now small with ⟨refused, -⟩ |
    ⟨front, s, back, took, -, stands, -⟩
  · cases refused.symm.trans delivered
  rw [took, FragSet.take_eq stands.sound valid] at delivered
  split_ifs at delivered with complete
  · cases delivered
    exact ⟨s.placed f, stands.placed valid, complete, rfl⟩
  · cases delivered

/-- A datagram given out ends where its last fragment said, and it is made of the octets
received last, with none missing, just if no fragment of it reaches behind that end. -/
theorem reassembly_whole_iff (events : List Event) (p : Datagram) (now : Int)
    {sets : List FragSet} {out : List Octet}
    (delivered : reassemble (run step {} events).sets p.bytes now = some (sets, some out)) :
    ∃ f ihl, parseFragment p.bytes = some (some f) ∧ headerLength out = some ihl ∧
      out.length = ihl + tailEnd (f :: (run step {} events).log f.key) ∧
      ((∀ i, i < tailEnd (f :: (run step {} events).log f.key) →
        ∃ b, received (f :: (run step {} events).log f.key) i = some b ∧ out[ihl + i]? = some b) ↔
        NoneBeyond (f :: (run step {} events).log f.key)) := by
  have tracks := run_invariant (I := Tracks) (fun _ event tracks => tracks_step tracks event)
    tracks_empty events
  obtain ⟨f, parsed, valid, -⟩ := parseFragment_inside p.ok
  simp only [reassemble, parsed, Option.bind_eq_bind, Option.bind_some] at delivered
  obtain ⟨⟨sets', whole⟩, gathered, delivered⟩ := Option.bind_eq_some_iff.mp delivered
  cases whole with
  | none => cases delivered
  | some out' =>
    obtain ⟨out'', rebuilt, same⟩ := Option.bind_eq_some_iff.mp delivered
    cases same
    obtain ⟨s, stands, complete, rfl⟩ := gather_delivered tracks valid gathered
    have header := FragSet.isHeader_of_complete stands.sound complete
    have long := header.long
    have size := List.length_take_of_le stands.sound.tail
    obtain ⟨length, same⟩ := rebuild_spec (by rw [List.length_append]; omega) rebuilt
    refine ⟨f, s.hdr.length, parsed, (isDatagram_rebuild header rebuilt).own, ?_, ?_⟩
    · rw [length, List.length_append, size, stands.tail]
    · rw [← stands.whole_iff complete]
      refine forall₂_congr fun i _ => exists_congr fun b => and_congr_right fun _ => ?_
      rw [same _ (by omega), List.getElem?_append_right (Nat.le_add_right ..),
        Nat.add_sub_cancel_left]

namespace Sample

def header (frag : BitVec 16) : List Octet :=
  [0x45#8, 0#8, 0#8, 28#8, 0#8, 1#8] ++ octets16 frag ++ [64#8, 17#8, 0#8, 0#8] ++
    octets32 0xC0A89702#32 ++ octets32 0x0A000001#32

/-- Eight octets of a datagram. -/
def part (frag : BitVec 16) : Datagram where
  bytes := header frag ++ List.replicate 8 0xFF#8
  ihl := 20
  ok := ⟨rfl, le_rfl, Nat.le_add_right 20 8⟩

/-- The same taken apart. -/
def fragment (frag : BitVec 16) (off : Nat) (more : Bool) : Fragment :=
  ⟨⟨0xC0A89702#32, 0x0A000001#32, 1#16, 17#8⟩, off, more, header frag, List.replicate 8 0xFF#8⟩

/-- The first part, and one behind the end the last part is going to name. -/
def gapped : List Event := [.fragment (part 0x2000#16) 0, .fragment (part 0x2003#16) 0]

end Sample

theorem exists_delivered {p : List Octet} {now : Int}
    (whole : ((reassemble sets p now).bind Prod.snd).isSome = true) :
    ∃ sets' out, reassemble sets p now = some (sets', some out) := by
  obtain ⟨out, given⟩ := Option.isSome_iff_exists.mp whole
  obtain ⟨⟨sets', _⟩, result, rfl⟩ := Option.bind_eq_some_iff.mp given
  exact ⟨sets', out, result⟩

theorem reassembly_whole_iff_two :
    ∃ sets out ihl, reassemble (run step {} [.fragment (Sample.part 0x2000#16) 0]).sets
        (Sample.part 0x0001#16).bytes 0 = some (sets, some out) ∧
      headerLength out = some ihl ∧ ∀ i, i < 16 → ∃ b, out[ihl + i]? = some b := by
  obtain ⟨sets, out, delivered⟩ :
      ∃ sets out, reassemble (run step {} [.fragment (Sample.part 0x2000#16) 0]).sets
        (Sample.part 0x0001#16).bytes 0 = some (sets, some out) :=
    exists_delivered (by decide +kernel)
  obtain ⟨f, ihl, parsed, own, -, whole⟩ := reassembly_whole_iff _ _ _ delivered
  have last : parseFragment (Sample.part 0x0001#16).bytes =
      some (some (Sample.fragment 0x0001#16 8 false)) := by
    decide +kernel
  cases parsed.symm.trans last
  refine ⟨sets, out, ihl, delivered, own, fun i inside => ?_⟩
  obtain ⟨b, -, here⟩ := whole.mpr (by decide +kernel) i inside
  exact ⟨b, here⟩

/-- A datagram is given out with a hole of eight octets in it. -/
theorem reassembly_hole :
    ¬∀ (events : List Event) (p : Datagram) (now : Int) (f : Fragment) (sets : List FragSet)
      (out : List Octet), parseFragment p.bytes = some (some f) →
        reassemble (run step {} events).sets p.bytes now = some (sets, some out) →
          ∀ i, i < tailEnd (f :: (run step {} events).log f.key) →
            (received (f :: (run step {} events).log f.key) i).isSome := by
  intro whole
  obtain ⟨sets, out, delivered⟩ :
      ∃ sets out, reassemble (run step {} Sample.gapped).sets (Sample.part 0x0002#16).bytes 0 =
        some (sets, some out) :=
    exists_delivered (by decide +kernel)
  have last : parseFragment (Sample.part 0x0002#16).bytes =
      some (some (Sample.fragment 0x0002#16 16 false)) := by
    decide +kernel
  have hole := whole _ _ _ _ _ _ last delivered 8 (by decide +kernel)
  have none : (received (Sample.fragment 0x0002#16 16 false ::
      (run step {} Sample.gapped).log (Sample.fragment 0x0002#16 16 false).key) 8).isSome =
        false := by
    decide +kernel
  cases none.symm.trans hole

end Ledger

end Pom68k.MacIp
