import Pom68k.Jit.Links

/-! # Servicing the write guard

A store is filtered twice: against the sub-slice masks when it is reported, and
against the bytes of each block when the guard is serviced. Between the two the
guard only keeps the union of the ranges per slice. What is left after service
is exactly what the stores allow: a block with a stored byte is gone, and a
block outside every recorded range stays.
-/

namespace Pom68k.Jit

section

variable {ram : Ram} {g : CodeGuard} {phys n : Addr} {events : List GuardEvent}

/-- What the memory map reports to the guard. -/
inductive GuardEvent where
  | note (phys n : Addr)
  | invalidate
deriving Repr, DecidableEq

namespace CodeGuard

def observe (pages : Nat) (pageMap : Nat → BitVec 8) (g : CodeGuard) : GuardEvent → CodeGuard
  | .note phys n => g.note pages pageMap phys n
  | .invalidate => g.invalidate

/-- Every hit lies in a slice of RAM and has a range that is not empty. -/
def Proper (pages : Nat) (g : CodeGuard) : Prop :=
  ∀ h ∈ g.hits, h.slice < pages ∧ h.lo ≤ h.hi

theorem widenHit_proper {pages slice : Nat} {lo hi : Addr} {hits widened : List Hit}
    (proper : ∀ h ∈ hits, h.slice < pages ∧ h.lo ≤ h.hi) (ordered : lo ≤ hi)
    (found : widenHit slice lo hi hits = some widened) :
    ∀ h ∈ widened, h.slice < pages ∧ h.lo ≤ h.hi := by
  induction hits generalizing widened with
  | nil => cases found
  | cons first rest ih =>
    obtain ⟨here, later⟩ := List.forall_mem_cons.mp proper
    unfold widenHit at found
    split at found
    · cases found
      refine List.forall_mem_cons.mpr ⟨⟨here.1, ?_⟩, later⟩
      split <;> split <;> bv_omega
    · obtain ⟨tail, inner, rfl⟩ := Option.map_eq_some_iff.mp found
      exact List.forall_mem_cons.mpr ⟨here, ih later inner⟩

theorem Proper.record {pages slice : Nat} {lo hi : Addr} (proper : g.Proper pages)
    (inRam : slice < pages) (ordered : lo ≤ hi) : (g.record slice lo hi).Proper pages := by
  unfold CodeGuard.record
  split
  · rename_i widened found
    exact widenHit_proper proper ordered found
  · split
    · exact proper
    · exact List.forall_mem_append.mpr ⟨proper, List.forall_mem_singleton.mpr ⟨inRam, ordered⟩⟩

theorem Proper.note {pages : Nat} (proper : g.Proper pages) (pageMap : Nat → BitVec 8)
    (ordered : phys ≤ phys + n - 1) : (g.note pages pageMap phys n).Proper pages := by
  have first : (g.noteFirst pages pageMap phys n).Proper pages := by
    unfold noteFirst
    dsimp only
    split
    · rename_i inside
      split <;> split
      all_goals first | exact proper.record inside.1 ordered | exact proper
    · exact proper
  unfold CodeGuard.note noteLast
  dsimp only
  split
  · rename_i inside
    exact first.record inside.2.1 ordered
  · exact first

/-- Whatever is reported, the guard forgets nothing. -/
theorem grows_observeAll (g : CodeGuard) (pages : Nat) (pageMap : Nat → BitVec 8)
    (events : List GuardEvent) : g.Grows (events.foldl (observe pages pageMap) g) := by
  induction events generalizing g with
  | nil => exact .refl g
  | cons event rest ih =>
    refine Grows.trans ?_ (ih _)
    cases event with
    | note phys n => exact grows_note g pages pageMap phys n
    | invalidate => exact grows_invalidate g

end CodeGuard

/-- The stores among the reported events are at most a slice long and inside RAM. -/
def GuardEvent.Stores (ram : Ram) : GuardEvent → Prop
  | .note phys n => 1 ≤ n.toNat ∧ n.toNat ≤ 256 ∧ phys.toNat + n.toNat ≤ ram.bytes
  | .invalidate => True

namespace CodeGuard

theorem Proper.observeAll (proper : g.Proper ram.slices) (pageMap : Nat → BitVec 8)
    (stores : ∀ event ∈ events, event.Stores ram) :
    (events.foldl (CodeGuard.observe ram.slices pageMap) g).Proper ram.slices := by
  induction events generalizing g with
  | nil => exact proper
  | cons event rest ih =>
    refine ih ?_ (List.forall_mem_cons.mp stores).2
    cases event with
    | note phys n =>
      obtain ⟨some, _, room⟩ := stores _ List.mem_cons_self
      have small := ram.small
      exact proper.note pageMap (by bv_omega)
    | invalidate => exact proper

end CodeGuard

namespace Engine

theorem evictBlock_blocks (e : Engine ram) (k : Key) (b : Block ram) :
    (e.evictBlock k b).blocks = AList.erase k e.blocks := by
  obtain ⟨links, evicted⟩ := e.evictBlock_eq k b
  rw [evicted]
  rfl

/-- An eviction loop over any list of keys drops the chosen blocks under those keys
and no other. -/
theorem lookup_foldl_evictIf (chosen : Block ram → Bool) (keys : List Key) (e : Engine ram)
    (k : Key) (b : Block ram) :
    AList.lookup k (keys.foldl (evictIf fun _ b => chosen b) e).blocks = some b ↔
      AList.lookup k e.blocks = some b ∧ ¬ (k ∈ keys ∧ chosen b = true) := by
  induction keys generalizing e with
  | nil => simp
  | cons first rest ih =>
    have step : AList.lookup k (evictIf (fun _ b => chosen b) e first).blocks = some b ↔
        AList.lookup k e.blocks = some b ∧ ¬ (k = first ∧ chosen b = true) := by
      unfold evictIf
      split
      · rename_i absent
        refine ⟨fun live => ⟨live, fun both => ?_⟩, And.left⟩
        rw [both.1, absent] at live
        cases live
      · rename_i found present
        split
        · rename_i hit
          rw [evictBlock_blocks, Blocks.live_erase]
          refine ⟨fun ⟨other, live⟩ => ⟨live, fun both => other both.1⟩, fun ⟨live, kept⟩ => ?_⟩
          refine ⟨?_, live⟩
          rintro rfl
          cases present.symm.trans live
          exact kept ⟨rfl, hit⟩
        · rename_i kept
          refine ⟨fun live => ⟨live, ?_⟩, And.left⟩
          rintro ⟨rfl, hit⟩
          cases present.symm.trans live
          exact kept hit
    rw [List.foldl_cons, ih, List.mem_cons]
    tauto

/-- The blocks left after the hits are those whose bytes no hit of their slices
overlaps. -/
theorem lookup_serviceHits (cfg : Config) (hits : List Hit) (e : Engine ram)
    (indexed : e.footprint.Indexed ram e.blocks) (inRam : ∀ h ∈ hits, h.slice < ram.slices)
    (k : Key) (b : Block ram) :
    AList.lookup k (hits.foldl serviceHit e).blocks = some b ↔
      AList.lookup k e.blocks = some b ∧
        ∀ h ∈ hits, ¬ (b.ir.Meets h.slice ∧ overlaps h b.ir = true) := by
  induction hits generalizing e with
  | nil => simp
  | cons h rest ih =>
    have after : (e.serviceHit h).footprint.Indexed ram (e.serviceHit h).blocks :=
      micros_induct (P := fun e => e.footprint.Indexed ram e.blocks)
        (show Micros cfg none e (e.serviceHit h) from (micros_foldl _ (micros_evictIf _) _ e))
          indexed
        fun _ _ change good => good.micro change
    rw [List.foldl_cons, ih _ after fun h' member => inRam h' (List.mem_cons_of_mem _ member)]
    unfold serviceHit
    rw [lookup_foldl_evictIf, List.forall_mem_cons, and_assoc]
    refine and_congr_right fun live => and_congr_left' (not_congr (and_congr_left' ?_))
    rw [indexed.mem h.slice (inRam h List.mem_cons_self)]
    constructor
    · rintro ⟨b', live', meets⟩
      rw [live] at live'
      cases live'
      exact meets
    · exact fun meets => ⟨b, live, meets⟩

/-- The test of `serviceGuard` on a footprint that fits: some byte lies in both the
block and the range. -/
theorem overlaps_iff {h : Hit} {ir : BlockIr} (room : ir.spanLo.toNat + ir.spanLen.toNat ≤ 2 ^ 32)
    (ordered : h.lo ≤ h.hi) :
    overlaps h ir = true ↔ ∃ byte, ir.Holds byte ∧ h.lo.toNat ≤ byte ∧ byte ≤ h.hi.toNat := by
  unfold overlaps BlockIr.Holds
  simp only [Bool.not_eq_true', decide_eq_false_iff_not, not_or, gt_iff_lt]
  rw [BitVec.le_def] at ordered
  constructor
  · rintro ⟨nonempty, above, below⟩
    rw [BitVec.lt_def] at above
    rw [BitVec.lt_def, spanEnd room nonempty] at below
    have positive : 0 < ir.spanLen.toNat := by bv_omega
    exact ⟨max ir.spanLo.toNat h.lo.toNat, ⟨by omega, by omega⟩, by omega, by omega⟩
  · rintro ⟨byte, ⟨above, below⟩, first, last⟩
    have nonempty := BlockIr.Holds.nonempty ⟨above, below⟩
    refine ⟨nonempty, ?_, ?_⟩
    · rw [BitVec.lt_def]
      omega
    · rw [BitVec.lt_def, spanEnd room nonempty]
      omega

/-- The engine once the memory map has reported a sequence of events to a clear
guard. -/
def observed (e : Engine ram) (events : List GuardEvent) : Engine ram :=
  { e with guard := events.foldl (CodeGuard.observe ram.slices e.footprint.pageMap) {} }

/-- The blocks left after the guard is serviced: none if it had to flush, and
otherwise those whose bytes no recorded range overlaps. -/
theorem lookup_serviceGuard (cfg : Config) {e : Engine ram}
    (indexed : e.footprint.Indexed ram e.blocks) (awake : e.enabled = true)
    (idle : e.running = false) (proper : e.guard.Proper ram.slices)
    (tripped : e.guard.tripped = true) (k : Key) (b : Block ram) :
    AList.lookup k e.serviceGuard.blocks = some b ↔
      e.guard.mustFlush = false ∧ AList.lookup k e.blocks = some b ∧
        ∀ h ∈ e.guard.hits, ¬ (b.ir.Meets h.slice ∧ overlaps h b.ir = true) := by
  have dropped : e.flushAll = e.dropAll := by
    unfold flushAll
    rw [idle, awake]
    rfl
  unfold serviceGuard
  rw [tripped]
  cases must : e.guard.mustFlush with
  | true =>
    simp only [dropped]
    simp [dropAll]
  | false =>
    by_cases empty : AList.keys e.blocks = []
    · have none : AList.lookup k e.blocks = none := by
        rw [AList.lookup_eq_none, AList.mem_keys, empty]
        exact List.not_mem_nil
      simp [empty, dropped, dropAll, none]
    · simp only [empty, true_and]
      exact lookup_serviceHits cfg e.guard.hits e indexed (fun h member => (proper h member).1) k b

end Engine

/-- The guard will evict a block with this footprint when it is serviced. -/
def CodeGuard.Dooms (g : CodeGuard) (ir : BlockIr) : Prop :=
  g.tripped = true ∧ (g.mustFlush = true ∨
    ∃ h ∈ g.hits, ir.Meets h.slice ∧ Engine.overlaps h ir = true)

theorem CodeGuard.Dooms.mono {g g' : CodeGuard} {ir : BlockIr} (dooms : g.Dooms ir)
    (grows : g.Grows g') : g'.Dooms ir := by
  obtain ⟨tripped, flush | ⟨h, member, meets, hit⟩⟩ := dooms
  · exact ⟨grows.tripped tripped, Or.inl (grows.mustFlush flush)⟩
  obtain ⟨h', member', slices, lowered, raised⟩ := grows.hits h member
  refine ⟨grows.tripped tripped, Or.inr ⟨h', member', slices ▸ meets, ?_⟩⟩
  simp only [Engine.overlaps, Bool.not_eq_true', decide_eq_false_iff_not, not_or] at hit ⊢
  refine ⟨hit.1, fun above => hit.2.1 ?_, fun below => hit.2.2 ?_⟩
  · exact Nat.lt_of_le_of_lt raised above
  · exact Nat.lt_of_lt_of_le below lowered

section

variable {f : Footprint} {blocks : Blocks ram} (indexed : f.Indexed ram blocks)
include indexed

/-- A store into a live block dooms it. -/
theorem Footprint.Indexed.noted (g : CodeGuard) (positive : 1 ≤ n.toNat) (width : n.toNat ≤ 256)
    (room : phys.toNat + n.toNat ≤ ram.bytes) {byte : Nat} (above : phys.toNat ≤ byte)
    (below : byte < phys.toNat + n.toNat) {k : Key} {b : Block ram}
    (live : AList.lookup k blocks = some b) (holds : b.ir.Holds byte) :
    (g.note ram.slices f.pageMap phys n).Dooms b.ir := by
  have small := ram.small
  have size := ram.bytes_eq_slices
  have value : (BitVec.ofNat 32 byte).toNat = byte := by
    rw [BitVec.toNat_ofNat]
    omega
  have slice : sliceOf (BitVec.ofNat 32 byte) = byte / 256 := by rw [sliceOf_eq, value]
  have meets : b.ir.Meets (byte / 256) := ⟨byte, holds, rfl⟩
  have inSlices : sliceOf (BitVec.ofNat 32 byte) < ram.slices := by omega
  have marked : (f.pageMap (sliceOf (BitVec.ofNat 32 byte))).getLsbD
      (CodeGuard.subSlice (BitVec.ofNat 32 byte)) = true := by
    rw [indexed.marks.slice _ inSlices, Foundation.getLsbD_orAll]
    refine ⟨_, List.mem_map_of_mem ((indexed.mem _ inSlices k).mpr ⟨b, live, ?_⟩),
      getLsbD_contribution live (by omega) (by rw [value]; exact holds)⟩
    rwa [slice]
  have recorded := CodeGuard.note_recorded g (by exact width)
    (show phys.toNat + n.toNat ≤ 2 ^ 32 by omega) (by rwa [BitVec.le_def, value])
    (by rwa [value]) inSlices marked
  obtain ⟨tripped, flush | ⟨h, member, same, low, high⟩⟩ := recorded
  · exact ⟨tripped, Or.inl flush⟩
  have last : (phys + n - 1).toNat = phys.toNat + n.toNat - 1 := by bv_omega
  rw [BitVec.le_def] at low high
  refine ⟨tripped, Or.inr ⟨h, member, ?_, ?_⟩⟩
  · rwa [same, slice]
  · rw [Engine.overlaps_iff (b.fits.room (by have := holds.1; omega))
      (by rw [BitVec.le_def]; omega)]
    exact ⟨byte, holds, by omega, by omega⟩

/-- A live block that holds a byte of one of the reported stores is doomed once all
the events are in. -/
theorem Footprint.Indexed.doomed (g : CodeGuard) (stores : ∀ event ∈ events, event.Stores ram)
    (noted : GuardEvent.note phys n ∈ events) {byte : Nat} (above : phys.toNat ≤ byte)
    (below : byte < phys.toNat + n.toNat) {k : Key} {b : Block ram}
    (live : AList.lookup k blocks = some b) (holds : b.ir.Holds byte) :
    (events.foldl (CodeGuard.observe ram.slices f.pageMap) g).Dooms b.ir := by
  induction events generalizing g with
  | nil => cases noted
  | cons event rest ih =>
    cases noted with
    | head =>
      obtain ⟨positive, width, room⟩ := stores _ List.mem_cons_self
      exact (indexed.noted g positive width room above below live holds).mono
        (CodeGuard.grows_observeAll _ _ _ rest)
    | tail _ later =>
      exact ih _ (List.forall_mem_cons.mp stores).2 later

end

/-- Servicing the guard is complete and exact. Take a cache with a good index, good
dispatch pointers and good links, and any sequence of stores into RAM and of map
changes reported to a clear guard. Afterwards no live block holds a stored byte;
every dispatch slot, link slot and link cell leads to a block that is still live;
and unless the guard had to flush, a block that no recorded range touches is still
live and filed where it was. -/
theorem serviceGuard_complete_exact {e : Engine ram}
    (indexed : e.footprint.Indexed ram e.blocks) (pointed : e.Pointed) (linked : e.Linked)
    (awake : e.enabled = true) (idle : e.running = false) {events : List GuardEvent}
    (stores : ∀ event ∈ events, event.Stores ram) :
    let after := (e.observed events).serviceGuard
    (∀ phys n, GuardEvent.note phys n ∈ events → ∀ byte, phys.toNat ≤ byte →
      byte < phys.toNat + n.toNat → ∀ k b, AList.lookup k after.blocks = some b →
        ¬ b.ir.Holds byte) ∧
    (∀ i ptr, (after.dispatchCache.entries i).block = some ptr →
      ∃ b, after.blocks.deref ptr = some b) ∧
    (∀ i entry, (after.links.slots i).entry = some entry → ∃ site : Site,
      (after.links.slots i).tag = linkTag site.pc site.super ∧
        LinkTarget after.blocks after.blocksGen site entry) ∧
    (∀ k cell entry, after.links.cells k = some cell → cell.entry = some entry →
      ∃ site : Site, k = site.key ∧ LinkTarget after.blocks after.blocksGen site entry) ∧
    ((e.observed events).guard.mustFlush = false →
      ∀ k b, AList.lookup k e.blocks = some b →
        (∀ h ∈ (e.observed events).guard.hits, ∀ byte, h.lo.toNat ≤ byte →
          byte ≤ h.hi.toNat → ¬ b.ir.Holds byte) →
        AList.lookup k after.blocks = some b ∧
          ∀ p, p < ram.slices →
            (k ∈ after.footprint.sliceIndex p ↔ k ∈ e.footprint.sliceIndex p)) := by
  have cfg : Config := ⟨false, false, 0, 0, 0, 0, false⟩
  have proper : (e.observed events).guard.Proper ram.slices :=
    CodeGuard.Proper.observeAll (fun _ none => by cases none) e.footprint.pageMap stores
  have changes : Micros cfg none (e.observed events) (e.observed events).serviceGuard :=
    Engine.micros_serviceGuard _
  have indexed' := Engine.micros_induct
    (P := fun e => e.footprint.Indexed ram e.blocks) changes indexed
    fun _ _ change good => good.micro change
  have pointed' : (e.observed events).serviceGuard.Pointed :=
    Engine.micros_induct changes pointed fun _ _ change good => good.micro change
  have linked' : (e.observed events).serviceGuard.Linked :=
    Engine.micros_induct changes ⟨linked.keyed, linked.links⟩
      fun _ _ change good => Engine.Linked.micro good change
  have left := fun tripped => Engine.lookup_serviceGuard cfg (e := e.observed events) indexed
    awake idle proper tripped
  refine ⟨fun phys n noted byte above below k b live holds => ?_, fun i ptr held => ?_,
    fun i entry held => ?_, fun k cell entry present held => ?_, fun kept k b live apart => ?_⟩
  · -- A survivor was live before, so the store would have been recorded against it.
    by_cases tripped : (e.observed events).guard.tripped = true
    · obtain ⟨kept, before, spared⟩ := (left tripped k b).mp live
      obtain ⟨_, flush | ⟨h, member, hit⟩⟩ :=
        indexed.doomed {} stores noted above below before holds
      · cases kept.symm.trans flush
      · exact spared h member hit
    · have quiet : (e.observed events).serviceGuard = e.observed events := by
        unfold Engine.serviceGuard
        rw [Bool.eq_false_iff.mpr tripped]
        rfl
      rw [quiet] at live
      exact tripped (indexed.doomed {} stores noted above below live holds).1
  · obtain ⟨_, _, keyed, b, live, node⟩ := pointed'.filled i ptr held
    exact ⟨b, Blocks.deref_eq_some.mpr ⟨keyed ▸ live, node⟩⟩
  · obtain ⟨site, tagged, _, target⟩ := linked'.links.slot i entry held
    exact ⟨site, tagged, target⟩
  · exact linked'.links.cell k cell entry present held
  · have survives : AList.lookup k (e.observed events).serviceGuard.blocks = some b := by
      by_cases tripped : (e.observed events).guard.tripped = true
      · refine (left tripped k b).mpr ⟨kept, live, fun h member hit => ?_⟩
        obtain ⟨byte, ⟨above, below⟩, here⟩ := hit.1
        have size := ram.bytes_eq_slices
        have inRam := (proper h member).1
        obtain ⟨both, holds, low, high⟩ :=
          (Engine.overlaps_iff (b.fits.room (by omega)) (proper h member).2).mp hit.2
        exact apart h member both low high holds
      · unfold Engine.serviceGuard
        rwa [Bool.eq_false_iff.mpr tripped]
    refine ⟨survives, fun p inRam => ?_⟩
    rw [indexed'.mem p inRam, indexed.mem p inRam, survives, live]

end

/-- A store into the second instruction of the recorded block, and one beside it. -/
def Sample.stores : List GuardEvent := [.note 0x100 2, .note 0x140 4]

theorem serviceGuard_recorded :
    (∃ b, AList.lookup Sample.site.key Sample.recorded.blocks = some b ∧ b.ir.Holds 0x101) ∧
    ∀ k b, AList.lookup k (Sample.recorded.observed Sample.stores).serviceGuard.blocks = some b →
      ¬ b.ir.Holds 0x101 := by
  have stores : ∀ event ∈ Sample.stores, event.Stores Sample.machine := by
    intro event member
    simp only [Sample.stores, List.mem_cons, List.not_mem_nil, or_false] at member
    rcases member with rfl | rfl
    · exact ⟨by decide, by decide, by decide⟩
    · exact ⟨by decide, by decide, by decide⟩
  have exact_ := serviceGuard_complete_exact Sample.reaches_recorded.indexed
    Sample.reaches_recorded.pointed Sample.reaches_recorded.linked rfl rfl stores
  exact ⟨⟨_, rfl, by decide⟩, exact_.1 0x100 2 (by decide) 0x101 (by decide) (by decide)⟩

end Pom68k.Jit
