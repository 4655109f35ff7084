import Pom68k.Foundation.Masks

/-! # The write guard

A memory map reports every store to physical memory through `note`. The guard
compares the store with one mask byte per 256-byte slice of RAM, in which a bit
stands for a 32-byte sub-slice some translated block has bytes in, and keeps
the union of the ranges written into each slice it was tripped in. Past eight
distinct slices, or once the address map itself has moved, only a flush of the
whole cache is left.
-/

namespace Pom68k.Jit

open Foundation

/-- Logical and physical addresses of the guest. -/
abbrev Addr := BitVec 32

/-- The memory of a machine that stores can reach. The RAM is a whole number of
4 KB pages and does not fill the 32-bit physical address space; `device` holds
of the other pages with plain writable bytes, such as video memory. -/
structure Ram where
  bytes : Nat
  aligned : 4096 ∣ bytes
  small : bytes < 2 ^ 32
  device : Nat → Bool

namespace CodeGuard

/-- `CodeGuard::kShift`: a slice is 256 bytes. -/
def kShift : Nat := 8

/-- `CodeGuard::kUnit`. -/
def kUnit : Addr := 256

/-- `CodeGuard::kSubShift`: a sub-slice is 32 bytes. -/
def kSubShift : Nat := 5

/-- `CodeGuard::kMaxHits`. -/
def kMaxHits : Nat := 8

end CodeGuard

/-- The slice an address lies in, `a >> kShift`. -/
def sliceOf (a : Addr) : Nat := (a >>> CodeGuard.kShift).toNat

/-- The first byte of a slice, `slice << kShift`. -/
def sliceLo (slice : Nat) : Addr := BitVec.ofNat 32 slice <<< CodeGuard.kShift

/-- The last byte of a slice. -/
def sliceHi (slice : Nat) : Addr := sliceLo slice + CodeGuard.kUnit - 1

/-- One byte of `pageMap_` per slice of RAM. -/
def Ram.slices (ram : Ram) : Nat := (ram.bytes + 255) / 256

/-- One byte of `codePage_` per 4 KB page of RAM. -/
def Ram.pages (ram : Ram) : Nat := (ram.bytes + 4095) / 4096

theorem Ram.bytes_eq_slices (ram : Ram) : ram.bytes = ram.slices * 256 := by
  have aligned := ram.aligned
  unfold Ram.slices
  omega

theorem Ram.slices_eq_pages (ram : Ram) : ram.slices = ram.pages * 16 := by
  have aligned := ram.aligned
  unfold Ram.slices Ram.pages
  omega

theorem Ram.slices_lt (ram : Ram) : ram.slices < 2 ^ 24 := by
  have small := ram.small
  have size := ram.bytes_eq_slices
  omega

theorem sliceOf_eq (a : Addr) : sliceOf a = a.toNat / 256 := by
  unfold sliceOf CodeGuard.kShift
  rw [BitVec.toNat_ushiftRight, Nat.shiftRight_eq_div_pow]

theorem sliceOf_lt (a : Addr) : sliceOf a < 2 ^ 24 := by
  rw [sliceOf_eq]
  omega

variable {slice : Nat}

theorem toNat_sliceLo (inSpace : slice < 2 ^ 24) : (sliceLo slice).toNat = slice * 256 := by
  unfold sliceLo CodeGuard.kShift
  rw [BitVec.toNat_shiftLeft, BitVec.toNat_ofNat]
  omega

theorem toNat_sliceHi (inSpace : slice < 2 ^ 24) : (sliceHi slice).toNat = slice * 256 + 255 := by
  have low := toNat_sliceLo inSpace
  unfold sliceHi CodeGuard.kUnit
  bv_omega

namespace CodeGuard

/-- `CodeGuard::subMask`: the sub-slices covered by the bytes from `lo` to `hi`
of one slice. -/
def subMask (lo hi : Addr) : BitVec 8 :=
  let a := ((lo &&& (kUnit - 1)) >>> kSubShift).toNat
  let b := ((hi &&& (kUnit - 1)) >>> kSubShift).toNat
  ((0xFF#32 >>> (7 - b)) &&& (0xFF#32 <<< a)).setWidth 8

/-- The sub-slice of a byte within its slice. -/
def subSlice (a : Addr) : Nat := a.toNat % 256 / 32

theorem subSlice_lt (a : Addr) : subSlice a < 8 := by
  unfold subSlice
  omega

theorem toNat_subSlice (a : Addr) : ((a &&& (kUnit - 1)) >>> kSubShift).toNat = subSlice a := by
  unfold subSlice kSubShift
  rw [BitVec.toNat_ushiftRight, BitVec.toNat_and, Nat.shiftRight_eq_div_pow]
  have low : (kUnit - 1).toNat = 2 ^ 8 - 1 := by decide
  rw [low, Nat.and_two_pow_sub_one_eq_mod]

private theorem shifted_bits : ∀ a b i : Fin 8,
    (((0xFF#32 >>> (7 - b.val)) &&& (0xFF#32 <<< a.val)).setWidth 8).getLsbD i =
      decide (a ≤ i ∧ i ≤ b) := by
  decide

/-- A bit of the mask is set exactly when its sub-slice lies between those of
the two ends. -/
theorem getLsbD_subMask (lo hi : Addr) (i : Nat) :
    (subMask lo hi).getLsbD i = true ↔ subSlice lo ≤ i ∧ i ≤ subSlice hi := by
  unfold subMask
  simp only [toNat_subSlice]
  by_cases bit : i < 8
  · have value := shifted_bits ⟨subSlice lo, subSlice_lt lo⟩ ⟨subSlice hi, subSlice_lt hi⟩ ⟨i, bit⟩
    rw [value, decide_eq_true_eq]
    exact Iff.rfl
  · have high := subSlice_lt hi
    rw [BitVec.getLsbD_of_ge _ _ (by omega)]
    constructor
    · intro impossible
      cases impossible
    · omega

/-- The mask of a range that lies in one slice holds every byte of the range. -/
theorem getLsbD_subMask_of_between {lo hi byte : Addr} (sameLo : sliceOf lo = sliceOf byte)
    (sameHi : sliceOf hi = sliceOf byte) (above : lo ≤ byte) (below : byte ≤ hi) :
    (subMask lo hi).getLsbD (subSlice byte) = true := by
  rw [getLsbD_subMask]
  rw [sliceOf_eq] at sameLo sameHi
  rw [BitVec.le_def] at above below
  unfold subSlice
  omega

end CodeGuard

/-- `CodeGuard::Hit`: a slice that was written, with the union of the byte
ranges written into it since the last clear. -/
structure Hit where
  slice : Nat
  lo : Addr
  hi : Addr
deriving Repr, DecidableEq

/-- The part of `CodeGuard` that stores change. The mask bytes it reads belong
to the engine and are passed to `note`. -/
structure CodeGuard where
  hits : List Hit := []
  hitOverflow : Bool := false
  hit : Bool := false
  mapChanged : Bool := false
deriving Repr, DecidableEq

namespace CodeGuard

/-- The search loop of `CodeGuard::record`: the first hit of the slice is
widened to cover the new range. -/
def widenHit (slice : Nat) (lo hi : Addr) : List Hit → Option (List Hit)
  | [] => none
  | h :: rest =>
    if h.slice = slice then
      some ({ h with lo := if lo < h.lo then lo else h.lo,
                     hi := if hi > h.hi then hi else h.hi } :: rest)
    else (widenHit slice lo hi rest).map (h :: ·)

/-- `CodeGuard::record`. -/
def record (g : CodeGuard) (slice : Nat) (lo hi : Addr) : CodeGuard :=
  match widenHit slice lo hi g.hits with
  | some hits => { g with hit := true, hits := hits }
  | none =>
    if kMaxHits ≤ g.hits.length then { g with hit := true, hitOverflow := true }
    else { g with hit := true, hits := g.hits ++ [⟨slice, lo, hi⟩] }

/-- The first half of `CodeGuard::note`: the slice of the first byte written. -/
def noteFirst (g : CodeGuard) (pages : Nat) (pageMap : Nat → BitVec 8) (phys n : Addr) :
    CodeGuard :=
  let p0 := sliceOf phys
  let p1 := sliceOf (phys + n - 1)
  let hi := phys + n - 1
  if p0 < pages ∧ pageMap p0 ≠ 0#8 then
    let h0 := if p1 = p0 then hi else sliceHi p0
    if pageMap p0 &&& subMask phys h0 ≠ 0#8 then g.record p0 phys hi else g
  else g

/-- The second half of `CodeGuard::note`: the slice of the last byte written,
when the store straddles two slices. -/
def noteLast (g : CodeGuard) (pages : Nat) (pageMap : Nat → BitVec 8) (phys n : Addr) :
    CodeGuard :=
  let p0 := sliceOf phys
  let p1 := sliceOf (phys + n - 1)
  let hi := phys + n - 1
  if p1 ≠ p0 ∧ p1 < pages ∧ pageMap p1 ≠ 0#8 ∧
      pageMap p1 &&& subMask (sliceLo p1) hi ≠ 0#8 then
    g.record p1 phys hi
  else g

/-- `CodeGuard::note`. -/
def note (g : CodeGuard) (pages : Nat) (pageMap : Nat → BitVec 8) (phys n : Addr) : CodeGuard :=
  (g.noteFirst pages pageMap phys n).noteLast pages pageMap phys n

/-- `CodeGuard::invalidate`. -/
def invalidate (g : CodeGuard) : CodeGuard := { g with mapChanged := true }

/-- `CodeGuard::tripped`. -/
def tripped (g : CodeGuard) : Bool := g.hit || g.mapChanged

/-- `CodeGuard::mustFlush`. -/
def mustFlush (g : CodeGuard) : Bool := g.mapChanged || g.hitOverflow

/-- `CodeGuard::clear`. -/
def clear (_ : CodeGuard) : CodeGuard := {}

/-- A store range is accounted for in a slice: a hit of the slice covers it, or
the guard has fallen back to a flush. -/
def Recorded (g : CodeGuard) (slice : Nat) (lo hi : Addr) : Prop :=
  g.tripped = true ∧ (g.mustFlush = true ∨ ∃ h ∈ g.hits, h.slice = slice ∧ h.lo ≤ lo ∧ hi ≤ h.hi)

/-- Widening keeps every hit's slice in place and only grows its range; the hit
of the given slice covers the given range afterwards. -/
theorem widenHit_some {lo hi : Addr} {hits widened : List Hit}
    (found : widenHit slice lo hi hits = some widened) :
    (∃ h ∈ widened, h.slice = slice ∧ h.lo ≤ lo ∧ hi ≤ h.hi) ∧
      ∀ h ∈ hits, ∃ h' ∈ widened, h'.slice = h.slice ∧ h'.lo ≤ h.lo ∧ h.hi ≤ h'.hi := by
  induction hits generalizing widened with
  | nil => cases found
  | cons first rest ih =>
    unfold widenHit at found
    split at found
    · rename_i same
      cases found
      have lowered : (if lo < first.lo then lo else first.lo) ≤ lo ∧
          (if lo < first.lo then lo else first.lo) ≤ first.lo := by
        split <;> constructor <;> bv_omega
      have raised : hi ≤ (if hi > first.hi then hi else first.hi) ∧
          first.hi ≤ (if hi > first.hi then hi else first.hi) := by
        split <;> constructor <;> bv_omega
      refine ⟨⟨_, List.mem_cons_self, same, lowered.1, raised.1⟩, ?_⟩
      intro h member
      cases member with
      | head => exact ⟨_, List.mem_cons_self, rfl, lowered.2, raised.2⟩
      | tail _ later =>
        exact ⟨h, List.mem_cons_of_mem _ later, rfl, BitVec.le_refl _, BitVec.le_refl _⟩
    · obtain ⟨tail, inner, rfl⟩ := Option.map_eq_some_iff.mp found
      obtain ⟨⟨h, member, covers⟩, kept⟩ := ih inner
      refine ⟨⟨h, List.mem_cons_of_mem _ member, covers⟩, ?_⟩
      intro h' member'
      cases member' with
      | head => exact ⟨first, List.mem_cons_self, rfl, BitVec.le_refl _, BitVec.le_refl _⟩
      | tail _ later =>
        obtain ⟨wide, wideMember, covered⟩ := kept h' later
        exact ⟨wide, List.mem_cons_of_mem _ wideMember, covered⟩

variable (g : CodeGuard)

/-- A range passed to `record` is accounted for. -/
theorem recorded_record (slice : Nat) (lo hi : Addr) :
    (g.record slice lo hi).Recorded slice lo hi := by
  unfold record
  split
  · rename_i hits found
    exact ⟨rfl, Or.inr (widenHit_some found).1⟩
  · split
    · exact ⟨rfl, Or.inl (by simp [mustFlush])⟩
    · exact ⟨rfl, Or.inr ⟨⟨slice, lo, hi⟩, by simp, rfl, BitVec.le_refl _, BitVec.le_refl _⟩⟩

/-- A later guard has forgotten nothing: it is tripped and must flush if the earlier one
was, and every hit is still there or has been widened. -/
structure Grows (g g' : CodeGuard) : Prop where
  tripped : g.tripped = true → g'.tripped = true
  mustFlush : g.mustFlush = true → g'.mustFlush = true
  hits : ∀ h ∈ g.hits, ∃ h' ∈ g'.hits, h'.slice = h.slice ∧ h'.lo ≤ h.lo ∧ h.hi ≤ h'.hi

theorem Grows.refl : g.Grows g :=
  ⟨id, id, fun h member => ⟨h, member, rfl, BitVec.le_refl _, BitVec.le_refl _⟩⟩

theorem Grows.trans {g g' g'' : CodeGuard} (first : g.Grows g') (second : g'.Grows g'') :
    g.Grows g'' := by
  refine ⟨second.tripped ∘ first.tripped, second.mustFlush ∘ first.mustFlush, ?_⟩
  intro h member
  obtain ⟨h', member', slices, lowered, raised⟩ := first.hits h member
  obtain ⟨h'', member'', slices', lowered', raised'⟩ := second.hits h' member'
  exact ⟨h'', member'', slices'.trans slices, BitVec.le_trans lowered' lowered,
    BitVec.le_trans raised raised'⟩

theorem grows_record (slice : Nat) (lo hi : Addr) : g.Grows (g.record slice lo hi) := by
  unfold CodeGuard.record
  split
  · rename_i hits found
    exact ⟨fun _ => rfl, id, (widenHit_some found).2⟩
  · split
    · exact ⟨fun _ => rfl, fun _ => by simp [mustFlush], (Grows.refl g).hits⟩
    · refine ⟨fun _ => rfl, id, fun h member => ?_⟩
      exact ⟨h, List.mem_append_left _ member, rfl, BitVec.le_refl _, BitVec.le_refl _⟩

theorem grows_noteLast (pages : Nat) (pageMap : Nat → BitVec 8) (phys n : Addr) :
    g.Grows (g.noteLast pages pageMap phys n) := by
  unfold noteLast
  dsimp only
  split
  · exact grows_record g _ _ _
  · exact .refl g

/-- A reported store only adds to what the guard has accounted for. -/
theorem grows_note (pages : Nat) (pageMap : Nat → BitVec 8) (phys n : Addr) :
    g.Grows (g.note pages pageMap phys n) := by
  refine Grows.trans ?_ (grows_noteLast _ pages pageMap phys n)
  unfold noteFirst
  dsimp only
  split
  · split <;> split
    all_goals first | exact grows_record g _ _ _ | exact .refl g
  · exact .refl g

/-- So does a change of the address map. -/
theorem grows_invalidate : g.Grows g.invalidate :=
  ⟨fun _ => by simp [tripped, invalidate], fun _ => by simp [mustFlush, invalidate],
    (Grows.refl g).hits⟩

/-- A range once accounted for stays accounted for. -/
theorem Recorded.mono {g g' : CodeGuard} {lo hi : Addr} (recorded : g.Recorded slice lo hi)
    (grows : g.Grows g') : g'.Recorded slice lo hi := by
  obtain ⟨tripped, flush | ⟨h, member, same, low, high⟩⟩ := recorded
  · exact ⟨grows.tripped tripped, Or.inl (grows.mustFlush flush)⟩
  · obtain ⟨h', member', slices, lowered, raised⟩ := grows.hits h member
    exact ⟨grows.tripped tripped, Or.inr ⟨h', member', slices.trans same,
      BitVec.le_trans lowered low, BitVec.le_trans high raised⟩⟩

private theorem and_ne_zero_of_bit {first second : BitVec 8} {i : Nat}
    (left : first.getLsbD i = true) (right : second.getLsbD i = true) :
    first &&& second ≠ 0#8 := by
  rw [ne_zero_iff_getLsbD]
  exact ⟨i, by rw [BitVec.getLsbD_and, left, right, Bool.and_self]⟩

/-- A store of at most one slice's length is accounted for in the slice of each
of its bytes whose sub-slice is marked. The two ends of such a store name every
slice it touches. -/
theorem note_recorded {pages : Nat} {pageMap : Nat → BitVec 8}
    {phys n byte : Addr} (width : n ≤ 256) (room : phys.toNat + n.toNat ≤ 2 ^ 32)
    (above : phys ≤ byte) (below : byte.toNat < phys.toNat + n.toNat)
    (inside : sliceOf byte < pages)
    (marked : (pageMap (sliceOf byte)).getLsbD (subSlice byte) = true) :
    (g.note pages pageMap phys n).Recorded (sliceOf byte) phys (phys + n - 1) := by
  have nonzero : pageMap (sliceOf byte) ≠ 0#8 := (ne_zero_iff_getLsbD _).mpr ⟨_, marked⟩
  have last : (phys + n - 1).toNat = phys.toNat + n.toNat - 1 := by bv_omega
  have upTo : byte ≤ phys + n - 1 := by rw [BitVec.le_def]; omega
  have top := toNat_sliceHi (sliceOf_lt phys)
  have bottom := toNat_sliceLo (sliceOf_lt (phys + n - 1))
  by_cases first : sliceOf byte = sliceOf phys
  · have covered : (subMask phys
        (if sliceOf (phys + n - 1) = sliceOf phys then phys + n - 1
          else sliceHi (sliceOf phys))).getLsbD (subSlice byte) = true := by
      split
      · rename_i same
        exact getLsbD_subMask_of_between first.symm (same.trans first.symm) above upTo
      · refine getLsbD_subMask_of_between first.symm ?_ above ?_
        · rw [sliceOf_eq]
          omega
        · rw [BitVec.le_def]
          rw [sliceOf_eq, sliceOf_eq] at *
          omega
    rw [first] at inside marked nonzero ⊢
    have hit : g.noteFirst pages pageMap phys n =
        g.record (sliceOf phys) phys (phys + n - 1) := by
      unfold noteFirst
      rw [if_pos ⟨inside, nonzero⟩, if_pos (and_ne_zero_of_bit marked covered)]
    unfold note
    rw [hit]
    exact (recorded_record g _ _ _).mono (grows_noteLast _ pages pageMap phys n)
  · have final : sliceOf (phys + n - 1) = sliceOf byte := by
      rw [BitVec.le_def] at above width
      rw [sliceOf_eq, sliceOf_eq] at *
      have bound : n.toNat ≤ 256 := width
      omega
    have covered : (subMask (sliceLo (sliceOf (phys + n - 1))) (phys + n - 1)).getLsbD
        (subSlice byte) = true := by
      refine getLsbD_subMask_of_between ?_ final ?_ upTo
      · rw [sliceOf_eq, bottom]
        omega
      · rw [BitVec.le_def, bottom, final, sliceOf_eq]
        omega
    rw [← final] at inside marked nonzero first ⊢
    unfold note noteLast
    rw [if_pos ⟨first, inside, nonzero, and_ne_zero_of_bit marked covered⟩]
    exact recorded_record _ _ _ _

end CodeGuard

end Pom68k.Jit
