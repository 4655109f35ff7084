import Pom68k.Jit.Block

/-! # The footprint index

The engine files every block under the 256-byte slices its physical bytes meet.
A mask byte per slice says which 32-byte sub-slices hold code, a flag per 4 KB
page says whether the page holds any, and the data TLB hands out host pointers
to whole pages on the strength of both. Marking and unmarking a block keep the
index, the masks, the flags and the TLB in step.
-/

namespace Pom68k.Jit

open Foundation

/-- `PomJitDtlbEntry`. The host pointer is the physical page it points to: RAM is
not aliased. -/
structure DtlbEntry where
  tag : Addr := 0xFFFFFFFF
  codeMask : BitVec 32 := 0
  host : Option Nat := none
deriving Repr, DecidableEq

/-- The two data TLBs; a fresh value is what `pomJitDtlbFlush` leaves. -/
structure Dtlb where
  read : Nat → DtlbEntry := fun _ => {}
  write : Nat → DtlbEntry := fun _ => {}

/-- `sliceIndex_`, `pageMap_`, `codePage_` and the data TLBs of the processor. A
slice with no filed block has no vector in the source and the empty list here. -/
structure Footprint where
  sliceIndex : Nat → List Key := fun _ => []
  pageMap : Nat → BitVec 8 := fun _ => 0#8
  codePage : Nat → Bool := fun _ => false
  dtlb : Dtlb := {}

variable {ram : Ram} {ir : BlockIr}

/-- The mask of a span's bytes in a slice they meet. -/
def spanMask (slice : Nat) (lo hi : Addr) : BitVec 8 :=
  CodeGuard.subMask (if lo > sliceLo slice then lo else sliceLo slice)
    (if hi < sliceHi slice then hi else sliceHi slice)

/-- What the block under a key contributes to the mask of a slice. -/
def contribution (blocks : Blocks ram) (slice : Nat) (k : Key) : BitVec 8 :=
  match AList.lookup k blocks with
  | none => 0#8
  | some b =>
    let lo := b.ir.spanLo
    let len := b.ir.spanLen
    let hi := lo + len - 1#32
    if len = 0#32 then 0#8
    else if hi < sliceLo slice ∨ lo > sliceHi slice then 0#8
    else spanMask slice lo hi

/-- The slices of RAM the loops of `markPages` and `unmarkPages` visit. -/
def slicesOf (ram : Ram) (lo len : Addr) : List Nat :=
  if ram.slices = 0 ∨ len = 0#32 then []
  else
    let p := sliceOf lo
    let last := sliceOf (lo + len - 1#32)
    List.range' p (min (last + 1) ram.slices - p)

/-- The pages of RAM the second loop of `markPages` visits. -/
def pagesOf (ram : Ram) (lo len : Addr) : List Nat :=
  let q := (lo >>> 12).toNat
  let last := ((lo + len - 1#32) >>> 12).toNat
  List.range' q (min (last + 1) ram.pages - q)

/-- What the memory hooks and the processor answer when the data TLB asks for a
page. A page handed out for writing lies in RAM or is a device page. -/
structure DataBus (ram : Ram) where
  cache040Active : Bool
  hasDataSpan : Bool
  super : Bool
  probe : Option (Addr × Addr)
  dataSpan : Nat → Bool → Option Addr
  aliasCodeMask : Nat → BitVec 32
  plain : ∀ page span, dataSpan page true = some span → page < ram.pages ∨ ram.device page = true

namespace Footprint

/-- The end of `Engine::recomputeSliceMark`: a page flag is dropped, and the data
TLBs flushed, once no slice of the page is marked. -/
def dropCodePage (ram : Ram) (f : Footprint) (page : Nat) : Footprint :=
  if ram.pages ≤ page ∨ f.codePage page = false then f
  else if (List.range' (page * 4096 / 256) 16).any
      fun i => decide (i < ram.slices) && decide (f.pageMap i ≠ 0#8) then f
  else { f with codePage := Function.update f.codePage page false, dtlb := {} }

/-- `Engine::recomputeSliceMark`. -/
def recomputeSliceMark (blocks : Blocks ram) (f : Footprint) (slice : Nat) : Footprint :=
  if ram.slices ≤ slice then f
  else
    let mask := orAll ((f.sliceIndex slice).map (contribution blocks slice))
    let f := { f with pageMap := Function.update f.pageMap slice mask }
    if mask ≠ 0#8 then f else dropCodePage ram f (slice * 256 / 4096)

/-- The body of the loop of `Engine::unmarkPages`. -/
def unmarkSlice (blocks : Blocks ram) (blockKey : Key) (f : Footprint) (p : Nat) : Footprint :=
  if f.sliceIndex p = [] then f
  else
    let keys := (f.sliceIndex p).filter (· ≠ blockKey)
    recomputeSliceMark blocks { f with sliceIndex := Function.update f.sliceIndex p keys } p

/-- `Engine::unmarkPages`. -/
def unmarkPages (blocks : Blocks ram) (f : Footprint) (blockKey : Key) (lo len : Addr) :
    Footprint :=
  (slicesOf ram lo len).foldl (unmarkSlice blocks blockKey) f

/-- The body of the first loop of `Engine::markPages`, with its `gained` flag. -/
def markSlice (blockKey : Key) (lo hi : Addr) (state : Footprint × Bool) (p : Nat) :
    Footprint × Bool :=
  let f := state.1
  ({ f with
      pageMap := Function.update f.pageMap p (f.pageMap p ||| spanMask p lo hi)
      sliceIndex := Function.update f.sliceIndex p (f.sliceIndex p ++ [blockKey]) },
    state.2 || decide (f.pageMap p = 0#8))

/-- `Engine::markPages`. -/
def markPages (ram : Ram) (f : Footprint) (blockKey : Key) (lo len : Addr) : Footprint :=
  if ram.slices = 0 ∨ len = 0#32 then f
  else
    let marked := (slicesOf ram lo len).foldl (markSlice blockKey lo (lo + len - 1#32)) (f, false)
    let codePage := (pagesOf ram lo len).foldl (fun c q => Function.update c q true)
      marked.1.codePage
    { marked.1 with codePage := codePage, dtlb := if marked.2 then {} else marked.1.dtlb }

/-- The slices of a page that hold code, as `fillDtlb` collects them. -/
def codeMask (ram : Ram) (f : Footprint) (page : Nat) : BitVec 32 :=
  if page < ram.pages ∧ f.codePage page = true then
    (List.range 16).foldl (fun mask i =>
      if page * 16 + i < ram.slices ∧ f.pageMap (page * 16 + i) ≠ 0#8 then
        mask ||| (1#32 <<< i)
      else mask) 0#32
  else 0#32

def dataTag (addr : Addr) (super : Bool) : Addr :=
  (addr >>> 12) ||| ((if super then 1#32 else 0#32) <<< 31)

/-- Writes one entry of the read or the write table. -/
def setDtlb (f : Footprint) (addr : Addr) (write : Bool) (e : DtlbEntry) : Footprint :=
  let i := (addr >>> 12).toNat % 256
  { f with dtlb :=
      if write then { f.dtlb with write := Function.update f.dtlb.write i e }
      else { f.dtlb with read := Function.update f.dtlb.read i e } }

/-- The entry `fillDtlb` caches for a page once the probe has succeeded. A backend
that does not test masks gets no host pointer to a page with code. -/
def fillEntry (maskAware : Bool) (bus : DataBus ram) (f : Footprint) (addr : Addr) (write : Bool)
    (page : Nat) : DtlbEntry :=
  let tag := dataTag addr bus.super
  match bus.dataSpan page write with
  | none => ⟨tag, 0#32, none⟩
  | some span =>
    if span < 4096#32 then ⟨tag, 0#32, none⟩
    else
      let mask := if write then f.codeMask ram page ||| bus.aliasCodeMask page else 0#32
      ⟨tag, mask, if mask ≠ 0#32 ∧ maskAware = false then none else some page⟩

/-- `Engine::fillDtlb`. Refusals that are not transient are remembered as tagged
entries without a host pointer. -/
def fillDtlb (maskAware : Bool) (bus : DataBus ram) (f : Footprint) (addr : Addr)
    (write : Bool) : Footprint :=
  if bus.cache040Active then f.setDtlb addr write ⟨dataTag addr bus.super, 0#32, none⟩
  else if !bus.hasDataSpan then f
  else
    match bus.probe with
    | none => f
    | some (phys, pageLen) =>
      if pageLen < 4096#32 then f
      else f.setDtlb addr write (f.fillEntry maskAware bus addr write (phys >>> 12).toNat)

/-- The masks and flags are what the filed keys make them. -/
structure Marks (ram : Ram) (f : Footprint) (mask : Nat → Key → BitVec 8) : Prop where
  slice : ∀ p, p < ram.slices → f.pageMap p = orAll ((f.sliceIndex p).map (mask p))
  page : ∀ q, q < ram.pages → (f.codePage q = true ↔ ∃ p, p / 16 = q ∧ f.pageMap p ≠ 0#8)

end Footprint

/-- The mask of a span holds the sub-slice of each of its bytes in the slice. -/
theorem getLsbD_spanMask {lo hi byte : Addr} (above : lo ≤ byte) (below : byte ≤ hi) :
    (spanMask (sliceOf byte) lo hi).getLsbD (CodeGuard.subSlice byte) = true := by
  have bottom := toNat_sliceLo (sliceOf_lt byte)
  have top := toNat_sliceHi (sliceOf_lt byte)
  have slice := sliceOf_eq byte
  have sliceStart := sliceOf_eq lo
  have sliceEnd := sliceOf_eq hi
  rw [BitVec.le_def] at above below
  apply CodeGuard.getLsbD_subMask_of_between
  · split
    · rename_i later
      rw [gt_iff_lt, BitVec.lt_def] at later
      omega
    · rw [sliceOf_eq]
      omega
  · split
    · rename_i earlier
      rw [BitVec.lt_def] at earlier
      omega
    · rw [sliceOf_eq]
      omega
  · rw [BitVec.le_def]
    split
    · exact above
    · omega
  · rw [BitVec.le_def]
    split
    · exact below
    · omega

theorem spanEnd {lo len : Addr} (room : lo.toNat + len.toNat ≤ 2 ^ 32) (nonempty : len ≠ 0#32) :
    (lo + len - 1#32).toNat = lo.toNat + len.toNat - 1 := by
  bv_omega

theorem BlockIr.Holds.nonempty {byte : Nat} (holds : ir.Holds byte) : ir.spanLen ≠ 0#32 := by
  intro none
  obtain ⟨above, below⟩ := holds
  rw [none, BitVec.toNat_ofNat] at below
  omega

/-- The loops visit the slices of RAM that the span meets. -/
theorem mem_slicesOf (fits : ir.Fits ram) {p : Nat} :
    p ∈ slicesOf ram ir.spanLo ir.spanLen ↔ p < ram.slices ∧ ir.Meets p := by
  have size := ram.bytes_eq_slices
  unfold slicesOf
  split
  · rename_i nothing
    refine ⟨fun member => absurd member List.not_mem_nil, ?_⟩
    rintro ⟨inRam, byte, ⟨above, below⟩, _⟩
    rcases nothing with noRam | noBytes
    · omega
    · exact absurd noBytes (BlockIr.Holds.nonempty ⟨above, below⟩)
  · rename_i something
    rw [not_or] at something
    have slice := sliceOf_eq ir.spanLo
    have slice' := sliceOf_eq (ir.spanLo + ir.spanLen - 1#32)
    have positive : 0 < ir.spanLen.toNat := by
      bv_omega
    rw [List.mem_range'_1]
    by_cases inside : ir.spanLo.toNat < ram.bytes
    · have last := spanEnd (fits.room inside) something.2
      constructor
      · rintro ⟨first, bound⟩
        refine ⟨by omega, max ir.spanLo.toNat (p * 256), ⟨by omega, ?_⟩, by omega⟩
        omega
      · rintro ⟨inRam, byte, ⟨above, below⟩, rfl⟩
        omega
    · constructor
      · omega
      · rintro ⟨inRam, byte, ⟨above, below⟩, rfl⟩
        omega

theorem nodup_slicesOf (ram : Ram) (lo len : Addr) : (slicesOf ram lo len).Nodup := by
  unfold slicesOf
  split
  · exact List.nodup_nil
  · exact List.nodup_range'

/-- The page loop visits the pages of the slices the slice loop visits. -/
theorem mem_pagesOf (fits : ir.Fits ram) (nonempty : ir.spanLen ≠ 0#32) {q : Nat}
    (inRam : q < ram.pages) : q ∈ pagesOf ram ir.spanLo ir.spanLen ↔
      ∃ p, p / 16 = q ∧ p ∈ slicesOf ram ir.spanLo ir.spanLen := by
  have size := ram.bytes_eq_slices
  have pages := ram.slices_eq_pages
  have positive : 0 < ir.spanLen.toNat := by bv_omega
  have page : ∀ a : Addr, (a >>> 12).toNat = a.toNat / 4096 := by
    intro a
    rw [BitVec.toNat_ushiftRight, Nat.shiftRight_eq_div_pow]
  simp only [mem_slicesOf fits]
  unfold pagesOf
  rw [page, page, List.mem_range'_1]
  by_cases inside : ir.spanLo.toNat < ram.bytes
  · rw [spanEnd (fits.room inside) nonempty]
    constructor
    · rintro ⟨first, bound⟩
      refine ⟨max ir.spanLo.toNat (q * 4096) / 256, by omega, by omega,
        max ir.spanLo.toNat (q * 4096), ⟨by omega, by omega⟩, rfl⟩
    · rintro ⟨p, rfl, _, byte, ⟨above, below⟩, rfl⟩
      omega
  · constructor
    · omega
    · rintro ⟨p, rfl, _, byte, ⟨above, below⟩, rfl⟩
      omega

section

variable {blocks : Blocks ram} {k : Key} {b : Block ram} (live : AList.lookup k blocks = some b)
include live

/-- A block contributes the mask of its span to each slice of RAM it meets. -/
theorem contribution_of_meets {p : Nat} (inRam : p < ram.slices) (meets : b.ir.Meets p) :
    contribution blocks p k = spanMask p b.ir.spanLo (b.ir.spanLo + b.ir.spanLen - 1#32) := by
  obtain ⟨byte, holds, here⟩ := meets
  have ⟨above, below⟩ := holds
  have size := ram.bytes_eq_slices
  have last := spanEnd (b.fits.room (by omega)) holds.nonempty
  have inSpace : p < 2 ^ 24 := Nat.lt_trans inRam ram.slices_lt
  have bottom := toNat_sliceLo inSpace
  have top := toNat_sliceHi inSpace
  unfold contribution
  rw [live]
  dsimp only
  rw [if_neg holds.nonempty, if_neg]
  rw [BitVec.lt_def, gt_iff_lt, BitVec.lt_def]
  omega

/-- The span mask of a block holds the sub-slice of each of its bytes in RAM. -/
theorem getLsbD_contribution {byte : Addr} (inRam : byte.toNat < ram.bytes)
    (holds : b.ir.Holds byte.toNat) :
    (contribution blocks (sliceOf byte) k).getLsbD (CodeGuard.subSlice byte) = true := by
  have size := ram.bytes_eq_slices
  have slice := sliceOf_eq byte
  rw [contribution_of_meets live (by omega) ⟨byte.toNat, holds, slice.symm⟩]
  apply getLsbD_spanMask
  · exact holds.1
  · rw [BitVec.le_def, spanEnd (b.fits.room (holds.1.trans_lt inRam)) holds.nonempty]
    exact Nat.le_sub_one_of_lt holds.2

end

end Pom68k.Jit
