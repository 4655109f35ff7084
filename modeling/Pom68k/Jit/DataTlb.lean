import Pom68k.Jit.Reachable

/-! # Inline stores and the write guard

Generated code stores through the write TLB without the memory map, so the
guard never sees those stores. An entry therefore carries a mask of the slices
of its page that hold code, and a store into one of them takes the long way.
The mask is taken when the entry is filled; it stays good because marking a
clear slice empties the TLBs and unmarking only clears slices.
-/

namespace Pom68k.Jit

section

variable {ram : Ram} {cfg : Config} {remembered : Option Site} {blocks : Blocks ram}

namespace Footprint

/-- What a write entry may be trusted for: it points into RAM or a device page, its
mask names every marked slice of the page, and without mask support it is empty. -/
structure Guarded (ram : Ram) (maskAware : Bool) (f : Footprint) (entry : DtlbEntry)
    (page : Nat) : Prop where
  plain : page < ram.pages ∨ ram.device page = true
  masked : ∀ j, j < 16 → page * 16 + j < ram.slices → f.pageMap (page * 16 + j) ≠ 0#8 →
    entry.codeMask.getLsbD j = true
  unaware : maskAware = false → entry.codeMask = 0#32

/-- Every write entry with a host pointer is guarded. -/
def DtlbSound (ram : Ram) (maskAware : Bool) (f : Footprint) : Prop :=
  ∀ i page, (f.dtlb.write i).host = some page → f.Guarded ram maskAware (f.dtlb.write i) page

variable {maskAware : Bool} {f f' : Footprint}

/-- The mask of a page holds exactly its marked slices. -/
theorem getLsbD_codeMask (indexed : f.Indexed ram blocks) {page j : Nat} (bit : j < 16)
    (inRam : page * 16 + j < ram.slices) (marked : f.pageMap (page * 16 + j) ≠ 0#8) :
    (f.codeMask ram page).getLsbD j = true := by
  have pages := ram.slices_eq_pages
  have inPages : page < ram.pages := by omega
  have flagged : f.codePage page = true :=
    (indexed.marks.page page inPages).mpr ⟨page * 16 + j, by omega, marked⟩
  unfold codeMask
  rw [if_pos ⟨inPages, flagged⟩, Foundation.getLsbD_foldl_setBit _ _ _ (by omega)]
  exact Or.inr ⟨List.mem_range.mpr bit, inRam, marked⟩

/-- Soundness is kept when the TLBs keep or lose entries and no clear slice becomes
marked under an entry that is kept. -/
theorem DtlbSound.mono (sound : f.DtlbSound ram maskAware)
    (step : ∀ i page, (f'.dtlb.write i).host = some page → f'.dtlb.write i = f.dtlb.write i ∧
      ∀ p, f'.pageMap p ≠ 0#8 → f.pageMap p ≠ 0#8) :
    f'.DtlbSound ram maskAware := by
  intro i page held
  obtain ⟨kept, shrinks⟩ := step i page held
  rw [kept] at held ⊢
  have guarded := sound i page held
  exact ⟨guarded.plain, fun j bit inRam marked => guarded.masked j bit inRam (shrinks _ marked),
    guarded.unaware⟩

theorem dtlbSound_of_empty (empty : f.dtlb = {}) : f.DtlbSound ram maskAware := by
  intro i page held
  rw [empty] at held
  cases held

/-- An entry written by `fillDtlb` is guarded. -/
theorem DtlbSound.setDtlb (sound : f.DtlbSound ram maskAware) (addr : Addr) (write : Bool)
    (entry : DtlbEntry)
    (good : write = true → ∀ page, entry.host = some page → f.Guarded ram maskAware entry page) :
    (f.setDtlb addr write entry).DtlbSound ram maskAware := by
  intro i page held
  cases write with
  | false =>
    have guarded := sound i page held
    exact ⟨guarded.plain, guarded.masked, guarded.unaware⟩
  | true =>
    by_cases here : i = (addr >>> 12).toNat % 256
    · subst here
      simp only [Footprint.setDtlb, ↓reduceIte, Function.update_self] at held ⊢
      have guarded := good rfl page held
      exact ⟨guarded.plain, guarded.masked, guarded.unaware⟩
    · simp only [Footprint.setDtlb, ↓reduceIte, Function.update_of_ne here] at held ⊢
      have guarded := sound i page held
      exact ⟨guarded.plain, guarded.masked, guarded.unaware⟩

theorem guarded_fillEntry (indexed : f.Indexed ram blocks) (bus : DataBus ram) (addr : Addr)
    {asked page : Nat} (held : (f.fillEntry maskAware bus addr true asked).host = some page) :
    f.Guarded ram maskAware (f.fillEntry maskAware bus addr true asked) page := by
  unfold fillEntry at held ⊢
  split at held
  · cases held
  rename_i span answered
  split at held
  · cases held
  rename_i wide
  rw [if_neg wide]
  simp only [↓reduceIte] at held ⊢
  split at held
  · cases held
  rename_i kept
  cases held
  refine ⟨bus.plain asked span answered, fun j bit inRam marked => ?_, fun unaware => ?_⟩
  · rw [BitVec.getLsbD_or, getLsbD_codeMask indexed bit inRam marked, Bool.true_or]
  · by_contra nonzero
    exact kept ⟨nonzero, unaware⟩

theorem DtlbSound.fillDtlb (indexed : f.Indexed ram blocks) (sound : f.DtlbSound ram maskAware)
    (bus : DataBus ram) (addr : Addr) (write : Bool) :
    (f.fillDtlb maskAware bus addr write).DtlbSound ram maskAware := by
  unfold Footprint.fillDtlb
  split
  · exact sound.setDtlb addr write _ fun _ page held => by cases held
  split
  · exact sound
  split
  · exact sound
  split
  · exact sound
  · refine sound.setDtlb addr write _ fun writes page held => ?_
    subst writes
    exact guarded_fillEntry indexed bus addr held

end Footprint

/-- The write TLB stays guarded under every elementary change. -/
theorem Footprint.DtlbSound.micro {e e' : Engine ram} (indexed : e.footprint.Indexed ram e.blocks)
    (sound : e.footprint.DtlbSound ram cfg.dtlbCodeMask) (change : Micro cfg remembered e e') :
    e'.footprint.DtlbSound ram cfg.dtlbCodeMask := by
  have unlisted : ∀ (k : Key) (b : Block ram),
      (e.footprint.unmarkPages e.blocks k b.ir.spanLo b.ir.spanLen).DtlbSound ram
        cfg.dtlbCodeMask := by
    intro k b
    have unmarked := unmarked_unmarkPages indexed.marks k b.fits
    rcases unmarked.dtlb with kept | emptied
    · refine sound.mono fun i page _ => ⟨?_, unmarked.shrinks⟩
      rw [kept]
    · exact dtlbSound_of_empty emptied
  cases change with
  | control | admitSite | remember | prune | fill | touch | linkCell => exact sound
  | drop => exact dtlbSound_of_empty rfl
  | evict k b live =>
    obtain ⟨links, evicted⟩ := e.evictBlock_eq k b
    rw [evicted]
    exact unlisted k b
  | stale k b live outdated => exact unlisted k b
  | sync =>
    unfold Engine.syncGen
    split
    · exact dtlbSound_of_empty rfl
    · exact sound
  | lose dtlb fewer =>
    refine sound.mono fun i page held => ⟨?_, fun _ marked => marked⟩
    rcases fewer i with kept | lost
    · exact kept
    · rw [lost] at held
      cases held
  | fillDtlb bus addr write => exact sound.fillDtlb indexed bus addr write
  | file admission b site entry version uncompiled current =>
    unfold Engine.file
    split
    · exact sound
    have marked := marked_markPages e.footprint admission.cacheKey b.fits
    rcases marked.dtlb with emptied | ⟨kept, already⟩
    · exact dtlbSound_of_empty emptied
    refine sound.mono fun i page _ => ⟨by rw [kept], fun p set => ?_⟩
    rw [marked.pageMap] at set
    split at set
    · rename_i visited
      exact already p visited
    · exact set
  | publish site k b live owns current =>
    obtain ⟨links, published⟩ := e.publish_eq site b
    rwa [published]

/-- A byte of RAM held by a live block lies in a marked slice. -/
theorem Footprint.Indexed.marked {f : Footprint} (indexed : f.Indexed ram blocks) {k : Key}
    {b : Block ram} {byte : Nat} (live : AList.lookup k blocks = some b) (inRam : byte < ram.bytes)
    (holds : b.ir.Holds byte) : f.pageMap (byte / 256) ≠ 0#8 := by
  have size := ram.bytes_eq_slices
  have inSlices : byte / 256 < ram.slices := by omega
  have meets : b.ir.Meets (byte / 256) := ⟨byte, holds, rfl⟩
  rw [indexed.marks.slice _ inSlices, Foundation.orAll_ne_zero_iff]
  refine ⟨_, List.mem_map_of_mem ((indexed.mem _ inSlices k).mpr ⟨b, live, meets⟩), ?_⟩
  rw [contribution_of_meets live inSlices meets]
  exact Footprint.spanMask_ne_zero b.fits ((mem_slicesOf b.fits).mpr ⟨inSlices, meets⟩)

/-- A store through a write entry into a slice whose bit is clear misses every live
block. -/
theorem Footprint.DtlbSound.misses {f : Footprint} (sound : f.DtlbSound ram cfg.dtlbCodeMask)
    (indexed : f.Indexed ram blocks) {i page : Nat} (held : (f.dtlb.write i).host = some page)
    {byte : Nat} (here : byte / 4096 = page)
    (clear : (f.dtlb.write i).codeMask.getLsbD (byte % 4096 / 256) = false) {k : Key}
    {b : Block ram} (live : AList.lookup k blocks = some b) : ¬ b.ir.Holds byte := by
  intro holds
  have guarded := sound i page held
  have size := ram.bytes_eq_slices
  have pages := ram.slices_eq_pages
  by_cases inRam : byte < ram.bytes
  · have marked := indexed.marked live inRam holds
    have slice : byte / 256 = page * 16 + byte % 4096 / 256 := by omega
    rw [slice] at marked
    have set := guarded.masked (byte % 4096 / 256) (by omega) (by omega) marked
    rw [clear] at set
    cases set
  · have readOnly := b.fits.readOnly byte holds (by omega)
    rw [here] at readOnly
    rcases guarded.plain with ram | device
    · omega
    · rw [readOnly] at device
      cases device

theorem Engine.Reaches.dtlbSound {e : Engine ram} {ops : List (Op ram)}
    (reached : (Engine.initial ram).Reaches cfg ops e) :
    e.footprint.DtlbSound ram cfg.dtlbCodeMask :=
  (reached.induct
    (P := fun e => e.footprint.Indexed ram e.blocks ∧ e.footprint.DtlbSound ram cfg.dtlbCodeMask)
    (Engine.pointed_initial ram) ⟨Footprint.indexed_empty, Footprint.dtlbSound_of_empty rfl⟩
    fun _ _ _ change both => ⟨both.1.micro change, both.2.micro both.1 change⟩).2

/-- In every reachable state a write entry with a host pointer carries a mask with
the bit of every marked slice of its page, or points to a page without code when
the backend tests no masks; so a store through the entry into a slice whose bit
is clear touches no byte of a live block. -/
theorem write_tlb_reachable (cfg : Config) {ops : List (Op ram)} {e : Engine ram}
    (reached : (Engine.initial ram).Reaches cfg ops e) {i page : Nat}
    (held : (e.footprint.dtlb.write i).host = some page) :
    (∀ j, j < 16 → page * 16 + j < ram.slices → e.footprint.pageMap (page * 16 + j) ≠ 0#8 →
      (e.footprint.dtlb.write i).codeMask.getLsbD j = true) ∧
    (cfg.dtlbCodeMask = false →
      ∀ j, j < 16 → page * 16 + j < ram.slices → e.footprint.pageMap (page * 16 + j) = 0#8) ∧
    ∀ byte, byte / 4096 = page →
      (e.footprint.dtlb.write i).codeMask.getLsbD (byte % 4096 / 256) = false →
      ∀ k b, AList.lookup k e.blocks = some b → ¬ b.ir.Holds byte := by
  have indexed := reached.indexed
  have guarded := reached.dtlbSound i page held
  refine ⟨guarded.masked, fun unaware j bit inRam => ?_, fun byte here clear k b live =>
    reached.dtlbSound.misses indexed held here clear live⟩
  by_contra marked
  have set := guarded.masked j bit inRam marked
  rw [guarded.unaware unaware] at set
  simp at set

end

namespace Sample

/-- A bus that maps every address to itself. -/
def bus (phys : Addr) : DataBus machine :=
  { cache040Active := false, hasDataSpan := true, super := true, probe := some (phys, 4096)
    dataSpan := fun page _ => if page < 2 then some 4096 else none
    aliasCodeMask := fun _ => 0
    plain := fun page span answered => by
      by_cases inside : page < 2
      · exact Or.inl inside
      · rw [if_neg inside] at answered
        cases answered }

/-- A write entry is filled for the page that holds the recorded block. -/
def filled : Engine machine := recorded.applyEvent config (.fillDtlb (bus 0x800) 0x1800 true)

end Sample

theorem write_tlb_filled :
    (Sample.filled.footprint.dtlb.write 1).codeMask = 0x0003#32 ∧
    ∀ k b, AList.lookup k Sample.filled.blocks = some b → ¬ b.ir.Holds 0x800 := by
  have reached : (Engine.initial Sample.machine).Reaches Sample.config
      [Sample.recording, .cpu (.fillDtlb (Sample.bus 0x800) 0x1800 true)] Sample.filled :=
    .step Sample.reaches_recorded rfl
  have held : (Sample.filled.footprint.dtlb.write 1).host = some 0 := by decide
  exact ⟨by decide, (write_tlb_reachable Sample.config reached held).2.2 0x800 (by decide)
    (by decide)⟩

end Pom68k.Jit
