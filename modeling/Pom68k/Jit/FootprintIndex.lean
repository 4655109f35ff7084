import Pom68k.Jit.Footprint

/-! # What marking and unmarking preserve

Unmarking a key removes it from the slices it was filed under and recomputes
each mask from the keys that remain; marking appends a key and widens each
mask. Both keep the masks equal to the union over the filed keys and the page
flags equal to the question whether a slice of the page is marked. Together
with the description of who is filed where, this is the footprint index.
-/

namespace Pom68k.Jit.Footprint

open Foundation

variable {ram : Ram} {blocks : Blocks ram} {f : Footprint} {blockKey : Key} {ir : BlockIr} {p : Nat}

/-- Dropping the flag of a page touches the flags alone, and empties the TLBs. -/
theorem dropCodePage_cases (page : Nat) :
    dropCodePage ram f page = f ∨
      ∃ codePage, dropCodePage ram f page = { f with codePage := codePage, dtlb := {} } := by
  unfold dropCodePage
  split
  · exact Or.inl rfl
  · split
    · exact Or.inl rfl
    · exact Or.inr ⟨_, rfl⟩

/-- If the page flags may only be stale in one page that lost marks, dropping that
page's flag makes them exact. -/
theorem dropCodePage_page {page : Nat} (others : ∀ q, q < ram.pages → q ≠ page →
      (f.codePage q = true ↔ ∃ p, p / 16 = q ∧ f.pageMap p ≠ 0#8))
    (covered : (∃ p, p / 16 = page ∧ f.pageMap p ≠ 0#8) → f.codePage page = true) :
    ∀ q, q < ram.pages → ((dropCodePage ram f page).codePage q = true ↔
      ∃ p, p / 16 = q ∧ f.pageMap p ≠ 0#8) := by
  intro q inRam
  have pages := ram.slices_eq_pages
  have start : page * 4096 / 256 = page * 16 := by omega
  unfold dropCodePage
  by_cases here : q = page
  · subst here
    split
    · rename_i stop
      rcases stop with outside | clear
      · omega
      · rw [clear]
        refine ⟨nofun, fun marked => ?_⟩
        rw [← clear]
        exact covered marked
    · rename_i flagged
      simp only [not_or, Bool.not_eq_false] at flagged
      split
      · rename_i found
        obtain ⟨p, member, marked⟩ := List.any_eq_true.mp found
        rw [List.mem_range'_1] at member
        simp only [Bool.and_eq_true, decide_eq_true_eq] at marked
        exact ⟨fun _ => ⟨p, by omega, marked.2⟩, fun _ => flagged.2⟩
      · rename_i notFound
        simp only [Function.update_self, Bool.false_eq_true, false_iff, not_exists, not_and]
        intro p within marked
        apply notFound
        rw [List.any_eq_true]
        refine ⟨p, List.mem_range'_1.mpr (by omega), ?_⟩
        simp only [Bool.and_eq_true, decide_eq_true_eq]
        exact ⟨by omega, marked⟩
  · have same := others q inRam here
    split
    · exact same
    · split
      · exact same
      · simp only [Function.update_of_ne here]
        exact same

/-- What unmarking leaves: exact masks, no newly marked slice, TLBs as they were or
empty, and the key filed in none of the visited slices. -/
structure Unmarked (ram : Ram) (blocks : Blocks ram) (blockKey : Key) (visited : List Nat)
    (f f' : Footprint) : Prop where
  marks : f'.Marks ram (contribution blocks)
  shrinks : ∀ p, f'.pageMap p ≠ 0#8 → f.pageMap p ≠ 0#8
  dtlb : f'.dtlb = f.dtlb ∨ f'.dtlb = {}
  sliceIndex : ∀ p, f'.sliceIndex p =
    if p ∈ visited then (f.sliceIndex p).filter (· ≠ blockKey) else f.sliceIndex p

/-- Unmarking one slice recomputes its mask from the keys that remain; the flags stay
exact. -/
theorem Marks.unmarkSlice (marks : f.Marks ram (contribution blocks)) (blockKey : Key)
    (inRam : p < ram.slices) :
    Unmarked ram blocks blockKey [p] f (unmarkSlice blocks blockKey f p) := by
  unfold Footprint.unmarkSlice
  split
  · rename_i none
    refine ⟨marks, fun _ marked => marked, Or.inl rfl, fun p' => ?_⟩
    split
    · rename_i here
      rw [List.mem_singleton.mp here, none, List.filter_nil]
    · rfl
  · unfold recomputeSliceMark
    rw [if_neg (by omega)]
    simp only [Function.update_self]
    set keys := (f.sliceIndex p).filter (· ≠ blockKey)
    set mask := orAll (keys.map (contribution blocks p))
    let left : Footprint := { f with
      sliceIndex := Function.update f.sliceIndex p keys
      pageMap := Function.update f.pageMap p mask }
    have index : ∀ p', left.sliceIndex p' =
        if p' ∈ [p] then (f.sliceIndex p').filter (· ≠ blockKey) else f.sliceIndex p' := by
      intro p'
      simp only [left, Function.update_apply, List.mem_singleton]
      split
      · rename_i here
        rw [here]
      · rfl
    have slice : ∀ p', p' < ram.slices →
        left.pageMap p' = orAll ((left.sliceIndex p').map (contribution blocks p')) := by
      intro p' inRam'
      simp only [left, Function.update_apply]
      split
      · rename_i here
        rw [here]
      · exact marks.slice p' inRam'
    have shrinks : ∀ p', left.pageMap p' ≠ 0#8 → f.pageMap p' ≠ 0#8 := by
      intro p' marked
      simp only [left, Function.update_apply] at marked
      split at marked
      · rename_i here
        rw [here, marks.slice p inRam]
        rw [orAll_ne_zero_iff] at marked ⊢
        obtain ⟨m, member, set⟩ := marked
        obtain ⟨k, kept, rfl⟩ := List.mem_map.mp member
        exact ⟨_, List.mem_map_of_mem (List.mem_of_mem_filter kept), set⟩
      · exact marked
    -- A flag can only be stale where the recomputed mask is empty.
    have flags : ∀ q, q < ram.pages → (q = p / 16 → mask ≠ 0#8) →
        (left.codePage q = true ↔ ∃ p', p' / 16 = q ∧ left.pageMap p' ≠ 0#8) := by
      intro q inPages still
      refine (marks.page q inPages).trans
        ⟨?_, fun ⟨p', within, marked⟩ => ⟨p', within, shrinks p' marked⟩⟩
      rintro ⟨p', within, marked⟩
      refine ⟨p', within, ?_⟩
      simp only [left, Function.update_apply]
      split
      · rename_i here
        exact still (here ▸ within.symm)
      · exact marked
    split
    · rename_i nonzero
      exact ⟨⟨slice, fun q inPages => flags q inPages fun _ => nonzero⟩, shrinks, Or.inl rfl, index⟩
    · have target : p * 256 / 4096 = p / 16 := by omega
      have pages := ram.slices_eq_pages
      rw [target]
      have page := @dropCodePage_page ram left (p / 16)
        (fun q inPages other => flags q inPages fun same => absurd same other)
        (fun ⟨p', within, marked⟩ =>
          (marks.page (p / 16) (by omega)).mpr ⟨p', within, shrinks p' marked⟩)
      rcases @dropCodePage_cases ram left (p / 16) with same | ⟨codePage, same⟩
      · rw [same] at page ⊢
        exact ⟨⟨slice, page⟩, shrinks, Or.inl rfl, index⟩
      · rw [same] at page ⊢
        exact ⟨⟨slice, page⟩, shrinks, Or.inr rfl, index⟩

theorem unmarked_foldl (marks : f.Marks ram (contribution blocks)) (visited : List Nat)
    (inRam : ∀ p ∈ visited, p < ram.slices) :
    Unmarked ram blocks blockKey visited f
      (visited.foldl (Footprint.unmarkSlice blocks blockKey) f) := by
  induction visited generalizing f with
  | nil => exact ⟨marks, fun _ marked => marked, Or.inl rfl, fun _ => rfl⟩
  | cons p rest ih =>
    have first := marks.unmarkSlice blockKey (inRam p List.mem_cons_self)
    have step := ih first.marks fun p' member => inRam p' (List.mem_cons_of_mem _ member)
    refine ⟨step.marks, fun p' marked => first.shrinks p' (step.shrinks p' marked), ?_,
      fun p' => ?_⟩
    · rcases step.dtlb with kept | emptied
      · rw [List.foldl_cons, kept]
        exact first.dtlb
      · exact Or.inr emptied
    · rw [List.foldl_cons, step.sliceIndex, first.sliceIndex]
      by_cases same : p' = p <;> simp [same]

/-- `unmarkPages` on the span of a block. -/
theorem unmarked_unmarkPages (marks : f.Marks ram (contribution blocks)) (blockKey : Key)
    (fits : ir.Fits ram) :
    Unmarked ram blocks blockKey (slicesOf ram ir.spanLo ir.spanLen) f
      (unmarkPages blocks f blockKey ir.spanLo ir.spanLen) :=
  unmarked_foldl marks _ fun _ member => ((mem_slicesOf fits).mp member).1

/-- The closed form of the slice loop of `markPages`. -/
theorem markSlice_foldl (f : Footprint) (blockKey : Key) (lo hi : Addr)
    (visited : List Nat) (nodup : visited.Nodup) (gained : Bool) :
    let after := visited.foldl (markSlice blockKey lo hi) (f, gained)
    (∀ p, after.1.sliceIndex p =
        if p ∈ visited then f.sliceIndex p ++ [blockKey] else f.sliceIndex p) ∧
      (∀ p, after.1.pageMap p =
        if p ∈ visited then f.pageMap p ||| spanMask p lo hi else f.pageMap p) ∧
      after.1.codePage = f.codePage ∧ after.1.dtlb = f.dtlb ∧
      (after.2 = true ↔ gained = true ∨ ∃ p ∈ visited, f.pageMap p = 0#8) := by
  induction visited generalizing f gained with
  | nil => simp
  | cons p rest ih =>
    rw [List.nodup_cons] at nodup
    obtain ⟨index, masks, pages, tlb, gain⟩ :=
      ih (markSlice blockKey lo hi (f, gained) p).1 nodup.2
        (markSlice blockKey lo hi (f, gained) p).2
    dsimp only [List.foldl_cons]
    refine ⟨fun p' => ?_, fun p' => ?_, pages, tlb, ?_⟩
    · rw [index]
      by_cases same : p' = p <;> simp [same, nodup.1, markSlice]
    · rw [masks]
      by_cases same : p' = p <;> simp [same, nodup.1, markSlice]
    · rw [gain]
      have others : ∀ p' ∈ rest, (markSlice blockKey lo hi (f, gained) p).1.pageMap p' =
          f.pageMap p' := by
        intro p' member
        have other : p' ≠ p := fun same => nodup.1 (same ▸ member)
        simp [markSlice, other]
      simp only [markSlice, Bool.or_eq_true, decide_eq_true_eq, List.mem_cons,
        exists_eq_or_imp, or_assoc]
      refine or_congr_right (or_congr_right (exists_congr fun p' =>
        and_congr_right fun member => ?_))
      rw [← others p' member]
      rfl

theorem update_foldl_true (c : Nat → Bool) (qs : List Nat) (q : Nat) :
    qs.foldl (fun c q => Function.update c q true) c q = true ↔ c q = true ∨ q ∈ qs := by
  induction qs generalizing c with
  | nil => simp
  | cons first rest ih =>
    rw [List.foldl_cons, ih]
    by_cases same : q = first <;> simp [same]

/-- The footprint index of a block map. -/
structure Indexed (ram : Ram) (f : Footprint) (blocks : Blocks ram) : Prop where
  nodup : ∀ p, p < ram.slices → (f.sliceIndex p).Nodup
  mem : ∀ p, p < ram.slices → ∀ k,
    k ∈ f.sliceIndex p ↔ ∃ b, AList.lookup k blocks = some b ∧ b.ir.Meets p
  marks : f.Marks ram (contribution blocks)

theorem indexed_empty : Indexed ram {} (∅ : Blocks ram) where
  nodup := fun _ _ => List.nodup_nil
  mem := fun _ _ k => by simp
  marks := ⟨fun _ _ => rfl, fun _ _ => by simp⟩

theorem contribution_congr {blocks blocks' : Blocks ram} {k : Key}
    (same : (AList.lookup k blocks).map Block.ir = (AList.lookup k blocks').map Block.ir) :
    contribution blocks p k = contribution blocks' p k := by
  unfold contribution
  cases before : AList.lookup k blocks with
  | none =>
    rw [before] at same
    rw [Option.map_eq_none_iff.mp same.symm]
  | some b =>
    rw [before] at same
    obtain ⟨b', after, eq⟩ := Option.map_eq_some_iff.mp same.symm
    rw [after]
    dsimp only
    rw [eq]

/-- The masks only depend on the contributions of the filed keys. -/
theorem Marks.congr {mask mask' : Nat → Key → BitVec 8} (marks : f.Marks ram mask)
    (same : ∀ p, p < ram.slices → ∀ k ∈ f.sliceIndex p, mask p k = mask' p k) :
    f.Marks ram mask' where
  slice := fun p inRam => by
    rw [marks.slice p inRam]
    exact congrArg orAll (List.map_congr_left (same p inRam))
  page := marks.page

/-- A block map whose blocks have the same representations has the same index. -/
theorem Indexed.congr {blocks' : Blocks ram} (indexed : f.Indexed ram blocks)
    (same : ∀ k, (AList.lookup k blocks).map Block.ir = (AList.lookup k blocks').map Block.ir) :
    f.Indexed ram blocks' where
  nodup := indexed.nodup
  mem := fun p inRam k => by
    rw [indexed.mem p inRam k]
    have transfer : ∀ {first second : Blocks ram},
        (AList.lookup k first).map Block.ir = (AList.lookup k second).map Block.ir →
        (∃ b, AList.lookup k first = some b ∧ b.ir.Meets p) →
          ∃ b, AList.lookup k second = some b ∧ b.ir.Meets p := by
      rintro first second eq ⟨b, live, meets⟩
      rw [live] at eq
      obtain ⟨b', live', ir⟩ := Option.map_eq_some_iff.mp eq.symm
      exact ⟨b', live', ir ▸ meets⟩
    exact ⟨transfer (same k), transfer (same k).symm⟩
  marks := indexed.marks.congr fun _ _ k _ => contribution_congr (same k)

/-- Unmarking a live block and erasing it keeps the index. -/
theorem Indexed.erase (indexed : f.Indexed ram blocks) {b : Block ram}
    (live : AList.lookup blockKey blocks = some b) :
    (unmarkPages blocks f blockKey b.ir.spanLo b.ir.spanLen).Indexed ram
      (AList.erase blockKey blocks) := by
  have unmarked := unmarked_unmarkPages indexed.marks blockKey b.fits
  have filed : ∀ p, p < ram.slices → ∀ k,
      k ∈ (unmarkPages blocks f blockKey b.ir.spanLo b.ir.spanLen).sliceIndex p ↔
        k ∈ f.sliceIndex p ∧ k ≠ blockKey := by
    intro p inRam k
    rw [unmarked.sliceIndex]
    split
    · simp
    rename_i unvisited
    refine ⟨fun member => ⟨member, ?_⟩, fun both => both.1⟩
    rintro rfl
    obtain ⟨b', live', meets⟩ := (indexed.mem p inRam k).mp member
    rw [live] at live'
    cases live'
    exact unvisited ((mem_slicesOf b.fits).mpr ⟨inRam, meets⟩)
  constructor
  · intro p inRam
    rw [unmarked.sliceIndex]
    split
    · exact (indexed.nodup p inRam).filter _
    · exact indexed.nodup p inRam
  · intro p inRam k
    rw [filed p inRam k, indexed.mem p inRam k]
    simp only [Blocks.live_erase, and_assoc, exists_and_left, and_comm (b := k ≠ blockKey)]
  · refine unmarked.marks.congr fun p inRam k member => contribution_congr ?_
    rw [AList.lookup_erase_ne ((filed p inRam k).mp member).2]

/-- What marking leaves: the key filed last in each slice its span meets, the masks
widened there, the flags of those pages set, and the TLBs empty if some slice
became marked. -/
structure Marked (ram : Ram) (blockKey : Key) (ir : BlockIr) (f f' : Footprint) : Prop where
  sliceIndex : ∀ p, f'.sliceIndex p =
    if p ∈ slicesOf ram ir.spanLo ir.spanLen then f.sliceIndex p ++ [blockKey]
    else f.sliceIndex p
  pageMap : ∀ p, f'.pageMap p =
    if p ∈ slicesOf ram ir.spanLo ir.spanLen then
      f.pageMap p ||| spanMask p ir.spanLo (ir.spanLo + ir.spanLen - 1#32)
    else f.pageMap p
  codePage : ∀ q, q < ram.pages → (f'.codePage q = true ↔
    f.codePage q = true ∨ ∃ p, p / 16 = q ∧ p ∈ slicesOf ram ir.spanLo ir.spanLen)
  dtlb : f'.dtlb = {} ∨
    f'.dtlb = f.dtlb ∧ ∀ p ∈ slicesOf ram ir.spanLo ir.spanLen, f.pageMap p ≠ 0#8

theorem marked_markPages (f : Footprint) (blockKey : Key) (fits : ir.Fits ram) :
    Marked ram blockKey ir f (markPages ram f blockKey ir.spanLo ir.spanLen) := by
  unfold markPages
  split
  · rename_i nothing
    have empty : slicesOf ram ir.spanLo ir.spanLen = [] := if_pos nothing
    refine ⟨fun p => ?_, fun p => ?_, fun q _ => ?_, Or.inr ⟨rfl, fun p member => ?_⟩⟩
    · rw [empty, if_neg List.not_mem_nil]
    · rw [empty, if_neg List.not_mem_nil]
    · simp [empty]
    · rw [empty] at member
      cases member
  · rename_i something
    rw [not_or] at something
    obtain ⟨index, masks, pages, tlb, gain⟩ := markSlice_foldl f blockKey
      ir.spanLo (ir.spanLo + ir.spanLen - 1#32) _ (nodup_slicesOf ram ir.spanLo ir.spanLen) false
    refine ⟨index, masks, fun q inRam => ?_, ?_⟩
    · rw [update_foldl_true, pages, mem_pagesOf fits something.2 inRam]
    · dsimp only
      split
      · exact Or.inl rfl
      · rename_i kept
        refine Or.inr ⟨tlb, fun p member clear => kept (gain.mpr (Or.inr ⟨p, member, clear⟩))⟩

theorem spanMask_ne_zero (fits : ir.Fits ram) (member : p ∈ slicesOf ram ir.spanLo ir.spanLen) :
    spanMask p ir.spanLo (ir.spanLo + ir.spanLen - 1#32) ≠ 0#8 := by
  obtain ⟨inRam, byte, holds, here⟩ := (mem_slicesOf fits).mp member
  have ⟨above, below⟩ := holds
  have size := ram.bytes_eq_slices
  have last := spanEnd (fits.room (by omega)) holds.nonempty
  have value : (BitVec.ofNat 32 byte).toNat = byte := by
    rw [BitVec.toNat_ofNat]
    omega
  have slice : sliceOf (BitVec.ofNat 32 byte) = p := by rw [sliceOf_eq, value, here]
  rw [ne_zero_iff_getLsbD]
  refine ⟨CodeGuard.subSlice (BitVec.ofNat 32 byte), ?_⟩
  rw [← slice]
  apply getLsbD_spanMask
  · rwa [BitVec.le_def, value]
  · rw [BitVec.le_def]
    omega

/-- Filing a fresh block and marking its span keeps the index. -/
theorem Indexed.insert (indexed : f.Indexed ram blocks)
    (fresh : AList.lookup blockKey blocks = none) (b : Block ram) :
    (markPages ram f blockKey b.ir.spanLo b.ir.spanLen).Indexed ram
      (AList.insert blockKey b blocks) := by
  have marked := marked_markPages f blockKey b.fits
  have unfiled : ∀ p, p < ram.slices → blockKey ∉ f.sliceIndex p := by
    intro p inRam member
    obtain ⟨b', live, _⟩ := (indexed.mem p inRam blockKey).mp member
    rw [fresh] at live
    cases live
  have others : ∀ k, k ≠ blockKey → ∀ p,
      contribution (AList.insert blockKey b blocks) p k = contribution blocks p k := by
    intro k other p
    exact contribution_congr (by rw [AList.lookup_insert_ne other])
  constructor
  · intro p inRam
    rw [marked.sliceIndex]
    split
    · refine List.nodup_append.mpr ⟨indexed.nodup p inRam, List.nodup_singleton _, ?_⟩
      intro k member k' new same
      rw [List.mem_singleton] at new
      subst same new
      exact unfiled p inRam member
    · exact indexed.nodup p inRam
  · intro p inRam k
    rw [marked.sliceIndex]
    by_cases same : k = blockKey
    · subst same
      rw [AList.lookup_insert]
      split
      · rename_i visited
        exact ⟨fun _ => ⟨b, rfl, ((mem_slicesOf b.fits).mp visited).2⟩,
          fun _ => List.mem_append_right _ (List.mem_singleton.mpr rfl)⟩
      · rename_i unvisited
        refine ⟨fun member => absurd member (unfiled p inRam), ?_⟩
        rintro ⟨b', eq, meets⟩
        cases eq
        exact absurd ((mem_slicesOf b.fits).mpr ⟨inRam, meets⟩) unvisited
    · rw [AList.lookup_insert_ne same, ← indexed.mem p inRam k]
      split
      · simp [same]
      · exact Iff.rfl
  · have kept : ∀ p, p < ram.slices →
        orAll ((f.sliceIndex p).map (contribution (AList.insert blockKey b blocks) p)) =
          f.pageMap p := by
      intro p inRam
      rw [indexed.marks.slice p inRam]
      congr 1
      refine List.map_congr_left fun k member => others k ?_ p
      rintro rfl
      exact unfiled p inRam member
    constructor
    · intro p inRam
      rw [marked.pageMap, marked.sliceIndex]
      split
      · rename_i visited
        rw [List.map_append, List.map_singleton,
          contribution_of_meets (AList.lookup_insert blocks) inRam
            ((mem_slicesOf b.fits).mp visited).2,
          ← kept p inRam]
        unfold orAll
        rw [List.foldl_append]
        rfl
      · exact (kept p inRam).symm
    · intro q inRam
      rw [marked.codePage q inRam, indexed.marks.page q inRam]
      constructor
      · rintro (⟨p, within, set⟩ | ⟨p, within, visited⟩)
        · refine ⟨p, within, ?_⟩
          rw [marked.pageMap]
          split
          · exact or_ne_zero_left set
          · exact set
        · refine ⟨p, within, ?_⟩
          rw [marked.pageMap, if_pos visited]
          exact or_ne_zero_right (spanMask_ne_zero b.fits visited)
      · rintro ⟨p, within, set⟩
        rw [marked.pageMap] at set
        split at set
        · rename_i visited
          exact Or.inr ⟨p, within, visited⟩
        · exact Or.inl ⟨p, within, set⟩

/-- Filling the data TLB changes nothing else. -/
theorem fillDtlb_eq (maskAware : Bool) (bus : DataBus ram) (f : Footprint) (addr : Addr)
    (write : Bool) :
    ∃ dtlb, f.fillDtlb maskAware bus addr write = { f with dtlb := dtlb } := by
  unfold fillDtlb
  split
  · exact ⟨_, rfl⟩
  split
  · exact ⟨f.dtlb, rfl⟩
  split
  · exact ⟨f.dtlb, rfl⟩
  · split
    · exact ⟨f.dtlb, rfl⟩
    · exact ⟨_, rfl⟩

end Pom68k.Jit.Footprint
