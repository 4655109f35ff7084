import Pom68k.Jit.Micro

/-! # What holds in every reachable state

The dispatch cache only points to live blocks, whatever the engine does, so
every operation is a sequence of elementary changes and a property that
survives those holds along every run. The first such property is the footprint
index.
-/

namespace Pom68k.Jit

section

variable {ram : Ram} {cfg : Config} {remembered : Option Site}

namespace Engine

variable {e e' : Engine ram} {P : Engine ram → Prop}

theorem Pointed.unlist (pointed : e.Pointed) (k : Key) (ir : BlockIr) :
    (e.unlist k ir).Pointed := by
  refine (pointed.evict k).mono fun k' ptr _ good => ?_
  obtain ⟨⟨keyed, b, live, node⟩, other⟩ := good
  exact ⟨keyed, b, Blocks.live_erase.mpr ⟨other, live⟩, node⟩

/-- Every elementary change keeps the pointers of the dispatch cache good. -/
theorem Pointed.micro (pointed : e.Pointed) (change : Micro cfg remembered e e') : e'.Pointed := by
  cases change with
  | control | lose | fillDtlb | remember | prune | linkCell => exact pointed
  | drop => exact DispatchCache.sound_clear _ _
  | evict k b live =>
    obtain ⟨links, evicted⟩ := e.evictBlock_eq k b
    rw [evicted]
    exact pointed.unlist k b.ir
  | stale k b live outdated => exact pointed.unlist k b.ir
  | sync =>
    unfold Pointed
    rwa [syncGen_dispatchCache, syncGen_blocks]
  | admitSite site opcode count =>
    unfold Engine.admitSite
    dsimp only
    split
    · exact (pointed.evict site.key).mono fun _ _ _ good => good.1
    · exact pointed
  | file admission b site entry version uncompiled current =>
    unfold file
    split
    · exact pointed
    · rename_i fresh
      refine DispatchCache.Sound.mono pointed fun k ptr _ good => ?_
      obtain ⟨keyed, b', live, node⟩ := good
      exact ⟨keyed, b', Blocks.live_insert_of_fresh fresh live, node⟩
  | fill site b live unknown other =>
    exact DispatchCache.Sound.fill pointed
      (ShiftVersionCache.isVersionKey_key site.pc site.super) ⟨rfl, b, live, rfl⟩
  | touch k b b' live same code gen =>
    refine DispatchCache.Sound.mono pointed fun k' ptr _ good => ?_
    obtain ⟨keyed, old, here, node⟩ := good
    by_cases touched : k' = k
    · subst touched
      rw [live] at here
      cases here
      exact ⟨keyed, b', lookup_putBlock e k' b', same.2.1.trans node⟩
    · exact ⟨keyed, old, Blocks.live_insert.mpr (Or.inr ⟨touched, here⟩), node⟩
  | publish site k b live owns current =>
    obtain ⟨links, published⟩ := e.publish_eq site b
    rwa [published]

theorem pointed_initial (ram : Ram) : (initial ram).Pointed := by
  have empty : ∀ i, (initial ram).dispatchCache.entries i = {} := by
    intro i
    rfl
  refine ⟨fun i _ => empty i, fun i ptr held => ?_⟩
  cases held

/-- A property kept by every elementary change is kept by sequences of them. -/
theorem micros_induct (changes : Micros cfg remembered e e') (start : P e)
    (kept : ∀ a b, Micro cfg remembered a b → P a → P b) : P e' := by
  induction changes with
  | refl => exact start
  | tail _ change ih => exact kept _ _ change ih

theorem Pointed.step (pointed : e.Pointed) {op : Op ram}
    (next : e.step cfg op = some e') : e'.Pointed :=
  micros_induct (micros_step pointed next) pointed fun _ _ change good => good.micro change

/-- A property kept by every elementary change holds along every run. -/
theorem Reaches.induct {ops : List (Op ram)} (reached : Reaches cfg e ops e') (pointed : e.Pointed)
    (start : P e) (kept : ∀ remembered a b, Micro cfg remembered a b → P a → P b) : P e' := by
  have both : P e' ∧ e'.Pointed := by
    induction reached with
    | start => exact ⟨start, pointed⟩
    | step _ next ih =>
      exact ⟨micros_induct (micros_step ih.2 next) ih.1 (kept _), ih.2.step next⟩
  exact both.1

end Engine

/-- The footprint index survives every elementary change. -/
theorem Footprint.Indexed.micro {e e' : Engine ram}
    (indexed : e.footprint.Indexed ram e.blocks) (change : Micro cfg remembered e e') :
    e'.footprint.Indexed ram e'.blocks := by
  have flushed : ∀ {f : Footprint} {blocks : Blocks ram} (dtlb : Dtlb),
      f.Indexed ram blocks → Footprint.Indexed ram { f with dtlb := dtlb } blocks :=
    fun _ indexed => ⟨indexed.nodup, indexed.mem, indexed.marks.slice, indexed.marks.page⟩
  cases change with
  | control | admitSite | remember | prune | fill | linkCell => exact indexed
  | drop => exact Footprint.indexed_empty
  | evict k b live =>
    obtain ⟨links, evicted⟩ := e.evictBlock_eq k b
    rw [evicted]
    exact indexed.erase live
  | stale k b live outdated => exact indexed.erase live
  | sync =>
    unfold Engine.syncGen
    split
    · exact flushed {} indexed
    · exact indexed
  | lose dtlb fewer => exact flushed dtlb indexed
  | fillDtlb bus addr write =>
    obtain ⟨dtlb, eq⟩ := Footprint.fillDtlb_eq cfg.dtlbCodeMask bus e.footprint addr write
    rw [eq]
    exact flushed dtlb indexed
  | file admission b site entry version uncompiled current =>
    unfold Engine.file
    split
    · exact indexed
    · rename_i fresh
      exact indexed.insert fresh b
  | touch k b b' live same code gen =>
    refine indexed.congr fun k' => ?_
    by_cases touched : k' = k
    · subst touched
      rw [live, Engine.lookup_putBlock, Option.map_some, Option.map_some, same.1]
    · rw [Engine.putBlock, AList.lookup_insert_ne touched]
  | publish site k b live owns current =>
    obtain ⟨links, published⟩ := e.publish_eq site b
    rwa [published]

section

variable {e : Engine ram} {ops : List (Op ram)} (reached : (Engine.initial ram).Reaches cfg ops e)
include reached

theorem Engine.Reaches.pointed : e.Pointed :=
  reached.induct (Engine.pointed_initial ram) (Engine.pointed_initial ram)
    fun _ _ _ change good => Engine.Pointed.micro good change

theorem Engine.Reaches.indexed : e.footprint.Indexed ram e.blocks :=
  reached.induct (P := fun e => e.footprint.Indexed ram e.blocks) (Engine.pointed_initial ram)
    Footprint.indexed_empty fun _ _ _ change good => good.micro change

end

/-- In every state reached from an empty engine, whatever operations led there, a
slice of RAM files each key at most once and exactly the keys of the live blocks
with a byte in it, its mask is the union of the sub-slice masks of those blocks,
and a page is flagged exactly when one of its slices is marked. -/
theorem footprint_index_reachable (cfg : Config) {ops : List (Op ram)} {e : Engine ram}
    (reached : (Engine.initial ram).Reaches cfg ops e) :
    (∀ p, p < ram.slices →
      (e.footprint.sliceIndex p).Nodup ∧
      (∀ k, k ∈ e.footprint.sliceIndex p ↔ ∃ b, AList.lookup k e.blocks = some b ∧ b.ir.Meets p) ∧
      e.footprint.pageMap p = Foundation.orAll ((e.footprint.sliceIndex p).map fun k =>
        match AList.lookup k e.blocks with
        | none => 0#8
        | some b => spanMask p b.ir.spanLo (b.ir.spanLo + b.ir.spanLen - 1#32))) ∧
    ∀ q, q < ram.pages →
      (e.footprint.codePage q = true ↔ ∃ p, p / 16 = q ∧ e.footprint.pageMap p ≠ 0#8) := by
  have indexed := reached.indexed
  refine ⟨fun p inRam => ⟨indexed.nodup p inRam, indexed.mem p inRam, ?_⟩, indexed.marks.page⟩
  rw [indexed.marks.slice p inRam]
  congr 1
  refine List.map_congr_left fun k filed => ?_
  obtain ⟨b, live, meets⟩ := (indexed.mem p inRam k).mp filed
  rw [contribution_of_meets live inRam meets, live]

end

namespace Sample

/-- A machine with two pages of RAM. -/
def machine : Ram := ⟨8192, by decide, by decide, fun _ => false⟩

def config : Config := ⟨true, true, 64, 64, 1, 0, true⟩

/-- The first page of RAM, seen at a logical address. -/
def window : CodeWindow machine :=
  { host := 0, base := 0x1000, phys := 0, len := 0x1000, gen := 0, super := true
    long := by decide, short := by decide, logical := by decide, physical := by decide
    inRam := by decide, readOnly := fun _ _ _ _ => rfl }

def site : Site := ⟨0x10FE, true, by decide⟩

/-- Two NOPs on either side of a slice boundary, with the two words after them. -/
def line : Line machine window site :=
  { endReason := .unsafeNext
    instrs := [⟨0x10FE, 0x4E71, 1, .addrCalc⟩, ⟨0x1100, 0x4E71, 1, .addrCalc⟩]
    code := [0x4E71, 0x4E71, 0x4E75, 0x4E71]
    nativePotential := 2
    fits := ⟨by decide, fun _ _ _ => rfl, by decide, by decide⟩ }

def trace : Trace machine window site := ⟨[], none, some line, by decide⟩

def recording : Op machine := .record window site 0x4E71 0 trace

def recorded : Engine machine :=
  (Engine.initial machine).record config window site 0x4E71 0 trace

end Sample

theorem Sample.reaches_recorded :
    (Engine.initial Sample.machine).Reaches Sample.config [Sample.recording] Sample.recorded :=
  .step .start rfl

theorem footprint_index_recorded :
    Sample.recorded.footprint.sliceIndex 0 = [Sample.site.key] ∧
    Sample.recorded.footprint.pageMap 1 = 0x01#8 ∧
    (Sample.recorded.footprint.codePage 0 = true ↔
      ∃ p, p / 16 = 0 ∧ Sample.recorded.footprint.pageMap p ≠ 0#8) :=
  ⟨by decide, by decide,
    (footprint_index_reachable Sample.config Sample.reaches_recorded).2 0 (by decide)⟩

end Pom68k.Jit
