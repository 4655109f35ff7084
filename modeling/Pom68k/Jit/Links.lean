import Pom68k.Jit.Reachable

/-! # No dangling links

An entry of the link table is a raw address of generated code. It is only safe
to jump through because every path that lets a block go retracts its link
first, and because a change of generation clears the whole table: a block found
stale afterwards is erased without being retracted.
-/

namespace Pom68k.Jit

section

variable {ram : Ram} {cfg : Config} {remembered : Option Site}

/-- The block at a site is live, compiled to code that starts at an entry point, and
proved under a generation. -/
def LinkTarget (blocks : Blocks ram) (gen : Generation) (site : Site) (entry : EntryPoint) :
    Prop :=
  ∃ b code, AList.lookup site.key blocks = some b ∧ b.code = some code ∧
    code.linkEntry = some entry ∧ b.gen = gen

variable {b : Block ram} {blocks : Blocks ram} {site : Site} {k : Key} {e : Engine ram}
  {entry : EntryPoint}

section

variable (keyed : blocks.Keyed)
include keyed

/-- A block under a plain key is the unversioned block of that key's site. -/
theorem Blocks.Keyed.plain (live : AList.lookup site.key blocks = some b) :
    b.shiftVersion = none ∧ b.ir.entryPc = site.pc ∧ b.ir.super = site.super := by
  obtain ⟨site', entry, privilege, plain | versioned⟩ := keyed site.key b live
  · obtain rfl := Site.key_inj plain.2
    exact ⟨plain.1, entry, privilege⟩
  · obtain ⟨version, _, same⟩ := versioned
    have flag := ShiftVersionCache.isVersionKey_versionKey site'.key version
    rw [← same] at flag
    have clear := ShiftVersionCache.isVersionKey_key site.pc site.super
    cases clear.symm.trans flag

/-- A key a site owns that holds an unversioned block is the site's own. -/
theorem Blocks.Keyed.owned (live : AList.lookup k blocks = some b)
    (owns : site.Owns k) (unversioned : b.shiftVersion = none) : k = site.key := by
  rcases owns with plain | ⟨count, versioned⟩
  · exact plain
  obtain ⟨site', _, _, plain | other⟩ := keyed k b live
  · have flag := ShiftVersionCache.isVersionKey_versionKey site.key count
    have clear := ShiftVersionCache.isVersionKey_key site'.pc site'.super
    rw [← versioned, plain.2] at flag
    cases clear.symm.trans flag
  · obtain ⟨version, some, _⟩ := other
    rw [unversioned] at some
    cases some

theorem Blocks.Keyed.erase (gone : Key) : Blocks.Keyed (AList.erase gone blocks) := by
  intro k b live
  exact keyed k b (Blocks.live_erase.mp live).2

theorem Blocks.Keyed.insert
    (here : ∃ site : Site, b.ir.entryPc = site.pc ∧ b.ir.super = site.super ∧
      (b.shiftVersion = none ∧ k = site.key ∨
        ∃ version : Fin 32, b.shiftVersion = some version ∧
          k = ShiftVersionCache.versionKey site.key version)) :
    Blocks.Keyed (AList.insert k b blocks) := by
  intro k' b' live
  rcases Blocks.live_insert.mp live with ⟨rfl, rfl⟩ | ⟨_, old⟩
  · exact here
  · exact keyed k' b' old

end

/-- Every elementary change keeps each block under a key of the site it was traced
from. -/
theorem Blocks.Keyed.micro {e' : Engine ram} (keyed : e.blocks.Keyed)
    (change : Micro cfg remembered e e') : e'.blocks.Keyed := by
  cases change with
  | control | lose | fillDtlb | admitSite | remember | prune | fill | linkCell => exact keyed
  | drop =>
    intro k b live
    cases live
  | evict k b live =>
    obtain ⟨links, evicted⟩ := e.evictBlock_eq k b
    rw [evicted]
    exact keyed.erase k
  | stale k b live outdated => exact keyed.erase k
  | sync =>
    rwa [Engine.syncGen_blocks]
  | file admission b site entry version uncompiled current =>
    unfold Engine.file
    split
    · exact keyed
    · exact keyed.insert ⟨site, entry.1, entry.2, version⟩
  | touch k b b' live same code gen =>
    obtain ⟨site, entry, privilege, filed⟩ := keyed k b live
    refine keyed.insert ⟨site, ?_, ?_, ?_⟩
    · rwa [same.1]
    · rwa [same.1]
    · rwa [same.2.2]
  | publish site k b live owns current =>
    obtain ⟨links, published⟩ := e.publish_eq site b
    rwa [published]

/-- The links of an engine lead to blocks that may be jumped to. -/
structure Engine.Linked (e : Engine ram) : Prop where
  keyed : e.blocks.Keyed
  links : e.links.Sound (LinkTarget e.blocks e.blocksGen)

theorem LinkTarget.erase {gen : Generation}
    (target : LinkTarget blocks gen site entry)
    (other : site.key ≠ k) : LinkTarget (AList.erase k blocks) gen site entry := by
  obtain ⟨b, code, live, compiled, start, current⟩ := target
  exact ⟨b, code, Blocks.live_erase.mpr ⟨other, live⟩, compiled, start, current⟩

/-- An evicted block was retracted if any link led to it. -/
theorem Engine.Linked.evictBlock (linked : e.Linked) (live : AList.lookup k e.blocks = some b) :
    (e.evictBlock k b).links.Sound
      (LinkTarget (e.evictBlock k b).blocks (e.evictBlock k b).blocksGen) := by
  have unretracted : ∀ site entry, (b.code.isSome && b.shiftVersion.isNone) = false →
      LinkTarget e.blocks e.blocksGen site entry → site.key ≠ k := by
    rintro site entry kept ⟨b', code, here, compiled, _⟩ rfl
    have plain := linked.keyed.plain live
    rw [live] at here
    cases here
    rw [compiled, plain.1] at kept
    cases kept
  unfold Engine.evictBlock Engine.unlist Engine.retract
  by_cases published : b.code.isSome && b.shiftVersion.isNone
  · rw [if_pos published]
    have unversioned : b.shiftVersion = none := by
      rw [Bool.and_eq_true] at published
      exact Option.isNone_iff_eq_none.mp published.2
    obtain ⟨gone, counter, privilege, plain | versioned⟩ := linked.keyed k b live
    · rw [counter, privilege]
      refine (linked.links.retractLink gone).mono fun site entry good => good.1.erase ?_
      rw [plain.2]
      exact fun same => good.2 (Site.key_inj same)
    · obtain ⟨version, some, _⟩ := versioned
      rw [unversioned] at some
      cases some
  · rw [if_neg published]
    exact linked.links.mono fun site entry good =>
      good.erase (unretracted site entry (Bool.eq_false_iff.mpr published) good)

theorem Engine.linkTarget_sound (target : e.linkTarget site = some entry) :
    LinkTarget e.blocks e.blocksGen site entry := by
  unfold Engine.linkTarget at target
  split at target
  · cases target
  rename_i b live
  split at target
  · cases target
  rename_i code compiled
  split at target
  · rename_i current
    exact ⟨b, code, live, compiled, target, current⟩
  · cases target

/-- Every elementary change keeps the links leading to blocks that may be jumped
to. -/
theorem Engine.Linked.micro {e' : Engine ram} (linked : e.Linked)
    (change : Micro cfg remembered e e') : e'.Linked := by
  refine ⟨linked.keyed.micro change, ?_⟩
  cases change with
  | control | lose | fillDtlb | admitSite | remember | prune | fill => exact linked.links
  | drop => exact linked.links.clearLinks _
  | evict k b live => exact linked.evictBlock live
  | stale k b live outdated =>
    -- The stale branch does not retract: only blocks of the current generation
    -- are linked, and this one is not.
    refine linked.links.mono fun site entry good => good.erase ?_
    rintro rfl
    obtain ⟨b', code, here, _, _, current⟩ := good
    rw [live] at here
    cases here
    exact outdated current
  | sync =>
    unfold Engine.syncGen
    split
    · exact linked.links.clearLinks _
    · exact linked.links
  | file admission b site entry version uncompiled current =>
    unfold Engine.file
    split
    · exact linked.links
    · rename_i fresh
      refine linked.links.mono fun site' entry' good => ?_
      obtain ⟨b', code, live, rest⟩ := good
      exact ⟨b', code, Blocks.live_insert_of_fresh fresh live, rest⟩
  | touch k b b' live same code gen =>
    refine linked.links.mono fun site entry good => ?_
    obtain ⟨old, compiled, here, held, start, current⟩ := good
    by_cases touched : site.key = k
    · subst touched
      rw [live] at here
      cases here
      refine ⟨b', compiled, Engine.lookup_putBlock e site.key b', ?_, start, ?_⟩
      · rcases code with kept | none
        · rwa [kept]
        · rw [none] at held
          cases held
      · rcases gen with kept | proved
        · rwa [kept]
        · exact proved
    · exact ⟨old, compiled, Blocks.live_insert.mpr (Or.inr ⟨touched, here⟩), held, start, current⟩
  | publish site k b live owns current =>
    unfold Engine.publish
    split
    · exact linked.links
    rename_i code compiled
    split
    · rename_i entry unversioned start
      obtain rfl := linked.keyed.owned live owns unversioned
      exact linked.links.publishLink ⟨b, code, live, compiled, start, current⟩
    · exact linked.links
  | linkCell site =>
    exact linked.links.linkCell site fun entry target => Engine.linkTarget_sound target

theorem Engine.linked_initial (ram : Ram) : (Engine.initial ram).Linked := by
  refine ⟨fun k b live => ?_, LinkTable.sound_empty _⟩
  cases live

theorem Engine.Reaches.linked {ops : List (Op ram)}
    (reached : (Engine.initial ram).Reaches cfg ops e) : e.Linked :=
  reached.induct (Engine.pointed_initial ram) (Engine.linked_initial ram)
    fun _ _ _ change good => Engine.Linked.micro good change

/-- In every reachable state each bound slot and each bound cell leads to the entry
point of a block that is live under the site the slot or cell stands for,
compiled, unversioned, recorded for that program counter and privilege level and
proved under the generation of the cache; and clearing the links leaves no slot
and no cell bound. -/
theorem links_reachable (cfg : Config) {ops : List (Op ram)} {e : Engine ram}
    (reached : (Engine.initial ram).Reaches cfg ops e) :
    (∀ i entry, (e.links.slots i).entry = some entry → ∃ (site : Site) (b : Block ram),
      (e.links.slots i).tag = linkTag site.pc site.super ∧ i = linkIndex site.pc ∧
      AList.lookup site.key e.blocks = some b ∧ b.code.bind Compiled.linkEntry = some entry ∧
      b.shiftVersion = none ∧ b.ir.entryPc = site.pc ∧ b.ir.super = site.super ∧
      b.gen = e.blocksGen) ∧
    (∀ k cell entry, e.links.cells k = some cell → cell.entry = some entry →
      ∃ (site : Site) (b : Block ram), k = site.key ∧
        AList.lookup site.key e.blocks = some b ∧ b.code.bind Compiled.linkEntry = some entry ∧
        b.shiftVersion = none ∧ b.ir.entryPc = site.pc ∧ b.ir.super = site.super ∧
        b.gen = e.blocksGen) ∧
    (∀ i, (e.links.clearLinks.slots i).entry = none) ∧
    ∀ k cell, e.links.clearLinks.cells k = some cell → cell.entry = none := by
  have linked := reached.linked
  have described : ∀ {site entry}, LinkTarget e.blocks e.blocksGen site entry →
      ∃ b, AList.lookup site.key e.blocks = some b ∧
        b.code.bind Compiled.linkEntry = some entry ∧ b.shiftVersion = none ∧
        b.ir.entryPc = site.pc ∧ b.ir.super = site.super ∧ b.gen = e.blocksGen := by
    rintro site entry ⟨b, code, live, compiled, start, current⟩
    obtain ⟨unversioned, counter, privilege⟩ := linked.keyed.plain live
    refine ⟨b, live, ?_, unversioned, counter, privilege, current⟩
    rw [compiled, Option.bind_some, start]
  obtain ⟨slots, cells⟩ := linked.links.clearLinks_unbound
  refine ⟨fun i entry held => ?_, fun k cell entry present held => ?_, fun i => ?_,
    fun k cell present => ?_⟩
  · obtain ⟨site, tagged, here, target⟩ := linked.links.slot i entry held
    obtain ⟨b, rest⟩ := described target
    exact ⟨site, b, tagged, here, rest⟩
  · obtain ⟨site, keyed, target⟩ := linked.links.cell k cell entry present held
    obtain ⟨b, rest⟩ := described target
    exact ⟨site, b, keyed, rest⟩
  · rw [slots i]
  · rw [cells k cell present]

end

namespace Sample

/-- The recorded block comes round again and is compiled. -/
def turn : Turn machine :=
  { window := window, site := site, opcode := 0x4E71, count := 0, trace := trace
    answer := ⟨true, false, some ⟨some 0xC0DE⟩, false, [site]⟩
    cacheMatches := true, events := [] }

def compiled : Engine machine := recorded.syncGen.findOrRecord config turn

end Sample

theorem links_compiled :
    (Sample.compiled.links.slots (linkIndex Sample.site.pc)).entry = some 0xC0DE ∧
    ∃ (site : Site) (b : Block Sample.machine),
      AList.lookup site.key Sample.compiled.blocks = some b ∧ b.gen = 0 := by
  have reached : (Engine.initial Sample.machine).Reaches Sample.config
      [Sample.recording, .dispatch Sample.turn] Sample.compiled :=
    .step Sample.reaches_recorded rfl
  have bound : (Sample.compiled.links.slots (linkIndex Sample.site.pc)).entry = some 0xC0DE := by
    decide
  obtain ⟨site, b, _, _, live, _, _, _, _, current⟩ :=
    (links_reachable Sample.config reached).1 _ _ bound
  exact ⟨bound, site, b, live, current⟩

end Pom68k.Jit
