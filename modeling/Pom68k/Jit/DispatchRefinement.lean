import Pom68k.Jit.Reachable

/-! # The dispatch cache and the block map

A lookup in the dispatch cache answers with a live block of the key that was
asked for, under the generation that was asked for, and at a site that is not
versioned. Two things stand in the way. The empty slot is encoded as key zero
with a null pointer, and key zero is the legal key of program counter zero in
user mode, so a lookup of that key in an empty slot passes the key test and
reads through the null pointer. And a trace that stops in front of a versioned
shift remembers its site without evicting the site's slot, as the admission of
a versioned entry does.
-/

namespace Pom68k.Jit

section

variable {ram : Ram} {cfg : Config} {remembered : Option Site} {e : Engine ram} {d : DispatchCache}
  {ops : List (Op ram)}

/-- A lookup answers as the block map does: a hit is the live block of the site under
the generation, at an unversioned site, and nothing is read through a null or
dangling pointer. -/
def Engine.LookupRefines (e : Engine ram) (site : Site) (gen : Generation) : Prop :=
  match e.dispatchCache.lookup e.blocks site.key gen with
  | .fault => False
  | .hit ptr => ∃ b, AList.lookup site.key e.blocks = some b ∧ ptr = ⟨site.key, b.node⟩ ∧
      b.gen = gen ∧ e.shiftVersions.knows site.key = false
  | .miss => True
  | .genMiss => True

/-- The slot of a key holds a block for that key. -/
def DispatchCache.Held (d : DispatchCache) (k : Key) : Prop :=
  ∃ ptr, d.entries (d.slot k) = ⟨k, some ptr⟩

/-- Filled slots belong to sites that are not versioned, and none belongs to the site
the surrounding operation may remember. -/
structure Engine.Unversioned (e : Engine ram) (remembered : Option Site) : Prop where
  slots : e.dispatchCache.Sound fun k _ => e.shiftVersions.knows k = false
  unheld : ∀ site, remembered = some site → ¬ e.dispatchCache.Held site.key

/-- No slot of a sound cache is filled for a key that is not held. -/
theorem DispatchCache.Sound.of_unheld {good : Key → BlockPtr → Prop} (sound : d.Sound good)
    {k : Key} (unheld : ¬ d.Held k) : d.Sound fun k' ptr => good k' ptr ∧ k' ≠ k := by
  refine ⟨sound.empty, fun i ptr held => ?_⟩
  obtain ⟨here, plain, target⟩ := sound.filled i ptr held
  refine ⟨here, plain, target, fun same => unheld ⟨ptr, ?_⟩⟩
  rw [same] at here
  rw [← here]
  cases entry : d.entries i
  rw [entry] at same held
  simp only at same held
  rw [same, held]

theorem DispatchCache.Held.of_evict {gone k : Key} (held : (d.evict gone).Held k) : d.Held k := by
  obtain ⟨ptr, entry⟩ := held
  unfold DispatchCache.evict at entry
  split at entry
  · exact ⟨ptr, entry⟩
  split at entry
  · refine ⟨ptr, ?_⟩
    change Function.update d.entries (d.slot gone) {} (d.slot k) = _ at entry
    by_cases here : d.slot k = d.slot gone
    · rw [here, Function.update_self] at entry
      cases entry
    · rwa [Function.update_of_ne here] at entry
  · exact ⟨ptr, entry⟩

theorem Engine.Unversioned.unlist (unversioned : e.Unversioned remembered) (k : Key)
    (ir : BlockIr) : (e.unlist k ir).Unversioned remembered where
  slots := (unversioned.slots.evict k).mono fun k' _ _ good => by
    -- Erasing a block only ever forgets sites.
    by_contra known
    have still := ShiftVersionCache.sites_of_prune (Bool.not_eq_false _ |>.mp known)
    rw [ShiftVersionCache.forget_sites] at still
    cases good.1.symm.trans still
  unheld := fun site found held => unversioned.unheld site found held.of_evict

theorem Engine.Unversioned.admitSite (unversioned : e.Unversioned remembered) (site : Site)
    (opcode : Word) (count : Nat) :
    (e.admitSite cfg site opcode count).2.Unversioned remembered := by
  have sites := e.shiftVersions.admitKey_sites site.key
    (if cfg.nativeCode && isMultiVersionShiftOpcode opcode then some count else none)
    (cfg.nativeCode && isMultiVersionShiftOpcode opcode)
  unfold Engine.admitSite
  dsimp only
  split
  · rename_i versioned
    refine ⟨(unversioned.slots.evict site.key).mono fun k _ _ good => ?_, fun site found held =>
      unversioned.unheld site found held.of_evict⟩
    unfold ShiftVersionCache.knows
    simp only [versioned, ↓reduceIte] at sites ⊢
    rw [sites, Function.update_of_ne good.2]
    exact good.1
  · rename_i plain
    refine ⟨unversioned.slots.mono fun k _ _ good => ?_, unversioned.unheld⟩
    simp only [plain] at sites ⊢
    unfold ShiftVersionCache.knows
    exact good

variable {e' : Engine ram}

/-- Elementary changes keep filled slots unversioned. The one that remembers a site
is where the site must not be held. -/
theorem Engine.Unversioned.micro (unversioned : e.Unversioned remembered)
    (change : Micro cfg remembered e e') : e'.Unversioned remembered := by
  have cleared : ∀ d : DispatchCache, ∀ k, ¬ d.clear.Held k := by
    rintro d k ⟨ptr, entry⟩
    cases entry
  cases change with
  | control | lose | fillDtlb | touch | linkCell => exact ⟨unversioned.slots, unversioned.unheld⟩
  | drop => exact ⟨DispatchCache.sound_clear _ _, fun site _ => cleared _ site.key⟩
  | evict k b live =>
    obtain ⟨links, evicted⟩ := e.evictBlock_eq k b
    have unlisted := unversioned.unlist k b.ir
    rw [evicted]
    exact ⟨unlisted.slots, unlisted.unheld⟩
  | stale k b live outdated => exact unversioned.unlist k b.ir
  | sync =>
    unfold Engine.syncGen
    split
    · exact ⟨unversioned.slots, unversioned.unheld⟩
    · exact unversioned
  | admitSite site opcode count => exact unversioned.admitSite site opcode count
  | remember site found =>
    have other := unversioned.slots.of_unheld (unversioned.unheld site found)
    refine ⟨other.mono fun k _ _ good => ?_, unversioned.unheld⟩
    unfold ShiftVersionCache.knows ShiftVersionCache.remember
    dsimp only
    rw [Function.update_of_ne good.2]
    exact good.1
  | prune k alive =>
    refine ⟨unversioned.slots.mono fun k' _ _ good => ?_, unversioned.unheld⟩
    by_contra known
    have still := ShiftVersionCache.sites_of_prune (Bool.not_eq_false _ |>.mp known)
    cases good.symm.trans still
  | file admission b site entry version uncompiled current =>
    unfold Engine.file
    split
    · exact unversioned
    · refine ⟨unversioned.slots.mono fun k _ _ good => ?_, unversioned.unheld⟩
      unfold ShiftVersionCache.knows
      rwa [ShiftVersionCache.commit_sites]
  | fill site b live unknown other =>
    refine ⟨unversioned.slots.fill (ShiftVersionCache.isVersionKey_key site.pc site.super)
      unknown, fun site' found held => ?_⟩
    obtain ⟨ptr, entry⟩ := held
    change Function.update e.dispatchCache.entries (e.dispatchCache.slot site.key) _
      (e.dispatchCache.slot site'.key) = _ at entry
    by_cases here : e.dispatchCache.slot site'.key = e.dispatchCache.slot site.key
    · rw [here, Function.update_self, DispatchEntry.mk.injEq] at entry
      obtain rfl := Site.key_inj entry.1
      exact other found
    · rw [Function.update_of_ne here] at entry
      exact unversioned.unheld site' found ⟨ptr, entry⟩
  | publish site k b live owns current =>
    obtain ⟨links, published⟩ := e.publish_eq site b
    rw [published]
    exact ⟨unversioned.slots, unversioned.unheld⟩

/-- A run in which no trace remembers a versioned shift whose dispatch slot is
filled. -/
inductive Engine.ReachesUnheld (cfg : Config) (e : Engine ram) :
    List (Op ram) → Engine ram → Prop
  | start : ReachesUnheld cfg e [] e
  | step {ops : List (Op ram)} {e' e'' : Engine ram} {op : Op ram} :
      ReachesUnheld cfg e ops e' →
      (∀ site, op.remembered = some site → ¬ e'.dispatchCache.Held site.key) →
      e'.step cfg op = some e'' → ReachesUnheld cfg e (ops ++ [op]) e''

theorem Engine.ReachesUnheld.reaches (reached : e.ReachesUnheld cfg ops e') :
    e.Reaches cfg ops e' := by
  induction reached with
  | start => exact .start
  | step _ _ next ih => exact .step ih next

theorem Engine.ReachesUnheld.slots (reached : (Engine.initial ram).ReachesUnheld cfg ops e) :
    e.dispatchCache.Sound fun k _ => e.shiftVersions.knows k = false := by
  induction reached with
  | start => exact (Engine.pointed_initial ram).mono fun _ _ _ _ => rfl
  | step before unheld next ih =>
    exact (micros_induct (micros_step before.reaches.pointed next) ⟨ih, unheld⟩
      fun _ _ change good => Engine.Unversioned.micro good change).slots

/-- In every state of a run in which no trace remembers a held shift, a lookup
answers as the block map does exactly when it does not ask for key zero in an
empty slot. -/
theorem dispatch_refines_iff {cfg : Config} {ops : List (Op ram)} {e : Engine ram}
    (reached : (Engine.initial ram).ReachesUnheld cfg ops e) (site : Site) (gen : Generation) :
    e.LookupRefines site gen ↔
      ¬ (site.key = 0#64 ∧
        (e.dispatchCache.entries (e.dispatchCache.slot site.key)).block = none) := by
  have pointed := reached.reaches.pointed
  have slots := reached.slots
  unfold Engine.LookupRefines DispatchCache.lookup
  dsimp only
  cases held : (e.dispatchCache.entries (e.dispatchCache.slot site.key)).block with
  | none =>
    rw [pointed.empty _ held]
    by_cases zero : site.key = 0#64
    · simp [zero]
    · simp [zero, Ne.symm zero]
  | some ptr =>
    obtain ⟨_, _, keyed, b, live, node⟩ := pointed.filled _ ptr held
    have unknown := (slots.filled _ ptr held).2.2
    refine iff_of_true ?_ (fun both => by cases both.2)
    by_cases same : (e.dispatchCache.entries (e.dispatchCache.slot site.key)).key = site.key
    · rw [same] at keyed live unknown
      have deref : e.blocks.deref ptr = some b := Blocks.deref_eq_some.mpr ⟨keyed ▸ live, node⟩
      rw [if_neg (not_not.mpr same)]
      dsimp only
      rw [deref]
      dsimp only
      by_cases current : b.gen = gen
      · rw [if_neg (not_not.mpr current)]
        refine ⟨b, live, ?_, current, unknown⟩
        rw [← keyed, node]
      · rw [if_pos current]
        trivial
    · rw [if_pos same]
      trivial

end

theorem dispatch_refines_recorded : Sample.recorded.LookupRefines Sample.site 0 :=
  (dispatch_refines_iff (.step .start (fun _ none => by cases none)
    (show (Engine.initial Sample.machine).step Sample.config Sample.recording =
      some Sample.recorded from rfl)) Sample.site 0).mpr (by decide)

/-- On an engine that was just constructed, the lookup of program counter zero in
user mode passes the key test of an empty slot and reads the generation of a
block through the null pointer. -/
theorem lookup_zero_faults :
    (Engine.initial Sample.machine).dispatchCache.lookup (Engine.initial Sample.machine).blocks
      (⟨0#32, false, rfl⟩ : Site).key 0 = .fault ∧
    ¬ (Engine.initial Sample.machine).LookupRefines ⟨0#32, false, rfl⟩ 0 := by
  have fault : (Engine.initial Sample.machine).dispatchCache.lookup
      (Engine.initial Sample.machine).blocks (⟨0#32, false, rfl⟩ : Site).key 0 = .fault := by
    decide
  refine ⟨fault, fun refines => ?_⟩
  unfold Engine.LookupRefines at refines
  exact refines

end Pom68k.Jit
