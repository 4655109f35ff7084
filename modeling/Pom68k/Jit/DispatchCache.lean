import Pom68k.Jit.Block

/-! # The dispatch cache

A direct-mapped table in front of the block map. A slot holds the key it was
filled with and a raw pointer to the block; an empty slot holds key zero and a
null pointer. A lookup compares the key first and then reads the generation of
the block through the pointer.
-/

namespace Pom68k.Jit

/-- `DispatchCache::Entry`. -/
structure DispatchEntry where
  key : Key := 0#64
  block : Option BlockPtr := none
deriving Repr, DecidableEq

/-- `DispatchCache`: its table and the mask of its index. -/
structure DispatchCache where
  mask : Addr
  entries : Nat → DispatchEntry

/-- What a lookup does. A fault is a read through a null or dangling pointer. -/
inductive Lookup where
  | miss
  | genMiss
  | hit (block : BlockPtr)
  | fault
deriving Repr, DecidableEq

namespace DispatchCache

variable {ram : Ram}

/-- `DispatchCache::resize`. A size that is not a power of two of at least 4096 is
refused and the previous table kept. -/
def resize (d : DispatchCache) (slots : Addr) : DispatchCache :=
  if slots < 4096#32 ∨ slots &&& (slots - 1#32) ≠ 0#32 then d
  else { mask := slots - 1#32, entries := fun _ => {} }

/-- `DispatchCache::index`. -/
def index (d : DispatchCache) (pc : Addr) (super : Bool) : Nat :=
  (((pc >>> 1) ^^^ ((if super then 1#32 else 0#32) <<< 11)) &&& d.mask).toNat

/-- The index of `DispatchCache::slot`. -/
def slot (d : DispatchCache) (plainKey : Key) : Nat :=
  d.index (plainKey.setWidth 32) ((plainKey >>> 32) &&& 1#64 ≠ 0#64)

/-- `DispatchCache::lookup`. -/
def lookup (d : DispatchCache) (blocks : Blocks ram) (plainKey : Key) (gen : Generation) :
    Lookup :=
  let e := d.entries (d.slot plainKey)
  if e.key ≠ plainKey then .miss
  else
    match e.block with
    | none => .fault
    | some ptr =>
      match blocks.deref ptr with
      | none => .fault
      | some b => if b.gen ≠ gen then .genMiss else .hit ptr

/-- `DispatchCache::fill`. -/
def fill (d : DispatchCache) (plainKey : Key) (block : BlockPtr) : DispatchCache :=
  { d with entries := Function.update d.entries (d.slot plainKey) ⟨plainKey, some block⟩ }

/-- `DispatchCache::evict`. -/
def evict (d : DispatchCache) (blockKey : Key) : DispatchCache :=
  if ShiftVersionCache.isVersionKey blockKey then d
  else if (d.entries (d.slot blockKey)).key = blockKey then
    { d with entries := Function.update d.entries (d.slot blockKey) {} }
  else d

/-- `DispatchCache::clear`. -/
def clear (d : DispatchCache) : DispatchCache := { d with entries := fun _ => {} }

/-- Every filled slot is the slot of its key and satisfies `good` of its key and
its pointer, and every empty slot is the empty entry. -/
structure Sound (d : DispatchCache) (good : Key → BlockPtr → Prop) : Prop where
  empty : ∀ i, (d.entries i).block = none → d.entries i = {}
  filled : ∀ i ptr, (d.entries i).block = some ptr →
    i = d.slot (d.entries i).key ∧ ShiftVersionCache.isVersionKey (d.entries i).key = false ∧
      good (d.entries i).key ptr

variable {d : DispatchCache} {good : Key → BlockPtr → Prop}

theorem Sound.mono {better : Key → BlockPtr → Prop} (sound : d.Sound good)
    (weaken : ∀ k ptr, ShiftVersionCache.isVersionKey k = false → good k ptr → better k ptr) :
    d.Sound better :=
  ⟨sound.empty, fun i ptr held =>
    ⟨(sound.filled i ptr held).1, (sound.filled i ptr held).2.1,
      weaken _ _ (sound.filled i ptr held).2.1 (sound.filled i ptr held).2.2⟩⟩

theorem sound_clear (d : DispatchCache) (good : Key → BlockPtr → Prop) : d.clear.Sound good :=
  ⟨fun _ _ => rfl, fun _ _ held => by cases held⟩

theorem Sound.fill (sound : d.Sound good)
    {k : Key} {ptr : BlockPtr} (plain : ShiftVersionCache.isVersionKey k = false)
    (target : good k ptr) : (d.fill k ptr).Sound good := by
  constructor
  · intro i none
    by_cases same : i = d.slot k
    · subst same
      simp [DispatchCache.fill] at none
    · simp only [DispatchCache.fill, Function.update_of_ne same] at none ⊢
      exact sound.empty i none
  · intro i held holds
    by_cases same : i = d.slot k
    · subst same
      simp only [DispatchCache.fill, Function.update_self, Option.some.injEq] at holds ⊢
      subst holds
      exact ⟨rfl, plain, target⟩
    · simp only [DispatchCache.fill, Function.update_of_ne same] at holds ⊢
      exact sound.filled i held holds

/-- Evicting a plain key leaves no slot that holds it; evicting a version key
changes nothing, and no slot held it. -/
theorem Sound.evict (sound : d.Sound good)
    (k : Key) : (d.evict k).Sound (fun k' ptr => good k' ptr ∧ k' ≠ k) := by
  unfold DispatchCache.evict
  split
  · rename_i versioned
    refine ⟨sound.empty, fun i ptr held => ?_⟩
    obtain ⟨here, plain, target⟩ := sound.filled i ptr held
    refine ⟨here, plain, target, ?_⟩
    intro same
    rw [same, versioned] at plain
    cases plain
  · split
    · constructor
      · intro i none
        by_cases same : i = d.slot k
        · subst same
          simp
        · simp only [Function.update_of_ne same] at none ⊢
          exact sound.empty i none
      · intro i ptr held
        by_cases same : i = d.slot k
        · subst same
          simp at held
        · simp only [Function.update_of_ne same] at held ⊢
          obtain ⟨here, plain, target⟩ := sound.filled i ptr held
          refine ⟨here, plain, target, ?_⟩
          intro eq
          rw [eq] at here
          exact same here
    · rename_i absent
      refine ⟨sound.empty, fun i ptr held => ?_⟩
      obtain ⟨here, plain, target⟩ := sound.filled i ptr held
      refine ⟨here, plain, target, ?_⟩
      intro eq
      rw [eq] at here
      rw [here] at eq
      exact absent eq

end DispatchCache

end Pom68k.Jit
