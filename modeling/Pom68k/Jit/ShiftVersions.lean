import Pom68k.Jit.Ir

/-! # Block keys and shift versions

A block is filed under its program counter and privilege level. Four measured
dynamic shifts are the exception: a block that starts on one of them is filed
once per live shift count, under a key that carries the count above the base
key. The version cache remembers which sites are versioned and which counts of
each are live.
-/

namespace Pom68k.Jit

/-- A key of the block map. -/
abbrev Key := BitVec 64

/-- A place where a block can start. The program counter is even: an odd one
raises an address error before the engine is asked for a block. -/
structure Site where
  pc : Addr
  super : Bool
  even : pc.getLsbD 0 = false
deriving DecidableEq

/-- `Engine::key`. -/
def key (pc : Addr) (super : Bool) : Key :=
  pc.setWidth 64 ||| (if super then 1#64 <<< 32 else 0#64)

/-- The key of a site. -/
def Site.key (site : Site) : Key := Jit.key site.pc site.super

theorem getLsbD_key (pc : Addr) (super : Bool) (i : Nat) :
    (key pc super).getLsbD i = (pc.getLsbD i || (super && decide (32 = i))) := by
  have low : (pc.setWidth 64).getLsbD i = pc.getLsbD i := by
    by_cases wide : i < 64
    · simp [wide]
    · simp [BitVec.getLsbD_of_ge pc i (by omega)]
  unfold key
  rw [BitVec.getLsbD_or, low]
  cases super with
  | false => simp
  | true =>
    rw [if_pos rfl, ← BitVec.twoPow_eq]
    simp

/-- The key determines the site. -/
theorem key_inj {pc pc' : Addr} {super super' : Bool} (same : key pc super = key pc' super') :
    pc = pc' ∧ super = super' := by
  have bits : ∀ i, (pc.getLsbD i || (super && decide (32 = i))) =
      (pc'.getLsbD i || (super' && decide (32 = i))) := by
    intro i
    rw [← getLsbD_key, ← getLsbD_key, same]
  constructor
  · apply BitVec.eq_of_getLsbD_eq
    intro i bound
    have bit := bits i
    have other : ¬ 32 = i := by omega
    simpa [other] using bit
  · have bit := bits 32
    simpa using bit

namespace ShiftVersionCache

/-- `ShiftVersionCache::kFlag`. -/
def kFlag : Key := 1#64 <<< 33

/-- `ShiftVersionCache::kMaxPerSite`. -/
def kMaxPerSite : Nat := 32

/-- `ShiftVersionCache::versionKey`. -/
def versionKey (base : Key) (count : Nat) : Key := base ||| kFlag ||| (BitVec.ofNat 64 count <<< 34)

/-- `ShiftVersionCache::isVersionKey`. -/
def isVersionKey (blockKey : Key) : Bool := blockKey &&& kFlag ≠ 0#64

/-- `ShiftVersionCache::baseKey`. -/
def baseKey (blockKey : Key) : Key := blockKey &&& (kFlag - 1#64)

/-- `ShiftVersionCache::versionFromKey`. -/
def versionFromKey (blockKey : Key) : Nat := ((blockKey >>> 34) &&& 31#64).toNat

theorem getLsbD_kFlag (i : Nat) : kFlag.getLsbD i = decide (33 = i) := by
  unfold kFlag
  rw [← BitVec.twoPow_eq]
  simp

theorem isVersionKey_eq (blockKey : Key) : isVersionKey blockKey = blockKey.getLsbD 33 := by
  unfold isVersionKey
  rw [Bool.eq_iff_iff, decide_eq_true_eq, Foundation.ne_zero_iff_getLsbD]
  constructor
  · rintro ⟨i, set⟩
    rw [BitVec.getLsbD_and, getLsbD_kFlag] at set
    simp only [Bool.and_eq_true, decide_eq_true_eq] at set
    exact set.2 ▸ set.1
  · intro set
    exact ⟨33, by rw [BitVec.getLsbD_and, set]; rfl⟩

/-- The key of a site is not a version key. -/
theorem isVersionKey_key (pc : Addr) (super : Bool) : isVersionKey (key pc super) = false := by
  rw [isVersionKey_eq, getLsbD_key]
  simp

theorem isVersionKey_versionKey (base : Key) (count : Nat) :
    isVersionKey (versionKey base count) = true := by
  rw [isVersionKey_eq]
  unfold versionKey
  rw [BitVec.getLsbD_or, BitVec.getLsbD_or, getLsbD_kFlag]
  simp

/-- `ShiftVersionCache::Admission`. A version is the live count of a versioned
block; the source writes `0xFF` where this has none. -/
structure Admission where
  baseKey : Key
  cacheKey : Key
  version : Option (Fin 32)
  versioned : Bool
  accepted : Bool
deriving Repr, DecidableEq

end ShiftVersionCache

/-- `isMultiVersionShiftOpcode`. -/
def isMultiVersionShiftOpcode (op : Word) : Bool :=
  op = 0xE0A9 ∨ op = 0xE2AB ∨ op = 0xE4A4 ∨ op = 0xE2AA

/-- `kMaxMultiVersionShiftCount`. -/
def kMaxMultiVersionShiftCount : Nat := 31

/-- The number of counts set in a mask, `std::popcount`. -/
def popcount (mask : BitVec 32) : Nat := (List.range 32).countP fun i => mask.getLsbD i

/-- `ShiftVersionCache`. The mask of a site with no live version is erased by the
source and is zero here. -/
structure ShiftVersionCache where
  masks : Key → BitVec 32 := fun _ => 0#32
  sites : Key → Bool := fun _ => false

namespace ShiftVersionCache

/-- `ShiftVersionCache::knows`. -/
def knows (c : ShiftVersionCache) (base : Key) : Bool := c.sites base

/-- `ShiftVersionCache::remember`. -/
def remember (c : ShiftVersionCache) (base : Key) : ShiftVersionCache :=
  { c with sites := Function.update c.sites base true }

/-- `ShiftVersionCache::select`. -/
def select (base : Key) (count : Nat) : Key :=
  if count > kMaxMultiVersionShiftCount then base else versionKey base count

/-- `ShiftVersionCache::admit`. The count is absent where the source passes a
negative one. -/
def admitKey (c : ShiftVersionCache) (base : Key) (count : Option Nat) (enabled : Bool) :
    Admission × ShiftVersionCache :=
  match enabled, count with
  | false, _ => (⟨base, base, none, false, true⟩, c)
  | true, none => (⟨base, base, none, true, true⟩, c.remember base)
  | true, some count =>
    if small : count ≤ kMaxMultiVersionShiftCount then
      if (c.masks base).getLsbD count = false ∧ kMaxPerSite ≤ popcount (c.masks base) then
        (⟨base, base, none, true, false⟩, c.remember base)
      else
        (⟨base, versionKey base count, some ⟨count, Nat.lt_succ_of_le small⟩, true, true⟩,
          c.remember base)
    else (⟨base, base, none, true, true⟩, c.remember base)

/-- `ShiftVersionCache::commit`. -/
def commit (c : ShiftVersionCache) (admission : Admission) : ShiftVersionCache :=
  match admission.version with
  | none => c
  | some version =>
    let mask := c.masks admission.baseKey ||| (1#32 <<< version.val)
    { c with masks := Function.update c.masks admission.baseKey mask }

/-- `ShiftVersionCache::forget`. -/
def forget (c : ShiftVersionCache) (blockKey : Key) : ShiftVersionCache :=
  if isVersionKey blockKey then
    let base := baseKey blockKey
    let mask := c.masks base &&& ~~~(1#32 <<< versionFromKey blockKey)
    { c with masks := Function.update c.masks base mask }
  else c

/-- `ShiftVersionCache::prune`. -/
def prune (c : ShiftVersionCache) (blockKey : Key) (baseBlockAlive : Bool) : ShiftVersionCache :=
  let base := baseKey blockKey
  if c.masks base = 0#32 ∧ baseBlockAlive = false then
    { c with sites := Function.update c.sites base false }
  else c

/-- `ShiftVersionCache::clear`. -/
def clear (_ : ShiftVersionCache) : ShiftVersionCache := {}

/-- The key is the base key, or that of a version of it. -/
def Admission.For (admission : Admission) (base : Key) : Prop :=
  admission.version = none ∧ admission.cacheKey = base ∨
    ∃ version : Fin 32, admission.version = some version ∧
      admission.cacheKey = versionKey base version

variable (c : ShiftVersionCache)

theorem admitKey_cases (base : Key) (count : Option Nat) (enabled : Bool) :
    (c.admitKey base count enabled).1.baseKey = base ∧
      (c.admitKey base count enabled).1.For base := by
  unfold admitKey
  split
  · exact ⟨rfl, Or.inl ⟨rfl, rfl⟩⟩
  · exact ⟨rfl, Or.inl ⟨rfl, rfl⟩⟩
  · split
    · split
      · exact ⟨rfl, Or.inl ⟨rfl, rfl⟩⟩
      · exact ⟨rfl, Or.inr ⟨_, rfl, rfl⟩⟩
    · exact ⟨rfl, Or.inl ⟨rfl, rfl⟩⟩

/-- Admission remembers the site when the entry is versioned, and no other. -/
theorem admitKey_sites (base : Key) (count : Option Nat) (enabled : Bool) :
    (c.admitKey base count enabled).2.sites =
      if enabled then Function.update c.sites base true else c.sites := by
  unfold admitKey
  split
  · rfl
  · rfl
  · split
    · split <;> rfl
    · rfl

@[simp] theorem commit_sites (admission : Admission) :
    (c.commit admission).sites = c.sites := by
  unfold commit
  split <;> rfl

@[simp] theorem forget_sites (blockKey : Key) :
    (c.forget blockKey).sites = c.sites := by
  unfold forget
  split <;> rfl

/-- Pruning only forgets sites. -/
theorem sites_of_prune {c : ShiftVersionCache} {blockKey base : Key} {alive : Bool}
    (known : (c.prune blockKey alive).sites base = true) : c.sites base = true := by
  unfold prune at known
  dsimp only at known
  split at known
  · by_cases same : base = baseKey blockKey
    · subst same
      simp at known
    · simpa [Function.update_of_ne same] using known
  · exact known

end ShiftVersionCache

end Pom68k.Jit
