import Mathlib.Data.BitVec
import Mathlib.Order.Interval.Finset.Nat
import Pom68k.Foundation.Runs

/-! # Allocation blocks of an HFS volume

A run of free blocks is looked for from the roving pointer to the end of the volume, and
then from its start to the pointer. Neither pass sees a run that lies across the pointer.
-/

namespace Pom68k.Hfs

open Foundation

/-! ## The bitmap -/

def used (bitmap : List (BitVec 8)) (b : Nat) : Bool :=
  bitmap.getD (b / 8) 0#8 &&& 0x80#8 >>> (b % 8) ≠ 0#8

def mark (bitmap : List (BitVec 8)) (b : Nat) : List (BitVec 8) :=
  bitmap.modify (b / 8) (· ||| 0x80#8 >>> (b % 8))

/-- The bits of a run of blocks are set, one after the other. -/
def markRun (bitmap : List (BitVec 8)) (first count : Nat) : List (BitVec 8) :=
  (List.range count).foldl (fun bitmap i => mark bitmap (first + i)) bitmap

variable {bitmap : List (BitVec 8)} {b c first count : Nat}

theorem used_mark (inside : b / 8 < bitmap.length) :
    used (mark bitmap b) c = true ↔ b = c ∨ used bitmap c = true := by
  have masks : ∀ i j : Fin 8, 0x80#8 >>> i.1 &&& 0x80#8 >>> j.1 ≠ 0#8 ↔ i = j := by decide
  have mask := masks ⟨b % 8, Nat.mod_lt _ (by decide)⟩ ⟨c % 8, Nat.mod_lt _ (by decide)⟩
  rw [Fin.mk.injEq] at mask
  simp only [used, mark, List.getD_eq_getElem?_getD, List.getElem?_modify, decide_eq_true_eq]
  by_cases byte : b / 8 = c / 8
  · have same : b = c ↔ b % 8 = c % 8 := by omega
    rw [same, ← mask, ← byte, List.getElem?_eq_getElem inside]
    simp only [if_true, Option.map_eq_map, Option.map_some, Option.getD_some,
      BitVec.and_or_distrib_right]
    rw [ne_eq, BitVec.or_eq_zero_iff, not_and_or, or_comm]
  · have apart : b ≠ c := fun same => byte (by rw [same])
    simp [byte, apart]

theorem markRun_succ :
    markRun bitmap first (count + 1) = mark (markRun bitmap first count) (first + count) := by
  rw [markRun, List.range_succ, List.foldl_append]
  rfl

theorem length_markRun : (markRun bitmap first count).length = bitmap.length := by
  induction count with
  | zero => rfl
  | succ count ih => rw [markRun_succ, mark, List.length_modify, ih]

theorem used_markRun (inside : first + count ≤ 8 * bitmap.length) :
    used (markRun bitmap first count) c = true ↔
      used bitmap c = true ∨ first ≤ c ∧ c < first + count := by
  induction count with
  | zero =>
    have none : ¬ (first ≤ c ∧ c < first + 0) := by omega
    rw [or_iff_left none]
    rfl
  | succ count ih =>
    rw [markRun_succ, used_mark (by rw [length_markRun]; omega), ih (by omega), or_left_comm]
    refine or_congr_right ?_
    omega

/-! ## One pass -/

/-- All blocks of a range are free. -/
def Free (bitmap : List (BitVec 8)) (first count : Nat) : Prop :=
  ∀ b, first ≤ b → b < first + count → used bitmap b = false

/-- The blocks from one on, with the number of free ones in front of it. -/
def pass (bitmap : List (BitVec 8)) (count : Nat) : (left b run : Nat) → Option Nat
  | 0, _, _ => none
  | left + 1, b, run =>
    let run := if used bitmap b then 0 else run + 1
    if run = count then some (b + 1 - count) else pass bitmap count left (b + 1) run

/-- The result is a free run among the blocks of a range, or there is none. -/
def Finds (bitmap : List (BitVec 8)) (count lo hi : Nat) : Option Nat → Prop
  | some first => lo ≤ first ∧ first + count ≤ hi ∧ Free bitmap first count
  | none => ∀ s, lo ≤ s → s + count ≤ hi → ¬ Free bitmap s count

/-- The induction carries that the last `run` blocks are free, and that no free run starts
before them. -/
theorem pass_spec {lo left run : Nat} (room : lo + run ≤ b) (short : run < count)
    (free : ∀ c, b ≤ c + run → c < b → used bitmap c = false)
    (blocked : ∀ s, lo ≤ s → s + run < b → ¬ Free bitmap s count) :
    Finds bitmap count lo (b + left) (pass bitmap count left b run) := by
  induction left generalizing b run with
  | zero => exact fun s low high => blocked s low (by omega)
  | succ left ih =>
    rw [pass, Nat.add_comm left 1, ← Nat.add_assoc]
    cases here : used bitmap b with
    | true =>
      have more : ¬ 0 = count := by omega
      simp only [if_true, more]
      refine ih (by omega) (by omega) (fun c after before => by omega) fun s low before isFree => ?_
      by_cases early : s + run < b
      · exact blocked s low early isFree
      · cases here.symm.trans (isFree b (by omega) (by omega))
    | false =>
      have free' : ∀ c, b + 1 ≤ c + (run + 1) → c < b + 1 → used bitmap c = false := by
        intro c after before
        rcases Nat.lt_succ_iff_lt_or_eq.mp before with earlier | rfl
        · exact free c (by omega) earlier
        · exact here
      simp only [Bool.false_eq_true, if_false]
      split_ifs with full
      · exact ⟨by omega, by omega, fun c after before => free' c (by omega) (by omega)⟩
      · exact ih (by omega) (by omega) free' fun s low before => blocked s low (by omega)

theorem finds_pass (positive : count ≠ 0) (lo left : Nat) :
    Finds bitmap count lo (lo + left) (pass bitmap count left lo 0) :=
  pass_spec (by omega) (by omega) (fun c after before => by omega) fun s low before => by omega

/-! ## Allocation -/

/-- The bitmap of a volume, whole sectors of it, and the words of the MDB that an
allocation reads and writes. -/
structure Volume where
  bitmap : List (BitVec 8)
  nmAlBlks : BitVec 16
  drAllocPtr : BitVec 16
  drFreeBks : BitVec 16
  bitmapDirty : Bool := false
  size : bitmap.length = (nmAlBlks.toNat + 4095) / 4096 * 512

namespace Volume

variable (v : Volume)

/-- Where the search starts. -/
def start : Nat := if v.drAllocPtr.toNat < v.nmAlBlks.toNat then v.drAllocPtr.toNat else 0

/-- The volume with a run of blocks taken. -/
def take (first count : Nat) : Volume where
  bitmap := markRun v.bitmap first count
  nmAlBlks := v.nmAlBlks
  drAllocPtr := if first + count < v.nmAlBlks.toNat then BitVec.ofNat 16 (first + count) else 0#16
  drFreeBks := v.drFreeBks - BitVec.ofNat 16 count
  bitmapDirty := true
  size := length_markRun.trans v.size

/-- `allocBlocks`, with the volume it leaves. -/
def allocBlocks (count : Nat) : Except String Nat × Volume :=
  if count = 0 then (.ok 0, v)
  else
    match (pass v.bitmap count (v.nmAlBlks.toNat - v.start) v.start 0).or
        (pass v.bitmap count v.start 0 0) with
    | some first => (.ok first, v.take first count)
    | none => (.error s!"no contiguous run of {count} free allocation blocks", v)

/-- A run of free blocks of the volume. -/
def Run (first count : Nat) : Prop := first + count ≤ v.nmAlBlks.toNat ∧ Free v.bitmap first count

/-- Blocks are taken that were free: just their bits are set, and they are counted off. -/
structure Takes (first count : Nat) (next : Volume) : Prop where
  run : v.Run first count
  blocks : next.nmAlBlks = v.nmAlBlks
  freeBks : next.drFreeBks = v.drFreeBks - BitVec.ofNat 16 count
  used_iff (b : Nat) : used next.bitmap b = true ↔
    used v.bitmap b = true ∨ first ≤ b ∧ b < first + count

/-- An allocation takes a run; it fails only if there is none, and then changes nothing. -/
def Allocates (count : Nat) : Prop :=
  match v.allocBlocks count with
  | (.ok first, next) => v.Takes first count next
  | (.error _, next) => (∀ first, ¬ v.Run first count) ∧ next = v

theorem takes_zero : v.Takes 0 0 v where
  run := ⟨Nat.zero_le _, fun b _ below => absurd below (Nat.not_lt_zero b)⟩
  blocks := rfl
  freeBks := (BitVec.sub_zero _).symm
  used_iff b := by simp

theorem takes_take (run : v.Run first count) : v.Takes first count (v.take first count) := by
  refine ⟨run, rfl, rfl, fun b => used_markRun ?_⟩
  have inside := run.1
  have size := v.size
  omega

/-- What both passes together do. -/
theorem allocBlocks_cases (count : Nat) :
    (∃ first next, v.allocBlocks count = (.ok first, next) ∧ v.Takes first count next ∧
      (first + count ≤ v.start ∨ v.start ≤ first)) ∨
    (∃ why, v.allocBlocks count = (.error why, v)) ∧
      ∀ first, v.Run first count → first < v.start ∧ v.start < first + count := by
  by_cases none : count = 0
  · subst none
    exact .inl ⟨0, v, rfl, v.takes_zero, .inl (Nat.zero_le _)⟩
  have within : v.start ≤ v.nmAlBlks.toNat := by rw [start]; split <;> omega
  have upper : Finds v.bitmap .. := finds_pass none v.start (v.nmAlBlks.toNat - v.start)
  have lower : Finds v.bitmap .. := finds_pass none 0 v.start
  rw [allocBlocks, if_neg none]
  cases above : pass v.bitmap count (v.nmAlBlks.toNat - v.start) v.start 0 with
  | some first =>
    rw [above] at upper
    obtain ⟨low, high, free⟩ := upper
    exact .inl ⟨first, _, rfl, v.takes_take ⟨by omega, free⟩, .inr low⟩
  | none =>
    rw [above] at upper
    cases below : pass v.bitmap count v.start 0 0 with
    | some first =>
      rw [below] at lower
      obtain ⟨low, high, free⟩ := lower
      exact .inl ⟨first, _, rfl, v.takes_take ⟨by omega, free⟩, .inl (by omega)⟩
    | none =>
      rw [below] at lower
      refine .inr ⟨⟨_, rfl⟩, fun first run => ⟨?_, ?_⟩⟩ <;> by_contra aside
      · exact upper first (by omega) (by have := run.1; omega) run.2
      · exact lower first (by omega) (by omega) run.2

/-- An allocation does what it should exactly if, where there is a free run, there is one
that does not lie across the pointer. -/
theorem allocates_iff (count : Nat) :
    v.Allocates count ↔ ((∃ first, v.Run first count) →
      ∃ first, v.Run first count ∧ (first + count ≤ v.start ∨ v.start ≤ first)) := by
  rw [Allocates]
  rcases v.allocBlocks_cases count with
    ⟨first, next, taken, takes, aside⟩ | ⟨⟨why, failed⟩, across⟩
  · rw [taken]
    exact iff_of_true takes fun _ => ⟨first, takes.run, aside⟩
  · rw [failed]
    constructor
    · rintro ⟨none, _⟩ ⟨first, run⟩
      exact absurd run (none first)
    · refine fun held => ⟨fun first run => ?_, rfl⟩
      obtain ⟨other, run', aside⟩ := held ⟨first, run⟩
      have crossing := across other run'
      omega

/-- A volume of two free blocks, with the pointer at the second. -/
def Sample.free : Volume where
  bitmap := List.replicate 512 0#8
  nmAlBlks := 2#16
  drAllocPtr := 1#16
  drFreeBks := 2#16
  size := List.length_replicate

/-- Both blocks are free, and no run of two is found. -/
theorem run_across_pointer : Sample.free.Run 0 2 ∧ ¬ Sample.free.Allocates 2 := by
  have bits : ∀ b < 2, used Sample.free.bitmap b = false := by decide +kernel
  have free : Sample.free.Run 0 2 := ⟨by decide, fun b _ => bits b⟩
  have start : Sample.free.start = 1 := rfl
  refine ⟨free, ?_⟩
  rcases Sample.free.allocBlocks_cases 2 with
    ⟨first, _, _, ⟨⟨inside, _⟩, _, _, _⟩, aside⟩ | ⟨⟨why, failed⟩, _⟩
  · change first + 2 ≤ 2 at inside
    omega
  · exact fun allocates => allocates.1 0 free

/-! ## Allocations one after the other -/

/-- The blocks that are free. -/
def unused : Finset Nat := {b ∈ Finset.range v.nmAlBlks.toNat | used v.bitmap b = false}

theorem Takes.unused {v next : Volume} (takes : v.Takes first count next) :
    Finset.Ico first (first + count) ⊆ v.unused ∧
      next.unused = v.unused \ Finset.Ico first (first + count) := by
  refine ⟨fun b among => ?_, ?_⟩
  · have inside := takes.run.1
    obtain ⟨low, high⟩ := Finset.mem_Ico.mp among
    exact Finset.mem_filter.mpr ⟨Finset.mem_range.mpr (by omega), takes.run.2 b low high⟩
  · ext b
    simp [Volume.unused, takes.blocks, ← Bool.not_eq_true, takes.used_iff, and_assoc]

/-- The blocks that each of a sequence of allocations gives out. -/
def given (v : Volume) : List Nat → List (Finset Nat)
  | [] => []
  | count :: rest =>
    match v.allocBlocks count with
    | (.ok first, next) => Finset.Ico first (first + count) :: next.given rest
    | (.error _, next) => next.given rest

/-- Over any sequence of allocations no block is given out twice, and none that was in use. -/
theorem given_disjoint (counts : List Nat) :
    (v.given counts).Pairwise Disjoint ∧ ∀ blocks ∈ v.given counts, blocks ⊆ v.unused := by
  induction counts generalizing v with
  | nil => exact ⟨.nil, List.forall_mem_nil _⟩
  | cons count rest ih =>
    rw [given]
    rcases v.allocBlocks_cases count with ⟨first, next, taken, takes, _⟩ | ⟨⟨why, failed⟩, _⟩
    · rw [taken]
      obtain ⟨apart, free⟩ := ih next
      obtain ⟨inside, left⟩ := takes.unused
      rw [left] at free
      exact ⟨.cons (fun later there => Finset.disjoint_sdiff.mono_right (free later there)) apart,
        List.forall_mem_cons.mpr
          ⟨inside, fun later there => (free later there).trans Finset.sdiff_subset⟩⟩
    · rw [failed]
      exact ih v

/-- How far the count of free blocks that the volume keeps is from their number. -/
def miscount : BitVec 16 := v.drFreeBks - BitVec.ofNat 16 v.unused.card

/-- No sequence of allocations makes the count of free blocks wrong. -/
theorem miscount_run (counts : List Nat) :
    (run (fun v count => (v.allocBlocks count).2) v counts).miscount = v.miscount := by
  refine run_invariant (I := fun w : Volume => w.miscount = v.miscount) ?_ rfl counts
  intro w count kept
  rw [← kept]
  rcases w.allocBlocks_cases count with ⟨first, next, taken, takes, _⟩ | ⟨⟨why, failed⟩, _⟩
  · obtain ⟨inside, left⟩ := takes.unused
    have number := Finset.card_sdiff_add_card_eq_card inside
    rw [Nat.card_Ico, Nat.add_sub_cancel_left, ← left] at number
    rw [taken, miscount, miscount, takes.freeBks, ← number, BitVec.ofNat_add]
    grind
  · rw [failed]

end Volume

end Pom68k.Hfs
