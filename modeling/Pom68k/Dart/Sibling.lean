import Pom68k.Dart.Lzh
import Mathlib.Algebra.BigOperators.Intervals
import Mathlib.Logic.Equiv.Basic

/-! # The tree keeps its order

The frequencies of the positions never decrease with the index, the tables of children and
parents say the same, and the frequency above a pair is the sum of the pair. A symbol is
counted from its position up to the root. On the way all of this holds but for one
position, whose frequency is one less than the sum below it; it is the next one to grow.
-/

namespace Pom68k.Dart

open Foundation

theorem kRoot_lt : kRoot < kNodes := by decide

namespace Tree

variable {t t' : Tree} {x o n p : Nat}

/-- The frequency at a position. -/
def f (t : Tree) (i : Nat) : Nat := t.frequency.cell i

/-- The left one of the pair below a position, or the symbol there. -/
def c (t : Tree) (i : Nat) : Nat := t.child.cell i

/-- The position above an index. -/
def up (t : Tree) (i : Nat) : Nat := t.parent.cell i

/-- The tables of children and parents say the same, and what is below a position has a
smaller index. -/
structure Shape (t : Tree) : Prop where
  below : ∀ n ≤ kRoot, (t.c n % 2 = 0 ∧ t.c n + 1 < n) ∨
    (kNodes ≤ t.c n ∧ t.c n < kNodes + kSymbols)
  up_child : ∀ n ≤ kRoot, t.up (t.c n) = n
  up_sibling : ∀ n ≤ kRoot, t.c n < kNodes → t.up (t.c n + 1) = n
  pair_placed : ∀ p < kRoot, ∃ n ≤ kRoot, t.c n = p - p % 2
  symbol_placed : ∀ s < kSymbols, ∃ n ≤ kRoot, t.c n = s + kNodes
  up_root : t.up kRoot = 0

/-- The tree with one position still to grow; `kNodes` if there is none. -/
structure Pending (t : Tree) (x : Nat) : Prop extends Shape t where
  ordered : ∀ i < kRoot, t.f i ≤ t.f (i + 1)
  positive : ∀ i ≤ kRoot, 1 ≤ t.f i
  sum : ∀ n ≤ kRoot, t.c n < kNodes → t.f (t.c n) + t.f (t.c n + 1) = t.f n + if n = x then 1 else 0
  sentinel : t.f kNodes = kSentinel
  bounded : t.f kRoot < kSentinel

/-- The tree between two symbols. -/
def Valid (t : Tree) : Prop := t.Pending kNodes

theorem Pending.monotone (pending : t.Pending x) {i j : Nat} (before : i ≤ j) (inside : j ≤ kRoot) :
    t.f i ≤ t.f j := by
  induction j with
  | zero => rw [Nat.le_zero.mp before]
  | succ j ih =>
    rcases Nat.lt_or_ge i (j + 1) with less | same
    · exact (ih (by omega) (by omega)).trans (pending.ordered j (by omega))
    · rw [show i = j + 1 by omega]

/-- A smaller frequency has a smaller index. -/
theorem Pending.lt_of_lt (pending : t.Pending x) {i j : Nat} (inside : i ≤ kRoot)
    (less : t.f i < t.f j) : i < j := by
  by_contra back
  exact absurd (pending.monotone (Nat.not_lt.mp back) inside) (Nat.not_le.mpr less)

/-- An index is what stands below a position, or the second of the pair. -/
def Held (a p : Nat) : Prop := p = a ∨ a < kNodes ∧ p = a + 1

instance (a p : Nat) : Decidable (Held a p) := inferInstanceAs (Decidable (_ ∨ _))

/-- An index is below one position only. -/
theorem Shape.held_up (shape : t.Shape) (inside : n ≤ kRoot) (held : Held (t.c n) p) :
    t.up p = n := by
  rcases held with rfl | ⟨pair, rfl⟩
  · exact shape.up_child n inside
  · exact shape.up_sibling n inside pair

/-- The position above an index is the one that has it below. -/
theorem Shape.child_up (shape : t.Shape) (inside : p < kRoot) :
    t.up p ≤ kRoot ∧ t.c (t.up p) = p - p % 2 := by
  obtain ⟨n, place, same⟩ := shape.pair_placed p inside
  have small := kRoot_lt
  have held : Held (t.c n) p := by
    unfold Held
    omega
  rw [shape.held_up place held]
  exact ⟨place, same⟩

theorem Shape.pair (shape : t.Shape) (inside : n ≤ kRoot) (pair : t.c n < kNodes) :
    t.c n % 2 = 0 ∧ t.c n + 1 < n :=
  (shape.below n inside).resolve_right fun symbol => absurd symbol.1 (Nat.not_le.mpr pair)

theorem Shape.lt_up (shape : t.Shape) (inside : p < kRoot) : p < t.up p := by
  obtain ⟨place, same⟩ := shape.child_up inside
  have less := (shape.pair place (by have := kRoot_lt; omega)).2
  omega

/-- Above an index, the frequency is at least one more. -/
theorem Pending.f_lt_up (pending : t.Pending x) (inside : p < kRoot) (other : t.up p ≠ x) :
    t.f p < t.f (t.up p) := by
  obtain ⟨place, same⟩ := pending.child_up inside
  have total := pending.sum _ place (by have := kRoot_lt; omega)
  rw [if_neg other, same] at total
  have left := pending.positive (p - p % 2) (by omega)
  have right := pending.positive (p - p % 2 + 1) (by omega)
  rcases Nat.mod_two_eq_zero_or_one p with even | odd
  · rw [even, Nat.sub_zero] at total right
    omega
  · rw [odd] at total left
    rw [show p - 1 + 1 = p by omega] at total
    omega

/-! ## One position grows -/

/-- A position grows in the place of the last one of its frequency. -/
structure Moved (t t' : Tree) (x o : Nat) : Prop where
  frequency : ∀ i ≤ kNodes, t'.f i = if i = o then t.f o + 1 else t.f i
  child : ∀ n ≤ kRoot, t'.c n = t.c (Equiv.swap x o n)
  up_child : ∀ n ≤ kRoot, t'.up (t'.c n) = n
  up_sibling : ∀ n ≤ kRoot, t'.c n < kNodes → t'.up (t'.c n + 1) = n
  up_root : t'.up kRoot = 0

/-- The place a position grows in: behind it, of the same frequency, and the last of it. -/
structure Place (t : Tree) (x o : Nat) : Prop where
  behind : x ≤ o
  inside : o ≤ kRoot
  same : t.f o = t.f x
  last : t.f o < t.f (o + 1)

theorem swap_le (start : x ≤ kRoot) (place : o ≤ kRoot) (inside : n ≤ kRoot) :
    Equiv.swap x o n ≤ kRoot := by
  rw [Equiv.swap_apply_def]
  split_ifs <;> assumption

/-- What is below the other position fits below the one that grows. -/
theorem Pending.below_place (pending : t.Pending x) (place : Place t x o) (differ : o ≠ x)
    (pair : t.c o < kNodes) : t.c o + 1 < x := by
  have total := pending.sum o place.inside pair
  rw [if_neg differ, place.same] at total
  have inside := place.inside
  have less := (pending.pair inside pair).2
  have left := pending.positive (t.c o) (by omega)
  exact pending.lt_of_lt (by omega) (by omega)

theorem Moved.placed (moved : Moved t t' x o) (start : x ≤ kRoot) (place : o ≤ kRoot) {a : Nat}
    (there : ∃ n ≤ kRoot, t.c n = a) : ∃ n ≤ kRoot, t'.c n = a := by
  obtain ⟨n, inside, same⟩ := there
  have stays := swap_le start place inside
  exact ⟨Equiv.swap x o n, stays, by rw [moved.child _ stays, Equiv.swap_apply_self, same]⟩

theorem Pending.shape_moved (pending : t.Pending x) (start : x ≤ kRoot) (place : Place t x o)
    (moved : Moved t t' x o) : t'.Shape where
  below n inside := by
    rw [moved.child n inside, Equiv.swap_apply_def]
    split_ifs with first second
    · subst first
      -- the other position's pair is below the one that grows
      rcases eq_or_ne o n with rfl | differ
      · exact pending.below o inside
      · rcases pending.below o place.inside with ⟨even, less⟩ | symbol
        · have small := place.inside
          exact .inl ⟨even, pending.below_place place differ (by have := kRoot_lt; omega)⟩
        · exact .inr symbol
    · have behind := place.behind
      rcases pending.below x start with ⟨even, less⟩ | symbol
      · exact .inl ⟨even, by omega⟩
      · exact .inr symbol
    · exact pending.below n inside
  up_child := moved.up_child
  up_sibling := moved.up_sibling
  pair_placed p inside := moved.placed start place.inside (pending.pair_placed p inside)
  symbol_placed s inside := moved.placed start place.inside (pending.symbol_placed s inside)
  up_root := moved.up_root

/-- The position to grow next. -/
def nextUp (t : Tree) (o : Nat) : Nat := if o = kRoot then kNodes else t.up o

/-- The frequency grows by one in one place, and keeps the order. -/
theorem Pending.ordered_moved (pending : t.Pending x) (place : Place t x o)
    (moved : Moved t t' x o) {i : Nat} (inside : i < kRoot) : t'.f i ≤ t'.f (i + 1) := by
  have step := pending.ordered i inside
  have small := kRoot_lt
  rw [moved.frequency i (by omega), moved.frequency (i + 1) (by omega)]
  have last := place.last
  split_ifs with first second second
  · omega
  · subst first
    omega
  · subst second
    omega
  · exact step

theorem Pending.sum_moved (pending : t.Pending x) (start : x ≤ kRoot) (place : Place t x o)
    (moved : Moved t t' x o) (inside : n ≤ kRoot) (pair : t'.c n < kNodes) :
    t'.f (t'.c n) + t'.f (t'.c n + 1) = t'.f n + if n = t'.nextUp o then 1 else 0 := by
  have shape := pending.shape_moved start place moved
  have small := kRoot_lt
  have last := place.inside
  have behind := place.behind
  -- the pair of a position is below it, so it grows with the pair only above `o`
  obtain ⟨even, less⟩ := shape.pair inside pair
  have left := moved.frequency (t'.c n) (by omega)
  have right := moved.frequency (t'.c n + 1) (by omega)
  have self := moved.frequency n (by omega)
  by_cases above : t'.c n = o ∨ t'.c n + 1 = o
  · have held : Held (t'.c n) o := by
      unfold Held
      omega
    have next : n = t'.nextUp o := by rw [nextUp, if_neg (by omega), shape.held_up inside held]
    rw [if_pos next]
    have old : t'.c n = t.c n := by
      rw [moved.child n inside, Equiv.swap_apply_of_ne_of_ne (by omega) (by omega)]
    have total := pending.sum n inside (by omega)
    rw [if_neg (by omega), ← old] at total
    rw [if_neg (by omega)] at self
    rcases above with same | same
    · rw [if_pos same, ← same] at left
      rw [if_neg (by omega)] at right
      omega
    · rw [if_neg (by omega)] at left
      rw [if_pos same, ← same] at right
      omega
  · have next : n ≠ t'.nextUp o := by
      intro next
      rw [nextUp] at next
      split_ifs at next with root
      · omega
      · obtain ⟨-, same⟩ := shape.child_up (p := o) (by omega)
        rw [← next] at same
        omega
    rw [left, right]
    -- the position that grew has the other's pair
    have child := moved.child n inside
    have total := pending.sum _ (swap_le start last inside) (child ▸ pair)
    rw [← child] at total
    have same := place.same
    grind

/-- One position grown: the next one is above its new place. -/
theorem Pending.moved (pending : t.Pending x) (start : x ≤ kRoot) (place : Place t x o)
    (moved : Moved t t' x o) (room : t.f kRoot + 1 < kSentinel) : t'.Pending (t'.nextUp o) where
  toShape := pending.shape_moved start place moved
  ordered _ inside := pending.ordered_moved place moved inside
  positive i inside := by
    have before := pending.positive i inside
    rw [moved.frequency i (inside.trans kRoot_lt.le)]
    split_ifs with same
    · omega
    · exact before
  sum _ inside pair := pending.sum_moved start place moved inside pair
  sentinel := by
    rw [moved.frequency kNodes (le_refl _), if_neg (place.inside.trans_lt kRoot_lt).ne']
    exact pending.sentinel
  bounded := by
    have most := pending.monotone place.inside (le_refl _)
    rw [moved.frequency kRoot kRoot_lt.le]
    split_ifs with root
    · omega
    · omega

/-! ## What the tables do -/

/-- The search stops at the last position below the weight. -/
theorem seek_ends {w m : Nat} (stop : w ≤ t.f kNodes) (inside : n ≤ kRoot) (below : t.f n < w)
    (enough : kRoot - n < m) :
    ∃ o, t.seek w m n = .ok o ∧ n ≤ o ∧ o ≤ kRoot ∧ t.f o < w ∧ w ≤ t.f (o + 1) := by
  induction m generalizing n with
  | zero => exact absurd enough (Nat.not_lt_zero _)
  | succ m ih =>
    have next : t.frequency.read (n + 1) = .ok (t.f (n + 1)) :=
      Table.read_inside (Nat.succ_lt_succ (inside.trans_lt kRoot_lt))
    rw [seek, next, Scan.ok_bind]
    split
    next more =>
      have further : n + 1 ≤ kRoot := by
        by_contra outside
        have root : n + 1 = kNodes := congrArg (· + 1) (by omega : n = kRoot)
        rw [root] at more
        omega
      obtain ⟨o, found, behind, rest⟩ := ih further more (by omega)
      exact ⟨o, found, by omega, rest⟩
    next last => exact ⟨n, rfl, le_refl _, inside, below, Nat.not_lt.mp last⟩

theorem adopt_ends {a : Nat} (inside : a < kNodes + kSymbols) (place : Nat) :
    ∃ t', t.adopt a place = .ok t' ∧ t'.frequency = t.frequency ∧ t'.child = t.child ∧
      ∀ p, t'.up p = if Held a p then place else t.up p := by
  have symbols : 2 ≤ kSymbols := by decide
  unfold adopt
  rw [Table.write_bind inside]
  split
  next pair =>
    rw [Table.write_bind (by omega)]
    refine ⟨_, rfl, rfl, rfl, fun p => ?_⟩
    simp only [Held, up]
    grind
  next symbol =>
    refine ⟨_, rfl, rfl, rfl, fun p => ?_⟩
    simp only [Function.update_apply, Held, symbol, false_and, or_false, up]

/-- What two positions that changed places have in the tables. -/
theorem exchange_ends {node other : Nat} (weight : Nat) (inside : node ≤ kRoot)
    (place : other ≤ kRoot) (first : t.c node < kNodes + kSymbols)
    (second : t.c other < kNodes + kSymbols) :
    ∃ t', t.exchange node other weight = .ok t' ∧
      (∀ i, t'.f i = if i = other then weight else if i = node then t.f other else t.f i) ∧
      (∀ n, t'.c n = if n = node then t.c other else if n = other then t.c node else t.c n) ∧
      ∀ p, t'.up p =
        if Held (t.c other) p then node else if Held (t.c node) p then other else t.up p := by
  have small := kRoot_lt
  obtain ⟨t₁, adopted, frequency₁, child₁, up₁⟩ := adopt_ends
    first other
  obtain ⟨t₂, adopted', frequency₂, child₂, up₂⟩ := adopt_ends second node
  have ran : t.exchange node other weight =
      .ok { t₂ with child := ⟨Function.update (Function.update t₂.child.cell other (t.c node))
        node (t.c other)⟩ } := by
    have read {i : Nat} (inside : i ≤ kRoot) : t.child.read i = .ok (t.c i) :=
      Table.read_inside (by omega)
    have frequency : t.frequency.read other = .ok (t.f other) := Table.read_inside (by omega)
    unfold exchange
    rw [frequency, Scan.ok_bind, Table.write_bind (by omega),
      Table.write_bind (by omega), read inside, Scan.ok_bind, read place,
      Scan.ok_bind]
    dsimp only
    rw [adopted, Scan.ok_bind, adopted', Scan.ok_bind, Table.write_bind (by omega), Table.write_bind (by omega)]
    rfl
  refine ⟨_, ran, fun i => ?_, fun n => ?_, fun p => ?_⟩
  · rw [frequency₂, frequency₁]
    simp only [Function.update_apply, f]
  · rw [child₂, child₁]
    simp only [Function.update_apply, c]
  · change t₂.up p = _
    rw [up₂, up₁]
    rfl

theorem Shape.child_lt (shape : t.Shape) (inside : n ≤ kRoot) : t.c n < kNodes + kSymbols := by
  rcases shape.below n inside with ⟨-, less⟩ | ⟨-, less⟩
  · have small := kRoot_lt
    omega
  · exact less

theorem Shape.not_held_root (shape : t.Shape) (inside : n ≤ kRoot) : ¬ Held (t.c n) kRoot := by
  have small := kRoot_lt
  rintro (same | ⟨-, same⟩)
  · rcases shape.below n inside with ⟨-, less⟩ | ⟨symbol, -⟩ <;> omega
  · rcases shape.below n inside with ⟨-, less⟩ | ⟨symbol, -⟩ <;> omega

/-- Where a position and another have changed places, the tables still say the same. -/
theorem Shape.exchanged (shape : t.Shape) (start : x ≤ kRoot) (place : o ≤ kRoot) (differ : x ≠ o)
    (child : ∀ n, t'.c n = if n = x then t.c o else if n = o then t.c x else t.c n)
    (up : ∀ p, t'.up p = if Held (t.c o) p then x else if Held (t.c x) p then o else t.up p)
    (inside : n ≤ kRoot) (held : Held (t'.c n) p) : t'.up p = n := by
  rw [up]
  rw [child] at held
  split_ifs at held with first second
  · rw [if_pos held, first]
  · rw [second] at *
    rw [if_neg, if_pos held]
    intro both
    exact differ ((shape.held_up start held).symm.trans (shape.held_up place both))
  · have above := shape.held_up inside held
    rw [if_neg, if_neg, above]
    · exact fun both => first (above.symm.trans (shape.held_up start both))
    · exact fun both => second (above.symm.trans (shape.held_up place both))

/-- A position grows: its place is the last of its frequency. -/
theorem grow_ends (pending : t.Pending x) (start : x ≤ kRoot) (room : t.f kRoot + 1 < kSentinel) :
    ∃ t' o, t.grow x = .ok (t', o) ∧ Place t x o ∧ Moved t t' x o := by
  have small := kRoot_lt
  have most := pending.monotone start (le_refl _)
  let t₁ : Tree :=
    { t with frequency := ⟨Function.update t.frequency.cell x (t.f x + 1)⟩ }
  have f₁ (i : Nat) : t₁.f i = if i = x then t.f x + 1 else t.f i := by
    change Function.update t.frequency.cell x (t.f x + 1) i = _
    rw [Function.update_apply]
    rfl
  have read : t.frequency.read x = .ok (t.f x) := Table.read_inside (by omega)
  have wrote : t.frequency.write x (t.f x + 1) = .ok t₁.frequency := Table.write_inside (by omega) _
  have next : t₁.frequency.read (x + 1) = .ok (t.f (x + 1)) := by
    rw [Table.read_inside (by omega)]
    change Except.ok (t₁.f (x + 1)) = _
    rw [f₁, if_neg (by omega)]
  unfold grow
  rw [read, Scan.ok_bind]
  dsimp only
  rw [wrote, Scan.ok_bind, next, Scan.ok_bind]
  split
  next less =>
    -- the next position has the same frequency, and it is not the sentinel
    have further : x + 1 ≤ kRoot := by
      by_contra outside
      have root : x = kRoot := by omega
      subst root
      have stop := pending.sentinel
      change t.f (kRoot + 1) = kSentinel at stop
      omega
    obtain ⟨o, found, behind, inside, below, last⟩ := seek_ends (w := t.f x + 1)
      (m := kNodes + 1)
      (by
        have stop := pending.sentinel
        rw [f₁, if_neg (by omega)]
        omega)
      further (by rwa [f₁, if_neg (by omega)]) (by omega)
    rw [f₁, if_neg (by omega)] at below last
    have same : t.f o = t.f x := by
      have least := pending.monotone (show x ≤ o by omega) inside
      omega
    obtain ⟨t', exchanged, frequency, child, up⟩ := exchange_ends (t := t₁) (t.f x + 1)
      start inside (pending.child_lt start) (pending.child_lt inside)
    have held {n p : Nat} (place : n ≤ kRoot) (held : Held (t'.c n) p) : t'.up p = n :=
      pending.exchanged start inside (by omega) child up place held
    refine ⟨t', o, ?_, ⟨by omega, inside, same, by omega⟩, ⟨fun i bound => ?_, fun n place => ?_,
      fun n place => held place (.inl rfl), fun n place pair => held place (.inr ⟨pair, rfl⟩), ?_⟩⟩
    · rw [found, Scan.ok_bind, exchanged]
      rfl
    · rw [frequency, f₁, f₁, if_neg (show o ≠ x by omega)]
      split_ifs with first second
      · omega
      · rw [second, same]
      · rfl
    · rw [child, Equiv.swap_apply_def]
      split_ifs <;> rfl
    · rw [up]
      exact (if_neg (pending.not_held_root inside)).trans
        ((if_neg (pending.not_held_root start)).trans pending.up_root)
  next last =>
    refine ⟨t₁, x, rfl, ⟨le_refl _, start, rfl, by omega⟩, ⟨fun i _ => f₁ i, fun n _ => ?_,
      pending.up_child, pending.up_sibling, pending.up_root⟩⟩
    rw [Equiv.swap_self]
    rfl

/-! ## The way to the root -/

/-- The climb comes to the root, where the count of all symbols grows by one. -/
theorem climb_ends {fuel : Nat} (pending : t.Pending x) (start : x ≤ kRoot)
    (room : t.f kRoot + 1 < kSentinel) (enough : kRoot - x < fuel) :
    ∃ t', climb fuel t x = .ok t' ∧ t'.Valid ∧ t'.f kRoot = t.f kRoot + 1 := by
  induction fuel generalizing t x with
  | zero => exact absurd enough (Nat.not_lt_zero _)
  | succ fuel ih =>
    have small := kRoot_lt
    obtain ⟨t', o, grown, place, moved⟩ := grow_ends pending start room
    have after := pending.moved start place moved room
    have inside := place.inside
    have behind := place.behind
    have above : t'.parent.read o = .ok (t'.up o) :=
      Table.read_inside (Nat.lt_of_lt_of_le (by omega : o < kNodes) (by decide))
    have count := moved.frequency kRoot (by omega)
    rw [climb, grown, Scan.ok_bind]
    dsimp only
    rw [above, Scan.ok_bind]
    rcases eq_or_ne o kRoot with rfl | inner
    · rw [if_pos moved.up_root]
      exact ⟨t', rfl, after, by rw [count, if_pos rfl]⟩
    · have further := after.lt_up (p := o) (by omega)
      rw [nextUp, if_neg inner] at after
      rw [if_neg (by omega)]
      obtain ⟨place', -⟩ := after.child_up (p := o) (by omega)
      rw [if_neg (by omega)] at count
      obtain ⟨t'', climbed, valid, total⟩ := ih after place' (by omega) (by omega)
      exact ⟨t'', climbed, valid, by omega⟩

/-- The position of a symbol is the only one that has nothing below to agree with. -/
theorem Valid.pending_symbol (valid : t.Valid) {s : Nat} (inside : s < kSymbols) :
    t.up (s + kNodes) ≤ kRoot ∧ t.Pending (t.up (s + kNodes)) := by
  obtain ⟨n, place, same⟩ := valid.symbol_placed s inside
  have above : t.up (s + kNodes) = n := by
    rw [← same]
    exact valid.up_child n place
  rw [above]
  refine ⟨place, valid.toShape, valid.ordered, valid.positive, fun m there pair => ?_,
    valid.sentinel, valid.bounded⟩
  have total := valid.sum m there pair
  have small := kRoot_lt
  rw [if_neg (by omega)] at total
  rw [if_neg, total]
  rintro rfl
  omega

/-- A symbol counted. -/
theorem update_ends (valid : t.Valid) {s : Nat} (inside : s < kSymbols)
    (room : t.f kRoot + 1 < kSentinel) :
    ∃ t', t.update s = .ok t' ∧ t'.Valid ∧ t'.f kRoot = t.f kRoot + 1 := by
  obtain ⟨place, pending⟩ := valid.pending_symbol inside
  have small := kRoot_lt
  have above : t.parent.read (s + kNodes) = .ok (t.up (s + kNodes)) := Table.read_inside (by omega)
  unfold update
  rw [above]
  exact climb_ends pending place room (by omega)

/-! ## The first tree -/

/-- The first symbols have their positions. -/
structure Seated (m : Nat) (t : Tree) : Prop where
  frequency : ∀ i < m, t.f i = 1
  child : ∀ i < m, t.c i = i + kNodes
  up : ∀ i < m, t.up (i + kNodes) = i
  up_free : ∀ i < kNodes, t.up i = 0

theorem addSymbol_ends {m : Nat} (inside : m < kSymbols) (seated : Seated m t) :
    ∃ t', t.addSymbol m = .ok t' ∧ Seated (m + 1) t' := by
  have few : kSymbols < kNodes := by decide
  unfold addSymbol
  rw [Table.write_bind (by omega), Table.write_bind (by omega), Table.write_bind (by omega)]
  refine ⟨_, rfl, ?_⟩
  generalize made : (⟨_, _, _⟩ : Tree) = t'
  have f' (i : Nat) : t'.f i = if i = m then 1 else t.f i := by
    rw [← made]
    exact Function.update_apply ..
  have c' (i : Nat) : t'.c i = if i = m then m + kNodes else t.c i := by
    rw [← made]
    exact Function.update_apply ..
  have up' (i : Nat) : t'.up i = if i = m + kNodes then m else t.up i := by
    rw [← made]
    exact Function.update_apply ..
  constructor
  · intro i below
    rw [f']
    split_ifs with same
    · rfl
    · exact seated.frequency i (by omega)
  · intro i below
    rw [c']
    split_ifs with same
    · rw [same]
    · exact seated.child i (by omega)
  · intro i below
    rw [up']
    split_ifs with same
    · omega
    · exact seated.up i (by omega)
  · intro i below
    rw [up', if_neg (by omega)]
    exact seated.up_free i below

/-- The positions above the first pairs are laid out; what has nothing above it yet counts
all the symbols together. -/
structure Paired (k : Nat) (t : Tree) : Prop where
  symbol : ∀ i < kSymbols, t.f i = 1
  symbolChild : ∀ i < kSymbols, t.c i = i + kNodes
  symbolUp : ∀ i < kSymbols, t.up (i + kNodes) = i
  sum : ∀ j < k, t.f (kSymbols + j) = t.f (2 * j) + t.f (2 * j + 1)
  child : ∀ j < k, t.c (kSymbols + j) = 2 * j
  up : ∀ j < k, t.up (2 * j) = kSymbols + j ∧ t.up (2 * j + 1) = kSymbols + j
  up_free : ∀ i < kNodes, 2 * k ≤ i → t.up i = 0
  ordered : ∀ i, i + 1 < kSymbols + k → t.f i ≤ t.f (i + 1)
  total : ∑ i ∈ Finset.Ico (2 * k) (kSymbols + k), t.f i = kSymbols

theorem Seated.paired (seated : Seated kSymbols t) : Paired 0 t where
  symbol := seated.frequency
  symbolChild := seated.child
  symbolUp := seated.up
  sum := by simp
  child := by simp
  up := by simp
  up_free i inside _ := seated.up_free i inside
  ordered i inside := by
    rw [seated.frequency i (by omega), seated.frequency (i + 1) (by omega)]
  total := by
    have ones : ∀ i ∈ Finset.Ico (2 * 0) (kSymbols + 0), t.f i = 1 := fun i inside =>
      seated.frequency i (Finset.mem_Ico.mp inside).2
    rw [Finset.sum_congr rfl ones, ← Finset.card_eq_sum_ones, Nat.card_Ico]
    omega

/-- The frequencies below a position stay as they are when it is laid out. -/
theorem addPair_ends {k : Nat} (inside : k < kRoot + 1 - kSymbols) (paired : Paired k t) :
    ∃ t', t.addPair k = .ok t' ∧ Paired (k + 1) t' := by
  have sizes : kSymbols = 314 ∧ kRoot = 626 ∧ kNodes = 627 := ⟨rfl, rfl, rfl⟩
  have left : t.frequency.read (2 * k) = .ok (t.f (2 * k)) := Table.read_inside (by omega)
  have right : t.frequency.read (2 * k + 1) = .ok (t.f (2 * k + 1)) := Table.read_inside (by omega)
  unfold addPair
  rw [left, Scan.ok_bind, right, Scan.ok_bind, Table.write_bind (by omega),
    Table.write_bind (by omega), Table.write_bind (by omega),
    Table.write_bind (by omega)]
  refine ⟨_, rfl, ?_⟩
  generalize made : (⟨_, _, _⟩ : Tree) = t'
  have f' (i : Nat) : t'.f i =
      if i = kSymbols + k then t.f (2 * k) + t.f (2 * k + 1) else t.f i := by
    rw [← made]
    exact Function.update_apply ..
  have c' (i : Nat) : t'.c i = if i = kSymbols + k then 2 * k else t.c i := by
    rw [← made]
    exact Function.update_apply ..
  have up' (i : Nat) : t'.up i =
      if i = 2 * k then kSymbols + k else if i = 2 * k + 1 then kSymbols + k else t.up i := by
    rw [← made]
    change Function.update (Function.update _ _ _) _ _ _ = _
    rw [Function.update_apply, Function.update_apply]
    rfl
  have before {i : Nat} (below : i < kSymbols + k) : t'.f i = t.f i := by
    rw [f', if_neg (by omega)]
  constructor
  · exact fun i below => (before (by omega)).trans (paired.symbol i below)
  · intro i below
    rw [c', if_neg (by omega)]
    exact paired.symbolChild i below
  · intro i below
    rw [up', if_neg (by omega), if_neg (by omega)]
    exact paired.symbolUp i below
  · intro j below
    rw [before (i := 2 * j) (by omega), before (i := 2 * j + 1) (by omega), f']
    split_ifs with same
    · rw [show j = k by omega]
    · exact paired.sum j (by omega)
  · intro j below
    rw [c']
    split_ifs with same
    · omega
    · exact paired.child j (by omega)
  · intro j below
    rw [up', up']
    rcases Nat.lt_succ_iff_lt_or_eq.mp below with less | rfl
    · rw [if_neg (by omega), if_neg (by omega), if_neg (by omega), if_neg (by omega)]
      exact paired.up j less
    · rw [if_pos rfl, if_neg (by omega), if_pos rfl]
      exact ⟨rfl, rfl⟩
  · intro i small above
    rw [up', if_neg (by omega), if_neg (by omega)]
    exact paired.up_free i small (by omega)
  · intro i below
    rw [before (by omega), f']
    split_ifs with same
    · -- the sum of a pair is at least the sum of the pair before it
      rcases Nat.eq_zero_or_pos k with rfl | later
      · rw [paired.symbol i (by omega), paired.symbol _ (by omega)]
        omega
      · have last := paired.sum (k - 1) (by omega)
        rw [show kSymbols + (k - 1) = i by omega] at last
        have first := paired.ordered (2 * (k - 1)) (by omega)
        have second := paired.ordered (2 * (k - 1) + 1) (by omega)
        have third := paired.ordered (2 * (k - 1) + 2) (by omega)
        rw [show 2 * (k - 1) + 1 + 1 = 2 * k by omega] at second
        rw [show 2 * (k - 1) + 2 = 2 * k by omega] at third
        omega
    · exact paired.ordered i (by omega)
  · have total := paired.total
    rw [Finset.sum_eq_sum_Ico_succ_bot (by omega), Finset.sum_eq_sum_Ico_succ_bot (by omega)]
      at total
    rw [show kSymbols + (k + 1) = kSymbols + k + 1 by omega,
      Finset.sum_Ico_succ_top (by omega), f', if_pos rfl]
    have same : ∀ i ∈ Finset.Ico (2 * (k + 1)) (kSymbols + k), t'.f i = t.f i := fun i there =>
      before (Finset.mem_Ico.mp there).2
    have regroup (a b rest : Nat) : rest + (a + b) = a + (b + rest) := by omega
    rw [Finset.sum_congr rfl same]
    exact (regroup _ _ _).trans total

/-- All positions laid out, and the sentinel behind them. -/
theorem Paired.valid (paired : Paired (kRoot + 1 - kSymbols) t)
    (frequency : ∀ i, t'.f i = if i = kNodes then kSentinel else t.f i) (child : t'.c = t.c)
    (up : t'.up = t.up) : t'.Valid ∧ t'.f kRoot = kSymbols := by
  have sizes : kSymbols = 314 ∧ kRoot = 626 ∧ kNodes = 627 ∧ kSentinel = 65535 :=
    ⟨rfl, rfl, rfl, rfl⟩
  have same {i : Nat} (inside : i ≤ kRoot) : t'.f i = t.f i := by
    rw [frequency, if_neg (by omega)]
  have count : t.f kRoot = kSymbols := by
    have total := paired.total
    rw [show 2 * (kRoot + 1 - kSymbols) = kRoot by omega,
      show kSymbols + (kRoot + 1 - kSymbols) = kRoot + 1 by omega] at total
    rwa [Nat.Ico_succ_singleton] at total
  have ordered {i : Nat} (inside : i < kRoot) : t.f i ≤ t.f (i + 1) := paired.ordered i (by omega)
  have least {i : Nat} (inside : i ≤ kRoot) : 1 ≤ t.f i := by
    induction i with
    | zero => rw [paired.symbol 0 (by omega)]
    | succ i ih => exact (ih (by omega)).trans (ordered (by omega))
  -- a position is that of a symbol, or above one of the pairs
  have cases {n : Nat} (inside : n ≤ kRoot) : (n < kSymbols ∧ t.c n = n + kNodes) ∨
      ∃ j < kRoot + 1 - kSymbols, n = kSymbols + j ∧ t.c n = 2 * j := by
    rcases Nat.lt_or_ge n kSymbols with symbol | above
    · exact .inl ⟨symbol, paired.symbolChild n symbol⟩
    · obtain ⟨j, rfl⟩ := Nat.exists_eq_add_of_le above
      exact .inr ⟨j, by omega, rfl, paired.child j (by omega)⟩
  refine ⟨⟨⟨?_, ?_, ?_, ?_, ?_, ?_⟩, ?_, ?_, ?_, ?_, ?_⟩, (same (le_refl _)).trans count⟩
  · intro n inside
    rw [child]
    rcases cases inside with symbol | ⟨j, pair⟩ <;> omega
  · intro n inside
    rw [child, up]
    rcases cases inside with ⟨symbol, below⟩ | ⟨j, few, rfl, below⟩ <;> rw [below]
    · exact paired.symbolUp n symbol
    · exact (paired.up j few).1
  · intro n inside pair
    rw [child] at pair
    rw [child, up]
    rcases cases inside with symbol | ⟨j, few, rfl, below⟩
    · omega
    · rw [below]
      exact (paired.up j few).2
  · intro p inside
    refine ⟨kSymbols + p / 2, by omega, ?_⟩
    rw [child, paired.child _ (by omega)]
    omega
  · intro s inside
    exact ⟨s, by omega, by rw [child]; exact paired.symbolChild s inside⟩
  · rw [up]
    exact paired.up_free kRoot (by omega) (by omega)
  · intro i inside
    rw [same (by omega), same (by omega)]
    exact ordered inside
  · intro i inside
    rw [same inside]
    exact least inside
  · intro n inside pair
    rw [child] at pair
    rw [child, if_neg (by omega)]
    rcases cases inside with symbol | ⟨j, few, rfl, below⟩
    · omega
    · rw [below, same (by omega), same (by omega), same inside]
      exact (paired.sum j few).symm
  · rw [frequency, if_pos rfl]
  · rw [same (le_refl _)]
    omega

/-- The constructor lays out a tree that counts every symbol once. -/
theorem build_ends : ∃ t, build = .ok t ∧ t.Valid ∧ t.f kRoot = kSymbols := by
  obtain ⟨t₁, symbols, seated⟩ := Scan.foldlM_range
    (s := zero)
    ⟨by simp, by simp, by simp, fun _ _ => rfl⟩
    fun m inside _ seated => addSymbol_ends inside seated
  obtain ⟨t₂, pairs, paired⟩ := Scan.foldlM_range
    seated.paired
    fun k inside _ paired => addPair_ends inside paired
  have wrote : t₂.frequency.write kNodes kSentinel =
      .ok ⟨Function.update t₂.frequency.cell kNodes kSentinel⟩ := Table.write_inside (by decide) _
  have frequency (i : Nat) : Tree.f ⟨⟨Function.update t₂.frequency.cell kNodes kSentinel⟩,
      t₂.parent, t₂.child⟩ i = if i = kNodes then kSentinel else t₂.f i :=
    Function.update_apply ..
  obtain ⟨valid, count⟩ := paired.valid frequency rfl rfl
  refine ⟨_, ?_, valid, count⟩
  unfold build
  rw [symbols, Scan.ok_bind, pairs, Scan.ok_bind, wrote]
  rfl

/-! ## Positions that change places -/

/-- The positions above an index, up to the root. -/
inductive Above (t : Tree) : Nat → Nat → Prop where
  | next {p : Nat} (inside : p < kRoot) : Above t (t.up p) p
  | further {n p : Nat} (below : Above t n p) (inside : n < kRoot) : Above t (t.up n) p

theorem Pending.f_lt_above (pending : t.Pending x) (above : Above t n x) :
    x < n ∧ t.f x < t.f n := by
  induction above with
  | next inside =>
    have behind := pending.lt_up inside
    exact ⟨behind, pending.f_lt_up inside (by omega)⟩
  | further below inside ih =>
    obtain ⟨behind, less⟩ := ih pending
    have further := pending.lt_up inside
    exact ⟨by omega, less.trans (pending.f_lt_up inside (by omega))⟩

/-- The exchanges of a climb: the tree before each, the position that grows and the one it
changes places with. -/
def exchanges : Nat → Tree → Nat → List (Tree × Nat × Nat)
  | 0, _, _ => []
  | fuel + 1, t, node =>
    match t.grow node with
    | .error _ => []
    | .ok (t', other) =>
      (if other = node then [] else [(t, node, other)]) ++
        if t'.up other = 0 then [] else exchanges fuel t' (t'.up other)

/-- No position changes places with one above it. -/
theorem exchanges_apart {fuel : Nat} (pending : t.Pending x) (start : x ≤ kRoot)
    (room : t.f kRoot + 1 < kSentinel) :
    ∀ e ∈ exchanges fuel t x, ¬ Above e.1 e.2.2 e.2.1 := by
  induction fuel generalizing t x with
  | zero => exact fun e none => absurd none List.not_mem_nil
  | succ fuel ih =>
    obtain ⟨t', o, grown, place, moved⟩ := grow_ends pending start room
    have after := pending.moved start place moved room
    intro e inside
    rw [exchanges, grown] at inside
    rcases List.mem_append.mp inside with now | later
    · split at now
      next => cases now
      next =>
        obtain rfl := List.mem_singleton.mp now
        intro above
        have less : t.f x < t.f o := (pending.f_lt_above above).2
        have same := place.same
        omega
    · split at later
      next => cases later
      next inner =>
        have low := place.inside
        have notRoot : o ≠ kRoot := fun root => inner (by rw [root]; exact moved.up_root)
        rw [nextUp, if_neg notRoot] at after
        have count := moved.frequency kRoot (by decide)
        rw [if_neg (Ne.symm notRoot)] at count
        obtain ⟨place', -⟩ := after.child_up (p := o) (by omega)
        exact ih after place' (by omega) e later

end Tree

/-! ## Decoding -/

namespace Lzh

variable {z : Lzh}

/-- A bit is taken, and nothing else changes. -/
theorem bit_ends : Scan.Ends z.bit fun r => r.1 < 2 ∧ r.2.tree = z.tree := by
  refine Scan.ends_check fun inside => ?_
  refine Scan.ends_read inside ?_
  rw [Scan.ends_pure]
  refine ⟨?_, rfl⟩
  exact Nat.lt_of_le_of_lt Nat.and_le_right (by decide)

/-- The way down comes to a symbol. -/
theorem descend_ends {fuel node : Nat} (shape : z.tree.Shape)
    (place : node < kNodes → node % 2 = 0 ∧ node + 1 < fuel ∧ node + 1 < kRoot)
    (symbol : kNodes ≤ node → node < kNodes + kSymbols) (some : 0 < fuel) :
    Scan.Ends (descend fuel z node) fun r => r.1 < kSymbols ∧ r.2.tree = z.tree := by
  induction fuel generalizing z node with
  | zero => exact absurd some (lt_irrefl _)
  | succ fuel ih =>
    have small := kRoot_lt
    rw [descend]
    split
    next inner =>
      refine bit_ends.bind fun r ⟨value, same⟩ => ?_
      dsimp only
      have read : r.2.tree.child.read (node + r.1) = .ok (z.tree.c (node + r.1)) := by
        rw [same]
        exact Table.read_inside (by omega)
      rw [read, Scan.ok_bind]
      have next : Scan.Ends (descend fuel r.2 (z.tree.c (node + r.1)))
          fun q => q.1 < kSymbols ∧ q.2.tree = r.2.tree := by
        apply ih (by rwa [same]) _ _ (by omega)
        · intro pair
          obtain ⟨even', less⟩ := shape.pair (by omega) pair
          exact ⟨even', by omega, by omega⟩
        · exact fun _ => shape.child_lt (by omega)
      rwa [same] at next
    next leaf =>
      rw [Scan.ends_pure]
      exact ⟨by omega, rfl⟩

/-- A symbol is decoded and counted. -/
theorem symbol_ends (valid : z.tree.Valid) (room : z.tree.f kRoot + 1 < kSentinel) :
    Scan.Ends z.symbol fun r => r.1 < kSymbols ∧ r.2.tree.Valid ∧
      r.2.tree.f kRoot = z.tree.f kRoot + 1 := by
  have top : z.tree.child.read kRoot = .ok (z.tree.c kRoot) := Table.read_inside (by decide)
  unfold symbol
  have down : Scan.Ends (descend (kNodes + 1) z (z.tree.c kRoot))
      fun r => r.1 < kSymbols ∧ r.2.tree = z.tree := by
    refine descend_ends valid.toShape (fun pair => ?_) (fun _ => valid.child_lt (le_refl _))
      (Nat.succ_pos _)
    obtain ⟨even, less⟩ := valid.pair (le_refl _) pair
    exact ⟨even, by omega, less⟩
  refine down.bind fun r found => ?_
  have room' : r.2.tree.f kRoot + 1 < kSentinel := by rwa [found.2]
  have valid' : r.2.tree.Valid := by rwa [found.2]
  have counted := Tree.update_ends valid' found.1 room'
  cases counted with
  | intro t' made =>
    dsimp only
    rw [made.1, Scan.ok_bind, Scan.ends_pure]
    exact ⟨found.1, made.2.1, found.2 ▸ made.2.2⟩

theorem lowBits_ends {n low : Nat} :
    Scan.Ends (lowBits n low z) fun r => r.1 < (low + 1) * 2 ^ n ∧ r.2.tree = z.tree := by
  induction n generalizing z low with
  | zero => exact (Scan.ends_pure _).mpr ⟨by omega, rfl⟩
  | succ n ih =>
    refine bit_ends.bind fun r ⟨value, same⟩ => ?_
    refine (ih).mono fun q ⟨bound, same'⟩ => ⟨?_, same'.trans same⟩
    calc q.1 < (low * 2 + r.1 + 1) * 2 ^ n := bound
      _ ≤ ((low + 1) * 2) * 2 ^ n := Nat.mul_le_mul_right _ (by omega)
      _ = (low + 1) * 2 ^ (n + 1) := by rw [Nat.pow_succ', Nat.mul_assoc]

theorem highBits_ends {counts : List Nat} {code first base : Nat} :
    Scan.Ends (highBits counts code first base z) fun r => r.2.tree = z.tree := by
  induction counts generalizing z code first base with
  | nil => exact Scan.ends_refuse
  | cons count counts ih =>
    refine bit_ends.bind fun r ⟨_, same⟩ => ?_
    dsimp only
    split
    · refine lowBits_ends.bind fun q ⟨_, same'⟩ => ?_
      exact (Scan.ends_pure _).mpr (same'.trans same)
    · exact (ih).mono fun q same' => same'.trans same

end Lzh

namespace Expander

variable {e : Expander}

/-- The decoder between two turns: each symbol it has counted has written a byte at
least, so the tree has room for every symbol to come. -/
structure Steady (e : Expander) : Prop where
  valid : e.lzh.tree.Valid
  count : e.lzh.tree.f kRoot ≤ kSymbols + e.written.length
  inside : e.head < 4096
  full : e.written.length ≤ kChunk

theorem Steady.room (steady : e.Steady) : e.lzh.tree.f kRoot + 1 < kSentinel := by
  have most := steady.count
  have full := steady.full
  unfold kSymbols at most
  unfold kChunk at full
  unfold kSentinel
  omega

theorem emit_ends (inside : e.head < 4096) (room : e.written.length < kChunk) (byte : Byte) :
    ∃ e', e.emit byte = .ok e' ∧ e'.lzh = e.lzh ∧ e'.head < 4096 ∧
      e'.written.length = e.written.length + 1 := by
  have wrote := Table.write_inside (t := e.window) inside byte
  unfold emit
  rw [if_neg (Nat.not_le.mpr room), wrote]
  exact ⟨_, rfl, rfl, Nat.mod_lt _ (by decide), List.length_append⟩

/-- A match is copied as far as the chunk goes. -/
theorem copy_ends {n source : Nat} (place : source < 4096) (inside : e.head < 4096)
    (full : e.written.length ≤ kChunk) :
    ∃ e', copy n source e = .ok e' ∧ e'.lzh = e.lzh ∧ e'.head < 4096 ∧
      e'.written.length = min kChunk (e.written.length + n) := by
  induction n generalizing source e with
  | zero => exact ⟨e, rfl, rfl, inside, by omega⟩
  | succ n ih =>
    by_cases room : e.written.length < kChunk
    · obtain ⟨e₁, wrote, same, inside₁, longer⟩ :=
        emit_ends inside room (e.window.cell source)
      obtain ⟨e₂, copied, same', inside₂, total⟩ :=
        ih (e := e₁) (Nat.mod_lt (source + 1) (by decide : 0 < 4096)) inside₁ (by omega)
      refine ⟨e₂, ?_, same'.trans same, inside₂, by omega⟩
      rwa [copy, if_pos room, Table.read_inside place, Scan.ok_bind, wrote]
    · refine ⟨e, ?_, rfl, inside, by omega⟩
      rw [copy, if_neg room]
      rfl

/-- A turn writes a byte at least, and the tree stays valid. -/
theorem turn_ends (steady : e.Steady) (room : e.written.length < kChunk) :
    Scan.Ends e.turn fun e' => e'.Steady ∧ e.written.length < e'.written.length := by
  have few := steady.count
  refine (Lzh.symbol_ends steady.valid steady.room).bind fun r decoded => ?_
  obtain ⟨symbol, valid, count⟩ := decoded
  dsimp only
  split
  · obtain ⟨e', wrote, same, inside, longer⟩ :=
      emit_ends (e := { e with lzh := r.2 }) steady.inside room (BitVec.ofNat 8 r.1)
    refine Scan.ends_of_ok wrote ⟨⟨?_, ?_, inside, ?_⟩, ?_⟩
    · rwa [same]
    · rw [same, longer]
      dsimp only
      omega
    · rwa [longer]
    · rw [longer]
      exact Nat.lt_succ_self _
  next long =>
    refine Lzh.highBits_ends.bind fun q kept => ?_
    obtain ⟨e', copied, same, inside, total⟩ :=
      copy_ends (e := { e with lzh := q.2 })
        (Nat.mod_lt (e.head + 2 ^ 64 - q.1 - 1) (by decide)) steady.inside steady.full
    dsimp only at total same
    refine Scan.ends_of_ok copied ⟨⟨?_, ?_, inside, ?_⟩, ?_⟩
    · rw [same]
      exact kept ▸ valid
    · rw [same, kept]
      omega
    · omega
    · omega

theorem turns_ends {n : Nat} (steady : e.Steady) (enough : kChunk ≤ e.written.length + n) :
    Scan.Ends (turns n e) fun e' => e'.written.length = kChunk := by
  have full := steady.full
  induction n generalizing e with
  | zero =>
    rw [turns, if_neg (by omega), Scan.ends_pure]
    omega
  | succ n ih =>
    rw [turns]
    split
    next room =>
      refine (turn_ends steady room).bind fun e' next => ?_
      exact ih next.1 (by omega) next.1.full
    next => exact (Scan.ends_pure _).mpr (by omega)

theorem start_ends (input : List Byte) : Scan.Ends (start input) Steady := by
  obtain ⟨t, built, valid, count⟩ := Tree.build_ends
  unfold start
  rw [built, Scan.ok_bind, Scan.ends_pure]
  exact ⟨valid, count.le, show 4096 - 60 < 4096 by decide, Nat.zero_le _⟩

/-- The decoder of every input stays steady. -/
theorem after_ends (input : List Byte) (n : Nat) : Scan.Ends (after input n) Steady := by
  induction n with
  | zero => exact start_ends input
  | succ n ih =>
    refine ih.bind fun e steady => ?_
    split
    next room => exact (turn_ends steady room).mono fun e' next => next.1
    next => exact (Scan.ends_pure _).mpr steady

end Expander

/-- A chunk is refused or written in its whole size. -/
theorem expand_ends (input : List Byte) (size : Nat) :
    Scan.Ends (expand input size) fun output => output.length = size := by
  refine Scan.ends_check fun whole => ?_
  refine (Expander.start_ends input).bind fun e steady => ?_
  refine (Expander.turns_ends steady (by omega)).bind fun e' full => ?_
  exact (Scan.ends_pure _).mpr (full.trans whole.symm)

/-- After every number of symbols of every input the tree is valid. The next symbol,
whichever it is, is then counted up to the root without an exchange of a position with one
above it, and the tree is valid again. So a chunk is refused or written in its whole size,
and no table is read or written outside. -/
theorem tree_valid_along_expand (input : List Byte) :
    (∀ n, Scan.Ends (Expander.after input n) fun e =>
      e.lzh.tree.Valid ∧
      ∀ s < kSymbols,
        (∃ t', e.lzh.tree.update s = .ok t' ∧ t'.Valid ∧ t'.f kRoot = e.lzh.tree.f kRoot + 1) ∧
        ∀ x ∈ Tree.exchanges (kNodes + 1) e.lzh.tree (e.lzh.tree.up (s + kNodes)),
          ¬ Tree.Above x.1 x.2.2 x.2.1) ∧
    ∀ size, Scan.Ends (expand input size) fun output => output.length = size := by
  constructor
  · intro n
    refine (Expander.after_ends input n).mono fun e steady => ⟨steady.valid, ?_⟩
    intro s inside
    obtain ⟨place, pending⟩ := steady.valid.pending_symbol inside
    exact ⟨Tree.update_ends steady.valid inside steady.room,
      Tree.exchanges_apart pending place steady.room⟩
  · exact expand_ends input

end Pom68k.Dart
