import Mathlib.Data.BitVec

/-! # Serial codes

A machine reads symbols one after the other and writes some at each of them. Where one
machine reads what another one writes, it is enough to know what it makes of each symbol.
-/

namespace Pom68k.Foundation

variable {σ τ ρ α β γ : Type*} {step : σ → α → σ × List β}

/-- The bits of a word as they are sent, the high one first. -/
def msbFirst {w : Nat} (word : BitVec w) : List Bool := (List.range w).map word.getMsbD

@[simp] theorem length_msbFirst {w : Nat} (word : BitVec w) : (msbFirst word).length = w := by
  rw [msbFirst, List.length_map, List.length_range]

/-- Where a machine ends, and what it has written. -/
def feed (step : σ → α → σ × List β) : σ → List α → σ × List β
  | s, [] => (s, [])
  | s, a :: rest =>
    let r := feed step (step s a).1 rest
    (r.1, (step s a).2 ++ r.2)

theorem feed_append (step : σ → α → σ × List β) (s : σ) (xs ys : List α) :
    feed step s (xs ++ ys) =
      ((feed step (feed step s xs).1 ys).1,
        (feed step s xs).2 ++ (feed step (feed step s xs).1 ys).2) := by
  induction xs generalizing s with
  | nil => rfl
  | cons x rest ih =>
    rw [List.cons_append, feed, ih]
    simp only [feed, List.append_assoc]

/-- Code words after which a machine is again where it was are read one by one. -/
theorem feed_flatMap {s : σ} {code : γ → List α} {plain : γ → List β} {xs : List γ}
    (each : ∀ x ∈ xs, feed step s (code x) = (s, plain x)) :
    feed step s (xs.flatMap code) = (s, xs.flatMap plain) := by
  induction xs with
  | nil => rfl
  | cons x rest ih =>
    rw [List.flatMap_cons, feed_append, each x List.mem_cons_self,
      ih (List.forall_mem_cons.mp each).2]
    rfl

/-- A machine reads what a coder writes. If it keeps step with a third machine that reads
the symbols themselves, it writes the same. -/
theorem feed_feed {code : τ → γ → τ × List α}
    {plain : ρ → γ → ρ × List β} {R : τ → σ → ρ → Prop}
    (each : ∀ t s r x, R t s r →
      R (code t x).1 (feed step s (code t x).2).1 (plain r x).1 ∧
        (feed step s (code t x).2).2 = (plain r x).2)
    {t : τ} {s : σ} {r : ρ} (start : R t s r) (xs : List γ) :
    R (feed code t xs).1 (feed step s (feed code t xs).2).1 (feed plain r xs).1 ∧
      (feed step s (feed code t xs).2).2 = (feed plain r xs).2 := by
  induction xs generalizing t s r with
  | nil => exact ⟨start, rfl⟩
  | cons x rest ih =>
    obtain ⟨next, same⟩ := each t s r x start
    obtain ⟨last, rest_same⟩ := ih next
    simp only [feed, feed_append]
    exact ⟨last, congrArg₂ (fun a b => a ++ b) same rest_same⟩

end Pom68k.Foundation
