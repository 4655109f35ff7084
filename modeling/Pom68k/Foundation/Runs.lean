import Mathlib.Init

/-! # Runs

Runs of a deterministic machine over a list of operations, and the rule that carries
an invariant along a run whose steps meet a condition.
-/

namespace Pom68k.Foundation

variable {σ ο : Type}

/-- The state after a list of operations. -/
def run (step : σ → ο → σ) (s : σ) (ops : List ο) : σ := ops.foldl step s

/-- Every step of a run meets a condition on the operation and the state before it. -/
def Along (step : σ → ο → σ) (P : σ → ο → Prop) : σ → List ο → Prop
  | _, [] => True
  | s, op :: rest => P s op ∧ Along step P (step s op) rest

variable {step : σ → ο → σ} {P : σ → ο → Prop}

@[simp] theorem run_nil (s : σ) : run step s [] = s := rfl

@[simp] theorem run_cons (s : σ) (op : ο) (ops : List ο) :
    run step s (op :: ops) = run step (step s op) ops := rfl

theorem run_append (s : σ) (front back : List ο) :
    run step s (front ++ back) = run step (run step s front) back :=
  List.foldl_append

variable {I : σ → Prop} {ops : List ο} {s : σ}

/-- What every admissible step preserves, an admissible run preserves. -/
theorem Along.invariant (keep : ∀ s op, P s op → I s → I (step s op)) (along : Along step P s ops)
    (start : I s) : I (run step s ops) := by
  induction ops generalizing s with
  | nil => exact start
  | cons op rest ih => exact ih along.2 (keep s op along.1 start)

/-- A condition that operations meet in every state is met along every run of them. -/
theorem along_of_forall (meets : ∀ op ∈ ops, ∀ s, P s op) (s : σ) : Along step P s ops := by
  induction ops generalizing s with
  | nil => trivial
  | cons op rest ih =>
    exact ⟨meets op (List.mem_cons_self ..) s,
      ih (List.forall_mem_cons.mp meets).2 (step s op)⟩

theorem along_append (s : σ) (front back : List ο) :
    Along step P s (front ++ back) ↔
      Along step P s front ∧ Along step P (run step s front) back := by
  induction front generalizing s with
  | nil => exact iff_of_eq (true_and _).symm
  | cons op rest ih => exact (and_congr_right fun _ => ih (step s op)).trans and_assoc.symm

theorem Along.and {Q : σ → ο → Prop} (first : Along step P s ops)
    (second : Along step Q s ops) : Along step (fun s op => P s op ∧ Q s op) s ops := by
  induction ops generalizing s with
  | nil => trivial
  | cons op rest ih => exact ⟨⟨first.1, second.1⟩, ih first.2 second.2⟩

/-- What every step preserves, every run preserves. -/
theorem run_invariant (keep : ∀ s op, I s → I (step s op)) (start : I s)
    (ops : List ο) : I (run step s ops) := by
  induction ops generalizing s with
  | nil => exact start
  | cons op rest ih => exact ih (keep s op start)

/-! ## Steps that may fail -/

/-- A run of a machine whose steps may have no result. -/
def attempt (step : σ → ο → Option σ) : σ → List ο → Option σ
  | s, [] => some s
  | s, op :: rest => (step s op).bind fun next => attempt step next rest

/-- Every step of such a run meets a condition, as far as the run gets. -/
def Through (step : σ → ο → Option σ) (P : σ → ο → Prop) : σ → List ο → Prop
  | _, [] => True
  | s, op :: rest => P s op ∧ ∀ next, step s op = some next → Through step P next rest

/-- If under an invariant a step has a result just if it meets a condition, a run has one
just if all of its steps meet it. -/
theorem attempt_isSome_iff {step : σ → ο → Option σ} {P : σ → ο → Prop}
    (meets : ∀ s op, I s → ((step s op).isSome ↔ P s op))
    (keep : ∀ s op next, I s → step s op = some next → I next) (start : I s)
    (ops : List ο) : (attempt step s ops).isSome ↔ Through step P s ops := by
  induction ops generalizing s with
  | nil => exact iff_of_true rfl trivial
  | cons op rest ih =>
    rw [attempt, Through, ← meets s op start]
    cases result : step s op with
    | none => exact iff_of_false Bool.false_ne_true fun both => Bool.false_ne_true both.1
    | some next =>
      rw [Option.bind_some, ih (keep s op next start result)]
      refine ⟨fun through => ⟨rfl, ?_⟩, fun both => both.2 next rfl⟩
      rintro _ ⟨⟩
      exact through

end Pom68k.Foundation
