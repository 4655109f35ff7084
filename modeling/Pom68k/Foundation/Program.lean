import Mathlib.Logic.Relation

/-! # Programs that may fail

Programs over a state that end with a result or with an error; what they did to the state
before an error stays done. Two ways to speak of them: what has to hold of a state so that
something holds at the end, and which steps a program is made of.
-/

namespace Pom68k.Foundation

abbrev Program (σ ε α : Type) := ExceptT ε (StateM σ) α

namespace Program

variable {σ ε α β : Type} {s : σ}

/-- How a program ends from a state. -/
def exec (p : Program σ ε α) (s : σ) : Except ε α × σ := (ExceptT.run p).run s

/-! ## Conditions on the end -/

/-- The program ends with a result and a state that meet a condition, or with an error and a
state that meet another. -/
def wp (p : Program σ ε α) (Q : α → σ → Prop) (R : ε → σ → Prop) (s : σ) : Prop :=
  match p.exec s with
  | (.ok a, s) => Q a s
  | (.error e, s) => R e s

variable {p : Program σ ε α} {f : α → Program σ ε β} {Q Q' : α → σ → Prop} {R R' : ε → σ → Prop}
  {a : α}

theorem exec_bind (p : Program σ ε α) (f : α → Program σ ε β) (s : σ) :
    (p >>= f).exec s =
      match p.exec s with
      | (.ok a, s) => (f a).exec s
      | (.error e, s) => (.error e, s) := by
  simp only [exec, ExceptT.run_bind, StateT.run_bind]
  rcases (ExceptT.run p).run s with ⟨a | e, s⟩ <;> rfl

@[simp] theorem wp_pure (a : α) : wp (pure a : Program σ ε α) Q R s ↔ Q a s := Iff.rfl

@[simp] theorem wp_get {Q : σ → σ → Prop} : wp (get : Program σ ε σ) Q R s ↔ Q s s := Iff.rfl

@[simp] theorem wp_set (s' : σ) {Q : PUnit → σ → Prop} :
    wp (set s' : Program σ ε PUnit) Q R s ↔ Q ⟨⟩ s' := Iff.rfl

@[simp] theorem wp_bind {Q : β → σ → Prop} :
    wp (p >>= f) Q R s ↔ wp p (fun a s => wp (f a) Q R s) R s := by
  rw [wp, wp, exec_bind]
  rcases p.exec s with ⟨e | a, s⟩
  · rfl
  · rfl

theorem wp_mono (before : wp p Q R s) (result : ∀ a s, Q a s → Q' a s)
    (error : ∀ e s, R e s → R' e s := by first | exact fun _ _ same => same | exact fun _ _ _ => ⟨⟩) :
    wp p Q' R' s := by
  rw [wp] at before ⊢
  split at before
  · exact result _ _ before
  · exact error _ _ before

theorem wp_and (first : wp p Q R s) (second : wp p Q' R' s) :
    wp p (fun a s => Q a s ∧ Q' a s) (fun e s => R e s ∧ R' e s) s := by
  rw [wp] at first second ⊢
  split
  · rename_i ended
    rw [ended] at first second
    exact ⟨first, second⟩
  · rename_i ended
    rw [ended] at first second
    exact ⟨first, second⟩

theorem exec_of_wp (certain : wp p (fun b _ => b = a) (fun _ _ => False) s) :
    (p.exec s).1 = .ok a := by
  rw [wp] at certain
  split at certain
  · rename_i ended
    rw [ended, certain]
  · exact certain.elim

theorem exec_cases (before : wp p Q R s) :
    (∃ a s', p.exec s = (.ok a, s') ∧ Q a s') ∨ ∃ e s', p.exec s = (.error e, s') ∧ R e s' := by
  rw [wp] at before
  split at before
  case h_1 a s' ended => exact .inl ⟨a, s', ended, before⟩
  case h_2 e s' ended => exact .inr ⟨e, s', ended, before⟩

/-- A program on a part of the state. -/
def zoom {τ : Type} (view : τ → σ) (put : σ → τ → τ) (p : Program σ ε α) : Program τ ε α :=
  ExceptT.mk fun s => pure ((p.exec (view s)).1, put (p.exec (view s)).2 s)

theorem wp_zoom {τ : Type} {view : τ → σ} {put : σ → τ → τ} {Q : α → τ → Prop} {R : ε → τ → Prop}
    {t : τ} :
    wp (zoom view put p) Q R t ↔
      wp p (fun a s => Q a (put s t)) (fun e s => R e (put s t)) (view t) := by
  have same : (zoom view put p).exec t = ((p.exec (view t)).1, put (p.exec (view t)).2 t) := rfl
  rw [wp, wp, same]
  rcases p.exec (view t) with ⟨e | a, s⟩
  · rfl
  · rfl

/-! ## Triples -/

/-- From every state with a first condition the program ends well. -/
def Triple (P : σ → Prop) (p : Program σ ε α) (Q : α → σ → Prop) (R : ε → σ → Prop) : Prop :=
  ∀ s, P s → wp p Q R s

variable {P P' : σ → Prop}

theorem Triple.bind {Q' : β → σ → Prop} (first : Triple P p Q R)
    (rest : ∀ a, Triple (Q a) (f a) Q' R) : Triple P (p >>= f) Q' R := by
  intro s before
  rw [wp_bind]
  exact wp_mono (first s before) rest

theorem triple_pure (result : ∀ s, P s → Q a s) : Triple P (pure a : Program σ ε α) Q R :=
  result

theorem triple_throw {e : ε} (fails : ∀ s, P s → R e s) : Triple P (throw e : Program σ ε α) Q R :=
  fails

theorem Triple.mono (triple : Triple P p Q R) (before : ∀ s, P' s → P s)
    (result : ∀ a s, Q a s → Q' a s := by exact fun _ _ same => same)
    (error : ∀ e s, R e s → R' e s := by exact fun _ _ same => same) : Triple P' p Q' R' :=
  fun s start => wp_mono (triple s (before s start)) result error

/-! ## Steps -/

/-- A program that takes only steps of a relation, whether it fails or not, and whose results
meet a condition. -/
def Steps (r : σ → σ → Prop) (p : Program σ ε α) (Q : α → σ → Prop) (s : σ) : Prop :=
  wp p (fun a s' => Relation.ReflTransGen r s s' ∧ Q a s') (fun _ s' => Relation.ReflTransGen r s s') s

variable {r r' : σ → σ → Prop}

theorem steps_pure (result : Q a s) : Steps r (pure a : Program σ ε α) Q s := ⟨.refl, result⟩

/-- The program is made of such steps, whatever comes of them. -/
abbrev Walks (r : σ → σ → Prop) (p : Program σ ε α) (s : σ) : Prop := Steps r p (fun _ _ => True) s

theorem walks_pure : Walks r (pure a : Program σ ε α) s := steps_pure trivial

theorem steps_throw (e : ε) : Steps r (throw e : Program σ ε α) Q s := .refl

theorem steps_get {Q : σ → σ → Prop} (result : Q s s) : Steps r (get : Program σ ε σ) Q s :=
  ⟨.refl, result⟩

theorem steps_modify {g : σ → σ} {Q : PUnit → σ → Prop} (step : r s (g s)) (result : Q ⟨⟩ (g s)) :
    Steps r (modify g : Program σ ε PUnit) Q s := ⟨.single step, result⟩

theorem Steps.bind {Q' : β → σ → Prop} (first : Steps r p Q s)
    (rest : ∀ a s', Q a s' → Steps r (f a) Q' s') : Steps r (p >>= f) Q' s := by
  rw [Steps, wp_bind]
  refine wp_mono first ?_ fun _ _ reached => reached
  rintro a s' ⟨reached, result⟩
  exact wp_mono (rest a s' result) (fun _ _ last => ⟨reached.trans last.1, last.2⟩)
    fun _ _ last => reached.trans last

theorem steps_get_bind {f : σ → Program σ ε β} {Q : β → σ → Prop} (rest : Steps r (f s) Q s) :
    Steps r (get >>= f) Q s :=
  (steps_get (Q := fun a s' => a = s ∧ s' = s) ⟨rfl, rfl⟩).bind fun _ _ same => by
    rwa [same.1, same.2]

theorem steps_modify_bind {g : σ → σ} {f : PUnit → Program σ ε β} {Q : β → σ → Prop}
    (step : r s (g s)) (rest : Steps r (f ⟨⟩) Q (g s)) : Steps r (modify g >>= f) Q s :=
  (steps_modify (Q := fun _ s' => s' = g s) step rfl).bind fun _ _ same => by
    rwa [same]

theorem Steps.mono (steps : Steps r p Q s) (result : ∀ a s, Q a s → Q' a s) : Steps r p Q' s :=
  wp_mono steps fun _ _ last => ⟨last.1, result _ _ last.2⟩

theorem Steps.widen (steps : Steps r p Q s) (wider : ∀ s s', r s s' → r' s s') : Steps r' p Q s :=
  wp_mono steps (fun _ _ last => ⟨last.1.lift id wider, last.2⟩) fun _ _ last => last.lift id wider

/-- The end of the program is known to be its end. -/
theorem Steps.ended (steps : Steps r p Q s) :
    Steps r p (fun a s' => Q a s' ∧ p.exec s = (.ok a, s')) s := by
  rw [Steps, wp] at steps ⊢
  split
  case h_1 ended =>
    rw [ended] at steps
    exact ⟨steps.1, steps.2, ended⟩
  case h_2 ended =>
    rwa [ended] at steps

/-- A program as one step. -/
theorem steps_whole (step : r s (p.exec s).2) : Walks r p s := by
  rw [Walks, Steps, wp]
  split
  case h_1 ended =>
    rw [ended] at step
    exact ⟨.single step, trivial⟩
  case h_2 ended =>
    rw [ended] at step
    exact .single step

/-- Steps on a part of the state are steps on the whole. -/
theorem Steps.zoom {τ : Type} {view : τ → σ} {put : σ → τ → τ} {whole : τ → τ → Prop} {t : τ}
    (steps : Steps r p Q (view t)) (same : put (view t) t = t)
    (lift : ∀ s s', r s s' → whole (put s t) (put s' t)) :
    Steps whole (zoom view put p) (fun a t' => ∃ s, Q a s ∧ t' = put s t) t := by
  have reached : ∀ s', Relation.ReflTransGen r (view t) s' →
      Relation.ReflTransGen whole t (put s' t) := by
    intro s' steps
    have lifted : Relation.ReflTransGen whole (put (view t) t) (put s' t) :=
      steps.lift (fun s => put s t) lift
    rwa [same] at lifted
  refine wp_zoom.mpr (wp_mono steps ?_ fun _ s' => reached s')
  exact fun a s' last => ⟨reached s' last.1, s', last.2, rfl⟩

/-- What every step keeps, any number of steps keep. -/
theorem keeps_reached {I : σ → Prop} {s' : σ} (keep : ∀ s s', r s s' → I s → I s')
    (reached : Relation.ReflTransGen r s s') (start : I s) : I s' := by
  induction reached with
  | refl => exact start
  | tail _ step ih => exact keep _ _ step ih

/-- What every step keeps, the program keeps. -/
theorem Steps.keeps (steps : Steps r p Q s) {I : σ → Prop} (keep : ∀ s s', r s s' → I s → I s')
    (start : I s) : wp p (fun a s => I s ∧ Q a s) (fun _ s => I s) s :=
  wp_mono steps (fun _ _ last => ⟨keeps_reached keep last.1 start, last.2⟩)
    fun _ _ last => keeps_reached keep last start

end Program

end Pom68k.Foundation
