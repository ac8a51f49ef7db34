import Mathlib.Data.List.Basic

/-!
# Runs of labelled step relations

A run is a finite sequence of labelled steps. Safety properties are proved once
for a step and lifted here to whole runs; executable step functions are lifted
to runs by folding them over the labels. Nothing is said about infinite runs or
fairness.
-/

namespace ContikiMaster.Lib

open Option

universe u v w

variable {σ : Type u} {α : Type v}

/-- A finite run from one state to another, with the labels of its steps in order. -/
inductive Run (step : σ → α → σ → Prop) : σ → List α → σ → Prop
  | nil (s : σ) : Run step s [] s
  | cons {s t u : σ} {a : α} {labels : List α} (hstep : step s a t) (hrun : Run step t labels u) :
      Run step s (a :: labels) u

namespace Run

variable {step step' : σ → α → σ → Prop} {s t u : σ} {a : α} {labels labels' : List α}

theorem append (hleft : Run step s labels t) (hright : Run step t labels' u) :
    Run step s (labels ++ labels') u := by
  induction hleft with
  | nil => exact hright
  | cons hstep _ ih => exact .cons hstep (ih hright)

theorem snoc (hrun : Run step s labels t) (hstep : step t a u) : Run step s (labels ++ [a]) u :=
  hrun.append (.cons hstep (.nil u))

/-- What every step preserves holds at the end of every run that starts in it. -/
theorem invariant {P : σ → Prop} (hstep : ∀ s a t, P s → step s a t → P t)
    (hrun : Run step s labels t) (hs : P s) : P t := by
  induction hrun with
  | nil => exact hs
  | cons hfirst _ ih => exact ih (hstep _ _ _ hs hfirst)

theorem mono (hle : ∀ s a t, step s a t → step' s a t) (hrun : Run step s labels t) :
    Run step' s labels t := by
  induction hrun with
  | nil s => exact .nil s
  | cons hfirst _ ih => exact .cons (hle _ _ _ hfirst) ih

end Run

/-- The step relation of a partial step function. -/
def StepOf (next : σ → α → Option σ) (s : σ) (a : α) (t : σ) : Prop := next s a = some t

/-- The steps of a partial step function that a condition on the state and the label allows. -/
def GuardedStepOf (next : σ → α → Option σ) (guard : σ → α → Prop) (s : σ) (a : α) (t : σ) : Prop :=
  guard s a ∧ StepOf next s a t

variable {P I : σ → Prop} {next : σ → α → Option σ} {p guard : σ → α → Prop} {s t : σ}
  {labels : List α}

/-- When, under an invariant, a step makes things go wrong exactly if it is not allowed, nothing has
gone wrong at the end of a run exactly if every step of it was allowed. -/
theorem Run.good_iff_guarded_of_invariant (hkeeps : ∀ s a t, I s → StepOf next s a t → I t)
    (hstep : ∀ s a t, I s → StepOf next s a t → (P t ↔ P s ∧ p s a)) (hs : I s)
    (hrun : Run (StepOf next) s labels t) : P t ↔ P s ∧ Run (GuardedStepOf next p) s labels t := by
  induction hrun with
  | nil s => exact ⟨fun hgood ↦ ⟨hgood, .nil s⟩, And.left⟩
  | @cons s t u a labels hfirst _ ih =>
    rw [ih (hkeeps s a t hs hfirst), hstep s a t hs hfirst, and_assoc]
    refine and_congr_right fun _ ↦ ⟨fun ⟨hguard, hrest⟩ ↦ .cons ⟨hguard, hfirst⟩ hrest, fun hall ↦ ?_⟩
    cases hall with
    | cons hfirst' hrest =>
      -- the step function determines the state in between
      have hsame := some.inj (hfirst'.2.symm.trans hfirst)
      rw [hsame] at hrest
      exact ⟨hfirst'.1, hrest⟩

theorem Run.good_iff_guarded (hstep : ∀ s a t, StepOf next s a t → (P t ↔ P s ∧ p s a))
    (hrun : Run (StepOf next) s labels t) : P t ↔ P s ∧ Run (GuardedStepOf next p) s labels t :=
  hrun.good_iff_guarded_of_invariant (I := fun _ ↦ True) (fun _ _ _ _ _ ↦ trivial)
    (fun s a t _ ↦ hstep s a t) trivial

/-- The steps of a partial step function that lead to a state with a property. -/
def KeepingStepOf (next : σ → α → Option σ) (P : σ → Prop) (s : σ) (a : α) (t : σ) : Prop :=
  StepOf next s a t ∧ P t

/-- When the allowed steps keep an invariant that implies a property, and every other step breaks
the property, the property holds all along a run exactly if every step of it is allowed. -/
theorem Run.keeping_iff_guarded (hgood : ∀ s, I s → P s)
    (hkeeps : ∀ s a t, I s → GuardedStepOf next guard s a t → I t)
    (hbreaks : ∀ s a t, I s → ¬ guard s a → StepOf next s a t → ¬ P t)
    (hs : I s) : Run (KeepingStepOf next P) s labels t ↔ Run (GuardedStepOf next guard) s labels t := by
  constructor
  · intro hrun
    induction hrun with
    | nil s => exact .nil s
    | @cons s t u a labels hfirst _ ih =>
      have hguard : guard s a := by
        by_contra hnot
        exact hbreaks s a t hs hnot hfirst.1 hfirst.2
      exact .cons ⟨hguard, hfirst.1⟩ (ih (hkeeps s a t hs ⟨hguard, hfirst.1⟩))
  · intro hrun
    induction hrun with
    | nil s => exact .nil s
    | @cons s t u a labels hfirst _ ih =>
      have ht := hkeeps s a t hs hfirst
      exact .cons ⟨hfirst.2, hgood t ht⟩ (ih ht)

def execute (next : σ → α → Option σ) : σ → List α → Option σ
  | s, [] => some s
  | s, a :: labels => (next s a).bind fun t ↦ execute next t labels

theorem run_of_execute (hexecute : execute next s labels = some t) :
    Run (StepOf next) s labels t := by
  induction labels generalizing s with
  | nil =>
    obtain rfl : s = t := by simpa [execute] using hexecute
    exact .nil s
  | cons a labels ih =>
    obtain ⟨middle, hfirst, hrest⟩ := bind_eq_some_iff.mp hexecute
    exact .cons hfirst (ih hrest)

/-- A step function restricted to the states with a property. -/
def keepingNext (next : σ → α → Option σ) (P : σ → Prop) [DecidablePred P] (s : σ) (a : α) :
    Option σ :=
  (next s a).filter fun t ↦ decide (P t)

theorem keepingRun_of_execute [DecidablePred P]
    (hexecute : execute (keepingNext next P) s labels = some t) :
    Run (KeepingStepOf next P) s labels t := by
  apply (run_of_execute hexecute).mono
  intro s a t hstep
  obtain ⟨hnext, hkeeps⟩ := filter_eq_some_iff.mp hstep
  exact ⟨hnext, of_decide_eq_true hkeeps⟩

/-- A step function restricted to the steps a condition allows. -/
def guardedNext (next : σ → α → Option σ) (guard : σ → α → Prop) [∀ s a, Decidable (guard s a)]
    (s : σ) (a : α) : Option σ :=
  if guard s a then next s a else none

theorem guardedRun_of_execute [∀ s a, Decidable (guard s a)]
    (hexecute : execute (guardedNext next guard) s labels = some t) :
    Run (GuardedStepOf next guard) s labels t := by
  apply (run_of_execute hexecute).mono
  intro s a t hstep
  change (if guard s a then next s a else none) = some t at hstep
  split at hstep
  · rename_i hguard
    exact ⟨hguard, hstep⟩
  · cases hstep

/-- A state with a property at the end of a run that can be executed. -/
theorem exists_run [DecidablePred P]
    (hany : (execute next s labels).any (fun t ↦ decide (P t)) = true) :
    ∃ t, Run (StepOf next) s labels t ∧ P t := by
  obtain ⟨t, hexecute, ht⟩ := (any_eq_true _ _).mp hany
  exact ⟨t, run_of_execute hexecute, of_decide_eq_true ht⟩

theorem exists_guardedRun [∀ s a, Decidable (guard s a)] [DecidablePred P]
    (hany : (execute (guardedNext next guard) s labels).any (fun t ↦ decide (P t)) = true) :
    ∃ t, Run (GuardedStepOf next guard) s labels t ∧ P t := by
  obtain ⟨t, hexecute, ht⟩ := (any_eq_true _ _).mp hany
  exact ⟨t, guardedRun_of_execute hexecute, of_decide_eq_true ht⟩

end ContikiMaster.Lib
