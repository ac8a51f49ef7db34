import Mathlib.Order.Lattice
import Mathlib.Tactic.Common

/-!
# Loops

One turn of a loop returns, or goes on with the next state. Where every turn that goes on
lowers a measure, the bound on the turns does not matter once it exceeds the measure. A
computation with a bound returns a value when every bound from some number on gives it.
-/

namespace ContikiMaster.Lib

open Option

universe u v

variable {σ : Type u} {ρ : Type v}

inductive Turn (σ : Type u) (ρ : Type v) where
  | goesOn (s : σ)
  | returns (r : ρ)

/-- At most `fuel` turns of a loop; no result when they do not suffice. -/
def loop (turn : σ → Turn σ ρ) : ℕ → σ → Option ρ
  | 0, _ => none
  | fuel + 1, s =>
    match turn s with
    | .goesOn t => loop turn fuel t
    | .returns r => some r

/-- Some turns lead from a state to another. -/
def Goes (turn : σ → Turn σ ρ) : σ → σ → Prop :=
  Relation.ReflTransGen fun s t ↦ turn s = .goesOn t

variable {turn : σ → Turn σ ρ} {measure : σ → ℕ} {fuel : ℕ} {s t : σ} {r : ρ}

theorem Goes.refl (s : σ) : Goes turn s s := Relation.ReflTransGen.refl

theorem Goes.trans {u : σ} (hfirst : Goes turn s t) (hsecond : Goes turn t u) : Goes turn s u :=
  Relation.ReflTransGen.trans hfirst hsecond

theorem goes_single (hturn : turn s = .goesOn t) : Goes turn s t :=
  Relation.ReflTransGen.single hturn

theorem loop_goesOn (hturn : turn s = .goesOn t) : loop turn (fuel + 1) s = loop turn fuel t := by
  rw [loop, hturn]

theorem loop_returns (hturn : turn s = .returns r) : loop turn (fuel + 1) s = some r := by
  rw [loop, hturn]

section

variable (hlowers : ∀ s t, turn s = .goesOn t → measure t < measure s) (hfuel : measure s < fuel)

include hlowers hfuel

/-- A loop whose turns lower a measure returns. -/
theorem loop_isSome : (loop turn fuel s).isSome := by
  induction fuel generalizing s with
  | zero => exact absurd hfuel (Nat.not_lt_zero _)
  | succ fuel ih =>
    cases hturn : turn s with
    | goesOn t =>
      rw [loop_goesOn hturn]
      exact ih (Nat.lt_of_lt_of_le (hlowers s t hturn) (Nat.le_of_lt_succ hfuel))
    | returns r =>
      rw [loop_returns hturn]
      rfl

/-- The state in which some turns end decides what the loop returns. -/
theorem loop_of_goes (hgoes : Goes turn s t) (hturn : turn t = .returns r) :
    loop turn fuel s = some r := by
  induction hgoes using Relation.ReflTransGen.head_induction_on generalizing fuel with
  | refl =>
    obtain ⟨fuel, rfl⟩ := Nat.exists_eq_succ_of_ne_zero (Nat.ne_zero_of_lt hfuel)
    exact loop_returns hturn
  | @head a b hstep _ ih =>
    obtain ⟨fuel, rfl⟩ := Nat.exists_eq_succ_of_ne_zero (Nat.ne_zero_of_lt hfuel)
    rw [loop_goesOn hstep]
    exact ih (Nat.lt_of_lt_of_le (hlowers a b hstep) (Nat.le_of_lt_succ hfuel))

end

/-- An invariant of the turns holds in the state in which the loop returns. -/
theorem loop_invariant {P : σ → Prop} {Q : ρ → Prop} (hkeeps : ∀ s t, P s → turn s = .goesOn t → P t)
    (hreturns : ∀ s r, P s → turn s = .returns r → Q r) (hs : P s)
    (hloop : loop turn fuel s = some r) : Q r := by
  induction fuel generalizing s with
  | zero => cases hloop
  | succ fuel ih =>
    cases hturn : turn s with
    | goesOn t =>
      rw [loop_goesOn hturn] at hloop
      exact ih (hkeeps s t hs hturn) hloop
    | returns r' =>
      rw [loop_returns hturn] at hloop
      obtain rfl := some.inj hloop
      exact hreturns s r' hs hturn

/-- A loop is simulated by another one whose turns do the same to the image of the state, as long as
an invariant holds. -/
theorem loop_map {τ ρ' : Type*} {turn' : τ → Turn τ ρ'} {f : σ → τ} {g : ρ → ρ'} {P : σ → Prop}
    (hgoes : ∀ s t, P s → turn s = .goesOn t → turn' (f s) = .goesOn (f t) ∧ P t)
    (hreturns : ∀ s r, P s → turn s = .returns r → turn' (f s) = .returns (g r)) (hs : P s) :
    (loop turn fuel s).map g = loop turn' fuel (f s) := by
  induction fuel generalizing s with
  | zero => rfl
  | succ fuel ih =>
    cases hturn : turn s with
    | goesOn t =>
      obtain ⟨hturn', ht⟩ := hgoes s t hs hturn
      rw [loop_goesOn hturn, loop_goesOn hturn']
      exact ih ht
    | returns r =>
      rw [loop_returns hturn, loop_returns (hreturns s r hs hturn)]
      rfl

/-- A loop along a sequence of states returns what the first of them gives that ends it. -/
theorem loop_eq_some_iff_of_sequence {seq : ℕ → σ} {goesOn : ℕ → Prop} [DecidablePred goesOn]
    {out : ℕ → ρ}
    (hturn : ∀ j, turn (seq j) = if goesOn j then .goesOn (seq (j + 1)) else .returns (out j))
    (j : ℕ) : loop turn fuel (seq j) = some r ↔
      ∃ k, k < fuel ∧ (∀ i < k, goesOn (j + i)) ∧ ¬ goesOn (j + k) ∧ r = out (j + k) := by
  induction fuel generalizing j with
  | zero => simp [loop]
  | succ fuel ih =>
    by_cases hgoes : goesOn j
    · rw [loop_goesOn ((hturn j).trans (if_pos hgoes)), ih]
      constructor
      · rintro ⟨k, hk, hbefore, hends, hr⟩
        refine ⟨k + 1, Nat.succ_lt_succ hk, fun i hi ↦ ?_, ?_, ?_⟩
        · cases i with
          | zero => exact hgoes
          | succ i =>
            have hnext := hbefore i (Nat.lt_of_succ_lt_succ hi)
            rwa [Nat.add_right_comm] at hnext
        · rwa [Nat.add_right_comm] at hends
        · rwa [Nat.add_right_comm] at hr
      · rintro ⟨k, hk, hbefore, hends, hr⟩
        cases k with
        | zero => exact absurd hgoes hends
        | succ k =>
          refine ⟨k, Nat.lt_of_succ_lt_succ hk, fun i hi ↦ ?_, ?_, ?_⟩
          · have hnext := hbefore (i + 1) (Nat.succ_lt_succ hi)
            rwa [← Nat.add_assoc, Nat.add_right_comm] at hnext
          · rwa [Nat.add_right_comm]
          · rwa [Nat.add_right_comm]
    · rw [loop_returns ((hturn j).trans (if_neg hgoes)), some.injEq]
      constructor
      · rintro rfl
        exact ⟨0, Nat.succ_pos fuel, fun i hi ↦ absurd hi (Nat.not_lt_zero i), hgoes, rfl⟩
      · rintro ⟨k, -, hbefore, -, hr⟩
        cases k with
        | zero => exact hr.symm
        | succ k => exact absurd (hbefore 0 (Nat.succ_pos k)) hgoes

section Returning

universe w

variable {σ : Type u} {ρ : Type v} {τ : Type w} {f : ℕ → Option ρ} {g : ρ → ℕ → Option τ} {r r' : ρ}
  {t : τ}

/-- Enough fuel gives this result. -/
def Returns (f : ℕ → Option ρ) (r : ρ) : Prop := ∃ bound, ∀ fuel, bound ≤ fuel → f fuel = some r

theorem returns_some (r : ρ) : Returns (fun _ ↦ some r) r := ⟨0, fun _ _ ↦ rfl⟩

theorem Returns.unique (hr : Returns f r) (hr' : Returns f r') : r = r' := by
  obtain ⟨bound, hbound⟩ := hr
  obtain ⟨bound', hbound'⟩ := hr'
  have hfirst := hbound (max bound bound') (Nat.le_max_left _ _)
  rw [hbound' _ (Nat.le_max_right _ _)] at hfirst
  exact (some.inj hfirst).symm

/-- When the first computation returns, the sequence does from some fuel on what the second one
does. -/
theorem Returns.bind_eventually (hr : Returns f r) :
    ∃ bound, ∀ fuel, bound ≤ fuel → ((f fuel).bind fun r ↦ g r fuel) = g r fuel := by
  obtain ⟨bound, hbound⟩ := hr
  refine ⟨bound, fun fuel hfuel ↦ ?_⟩
  rw [hbound fuel hfuel, bind_some]

theorem returns_congr {f' : ℕ → Option ρ} (hsame : ∃ bound, ∀ fuel, bound ≤ fuel → f' fuel = f fuel)
    (hr : Returns f r) : Returns f' r := by
  obtain ⟨bound, hbound⟩ := hsame
  obtain ⟨bound', hbound'⟩ := hr
  refine ⟨max bound bound', fun fuel hfuel ↦ ?_⟩
  rw [hbound fuel ((Nat.le_max_left _ _).trans hfuel)]
  exact hbound' fuel ((Nat.le_max_right _ _).trans hfuel)

/-- When the first computation returns, the sequence returns what the second one does. -/
theorem Returns.bind_iff (hr : Returns f r) :
    Returns (fun fuel ↦ (f fuel).bind fun r ↦ g r fuel) t ↔ Returns (g r) t := by
  obtain ⟨bound, hbound⟩ := hr.bind_eventually (g := g)
  exact ⟨returns_congr ⟨bound, fun fuel hfuel ↦ (hbound fuel hfuel).symm⟩,
    returns_congr ⟨bound, hbound⟩⟩

theorem Returns.bind (hr : Returns f r) (ht : Returns (g r) t) :
    Returns (fun fuel ↦ (f fuel).bind fun r ↦ g r fuel) t := hr.bind_iff.mpr ht

theorem Returns.map (h : ρ → τ) (hr : Returns f r) :
    Returns (fun fuel ↦ (f fuel).map h) (h r) := by
  obtain ⟨bound, hbound⟩ := hr
  refine ⟨bound, fun fuel hfuel ↦ ?_⟩
  change (f fuel).map h = some (h r)
  rw [hbound fuel hfuel, map_some]

/-- A sequence whose first computation never ends does not return. -/
theorem not_returns_bind (hnone : ∀ fuel, f fuel = none) :
    ¬ Returns (fun fuel ↦ (f fuel).bind fun r ↦ g r fuel) t := by
  rintro ⟨bound, hbound⟩
  have hsome : ((f bound).bind fun r ↦ g r bound) = some t := hbound bound le_rfl
  rw [hnone] at hsome
  cases hsome

/-- A loop returns what the state gives in which some turns end. -/
theorem returns_loop {turn : σ → Turn σ ρ} {s s' : σ} (hgoes : Goes turn s s')
    (hturn : turn s' = .returns r) : Returns (fun fuel ↦ loop turn fuel s) r := by
  induction hgoes using Relation.ReflTransGen.head_induction_on with
  | refl =>
    refine ⟨1, fun fuel hfuel ↦ ?_⟩
    obtain ⟨fuel, rfl⟩ := Nat.exists_eq_succ_of_ne_zero (Nat.ne_of_gt hfuel)
    exact loop_returns hturn
  | head hstep _ ih =>
    obtain ⟨bound, hbound⟩ := ih
    refine ⟨bound + 1, fun fuel hfuel ↦ ?_⟩
    obtain ⟨fuel, rfl⟩ := Nat.exists_eq_succ_of_ne_zero (Nat.ne_of_gt (Nat.zero_lt_of_lt hfuel))
    exact (loop_goesOn hstep).trans (hbound fuel (Nat.le_of_succ_le_succ hfuel))

end Returning

end ContikiMaster.Lib
