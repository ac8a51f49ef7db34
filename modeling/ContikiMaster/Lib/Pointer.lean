import Mathlib.Data.Finset.Card
import Mathlib.Data.Nat.Find

/-!
# Pointers that lead to a root

A node leads to the root when following the pointers arrives there. Redirecting one pointer
keeps this, provided the new target leads there without passing through the node; a
quantity that never decreases along the pointers gives that condition.
-/

namespace ContikiMaster.Lib

open Function

universe u v

variable {ι : Type u}

/-- Following the pointers from a node arrives at the root. -/
def LeadsTo (next : ι → ι) (root a : ι) : Prop := ∃ k, next^[k] a = root

/-- Following the pointers from a node arrives at the root and visits no node twice. -/
def ReachesWithoutRepeat (next : ι → ι) (root a : ι) : Prop :=
  ∃ k, next^[k] a = root ∧ ∀ i j, i < j → j ≤ k → next^[i] a ≠ next^[j] a

/-- Following the pointers from a node arrives at the root without meeting another node. -/
def AvoidsTo (next : ι → ι) (root avoided a : ι) : Prop :=
  ∃ k, next^[k] a = root ∧ ∀ i, i ≤ k → next^[i] a ≠ avoided

variable {next : ι → ι} {root a b c : ι}

theorem leadsTo_root : LeadsTo next root root := ⟨0, rfl⟩

theorem leadsTo_of_next (hnext : LeadsTo next root (next a)) : LeadsTo next root a := by
  obtain ⟨k, hk⟩ := hnext
  exact ⟨k + 1, by rwa [iterate_succ_apply]⟩

/-- The shortest way to the root repeats no node. -/
theorem LeadsTo.withoutRepeat (hleads : LeadsTo next root a) :
    ReachesWithoutRepeat next root a := by
  classical
  refine ⟨Nat.find hleads, Nat.find_spec hleads, fun i j hij hj heq ↦ ?_⟩
  -- a repeated node would let the loop between its two visits be cut out
  have hshort : next^[Nat.find hleads - j + i] a = root := by
    have hlong : next^[Nat.find hleads - j + j] a = root := by
      rw [Nat.sub_add_cancel hj]
      exact Nat.find_spec hleads
    rwa [iterate_add_apply, ← heq, ← iterate_add_apply] at hlong
  have hmin := Nat.find_min' hleads hshort
  omega

theorem ReachesWithoutRepeat.leadsTo (hreaches : ReachesWithoutRepeat next root a) :
    LeadsTo next root a := by
  obtain ⟨k, hk, -⟩ := hreaches
  exact ⟨k, hk⟩

/-- A fixed point other than the root is never left, so it does not lead to the root. -/
theorem not_leadsTo_of_fixed (hfixed : next a = a) (hne : a ≠ root) : ¬ LeadsTo next root a := by
  rintro ⟨k, hk⟩
  rw [iterate_fixed hfixed] at hk
  exact hne hk

/-- A set of nodes that is closed under the pointers and misses the root does not lead to it. -/
theorem not_leadsTo_of_closed {P : ι → Prop} (hclosed : ∀ x, P x → P (next x)) (hroot : ¬ P root)
    (ha : P a) : ¬ LeadsTo next root a := by
  rintro ⟨k, hk⟩
  have horbit : ∀ i, P (next^[i] a) := by
    intro i
    induction i with
    | zero => exact ha
    | succ i ih =>
      rw [iterate_succ_apply']
      exact hclosed _ ih
  exact hroot (hk ▸ horbit k)

/-- Pointers along which a rank falls, in a finite set, lead to the root. -/
theorem leadsTo_of_rank {β : Type v} [Preorder β] [DecidableLT β] (nodes : Finset ι) (rank : ι → β)
    (hstep : ∀ a ∈ nodes, a ≠ root → next a ≠ root → next a ∈ nodes ∧ rank (next a) < rank a)
    (ha : a ∈ nodes) : LeadsTo next root a := by
  induction hcard : (nodes.filter fun b ↦ rank b < rank a).card using Nat.strong_induction_on
    generalizing a with
  | _ n ih =>
    rcases eq_or_ne a root with rfl | hroot
    · exact leadsTo_root
    apply leadsTo_of_next
    rcases eq_or_ne (next a) root with hnext | hnext
    · rw [hnext]
      exact leadsTo_root
    obtain ⟨hmem, hlt⟩ := hstep a ha hroot hnext
    apply ih _ _ hmem rfl
    rw [← hcard]
    apply Finset.card_lt_card
    rw [Finset.ssubset_iff_of_subset]
    · refine ⟨next a, Finset.mem_filter.mpr ⟨hmem, hlt⟩, fun hbelow ↦ ?_⟩
      exact lt_irrefl _ (Finset.mem_filter.mp hbelow).2
    · intro b hb
      obtain ⟨hb, hbelow⟩ := Finset.mem_filter.mp hb
      exact Finset.mem_filter.mpr ⟨hb, hbelow.trans hlt⟩

section Redirect

variable [DecidableEq ι]

theorem AvoidsTo.iterate_update (hcount : ∀ i, i ≤ k → next^[i] b ≠ a) (i : ℕ) (hi : i ≤ k) :
    (update next a c)^[i] b = next^[i] b := by
  induction i with
  | zero => rfl
  | succ i ih =>
    rw [iterate_succ_apply', iterate_succ_apply', ih (by omega), update_of_ne (hcount i (by omega))]

/-- Redirecting `a` to `b` keeps every node leading to the root when `b` gets there without `a`. -/
theorem leadsTo_update (hb : AvoidsTo next root a b) (hc : c = a ∨ LeadsTo next root c) :
    LeadsTo (update next a b) root c := by
  obtain ⟨k, hroot, havoid⟩ := hb
  have ha : LeadsTo (update next a b) root a := by
    refine ⟨k + 1, ?_⟩
    rw [iterate_succ_apply, update_self, AvoidsTo.iterate_update havoid k le_rfl, hroot]
  rcases hc with rfl | ⟨m, hm⟩
  · exact ha
  induction m generalizing c with
  | zero => exact ⟨0, hm⟩
  | succ m ih =>
    by_cases hca : c = a
    · exact hca ▸ ha
    apply leadsTo_of_next
    rw [update_of_ne hca]
    exact ih hm

end Redirect

/-- Along a way to the root on which `f` never decreases, `f` stays at least its first value. -/
theorem le_along {β : Type v} [Preorder β] {f : ι → β} {k : ℕ}
    (hstep : ∀ i, i < k → f (next^[i] b) ≤ f (next^[i + 1] b)) (i : ℕ) (hi : i ≤ k) :
    f b ≤ f (next^[i] b) := by
  induction i with
  | zero => exact le_rfl
  | succ i ih => exact (ih (by omega)).trans (hstep i (by omega))

/-- A quantity that is smaller at `a` than at `b` and never decreases on the way from `b`
to the root keeps that way clear of `a`. -/
theorem avoidsTo_of_lt {β : Type v} [Preorder β] {f : ι → β} {k : ℕ} (hroot : next^[k] b = root)
    (hstep : ∀ i, i < k → f (next^[i] b) ≤ f (next^[i + 1] b)) (hlt : f a < f b) :
    AvoidsTo next root a b := by
  refine ⟨k, hroot, fun i hi heq ↦ ?_⟩
  have hle := le_along hstep i hi
  rw [heq] at hle
  exact absurd (hlt.trans_le hle) (lt_irrefl _)

end ContikiMaster.Lib
