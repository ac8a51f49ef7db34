import ContikiMaster.Lib.Call
import ContikiMaster.Lib.GrowingOrder
import ContikiMaster.Lib.Significand
import Mathlib.Algebra.GCDMonoid.Multiset
import Mathlib.Algebra.GCDMonoid.Nat

/-!
# The hyper-period and its sub-flows

`main` of `master_scheduler.py` computes the hyper-period as a running least common multiple, by a
division of doubles, and refuses a period that is relatively prime to the value so far. Every flow
is repeated until the end of the hyper-period.
-/

namespace ContikiMaster.Scheduler

open Lib List

inductive HyperPeriodError
  | flowsMissing
  | relativelyPrime (cycle period : ℕ)
  | overflow
  deriving DecidableEq

/-- `int(a / b)` for a divisor `b` of `a`: the quotient is rounded to a double, and a double is less
than `2 ^ 1024`. -/
def intTrueDiv (a b : ℕ) : Except HyperPeriodError ℕ :=
  let quotient := roundSignificand 53 (a / b)
  if 1024 < quotient.size then .error .overflow else .ok quotient

/-- The next value of `shortest_repeating_cycle`. -/
def nextCycle (cycle period : ℕ) : Except HyperPeriodError ℕ :=
  if ¬ (cycle = 1 ∨ period = 1) ∧ cycle.gcd period = 1 then .error (.relativelyPrime cycle period)
  else intTrueDiv (cycle * period) (cycle.gcd period)

/-- `shortest_repeating_cycle` for the periods in the order of the flows. -/
def shortestRepeatingCycle : List ℕ → Except HyperPeriodError ℕ
  | [] => .error .flowsMissing
  | period :: periods => periods.foldlM nextCycle period

structure Communication where
  source : ℕ
  destination : ℕ
  period : ℕ
  releaseTime : Option ℕ
  deadline : Option ℕ
  deriving DecidableEq

/-- The release time of the first sub-flow; the user counts from 1. -/
def Communication.firstReleaseTime (c : Communication) : ℕ :=
  match c.releaseTime with
  | none => 0
  | some releaseTime => if 0 < releaseTime then releaseTime - 1 else releaseTime

/-- The arguments with which `main` makes a `Flow`. -/
structure SubFlow where
  flowId : ℕ
  subFlowId : ℕ
  source : ℕ
  destination : ℕ
  period : ℕ
  releaseTime : ℕ
  deadline : Option ℕ
  deriving DecidableEq

/-- A flow that `main` makes; every sub-flow is released one period after the one before. -/
def Communication.subFlow (c : Communication) (flowId subFlowId periodIdx : ℕ) : SubFlow where
  flowId := flowId
  subFlowId := subFlowId
  source := c.source
  destination := c.destination
  period := c.period
  releaseTime := c.firstReleaseTime + periodIdx * c.period
  deadline := c.deadline

/-- `flow_id`, `sub_flow_id` and `flows` in the loop of `main`. -/
structure FlowList where
  flowId : ℕ
  subFlowId : ℕ
  flows : List SubFlow

/-- The values of `period_idx` up to the `break`. -/
def periodIndices (cycle period : ℕ) : List ℕ :=
  (range cycle).takeWhile fun periodIdx ↦ decide (periodIdx * period < cycle)

def addSubFlows (cycle : ℕ) (x : FlowList) (c : Communication) : FlowList :=
  let indices := periodIndices cycle c.period
  { flowId := x.flowId + 1
    subFlowId := x.subFlowId + indices.length
    flows := x.flows ++ indices.map fun periodIdx ↦
      c.subFlow x.flowId (x.subFlowId + periodIdx) periodIdx }

/-- The hyper-period and the flows of `main`. -/
def createFlows (communications : List Communication) :
    Except HyperPeriodError (ℕ × List SubFlow) := do
  let cycle ← shortestRepeatingCycle (communications.map Communication.period)
  return (cycle, (communications.foldl (addSubFlows cycle) ⟨1, 1, []⟩).flows)

/-- A number that is a double. -/
def IsDouble (n : ℕ) : Prop := HasSignificand 53 n ∧ n.size ≤ 1024

theorem isDouble_of_lt {n : ℕ} (hn : n < 2 ^ 53) : IsDouble n :=
  ⟨hasSignificand_of_lt hn, (Nat.size_le.mpr hn).trans (by decide)⟩

/-- Two periods have a common factor. -/
def SharesFactor (p q : ℕ) : Prop := ¬ p.Coprime q

def leastCommonMultiple (periods : List ℕ) : ℕ := (periods : Multiset ℕ).lcm

/-- The periods that the test for relatively prime ones looks at. -/
def properPeriods (periods : List ℕ) : List ℕ := periods.filter fun period ↦ decide (period ≠ 1)

section Cycle

variable {periods order : List ℕ} {cycle p q n : ℕ}

@[simp] theorem leastCommonMultiple_cons :
    leastCommonMultiple (p :: periods) = p.lcm (leastCommonMultiple periods) := rfl

theorem leastCommonMultiple_perm (hperm : order.Perm periods) :
    leastCommonMultiple order = leastCommonMultiple periods := by
  unfold leastCommonMultiple
  rw [Multiset.coe_eq_coe.mpr hperm]

theorem leastCommonMultiple_snoc :
    leastCommonMultiple (periods ++ [p]) = (leastCommonMultiple periods).lcm p := by
  rw [leastCommonMultiple_perm (perm_append_singleton p periods), leastCommonMultiple_cons,
    Nat.lcm_comm]

theorem leastCommonMultiple_pos (hpos : ∀ p ∈ periods, 0 < p) :
    0 < leastCommonMultiple periods := by
  induction periods with
  | nil => exact one_pos
  | cons p periods ih =>
    rw [leastCommonMultiple_cons]
    exact Nat.lcm_pos (hpos p mem_cons_self) (ih fun q hq ↦ hpos q (mem_cons_of_mem p hq))

theorem dvd_leastCommonMultiple (hp : p ∈ periods) : p ∣ leastCommonMultiple periods :=
  Multiset.dvd_lcm hp

theorem coprime_leastCommonMultiple_iff :
    (leastCommonMultiple periods).Coprime q ↔ ∀ p ∈ periods, p.Coprime q := by
  induction periods with
  | nil => exact iff_of_true (Nat.coprime_one_left q) fun p hp ↦ nomatch hp
  | cons p periods ih =>
    rw [leastCommonMultiple_cons, forall_mem_cons, ← ih]
    constructor
    · intro hall
      exact ⟨hall.of_dvd_left (Nat.dvd_lcm_left _ _), hall.of_dvd_left (Nat.dvd_lcm_right _ _)⟩
    · rintro ⟨hfirst, hrest⟩
      exact (Nat.Coprime.mul_left hfirst hrest).of_dvd_left (Nat.lcm_dvd_mul _ _)

theorem IsDouble.of_dvd (hn : IsDouble n) (hp : p ∣ n) (hpos : 0 < n) : IsDouble p :=
  ⟨hn.1.of_dvd hp hpos, (Nat.size_le_size (Nat.le_of_dvd hpos hp)).trans hn.2⟩

theorem intTrueDiv_gcd (hp : 0 < p) (hdouble : IsDouble (p.lcm q)) :
    intTrueDiv (p * q) (p.gcd q) = .ok (p.lcm q) := by
  unfold intTrueDiv
  rw [← Nat.gcd_mul_lcm p q, Nat.mul_div_cancel_left _ (Nat.gcd_pos_of_pos_left q hp),
    roundSignificand_eq_self_iff.mpr hdouble.1]
  exact if_neg (not_lt.mpr hdouble.2)

theorem nextCycle_eq_ok_iff (hp : 0 < p) (hdouble : IsDouble (p.lcm q)) :
    nextCycle p q = .ok cycle ↔ (p ≠ 1 → q ≠ 1 → SharesFactor p q) ∧ cycle = p.lcm q := by
  unfold nextCycle SharesFactor Nat.Coprime
  rw [intTrueDiv_gcd hp hdouble]
  split
  · rename_i hprime
    obtain ⟨hproper, hcoprime⟩ := hprime
    obtain ⟨hp_ne, hq_ne⟩ := not_or.mp hproper
    exact iff_of_false (fun heq ↦ nomatch heq) fun hshares ↦ hshares.1 hp_ne hq_ne hcoprime
  · rename_i haccepted
    rw [Except.ok.injEq, eq_comm, and_iff_right]
    intro hp_ne hq_ne hcoprime
    exact haccepted ⟨not_or.mpr ⟨hp_ne, hq_ne⟩, hcoprime⟩

/-! ## Which orders are accepted -/

theorem properPeriods_snoc :
    properPeriods (periods ++ [p]) = if p ≠ 1 then properPeriods periods ++ [p]
      else properPeriods periods := by
  unfold properPeriods
  rw [filter_append]
  by_cases hp : p = 1
  · simp [hp]
  · simp [hp]

theorem sharesFactor_leastCommonMultiple_iff :
    SharesFactor (leastCommonMultiple periods) q ↔ ∃ p ∈ properPeriods periods, SharesFactor p q := by
  unfold SharesFactor
  rw [coprime_leastCommonMultiple_iff]
  push Not
  constructor
  · rintro ⟨p, hp, hshares⟩
    refine ⟨p, mem_filter.mpr ⟨hp, decide_eq_true ?_⟩, hshares⟩
    rintro rfl
    exact hshares (Nat.coprime_one_left q)
  · rintro ⟨p, hp, hshares⟩
    exact ⟨p, (mem_filter.mp hp).1, hshares⟩

theorem leastCommonMultiple_eq_one_iff :
    leastCommonMultiple periods = 1 ↔ properPeriods periods = [] := by
  unfold properPeriods
  rw [filter_eq_nil_iff]
  constructor
  · intro hone p hp
    have hdvd := dvd_leastCommonMultiple hp
    rw [hone, Nat.dvd_one] at hdvd
    simp [hdvd]
  · intro hall
    apply Nat.dvd_one.mp
    apply Multiset.lcm_dvd.mpr
    intro p hp
    have hone := hall p hp
    simp only [ne_eq, decide_eq_true_eq, not_not] at hone
    exact hone.dvd

theorem grows_properPeriods_snoc_iff : Grows SharesFactor (properPeriods (periods ++ [q])) ↔
      Grows SharesFactor (properPeriods periods) ∧
        (leastCommonMultiple periods ≠ 1 → q ≠ 1 → SharesFactor (leastCommonMultiple periods) q) := by
  rw [properPeriods_snoc, ne_eq (leastCommonMultiple _), leastCommonMultiple_eq_one_iff,
    sharesFactor_leastCommonMultiple_iff]
  by_cases hone : q = 1
  · rw [if_neg (not_not.mpr hone), and_iff_left]
    exact fun _ hne ↦ absurd hone hne
  · rw [if_pos hone, grows_snoc_iff]
    exact and_congr_right fun _ ↦ forall_congr' fun _ ↦ (imp_iff_right hone).symm

theorem shortestRepeatingCycle_eq_ok_iff (hpos : ∀ p ∈ periods, 0 < p)
    (hdouble : IsDouble (leastCommonMultiple periods)) :
    shortestRepeatingCycle periods = .ok cycle ↔
      periods ≠ [] ∧ Grows SharesFactor (properPeriods periods) ∧
        cycle = leastCommonMultiple periods := by
  cases periods with
  | nil => exact iff_of_false (fun heq ↦ nomatch heq) fun hall ↦ hall.1 rfl
  | cons p periods =>
    rw [and_iff_right (cons_ne_nil p periods)]
    change periods.foldlM nextCycle p = .ok cycle ↔ _
    induction periods using reverseRecOn generalizing cycle with
    | nil =>
      have hgrows : Grows SharesFactor (properPeriods [p]) := by
        apply grows_of_pairwise
        exact (pairwise_singleton _ p).filter _
      rw [and_iff_right hgrows, leastCommonMultiple_cons]
      change Except.ok p = .ok cycle ↔ cycle = p.lcm 1
      rw [Except.ok.injEq, eq_comm, Nat.lcm_one_right]
    | append_singleton periods q ih =>
      have hpos' : ∀ r ∈ p :: periods, 0 < r := by
        intro r hr
        exact hpos r (mem_append_left [q] hr)
      have hlcm_pos := leastCommonMultiple_pos hpos'
      have hq : 0 < q := hpos q (mem_append_right (p :: periods) mem_cons_self)
      have hsnoc : leastCommonMultiple (p :: (periods ++ [q])) =
          (leastCommonMultiple (p :: periods)).lcm q := by
        rw [← cons_append]
        exact leastCommonMultiple_snoc
      rw [hsnoc] at hdouble ⊢
      have hearlier := fun cycle ↦ @ih cycle hpos'
        (hdouble.of_dvd (Nat.dvd_lcm_left _ _) (Nat.lcm_pos hlcm_pos hq))
      rw [← cons_append, grows_properPeriods_snoc_iff, foldlM_append]
      constructor
      · intro hall
        obtain ⟨middle, hfirst, hlast⟩ := bind_eq_ok hall
        obtain ⟨hgrows, rfl⟩ := (hearlier middle).mp hfirst
        rw [foldlM_cons] at hlast
        obtain ⟨value, hcall, hdone⟩ := bind_eq_ok hlast
        cases hdone
        obtain ⟨hshares, hcycle⟩ := (nextCycle_eq_ok_iff hlcm_pos hdouble).mp hcall
        exact ⟨⟨hgrows, hshares⟩, hcycle⟩
      · rintro ⟨⟨hgrows, hshares⟩, hcycle⟩
        rw [(hearlier _).mpr ⟨hgrows, rfl⟩, ok_bind, foldlM_cons,
          (nextCycle_eq_ok_iff hlcm_pos hdouble).mpr ⟨hshares, hcycle⟩]
        rfl

theorem grows_properPeriods_perm_iff :
    (∀ order, order.Perm periods → (Grows SharesFactor (properPeriods order) ↔
        Grows SharesFactor (properPeriods periods))) ↔
      (properPeriods periods).Pairwise SharesFactor ∨ Splits SharesFactor (properPeriods periods) := by
  have hsymm : ∀ p q, SharesFactor p q → SharesFactor q p :=
    fun p q hshares hcoprime ↦ hshares hcoprime.symm
  have hrefl : ∀ p ∈ properPeriods periods, SharesFactor p p := by
    intro p hp hcoprime
    exact of_decide_eq_true (mem_filter.mp hp).2 ((Nat.coprime_self p).mp hcoprime)
  rw [← grows_perm_iff hsymm hrefl]
  constructor
  · intro hany proper hperm
    -- the other periods may stand at the end
    have hfilter : properPeriods (proper ++ periods.filter fun p ↦ !decide (p ≠ 1)) = proper := by
      unfold properPeriods
      have hkept : proper.filter (fun p ↦ decide (p ≠ 1)) = proper :=
        filter_eq_self.mpr fun p hp ↦ (mem_filter.mp (hperm.mem_iff.mp hp)).2
      have hdropped : ∀ p, ¬ (decide (p ≠ 1) && !decide (p ≠ 1)) = true := by simp
      rw [filter_append, filter_filter, hkept,
        filter_eq_nil_iff.mpr fun p _ ↦ hdropped p, append_nil]
    rw [← hany _ ((hperm.append_right _).trans (filter_append_perm _ periods)), hfilter]
  · intro hany order hperm
    exact hany _ (hperm.filter _)

/-- Neither whether the periods are accepted nor the hyper-period depends on their order. -/
def OrderIndependent (periods : List ℕ) : Prop :=
  ∀ order, order.Perm periods →
    ((∃ cycle, shortestRepeatingCycle order = .ok cycle) ↔
      ∃ cycle, shortestRepeatingCycle periods = .ok cycle) ∧
    ∀ cycle cycle', shortestRepeatingCycle order = .ok cycle →
      shortestRepeatingCycle periods = .ok cycle' → cycle = cycle'

theorem accepted_iff (hpos : ∀ p ∈ periods, 0 < p)
    (hdouble : IsDouble (leastCommonMultiple periods)) :
    (∃ cycle, shortestRepeatingCycle periods = .ok cycle) ↔
      periods ≠ [] ∧ Grows SharesFactor (properPeriods periods) := by
  constructor
  · rintro ⟨cycle, hcycle⟩
    obtain ⟨hne, hgrows, -⟩ := (shortestRepeatingCycle_eq_ok_iff hpos hdouble).mp hcycle
    exact ⟨hne, hgrows⟩
  · rintro ⟨hne, hgrows⟩
    exact ⟨_, (shortestRepeatingCycle_eq_ok_iff hpos hdouble).mpr ⟨hne, hgrows, rfl⟩⟩

theorem orderIndependent_iff (hpos : ∀ p ∈ periods, 0 < p)
    (hdouble : IsDouble (leastCommonMultiple periods)) : OrderIndependent periods ↔
      (properPeriods periods).Pairwise SharesFactor ∨ Splits SharesFactor (properPeriods periods) := by
  rw [← grows_properPeriods_perm_iff]
  have horder : ∀ order, order.Perm periods → (∀ p ∈ order, 0 < p) ∧
      IsDouble (leastCommonMultiple order) := by
    intro order hperm
    rw [leastCommonMultiple_perm hperm]
    exact ⟨fun p hp ↦ hpos p (hperm.mem_iff.mp hp), hdouble⟩
  rcases eq_or_ne periods [] with rfl | hne
  · refine iff_of_true (fun order hperm ↦ ?_) fun order hperm ↦ ?_
    · rw [perm_nil.mp hperm]
      exact ⟨Iff.rfl, fun cycle cycle' hcycle ↦ nomatch hcycle⟩
    · rw [perm_nil.mp hperm]
  · apply forall_congr'
    intro order
    apply imp_congr_right
    intro hperm
    obtain ⟨horder_pos, horder_double⟩ := horder order hperm
    have horder_ne : order ≠ [] := by
      rintro rfl
      exact hne (nil_perm.mp hperm)
    rw [accepted_iff horder_pos horder_double, accepted_iff hpos hdouble, and_iff_right horder_ne,
      and_iff_right hne, and_iff_left]
    intro cycle cycle' hcycle hcycle'
    obtain ⟨-, -, rfl⟩ := (shortestRepeatingCycle_eq_ok_iff horder_pos horder_double).mp hcycle
    obtain ⟨-, -, rfl⟩ := (shortestRepeatingCycle_eq_ok_iff hpos hdouble).mp hcycle'
    exact leastCommonMultiple_perm hperm

end Cycle

/-! ## The sub-flows -/

section SubFlows

variable {cycle period k n : ℕ} {communications : List Communication} {c : Communication}

theorem takeWhile_range (hk : k ≤ n) :
    (range n).takeWhile (fun i ↦ decide (i < k)) = range k := by
  obtain ⟨d, rfl⟩ := Nat.exists_eq_add_of_le hk
  rw [range_add, takeWhile_append_of_pos]
  · cases d with
    | zero => simp
    | succ d => simp [range_succ_eq_map]
  · intro i hi
    exact decide_eq_true (mem_range.mp hi)

theorem periodIndices_of_dvd (hperiod : 0 < period) (hdvd : period ∣ cycle) :
    periodIndices cycle period = range (cycle / period) := by
  unfold periodIndices
  rw [← takeWhile_range (Nat.div_le_self cycle period)]
  congr 1
  ext i
  rw [decide_eq_decide, Nat.lt_div_iff_mul_lt_of_dvd hperiod.ne' hdvd]

/-- The flows of a communication: as many as periods fit into the hyper-period, released one period
after the other. -/
def HasSubFlows (cycle : ℕ) (flows : List SubFlow) (k : ℕ) (c : Communication) : Prop :=
  ∃ firstId, flows.filter (fun flow ↦ decide (flow.flowId = k + 1)) =
    (range (cycle / c.period)).map fun periodIdx ↦
      c.subFlow (k + 1) (firstId + periodIdx) periodIdx

/-- What the loop over the communications has made so far. -/
structure SubFlowsMade (cycle : ℕ) (communications : List Communication) (x : FlowList) : Prop where
  flowId : x.flowId = communications.length + 1
  earlier : ∀ flow ∈ x.flows, flow.flowId ≤ communications.length
  made : ∀ k c, communications[k]? = some c → HasSubFlows cycle x.flows k c

theorem SubFlowsMade.add {x : FlowList} (hx : SubFlowsMade cycle communications x)
    (hperiod : 0 < c.period) (hdvd : c.period ∣ cycle) :
    SubFlowsMade cycle (communications ++ [c]) (addSubFlows cycle x c) := by
  have hnew : ∀ flow ∈ (periodIndices cycle c.period).map fun periodIdx ↦
      c.subFlow x.flowId (x.subFlowId + periodIdx) periodIdx,
      flow.flowId = communications.length + 1 := by
    intro flow hflow
    obtain ⟨periodIdx, -, rfl⟩ := List.mem_map.mp hflow
    exact hx.flowId
  constructor
  · rw [List.length_append, List.length_singleton, ← hx.flowId]
    rfl
  · intro flow hflow
    rw [List.length_append]
    rcases List.mem_append.mp hflow with hflow | hflow
    · exact (hx.earlier flow hflow).trans (Nat.le_succ _)
    · exact (hnew flow hflow).le
  · intro k d hd
    unfold HasSubFlows addSubFlows
    dsimp only
    rcases lt_or_ge k communications.length with hk | hk
    · rw [List.getElem?_append_left hk] at hd
      obtain ⟨firstId, hmade⟩ := hx.made k d hd
      refine ⟨firstId, ?_⟩
      rw [List.filter_append, hmade, List.filter_eq_nil_iff.mpr, List.append_nil]
      intro flow hflow
      rw [hnew flow hflow, decide_eq_true_eq]
      omega
    · have hlast : k = communications.length ∧ d = c := by
        rw [List.getElem?_append_right hk] at hd
        obtain ⟨hbound, hget⟩ := List.getElem?_eq_some_iff.mp hd
        rw [List.length_singleton] at hbound
        rw [List.getElem_singleton] at hget
        exact ⟨by omega, hget.symm⟩
      obtain ⟨rfl, rfl⟩ := hlast
      refine ⟨x.subFlowId, ?_⟩
      rw [List.filter_append, List.filter_eq_nil_iff.mpr, List.nil_append,
        List.filter_eq_self.mpr, periodIndices_of_dvd hperiod hdvd, hx.flowId]
      · intro flow hflow
        exact decide_eq_true (hnew flow hflow)
      · intro flow hflow
        have hle := hx.earlier flow hflow
        rw [decide_eq_true_eq]
        omega

theorem subFlowsMade_foldl (hpos : ∀ c ∈ communications, 0 < c.period)
    (hdvd : ∀ c ∈ communications, c.period ∣ cycle) :
    SubFlowsMade cycle communications (communications.foldl (addSubFlows cycle) ⟨1, 1, []⟩) := by
  induction communications using reverseRecOn with
  | nil =>
    constructor
    · rfl
    · exact fun flow hflow ↦ nomatch hflow
    · exact fun k c hc ↦ nomatch hc
  | append_singleton communications c ih =>
    have hc : c ∈ communications ++ [c] := mem_append_right _ mem_cons_self
    rw [foldl_append]
    apply SubFlowsMade.add _ (hpos c hc) (hdvd c hc)
    exact ih (fun d hd ↦ hpos d (mem_append_left _ hd))
      fun d hd ↦ hdvd d (mem_append_left _ hd)

/-- For positive periods whose least common multiple is a double: an order of the flows is accepted
if every proper period but the first shares a factor with an earlier one, and then the hyper-period
is the least common multiple; which orders are accepted is independent of the order exactly if every
two proper periods share a factor, or they fall into two groups that do not; and every flow has its
sub-flows. -/
theorem hyperPeriod_spec (hpos : ∀ p ∈ communications.map Communication.period, 0 < p)
    (hdouble : IsDouble (leastCommonMultiple (communications.map Communication.period))) :
    (∀ cycle, shortestRepeatingCycle (communications.map Communication.period) = .ok cycle ↔
      communications ≠ [] ∧
        Grows SharesFactor (properPeriods (communications.map Communication.period)) ∧
        cycle = leastCommonMultiple (communications.map Communication.period)) ∧
    (OrderIndependent (communications.map Communication.period) ↔
      (properPeriods (communications.map Communication.period)).Pairwise SharesFactor ∨
        Splits SharesFactor (properPeriods (communications.map Communication.period))) ∧
    ∀ cycle flows, createFlows communications = .ok (cycle, flows) →
      cycle = leastCommonMultiple (communications.map Communication.period) ∧
        ∀ k c, communications[k]? = some c → HasSubFlows cycle flows k c := by
  refine ⟨fun cycle ↦ ?_, orderIndependent_iff hpos hdouble, fun cycle flows hcreate ↦ ?_⟩
  · rw [shortestRepeatingCycle_eq_ok_iff hpos hdouble, ne_eq, map_eq_nil_iff]
  · obtain ⟨cycle', hcycle, hdone⟩ := bind_eq_ok hcreate
    cases hdone
    obtain ⟨-, -, rfl⟩ := (shortestRepeatingCycle_eq_ok_iff hpos hdouble).mp hcycle
    refine ⟨rfl, (subFlowsMade_foldl (fun c hc ↦ ?_) fun c hc ↦ ?_).made⟩
    · exact hpos _ (mem_map_of_mem hc)
    · exact dvd_leastCommonMultiple (mem_map_of_mem hc)

def fourAndSix : List Communication := [⟨1, 2, 4, none, none⟩, ⟨2, 3, 6, some 2, some 5⟩]

theorem hyperPeriod_fourAndSix :
    shortestRepeatingCycle [4, 6] = .ok 12 ∧
      ∃ flows, createFlows fourAndSix = .ok (12, flows) ∧
        HasSubFlows 12 flows 1 ⟨2, 3, 6, some 2, some 5⟩ := by
  have hlcm : leastCommonMultiple [4, 6] = 12 := by decide +kernel
  have hdouble : IsDouble (leastCommonMultiple (fourAndSix.map Communication.period)) := by
    change IsDouble (leastCommonMultiple [4, 6])
    rw [hlcm]
    exact isDouble_of_lt (by decide)
  have hcycle : shortestRepeatingCycle [4, 6] = .ok 12 := by decide +kernel
  have hcreate : createFlows fourAndSix =
      .ok (12, (fourAndSix.foldl (addSubFlows 12) ⟨1, 1, []⟩).flows) := by
    change (shortestRepeatingCycle [4, 6] >>= fun cycle ↦ _) = _
    rw [hcycle]
    rfl
  obtain ⟨-, -, hflows⟩ := hyperPeriod_spec (by decide) hdouble
  exact ⟨hcycle, _, hcreate, (hflows _ _ hcreate).2 1 _ rfl⟩

/-- The periods 2, 6 and 3 are accepted, 2, 3 and 6 are not. -/
theorem not_orderIndependent_two_three : ¬ OrderIndependent [2, 3, 6] := by
  intro hindependent
  have haccepted : shortestRepeatingCycle [2, 6, 3] = .ok 6 := by decide +kernel
  have hrefused : shortestRepeatingCycle [2, 3, 6] = .error (.relativelyPrime 2 3) := by
    decide +kernel
  obtain ⟨cycle, hcycle⟩ := (hindependent [2, 6, 3] (by decide)).1.mp ⟨6, haccepted⟩
  rw [hrefused] at hcycle
  cases hcycle

-- the division of doubles loses the last bit of a larger least common multiple
example : shortestRepeatingCycle [2 ^ 53 + 1, 2 ^ 53 + 1] = .ok (2 ^ 53) := by decide +kernel

end SubFlows

end ContikiMaster.Scheduler
