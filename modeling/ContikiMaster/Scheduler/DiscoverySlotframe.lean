import ContikiMaster.Lib.StableSort
import ContikiMaster.Scheduler.Cells
import ContikiMaster.Scheduler.ConflictFree

/-!
# The handle of the discovery slotframe

The generator writes as `max_slot_frame_used` the number of the last flow, not the largest.
The flows stand in the order of the algorithm by then, so the value is the largest number
exactly when the flow that ends this order carries it.
-/

namespace ContikiMaster.Scheduler

open Lib List

/-- The loop of `Contiki_schedule.generate` over the flows of the schedule. -/
def maxSlotUsed (flows : List Flow) : ℕ := flows.foldl (fun _ flow ↦ flow.flowNumber) 0

theorem maxSlotUsed_eq {flows : List Flow} {last : Flow} (hlast : flows.getLast? = some last) :
    maxSlotUsed flows = last.flowNumber := by
  obtain ⟨front, rfl⟩ := getLast?_eq_some_iff.mp hlast
  unfold maxSlotUsed
  rw [foldl_append]
  rfl

def cellCount (args : CreateArgs) (flow : Flow) : ℕ :=
  ((createCells args.etx args.strategy args.windowSizeAlgorithm args.fixedWindowSize
    flow).toOption.map length).getD 0

/-- One flow may come before another in the order of the algorithm. -/
def Precedes (args : CreateArgs) (f g : Flow) : Prop :=
  match args.algorithm with
  | .rLpf => cellCount args g ≤ cellCount args f
  | .edf => f.dueTime ≤ g.dueTime
  | .rms => f.period < g.period ∨ (f.period = g.period ∧ f.dueTime ≤ g.dueTime)
  | .cLlf => True

/-- The given flow that ends the order of the algorithm, the later one of equals, carries the
largest flow number. -/
def LastIsLargest (args : CreateArgs) (flows : List Flow) : Prop :=
  ∃ before last after, flows = before ++ last :: after ∧
    (∀ flow ∈ before, Precedes args flow last) ∧ (∀ flow ∈ after, ¬ Precedes args last flow) ∧
    ∀ flow ∈ flows, flow.flowNumber ≤ last.flowNumber

section Order

/-- The order of the algorithm, on flows that have their cells. -/
def ReadyPrecedes (algorithm : SchedulingAlgorithm) (f g : Flow) : Prop :=
  match algorithm with
  | .rLpf => g.cells.length ≤ f.cells.length
  | .edf => f.dueTime ≤ g.dueTime
  | .rms => f.period < g.period ∨ (f.period = g.period ∧ f.dueTime ≤ g.dueTime)
  | .cLlf => True

instance (algorithm : SchedulingAlgorithm) : DecidableRel (ReadyPrecedes algorithm) := fun f g ↦
  match algorithm with
  | .rLpf => inferInstanceAs (Decidable (g.cells.length ≤ f.cells.length))
  | .edf => inferInstanceAs (Decidable (f.dueTime ≤ g.dueTime))
  | .rms =>
    inferInstanceAs (Decidable (f.period < g.period ∨ (f.period = g.period ∧ f.dueTime ≤ g.dueTime)))
  | .cLlf => inferInstanceAs (Decidable True)

instance (algorithm : SchedulingAlgorithm) : Std.Total (ReadyPrecedes algorithm) where
  total f g := by
    cases algorithm with
    | rLpf => exact le_total _ _
    | edf => exact le_total _ _
    | rms =>
      change (_ ∨ _) ∨ (_ ∨ _)
      omega
    | cLlf => exact .inl trivial

instance (algorithm : SchedulingAlgorithm) : IsTrans Flow (ReadyPrecedes algorithm) where
  trans f g h hfg hgh := by
    cases algorithm with
    | rLpf => exact le_trans hgh hfg
    | edf => exact le_trans hfg hgh
    | rms =>
      change _ ∨ _ at hfg hgh ⊢
      omega
    | cLlf => trivial

theorem orderFlows_eq_insertionSort (algorithm : SchedulingAlgorithm) (flows : List Flow) :
    orderFlows algorithm flows = flows.insertionSort (ReadyPrecedes algorithm) := by
  cases algorithm with
  | rLpf => rfl
  | edf => rfl
  | rms => rfl
  | cLlf =>
    have hall : flows.Pairwise (ReadyPrecedes .cLlf) := pairwise_of_forall fun _ _ ↦ trivial
    exact hall.insertionSort_eq.symm

theorem Initialised.cells_length {args : CreateArgs} {flow ready : Flow} {id : ℕ}
    (hflow : Initialised args flow id ready) : ready.cells.length = cellCount args flow := by
  obtain ⟨participants, hcreate, hcells⟩ := hflow.cells
  unfold cellCount
  rw [hcreate, hcells, length_map, length_zipIdx]
  rfl

theorem readyPrecedes_iff {args : CreateArgs} {f g y z : Flow} {i j : ℕ}
    (hf : Initialised args f i y) (hg : Initialised args g j z) :
    ReadyPrecedes args.algorithm y z ↔ Precedes args f g := by
  unfold ReadyPrecedes Precedes Flow.dueTime
  rw [hf.cells_length, hg.cells_length, hf.deadline, hg.deadline, hf.period, hg.period]

end Order

section Generated

variable {args : CreateArgs} {fuel : ℕ} {flows ready : List Flow} {s : Schedule}

theorem initFlows_forall₂_flows (hcall : initFlows args flows = .ok ready) :
    List.Forall₂ (fun flow y ↦ ∃ id, Initialised args flow id y) flows ready := by
  have hall := initFlows_forall₂ hcall
  have hfst : flows = flows.zipIdx.map Prod.fst := zipIdx_map_fst 0 flows |>.symm
  rw [hfst, forall₂_map_left_iff]
  exact hall.imp fun x y hflow ↦ ⟨x.2, hflow⟩

theorem getLast?_orderFlows_iff {before after before' after' : List Flow} {last last' : Flow}
    (hready : ready = before' ++ last' :: after') (hnodup : ready.Nodup)
    (hbefore : List.Forall₂ (fun flow y ↦ ∃ id, Initialised args flow id y) before before')
    (hlast : ∃ id, Initialised args last id last')
    (hafter : List.Forall₂ (fun flow y ↦ ∃ id, Initialised args flow id y) after after') :
    (orderFlows args.algorithm ready).getLast? = some last' ↔
      (∀ flow ∈ before, Precedes args flow last) ∧ ∀ flow ∈ after, ¬ Precedes args last flow := by
  obtain ⟨k, hlast⟩ := hlast
  rw [hready] at hnodup
  rw [hready, orderFlows_eq_insertionSort, getLast?_insertionSort_iff _ hnodup]
  refine and_congr ⟨fun hall flow hflow ↦ ?_, fun hall y hy ↦ ?_⟩
    ⟨fun hall flow hflow ↦ ?_, fun hall y hy ↦ ?_⟩
  · obtain ⟨y, hy, i, hinit⟩ := forall₂_exists_right hbefore hflow
    exact (readyPrecedes_iff hinit hlast).mp (hall y hy)
  · obtain ⟨flow, hflow, i, hinit⟩ := forall₂_exists_right hbefore.flip hy
    exact (readyPrecedes_iff hinit hlast).mpr (hall flow hflow)
  · obtain ⟨y, hy, i, hinit⟩ := forall₂_exists_right hafter hflow
    exact fun hprecedes ↦ hall y hy ((readyPrecedes_iff hlast hinit).mpr hprecedes)
  · obtain ⟨flow, hflow, i, hinit⟩ := forall₂_exists_right hafter.flip hy
    exact fun hprecedes ↦ hall flow hflow ((readyPrecedes_iff hlast hinit).mp hprecedes)

theorem flows_ne_nil_of_create (hcreate : create args fuel flows = .ok s) : flows ≠ [] := by
  rintro rfl
  obtain ⟨x, hplaced, hfinal⟩ := placeCells_of_create hcreate
  obtain ⟨-, -, -, hlength, -⟩ := placeCells_spec hplaced
  obtain ⟨-, hkept, -⟩ := finalise_spec hfinal
  rw [hlength] at hkept
  unfold gridLength at hkept
  simp at hkept

/-- The value written for `max_slot_frame_used` bounds every flow number exactly when the flow that
ends the order of the algorithm has the largest one. -/
theorem create_maxSlotUsed_iff (hcreate : create args fuel flows = .ok s) :
    (∀ flow ∈ s.flows, flow.flowNumber ≤ maxSlotUsed s.flows) ↔ LastIsLargest args flows := by
  have hne := flows_ne_nil_of_create hcreate
  obtain ⟨x, hplaced, hfinal⟩ := placeCells_of_create hcreate
  obtain ⟨ready, hready, hordered, -⟩ := placeCells_spec hplaced
  obtain ⟨-, -, hflows, -⟩ := finalise_spec hfinal
  rw [hflows, hordered]
  have hperm := orderFlows_perm args.algorithm ready
  have hall := initFlows_forall₂_flows hready
  have hnodup : ready.Nodup := (ownCells_initFlows hready).ids.of_map
  constructor
  · intro hbound
    have hsome : orderFlows args.algorithm ready ≠ [] := by
      rw [← length_pos_iff, hperm.length_eq, ← hall.length_eq, length_pos_iff]
      exact hne
    have hlast := getLast?_eq_some_getLast hsome
    generalize (orderFlows args.algorithm ready).getLast hsome = last' at hlast
    have hmem : last' ∈ ready := hperm.mem_iff.mp (mem_of_getLast? hlast)
    obtain ⟨before', after', hsplit⟩ := append_of_mem hmem
    have hall' := hall
    rw [hsplit] at hall'
    obtain ⟨before, last, after, hgiven, hbefore, hmark, hafter⟩ := forall₂_append_cons hall'
    obtain ⟨hprecede, hfollow⟩ :=
      (getLast?_orderFlows_iff hsplit hnodup hbefore hmark hafter).mp hlast
    refine ⟨before, last, after, hgiven, hprecede, hfollow, fun flow hflow ↦ ?_⟩
    obtain ⟨y, hy, id, hinit⟩ := forall₂_exists_right hall hflow
    obtain ⟨k, hlastInit⟩ := hmark
    calc flow.flowNumber = y.flowNumber := hinit.flowNumber.symm
      _ ≤ maxSlotUsed (orderFlows args.algorithm ready) := hbound y (hperm.mem_iff.mpr hy)
      _ = last'.flowNumber := maxSlotUsed_eq hlast
      _ = last.flowNumber := hlastInit.flowNumber
  · rintro ⟨before, last, after, hgiven, hprecede, hfollow, hlargest⟩ y hy
    have hall' := hall.flip
    rw [hgiven] at hall'
    obtain ⟨before', last', after', hsplit, hbefore, hmark, hafter⟩ := forall₂_append_cons hall'
    have hlast := (getLast?_orderFlows_iff hsplit hnodup hbefore.flip hmark hafter.flip).mpr
      ⟨hprecede, hfollow⟩
    obtain ⟨flow, hflow, id, hinit⟩ := forall₂_exists_right hall.flip (hperm.mem_iff.mp hy)
    obtain ⟨k, hlastInit⟩ := hmark
    calc y.flowNumber = flow.flowNumber := hinit.flowNumber
      _ ≤ last.flowNumber := hlargest flow hflow
      _ = last'.flowNumber := hlastInit.flowNumber.symm
      _ = maxSlotUsed (orderFlows args.algorithm ready) := (maxSlotUsed_eq hlast).symm

theorem create_maxSlotUsed_iff_edf :
    ∃ s, create (plainArgs .edf) 0 [pathFlow 1 1 3 [2], pathFlow 2 4 5 []] = .ok s ∧
      ((∀ flow ∈ s.flows, flow.flowNumber ≤ maxSlotUsed s.flows) ↔
        LastIsLargest (plainArgs .edf) [pathFlow 1 1 3 [2], pathFlow 2 4 5 []]) := by
  obtain ⟨s, hs⟩ := exists_eq_ok
    (show (create (plainArgs .edf) 0 [pathFlow 1 1 3 [2], pathFlow 2 4 5 []]).toOption.isSome = true
      by decide +kernel)
  exact ⟨s, hs, create_maxSlotUsed_iff hs⟩

/-- R-LPF puts the longer flow 2 first and the shorter flow 1 last: the value is 1. -/
theorem create_maxSlotUsed_lt_rLpf :
    ∃ s, create (plainArgs .rLpf) 0 [pathFlow 1 4 5 [], pathFlow 2 1 3 [2]] = .ok s ∧
      ¬ ∀ flow ∈ s.flows, flow.flowNumber ≤ maxSlotUsed s.flows := by
  obtain ⟨s, hs, flow, hflow, hlarger⟩ : ∃ s,
      create (plainArgs .rLpf) 0 [pathFlow 1 4 5 [], pathFlow 2 1 3 [2]] = .ok s ∧
        ∃ flow ∈ s.flows, maxSlotUsed s.flows < flow.flowNumber := exists_ok (by decide +kernel)
  exact ⟨s, hs, fun hbound ↦ absurd (hbound flow hflow) (not_le.mpr hlarger)⟩

end Generated

end ContikiMaster.Scheduler
