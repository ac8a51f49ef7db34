import ContikiMaster.Scheduler.Placement
import Mathlib.Algebra.Order.BigOperators.Group.List

/-!
# The cells of the flows of a schedule

Initialization gives every flow its own cells, and the algorithms only reorder the
flows. A flow with a cell has a path of two nodes, so that the grid is longer than
the hyper-period.
-/

namespace ContikiMaster.Scheduler

open Lib List

/-- Flows that are told apart by their numbers in the list, each with its own cells. -/
structure OwnCells (flows : List Flow) : Prop where
  ids : (flows.map Flow.id).Nodup
  owned : ∀ flow ∈ flows, ∀ cell ∈ flow.cells, cell.flowId = flow.id
  nodup : ∀ flow ∈ flows, flow.cells.Nodup

namespace OwnCells

variable {flows flows' : List Flow}

theorem perm (hown : OwnCells flows) (hperm : flows'.Perm flows) : OwnCells flows' :=
  ⟨(hperm.map Flow.id).nodup_iff.mpr hown.ids,
    fun flow hflow ↦ hown.owned flow (hperm.mem_iff.mp hflow),
    fun flow hflow ↦ hown.nodup flow (hperm.mem_iff.mp hflow)⟩

theorem eq_of_mem_cells (hown : OwnCells flows) {f g : Flow} {cell : Cell} (hf : f ∈ flows)
    (hg : g ∈ flows) (hcellF : cell ∈ f.cells) (hcellG : cell ∈ g.cells) : f = g := by
  apply inj_on_of_nodup_map hown.ids hf hg
  rw [← hown.owned f hf cell hcellF, hown.owned g hg cell hcellG]

theorem notMem_cells_of_append {done todo : List Flow} {flow : Flow}
    (hown : OwnCells (done ++ flow :: todo)) {f : Flow} (hf : f ∈ done) {cell : Cell}
    (hcell : cell ∈ flow.cells) : cell ∉ f.cells := by
  intro hcellF
  have hids := hown.ids
  rw [map_append, map_cons] at hids
  have hdisjoint := disjoint_of_nodup_append hids
  have hsame : f.id = flow.id := by
    rw [← hown.owned f (mem_append_left _ hf) cell hcellF]
    exact hown.owned flow (mem_append_right _ mem_cons_self) cell hcell
  refine hdisjoint (mem_map_of_mem hf) ?_
  rw [hsame]
  exact mem_cons_self

end OwnCells

theorem orderFlows_perm (algorithm : SchedulingAlgorithm) (flows : List Flow) :
    (orderFlows algorithm flows).Perm flows := by
  cases algorithm with
  | rLpf => exact perm_insertionSort _ flows
  | edf => exact perm_insertionSort _ flows
  | rms => exact perm_insertionSort _ flows
  | cLlf => exact List.Perm.refl flows

section Init

variable {args : CreateArgs} {flow ready : Flow} {id : ℕ}

/-- What initialization leaves of a flow and gives to it. -/
structure Initialised (args : CreateArgs) (flow : Flow) (number : ℕ) (ready : Flow) : Prop where
  id : ready.id = number
  flowNumber : ready.flowNumber = flow.flowNumber
  period : ready.period = flow.period
  deadline : ready.deadline = flow.deadline
  path : ready.path = flow.path
  cycle : 0 < args.shortestRepeatingCycle
  releaseTime : ready.releaseTime = adjustReleaseTime args.shortestRepeatingCycle flow.releaseTime
  cells : ∃ participants,
    createCells args.etx args.strategy args.windowSizeAlgorithm args.fixedWindowSize flow =
      .ok participants ∧
    ready.cells = participants.zipIdx.map fun cell ↦ ⟨number, cell.2, flow.flowNumber, cell.1⟩

theorem initFlow_spec (hcall : initFlow args flow id = .ok ready) :
    Initialised args flow id ready := by
  obtain ⟨participants, hcells, hrest⟩ := bind_eq_ok hcall
  split at hrest
  · cases hrest
  · rename_i hcycle
    cases hrest
    exact ⟨rfl, rfl, rfl, rfl, rfl, Nat.pos_of_ne_zero hcycle, rfl, participants, hcells, rfl⟩

section

variable {flows readyFlows : List Flow} (hcall : initFlows args flows = .ok readyFlows)

include hcall

theorem initFlows_forall₂ :
    List.Forall₂ (fun x y ↦ Initialised args x.1 x.2 y) flows.zipIdx readyFlows :=
  (mapM_forall₂ hcall).imp fun _ _ hflow ↦ initFlow_spec hflow

theorem exists_initialised_of_mem (hready : ready ∈ readyFlows) :
    ∃ flow ∈ flows, ∃ id, Initialised args flow id ready := by
  have hall := initFlows_forall₂ hcall
  obtain ⟨i, hi, rfl⟩ := mem_iff_getElem.mp hready
  have hi' : i < flows.zipIdx.length := by
    rw [hall.length_eq]
    exact hi
  have hflow := hall.get hi' hi
  refine ⟨(flows.zipIdx[i]).1, ?_, (flows.zipIdx[i]).2, hflow⟩
  have hmem := getElem_mem hi'
  exact fst_mem_of_mem_zipIdx hmem

theorem exists_initialised (hflow : flow ∈ flows) :
    ∃ ready ∈ readyFlows, ∃ id, Initialised args flow id ready := by
  have hall := initFlows_forall₂ hcall
  obtain ⟨i, hi, rfl⟩ := mem_iff_getElem.mp hflow
  have hi' : i < flows.zipIdx.length := by
    rw [length_zipIdx]
    exact hi
  have hi'' : i < readyFlows.length := by
    rw [← hall.length_eq]
    exact hi'
  have hready := hall.get hi' hi''
  rw [get_eq_getElem, getElem_zipIdx] at hready
  exact ⟨_, getElem_mem hi'', _, hready⟩

end

theorem Initialised.owned (hflow : Initialised args flow id ready) {cell : Cell}
    (hcell : cell ∈ ready.cells) : cell.flowId = ready.id := by
  obtain ⟨participants, -, hcells⟩ := hflow.cells
  rw [hcells] at hcell
  obtain ⟨entry, -, rfl⟩ := mem_map.mp hcell
  exact hflow.id.symm

theorem Initialised.nodup (hflow : Initialised args flow id ready) : ready.cells.Nodup := by
  obtain ⟨participants, -, hcells⟩ := hflow.cells
  rw [hcells]
  apply List.Nodup.of_map Cell.index
  rw [map_map]
  change (participants.zipIdx.map Prod.snd).Nodup
  rw [zipIdx_map_snd]
  exact nodup_range'

theorem ids_of_forall₂ {entries : List (Flow × ℕ)} {readyFlows : List Flow}
    (hall : List.Forall₂ (fun x y ↦ Initialised args x.1 x.2 y) entries readyFlows) :
    readyFlows.map Flow.id = entries.map Prod.snd := by
  induction hall with
  | nil => rfl
  | cons hfirst _ ih => rw [map_cons, map_cons, ih, hfirst.id]

theorem ownCells_initFlows {flows readyFlows : List Flow}
    (hcall : initFlows args flows = .ok readyFlows) : OwnCells readyFlows := by
  have hall := initFlows_forall₂ hcall
  refine ⟨?_, fun ready hready cell hcell ↦ ?_, fun ready hready ↦ ?_⟩
  · rw [ids_of_forall₂ hall, zipIdx_map_snd]
    exact nodup_range'
  · obtain ⟨flow, -, id, hflow⟩ := exists_initialised_of_mem hcall hready
    exact hflow.owned hcell
  · obtain ⟨flow, -, id, hflow⟩ := exists_initialised_of_mem hcall hready
    exact hflow.nodup

theorem allDeadlines_iff {flows : List Flow} :
    allDeadlines flows = true ↔ ∀ flow ∈ flows, flow.deadline.isSome = true := all_eq_true

theorem allDeadlines_orderFlows_initFlows {flows readyFlows : List Flow}
    (algorithm : SchedulingAlgorithm) (hcall : initFlows args flows = .ok readyFlows) :
    allDeadlines (orderFlows algorithm readyFlows) = allDeadlines flows := by
  rw [Bool.eq_iff_iff, allDeadlines_iff, allDeadlines_iff]
  constructor
  · intro hall flow hflow
    obtain ⟨ready, hready, id, hinit⟩ := exists_initialised hcall hflow
    rw [← hinit.deadline]
    exact hall ready ((orderFlows_perm algorithm readyFlows).mem_iff.mpr hready)
  · intro hall ready hready
    have hmem := (orderFlows_perm algorithm readyFlows).mem_iff.mp hready
    obtain ⟨flow, hflow, id, hinit⟩ := exists_initialised_of_mem hcall hmem
    rw [hinit.deadline]
    exact hall flow hflow

end Init

section Length

variable {args : CreateArgs}

variable {subPath : List ℕ}

theorem hops_eq_nil (hshort : subPath.length ≤ 1) : hops subPath = [] := by
  unfold hops
  rw [← length_eq_zero_iff, length_zip, length_tail]
  omega

theorem subPathCells_of_length_one {etx : ℕ → ℕ → ℚ} {strategy : SchedulingStrategy}
    {windowSizeAlgorithm : WindowSizeAlgorithm} {fixedWindowSize : ℕ} {cells : List (List ℕ)}
    (hone : subPath.length = 1)
    (hcall : subPathCells etx strategy windowSizeAlgorithm fixedWindowSize subPath = .ok cells) :
    cells = [] := by
  cases strategy with
  | noRetransmissions =>
    unfold subPathCells at hcall
    rw [hops_eq_nil hone.le] at hcall
    cases hcall
    rfl
  | upperEtxTxPerLink =>
    unfold subPathCells at hcall
    rw [hops_eq_nil hone.le] at hcall
    cases hcall
    rfl
  | slidingWindow =>
    obtain ⟨windowSize, -, hcells⟩ := bind_eq_ok hcall
    unfold slidingWindowCells at hcells
    split at hcells
    · cases hcells
    · rename_i hwindow
      cases hcells
      have hslots : ((subPath.length : ℤ) - 1 + windowSize - 2).toNat = 0 := by
        rw [hone] at hwindow ⊢
        omega
      rw [hslots]
      rfl

theorem subFlowPaths_of_length_one {flow : Flow} (hone : flow.path.length = 1)
    (hsub : subPath ∈ subFlowPaths flow) : subPath.length = 1 := by
  unfold subFlowPaths at hsub
  dsimp only at hsub
  rw [hone] at hsub
  by_cases hmax : flow.maxSubFlowLength < 1
  · have hnum : numSubFlows 1 flow.maxSubFlowLength = 0 := by
      obtain hzero : flow.maxSubFlowLength = 0 := by omega
      rw [hzero]
      decide
    rw [hnum] at hsub
    cases hsub
  · have hnum : numSubFlows 1 flow.maxSubFlowLength = 1 := if_neg hmax
    rw [hnum, if_neg hmax] at hsub
    simp only [range_one, map_cons, map_nil, if_pos, mem_singleton] at hsub
    rw [hsub, length_take, hone]
    rfl

theorem createCells_of_length_one {flow : Flow} {participants : List (List ℕ)}
    (hone : flow.path.length = 1)
    (hcall : createCells args.etx args.strategy args.windowSizeAlgorithm args.fixedWindowSize flow =
      .ok participants) : participants = [] := by
  refine foldlM_invariant (P := fun cells ↦ cells = []) (fun subPath hsub cells more hnil hstep ↦ ?_)
    hcall rfl
  obtain ⟨added, hcells, hdone⟩ := bind_eq_ok hstep
  cases hdone
  rw [hnil, subPathCells_of_length_one (subFlowPaths_of_length_one hone hsub) hcells]
  rfl

theorem Initialised.two_le_length {flow ready : Flow} {id : ℕ}
    (hflow : Initialised args flow id ready) (hcells : ready.cells ≠ []) :
    2 ≤ flow.path.length := by
  have hpos : 0 < flow.path.length := length_pos_iff.mpr flow.path_ne_nil
  by_contra hshort
  obtain ⟨participants, hcreate, hready⟩ := hflow.cells
  rw [createCells_of_length_one (by omega) hcreate] at hready
  exact hcells hready

theorem cycle_lt_gridLength {flows readyFlows : List Flow} {ready : Flow}
    (hcall : initFlows args flows = .ok readyFlows) (hready : ready ∈ readyFlows)
    (hcells : ready.cells ≠ []) : args.shortestRepeatingCycle < gridLength args flows := by
  obtain ⟨flow, hflow, id, hinit⟩ := exists_initialised_of_mem hcall hready
  have htwo := hinit.two_le_length hcells
  have hsum : flow.path.length ≤ (flows.map fun flow ↦ flow.path.length).sum :=
    le_sum_of_mem (mem_map_of_mem hflow)
  have hcycle := hinit.cycle
  unfold gridLength
  calc args.shortestRepeatingCycle < 2 * args.shortestRepeatingCycle := by omega
    _ ≤ (flows.map fun flow ↦ flow.path.length).sum * args.shortestRepeatingCycle :=
      Nat.mul_le_mul_right _ (htwo.trans hsum)
    _ ≤ _ := Nat.le_add_right _ _

theorem max_one_lt_gridLength {flows : List Flow} {flow : Flow}
    (hcycle : args.shortestRepeatingCycle = 1) (hflow : flow ∈ flows)
    (hpath : 2 ≤ flow.path.length) : max 1 flow.releaseTime < gridLength args flows := by
  have hsum : flow.path.length ≤ (flows.map fun flow ↦ flow.path.length).sum :=
    le_sum_of_mem (mem_map_of_mem hflow)
  have hmax : flow.releaseTime ≤ (flows.map Flow.releaseTime).foldl max 0 :=
    (max?_eq_some_iff.mp max?_cons').2 _
      (mem_cons_of_mem 0 (mem_map_of_mem hflow))
  unfold gridLength
  rw [hcycle, Nat.mul_one]
  omega

theorem adjustReleaseTime_le {cycle releaseTime : ℕ} (hcycle : 1 < cycle) :
    adjustReleaseTime cycle releaseTime ≤ cycle := by
  unfold adjustReleaseTime
  split
  · exact (Nat.mod_lt _ (by omega)).le
  · omega

end Length

end ContikiMaster.Scheduler
