import ContikiMaster.Scheduler.Analysis
import ContikiMaster.Scheduler.CLlf
import ContikiMaster.Scheduler.ConflictFree

/-!
# One verdict

The analysis against the scheduler in its infeasible mode. Cell by cell the two look at the
same table and choose the same slot: the tool writes 1 where the scheduler places every
cell, and 0 where it raises for an infeasible flow set. Where the search of one leaves the
grid, or goes on for ever, so does that of the other.
-/

namespace ContikiMaster.Scheduler

open Lib List

namespace Analysis

inductive SameEnd : Stop → SchedulerError → Prop
  | infeasible : SameEnd .logged .infeasibleScheduler
  | raised {error : SchedulerError} (hother : error ≠ .infeasibleScheduler) :
      SameEnd (.raised error) error

def tableOf (args : CreateArgs) (length : ℕ) (x : Placement) : Table :=
  ⟨args.numChannels, length, x.schedule⟩

section Steps

variable {args : CreateArgs} {length : ℕ} {flow : Flow}

theorem findSchedulableSlot_tableOf (x : Placement) (cell : Cell) (releaseTimeIdx : ℕ) :
    findSchedulableSlot (tableOf args length x) cell releaseTimeIdx =
      Scheduler.findSchedulableSlot length args.numChannels x.schedule cell releaseTimeIdx := rfl

theorem schedulableInSlot_tableOf (x : Placement) (slot : ℕ) (participants : List ℕ) :
    schedulableInSlot (tableOf args length x) x.usedNodesInTimeslot slot participants =
      Scheduler.schedulableInSlot args.numChannels x slot participants := by
  have hbool : ∀ a b c : Bool,
      (if a then if b then true else c else false) = (a && (b || c)) := by decide
  exact hbool _ _ _

theorem insertIndex_tableOf (x : Placement) (currentIdx insertAtIndex : ℕ) (participants : List ℕ) :
    insertIndex (tableOf args length x) x.usedNodesInTimeslot currentIdx insertAtIndex
      participants = nextInsertIndex length args.numChannels currentIdx x insertAtIndex
      participants := by
  unfold insertIndex nextInsertIndex
  simp only [schedulableInSlot_tableOf]
  rfl

theorem missesDeadline_iff (hdeadline : flow.deadline.isSome = true) (slot : ℕ) :
    missesDeadline args flow slot = true ↔ misses args.shortestRepeatingCycle flow slot := by
  obtain ⟨deadline, hsome⟩ := Option.isSome_iff_exists.mp hdeadline
  simp [missesDeadline, misses, Flow.dueTime, hsome]

variable (hmode : args.ignoreNsf = .infeasible)

include hmode

theorem settleCell_infeasible (hdeadline : flow.deadline.isSome = true) (participants : List ℕ) (cell : Cell)
    (channel slot : ℕ) (x : Placement) :
    settleCell args true flow participants cell channel slot x =
      if misses args.shortestRepeatingCycle flow slot then .error .infeasibleScheduler
      else .ok (true, { x with schedule := x.schedule.write channel slot cell }) := by
  by_cases hmisses : misses args.shortestRepeatingCycle flow slot
  · have hmissed : missesDeadline args flow slot = true :=
      (missesDeadline_iff hdeadline slot).mpr hmisses
    rw [if_pos hmisses]
    simp [settleCell, hmissed, hmode]
  · have hmissed : missesDeadline args flow slot = false := Bool.eq_false_iff.mpr fun hmissed ↦
      hmisses ((missesDeadline_iff hdeadline slot).mp hmissed)
    rw [if_neg hmisses]
    simp [settleCell, hmissed, hmode]

theorem inOrderCell_agree (hdeadline : flow.deadline.isSome = true) (cell : Cell) (x : ℕ × Table) (y : ℕ × Placement)
    (hxy : x = (y.1, tableOf args length y.2)) :
    Agree SameEnd (fun x y ↦ x = (y.1, tableOf args length y.2))
      (inOrderCell args.shortestRepeatingCycle flow x cell)
      (Scheduler.inOrderCell args length flow y cell) := by
  subst hxy
  unfold inOrderCell Scheduler.inOrderCell
  dsimp only
  rw [findSchedulableSlot_tableOf]
  cases Scheduler.findSchedulableSlot length args.numChannels y.2.schedule cell y.1 with
  | none => exact .error (.raised (by decide))
  | some place =>
    obtain ⟨channel, slot⟩ := place
    simp only [settleCell_infeasible hmode hdeadline]
    by_cases hmisses : misses args.shortestRepeatingCycle flow slot
    · rw [if_pos hmisses, if_pos hmisses]
      exact .error .infeasible
    · rw [if_neg hmisses, if_neg hmisses]
      exact .ok rfl

theorem placeInOrder_agree {flows : List Flow}
    (hdeadlines : ∀ flow ∈ flows, flow.deadline.isSome = true) :
    Agree SameEnd (fun x y ↦ x = tableOf args length y)
      (flows.foldlM (inOrderFlow args.shortestRepeatingCycle) (tableOf args length Placement.empty))
      (placeInOrder args length flows) := by
  apply Agree.foldlM (R := fun x y ↦ x = tableOf args length y) _ rfl
  intro flow hflow x y hxy
  have hcells := Agree.foldlM (y := (flow.releaseTime, y))
    (fun cell (_ : cell ∈ flow.cells) ↦ inOrderCell_agree hmode (hdeadlines flow hflow) cell)
    (congrArg (Prod.mk flow.releaseTime) hxy)
  apply hcells.bind
  intro x' y' hxy'
  rw [hxy']
  exact .ok rfl

omit hmode

/-- The flows of these transmissions have deadlines. -/
def AllDue (transmissions : List CellCLlf) : Prop :=
  ∀ z ∈ transmissions, z.flow.deadline.isSome = true

variable {transmissions : List CellCLlf}

theorem AllDue.filter (hdue : AllDue transmissions) (p : CellCLlf → Bool) :
    AllDue (transmissions.filter p) :=
  fun z hz ↦ hdue z (mem_filter.mp hz).1

theorem AllDue.map (hdue : AllDue transmissions) (laxity : CellCLlf → ℤ) :
    AllDue (transmissions.map fun z ↦ { z with laxity := laxity z }) := by
  intro z hz
  obtain ⟨w, hw, rfl⟩ := mem_map.mp hz
  exact hdue w hw

include hmode

theorem cLlfCell_agree {chosen : CellCLlf}
    (hdeadline : chosen.flow.deadline.isSome = true) (cell : Cell) (x : CLlfState)
    (y : Scheduler.CLlfState)
    (hxy : x = ⟨y.releaseTime, y.transmissionsFlows, tableOf args length y.placement⟩ ∧
      AllDue y.transmissionsFlows) : Agree SameEnd
      (fun x y ↦ x = ⟨y.releaseTime, y.transmissionsFlows, tableOf args length y.placement⟩ ∧
        AllDue y.transmissionsFlows) (cLlfCell args.shortestRepeatingCycle chosen x cell)
      (Scheduler.cLlfCell args length chosen y cell) := by
  obtain ⟨rfl, hdue⟩ := hxy
  unfold cLlfCell Scheduler.cLlfCell
  dsimp only
  rw [findSchedulableSlot_tableOf]
  cases Scheduler.findSchedulableSlot length args.numChannels y.placement.schedule cell
    y.releaseTime with
  | none => exact .ok ⟨rfl, hdue⟩
  | some place =>
    obtain ⟨channel, slot⟩ := place
    simp only [settleCell_infeasible hmode hdeadline]
    by_cases hmisses : misses args.shortestRepeatingCycle chosen.flow slot
    · rw [if_pos hmisses, if_pos hmisses]
      exact .error .infeasible
    · rw [if_neg hmisses, if_neg hmisses]
      exact .ok ⟨rfl, hdue.filter _⟩

theorem cLlfChannels_agree (channels : ℕ)
    {toRelease : List CellCLlf} (hrelease : AllDue toRelease) (hdue : AllDue transmissions)
    (y : Placement) :
    Agree SameEnd (fun x y ↦ x = (y.1, tableOf args length y.2) ∧ AllDue y.1)
      (cLlfChannels args.shortestRepeatingCycle channels toRelease
        (transmissions, tableOf args length y))
      (Scheduler.cLlfChannels args length channels toRelease (transmissions, y)) := by
  induction channels generalizing toRelease transmissions y with
  | zero => exact .ok ⟨rfl, hdue⟩
  | succ channels ih =>
    unfold cLlfChannels Scheduler.cLlfChannels
    cases hchoose : chooseTransmission toRelease with
    | none => exact .ok ⟨rfl, hdue⟩
    | some chosen =>
      have hdeadline := hrelease chosen (chooseTransmission_mem hchoose)
      have hcells := Agree.foldlM (y := ⟨chosen.flow.releaseTime, transmissions, y⟩)
        (fun cell (_ : cell ∈ chosen.flow.cells) ↦
          @cLlfCell_agree args length hmode chosen hdeadline cell) ⟨rfl, hdue⟩
      apply hcells.bind
      intro x' y' hxy'
      rw [hxy'.1]
      exact ih (hrelease.filter _) hxy'.2 y'.placement

theorem cLlfLoop_agree (fuel timeslotIdx : ℕ)
    (hdue : AllDue transmissions) (y : Placement) :
    Agree SameEnd (fun x y ↦ x = tableOf args length y)
      (cLlfLoop args.shortestRepeatingCycle fuel timeslotIdx (transmissions, tableOf args length y))
      (Scheduler.cLlfLoop args length fuel timeslotIdx (transmissions, y)) := by
  induction fuel generalizing timeslotIdx transmissions y with
  | zero =>
    cases transmissions with
    | nil => exact .ok rfl
    | cons first rest => exact .error (.raised (by decide))
  | succ fuel ih =>
    cases transmissions with
    | nil => exact .ok rfl
    | cons first rest =>
      unfold cLlfLoop Scheduler.cLlfLoop
      have hmapped := hdue.map fun z ↦ computeLaxity z
        ((first :: rest).filter fun z ↦ decide (z.flow.releaseTime ≤ timeslotIdx)) timeslotIdx
      apply (cLlfChannels_agree hmode args.numChannels (hmapped.filter _) hmapped y).bind
      intro x' y' hxy'
      rw [hxy'.1]
      exact ih (timeslotIdx + 1) hxy'.2 y'.2

/-- What the two loops of R-LPF have in common between two cells of a flow. -/
def SameCells (args : CreateArgs) (length : ℕ) (x : RLpfCellState) (y : ℕ × Placement) : Prop :=
  x = ⟨y.1, y.2.usedNodesInTimeslot, tableOf args length y.2⟩

/-- And between two flows. -/
def SameFlows (args : CreateArgs) (length : ℕ) (x : RLpfState) (y : Scheduler.RLpfState) : Prop :=
  x = ⟨y.currentFlowNumber, y.currentIdx, y.placement.usedNodesInTimeslot,
    tableOf args length y.placement⟩

theorem rLpfCell_agree (hdeadline : flow.deadline.isSome = true) (currentIdx : ℕ) (cell : Cell) (x : RLpfCellState)
    (y : ℕ × Placement) (hxy : SameCells args length x y) : Agree SameEnd (SameCells args length)
      (rLpfCell args.shortestRepeatingCycle currentIdx flow x cell)
      (Scheduler.rLpfCell args length true currentIdx flow y cell) := by
  rw [hxy]
  unfold rLpfCell Scheduler.rLpfCell
  dsimp only
  rw [insertIndex_tableOf]
  cases nextInsertIndex length args.numChannels currentIdx y.2 y.1 cell.participants with
  | none => exact .error (.raised (by decide))
  | some slot =>
    simp only [settleCell_infeasible hmode hdeadline]
    by_cases hmisses : misses args.shortestRepeatingCycle flow slot
    · rw [if_pos hmisses, if_pos hmisses]
      exact .error .infeasible
    · rw [if_neg hmisses, if_neg hmisses]
      exact .ok rfl

theorem rLpfFlow_agree (hdeadline : flow.deadline.isSome = true) (x : RLpfState) (y : Scheduler.RLpfState)
    (hxy : SameFlows args length x y) :
    Agree SameEnd (SameFlows args length) (rLpfFlow args.shortestRepeatingCycle x flow)
      (Scheduler.rLpfFlow args length true y flow) := by
  rw [hxy]
  have hcells := Agree.foldlM (y := (0, y.placement))
    (fun cell (_ : cell ∈ flow.cells.reverse) ↦ @rLpfCell_agree args length flow hmode hdeadline
      (if y.currentFlowNumber = some flow.flowNumber then y.currentIdx else 0) cell) rfl
  apply hcells.bind
  intro x' y' hxy'
  rw [hxy']
  exact .ok rfl

theorem placeRLpf_agree {flows : List Flow}
    (hdeadlines : ∀ flow ∈ flows, flow.deadline.isSome = true) :
    Agree SameEnd (fun x y ↦ x.schedule = tableOf args length y)
      (flows.foldlM (rLpfFlow args.shortestRepeatingCycle)
        ⟨none, 0, fun _ ↦ [], tableOf args length Placement.empty⟩)
      (placeRLpf args length flows) := by
  have hchecked : allDeadlines flows = true := all_eq_true.mpr hdeadlines
  unfold placeRLpf
  rw [hchecked]
  have hflows := Agree.foldlM (y := ⟨none, 0, Placement.empty⟩)
    (fun flow hflow ↦ @rLpfFlow_agree args length flow hmode (hdeadlines flow hflow)) rfl
  rw [← bind_pure (flows.foldlM _ _)]
  apply hflows.bind
  intro x y hxy
  rw [hxy]
  exact .ok rfl

end Steps

/-- The verdict of the tool beside the end of the scheduler's placement. -/
inductive SameVerdict {α : Type} : Except SchedulerError Bool → Except SchedulerError α → Prop
  | feasible (x : α) : SameVerdict (.ok true) (.ok x)
  | infeasible : SameVerdict (.ok false) (.error .infeasibleScheduler)
  | failed {error : SchedulerError} (hother : error ≠ .infeasibleScheduler) :
      SameVerdict (.error error) (.error error)

section Verdict

variable {args : CreateArgs} {α β σ : Type}

theorem SameVerdict.of_agree {R : σ → α → Prop} {call : Except Stop σ}
    {call' : Except SchedulerError α} (hagree : Agree SameEnd R call call') :
    SameVerdict (verdict call) call' := by
  cases hagree with
  | ok hresult => exact .feasible _
  | error hend =>
    cases hend with
    | infeasible => exact .infeasible
    | raised hother => exact .failed hother

theorem SameVerdict.map {analysis : Except SchedulerError Bool} {call : Except SchedulerError α}
    (hsame : SameVerdict analysis call) (f : α → β) :
    SameVerdict analysis (call >>= fun x ↦ .ok (f x)) := by
  cases hsame with
  | feasible x => exact .feasible (f x)
  | infeasible => exact .infeasible
  | failed hother => exact .failed hother

theorem prepareFlow_eq_initFlow (args : CreateArgs) (flow : Flow) (id : ℕ) :
    prepareFlow (createCells args.etx args.strategy args.windowSizeAlgorithm args.fixedWindowSize)
      args.shortestRepeatingCycle flow id = initFlow args flow id := by
  unfold prepareFlow initFlow
  congr 1
  funext participants
  by_cases hlate : (1 < args.shortestRepeatingCycle ∧
      args.shortestRepeatingCycle < flow.releaseTime) ∨
      (args.shortestRepeatingCycle ≠ 1 ∧ args.shortestRepeatingCycle ≤ flow.releaseTime)
  · rw [if_pos hlate]
    have hadjust : adjustReleaseTime args.shortestRepeatingCycle flow.releaseTime =
        flow.releaseTime % args.shortestRepeatingCycle := if_pos hlate
    rw [hadjust]
  · have hcycle : args.shortestRepeatingCycle ≠ 0 := by omega
    have hadjust : adjustReleaseTime args.shortestRepeatingCycle flow.releaseTime =
        flow.releaseTime := if_neg hlate
    rw [if_neg hlate, if_neg hcycle, hadjust]

theorem createScheduleOf_eq (hchannels : args.numChannels = 4) (flows : List Flow) :
    createScheduleOf (createCells args.etx args.strategy args.windowSizeAlgorithm
        args.fixedWindowSize) flows args.shortestRepeatingCycle =
      initFlows args flows >>= fun ready ↦
        .ok (ready, tableOf args (gridLength args flows) Placement.empty) := by
  unfold createScheduleOf initFlows tableOf
  simp only [prepareFlow_eq_initFlow, hchannels]
  rfl

theorem analyse_sameVerdict (hmode : args.ignoreNsf = .infeasible) {ready : List Flow}
    (hdeadlines : allDeadlines (orderFlows args.algorithm ready) = true) (length fuel : ℕ) :
    SameVerdict (analyse args.algorithm fuel args.shortestRepeatingCycle
        (ready, tableOf args length Placement.empty))
      (placeOrdered args length fuel (orderFlows args.algorithm ready)) := by
  have hdue := all_eq_true.mp hdeadlines
  unfold analyse placeOrdered
  cases halgorithm : args.algorithm with
  | rLpf =>
    rw [halgorithm] at hdue
    exact .of_agree (placeRLpf_agree hmode hdue)
  | edf =>
    rw [halgorithm] at hdeadlines hdue
    dsimp only
    rw [if_pos hdeadlines]
    exact .of_agree (placeInOrder_agree hmode hdue)
  | rms =>
    rw [halgorithm] at hdeadlines hdue
    dsimp only
    rw [if_pos hdeadlines]
    exact .of_agree (placeInOrder_agree hmode hdue)
  | cLlf =>
    rw [halgorithm] at hdeadlines hdue
    dsimp only
    rw [if_pos hdeadlines]
    exact .of_agree (cLlfLoop_agree hmode fuel 0
      (fun z hz ↦ hdue _ (mem_allTransmissions.mp hz).1) Placement.empty)

theorem subPathCells_ne_infeasible (etx : ℕ → ℕ → ℚ) (strategy : SchedulingStrategy)
    (windowSizeAlgorithm : WindowSizeAlgorithm) (fixedWindowSize : ℕ) (subPath : List ℕ) :
    subPathCells etx strategy windowSizeAlgorithm fixedWindowSize subPath ≠
      .error .infeasibleScheduler := by
  cases strategy with
  | noRetransmissions => exact fun heq ↦ nomatch heq
  | upperEtxTxPerLink => exact fun heq ↦ nomatch heq
  | slidingWindow =>
    apply bind_ne_error
    · unfold calculateWindowSize
      dsimp only
      split_ifs
      · simp
      · simp
      · cases windowSizeAlgorithm <;> simp
    · intro windowSize _
      unfold slidingWindowCells
      split_ifs <;> simp

theorem initFlows_ne_infeasible (args : CreateArgs) (flows : List Flow) :
    initFlows args flows ≠ .error .infeasibleScheduler := by
  apply mapM_ne_error
  intro flow _
  apply bind_ne_error
  · apply foldlM_ne_error
    intro subPath _ cells
    apply bind_ne_error (subPathCells_ne_infeasible _ _ _ _ subPath)
    intro more _ heq
    cases heq
  · intro participants _
    split_ifs
    · simp
    · intro heq
      cases heq

theorem run_sameVerdict (hmode : args.ignoreNsf = .infeasible) (hchannels : args.numChannels = 4)
    {flows : List Flow} (hdeadlines : allDeadlines flows = true) (fuel : ℕ) : SameVerdict
      (run (createCells args.etx args.strategy args.windowSizeAlgorithm args.fixedWindowSize)
        args.algorithm fuel flows args.shortestRepeatingCycle) (placeCells args fuel flows) := by
  unfold run placeCells
  rw [createScheduleOf_eq hchannels]
  cases hready : initFlows args flows with
  | error fault =>
    apply SameVerdict.failed
    intro hfault
    exact initFlows_ne_infeasible args flows (hfault ▸ hready)
  | ok ready =>
    have hfour : args.numChannels ≠ 0 := by omega
    simp only [ok_bind, if_neg hfour]
    rw [← allDeadlines_orderFlows_initFlows args.algorithm hready] at hdeadlines
    exact (analyse_sameVerdict hmode hdeadlines (gridLength args flows) fuel).map _

theorem create_eq_infeasible_iff {fuel : ℕ} {flows : List Flow} :
    create args fuel flows = .error .infeasibleScheduler ↔
      placeCells args fuel flows = .error .infeasibleScheduler := by
  unfold create
  cases placeCells args fuel flows with
  | error fault =>
    change (Except.error fault : Except SchedulerError Schedule) = _ ↔ _
    simp
  | ok x =>
    rw [ok_bind]
    unfold finalise
    dsimp only
    split_ifs <;> simp

/-- The tool and the scheduler in its infeasible mode come to the same verdict, or fail alike. -/
theorem run_verdict_iff (hmode : args.ignoreNsf = .infeasible) (hchannels : args.numChannels = 4)
    {flows : List Flow} (hdeadlines : allDeadlines flows = true) (fuel : ℕ) :
    (run (createCells args.etx args.strategy args.windowSizeAlgorithm args.fixedWindowSize)
        args.algorithm fuel flows args.shortestRepeatingCycle = .ok true ↔
      ∃ x, placeCells args fuel flows = .ok x) ∧
    (run (createCells args.etx args.strategy args.windowSizeAlgorithm args.fixedWindowSize)
        args.algorithm fuel flows args.shortestRepeatingCycle = .ok false ↔
      create args fuel flows = .error .infeasibleScheduler) ∧
    ∀ error,
      run (createCells args.etx args.strategy args.windowSizeAlgorithm args.fixedWindowSize)
        args.algorithm fuel flows args.shortestRepeatingCycle = .error error ↔
      error ≠ .infeasibleScheduler ∧ placeCells args fuel flows = .error error := by
  rw [create_eq_infeasible_iff]
  have hsame := run_sameVerdict hmode hchannels hdeadlines fuel
  generalize run _ _ _ _ _ = analysis at hsame ⊢
  generalize placeCells args fuel flows = call at hsame ⊢
  cases hsame with
  | feasible x => simp
  | infeasible => grind
  | failed hother => grind

/-- Four channels, infeasible mode, and the cells of the tool for links of that cost. -/
def toolArgs (algorithm : SchedulingAlgorithm) (cost : ℚ) : CreateArgs where
  etx := fun _ _ ↦ cost
  numChannels := 4
  shortestRepeatingCycle := 1
  algorithm := algorithm
  ignoreNsf := .infeasible
  strategy := .slidingWindow
  numCoojaNodes := 5
  windowSizeAlgorithm := .etxLinkBasedDoubled
  fixedWindowSize := 0

theorem run_verdict_iff_edf :
    (run (createCells (fun _ _ ↦ 1) .slidingWindow .etxLinkBasedDoubled 0) .edf 0
        [pathFlow 1 1 2 []] 1 = .ok true ↔
      ∃ x, placeCells (toolArgs .edf 1) 0 [pathFlow 1 1 2 []] = .ok x) ∧
    run (createCells (fun _ _ ↦ 1) .slidingWindow .etxLinkBasedDoubled 0) .edf 0
      [pathFlow 1 1 2 []] 1 = .ok true :=
  ⟨(@run_verdict_iff (toolArgs .edf 1) rfl rfl [pathFlow 1 1 2 []] rfl 0).1, by decide +kernel⟩

/-- On a link of cost 3 flow 1 → 2 has six cells, and the grid of hyper-period 1 only two slots: the
tool raises before it writes, and the scheduler raises, but not for an infeasible flow set. -/
theorem run_verdict_shortGrid :
    ¬ ((∃ fuel, run (createCells (fun _ _ ↦ 3) .slidingWindow .etxLinkBasedDoubled 0) .edf fuel
        [pathFlow 1 1 2 []] 1 = .ok true) ↔
      ∀ fuel, create (toolArgs .edf 3) fuel [pathFlow 1 1 2 []] ≠ .error .infeasibleScheduler) := by
  have hrun : ∀ fuel, run (createCells (fun _ _ ↦ 3) .slidingWindow .etxLinkBasedDoubled 0) .edf
      fuel [pathFlow 1 1 2 []] 1 = .error .faultyFlow := by
    intro fuel
    change run _ .edf 0 _ 1 = _
    decide +kernel
  have hfeasible : ∀ fuel,
      create (toolArgs .edf 3) fuel [pathFlow 1 1 2 []] ≠ .error .infeasibleScheduler := by
    intro fuel hinfeasible
    have hsame : SameVerdict (run (createCells (fun _ _ ↦ 3) .slidingWindow .etxLinkBasedDoubled 0)
        .edf fuel [pathFlow 1 1 2 []] 1) (placeCells (toolArgs .edf 3) fuel [pathFlow 1 1 2 []]) :=
      @run_sameVerdict (toolArgs .edf 3) rfl rfl [pathFlow 1 1 2 []] rfl fuel
    rw [hrun fuel, create_eq_infeasible_iff.mp hinfeasible] at hsame
    cases hsame
  intro hiff
  obtain ⟨fuel, hlogged⟩ := hiff.mpr hfeasible
  rw [hrun fuel] at hlogged
  exact nomatch hlogged

end Verdict

end Analysis

end ContikiMaster.Scheduler
