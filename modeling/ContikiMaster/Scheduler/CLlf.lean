import ContikiMaster.Scheduler.PlacedOnce

/-!
# C-LLF within the hyper-period

C-LLF takes one flow at a time and places all of its cells. Where the bound is checked,
the timeslot after the hyper-period stays free, so that the search for a place never
fails; the transmissions left are then the cells of the flows not taken yet.
-/

namespace ContikiMaster.Scheduler

open Lib List

theorem findSchedulableSlot_ne_none {length numChannels slot releaseTimeIdx : ℕ}
    {schedule : Grid Cell} (cell : Cell) (hslot : slot < length) (hchannels : 0 < numChannels)
    (hfree : schedule 0 slot = none) (hrelease : releaseTimeIdx ≤ slot) :
    findSchedulableSlot length numChannels schedule cell releaseTimeIdx ≠ none := by
  intro hnone
  unfold findSchedulableSlot at hnone
  rw [findSome?_eq_none_iff] at hnone
  have hchannel := hnone slot (mem_range.mpr hslot)
  obtain ⟨n, rfl⟩ := Nat.exists_eq_add_of_lt hchannels
  rw [range_eq_range', Nat.zero_add, range'_succ] at hchannel
  simp [findChannel, hfree, hrelease] at hchannel

variable {toRelease : List CellCLlf} {chosen : CellCLlf}

theorem chooseTransmission_mem (hchoose : chooseTransmission toRelease = some chosen) :
    chosen ∈ toRelease := by
  unfold chooseTransmission at hchoose
  split at hchoose
  · cases hchoose
  · rename_i first rest hsorted
    have hmem := mem_of_mem_head? hchoose
    rw [mem_insertionSort] at hmem
    have hin := (mem_filter.mp hmem).1
    rw [← hsorted, mem_insertionSort] at hin
    exact hin

/-- What is left are the cells of whole flows; the others have their place. -/
structure Remaining (args : CreateArgs) (flows : List Flow) (transmissions : List CellCLlf)
    (x : Placement) : Prop where
  mem : ∀ z ∈ transmissions, z.flow ∈ flows ∧ z.cell ∈ z.flow.cells
  whole : ∀ z ∈ transmissions, ∀ cell ∈ z.flow.cells, cell ∈ transmissions.map CellCLlf.cell
  placed : PlacedExactly args true
    (fun cell ↦ IsCellOf flows cell ∧ cell ∉ transmissions.map CellCLlf.cell) x

/-- The calls in which C-LLF checks the bound of the hyper-period. -/
structure CLlfChecked (args : CreateArgs) (length : ℕ) (flows : List Flow) : Prop where
  algorithm : args.algorithm = .cLlf
  cycle : 1 < args.shortestRepeatingCycle
  mode : args.ignoreNsf ≠ .disabled
  channels : 0 < args.numChannels
  length : args.shortestRepeatingCycle < length
  release : ∀ flow ∈ flows, flow.releaseTime ≤ args.shortestRepeatingCycle
  own : OwnCells flows

theorem cLlfChecked_of_initFlows {args : CreateArgs} {flows ready : List Flow} {flow : Flow}
    (halgorithm : args.algorithm = .cLlf) (hcycle : 1 < args.shortestRepeatingCycle)
    (hmode : args.ignoreNsf ≠ .disabled) (hchannels : 0 < args.numChannels)
    (hready : initFlows args flows = .ok ready) (hflow : flow ∈ ready) (hne : flow.cells ≠ []) :
    CLlfChecked args (gridLength args flows) ready := by
  refine ⟨halgorithm, hcycle, hmode, hchannels, cycle_lt_gridLength hready hflow hne,
    fun flow hflow ↦ ?_, ownCells_initFlows hready⟩
  obtain ⟨given, -, id, hinit⟩ := exists_initialised_of_mem hready hflow
  rw [hinit.releaseTime]
  exact adjustReleaseTime_le hcycle

section Round

variable {args : CreateArgs} {length : ℕ} {flows : List Flow} {transmissions : List CellCLlf}
  {x : Placement}

variable {done : Cell → Prop} {cell : Cell} {s t : CLlfState} {channels fuel : ℕ}
  {y : List CellCLlf × Placement}

theorem CLlfChecked.free (hchecked : CLlfChecked args length flows)
    (hx : PlacedExactly args true done x) : x.schedule 0 args.shortestRepeatingCycle = none := by
  by_contra hused
  exact (hx.bound rfl hchecked.mode hchecked.cycle.ne' 0 _ hused).false

theorem cLlfCell_feasible (hcall : cLlfCell args length chosen s cell = .ok t)
    (hfeasible : t.placement.infeasibleFlows = []) : s.placement.infeasibleFlows = [] := by
  unfold cLlfCell at hcall
  split at hcall
  · cases hcall
    exact hfeasible
  · obtain ⟨⟨placed, z⟩, hsettle, hdone⟩ := bind_eq_ok hcall
    cases settleCell_spec hsettle with
    | refused cnmid entry =>
      cases hdone
      exact absurd hfeasible (append_ne_nil_of_right_ne_nil _ (cons_ne_nil _ _))
    | placed cnmid hmeets =>
      cases hdone
      exact hfeasible

theorem cLlfCell_placedExactly (hchecked : CLlfChecked args length flows) (hnew : ¬ done cell)
    (hcall : cLlfCell args length chosen s cell = .ok t)
    (hfeasible : t.placement.infeasibleFlows = []) (hs : PlacedExactly args true done s.placement)
    (hrelease : s.releaseTime ≤ args.shortestRepeatingCycle) :
    PlacedExactly args true (fun c ↦ done c ∨ c = cell) t.placement ∧
      t.transmissionsFlows = s.transmissionsFlows.filter (fun z ↦
        !(z.cell == cell && chosen.flow.subFlowNumber == z.flow.subFlowNumber)) ∧
      t.releaseTime ≤ args.shortestRepeatingCycle := by
  unfold cLlfCell at hcall
  split at hcall
  · -- the slot after the hyper-period is always a place
    rename_i hfind
    exact absurd hfind (findSchedulableSlot_ne_none cell hchecked.length hchecked.channels
      (hchecked.free hs) hrelease)
  · rename_i channel slot hfind
    obtain ⟨⟨placed, z⟩, hsettle, hdone⟩ := bind_eq_ok hcall
    obtain ⟨-, -, -, hfree, -⟩ := findSchedulableSlot_spec hfind
    have hsettled := settleCell_spec hsettle
    have hstep : CellStep args true cell s.placement z := hsettled.cellStep hfree rfl rfl
      (if_neg fun hboth ↦ hboth.2 hchecked.algorithm).symm
    cases hsettled with
    | refused cnmid entry =>
      cases hdone
      exact absurd hfeasible (append_ne_nil_of_right_ne_nil _ (cons_ne_nil _ _))
    | placed cnmid hmeets =>
      cases hdone
      refine ⟨hs.step hnew hstep, rfl, ?_⟩
      exact lt_cycle_of_meets (hmeets rfl hchecked.mode) hchecked.cycle.ne'

theorem filter_drop_cell (hown : OwnCells flows)
    (hmem : ∀ z ∈ transmissions, z.flow ∈ flows ∧ z.cell ∈ z.flow.cells)
    (hflow : chosen.flow ∈ flows) {prior : List Cell} (hcell : cell ∈ chosen.flow.cells) :
    ((transmissions.filter fun z ↦ decide (z.cell ∉ prior)).filter fun z ↦
        !(z.cell == cell && chosen.flow.subFlowNumber == z.flow.subFlowNumber)) =
      transmissions.filter fun z ↦ decide (z.cell ∉ prior ++ [cell]) := by
  rw [filter_filter]
  apply filter_congr
  intro z hz
  by_cases heq : z.cell = cell
  · have hsame : z.flow = chosen.flow := by
      refine hown.eq_of_mem_cells (hmem z hz).1 hflow (hmem z hz).2 ?_
      rw [heq]
      exact hcell
    simp [heq, hsame]
  · simp [heq]

theorem cLlfCells_remaining (hchecked : CLlfChecked args length flows) {y : CLlfState}
    (hchosen : chosen ∈ transmissions)
    (hcells : chosen.flow.cells.foldlM (cLlfCell args length chosen)
      ⟨chosen.flow.releaseTime, transmissions, x⟩ = .ok y)
    (hx : x.infeasibleFlows = [] → Remaining args flows transmissions x)
    (hfeasible : y.placement.infeasibleFlows = []) :
    Remaining args flows y.transmissionsFlows y.placement := by
  set old : Cell → Prop := fun cell ↦
    IsCellOf flows cell ∧ cell ∉ transmissions.map CellCLlf.cell with hold
  have hloop := foldlM_invariant_done
    (P := fun prior (s : CLlfState) ↦ s.placement.infeasibleFlows = [] →
      Remaining args flows transmissions x ∧
      PlacedExactly args true (fun cell ↦ old cell ∨ cell ∈ prior) s.placement ∧
      s.releaseTime ≤ args.shortestRepeatingCycle ∧
      s.transmissionsFlows = transmissions.filter fun z ↦ decide (z.cell ∉ prior))
    (fun prior cell todo hsplit s t hs hcall hnone ↦ ?_) hcells (fun hnone ↦ ?_) hfeasible
  · obtain ⟨hrest, hplaced, -, hleft⟩ := hloop
    have hflow := (hrest.mem chosen hchosen).1
    have hiff : ∀ cell, cell ∉ y.transmissionsFlows.map CellCLlf.cell ↔
        cell ∉ transmissions.map CellCLlf.cell ∨ cell ∈ chosen.flow.cells := by
      intro cell
      rw [hleft]
      simp only [mem_map, mem_filter, decide_eq_true_eq]
      grind
    refine ⟨fun z hz ↦ ?_, fun z hz cell hcell ↦ ?_, hplaced.congr fun cell ↦ ?_⟩
    · rw [hleft] at hz
      exact hrest.mem z (mem_filter.mp hz).1
    · -- the cells of another flow are all left
      rw [hleft, mem_filter] at hz
      by_contra hgone
      rcases (hiff cell).mp hgone with hout | hin
      · exact hout (hrest.whole z hz.1 cell hcell)
      · have hsame := hchecked.own.eq_of_mem_cells (hrest.mem z hz.1).1 hflow hcell hin
        refine of_decide_eq_true hz.2 ?_
        rw [← hsame]
        exact (hrest.mem z hz.1).2
    · rw [hiff, hold]
      constructor
      · rintro (⟨hcell, hout⟩ | hin)
        · exact ⟨hcell, .inl hout⟩
        · exact ⟨⟨chosen.flow, hflow, hin⟩, .inr hin⟩
      · rintro ⟨hcell, hout | hin⟩
        · exact .inl ⟨hcell, hout⟩
        · exact .inr hin
  · have hcell : cell ∈ chosen.flow.cells := by
      rw [hsplit]
      exact mem_append_right _ mem_cons_self
    by_cases hbefore : s.placement.infeasibleFlows = []
    · obtain ⟨hrest, hplaced, hrelease, hleft⟩ := hs hbefore
      have hflow := (hrest.mem chosen hchosen).1
      have hnew : ¬ (old cell ∨ cell ∈ prior) := by
        rintro (⟨-, hout⟩ | hprior)
        · exact hout (hrest.whole chosen hchosen cell hcell)
        · have hnodup := hchecked.own.nodup chosen.flow hflow
          rw [hsplit] at hnodup
          exact disjoint_of_nodup_append hnodup hprior mem_cons_self
      obtain ⟨hplaced', hfilter, hrelease'⟩ :=
        cLlfCell_placedExactly hchecked hnew hcall hnone hplaced hrelease
      refine ⟨hrest, hplaced'.congr fun c ↦ ?_, hrelease', ?_⟩
      · rw [mem_append, mem_singleton, or_assoc]
      · rw [hfilter, hleft, filter_drop_cell hchecked.own hrest.mem hflow hcell]
    · exact absurd (cLlfCell_feasible hcall hnone) hbefore
  · have hrest := hx hnone
    refine ⟨hrest, hrest.placed.congr fun cell ↦ ?_, hchecked.release _ (hrest.mem chosen hchosen).1,
      ?_⟩
    · simp [hold]
    · simp

theorem cLlfChannels_nil (args : CreateArgs) (length channels : ℕ)
    (y : List CellCLlf × Placement) : cLlfChannels args length channels [] y = .ok y := by
  cases channels with
  | zero => rfl
  | succ channels => rfl

theorem cLlfChannels_cases
    (hcall : cLlfChannels args length channels toRelease (transmissions, x) = .ok y) :
    y = (transmissions, x) ∨ ∃ chosen ∈ toRelease, ∃ z,
      chosen.flow.cells.foldlM (cLlfCell args length chosen)
        ⟨chosen.flow.releaseTime, transmissions, x⟩ = .ok z ∧
      y = (z.transmissionsFlows, z.placement) := by
  induction channels generalizing toRelease with
  | zero => exact .inl (Except.ok.inj hcall).symm
  | succ channels ih =>
    unfold cLlfChannels at hcall
    split at hcall
    · exact .inl (Except.ok.inj hcall).symm
    · rename_i chosen hchoose
      obtain ⟨z, hcells, hrest⟩ := bind_eq_ok hcall
      have hchosen := chooseTransmission_mem hchoose
      by_cases hnone : chosen.flow.cells = []
      · -- nothing is placed, and another transmission may be chosen
        rw [hnone] at hcells hrest
        cases hcells
        rcases ih hrest with hsame | ⟨other, hother, htaken⟩
        · exact .inl hsame
        · exact .inr ⟨other, (mem_filter.mp hother).1, htaken⟩
      · have hempty : (toRelease.filter fun w ↦
            w.cell.participants.isEmpty && chosen.flow.cells.isEmpty) = [] := by
          rw [filter_eq_nil_iff]
          intro w _
          simp [hnone]
        rw [hempty, cLlfChannels_nil] at hrest
        exact .inr ⟨chosen, hchosen, z, hcells, (Except.ok.inj hrest).symm⟩

theorem cLlfChannels_remaining (hchecked : CLlfChecked args length flows)
    (hreleased : ∀ z ∈ toRelease, z ∈ transmissions)
    (hx : x.infeasibleFlows = [] → Remaining args flows transmissions x)
    (hcall : cLlfChannels args length channels toRelease (transmissions, x) = .ok y)
    (hfeasible : y.2.infeasibleFlows = []) : Remaining args flows y.1 y.2 := by
  rcases cLlfChannels_cases hcall with hsame | ⟨chosen, hchosen, z, hcells, hdone⟩
  · rw [hsame] at hfeasible ⊢
    exact hx hfeasible
  · rw [hdone] at hfeasible ⊢
    exact cLlfCells_remaining hchecked (hreleased chosen hchosen) hcells hx hfeasible

theorem Remaining.map (hx : Remaining args flows transmissions x) (laxity : CellCLlf → ℤ) :
    Remaining args flows (transmissions.map fun z ↦ { z with laxity := laxity z }) x := by
  have hcells : (transmissions.map fun z ↦ { z with laxity := laxity z }).map CellCLlf.cell =
      transmissions.map CellCLlf.cell := by
    rw [map_map]
    rfl
  refine ⟨fun z hz ↦ ?_, fun z hz ↦ ?_, ?_⟩
  · obtain ⟨w, hw, rfl⟩ := mem_map.mp hz
    exact hx.mem w hw
  · obtain ⟨w, hw, rfl⟩ := mem_map.mp hz
    rw [hcells]
    exact hx.whole w hw
  · rw [hcells]
    exact hx.placed

theorem cLlfLoop_placedExactly (hchecked : CLlfChecked args length flows) {timeslotIdx : ℕ}
    {y : Placement} (hx : x.infeasibleFlows = [] → Remaining args flows transmissions x)
    (hcall : cLlfLoop args length fuel timeslotIdx (transmissions, x) = .ok y)
    (hfeasible : y.infeasibleFlows = []) : PlacedExactly args true (IsCellOf flows) y := by
  induction fuel generalizing timeslotIdx transmissions x with
  | zero =>
    cases transmissions with
    | nil =>
      cases hcall
      exact (hx hfeasible).placed.congr fun cell ↦ by simp
    | cons first rest => cases hcall
  | succ fuel ih =>
    cases transmissions with
    | nil =>
      cases hcall
      exact (hx hfeasible).placed.congr fun cell ↦ by simp
    | cons first rest =>
      obtain ⟨z, hchannels, hrest⟩ := bind_eq_ok hcall
      refine ih (fun hnone ↦ ?_) hrest
      exact cLlfChannels_remaining hchecked (fun w hw ↦ (mem_filter.mp hw).1)
        (fun hbefore ↦ (hx hbefore).map _) hchannels hnone

theorem mem_allTransmissions {z : CellCLlf} :
    z ∈ allTransmissions flows ↔ z.flow ∈ flows ∧ z.cell ∈ z.flow.cells ∧ z.laxity = -1 := by
  unfold allTransmissions
  rw [mem_flatMap]
  constructor
  · rintro ⟨flow, hflow, hz⟩
    obtain ⟨cell, hcell, rfl⟩ := mem_map.mp hz
    exact ⟨hflow, hcell, rfl⟩
  · rintro ⟨hflow, hcell, hlaxity⟩
    refine ⟨z.flow, hflow, mem_map.mpr ⟨z.cell, hcell, ?_⟩⟩
    rw [← hlaxity]

theorem mem_map_allTransmissions :
    cell ∈ (allTransmissions flows).map CellCLlf.cell ↔ IsCellOf flows cell := by
  rw [mem_map]
  constructor
  · rintro ⟨z, hz, rfl⟩
    obtain ⟨hflow, hcell, -⟩ := mem_allTransmissions.mp hz
    exact ⟨z.flow, hflow, hcell⟩
  · rintro ⟨flow, hflow, hcell⟩
    exact ⟨⟨flow, cell, -1⟩, mem_allTransmissions.mpr ⟨hflow, hcell, rfl⟩, rfl⟩

theorem remaining_allTransmissions :
    Remaining args flows (allTransmissions flows) Placement.empty := by
  refine ⟨fun z hz ↦ ?_, fun z hz cell hcell ↦ ?_, ?_⟩
  · obtain ⟨hflow, hcell, -⟩ := mem_allTransmissions.mp hz
    exact ⟨hflow, hcell⟩
  · exact mem_map_allTransmissions.mpr ⟨z.flow, (mem_allTransmissions.mp hz).1, hcell⟩
  · refine placedExactly_empty.congr fun cell ↦ ?_
    rw [mem_map_allTransmissions]
    exact iff_of_false id fun hboth ↦ hboth.2 hboth.1

theorem placeCLlf_placedExactly (hchecked : CLlfChecked args length flows)
    (hcall : placeCLlf args length fuel flows = .ok x) (hfeasible : x.infeasibleFlows = []) :
    PlacedExactly args true (IsCellOf flows) x :=
  cLlfLoop_placedExactly hchecked (fun _ ↦ remaining_allTransmissions) hcall hfeasible

end Round

end ContikiMaster.Scheduler
