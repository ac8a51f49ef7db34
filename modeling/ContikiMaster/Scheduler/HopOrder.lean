import ContikiMaster.Scheduler.Acceptance
import ContikiMaster.Scheduler.HopCells
import ContikiMaster.Scheduler.PlacementOrder

/-!
# The hops of a flow in time

Within a hyper-period C-LLF takes each flow once and searches forwards like EDF and RMS;
R-LPF is turned round at the end. In the returned schedule the cells of a flow lie in the
order of its path; in R-LPF this rests on windows of at least two cells, which the code
asks for only where the size is given.
-/

namespace ContikiMaster.Scheduler

open Lib List Option

section CLlf

variable {args : CreateArgs} {length : ℕ} {flows : List Flow} {transmissions : List CellCLlf}
  {x y : Placement}

variable {cell : Cell} {timeslotIdx : ℕ} {flow : Flow}

theorem cLlfCell_written {chosen : CellCLlf} {s t : CLlfState}
    (hmode : args.ignoreNsf = .infeasible) (hcall : cLlfCell args length chosen s cell = .ok t) :
    (findSchedulableSlot length args.numChannels s.placement.schedule cell s.releaseTime = none ∧
      t = s) ∨ ∃ channel slot, s.releaseTime ≤ slot ∧ t.releaseTime = slot + 1 ∧
      t.placement.schedule = s.placement.schedule.write channel slot cell ∧
      t.placement.infeasibleFlows = s.placement.infeasibleFlows ∧
      t.placement.lastTimeslot = s.placement.lastTimeslot ∧
      t.transmissionsFlows = s.transmissionsFlows.filter fun z ↦
        !(z.cell == cell && chosen.flow.subFlowNumber == z.flow.subFlowNumber) := by
  unfold cLlfCell at hcall
  split at hcall
  · rename_i hfind
    exact .inl ⟨hfind, (Except.ok.inj hcall).symm⟩
  · rename_i channel slot hfind
    obtain ⟨⟨placed, z⟩, hsettle, hdone⟩ := bind_eq_ok hcall
    obtain ⟨hlater, -⟩ := findSchedulableSlot_spec hfind
    obtain ⟨rfl, hwrite, hinfeasible, hlast⟩ := settled_of_infeasible hmode hsettle
    cases hdone
    exact .inr ⟨channel, slot, hlater, rfl, hwrite, hinfeasible, hlast, rfl⟩

theorem cLlfCells_allAscending {chosen : CellCLlf} {y : CLlfState}
    (hmode : args.ignoreNsf = .infeasible) (halgorithm : args.algorithm = .cLlf)
    (hown : OwnCells flows) (hflow : chosen.flow ∈ flows)
    (hnone : ∀ cell ∈ chosen.flow.cells, ∀ c u, x.schedule c u ≠ some cell)
    (hcells : chosen.flow.cells.foldlM (cLlfCell args length chosen)
      ⟨chosen.flow.releaseTime, transmissions, x⟩ = .ok y)
    (hall : AllAscending args flows x.schedule) : AllAscending args flows y.placement.schedule := by
  refine hall.placeFlow hown hflow ?_
  rw [placementOrder_of_ne (by simp [halgorithm])]
  refine ascending_of_loop (g := fun s : CLlfState ↦ s.placement.schedule)
    (Q := fun prior s ↦ ∀ b ∈ prior, ∀ c u, s.placement.schedule c u = some b → u < s.releaseTime)
    (fun prior cell _ _ s t hs hcell hstep ↦ ?_) (hown.nodup _ hflow) hnone hcells
    fun b hb ↦ absurd hb not_mem_nil
  rcases cLlfCell_written hmode hstep with ⟨-, rfl⟩ | ⟨channel, slot, hcursor, hnext, hwrite, -⟩
  · refine ⟨fun b hb c u hentry ↦ ?_, .inl rfl⟩
    rcases mem_append.mp hb with hin | hin
    · exact hs b hin c u hentry
    · rw [mem_singleton.mp hin] at hentry
      exact absurd hentry (hcell c u)
  · obtain ⟨hpassed, hbefore⟩ := cursor_step channel hcursor hcell hs
    rw [hwrite, hnext]
    exact ⟨hpassed, .inr ⟨channel, slot, rfl, hbefore⟩⟩

theorem Remaining.ne_of_mem (hx : Remaining args flows transmissions x) {z : CellCLlf}
    (hz : z ∈ transmissions) (hcell : cell ∈ z.flow.cells) (c u : ℕ) :
    x.schedule c u ≠ some cell := by
  apply hx.placed.ne_of_not
  rintro ⟨-, hout⟩
  exact hout (hx.whole z hz cell hcell)

theorem cLlfCells_infeasibleFlows {chosen : CellCLlf} {cells : List Cell} {s t : CLlfState}
    (hmode : args.ignoreNsf = .infeasible)
    (hcells : cells.foldlM (cLlfCell args length chosen) s = .ok t)
    (hs : s.placement.infeasibleFlows = []) : t.placement.infeasibleFlows = [] := by
  refine foldlM_invariant (P := fun s : CLlfState ↦ s.placement.infeasibleFlows = [])
    (fun cell _ s t hs hstep ↦ ?_) hcells hs
  rcases cLlfCell_written hmode hstep with ⟨-, rfl⟩ | ⟨_, _, -, -, -, hsame, -⟩
  · exact hs
  · rw [hsame, hs]

theorem cLlfLoop_allAscending (hchecked : CLlfChecked args length flows)
    (hmode : args.ignoreNsf = .infeasible) {fuel : ℕ} (hfeasible : x.infeasibleFlows = [])
    (hx : Remaining args flows transmissions x) (hall : AllAscending args flows x.schedule)
    (hcall : cLlfLoop args length fuel timeslotIdx (transmissions, x) = .ok y) :
    AllAscending args flows y.schedule := by
  induction fuel generalizing timeslotIdx transmissions x with
  | zero =>
    cases transmissions with
    | nil =>
      cases hcall
      exact hall
    | cons first rest => cases hcall
  | succ fuel ih =>
    cases transmissions with
    | nil =>
      cases hcall
      exact hall
    | cons first rest =>
      obtain ⟨z, hchannels, hrest⟩ := bind_eq_ok hcall
      have hmapped := hx.map fun z ↦ computeLaxity z
        ((first :: rest).filter fun z ↦ decide (z.flow.releaseTime ≤ timeslotIdx)) timeslotIdx
      rcases cLlfChannels_cases hchannels with hsame | ⟨chosen, hchosen, w, hcells, hdone⟩
      · rw [hsame] at hrest
        exact ih hfeasible hmapped hall hrest
      · rw [hdone] at hrest
        have hleft := (mem_filter.mp hchosen).1
        have hfeasible' := cLlfCells_infeasibleFlows hmode hcells hfeasible
        refine ih hfeasible' ?_ ?_ hrest
        · exact cLlfCells_remaining hchecked hleft hcells (fun _ ↦ hmapped) hfeasible'
        · exact cLlfCells_allAscending hmode hchecked.algorithm hchecked.own
            (hmapped.mem chosen hleft).1 (fun cell hcell ↦ hmapped.ne_of_mem hleft hcell) hcells hall

/-! ## C-LLF with a hyper-period of 1 -/

/-- Entries are only added, and the last timeslot is never moved. -/
structure Grows (x y : Placement) : Prop where
  used : ∀ c u, x.schedule c u ≠ none → y.schedule c u ≠ none
  lastTimeslot : y.lastTimeslot = x.lastTimeslot

theorem Grows.refl (x : Placement) : Grows x x := ⟨fun _ _ hused ↦ hused, rfl⟩

theorem Grows.trans {z : Placement} (hxy : Grows x y) (hyz : Grows y z) : Grows x z :=
  ⟨fun c u hused ↦ hyz.used c u (hxy.used c u hused), hyz.lastTimeslot.trans hxy.lastTimeslot⟩

section

variable {chosen z : CellCLlf} {s t : CLlfState} {cells : List Cell}
  (hmode : args.ignoreNsf = .infeasible)

include hmode

theorem cLlfCell_grows (hcall : cLlfCell args length chosen s cell = .ok t) :
    Grows s.placement t.placement := by
  rcases cLlfCell_written hmode hcall with ⟨-, rfl⟩ | ⟨channel, slot, -, -, hwrite, -, hlast, -⟩
  · exact Grows.refl _
  · refine ⟨fun c u hused ↦ ?_, hlast⟩
    rw [hwrite, Grid.write_apply]
    split
    · exact some_ne_none cell
    · exact hused

theorem cLlfCells_grows (hcells : cells.foldlM (cLlfCell args length chosen) s = .ok t) :
    Grows s.placement t.placement :=
  foldlM_invariant (P := fun t : CLlfState ↦ Grows s.placement t.placement)
    (fun _ _ _ _ hs hstep ↦ hs.trans (cLlfCell_grows hmode hstep)) hcells (Grows.refl _)

theorem cLlfLoop_grows {fuel : ℕ}
    (hcall : cLlfLoop args length fuel timeslotIdx (transmissions, x) = .ok y) : Grows x y := by
  induction fuel generalizing timeslotIdx transmissions x with
  | zero =>
    cases transmissions with
    | nil =>
      cases hcall
      exact Grows.refl _
    | cons first rest => cases hcall
  | succ fuel ih =>
    cases transmissions with
    | nil =>
      cases hcall
      exact Grows.refl _
    | cons first rest =>
      obtain ⟨z, hchannels, hrest⟩ := bind_eq_ok hcall
      rcases cLlfChannels_cases hchannels with hsame | ⟨chosen, -, w, hcells, hdone⟩
      · rw [hsame] at hrest
        exact ih hrest
      · rw [hdone] at hrest
        exact (cLlfCells_grows hmode hcells).trans (ih hrest)

theorem cLlfCell_slot_zero (hchannels : 0 < args.numChannels)
    (hlength : max 1 s.releaseTime < length)
    (hzero : ∀ c u, t.placement.schedule c u ≠ none → u = 0)
    (hcall : cLlfCell args length chosen s cell = .ok t) :
    s.releaseTime = 0 ∧ t.releaseTime = 1 := by
  have hgrows := cLlfCell_grows hmode hcall
  rcases cLlfCell_written hmode hcall with ⟨hfind, -⟩ | ⟨channel, slot, hlater, hnext, hwrite, -⟩
  · have hfree : s.placement.schedule 0 (max 1 s.releaseTime) = none := by
      by_contra hused
      have hslot := hzero 0 _ (hgrows.used 0 _ hused)
      omega
    exact absurd hfind
      (findSchedulableSlot_ne_none cell hlength hchannels hfree (le_max_right 1 s.releaseTime))
  · have hslot : slot = 0 := by
      apply hzero channel slot
      rw [hwrite, Grid.write_apply, if_pos ⟨rfl, rfl⟩]
      exact some_ne_none cell
    omega

theorem length_le_one_of_cLlfCells (hchannels : 0 < args.numChannels)
    (hlength : max 1 s.releaseTime < length)
    (hzero : ∀ c u, t.placement.schedule c u ≠ none → u = 0)
    (hcells : cells.foldlM (cLlfCell args length chosen) s = .ok t) : cells.length ≤ 1 := by
  match cells with
  | [] => exact Nat.zero_le 1
  | [_] => exact le_rfl
  | first :: second :: rest =>
    rw [foldlM_cons] at hcells
    obtain ⟨s', hfirst, hcells⟩ := bind_eq_ok hcells
    rw [foldlM_cons] at hcells
    obtain ⟨s'', hsecond, hrest⟩ := bind_eq_ok hcells
    have hzero'' : ∀ c u, s''.placement.schedule c u ≠ none → u = 0 :=
      fun c u hused ↦ hzero c u ((cLlfCells_grows hmode hrest).used c u hused)
    have hzero' : ∀ c u, s'.placement.schedule c u ≠ none → u = 0 :=
      fun c u hused ↦ hzero'' c u ((cLlfCell_grows hmode hsecond).used c u hused)
    obtain ⟨hstart, hone⟩ := cLlfCell_slot_zero hmode hchannels hlength hzero' hfirst
    -- the second cell would be searched from timeslot 1 on
    obtain ⟨hagain, -⟩ := cLlfCell_slot_zero hmode hchannels (by omega) hzero'' hsecond
    omega

variable (hcells : cells.foldlM (cLlfCell args length chosen) s = .ok t)

include hcells

theorem mem_of_cLlfCells
    (hz : z ∈ s.transmissionsFlows) (hout : z.cell ∉ cells) : z ∈ t.transmissionsFlows := by
  refine foldlM_invariant (P := fun s : CLlfState ↦ z ∈ s.transmissionsFlows)
    (fun cell hcell s t hs hstep ↦ ?_) hcells hz
  rcases cLlfCell_written hmode hstep with ⟨-, rfl⟩ | ⟨_, _, -, -, -, -, -, hfilter⟩
  · exact hs
  · have hne : z.cell ≠ cell := fun heq ↦ hout (heq ▸ hcell)
    rw [hfilter]
    exact mem_filter.mpr ⟨hs, by simp [hne]⟩

theorem subset_of_cLlfCells (hz : z ∈ t.transmissionsFlows) : z ∈ s.transmissionsFlows := by
  refine foldlM_invariant (P := fun t : CLlfState ↦ z ∈ t.transmissionsFlows →
    z ∈ s.transmissionsFlows) (fun cell _ r t hr hstep hin ↦ hr ?_) hcells id hz
  rcases cLlfCell_written hmode hstep with ⟨-, rfl⟩ | ⟨_, _, -, -, -, -, -, hfilter⟩
  · exact hin
  · rw [hfilter] at hin
    exact (mem_filter.mp hin).1

end

theorem length_le_one_of_nil
    (hleft : ∀ cell ∈ flow.cells, ∃ z ∈ ([] : List CellCLlf), z.flow = flow ∧ z.cell = cell) :
    flow.cells.length ≤ 1 := by
  have hcells : flow.cells = [] := by
    rw [eq_nil_iff_forall_not_mem]
    intro cell hcell
    obtain ⟨z, hz, -⟩ := hleft cell hcell
    cases hz
  rw [hcells]
  exact Nat.zero_le 1

theorem cLlfLoop_length_le_one (hmode : args.ignoreNsf = .infeasible)
    (hchannels : 0 < args.numChannels) (hown : OwnCells flows)
    (hlong : ∀ flow ∈ flows, flow.cells ≠ [] → max 1 flow.releaseTime < length)
    (hzero : ∀ c u, y.schedule c u ≠ none → u = 0) (hflow : flow ∈ flows) {fuel : ℕ}
    (hmem : ∀ z ∈ transmissions, z.flow ∈ flows ∧ z.cell ∈ z.flow.cells)
    (hleft : ∀ cell ∈ flow.cells, ∃ z ∈ transmissions, z.flow = flow ∧ z.cell = cell)
    (hcall : cLlfLoop args length fuel timeslotIdx (transmissions, x) = .ok y) :
    flow.cells.length ≤ 1 := by
  induction fuel generalizing timeslotIdx transmissions x with
  | zero =>
    cases transmissions with
    | nil => exact length_le_one_of_nil hleft
    | cons first rest => cases hcall
  | succ fuel ih =>
    cases transmissions with
    | nil => exact length_le_one_of_nil hleft
    | cons first rest =>
      obtain ⟨z, hround, hrest⟩ := bind_eq_ok hcall
      -- the laxities are new, the transmissions are not
      set mapped : List CellCLlf := (first :: rest).map fun z ↦
        { z with
          laxity := computeLaxity z
            ((first :: rest).filter fun z ↦ decide (z.flow.releaseTime ≤ timeslotIdx))
            timeslotIdx }
      have hmem' : ∀ z ∈ mapped, z.flow ∈ flows ∧ z.cell ∈ z.flow.cells := by
        intro z hz
        obtain ⟨w, hw, rfl⟩ := mem_map.mp hz
        exact hmem w hw
      have hleft' : ∀ cell ∈ flow.cells, ∃ z ∈ mapped, z.flow = flow ∧ z.cell = cell := by
        intro cell hcell
        obtain ⟨z, hz, hsame⟩ := hleft cell hcell
        exact ⟨_, mem_map_of_mem hz, hsame⟩
      rcases cLlfChannels_cases hround with hsame | ⟨chosen, hchosen, w, hcells, hdone⟩
      · rw [hsame] at hrest
        exact ih hmem' hleft' hrest
      · rw [hdone] at hrest
        obtain ⟨hflow', hcell'⟩ := hmem' chosen (mem_filter.mp hchosen).1
        have hgrows := cLlfLoop_grows hmode hrest
        have hone := length_le_one_of_cLlfCells hmode hchannels
          (hlong _ hflow' (ne_nil_of_mem hcell'))
          (fun c u hused ↦ hzero c u (hgrows.used c u hused)) hcells
        by_cases hsame : chosen.flow = flow
        · rwa [hsame] at hone
        · refine ih (fun z hz ↦ hmem' z (subset_of_cLlfCells hmode hcells hz))
            (fun cell hcell ↦ ?_) hrest
          obtain ⟨z, hz, hzflow, hzcell⟩ := hleft' cell hcell
          refine ⟨z, mem_of_cLlfCells hmode hcells hz fun hin ↦ hsame ?_, hzflow, hzcell⟩
          rw [hzcell] at hin
          exact hown.eq_of_mem_cells hflow' hflow hin hcell

end CLlf

/-! ## The returned schedule -/

section Created

variable {args : CreateArgs} {fuel : ℕ} {flows : List Flow} {x : Placed} {s : Schedule}

/-- The final timeslots of the cells of every flow grow strictly from the source on. -/
def Schedule.InHopOrder (s : Schedule) : Prop :=
  ∀ flow ∈ s.flows, flow.cells.Pairwise fun a b ↦ ∃ t c u d,
    s.attributes a = some (t, c) ∧ s.attributes b = some (u, d) ∧ t < u

/-- The cells of a flow can be told to hand a packet on: every hop has a transmission and every
window spans two cells. -/
def Flow.Supported (args : CreateArgs) (flow : Flow) : Prop :=
  ∀ subPath ∈ subFlowPaths flow,
    SubPathSupported args.etx args.strategy args.windowSizeAlgorithm args.fixedWindowSize subPath

theorem Initialised.isChain {flow ready : Flow} {id : ℕ} (hinit : Initialised args flow id ready)
    (hsupported : flow.Supported args) : ready.cells.IsChain Cell.Conflicts := by
  obtain ⟨participants, hcells, hready⟩ := hinit.cells
  have hchain := createCells_isChain hsupported hcells
  rw [hready, isChain_map]
  have hfirst : participants.zipIdx.map Prod.fst = participants := zipIdx_map_fst _ _
  rw [← hfirst, isChain_map] at hchain
  exact hchain

theorem conflicts_of_placeCells (hplaced : placeCells args fuel flows = .ok x)
    (hsupported : ∀ flow ∈ flows, flow.Supported args) :
    ∀ flow ∈ x.flows, flow.cells.IsChain Cell.Conflicts := by
  intro flow hflow
  obtain ⟨ready, hready, hflows, -⟩ := placeCells_spec hplaced
  rw [hflows, (orderFlows_perm _ _).mem_iff] at hflow
  obtain ⟨given, hgiven, id, hinit⟩ := exists_initialised_of_mem hready hflow
  exact hinit.isChain (hsupported given hgiven)

/-- Whenever R-LPF has placed a cell, the timeslot of this cell has no room for the next one of the
same flow. -/
def Placed.HopsApart (args : CreateArgs) (x : Placed) : Prop :=
  FlowsApart args x.length (allDeadlines x.flows) x.flows ⟨none, 0, Placement.empty⟩

theorem placeRLpf_of_placeCells (halgorithm : args.algorithm = .rLpf)
    (hplaced : placeCells args fuel flows = .ok x) :
    placeRLpf args x.length x.flows = .ok x.placement := by
  obtain ⟨-, -, -, -, -, hplacement⟩ := placeCells_spec hplaced
  unfold placeOrdered at hplacement
  rw [halgorithm] at hplacement
  exact hplacement

theorem hopsApart_of_supported (hmode : args.ignoreNsf = .infeasible)
    (hplaced : placeCells args fuel flows = .ok x)
    (hsupported : 1 < args.numChannels → ∀ flow ∈ flows, flow.Supported args) :
    x.HopsApart args := by
  refine flowsApart_of_conflicts hmode ⟨conflictFree_empty _, fun _ _ _ hcell ↦ ?_⟩
    fun hmany ↦ conflicts_of_placeCells hplaced (hsupported hmany)
  cases hcell

theorem allAscending_of_placeCells (hmode : args.ignoreNsf = .infeasible)
    (hplaced : placeCells args fuel flows = .ok x)
    (hcycle : args.algorithm = .cLlf → 1 < args.shortestRepeatingCycle)
    (hapart : args.algorithm = .rLpf → x.HopsApart args) :
    AllAscending args x.flows x.placement.schedule := by
  obtain ⟨-, -, -, -, -, hplacement⟩ := placeCells_spec hplaced
  have hown := ownCells_of_placeCells hplaced
  cases halgorithm : args.algorithm with
  | rLpf =>
    exact placeRLpf_allAscending hmode halgorithm hown (hapart halgorithm)
      (placeRLpf_of_placeCells halgorithm hplaced)
  | edf =>
    obtain ⟨-, hplace⟩ := placeInOrder_of_placeOrdered (.inl halgorithm) hplacement
    exact placeInOrder_allAscending hmode (.inl halgorithm) hown hplace
  | rms =>
    obtain ⟨-, hplace⟩ := placeInOrder_of_placeOrdered (.inr halgorithm) hplacement
    exact placeInOrder_allAscending hmode (.inr halgorithm) hown hplace
  | cLlf =>
    by_cases hcells : ∃ flow ∈ x.flows, flow.cells ≠ []
    · obtain ⟨flow, hflow, hne⟩ := hcells
      have hchecked := cLlfChecked_of_placeCells halgorithm (hcycle halgorithm) (by simp [hmode])
        hplaced hflow hne
      exact cLlfLoop_allAscending hchecked hmode rfl remaining_allTransmissions allAscending_empty
        (placeCLlf_of_placeCells halgorithm hplaced)
    · intro flow hflow
      have hnil : flow.cells = [] := by
        by_contra hne
        exact hcells ⟨flow, hflow, hne⟩
      rw [placementOrder_of_ne (by simp [halgorithm]), hnil]
      exact List.Pairwise.nil

theorem inHopOrder_of_allAscending (hfinal : finalise args x = .ok s) (hkept : s.CellsKept)
    (hall : AllAscending args x.flows x.placement.schedule) : s.InHopOrder := by
  have hflows : s.flows = x.flows := (finalise_spec hfinal).2.2.1
  intro flow hflow
  have hascending := hall flow (hflows ▸ hflow)
  by_cases halgorithm : args.algorithm = .rLpf
  · rw [placementOrder_of_rLpf halgorithm] at hascending
    refine List.Pairwise.imp_of_mem (fun {a b} ha hb hlt ↦ ?_) (pairwise_reverse.mp hascending)
    obtain ⟨c, t, hherea, hattra⟩ := hkept flow hflow a ha
    obtain ⟨d, u, hhereb, hattrb⟩ := hkept flow hflow b hb
    obtain ⟨hta, ha'⟩ := entry_of_finalise hfinal ((hherea c t).mpr ⟨rfl, rfl⟩)
    obtain ⟨hub, hb'⟩ := entry_of_finalise hfinal ((hhereb d u).mpr ⟨rfl, rfl⟩)
    rw [placedSlot_of_rLpf halgorithm] at ha' hb'
    have hreversed := hlt _ _ _ _ hb' ha'
    exact ⟨t, c, u, d, hattra, hattrb, by omega⟩
  · rw [placementOrder_of_ne halgorithm] at hascending
    refine List.Pairwise.imp_of_mem (fun {a b} ha hb hlt ↦ ?_) hascending
    obtain ⟨c, t, hherea, hattra⟩ := hkept flow hflow a ha
    obtain ⟨d, u, hhereb, hattrb⟩ := hkept flow hflow b hb
    obtain ⟨-, ha'⟩ := entry_of_finalise hfinal ((hherea c t).mpr ⟨rfl, rfl⟩)
    obtain ⟨-, hb'⟩ := entry_of_finalise hfinal ((hhereb d u).mpr ⟨rfl, rfl⟩)
    rw [placedSlot_of_ne halgorithm] at ha' hb'
    exact ⟨t, c, u, d, hattra, hattrb, hlt _ _ _ _ ha' hb'⟩

theorem inHopOrder_of_cLlf_one (hmode : args.ignoreNsf = .infeasible)
    (halgorithm : args.algorithm = .cLlf) (hcycle : args.shortestRepeatingCycle = 1)
    (hplaced : placeCells args fuel flows = .ok x) (hfinal : finalise args x = .ok s)
    (huncut : x.Uncut args) : s.InHopOrder := by
  obtain ⟨ready, hready, hordered, hlength, hchannels, -⟩ := placeCells_spec hplaced
  have hflows : s.flows = x.flows := (finalise_spec hfinal).2.2.1
  have hcall := placeCLlf_of_placeCells halgorithm hplaced
  have hlast : keptLastTimeslot args x.placement = 0 := by
    unfold keptLastTimeslot
    rw [if_neg (by omega)]
    exact (cLlfLoop_grows hmode hcall).lastTimeslot
  have hlong : ∀ flow ∈ x.flows, flow.cells ≠ [] → max 1 flow.releaseTime < x.length := by
    intro flow hflow hne
    rw [hordered, (orderFlows_perm _ _).mem_iff] at hflow
    obtain ⟨given, hgiven, id, hinit⟩ := exists_initialised_of_mem hready hflow
    have hrelease : flow.releaseTime = given.releaseTime := by
      rw [hinit.releaseTime, hcycle]
      simp [adjustReleaseTime]
    rw [hrelease, hlength]
    exact max_one_lt_gridLength hcycle hgiven (hinit.two_le_length hne)
  intro flow hflow
  have hflow' : flow ∈ x.flows := hflows ▸ hflow
  have hone := cLlfLoop_length_le_one hmode hchannels (ownCells_of_placeCells hplaced) hlong
    (fun c u hused ↦ Nat.le_zero.mp (hlast ▸ huncut c u hused)) hflow'
    (fun z hz ↦ ⟨(mem_allTransmissions.mp hz).1, (mem_allTransmissions.mp hz).2.1⟩)
    (fun cell hcell ↦ ⟨⟨flow, cell, -1⟩, mem_allTransmissions.mpr ⟨hflow', hcell, rfl⟩, rfl, rfl⟩)
    hcall
  match hcells : flow.cells with
  | [] => exact List.Pairwise.nil
  | [_] => exact pairwise_singleton _ _
  | _ :: _ :: _ =>
    rw [hcells] at hone
    simp at hone

theorem allAscending_of_inHopOrder (halgorithm : args.algorithm = .rLpf)
    (hfinal : finalise args x = .ok s) (hkept : s.CellsKept) (huncut : x.Uncut args)
    (horder : s.InHopOrder) : AllAscending args x.flows x.placement.schedule := by
  obtain ⟨-, -, hflows, -, -, hschedule, -⟩ := finalise_spec hfinal
  intro flow hflow
  rw [← hflows] at hflow
  -- where a cell was inserted, counted from the end, is what it knows of its place
  have hslot : ∀ cell ∈ flow.cells, ∀ c i, x.placement.schedule c i = some cell →
      i ≤ keptLastTimeslot args x.placement ∧
        s.attributes cell = some (keptLastTimeslot args x.placement - i, c) := by
    intro cell hcell c i hentry
    have hi : i ≤ keptLastTimeslot args x.placement :=
      huncut c i (by rw [hentry]; exact some_ne_none cell)
    obtain ⟨channel, slot, honce, hattributes⟩ := hkept flow hflow cell hcell
    have hhere : s.schedule c (keptLastTimeslot args x.placement - i) = some cell := by
      rw [hschedule, cutSchedule_apply args _ (Nat.sub_le _ i), placedSlot_of_rLpf halgorithm,
        Nat.sub_sub_self hi]
      exact hentry
    obtain ⟨rfl, rfl⟩ := (honce _ _).mp hhere
    exact ⟨hi, hattributes⟩
  rw [placementOrder_of_rLpf halgorithm]
  refine pairwise_reverse.mpr (List.Pairwise.imp_of_mem (fun {a b} ha hb hlt ↦ ?_)
    (horder flow hflow))
  intro c d i j hentryb hentrya
  obtain ⟨t, c', u, d', hattra, hattrb, hbefore⟩ := hlt
  obtain ⟨hj, hslota⟩ := hslot a ha d j hentrya
  obtain ⟨hi, hslotb⟩ := hslot b hb c i hentryb
  rw [hslota, some.injEq, Prod.mk.injEq] at hattra
  rw [hslotb, some.injEq, Prod.mk.injEq] at hattrb
  omega

theorem hopsApart_of_allAscending (hmode : args.ignoreNsf = .infeasible)
    (halgorithm : args.algorithm = .rLpf) (hplaced : placeCells args fuel flows = .ok x)
    (hall : AllAscending args x.flows x.placement.schedule) : x.HopsApart args := by
  obtain ⟨y, hloop, hdone⟩ := bind_eq_ok (placeRLpf_of_placeCells halgorithm hplaced)
  refine flowsApart_of_allAscending hmode hloop fun flow hflow ↦ ?_
  have hascending := hall flow hflow
  rw [placementOrder_of_rLpf halgorithm, ← Except.ok.inj hdone] at hascending
  exact hascending

theorem create_inHopOrder_of_hopsApart (hmode : args.ignoreNsf = .infeasible)
    (hplaced : placeCells args fuel flows = .ok x) (hfinal : finalise args x = .ok s)
    (huncut : x.Uncut args) (hapart : args.algorithm = .rLpf → x.HopsApart args) :
    s.InHopOrder := by
  have hflows : s.flows = x.flows := (finalise_spec hfinal).2.2.1
  by_cases hneCLlf : args.algorithm ≠ .cLlf
  · exact inHopOrder_of_allAscending hfinal (cellsKept_of_uncut hneCLlf hplaced hfinal huncut)
      (allAscending_of_placeCells hmode hplaced (fun hcLlf ↦ absurd hcLlf hneCLlf) hapart)
  · have halgorithm := not_not.mp hneCLlf
    by_cases hone : args.shortestRepeatingCycle = 1
    · exact inHopOrder_of_cLlf_one hmode halgorithm hone hplaced hfinal huncut
    · intro flow hflow
      have hpos := cycle_pos_of_placeCells hplaced (hflows ▸ hflow)
      have hcycle : 1 < args.shortestRepeatingCycle := by omega
      have hexact := placeCells_placedExactly_cLlf halgorithm hcycle (by simp [hmode]) hplaced
        (finalise_spec hfinal).1
      exact inHopOrder_of_allAscending hfinal
        (cellsKept_of_placedExactly hplaced hfinal hexact huncut)
        (allAscending_of_placeCells hmode hplaced (fun _ ↦ hcycle) hapart) flow hflow

/-- The cells of an uncut schedule are in the order of the hops, unless R-LPF finds room for a cell
in the timeslot of the one before. Supported flows leave no such room. -/
theorem create_inHopOrder_iff (hmode : args.ignoreNsf = .infeasible)
    (hcreate : create args fuel flows = .ok s) (hplaced : placeCells args fuel flows = .ok x)
    (huncut : x.Uncut args) :
    (s.InHopOrder ↔ (args.algorithm = .rLpf → x.HopsApart args)) ∧
      ((args.algorithm = .rLpf → 1 < args.numChannels → ∀ flow ∈ flows, flow.Supported args) →
        s.InHopOrder) := by
  obtain ⟨y, hplaced', hfinal⟩ := placeCells_of_create hcreate
  rw [hplaced] at hplaced'
  obtain rfl := Except.ok.inj hplaced'
  refine ⟨⟨fun horder halgorithm ↦ ?_, create_inHopOrder_of_hopsApart hmode hplaced hfinal huncut⟩,
    fun hsupported ↦ ?_⟩
  · have hkept := cellsKept_of_uncut (by simp [halgorithm]) hplaced hfinal huncut
    exact hopsApart_of_allAscending hmode halgorithm hplaced
      (allAscending_of_inHopOrder halgorithm hfinal hkept huncut horder)
  · exact create_inHopOrder_of_hopsApart hmode hplaced hfinal huncut
      fun halgorithm ↦ hopsApart_of_supported hmode hplaced (hsupported halgorithm)

theorem create_inHopOrder_iff_slidingWindow :
    let args := { plainArgs .rLpf with strategy := .slidingWindow }
    ∃ s x, create args 0 [pathFlow 1 1 3 [2]] = .ok s ∧
      placeCells args 0 [pathFlow 1 1 3 [2]] = .ok x ∧
      (s.InHopOrder ↔ (args.algorithm = .rLpf → x.HopsApart args)) ∧
      ((args.algorithm = .rLpf → 1 < args.numChannels →
        ∀ flow ∈ [pathFlow 1 1 3 [2]], flow.Supported args) → s.InHopOrder) := by
  intro args
  obtain ⟨s, hs⟩ := exists_eq_ok
    (show (create args 0 [pathFlow 1 1 3 [2]]).toOption.isSome = true by decide +kernel)
  obtain ⟨x, hx, -⟩ := placeCells_of_create hs
  have huncut := uncut_of_analysed (show args.algorithm ≠ .cLlf by decide) (by decide)
    (fun _ ↦ rfl) hx
  exact ⟨s, x, hs, hx, create_inHopOrder_iff rfl hs hx huncut⟩

/-- Three hops that cost half a transmission each: the window is one cell long, each of the two
cells has one node, and both get the same timeslot. -/
theorem create_not_inHopOrder_etxBased :
    let args := { plainArgs .rLpf with
      etx := fun _ _ ↦ 1 / 2, strategy := .slidingWindow, windowSizeAlgorithm := .etxBased }
    ∃ s x, create args 0 [pathFlow 1 1 4 [2, 3]] = .ok s ∧
      placeCells args 0 [pathFlow 1 1 4 [2, 3]] = .ok x ∧ x.Uncut args ∧ ¬ s.InHopOrder := by
  intro args
  obtain ⟨s, hs, flow, hflow, hsame⟩ : ∃ s, create args 0 [pathFlow 1 1 4 [2, 3]] = .ok s ∧
      ∃ flow ∈ s.flows, flow.cells.map s.attributes = [some (0, 1), some (0, 0)] :=
    exists_ok (by decide +kernel)
  obtain ⟨x, hx, -⟩ := placeCells_of_create hs
  have huncut := uncut_of_analysed (show args.algorithm ≠ .cLlf by decide) (by decide)
    (fun _ ↦ rfl) hx
  refine ⟨s, x, hs, hx, huncut, fun horder ↦ ?_⟩
  have hpair := horder flow hflow
  obtain ⟨a, rest, hcells, ha, hrest⟩ := map_eq_cons_iff.mp hsame
  obtain ⟨b, rest', rfl, hb, -⟩ := map_eq_cons_iff.mp hrest
  rw [hcells] at hpair
  obtain ⟨t, c, u, d, ht, hu, hlt⟩ := (pairwise_cons.mp hpair).1 b mem_cons_self
  rw [ha, some.injEq, Prod.mk.injEq] at ht
  rw [hb, some.injEq, Prod.mk.injEq] at hu
  omega

end Created

end ContikiMaster.Scheduler
