import ContikiMaster.Scheduler.Finalisation
import ContikiMaster.Scheduler.PlacementOrder

/-!
# What it means to be accepted

In the mode `infeasible` a schedule is returned only when the analysis of every cell went
well. EDF and RMS keep the slot that was analysed, so each cell is within its deadline.
R-LPF analyses an index counted backwards against the window of the flow, counted forwards,
and only later turns the schedule round.
-/

namespace ContikiMaster.Scheduler

open Lib List Option

/-- Every cell of the flows has one place, after the release of its flow and before the deadline. -/
def Schedule.WithinDeadlines (s : Schedule) : Prop :=
  ∀ flow ∈ s.flows, ∀ cell ∈ flow.cells, ∃ channel slot,
    (∀ c t, s.schedule c t = some cell ↔ c = channel ∧ t = slot) ∧
      s.attributes cell = some (slot, channel) ∧ flow.releaseTime ≤ slot ∧
      ∃ deadline ∈ flow.deadline, slot < flow.releaseTime + deadline

variable {flow : Flow}

theorem missesDeadline_eq_false_iff {args : CreateArgs} {slot : ℕ} :
    missesDeadline args flow slot = false ↔
      (∀ deadline ∈ flow.deadline, slot < flow.releaseTime + deadline) ∧
        (args.shortestRepeatingCycle ≠ 1 → slot < args.shortestRepeatingCycle) := by
  unfold missesDeadline
  rw [Bool.or_eq_false_iff]
  apply and_congr
  · cases flow.deadline with
    | none => simp
    | some deadline => simp
  · by_cases hcycle : args.shortestRepeatingCycle = 1
    · simp [hcycle]
    · rw [Bool.and_eq_false_iff, decide_eq_false_iff_not, decide_eq_false_iff_not, not_lt]
      constructor
      · rintro (hone | hle) _
        · exact absurd hcycle hone
        · exact hle
      · intro hlt
        exact Or.inr (hlt hcycle)

section InOrder

variable {args : CreateArgs} {length : ℕ} {flows : List Flow} {x : Placement}

/-- Every entry is a cell of a flow, in a slot that passed the analysis of this flow. -/
def Analysed (args : CreateArgs) (flows : List Flow) (x : Placement) : Prop :=
  ∀ c t cell, x.schedule c t = some cell → ∃ flow ∈ flows, cell ∈ flow.cells ∧
    flow.releaseTime ≤ t ∧ missesDeadline args flow t = false

theorem analysed_empty : Analysed args flows Placement.empty := by
  intro c t cell hcell
  cases hcell

theorem Analysed.settled {cell : Cell} {channel slot : ℕ} {placed : Bool} {y : Placement}
    (hx : Analysed args flows x) (hmode : args.ignoreNsf ≠ .disabled) (hflow : flow ∈ flows)
    (hcell : cell ∈ flow.cells) (hrelease : flow.releaseTime ≤ slot)
    (hsettled : Settled args true flow cell channel slot x placed y) : Analysed args flows y := by
  cases hsettled with
  | refused cnmid entry => exact hx
  | placed cnmid hmeets =>
    intro c t other hother
    change x.schedule.write channel slot cell c t = some other at hother
    rw [Grid.write_apply] at hother
    split at hother
    · rename_i hhere
      rw [← some.inj hother, hhere.2]
      exact ⟨flow, hflow, hcell, hrelease, hmeets rfl hmode⟩
    · exact hx c t other hother

theorem inOrderCell_analysed {a b : ℕ × Placement} {cell : Cell}
    (hmode : args.ignoreNsf ≠ .disabled) (hflow : flow ∈ flows) (hcell : cell ∈ flow.cells)
    (ha : flow.releaseTime ≤ a.1 ∧ Analysed args flows a.2)
    (hcall : inOrderCell args length flow a cell = .ok b) :
    flow.releaseTime ≤ b.1 ∧ Analysed args flows b.2 := by
  unfold inOrderCell at hcall
  split at hcall
  · cases hcall
  · rename_i channel slot hfind
    obtain ⟨⟨placed, z⟩, hsettle, hdone⟩ := bind_eq_ok hcall
    obtain ⟨hlater, -⟩ := findSchedulableSlot_spec hfind
    have hslot : flow.releaseTime ≤ slot := ha.1.trans hlater
    have hz := ha.2.settled hmode hflow hcell hslot (settleCell_spec hsettle)
    cases placed with
    | false =>
      cases hdone
      exact ⟨ha.1, hz⟩
    | true =>
      cases hdone
      exact ⟨hslot.trans (Nat.le_succ slot), hz⟩

theorem placeInOrder_analysed (hmode : args.ignoreNsf ≠ .disabled)
    (hcall : placeInOrder args length flows = .ok x) : Analysed args flows x := by
  refine foldlM_invariant (P := Analysed args flows) (fun flow hflow x y hx hstep ↦ ?_) hcall
    analysed_empty
  obtain ⟨⟨r, z⟩, hcells, hdone⟩ := bind_eq_ok hstep
  cases hdone
  have hz := foldlM_invariant
    (P := fun a : ℕ × Placement ↦ flow.releaseTime ≤ a.1 ∧ Analysed args flows a.2)
    (fun cell hcell a b ha hcall ↦ inOrderCell_analysed hmode hflow hcell ha hcall) hcells
    ⟨le_rfl, hx⟩
  exact hz.2

end InOrder

/-! ## The returned schedule -/

section Created

variable {args : CreateArgs} {fuel : ℕ} {flows : List Flow} {x : Placed} {s : Schedule}

theorem ownCells_of_placeCells (hplaced : placeCells args fuel flows = .ok x) :
    OwnCells x.flows := by
  obtain ⟨ready, hready, hflows, -⟩ := placeCells_spec hplaced
  rw [hflows]
  exact (ownCells_initFlows hready).perm (orderFlows_perm _ _)

theorem cycle_pos_of_placeCells (hplaced : placeCells args fuel flows = .ok x)
    (hflow : flow ∈ x.flows) : 0 < args.shortestRepeatingCycle := by
  obtain ⟨ready, hready, hflows, -⟩ := placeCells_spec hplaced
  rw [hflows, (orderFlows_perm _ _).mem_iff] at hflow
  obtain ⟨given, -, id, hinit⟩ := exists_initialised_of_mem hready hflow
  exact hinit.cycle

theorem entry_of_finalise (hfinal : finalise args x = .ok s) {channel slot : ℕ} {cell : Cell}
    (hcell : s.schedule channel slot = some cell) : slot ≤ keptLastTimeslot args x.placement ∧
      x.placement.schedule channel (placedSlot args (keptLastTimeslot args x.placement) slot) =
        some cell := by
  obtain ⟨-, -, -, -, -, hschedule, -⟩ := finalise_spec hfinal
  rw [hschedule] at hcell
  by_cases hslot : slot ≤ keptLastTimeslot args x.placement
  · rw [cutSchedule_apply args _ hslot] at hcell
    exact ⟨hslot, hcell⟩
  · rw [cutSchedule_of_lt args _ (not_le.mp hslot)] at hcell
    cases hcell

/-- No entry of the grid lies behind the timeslots that are kept. -/
def Placed.Uncut (args : CreateArgs) (x : Placed) : Prop :=
  ∀ channel slot, x.placement.schedule channel slot ≠ none →
    slot ≤ keptLastTimeslot args x.placement

theorem uncut_of_analysed (halgorithm : args.algorithm ≠ .cLlf) (hmode : args.ignoreNsf ≠ .disabled)
    (hdeadlines : args.algorithm = .rLpf → allDeadlines flows = true)
    (hplaced : placeCells args fuel flows = .ok x) : x.Uncut args := by
  obtain ⟨checked, hiff, hx⟩ := placeCells_placedExactly halgorithm hplaced
  intro channel slot hused
  obtain ⟨cell, hcell⟩ := ne_none_iff_exists'.mp hused
  obtain ⟨flow, hflow, -⟩ := hx.within channel slot cell hcell
  have hcycle := cycle_pos_of_placeCells hplaced hflow
  unfold keptLastTimeslot
  by_cases hone : args.shortestRepeatingCycle = 1
  · rw [if_neg (by omega)]
    exact hx.last halgorithm channel slot hused
  · rw [if_pos (by omega)]
    exact Nat.le_sub_one_of_lt (hx.bound (hiff.mpr hdeadlines) hmode hone channel slot hused)

theorem cellsKept_of_placedExactly {checked : Bool} (hplaced : placeCells args fuel flows = .ok x)
    (hfinal : finalise args x = .ok s)
    (hx : PlacedExactly args checked (IsCellOf x.flows) x.placement) (huncut : x.Uncut args) :
    s.CellsKept := by
  obtain ⟨ready, -, -, -, -, hplacement⟩ := placeCells_spec hplaced
  obtain ⟨hfeasible, -⟩ := finalise_spec hfinal
  rw [finalise_cellsKept_iff hfinal (placeOrdered_conflictFree hplacement)]
  exact Placed.fits_of_placedExactly hx hfeasible huncut

theorem cellsKept_of_uncut (halgorithm : args.algorithm ≠ .cLlf)
    (hplaced : placeCells args fuel flows = .ok x) (hfinal : finalise args x = .ok s)
    (huncut : x.Uncut args) : s.CellsKept := by
  obtain ⟨checked, -, hx⟩ := placeCells_placedExactly halgorithm hplaced
  exact cellsKept_of_placedExactly hplaced hfinal hx huncut

theorem placeInOrder_of_placeOrdered {length : ℕ} {p : Placement}
    (halgorithm : args.algorithm = .edf ∨ args.algorithm = .rms)
    (hcall : placeOrdered args length fuel flows = .ok p) :
    allDeadlines flows = true ∧ placeInOrder args length flows = .ok p := by
  unfold placeOrdered at hcall
  rcases halgorithm with hedf | hrms
  · rw [hedf] at hcall
    dsimp only at hcall
    split at hcall
    · exact ⟨‹_›, hcall⟩
    · cases hcall
  · rw [hrms] at hcall
    dsimp only at hcall
    split at hcall
    · exact ⟨‹_›, hcall⟩
    · cases hcall

theorem placedSlot_of_ne (halgorithm : args.algorithm ≠ .rLpf) (last slot : ℕ) :
    placedSlot args last slot = slot := by
  unfold placedSlot
  split
  · exact absurd ‹_› halgorithm
  · rfl

/-- A schedule that EDF or RMS returns in the mode `infeasible` has its cells within the deadlines
and within the hyper-period. -/
theorem create_withinDeadlines_inOrder (halgorithm : args.algorithm = .edf ∨ args.algorithm = .rms)
    (hmode : args.ignoreNsf = .infeasible) (hcreate : create args fuel flows = .ok s) :
    (∃ ready, initFlows args flows = .ok ready ∧ s.flows.Perm ready) ∧ s.WithinDeadlines ∧
      (1 < args.shortestRepeatingCycle → ∀ flow ∈ s.flows, ∀ cell ∈ flow.cells,
        ∀ channel slot, s.schedule channel slot = some cell →
          slot < args.shortestRepeatingCycle) := by
  obtain ⟨x, hplaced, hfinal⟩ := placeCells_of_create hcreate
  obtain ⟨ready, hready, hordered, -, -, hplacement⟩ := placeCells_spec hplaced
  obtain ⟨hall, hplace⟩ := placeInOrder_of_placeOrdered halgorithm hplacement
  have hflows : s.flows = x.flows := (finalise_spec hfinal).2.2.1
  have hneCLlf : args.algorithm ≠ .cLlf := by
    rcases halgorithm with hedf | hrms
    · simp [hedf]
    · simp [hrms]
  have hneRLpf : args.algorithm ≠ .rLpf := by
    rcases halgorithm with hedf | hrms
    · simp [hedf]
    · simp [hrms]
  have hanalysed : Analysed args x.flows x.placement :=
    placeInOrder_analysed (by simp [hmode]) hplace
  have hown := ownCells_of_placeCells hplaced
  -- an entry stays where its own flow was analysed
  have hentry : ∀ flow ∈ s.flows, ∀ cell ∈ flow.cells, ∀ channel slot,
      s.schedule channel slot = some cell →
        flow.releaseTime ≤ slot ∧ missesDeadline args flow slot = false := by
    intro flow hflow cell hcell channel slot hhere
    obtain ⟨-, hbefore⟩ := entry_of_finalise hfinal hhere
    rw [placedSlot_of_ne hneRLpf] at hbefore
    obtain ⟨other, hother, hcellO, hmeets⟩ := hanalysed channel slot cell hbefore
    rw [hflows] at hflow
    rw [hown.eq_of_mem_cells hflow hother hcell hcellO]
    exact hmeets
  have huncut := uncut_of_analysed hneCLlf (by simp [hmode]) (fun hrLpf ↦ absurd hrLpf hneRLpf)
    hplaced
  have hkept := cellsKept_of_uncut hneCLlf hplaced hfinal huncut
  refine ⟨⟨ready, hready, ?_⟩, fun flow hflow cell hcell ↦ ?_, fun hcycle flow hflow cell hcell
    channel slot hhere ↦ ?_⟩
  · rw [hflows, hordered]
    exact orderFlows_perm _ _
  · obtain ⟨channel, slot, honce, hattributes⟩ := hkept flow hflow cell hcell
    obtain ⟨hrelease, hmeets⟩ :=
      hentry flow hflow cell hcell channel slot ((honce channel slot).mpr ⟨rfl, rfl⟩)
    obtain ⟨deadline, hdeadline⟩ :=
      isSome_iff_exists.mp (allDeadlines_iff.mp hall flow (hflows ▸ hflow))
    exact ⟨channel, slot, honce, hattributes, hrelease, deadline, hdeadline,
      (missesDeadline_eq_false_iff.mp hmeets).1 deadline hdeadline⟩
  · obtain ⟨-, hmeets⟩ := hentry flow hflow cell hcell channel slot hhere
    exact (missesDeadline_eq_false_iff.mp hmeets).2 hcycle.ne'

theorem create_withinDeadlines_edf :
    let args := { plainArgs .edf with shortestRepeatingCycle := 10 }
    ∃ s, create args 0 [pathFlow 1 1 3 [2], pathFlow 2 4 5 []] = .ok s ∧
      (∃ ready, initFlows args [pathFlow 1 1 3 [2], pathFlow 2 4 5 []] = .ok ready ∧
        s.flows.Perm ready) ∧ s.WithinDeadlines ∧
      (1 < args.shortestRepeatingCycle → ∀ flow ∈ s.flows, ∀ cell ∈ flow.cells,
        ∀ channel slot, s.schedule channel slot = some cell →
          slot < args.shortestRepeatingCycle) := by
  intro args
  obtain ⟨s, hs⟩ := exists_eq_ok
    (show (create args 0 [pathFlow 1 1 3 [2], pathFlow 2 4 5 []]).toOption.isSome = true
      by decide +kernel)
  exact ⟨s, hs, create_withinDeadlines_inOrder (.inl rfl) rfl hs⟩

/-- In the state before a cell is placed, there is no room for it behind the deadline, counted from
the last timeslot, and there is some behind the release. -/
def CellTimely (args : CreateArgs) (last currentIdx : ℕ) (flow : Flow) (cell : Cell)
    (a : ℕ × Placement) : Prop :=
  (∀ slot, a.1 ≤ slot → currentIdx ≤ slot → slot + (flow.releaseTime + flow.dueTime) ≤ last →
    schedulableInSlot args.numChannels a.2 slot cell.participants = false) ∧
  ∃ slot, a.1 ≤ slot ∧ currentIdx ≤ slot ∧ slot + flow.releaseTime ≤ last ∧
    schedulableInSlot args.numChannels a.2 slot cell.participants = true

/-- The cells of a flow from a state on, each with room in time when it is placed. -/
def CellsTimely (args : CreateArgs) (length : ℕ) (checked : Bool) (last currentIdx : ℕ)
    (flow : Flow) : List Cell → ℕ × Placement → Prop
  | [], _ => True
  | cell :: cells, a =>
    CellTimely args last currentIdx flow cell a ∧
      ∀ b, rLpfCell args length checked currentIdx flow a cell = .ok b →
        CellsTimely args length checked last currentIdx flow cells b

/-- The flows from a state on, with cells that find room in time. -/
def FlowsTimely (args : CreateArgs) (length : ℕ) (checked : Bool) (last : ℕ) :
    List Flow → RLpfState → Prop
  | [], _ => True
  | flow :: flows, x =>
    CellsTimely args length checked last (x.startIdx flow) flow flow.cells.reverse (0, x.placement) ∧
    ∀ y, rLpfFlow args length checked x flow = .ok y → FlowsTimely args length checked last flows y

section RLpf

variable {length currentIdx last : ℕ} {checked : Bool} {a b : ℕ × Placement} {y : Placement}
  {cell : Cell} {cells : List Cell} {todo : List Flow} {z z' : RLpfState}

end RLpf

/-- Whenever R-LPF places a cell, the first room for it is within the window of its flow, counted
from the last timeslot of the schedule. -/
def Placed.Timely (args : CreateArgs) (x : Placed) : Prop :=
  FlowsTimely args x.length (allDeadlines x.flows) (keptLastTimeslot args x.placement) x.flows
    ⟨none, 0, Placement.empty⟩

theorem placedSlot_of_rLpf (halgorithm : args.algorithm = .rLpf) (last slot : ℕ) :
    placedSlot args last slot = last - slot := by
  unfold placedSlot
  rw [halgorithm]

end Created

end ContikiMaster.Scheduler
