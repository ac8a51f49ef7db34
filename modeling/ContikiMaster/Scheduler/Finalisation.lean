import ContikiMaster.Scheduler.CLlf
import ContikiMaster.Scheduler.ConflictFree

/-!
# Cells that survive finalisation

Finalisation cuts the grid to the hyper-period, or to the last timeslot when that is 1, and
notes in every cell where it is. A cell keeps its place exactly when it had one place among
the slots that are kept. The bound check of the placement ensures this; where it is off,
and in C-LLF with a hyper-period of 1, nothing does.
-/

namespace ContikiMaster.Scheduler

open Lib Function List Option

/-- Every cell of the remaining flows is at one position of the schedule, and knows it. -/
def Schedule.CellsKept (s : Schedule) : Prop :=
  ∀ flow ∈ s.flows, ∀ cell ∈ flow.cells, ∃ channel slot,
    (∀ c t, s.schedule c t = some cell ↔ c = channel ∧ t = slot) ∧
      s.attributes cell = some (slot, channel)

/-- Before finalisation, every cell of the flows is at one position of the slots to keep. -/
def Placed.Fits (args : CreateArgs) (x : Placed) : Prop :=
  ∀ flow ∈ x.flows, ∀ cell ∈ flow.cells, ∃ channel slot,
    slot ≤ keptLastTimeslot args x.placement ∧
      ∀ c t, t ≤ keptLastTimeslot args x.placement →
        (x.placement.schedule c t = some cell ↔ c = channel ∧ t = slot)

/-- No cell of the flows is cut off. R-LPF, EDF and RMS know the last slot in use. -/
def Placed.LengthSuffices (args : CreateArgs) (x : Placed) : Prop :=
  match args.algorithm with
  | .cLlf => x.Fits args
  | _ => x.placement.lastTimeslot ≤ keptLastTimeslot args x.placement

/-- The calls whose placement respects the final length by itself: a hyper-period of 1, where R-LPF,
EDF and RMS keep the last slot in use, and the calls in which the bound is checked. -/
def LengthChecked (args : CreateArgs) (flows : List Flow) : Prop :=
  (args.shortestRepeatingCycle = 1 ∧ args.algorithm ≠ .cLlf) ∨
    (1 < args.shortestRepeatingCycle ∧ args.ignoreNsf ≠ .disabled ∧
      (args.algorithm = .rLpf → allDeadlines flows = true))

section Attributes

variable {cell : Cell}

theorem foldl_attributes {β : Type} {p : (Cell → Option (ℕ × ℕ)) → β → Cell → Option (ℕ × ℕ)}
    {P : β → Prop} {value : Option (ℕ × ℕ)} {s : List β}
    (hwrite : ∀ x ∈ s, P x → ∀ attributes, p attributes x cell = value)
    (hkeep : ∀ x ∈ s, ¬ P x → ∀ attributes, p attributes x cell = attributes cell)
    (attributes : Cell → Option (ℕ × ℕ)) : ((∃ x ∈ s, P x) → s.foldl p attributes cell = value) ∧
      ((∀ x ∈ s, ¬ P x) → s.foldl p attributes cell = attributes cell) := by
  induction s generalizing attributes with
  | nil =>
    refine ⟨fun hsome ↦ ?_, fun _ ↦ rfl⟩
    obtain ⟨x, hx, -⟩ := hsome
    cases hx
  | cons x s ih =>
    have htail := ih (fun y hy ↦ hwrite y (mem_cons_of_mem x hy))
      (fun y hy ↦ hkeep y (mem_cons_of_mem x hy)) (p attributes x)
    rw [foldl_cons]
    constructor
    · intro hsome
      by_cases hrest : ∃ y ∈ s, P y
      · exact htail.1 hrest
      · -- the first iteration is the last one that concerns the cell
        have hnone : ∀ y ∈ s, ¬ P y := fun y hy hcy ↦ hrest ⟨y, hy, hcy⟩
        obtain ⟨y, hy, hcy⟩ := hsome
        rcases mem_cons.mp hy with heq | hmem
        · subst heq
          rw [htail.2 hnone]
          exact hwrite y mem_cons_self hcy attributes
        · exact absurd hcy (hnone y hmem)
    · intro hnone
      rw [htail.2 fun y hy ↦ hnone y (mem_cons_of_mem x hy)]
      exact hkeep x mem_cons_self (hnone x mem_cons_self) attributes

/-- What one timeslot of a channel writes. -/
def noteCell (schedule : Grid Cell) (channel : ℕ) (attributes : Cell → Option (ℕ × ℕ)) (slot : ℕ) :
    Cell → Option (ℕ × ℕ) :=
  match schedule channel slot with
  | some cell => update attributes cell (some (slot, channel))
  | none => attributes

theorem setScheduleAttributes_eq_foldl (numChannels length : ℕ) (schedule : Grid Cell) :
    setScheduleAttributes numChannels length schedule =
      (range numChannels).foldl (fun attributes channel ↦
        (range length).foldl (noteCell schedule channel) attributes) fun _ ↦ none := rfl

theorem setScheduleAttributes_eq {numChannels length channel slot : ℕ} {schedule : Grid Cell}
    (honce : ∀ c t, schedule c t = some cell ↔ c = channel ∧ t = slot)
    (hchannel : channel < numChannels) (hslot : slot < length) :
    setScheduleAttributes numChannels length schedule cell = some (slot, channel) := by
  have hrow := fun c ↦ foldl_attributes (p := noteCell schedule c) (s := range length)
    (P := fun t ↦ schedule c t = some cell)
    (fun t _ hhere attributes ↦ show _ = some (slot, channel) from by
      obtain ⟨rfl, rfl⟩ := (honce c t).mp hhere
      unfold noteCell
      rw [hhere]
      exact update_self ..)
    (fun t _ hother attributes ↦ by
      unfold noteCell
      cases hentry : schedule c t with
      | none => rfl
      | some other =>
        rw [hentry] at hother
        exact update_of_ne (fun heq ↦ hother (congrArg some heq.symm)) ..)
  rw [setScheduleAttributes_eq_foldl]
  refine (foldl_attributes
    (P := fun c ↦ ∃ t ∈ range length, schedule c t = some cell)
    (fun c _ hhere attributes ↦ (hrow c attributes).1 hhere)
    (fun c _ hnot attributes ↦ (hrow c attributes).2 fun t ht heq ↦ hnot ⟨t, ht, heq⟩)
    fun _ ↦ none).1 ?_
  exact ⟨channel, mem_range.mpr hchannel, slot, mem_range.mpr hslot,
    (honce channel slot).mpr ⟨rfl, rfl⟩⟩

end Attributes

section Finalise

variable {args : CreateArgs} {x : Placed} {s : Schedule}

theorem finalise_cellsKept_iff (hfinal : finalise args x = .ok s)
    (hfree : ConflictFree args.numChannels x.placement.schedule) : s.CellsKept ↔ x.Fits args := by
  obtain ⟨-, -, hflows, -, hlength, hschedule, hattributes, -⟩ := finalise_spec hfinal
  set last := keptLastTimeslot args x.placement with hlast
  unfold Schedule.CellsKept Placed.Fits
  rw [hflows]
  refine forall₂_congr fun flow _ ↦ forall₂_congr fun cell _ ↦ ?_
  constructor
  · rintro ⟨channel, slot, honce, -⟩
    have hhere : s.schedule channel slot = some cell := (honce channel slot).mpr ⟨rfl, rfl⟩
    have hslot : slot ≤ last := by
      by_contra hlt
      rw [hschedule, cutSchedule_of_lt args _ (not_le.mp hlt)] at hhere
      cases hhere
    refine ⟨channel, placedSlot args last slot, placedSlot_le args hslot, fun c t ht ↦ ?_⟩
    have hcell := honce c (placedSlot args last t)
    rw [hschedule, cutSchedule_apply args _ (placedSlot_le args ht),
      placedSlot_placedSlot args ht] at hcell
    rw [hcell]
    refine and_congr_right fun _ ↦ ⟨fun heq ↦ ?_, fun heq ↦ ?_⟩
    · rw [← heq, placedSlot_placedSlot args ht]
    · rw [heq, placedSlot_placedSlot args hslot]
  · rintro ⟨channel, slot, hslot, honce⟩
    have hplace : ∀ c t, s.schedule c t = some cell ↔ c = channel ∧ t = placedSlot args last slot := by
      intro c t
      rw [hschedule]
      by_cases ht : t ≤ last
      · rw [cutSchedule_apply args _ ht, honce c _ (placedSlot_le args ht)]
        refine and_congr_right fun _ ↦ ⟨fun heq ↦ ?_, fun heq ↦ ?_⟩
        · rw [← heq, placedSlot_placedSlot args ht]
        · rw [heq, placedSlot_placedSlot args hslot]
      · rw [cutSchedule_of_lt args _ (not_le.mp ht)]
        refine iff_of_false (fun hnone ↦ by cases hnone) fun hboth ↦ ht ?_
        rw [hboth.2]
        exact placedSlot_le args hslot
    have hchannel : channel < args.numChannels := by
      obtain ⟨T, hT⟩ := hfree
      refine hT.row_lt (t := slot) ?_
      rw [(honce channel slot hslot).mpr ⟨rfl, rfl⟩]
      exact some_ne_none cell
    refine ⟨channel, placedSlot args last slot, hplace, ?_⟩
    rw [hattributes]
    refine setScheduleAttributes_eq hplace hchannel ?_
    rw [hlength]
    exact Nat.lt_succ_of_le (placedSlot_le args hslot)

end Finalise

section Created

variable {args : CreateArgs} {fuel : ℕ} {flows : List Flow} {x : Placed} {s : Schedule}
  {checked : Bool}

theorem Placed.fits_of_placedExactly
    (hx : PlacedExactly args checked (IsCellOf x.flows) x.placement)
    (hfeasible : x.placement.infeasibleFlows = [])
    (hkept : ∀ c t, x.placement.schedule c t ≠ none → t ≤ keptLastTimeslot args x.placement) :
    x.Fits args := by
  intro flow hflow cell hcell
  obtain ⟨channel, slot, honce⟩ := hx.once hfeasible cell ⟨flow, hflow, hcell⟩
  refine ⟨channel, slot, hkept channel slot ?_, fun c t _ ↦ honce c t⟩
  rw [(honce channel slot).mpr ⟨rfl, rfl⟩]
  exact some_ne_none cell

theorem Placed.Fits.lastTimeslot_le (hfits : x.Fits args) (halgorithm : args.algorithm ≠ .cLlf)
    (hx : PlacedExactly args checked (IsCellOf x.flows) x.placement)
    (hfeasible : x.placement.infeasibleFlows = []) :
    x.placement.lastTimeslot ≤ keptLastTimeslot args x.placement := by
  rcases hx.lastUsed halgorithm with hzero | ⟨c, hused⟩
  · rw [hzero]
    exact Nat.zero_le _
  · obtain ⟨cell, hcell⟩ := ne_none_iff_exists'.mp hused
    obtain ⟨flow, hflow, hmem⟩ := hx.within c _ cell hcell
    obtain ⟨channel, slot, honce⟩ := hx.once hfeasible cell ⟨flow, hflow, hmem⟩
    obtain ⟨channel', slot', hslot', hkept⟩ := hfits flow hflow cell hmem
    have hsame := (honce channel' slot').mp ((hkept channel' slot' hslot').mpr ⟨rfl, rfl⟩)
    rw [((honce c _).mp hcell).2, ← hsame.2]
    exact hslot'

theorem placeCells_placedExactly (halgorithm : args.algorithm ≠ .cLlf)
    (hplaced : placeCells args fuel flows = .ok x) :
    ∃ checked, (checked = true ↔ args.algorithm = .rLpf → allDeadlines flows = true) ∧
      PlacedExactly args checked (IsCellOf x.flows) x.placement := by
  obtain ⟨ready, hready, hflows, hlength, hchannels, hplacement⟩ := placeCells_spec hplaced
  have hown : OwnCells x.flows := by
    rw [hflows]
    exact (ownCells_initFlows hready).perm (orderFlows_perm _ _)
  unfold placeOrdered at hplacement
  split at hplacement
  · rename_i hrLpf
    refine ⟨allDeadlines x.flows, ?_, placeRLpf_placedExactly halgorithm hown hplacement⟩
    rw [hflows, allDeadlines_orderFlows_initFlows args.algorithm hready]
    exact ⟨fun hall _ ↦ hall, fun hall ↦ hall hrLpf⟩
  · rename_i hedf
    split at hplacement
    · refine ⟨true, iff_of_true rfl fun hrLpf ↦ ?_,
        placeInOrder_placedExactly halgorithm hown hplacement⟩
      rw [hedf] at hrLpf
      cases hrLpf
    · cases hplacement
  · rename_i hrms
    split at hplacement
    · refine ⟨true, iff_of_true rfl fun hrLpf ↦ ?_,
        placeInOrder_placedExactly halgorithm hown hplacement⟩
      rw [hrms] at hrLpf
      cases hrLpf
    · cases hplacement
  · rename_i hcLlf
    exact absurd hcLlf halgorithm

theorem placeCLlf_of_placeCells (halgorithm : args.algorithm = .cLlf)
    (hplaced : placeCells args fuel flows = .ok x) :
    placeCLlf args x.length fuel x.flows = .ok x.placement := by
  obtain ⟨-, -, -, -, -, hplacement⟩ := placeCells_spec hplaced
  unfold placeOrdered at hplacement
  rw [halgorithm] at hplacement
  dsimp only at hplacement
  split at hplacement
  · exact hplacement
  · cases hplacement

section

variable (halgorithm : args.algorithm = .cLlf) (hcycle : 1 < args.shortestRepeatingCycle)
  (hmode : args.ignoreNsf ≠ .disabled) (hplaced : placeCells args fuel flows = .ok x)

include halgorithm hcycle hmode hplaced

theorem cLlfChecked_of_placeCells {flow : Flow} (hflow : flow ∈ x.flows)
    (hne : flow.cells ≠ []) : CLlfChecked args x.length x.flows := by
  obtain ⟨ready, hready, hflows, hlength, hchannels, -⟩ := placeCells_spec hplaced
  rw [halgorithm] at hflows
  change x.flows = ready at hflows
  rw [hflows] at hflow ⊢
  rw [hlength]
  exact cLlfChecked_of_initFlows halgorithm hcycle hmode hchannels hready hflow hne

theorem placeCells_placedExactly_cLlf (hfeasible : x.placement.infeasibleFlows = []) :
    PlacedExactly args true (IsCellOf x.flows) x.placement := by
  have hcLlf := placeCLlf_of_placeCells halgorithm hplaced
  by_cases hcells : ∃ flow ∈ x.flows, flow.cells ≠ []
  · obtain ⟨flow, hflow, hne⟩ := hcells
    exact placeCLlf_placedExactly
      (cLlfChecked_of_placeCells halgorithm hcycle hmode hplaced hflow hne) hcLlf hfeasible
  · -- without any cell there is nothing to place
    have hnone : ∀ flow ∈ x.flows, flow.cells = [] := by
      intro flow hflow
      by_contra hne
      exact hcells ⟨flow, hflow, hne⟩
    have hempty : allTransmissions x.flows = [] := by
      rw [eq_nil_iff_forall_not_mem]
      intro z hz
      obtain ⟨hflow, hcell, -⟩ := mem_allTransmissions.mp hz
      rw [hnone z.flow hflow] at hcell
      cases hcell
    unfold placeCLlf at hcLlf
    rw [hempty] at hcLlf
    have hstart : x.placement = Placement.empty := by
      cases fuel with
      | zero => exact (Except.ok.inj hcLlf).symm
      | succ fuel => exact (Except.ok.inj hcLlf).symm
    rw [hstart]
    refine placedExactly_empty.congr fun cell ↦ iff_of_false id ?_
    rintro ⟨flow, hflow, hcell⟩
    rw [hnone flow hflow] at hcell
    cases hcell

end

theorem fits_of_lengthChecked (hchecked : LengthChecked args flows)
    (hplaced : placeCells args fuel flows = .ok x)
    (hfeasible : x.placement.infeasibleFlows = []) : x.Fits args := by
  rcases hchecked with ⟨hcycle, halgorithm⟩ | ⟨hcycle, hmode, hdeadlines⟩
  · obtain ⟨checked, -, hx⟩ := placeCells_placedExactly halgorithm hplaced
    refine Placed.fits_of_placedExactly hx hfeasible fun c t hused ↦ ?_
    unfold keptLastTimeslot
    rw [if_neg (by omega)]
    exact hx.last halgorithm c t hused
  · have hbound : ∃ checked, checked = true ∧
        PlacedExactly args checked (IsCellOf x.flows) x.placement := by
      by_cases halgorithm : args.algorithm = .cLlf
      · exact ⟨true, rfl, placeCells_placedExactly_cLlf halgorithm hcycle hmode hplaced hfeasible⟩
      · obtain ⟨checked, hiff, hx⟩ := placeCells_placedExactly halgorithm hplaced
        exact ⟨checked, hiff.mpr hdeadlines, hx⟩
    obtain ⟨checked, htrue, hx⟩ := hbound
    refine Placed.fits_of_placedExactly hx hfeasible fun c t hused ↦ ?_
    unfold keptLastTimeslot
    rw [if_pos hcycle]
    exact Nat.le_sub_one_of_lt (hx.bound htrue hmode hcycle.ne' c t hused)

theorem fits_iff_lengthSuffices (hplaced : placeCells args fuel flows = .ok x)
    (hfeasible : x.placement.infeasibleFlows = []) : x.Fits args ↔ x.LengthSuffices args := by
  by_cases halgorithm : args.algorithm = .cLlf
  · unfold Placed.LengthSuffices
    rw [halgorithm]
  · obtain ⟨checked, -, hx⟩ := placeCells_placedExactly halgorithm hplaced
    have hsuffices : x.LengthSuffices args ↔
        x.placement.lastTimeslot ≤ keptLastTimeslot args x.placement := by
      unfold Placed.LengthSuffices
      split
      · rename_i hcLlf
        exact absurd hcLlf halgorithm
      · rfl
    rw [hsuffices]
    refine ⟨fun hfits ↦ hfits.lastTimeslot_le halgorithm hx hfeasible, fun hle ↦ ?_⟩
    exact Placed.fits_of_placedExactly hx hfeasible fun c t hused ↦
      (hx.last halgorithm c t hused).trans hle

/-- No cell is lost or duplicated exactly where the bound is checked, or the slots that are kept
happen to suffice. -/
theorem create_cellsKept_iff (hcreate : create args fuel flows = .ok s) :
    s.CellsKept ↔ LengthChecked args flows ∨
      ∃ x, placeCells args fuel flows = .ok x ∧ x.LengthSuffices args := by
  obtain ⟨x, hplaced, hfinal⟩ := placeCells_of_create hcreate
  obtain ⟨ready, -, -, -, -, hplacement⟩ := placeCells_spec hplaced
  obtain ⟨hfeasible, -⟩ := finalise_spec hfinal
  rw [finalise_cellsKept_iff hfinal (placeOrdered_conflictFree hplacement)]
  constructor
  · intro hfits
    exact .inr ⟨x, hplaced, (fits_iff_lengthSuffices hplaced hfeasible).mp hfits⟩
  · rintro (hchecked | ⟨y, hplaced', hsuffices⟩)
    · exact fits_of_lengthChecked hchecked hplaced hfeasible
    · rw [hplaced] at hplaced'
      obtain rfl := Except.ok.inj hplaced'
      exact (fits_iff_lengthSuffices hplaced hfeasible).mpr hsuffices

theorem create_cellsKept_iff_edf :
    ∃ s, create (plainArgs .edf) 0 [pathFlow 1 1 3 [2]] = .ok s ∧
      (s.CellsKept ↔ LengthChecked (plainArgs .edf) [pathFlow 1 1 3 [2]] ∨
        ∃ x, placeCells (plainArgs .edf) 0 [pathFlow 1 1 3 [2]] = .ok x ∧
          x.LengthSuffices (plainArgs .edf)) := by
  obtain ⟨s, hs⟩ := exists_eq_ok
    (show (create (plainArgs .edf) 0 [pathFlow 1 1 3 [2]]).toOption.isSome = true
      by decide +kernel)
  exact ⟨s, hs, create_cellsKept_iff hs⟩

/-- The same flow under C-LLF, which does not move the last timeslot: the second cell is cut off. -/
theorem create_not_cellsKept_cLlf :
    ∃ s, create (plainArgs .cLlf) 1 [pathFlow 1 1 3 [2]] = .ok s ∧ ¬ s.CellsKept := by
  obtain ⟨s, hs, flow, hflow, cell, hcell, hlost⟩ : ∃ s,
      create (plainArgs .cLlf) 1 [pathFlow 1 1 3 [2]] = .ok s ∧
        ∃ flow ∈ s.flows, ∃ cell ∈ flow.cells, (s.attributes cell).isNone :=
    exists_ok (by decide +kernel)
  refine ⟨s, hs, fun hkept ↦ ?_⟩
  obtain ⟨channel, slot, -, hattributes⟩ := hkept flow hflow cell hcell
  rw [hattributes] at hlost
  cases hlost

end Created

end ContikiMaster.Scheduler
