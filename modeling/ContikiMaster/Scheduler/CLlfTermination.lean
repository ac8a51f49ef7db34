import ContikiMaster.Scheduler.CLlfRounds
import ContikiMaster.Scheduler.ConflictFree

/-!
# When C-LLF terminates

In mode enabled a cell that is refused stays among the transmissions, and so does the loop
in its rounds. Within a hyper-period the timeslot after it is always free, so that a cell
finds a slot; there the loop terminates exactly when all of its rounds are clean.
-/

namespace ContikiMaster.Scheduler

open Lib Function List

/-! ## A refused cell stays -/

section Refused

variable {args : CreateArgs} {length timeslotIdx : ℕ} {chosen : CellCLlf} {flows : List Flow}

variable {flow : Flow} {participants : List ℕ} {cell : Cell} {channel slot : ℕ} {placed : Bool}

theorem settleCell_enabled {x y : Placement} (hmode : args.ignoreNsf = .enabled)
    (hmissed : (x.cnmid flow.id || missesDeadline args flow slot) = true)
    (hcall : settleCell args true flow participants cell channel slot x = .ok (placed, y)) :
    placed = false ∧ y.cnmid flow.id = true ∧ y.schedule = x.schedule := by
  unfold settleCell at hcall
  extract_lets missed cnmid at hcall
  have hcnmid : cnmid flow.id = true := by
    by_cases hnow : missesDeadline args flow slot = true
    · have hupdate : cnmid = update x.cnmid flow.id true := if_pos hnow
      rw [hupdate, update_self]
    · have hkept : cnmid = x.cnmid := if_neg hnow
      rw [hkept]
      rw [Bool.not_eq_true] at hnow
      rwa [hnow, Bool.or_false] at hmissed
  have hinfeasible : (missed && args.ignoreNsf == IgnoreNsf.infeasible) = false := by
    rw [hmode]
    exact Bool.and_false _
  have hrefused : (true && args.ignoreNsf == IgnoreNsf.enabled && cnmid flow.id) = true := by
    rw [hmode, hcnmid]
    rfl
  rw [hinfeasible, if_neg Bool.false_ne_true, if_pos hrefused] at hcall
  cases hcall
  exact ⟨rfl, hcnmid, rfl⟩

theorem settleCell_cnmid {x y : Placement} {id : ℕ} (hid : x.cnmid id = true)
    (hcall : settleCell args true flow participants cell channel slot x = .ok (placed, y)) :
    y.cnmid id = true := by
  have hupdate : update x.cnmid flow.id true id = true := by
    by_cases heq : id = flow.id
    · rw [heq, update_self]
    · rw [update_of_ne heq]
      exact hid
  have hboth : ∀ missed : Bool,
      (if missed = true then update x.cnmid flow.id true else x.cnmid) id = true := by
    intro missed
    split
    · exact hupdate
    · exact hid
  unfold settleCell at hcall
  extract_lets missed cnmid at hcall
  split at hcall
  · cases hcall
  · split at hcall
    · cases hcall
      exact hboth missed
    · cases hcall
      exact hboth missed

/-- A transmission of a flow that has missed its deadline. -/
def Stuck (args : CreateArgs) (transmissions : List CellCLlf) (x : Placement) : Prop :=
  args.ignoreNsf = .enabled ∧ ∃ z ∈ transmissions, x.cnmid z.flow.id = true

/-- The transmissions belong to flows of the list, each to the flow of its cell. -/
def OfFlows (flows : List Flow) (transmissions : List CellCLlf) : Prop :=
  ∀ z ∈ transmissions, z.flow ∈ flows ∧ z.cell ∈ z.flow.cells

theorem cLlfCell_stuck (hown : OwnCells flows) (hmode : args.ignoreNsf = .enabled)
    (hflow : chosen.flow ∈ flows) (hcell : cell ∈ chosen.flow.cells) {x y : CLlfState}
    {z : CellCLlf} (hz : z.flow ∈ flows ∧ z.cell ∈ z.flow.cells)
    (hcall : cLlfCell args length chosen x cell = .ok y)
    (hx : z ∈ x.transmissionsFlows ∧ x.placement.cnmid z.flow.id = true) :
    z ∈ y.transmissionsFlows ∧ y.placement.cnmid z.flow.id = true := by
  unfold cLlfCell at hcall
  split at hcall
  · cases hcall
    exact hx
  · rename_i channel slot hfind
    obtain ⟨⟨placed, u⟩, hsettle, hdone⟩ := bind_eq_ok hcall
    have hcnmid := settleCell_cnmid hx.2 hsettle
    cases placed with
    | false =>
      cases hdone
      exact ⟨hx.1, hcnmid⟩
    | true =>
      cases hdone
      refine ⟨mem_filter.mpr ⟨hx.1, ?_⟩, hcnmid⟩
      by_cases heq : z.cell = cell
      · -- the cell belongs to the flow that is refused
        have hsame : chosen.flow = z.flow := by
          refine hown.eq_of_mem_cells hflow hz.1 hcell ?_
          rw [← heq]
          exact hz.2
        have hmissed : (x.placement.cnmid chosen.flow.id ||
            missesDeadline args chosen.flow slot) = true := by
          rw [hsame, hx.2, Bool.true_or]
        cases (settleCell_enabled hmode hmissed hsettle).1
      · simp [heq]

theorem OfFlows.withLaxities {transmissions : List CellCLlf} (hof : OfFlows flows transmissions)
    (timeslotIdx : ℕ) : OfFlows flows (withLaxities timeslotIdx transmissions) := by
  intro z hz
  obtain ⟨w, hw, rfl⟩ := mem_map.mp hz
  exact hof w hw

theorem cLlfCell_ofFlows {x y : CLlfState} (hcall : cLlfCell args length chosen x cell = .ok y)
    (hx : OfFlows flows x.transmissionsFlows) : OfFlows flows y.transmissionsFlows := by
  unfold cLlfCell at hcall
  split at hcall
  · cases hcall
    exact hx
  · obtain ⟨⟨placed, u⟩, hsettle, hdone⟩ := bind_eq_ok hcall
    cases placed with
    | false =>
      cases hdone
      exact hx
    | true =>
      cases hdone
      exact fun z hz ↦ hx z (mem_filter.mp hz).1

theorem cLlfRound_stuck (hown : OwnCells flows) {x y : List CellCLlf × Placement}
    (hof : OfFlows flows x.1) (hcall : cLlfRound args length timeslotIdx x = .ok y)
    (hstuck : Stuck args x.1 x.2) : OfFlows flows y.1 ∧ Stuck args y.1 y.2 := by
  obtain ⟨hmode, z, hz, hcnmid⟩ := hstuck
  have hof' := hof.withLaxities timeslotIdx
  have hlaxities : ∃ w ∈ withLaxities timeslotIdx x.1, x.2.cnmid w.flow.id = true :=
    ⟨_, mem_map_of_mem hz, hcnmid⟩
  rcases cLlfChannels_cases hcall with rfl | ⟨chosen, hchosen, u, hcells, rfl⟩
  · exact ⟨hof', hmode, hlaxities⟩
  · obtain ⟨w, hw, hmissed⟩ := hlaxities
    have hflow := (hof' chosen (mem_filter.mp hchosen).1).1
    obtain ⟨hw', hmissed'⟩ := foldlM_invariant
      (P := fun s : CLlfState ↦ w ∈ s.transmissionsFlows ∧ s.placement.cnmid w.flow.id = true)
      (fun cell hcell s t hs hstep ↦ cLlfCell_stuck hown hmode hflow hcell (hof' w hw) hstep hs)
      hcells ⟨hw, hmissed⟩
    exact ⟨foldlM_invariant (P := fun s : CLlfState ↦ OfFlows flows s.transmissionsFlows)
      (fun cell _ s t hs hstep ↦ cLlfCell_ofFlows hstep hs) hcells hof', hmode, w, hw', hmissed'⟩

theorem exists_eq_ok_of_ne_error {ε α : Type} {call : Except ε α}
    (hcall : ∀ fault, call ≠ .error fault) : ∃ y, call = .ok y := by
  cases call with
  | error fault => exact absurd rfl (hcall fault)
  | ok y => exact ⟨y, rfl⟩

theorem cLlfLoop_of_stuck (hown : OwnCells flows) {fuel : ℕ} {x : List CellCLlf × Placement}
    (hof : OfFlows flows x.1) (hstuck : Stuck args x.1 x.2) :
    cLlfLoop args length fuel timeslotIdx x = .error .outOfFuel := by
  have hleft : x.1 ≠ [] := by
    obtain ⟨-, z, hz, -⟩ := hstuck
    exact ne_nil_of_mem hz
  induction fuel generalizing timeslotIdx x with
  | zero => exact cLlfLoop_zero args length timeslotIdx hleft
  | succ fuel ih =>
    have hmode : args.ignoreNsf ≠ .infeasible := by
      rw [hstuck.1]
      exact fun heq ↦ nomatch heq
    obtain ⟨y, hy⟩ : ∃ y, cLlfRound args length timeslotIdx x = .ok y :=
      exists_eq_ok_of_ne_error fun fault ↦ cLlfRound_ne_error (.inr hmode) x
    obtain ⟨hof', hstuck'⟩ := cLlfRound_stuck hown hof hy hstuck
    rw [cLlfLoop_succ args length fuel timeslotIdx hleft, hy]
    obtain ⟨-, z, hz, -⟩ := id hstuck'
    exact ih hof' hstuck' (ne_nil_of_mem hz)

end Refused

/-! ## Within the hyper-period -/

section Checked

variable {args : CreateArgs} {length timeslotIdx : ℕ} {chosen : CellCLlf} {flows : List Flow}

/-- The timeslot after the hyper-period is free, and the search starts no later. -/
def AfterCycleFree (args : CreateArgs) (x : CLlfState) : Prop :=
  x.placement.schedule 0 args.shortestRepeatingCycle = none ∧
    x.releaseTime ≤ args.shortestRepeatingCycle

section

variable (hchecked : CLlfChecked args length flows)

include hchecked

theorem cellClean_find {x : CLlfState}
    (hfree : AfterCycleFree args x) (cell : Cell) : ∃ channel slot,
      findSchedulableSlot length args.numChannels x.placement.schedule cell x.releaseTime =
        some (channel, slot) := by
  have hfind := findSchedulableSlot_ne_none cell hchecked.length hchecked.channels hfree.1 hfree.2
  obtain ⟨⟨channel, slot⟩, hplace⟩ := Option.ne_none_iff_exists'.mp hfind
  exact ⟨channel, slot, hplace⟩

theorem afterCycleFree_of_clean {x y : CLlfState}
    {cell : Cell} (hclean : cellClean args length chosen x cell = true)
    (hcall : cLlfCell args length chosen x cell = .ok y) (hfree : AfterCycleFree args x) :
    AfterCycleFree args y := by
  obtain ⟨channel, slot, cnmid, -, hplacement, -, hrelease, hmeets⟩ :=
    cLlfCell_of_clean hclean hcall
  have hslot := lt_cycle_of_meets (hmeets hchecked.mode) hchecked.cycle.ne'
  constructor
  · rw [hplacement]
    change x.placement.schedule.write channel slot cell 0 args.shortestRepeatingCycle = none
    rw [Grid.write_apply, if_neg fun hboth ↦ hslot.ne' hboth.2]
    exact hfree.1
  · rw [hrelease]
    exact hslot

theorem cellsClean_free {cells : List Cell}
    {x y : CLlfState} (hclean : cellsClean args length chosen x cells = true)
    (hcall : cells.foldlM (cLlfCell args length chosen) x = .ok y)
    (hfree : AfterCycleFree args x) : AfterCycleFree args y := by
  induction cells generalizing x with
  | nil =>
    cases hcall
    exact hfree
  | cons cell cells ih =>
    rw [foldlM_cons] at hcall
    obtain ⟨u, hfirst, hrest⟩ := bind_eq_ok hcall
    unfold cellsClean at hclean
    rw [Bool.and_eq_true, hfirst] at hclean
    exact ih hclean.2 hrest (afterCycleFree_of_clean hchecked hclean.1 hfirst hfree)

theorem cLlfCell_refused {x : CLlfState} {cell : Cell}
    (hfree : AfterCycleFree args x) (hunclean : cellClean args length chosen x cell = false) :
    args.ignoreNsf = .enabled ∧ ∀ y, cLlfCell args length chosen x cell = .ok y →
      y.transmissionsFlows = x.transmissionsFlows ∧ y.placement.cnmid chosen.flow.id = true := by
  obtain ⟨channel, slot, hfind⟩ := cellClean_find hchecked hfree cell
  unfold cellClean at hunclean
  rw [hfind] at hunclean
  dsimp only at hunclean
  rw [Bool.or_eq_false_iff, bne_eq_false_iff_eq, Bool.not_eq_false'] at hunclean
  refine ⟨hunclean.1, fun y hcall ↦ ?_⟩
  unfold cLlfCell at hcall
  rw [hfind] at hcall
  obtain ⟨⟨placed, u⟩, hsettle, hdone⟩ := bind_eq_ok hcall
  obtain ⟨hplaced, hcnmid, -⟩ := settleCell_enabled hunclean.1 hunclean.2 hsettle
  dsimp only at hplaced hdone
  rw [hplaced] at hdone
  cases hdone
  exact ⟨rfl, hcnmid⟩

end

theorem cLlfCell_of_missed (hmode : args.ignoreNsf = .enabled) {x y : CLlfState} {cell : Cell}
    (hcall : cLlfCell args length chosen x cell = .ok y)
    (hcnmid : x.placement.cnmid chosen.flow.id = true) :
    y.transmissionsFlows = x.transmissionsFlows ∧ y.placement.cnmid chosen.flow.id = true := by
  unfold cLlfCell at hcall
  split at hcall
  · cases hcall
    exact ⟨rfl, hcnmid⟩
  · rename_i channel slot hfind
    obtain ⟨⟨placed, u⟩, hsettle, hdone⟩ := bind_eq_ok hcall
    have hmissed : (x.placement.cnmid chosen.flow.id ||
        missesDeadline args chosen.flow slot) = true := by
      rw [hcnmid, Bool.true_or]
    obtain ⟨hplaced, hstill, -⟩ := settleCell_enabled hmode hmissed hsettle
    dsimp only at hplaced hdone
    rw [hplaced] at hdone
    cases hdone
    exact ⟨rfl, hstill⟩

theorem cLlfCells_refused (hchecked : CLlfChecked args length flows) {cells : List Cell}
    {x : CLlfState} (hfree : AfterCycleFree args x)
    (hunclean : cellsClean args length chosen x cells = false) :
    args.ignoreNsf = .enabled ∧ ∀ y, cells.foldlM (cLlfCell args length chosen) x = .ok y →
      y.placement.cnmid chosen.flow.id = true ∧ ∃ done cell todo, cells = done ++ cell :: todo ∧
        y.transmissionsFlows = x.transmissionsFlows.filter fun z ↦
          !done.any fun cell ↦ isTransmissionOf chosen cell z := by
  induction cells generalizing x with
  | nil => cases hunclean
  | cons cell cells ih =>
    unfold cellsClean at hunclean
    rw [Bool.and_eq_false_iff] at hunclean
    by_cases hclean : cellClean args length chosen x cell = true
    · have hlater := hunclean.resolve_left (by rw [hclean]; exact Bool.noConfusion)
      cases hfirst : cLlfCell args length chosen x cell with
      | error fault =>
        rw [hfirst] at hlater
        cases hlater
      | ok u =>
        rw [hfirst] at hlater
        obtain ⟨hmode, hrest⟩ := ih (afterCycleFree_of_clean hchecked hclean hfirst hfree) hlater
        refine ⟨hmode, fun y hcall ↦ ?_⟩
        rw [foldlM_cons, hfirst, ok_bind] at hcall
        obtain ⟨hcnmid, done, other, todo, hsplit, hfilter⟩ := hrest y hcall
        obtain ⟨channel, slot, cnmid, -, -, hdrop, -⟩ := cLlfCell_of_clean hclean hfirst
        refine ⟨hcnmid, cell :: done, other, todo, by rw [hsplit]; rfl, ?_⟩
        rw [hfilter, hdrop, filter_filter]
        apply filter_congr
        intro z _
        rw [any_cons, Bool.not_or, Bool.and_comm]
    · rw [Bool.not_eq_true] at hclean
      obtain ⟨hmode, hrefused⟩ := cLlfCell_refused hchecked hfree hclean
      refine ⟨hmode, fun y hcall ↦ ?_⟩
      rw [foldlM_cons] at hcall
      obtain ⟨u, hfirst, hrest⟩ := bind_eq_ok hcall
      obtain ⟨hsame, hcnmid⟩ := hrefused u hfirst
      obtain ⟨hsame', hcnmid'⟩ := foldlM_invariant
        (P := fun t : CLlfState ↦ t.transmissionsFlows = x.transmissionsFlows ∧
          t.placement.cnmid chosen.flow.id = true)
        (fun other _ s t hs hstep ↦ by
          obtain ⟨hkept, hstill⟩ := cLlfCell_of_missed hmode hstep hs.2
          exact ⟨hkept.trans hs.1, hstill⟩) hrest ⟨hsame, hcnmid⟩
      refine ⟨hcnmid', [], cell, cells, rfl, ?_⟩
      rw [hsame']
      exact (filter_eq_self.mpr fun z _ ↦ rfl).symm

/-- Between rounds all cells of a flow are left, or none is. -/
structure WholeFlows (args : CreateArgs) (flows : List Flow) (x : List CellCLlf × Placement) :
    Prop where
  mem : OfFlows flows x.1
  whole : ∀ z ∈ x.1, ∀ cell ∈ z.flow.cells, ∃ w ∈ x.1, w.cell = cell
  free : x.2.schedule 0 args.shortestRepeatingCycle = none

theorem WholeFlows.withLaxities {x : List CellCLlf × Placement} (hx : WholeFlows args flows x)
    (timeslotIdx : ℕ) : WholeFlows args flows (withLaxities timeslotIdx x.1, x.2) := by
  refine ⟨hx.mem.withLaxities timeslotIdx, fun z hz cell hcell ↦ ?_, hx.free⟩
  obtain ⟨w, hw, rfl⟩ := mem_map.mp hz
  obtain ⟨v, hv, heq⟩ := hx.whole w hw cell hcell
  exact ⟨_, mem_map_of_mem hv, heq⟩

theorem isTransmissionOf_iff (hown : OwnCells flows) {z : CellCLlf}
    (hz : z.flow ∈ flows ∧ z.cell ∈ z.flow.cells) (hflow : chosen.flow ∈ flows) {cell : Cell}
    (hcell : cell ∈ chosen.flow.cells) : isTransmissionOf chosen cell z = true ↔ z.cell = cell := by
  unfold isTransmissionOf
  rw [Bool.and_eq_true, beq_iff_eq, beq_iff_eq]
  refine ⟨And.left, fun heq ↦ ⟨heq, ?_⟩⟩
  have hsame : chosen.flow = z.flow := by
    refine hown.eq_of_mem_cells hflow hz.1 hcell ?_
    rw [← heq]
    exact hz.2
  rw [hsame]

section

variable (hchecked : CLlfChecked args length flows)

include hchecked

theorem cLlfRound_wholeFlows {x y : List CellCLlf × Placement} (hx : WholeFlows args flows x)
    (hclean : roundClean args length timeslotIdx x = true)
    (hcall : cLlfRound args length timeslotIdx x = .ok y) : WholeFlows args flows y := by
  have hx' := hx.withLaxities timeslotIdx
  unfold roundClean at hclean
  cases hchoose : chooseTransmission (releasedAt timeslotIdx x.1) with
  | none =>
    rw [cLlfRound_of_none hchoose] at hcall
    cases hcall
    exact hx'
  | some chosen =>
    rw [hchoose] at hclean
    obtain ⟨u, hcells, rfl⟩ := cLlfRound_of_choose hchecked.channels
      (fun z hz ↦ (hx.mem z hz).2) hchoose hcall
    obtain ⟨hfilter, -⟩ := cLlfCells_of_clean hclean hcells
    have hmem := (mem_filter.mp (chooseTransmission_mem hchoose)).1
    obtain ⟨hflow, -⟩ := hx'.mem chosen hmem
    dsimp only at hfilter
    have hof : OfFlows flows u.transmissionsFlows := by
      intro z hz
      rw [hfilter] at hz
      exact hx'.mem z (mem_filter.mp hz).1
    refine ⟨hof, fun z hz cell hcell ↦ ?_, ?_⟩
    · dsimp only at hz ⊢
      rw [hfilter, mem_filter, Bool.not_eq_true', any_eq_false] at hz
      obtain ⟨w, hw, hcellEq⟩ := hx'.whole z hz.1 cell hcell
      refine ⟨w, ?_, hcellEq⟩
      rw [hfilter, mem_filter, Bool.not_eq_true', any_eq_false]
      refine ⟨hw, fun other hother hsame ↦ ?_⟩
      rw [isTransmissionOf_iff hchecked.own (hx'.mem w hw) hflow hother] at hsame
      -- the cell belongs to the chosen flow, and with it the transmission itself
      have hflows : z.flow = chosen.flow := by
        refine hchecked.own.eq_of_mem_cells (hx'.mem z hz.1).1 hflow hcell ?_
        rw [← hcellEq, hsame]
        exact hother
      have hin : z.cell ∈ chosen.flow.cells := by
        rw [← hflows]
        exact (hx'.mem z hz.1).2
      exact hz.2 z.cell hin
        ((isTransmissionOf_iff hchecked.own (hx'.mem z hz.1) hflow hin).mpr rfl)
    · have hstart : AfterCycleFree args
          ⟨chosen.flow.releaseTime, Scheduler.withLaxities timeslotIdx x.1, x.2⟩ :=
        ⟨hx.free, hchecked.release chosen.flow hflow⟩
      exact (cellsClean_free hchecked hclean hcells hstart).1

theorem cLlfRound_unclean {x : List CellCLlf × Placement} (hx : WholeFlows args flows x)
    (hunclean : roundClean args length timeslotIdx x = false) :
    args.ignoreNsf = .enabled ∧ ∀ y, cLlfRound args length timeslotIdx x = .ok y →
      OfFlows flows y.1 ∧ Stuck args y.1 y.2 := by
  have hx' := hx.withLaxities timeslotIdx
  unfold roundClean at hunclean
  cases hchoose : chooseTransmission (releasedAt timeslotIdx x.1) with
  | none =>
    rw [hchoose] at hunclean
    cases hunclean
  | some chosen =>
    rw [hchoose] at hunclean
    have hmem := (mem_filter.mp (chooseTransmission_mem hchoose)).1
    obtain ⟨hflow, -⟩ := hx'.mem chosen hmem
    have hstart : AfterCycleFree args
        ⟨chosen.flow.releaseTime, Scheduler.withLaxities timeslotIdx x.1, x.2⟩ :=
      ⟨hx.free, hchecked.release chosen.flow hflow⟩
    obtain ⟨hmode, hrefused⟩ := cLlfCells_refused hchecked hstart hunclean
    refine ⟨hmode, fun y hcall ↦ ?_⟩
    obtain ⟨u, hcells, rfl⟩ := cLlfRound_of_choose hchecked.channels
      (fun z hz ↦ (hx.mem z hz).2) hchoose hcall
    obtain ⟨hcnmid, done, cell, todo, hsplit, hfilter⟩ := hrefused u hcells
    dsimp only at hfilter ⊢
    constructor
    · intro z hz
      rw [hfilter] at hz
      exact hx'.mem z (mem_filter.mp hz).1
    · have hcell : cell ∈ chosen.flow.cells := by
        rw [hsplit]
        exact mem_append_right _ mem_cons_self
      obtain ⟨w, hw, hcellEq⟩ := hx'.whole chosen hmem cell hcell
      have hsame : w.flow = chosen.flow := by
        refine hchecked.own.eq_of_mem_cells (hx'.mem w hw).1 hflow (hx'.mem w hw).2 ?_
        rw [hcellEq]
        exact hcell
      refine ⟨hmode, w, ?_, by rw [hsame]; exact hcnmid⟩
      rw [hfilter, mem_filter, Bool.not_eq_true', any_eq_false]
      refine ⟨hw, fun other hother hmatch ↦ ?_⟩
      have hin : other ∈ chosen.flow.cells := by
        rw [hsplit]
        exact mem_append_left _ hother
      rw [isTransmissionOf_iff hchecked.own (hx'.mem w hw) hflow hin, hcellEq] at hmatch
      have hnodup := hchecked.own.nodup chosen.flow hflow
      rw [hsplit] at hnodup
      rw [← hmatch] at hother
      exact disjoint_of_nodup_append hnodup hother mem_cons_self

theorem cLlfLoop_of_unclean {rounds : ℕ}
    {x : List CellCLlf × Placement} (hx : WholeFlows args flows x)
    (hunclean : roundsClean args length rounds timeslotIdx x = false) : args.ignoreNsf = .enabled ∧
      ∀ fuel, cLlfLoop args length fuel timeslotIdx x = .error .outOfFuel := by
  induction rounds generalizing timeslotIdx x with
  | zero => cases hunclean
  | succ rounds ih =>
    unfold roundsClean at hunclean
    rw [Bool.or_eq_false_iff, Bool.and_eq_false_iff] at hunclean
    obtain ⟨hempty, hrounds⟩ := hunclean
    have hleft : x.1 ≠ [] := by
      intro hnil
      rw [hnil] at hempty
      cases hempty
    have hgoesOn : args.ignoreNsf = .enabled ∧ ∃ y, cLlfRound args length timeslotIdx x = .ok y ∧
        ∀ fuel, cLlfLoop args length fuel (timeslotIdx + 1) y = .error .outOfFuel := by
      by_cases hclean : roundClean args length timeslotIdx x = true
      · have hlater := hrounds.resolve_left (by rw [hclean]; exact Bool.noConfusion)
        cases hround : cLlfRound args length timeslotIdx x with
        | error fault =>
          rw [hround] at hlater
          cases hlater
        | ok y =>
          rw [hround] at hlater
          obtain ⟨hmode, hloop⟩ := ih (cLlfRound_wholeFlows hchecked hx hclean hround) hlater
          exact ⟨hmode, y, rfl, hloop⟩
      · rw [Bool.not_eq_true] at hclean
        obtain ⟨hmode, hstuck⟩ := cLlfRound_unclean hchecked hx hclean
        have hraises : args.ignoreNsf ≠ .infeasible := by
          rw [hmode]
          decide
        obtain ⟨y, hround⟩ : ∃ y, cLlfRound args length timeslotIdx x = .ok y :=
          exists_eq_ok_of_ne_error fun fault ↦ cLlfRound_ne_error (.inr hraises) x
        obtain ⟨hof, hstill⟩ := hstuck y hround
        exact ⟨hmode, y, hround, fun fuel ↦ cLlfLoop_of_stuck hchecked.own hof hstill⟩
    obtain ⟨hmode, y, hround, hloop⟩ := hgoesOn
    refine ⟨hmode, fun fuel ↦ ?_⟩
    cases fuel with
    | zero => exact cLlfLoop_zero args length timeslotIdx hleft
    | succ fuel =>
      rw [cLlfLoop_succ args length fuel timeslotIdx hleft, hround]
      exact hloop fuel

end

theorem wholeFlows_allTransmissions :
    WholeFlows args flows (allTransmissions flows, Placement.empty) := by
  refine ⟨fun z hz ↦ ?_, fun z hz cell hcell ↦ ?_, rfl⟩
  · obtain ⟨hflow, hcell, -⟩ := mem_allTransmissions.mp hz
    exact ⟨hflow, hcell⟩
  · exact ⟨⟨z.flow, cell, -1⟩,
      mem_allTransmissions.mpr ⟨(mem_allTransmissions.mp hz).1, hcell, rfl⟩, rfl⟩

theorem cleanRun_of_terminates (hchecked : CLlfChecked args length flows)
    (hruns : args.ignoreNsf = .infeasible ∨ TerminatesCLlf args length flows) :
    CleanRun args length flows := by
  intro rounds
  by_contra hunclean
  rw [Bool.not_eq_true] at hunclean
  obtain ⟨hmode, hloop⟩ := cLlfLoop_of_unclean hchecked wholeFlows_allTransmissions hunclean
  rcases hruns with hinfeasible | ⟨fuel, hends, -⟩
  · rw [hmode] at hinfeasible
    cases hinfeasible
  · exact hends (hloop fuel)

end Checked

section Call

variable {args : CreateArgs} {flows ready : List Flow}

theorem cleanRun_of_no_cells {length : ℕ} (hcells : ∀ flow ∈ ready, flow.cells = []) :
    CleanRun args length ready := by
  have hempty : allTransmissions ready = [] := by
    rw [eq_nil_iff_forall_not_mem]
    intro z hz
    obtain ⟨hflow, hcell, -⟩ := mem_allTransmissions.mp hz
    rw [hcells z.flow hflow] at hcell
    cases hcell
  intro rounds
  rw [hempty]
  cases rounds with
  | zero => rfl
  | succ rounds => rfl

theorem cleanRun_of_call (hready : initFlows args flows = .ok ready)
    (hchannels : 0 < args.numChannels) (halgorithm : args.algorithm = .cLlf)
    (hcycle : 1 < args.shortestRepeatingCycle) (hmode : args.ignoreNsf ≠ .disabled)
    (hruns : args.ignoreNsf = .infeasible ∨ TerminatesCLlf args (gridLength args flows) ready) :
    CleanRun args (gridLength args flows) ready := by
  by_cases hcells : ∀ flow ∈ ready, flow.cells = []
  · exact cleanRun_of_no_cells hcells
  · simp only [not_forall] at hcells
    obtain ⟨flow, hflow, hne⟩ := hcells
    exact cleanRun_of_terminates
      (cLlfChecked_of_initFlows halgorithm hcycle hmode hchannels hready hflow hne) hruns

/-- C-LLF terminates when its rounds are clean. Within a hyper-period, mode infeasible makes them
clean, and in mode enabled it terminates only then. -/
theorem cLlf_terminates (hready : initFlows args flows = .ok ready)
    (hchannels : 0 < args.numChannels) (halgorithm : args.algorithm = .cLlf) :
    (CleanRun args (gridLength args flows) ready →
        TerminatesCLlf args (gridLength args flows) ready) ∧
      (1 < args.shortestRepeatingCycle → args.ignoreNsf = .infeasible →
        CleanRun args (gridLength args flows) ready) ∧
      (1 < args.shortestRepeatingCycle → args.ignoreNsf = .enabled →
        TerminatesCLlf args (gridLength args flows) ready →
          CleanRun args (gridLength args flows) ready) := by
  refine ⟨terminates_of_cleanRun hchannels, fun hcycle hmode ↦ ?_, fun hcycle hmode hends ↦ ?_⟩
  · have hchecked : args.ignoreNsf ≠ .disabled := by
      rw [hmode]
      exact fun heq ↦ nomatch heq
    exact cleanRun_of_call hready hchannels halgorithm hcycle hchecked (.inl hmode)
  · have hchecked : args.ignoreNsf ≠ .disabled := by
      rw [hmode]
      exact fun heq ↦ nomatch heq
    exact cleanRun_of_call hready hchannels halgorithm hcycle hchecked (.inr hends)

end Call

def enabledArgs : CreateArgs :=
  { plainArgs .cLlf with
    shortestRepeatingCycle := 4
    ignoreNsf := .enabled }

def twoHopFlow (deadline : ℕ) : Flow :=
  { pathFlow 1 1 3 [2] with
    period := 4
    deadline := some deadline }

theorem cLlf_terminates_two_hops :
    ∃ ready, initFlows enabledArgs [twoHopFlow 4] = .ok ready ∧
      (CleanRun enabledArgs (gridLength enabledArgs [twoHopFlow 4]) ready →
        TerminatesCLlf enabledArgs (gridLength enabledArgs [twoHopFlow 4]) ready) ∧
      (1 < 4 → IgnoreNsf.enabled = .infeasible →
        CleanRun enabledArgs (gridLength enabledArgs [twoHopFlow 4]) ready) ∧
      (1 < 4 → IgnoreNsf.enabled = .enabled →
        TerminatesCLlf enabledArgs (gridLength enabledArgs [twoHopFlow 4]) ready →
          CleanRun enabledArgs (gridLength enabledArgs [twoHopFlow 4]) ready) := by
  obtain ⟨ready, hready⟩ := exists_eq_ok
    (show (initFlows enabledArgs [twoHopFlow 4]).toOption.isSome = true by decide +kernel)
  exact ⟨ready, hready, cLlf_terminates hready (by decide) rfl⟩

/-- The second hop of the flow cannot meet a deadline of one timeslot, and is tried for ever. -/
theorem cLlf_not_terminates_short_deadline :
    ∃ ready, initFlows enabledArgs [twoHopFlow 1] = .ok ready ∧
      ¬ TerminatesCLlf enabledArgs (gridLength enabledArgs [twoHopFlow 1]) ready := by
  obtain ⟨ready, hready, hround⟩ : ∃ ready, initFlows enabledArgs [twoHopFlow 1] = .ok ready ∧
      ¬ roundsClean enabledArgs (gridLength enabledArgs [twoHopFlow 1]) 1 0
        (allTransmissions ready, Placement.empty) = true := exists_ok (by decide +kernel)
  refine ⟨ready, hready, fun hends ↦ ?_⟩
  have hclean := cleanRun_of_call hready (by decide) rfl (by decide) (fun heq ↦ nomatch heq)
    (.inr hends) 1
  exact hround hclean

end ContikiMaster.Scheduler
