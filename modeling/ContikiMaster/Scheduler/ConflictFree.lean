import ContikiMaster.Scheduler.Placement

/-!
# Schedules are free of conflicts

The grid of a schedule represents a table of slots in which no two cells share a node and
the channels in use are the first ones: R-LPF notes the nodes of every slot, the other three
stop at the first free channel, before which there are only cells they have looked at.
-/

namespace ContikiMaster.Scheduler

open Lib Function List Option

/-- A grid represents a table of slots whose cells share no node. -/
def ConflictFree (numChannels : ℕ) (schedule : Grid Cell) : Prop :=
  ∃ T : SlotTable Cell.Conflicts numChannels, schedule.Represents T

theorem conflictFree_empty (numChannels : ℕ) : ConflictFree numChannels Placement.empty.schedule :=
  ⟨SlotTable.empty _ _, Grid.represents_empty⟩

section Steps

variable {numChannels channel slot : ℕ} {schedule : Grid Cell} {cell : Cell}

theorem ConflictFree.write (hfree : ConflictFree numChannels schedule)
    (hlt : channel < numChannels) (hnone : schedule channel slot = none)
    (hbefore : ∀ c < channel, ∃ other, schedule c slot = some other ∧ ¬ cell.Conflicts other) :
    ConflictFree numChannels (schedule.write channel slot cell) := by
  obtain ⟨T, hT⟩ := hfree
  have hlength : (T.slot slot).length = channel := by
    refine hT.length_eq hnone fun c hc ↦ ?_
    obtain ⟨other, hother, -⟩ := hbefore c hc
    rw [hother]
    exact some_ne_none other
  have haccepts : T.Accepts slot cell := by
    refine ⟨by rw [hlength]; exact hlt, fun b hb hconflict ↦ ?_⟩
    obtain ⟨row, hrow⟩ := hT.mem_slot.mp hb
    have hlt : row < channel := by
      rw [← hlength]
      rw [hT row slot] at hrow
      exact (List.getElem?_eq_some_iff.mp hrow).1
    obtain ⟨other, hother, hcompatible⟩ := hbefore row hlt
    rw [hrow] at hother
    cases hother
    exact hcompatible hconflict.symm
  have hwrite := hT.write haccepts
  rw [hlength] at hwrite
  exact ⟨_, hwrite⟩

variable {args : CreateArgs} {checked placed : Bool} {flow : Flow} {x y : Placement}

theorem Settled.conflictFree (hsettled : Settled args checked flow cell channel slot x placed y)
    (hfree : ConflictFree numChannels x.schedule) (hlt : channel < numChannels)
    (hnone : x.schedule channel slot = none)
    (hbefore : ∀ c < channel, ∃ other, x.schedule c slot = some other ∧ ¬ cell.Conflicts other) :
    ConflictFree numChannels y.schedule := by
  cases hsettled with
  | placed => exact hfree.write hlt hnone hbefore
  | refused => exact hfree

theorem Settled.conflictFree_of_find {length releaseTimeIdx : ℕ}
    (hsettled : Settled args checked flow cell channel slot x placed y)
    (hfree : ConflictFree numChannels x.schedule)
    (hfind : findSchedulableSlot length numChannels x.schedule cell releaseTimeIdx =
      some (channel, slot)) : ConflictFree numChannels y.schedule := by
  obtain ⟨-, -, hlt, hnone, hbefore⟩ := findSchedulableSlot_spec hfind
  exact hsettled.conflictFree hfree hlt hnone hbefore

end Steps

variable {args : CreateArgs} {length fuel : ℕ} {flow : Flow} {flows : List Flow} {cell : Cell}
  {x : Placement}

theorem inOrderCell_conflictFree {x y : ℕ × Placement}
    (hfree : ConflictFree args.numChannels x.2.schedule)
    (hcall : inOrderCell args length flow x cell = .ok y) :
    ConflictFree args.numChannels y.2.schedule := by
  unfold inOrderCell at hcall
  split at hcall
  · cases hcall
  · rename_i channel slot hfind
    obtain ⟨⟨placed, z⟩, hsettle, hdone⟩ := bind_eq_ok hcall
    have hz := (settleCell_spec hsettle).conflictFree_of_find hfree hfind
    cases placed <;> cases hdone <;> exact hz

theorem placeInOrder_conflictFree (hcall : placeInOrder args length flows = .ok x) :
    ConflictFree args.numChannels x.schedule := by
  refine foldlM_invariant (P := fun x ↦ ConflictFree args.numChannels x.schedule)
    (fun flow _ x y hx hflow ↦ ?_) hcall (conflictFree_empty _)
  obtain ⟨⟨r, z⟩, hcells, hdone⟩ := bind_eq_ok hflow
  cases hdone
  exact foldlM_invariant (P := fun x ↦ ConflictFree args.numChannels x.2.schedule)
    (fun cell _ x y hx hcell ↦ inOrderCell_conflictFree hx hcell) hcells hx

theorem cLlfCell_conflictFree {chosen : CellCLlf} {x y : CLlfState}
    (hfree : ConflictFree args.numChannels x.placement.schedule)
    (hcall : cLlfCell args length chosen x cell = .ok y) :
    ConflictFree args.numChannels y.placement.schedule := by
  unfold cLlfCell at hcall
  split at hcall
  · cases hcall
    exact hfree
  · rename_i channel slot hfind
    obtain ⟨⟨placed, z⟩, hsettle, hdone⟩ := bind_eq_ok hcall
    have hz := (settleCell_spec hsettle).conflictFree_of_find hfree hfind
    cases placed <;> cases hdone <;> exact hz

theorem cLlfChannels_conflictFree {channels : ℕ} {toRelease : List CellCLlf}
    {x y : List CellCLlf × Placement} (hfree : ConflictFree args.numChannels x.2.schedule)
    (hcall : cLlfChannels args length channels toRelease x = .ok y) :
    ConflictFree args.numChannels y.2.schedule := by
  induction channels generalizing toRelease x with
  | zero =>
    cases hcall
    exact hfree
  | succ channels ih =>
    unfold cLlfChannels at hcall
    split at hcall
    · cases hcall
      exact hfree
    · obtain ⟨z, hcells, hrest⟩ := bind_eq_ok hcall
      refine ih ?_ hrest
      exact foldlM_invariant (P := fun z ↦ ConflictFree args.numChannels z.placement.schedule)
        (fun cell _ x y hx hcell ↦ cLlfCell_conflictFree hx hcell) hcells hfree

theorem cLlfLoop_conflictFree {timeslotIdx : ℕ} {x : List CellCLlf × Placement}
    {y : Placement} (hfree : ConflictFree args.numChannels x.2.schedule)
    (hcall : cLlfLoop args length fuel timeslotIdx x = .ok y) :
    ConflictFree args.numChannels y.schedule := by
  induction fuel generalizing timeslotIdx x with
  | zero =>
    obtain ⟨_ | ⟨first, rest⟩, placement⟩ := x
    · cases hcall
      exact hfree
    · cases hcall
  | succ fuel ih =>
    obtain ⟨_ | ⟨first, rest⟩, placement⟩ := x
    · cases hcall
      exact hfree
    · obtain ⟨z, hchannels, hrest⟩ := bind_eq_ok hcall
      refine ih (cLlfChannels_conflictFree ?_ hchannels) hrest
      exact hfree

def NodesNoted (x : Placement) : Prop :=
  ∀ channel slot cell, x.schedule channel slot = some cell →
    ∀ node ∈ cell.participants, node ∈ x.usedNodesInTimeslot slot

theorem NodesNoted.compatible (hnoted : NodesNoted x) {slot : ℕ}
    {numChannels : ℕ} (hschedulable : schedulableInSlot numChannels x slot cell.participants = true)
    {channel : ℕ} {other : Cell} (hother : x.schedule channel slot = some other) :
    ¬ cell.Conflicts other := by
  rintro ⟨node, hcell, hnode⟩
  have hused : node ∈ x.usedNodesInTimeslot slot := hnoted channel slot other hother node hnode
  unfold schedulableInSlot at hschedulable
  rw [Bool.and_eq_true, Bool.or_eq_true] at hschedulable
  rcases hschedulable.2 with hempty | hall
  · rw [List.isEmpty_iff] at hempty
    rw [hempty] at hused
    cases hused
  · have hunused := all_eq_true.mp hall node hcell
    exact of_decide_eq_true hunused hused

theorem rLpfCell_conflictFree {checked : Bool} {currentIdx : ℕ}
    {x y : ℕ × Placement}
    (hfree : ConflictFree args.numChannels x.2.schedule ∧ NodesNoted x.2)
    (hcall : rLpfCell args length checked currentIdx flow x cell = .ok y) :
    ConflictFree args.numChannels y.2.schedule ∧ NodesNoted y.2 := by
  unfold rLpfCell at hcall
  split at hcall
  · cases hcall
  · rename_i slot hnext
    obtain ⟨⟨placed, z⟩, hsettle, hdone⟩ := bind_eq_ok hcall
    have hfound := find?_some hnext
    simp only [Bool.and_eq_true] at hfound
    obtain ⟨⟨-, hschedulable⟩, -⟩ := hfound
    have hroom := (Bool.and_eq_true_iff.mp hschedulable).1
    obtain ⟨hlt, hnone, hfilled⟩ := availableChannelInSlot_spec hroom
    have hsettled := settleCell_spec hsettle
    have hz : ConflictFree args.numChannels z.schedule := by
      refine hsettled.conflictFree hfree.1 hlt hnone fun c hc ↦ ?_
      obtain ⟨other, hother⟩ := ne_none_iff_exists'.mp (hfilled c hc)
      exact ⟨other, hother, hfree.2.compatible hschedulable hother⟩
    cases hsettled with
    | refused cnmid entry =>
      cases hdone
      exact ⟨hz, hfree.2⟩
    | placed cnmid hmeets =>
      cases hdone
      refine ⟨hz, fun c t other hother node hnode ↦ ?_⟩
      change node ∈ update x.2.usedNodesInTimeslot slot _ t
      change x.2.schedule.write _ slot cell c t = some other at hother
      rw [Grid.write_apply] at hother
      by_cases ht : t = slot
      · subst ht
        rw [update_self, mem_append]
        split at hother
        · cases hother
          exact .inr hnode
        · exact .inl (hfree.2 c t other hother node hnode)
      · rw [update_of_ne ht]
        rw [if_neg fun hboth ↦ ht hboth.2] at hother
        exact hfree.2 c t other hother node hnode

theorem placeRLpf_conflictFree
    (hcall : placeRLpf args length flows = .ok x) : ConflictFree args.numChannels x.schedule := by
  obtain ⟨y, hflows, hdone⟩ := bind_eq_ok hcall
  cases hdone
  have hnoted : NodesNoted Placement.empty := by
    intro channel slot cell hcell
    cases hcell
  have hy := foldlM_invariant
    (P := fun x : RLpfState ↦
      ConflictFree args.numChannels x.placement.schedule ∧ NodesNoted x.placement)
    (fun flow _ x y hx hflow ↦ ?_) hflows ⟨conflictFree_empty _, hnoted⟩
  · exact hy.1
  · obtain ⟨⟨r, z⟩, hcells, hdone⟩ := bind_eq_ok hflow
    cases hdone
    exact foldlM_invariant
      (P := fun x : ℕ × Placement ↦ ConflictFree args.numChannels x.2.schedule ∧ NodesNoted x.2)
      (fun cell _ x y hx hcell ↦ rLpfCell_conflictFree hx hcell) hcells hx

theorem placeOrdered_conflictFree (hcall : placeOrdered args length fuel flows = .ok x) :
    ConflictFree args.numChannels x.schedule := by
  unfold placeOrdered at hcall
  split at hcall
  · exact placeRLpf_conflictFree hcall
  · split at hcall
    · exact placeInOrder_conflictFree hcall
    · cases hcall
  · split at hcall
    · exact placeInOrder_conflictFree hcall
    · cases hcall
  · split at hcall
    · exact cLlfLoop_conflictFree (conflictFree_empty _) hcall
    · cases hcall

theorem ConflictFree.cut {schedule : Grid Cell} (last : ℕ)
    (hfree : ConflictFree args.numChannels schedule) :
    ConflictFree args.numChannels (cutSchedule args last schedule) := by
  obtain ⟨T, hT⟩ := hfree
  refine ⟨⟨fun t ↦ if t ≤ last then T.slot (placedSlot args last t) else [], fun t ↦ ?_,
    fun t ↦ ?_⟩, fun row t ↦ ?_⟩
  · split
    · exact T.length_le _
    · exact Nat.zero_le _
  · split
    · exact T.compatible _
    · exact List.Pairwise.nil
  · change _ = (if t ≤ last then T.slot (placedSlot args last t) else [])[row]?
    by_cases ht : t ≤ last
    · rw [if_pos ht, cutSchedule_apply args schedule ht, hT]
    · rw [if_neg ht, cutSchedule_of_lt args schedule (not_le.mp ht)]
      rfl

theorem conflictFree_of_create {s : Schedule}
    (hcreate : create args fuel flows = .ok s) : ConflictFree args.numChannels s.schedule := by
  obtain ⟨x, hplaced, hfinal⟩ := placeCells_of_create hcreate
  obtain ⟨ready, -, -, -, -, hplacement⟩ := placeCells_spec hplaced
  obtain ⟨-, -, -, -, -, hschedule, -⟩ := finalise_spec hfinal
  rw [hschedule]
  exact (placeOrdered_conflictFree hplacement).cut _

theorem ConflictFree.exists_isSome_iff {numChannels : ℕ} {schedule : Grid Cell}
    (hfree : ConflictFree numChannels schedule) (slot : ℕ) :
    ∃ m ≤ numChannels, ∀ channel, (schedule channel slot).isSome = true ↔ channel < m := by
  obtain ⟨T, hT⟩ := hfree
  refine ⟨(T.slot slot).length, T.length_le slot, fun channel ↦ ?_⟩
  rw [hT channel slot, isSome_iff_ne_none, ne_eq, getElem?_eq_none_iff, not_le]

/-- Whenever `Schedule.create` returns, no node takes part in two cells of one timeslot, and the
channels in use in a timeslot are the first ones. -/
theorem create_conflictFree {args : CreateArgs} {fuel : ℕ} {flows : List Flow} {s : Schedule}
    (hcreate : create args fuel flows = .ok s) :
    (∀ slot channel channel' cell cell', channel ≠ channel' →
      s.schedule channel slot = some cell → s.schedule channel' slot = some cell' →
      ∀ node ∈ cell.participants, node ∉ cell'.participants) ∧
    ∀ slot, ∃ m ≤ args.numChannels, ∀ channel,
      (s.schedule channel slot).isSome = true ↔ channel < m := by
  have hfree := conflictFree_of_create hcreate
  refine ⟨fun slot channel channel' cell cell' hne hcell hcell' node hnode hnode' ↦ ?_,
    hfree.exists_isSome_iff⟩
  obtain ⟨T, hT⟩ := hfree
  have hconflict : cell.Conflicts cell' := ⟨node, hnode, hnode'⟩
  rcases lt_or_gt_of_ne hne with hlt | hgt
  · exact hT.compatible hlt hcell hcell' hconflict
  · exact hT.compatible hgt hcell' hcell hconflict.symm

def pathFlow (flowNumber source destination : ℕ) (between : List ℕ) : Flow where
  id := 0
  flowNumber := flowNumber
  subFlowNumber := flowNumber
  source := source
  destination := destination
  period := 1
  releaseTime := 0
  deadline := some 10
  maxSubFlowLength := 10
  path := source :: between ++ [destination]
  path_ne_nil := cons_ne_nil _ _
  cells := []

def plainArgs (algorithm : SchedulingAlgorithm) : CreateArgs where
  etx := fun _ _ ↦ 1
  numChannels := 2
  shortestRepeatingCycle := 1
  algorithm := algorithm
  ignoreNsf := .infeasible
  strategy := .noRetransmissions
  numCoojaNodes := 5
  windowSizeAlgorithm := .etxLinkBased
  fixedWindowSize := 0

theorem create_conflictFree_edf :
    ∃ s, create (plainArgs .edf) 0 [pathFlow 1 1 3 [2], pathFlow 2 4 5 []] = .ok s ∧
      (∀ slot channel channel' cell cell', channel ≠ channel' →
        s.schedule channel slot = some cell → s.schedule channel' slot = some cell' →
        ∀ node ∈ cell.participants, node ∉ cell'.participants) ∧
      ∀ slot, ∃ m ≤ 2, ∀ channel, (s.schedule channel slot).isSome = true ↔ channel < m := by
  obtain ⟨s, hs⟩ := exists_eq_ok
    (show (create (plainArgs .edf) 0 [pathFlow 1 1 3 [2], pathFlow 2 4 5 []]).toOption.isSome = true
      by decide +kernel)
  exact ⟨s, hs, create_conflictFree hs⟩

end ContikiMaster.Scheduler
