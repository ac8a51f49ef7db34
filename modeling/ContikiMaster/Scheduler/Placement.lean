import ContikiMaster.Scheduler.Create

/-!
# One cell at a time

What the analysis of a cell does with it, where the searches for a free place
stop, and what the finalisation does to the grid.
-/

namespace ContikiMaster.Scheduler

open Lib Function List

/-- Two cells share a node. -/
def Cell.Conflicts (a b : Cell) : Prop := ∃ node ∈ a.participants, node ∈ b.participants

variable {a b : Cell} {args : CreateArgs} {checked : Bool} {flow : Flow} {participants : List ℕ}
  {t last fuel : ℕ} {s : Schedule} {flows : List Flow}

theorem Cell.Conflicts.symm (hconflict : a.Conflicts b) : b.Conflicts a := by
  obtain ⟨node, ha, hb⟩ := hconflict
  exact ⟨node, hb, ha⟩

/-- What `settleCell` does: the cell is placed, or its flow is noted as infeasible. -/
inductive Settled (args : CreateArgs) (checked : Bool) (flow : Flow) (cell : Cell)
    (channel slot : ℕ) (x : Placement) : Bool → Placement → Prop
  | placed (cnmid : ℕ → Bool)
      (hmeets : checked = true → args.ignoreNsf ≠ .disabled →
        missesDeadline args flow slot = false) :
      Settled args checked flow cell channel slot x true
        { x with cnmid := cnmid, schedule := x.schedule.write channel slot cell }
  | refused (cnmid : ℕ → Bool) (entry : Flow × List ℕ) :
      Settled args checked flow cell channel slot x false
        { x with cnmid := cnmid, infeasibleFlows := x.infeasibleFlows ++ [entry] }

theorem settleCell_spec {cell : Cell} {channel slot : ℕ} {x y : Placement} {placed : Bool}
    (hcall : settleCell args checked flow participants cell channel slot x = .ok (placed, y)) :
    Settled args checked flow cell channel slot x placed y := by
  unfold settleCell at hcall
  extract_lets missed cnmid at hcall
  split at hcall
  · cases hcall
  · rename_i hfeasible
    split at hcall
    · obtain ⟨rfl, rfl⟩ := Prod.mk.inj (Except.ok.inj hcall)
      exact .refused _ _
    · rename_i hplaced
      obtain ⟨rfl, rfl⟩ := Prod.mk.inj (Except.ok.inj hcall)
      refine .placed _ fun hchecked hmode ↦ Bool.eq_false_iff.mpr fun hmissed ↦ ?_
      cases hnsf : args.ignoreNsf with
      | infeasible => simp [missed, hchecked, hmissed, hnsf] at hfeasible
      | enabled => simp [cnmid, missed, hchecked, hmissed, hnsf] at hplaced
      | disabled => exact hmode hnsf

theorem settleCell_error {cell : Cell} {channel slot : ℕ} {x : Placement} {fault : SchedulerError}
    (hcall : settleCell args checked flow participants cell channel slot x = .error fault) :
    fault = .infeasibleScheduler ∧ args.ignoreNsf = .infeasible := by
  unfold settleCell at hcall
  extract_lets missed cnmid at hcall
  split at hcall
  · rename_i hinfeasible
    rw [Bool.and_eq_true, beq_iff_eq] at hinfeasible
    exact ⟨(Except.error.inj hcall).symm, hinfeasible.2⟩
  · split at hcall
    · cases hcall
    · cases hcall

section Searches

variable {schedule : Grid Cell} {cell : Cell} {releaseTimeIdx timeslot channel slot numChannels : ℕ}

theorem any_mem_participants_iff :
    (a.participants.any fun node ↦ decide (node ∈ b.participants)) = true ↔ a.Conflicts b := by
  simp [Cell.Conflicts]

theorem findChannel_range' {start count : ℕ}
    (hfind : findChannel schedule cell releaseTimeIdx timeslot (range' start count) =
      some (channel, slot)) :
    slot = timeslot ∧ releaseTimeIdx ≤ timeslot ∧ start ≤ channel ∧ channel < start + count ∧
      schedule channel timeslot = none ∧ ∀ c, start ≤ c → c < channel →
        ∃ other, schedule c timeslot = some other ∧ ¬ cell.Conflicts other := by
  induction count generalizing start with
  | zero => cases hfind
  | succ count ih =>
    rw [range'_succ] at hfind
    unfold findChannel at hfind
    split at hfind
    · rename_i other hother
      split at hfind
      · cases hfind
      · rename_i hcompatible
        rw [any_mem_participants_iff] at hcompatible
        obtain ⟨hslot, hrelease, hstart, hend, hfree, hbefore⟩ := ih hfind
        refine ⟨hslot, hrelease, by omega, by omega, hfree, fun c hc hlt ↦ ?_⟩
        rcases hc.eq_or_lt with heq | hgt
        · rw [← heq]
          exact ⟨other, hother, hcompatible⟩
        · exact hbefore c hgt hlt
    · rename_i hfree
      split at hfind
      · rename_i hrelease
        cases hfind
        exact ⟨rfl, hrelease, le_rfl, by omega, hfree, fun c hc hlt ↦ absurd hlt (not_lt.mpr hc)⟩
      · rename_i hearly
        obtain ⟨-, hrelease, -⟩ := ih hfind
        exact absurd hrelease hearly

theorem findSchedulableSlot_spec {length : ℕ}
    (hfind : findSchedulableSlot length numChannels schedule cell releaseTimeIdx =
      some (channel, slot)) : releaseTimeIdx ≤ slot ∧ slot < length ∧ channel < numChannels ∧
      schedule channel slot = none ∧
      ∀ c < channel, ∃ other, schedule c slot = some other ∧ ¬ cell.Conflicts other := by
  unfold findSchedulableSlot at hfind
  obtain ⟨timeslot, hmem, hchannel⟩ := exists_of_findSome?_eq_some hfind
  rw [range_eq_range'] at hchannel
  obtain ⟨rfl, hrelease, -, hlt, hfree, hbefore⟩ := findChannel_range' hchannel
  refine ⟨hrelease, mem_range.mp hmem, by omega, hfree, fun c hc ↦ ?_⟩
  exact hbefore c (Nat.zero_le c) hc

theorem availableChannelInSlot_spec
    (hany : (range numChannels).any (fun channel ↦ (schedule channel slot).isNone) = true) :
    availableChannelInSlot numChannels schedule slot < numChannels ∧
      schedule (availableChannelInSlot numChannels schedule slot) slot = none ∧
      ∀ c < availableChannelInSlot numChannels schedule slot, schedule c slot ≠ none := by
  unfold availableChannelInSlot
  cases hfind : (range numChannels).find? fun channel ↦ (schedule channel slot).isNone with
  | none =>
    rw [find?_eq_none] at hfind
    obtain ⟨channel, hmem, hfree⟩ := any_eq_true.mp hany
    exact absurd hfree (hfind channel hmem)
  | some channel =>
    obtain ⟨hfree, hmem, hbefore⟩ := find?_range_eq_some.mp hfind
    refine ⟨mem_range.mp hmem, by simpa using hfree, fun c hc hnone ↦ ?_⟩
    have hused := hbefore c hc
    rw [hnone] at hused
    cases hused

end Searches

theorem swapSlots_apply (row : ℕ → Option Cell) (s t u : ℕ) :
    swapSlots row s t u = if u = t then row s else if u = s then row t else row u := by
  unfold swapSlots
  by_cases ht : u = t
  · rw [if_pos ht, ht, update_self]
  · rw [if_neg ht, update_of_ne ht]
    by_cases hs : u = s
    · rw [if_pos hs, hs, update_self]
    · rw [if_neg hs, update_of_ne hs]

theorem mirrorRow_exchanged (row : ℕ → Option Cell) (last : ℕ) {k : ℕ} (hk : k ≤ (last + 1) / 2)
    (ht : t ≤ last) :
    (range k).foldl (fun row t ↦ swapSlots row t (last - t)) row t =
      if t < k ∨ last < t + k then row (last - t) else row t := by
  induction k generalizing t with
  | zero => rw [if_neg (by omega)]; rfl
  | succ k ih =>
    have hk' : k ≤ (last + 1) / 2 := by omega
    rw [range_succ, foldl_append, foldl_cons, foldl_nil, swapSlots_apply]
    by_cases hright : t = last - k
    · rw [if_pos hright, ih hk' (by omega), if_neg (by omega), if_pos (by omega), hright]
      congr 1
      omega
    · rw [if_neg hright]
      by_cases hleft : t = k
      · rw [if_pos hleft, ih hk' (by omega), if_neg (by omega), if_pos (by omega), hleft]
      · rw [if_neg hleft, ih hk' ht]
        by_cases houter : t < k ∨ last < t + k
        · rw [if_pos houter, if_pos (by omega)]
        · rw [if_neg houter, if_neg (by omega)]

theorem mirrorRow_apply (row : ℕ → Option Cell) (ht : t ≤ last) :
    mirrorRow last row t = row (last - t) := by
  unfold mirrorRow
  rw [mirrorRow_exchanged row last le_rfl ht]
  by_cases houter : t < (last + 1) / 2 ∨ last < t + (last + 1) / 2
  · rw [if_pos houter]
  · -- the middle entry stays where it is
    rw [if_neg houter]
    congr 1
    omega

def placedSlot (args : CreateArgs) (last t : ℕ) : ℕ :=
  match args.algorithm with
  | .rLpf => last - t
  | _ => t

theorem placedSlot_le (args : CreateArgs) (ht : t ≤ last) : placedSlot args last t ≤ last := by
  unfold placedSlot
  cases args.algorithm <;> first | exact Nat.sub_le _ _ | exact ht

theorem placedSlot_placedSlot (args : CreateArgs) (ht : t ≤ last) :
    placedSlot args last (placedSlot args last t) = t := by
  unfold placedSlot
  cases args.algorithm <;> first | exact Nat.sub_sub_self ht | rfl

theorem cutSchedule_apply (args : CreateArgs) (schedule : Grid Cell) (ht : t ≤ last) (channel : ℕ) :
    cutSchedule args last schedule channel t = schedule channel (placedSlot args last t) := by
  unfold cutSchedule placedSlot
  rw [if_pos ht]
  cases args.algorithm <;> first | rfl | exact mirrorRow_apply _ ht

theorem cutSchedule_of_lt (args : CreateArgs) (schedule : Grid Cell) (ht : last < t) (channel : ℕ) :
    cutSchedule args last schedule channel t = none :=
  if_neg (not_le.mpr ht)

theorem finalise_spec {x : Placed} (hcall : finalise args x = .ok s) :
    x.placement.infeasibleFlows = [] ∧ keptLastTimeslot args x.placement < x.length ∧
      s.flows = x.flows ∧ s.numChannels = args.numChannels ∧
      s.length = keptLastTimeslot args x.placement + 1 ∧
      s.schedule = cutSchedule args (keptLastTimeslot args x.placement) x.placement.schedule ∧
      s.attributes = setScheduleAttributes args.numChannels s.length s.schedule ∧
      s.availableSlotMatrix = availableSlotMatrix args.numCoojaNodes s.length s.schedule := by
  unfold finalise at hcall
  dsimp only at hcall
  split at hcall
  · cases hcall
  rename_i hlength
  split at hcall
  · cases hcall
  · rename_i hfeasible
    cases hcall
    exact ⟨not_not.mp hfeasible, by omega, rfl, rfl, rfl, rfl, rfl, rfl⟩

theorem placeCells_of_create (hcreate : create args fuel flows = .ok s) :
    ∃ x, placeCells args fuel flows = .ok x ∧ finalise args x = .ok s :=
  bind_eq_ok hcreate

theorem placeCells_spec {x : Placed} (hcall : placeCells args fuel flows = .ok x) :
    ∃ ready, initFlows args flows = .ok ready ∧ x.flows = orderFlows args.algorithm ready ∧
      x.length = gridLength args flows ∧ 0 < args.numChannels ∧
      placeOrdered args x.length fuel x.flows = .ok x.placement := by
  obtain ⟨ready, hready, hrest⟩ := bind_eq_ok hcall
  dsimp only at hrest
  split at hrest
  · cases hrest
  · rename_i hchannels
    obtain ⟨placement, hplacement, hdone⟩ := bind_eq_ok hrest
    cases hdone
    exact ⟨ready, hready, rfl, rfl, Nat.pos_of_ne_zero hchannels, hplacement⟩

end ContikiMaster.Scheduler
