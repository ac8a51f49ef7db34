import ContikiMaster.Scheduler.Cells
import ContikiMaster.Scheduler.ConflictFree

/-!
# Room in the grid

The length of the grid comes from the lengths of the paths. As long as every flow, from the
timeslot at which its search starts, has room for its own cells and those placed before
them, R-LPF does not run past the end and EDF and RMS find a slot for every cell.
-/

namespace ContikiMaster.Scheduler

open Lib Function List Option

/-- Room for the cells of a flow whose search starts at a timeslot, after those placed before. -/
def HasRoom (length start placed : ℕ) (flow : Flow) : Prop :=
  flow.cells ≠ [] → start + placed + flow.cells.length ≤ length

/-- Room for the cells of flows in EDF and RMS, which search from the release time on. -/
def FitsInOrder (length : ℕ) : ℕ → List Flow → Prop
  | _, [] => True
  | placed, flow :: flows =>
    HasRoom length flow.releaseTime placed flow ∧
      FitsInOrder length (placed + flow.cells.length) flows

/-- Room for the cells of flows in R-LPF, which searches from the current index on: the sum of the
periods of the flows of the same number right before. -/
def FitsRLpf (length : ℕ) : Option ℕ → ℕ → ℕ → List Flow → Prop
  | _, _, _, [] => True
  | currentFlowNumber, currentIdx, placed, flow :: flows =>
    let start := if currentFlowNumber = some flow.flowNumber then currentIdx else 0
    HasRoom length start placed flow ∧
      FitsRLpf length (some flow.flowNumber) (start + flow.period) (placed + flow.cells.length)
        flows

/-- Room for all cells, in the order in which an algorithm places the flows. -/
def RoomForCells (args : CreateArgs) (length : ℕ) (ordered : List Flow) : Prop :=
  match args.algorithm with
  | .rLpf => FitsRLpf length none 0 0 ordered
  | _ => FitsInOrder length 0 ordered

/-! ## The searches -/

/-- The timeslots of a grid that are busy on the first channel. -/
def busyFirst (schedule : Grid Cell) (t : ℕ) : Bool := (schedule 0 t).isSome

section Searches

variable {length numChannels start placed releaseTime channel slot : ℕ} {schedule : Grid Cell}
  {cell : Cell}

theorem busyFirst_write {t : ℕ} (hbusy : busyFirst (schedule.write channel slot cell) t = true) :
    busyFirst schedule t = true ∨ t = slot := by
  unfold busyFirst at hbusy ⊢
  rw [Grid.write_apply] at hbusy
  split at hbusy
  · rename_i hboth
    exact .inr hboth.2
  · exact .inl hbusy

theorem busyFirst_write_of_busy {t : ℕ} (hbusy : busyFirst schedule t = true) :
    busyFirst (schedule.write channel slot cell) t = true := by
  unfold busyFirst at hbusy ⊢
  rw [Grid.write_apply]
  split
  · rfl
  · exact hbusy

theorem busyFirst_write_self (hbefore : ∀ c < channel, schedule c slot ≠ none) :
    busyFirst (schedule.write channel slot cell) slot = true := by
  unfold busyFirst
  rw [Grid.write_apply]
  split
  · rfl
  · rename_i hchannel
    have hpos : 0 < channel := by
      by_contra hzero
      exact hchannel ⟨by omega, rfl⟩
    exact isSome_iff_ne_none.mpr (hbefore 0 hpos)

theorem card_busyFirst_write_le (hcount : (busySlots length (busyFirst schedule)).card ≤ placed) :
    (busySlots length (busyFirst (schedule.write channel slot cell))).card ≤ placed + 1 :=
  (card_busySlots_succ_le fun _ hbusy ↦ busyFirst_write hbusy).trans (Nat.succ_le_succ hcount)

/-- What the searches of a flow know: few slots are busy, and they have come past busy ones only. -/
structure Filled (length start placed releaseTime : ℕ) (schedule : Grid Cell) : Prop where
  count : (busySlots length (busyFirst schedule)).card ≤ placed
  before : ∀ t, start ≤ t → t < releaseTime → busyFirst schedule t = true

theorem findChannel_of_free {timeslot : ℕ} (hchannels : 0 < numChannels)
    (hfree : busyFirst schedule timeslot = false) (hrelease : releaseTime ≤ timeslot) :
    findChannel schedule cell releaseTime timeslot (range numChannels) = some (0, timeslot) := by
  obtain ⟨n, rfl⟩ := Nat.exists_eq_succ_of_ne_zero hchannels.ne'
  rw [range_eq_range', range'_succ]
  unfold busyFirst at hfree
  rw [isSome_eq_false_iff, isNone_iff_eq_none] at hfree
  unfold findChannel
  rw [hfree]
  exact if_pos hrelease

theorem Filled.find (hfilled : Filled length start placed releaseTime schedule)
    (hroom : start + placed < length) (hchannels : 0 < numChannels) :
    findSchedulableSlot length numChannels schedule cell releaseTime ≠ none := by
  obtain ⟨t, hstart, hlt, hfree⟩ := exists_free_slot hfilled.count hroom
  have hrelease : releaseTime ≤ t := by
    by_contra hearly
    have hbusy := hfilled.before t hstart (not_le.mp hearly)
    rw [hfree] at hbusy
    cases hbusy
  intro hnone
  have hchannel := findSome?_eq_none_iff.mp hnone t (mem_range.mpr hlt)
  rw [findChannel_of_free hchannels hfree hrelease] at hchannel
  cases hchannel

theorem busyFirst_of_passed (hchannels : 0 < numChannels)
    (hfind : findSchedulableSlot length numChannels schedule cell releaseTime =
      some (channel, slot)) {t : ℕ} (hrelease : releaseTime ≤ t) (hlt : t < slot) :
    busyFirst schedule t = true := by
  by_contra hfree
  rw [Bool.not_eq_true] at hfree
  obtain ⟨passed, timeslot, rest, hsplit, hchannel, hpassed⟩ := findSome?_eq_some_iff.mp hfind
  have hslot : slot = timeslot := by
    rw [range_eq_range'] at hchannel
    exact (findChannel_range' hchannel).1
  have hcount : passed.length < length := by
    have hlength := congrArg List.length hsplit
    rw [length_range, length_append, length_cons] at hlength
    omega
  have htimeslot : passed.length = timeslot := by
    have hget := congrArg (fun l ↦ l[passed.length]?) hsplit
    rw [getElem?_range hcount, getElem?_append_right le_rfl, Nat.sub_self] at hget
    exact some.inj hget
  have hmem : t ∈ passed := by
    have htake := congrArg (take passed.length) hsplit
    rw [take_left, take_range, min_eq_left hcount.le] at htake
    rw [← htake, mem_range]
    omega
  have hnone := hpassed t hmem
  rw [findChannel_of_free hchannels hfree hrelease] at hnone
  cases hnone

theorem Filled.write (hfilled : Filled length start placed releaseTime schedule)
    (hchannels : 0 < numChannels)
    (hfind : findSchedulableSlot length numChannels schedule cell releaseTime =
      some (channel, slot)) :
    Filled length start (placed + 1) (slot + 1) (schedule.write channel slot cell) := by
  constructor
  · exact card_busyFirst_write_le hfilled.count
  · intro t hstart hlt
    rcases Nat.lt_succ_iff_lt_or_eq.mp hlt with hbefore | rfl
    · apply busyFirst_write_of_busy
      by_cases hrelease : releaseTime ≤ t
      · exact busyFirst_of_passed hchannels hfind hrelease hbefore
      · exact hfilled.before t hstart (not_le.mp hrelease)
    · apply busyFirst_write_self
      intro c hc
      obtain ⟨other, hother, -⟩ := (findSchedulableSlot_spec hfind).2.2.2.2 c hc
      rw [hother]
      exact some_ne_none other

theorem Filled.mono (hfilled : Filled length start placed releaseTime schedule) :
    Filled length start (placed + 1) releaseTime schedule :=
  ⟨hfilled.count.trans (Nat.le_succ placed), hfilled.before⟩

end Searches

section InOrder

variable {args : CreateArgs} {length : ℕ}

theorem inOrderCell_filled {flow : Flow} {start placed : ℕ} {x : ℕ × Placement} {cell : Cell}
    (hchannels : 0 < args.numChannels) (hroom : start + placed < length)
    (hfilled : Filled length start placed x.1 x.2.schedule) :
    inOrderCell args length flow x cell ≠ .error .faultyFlow ∧
      ∀ y, inOrderCell args length flow x cell = .ok y →
        Filled length start (placed + 1) y.1 y.2.schedule := by
  unfold inOrderCell
  cases hfind : findSchedulableSlot length args.numChannels x.2.schedule cell x.1 with
  | none => exact absurd hfind (hfilled.find hroom hchannels)
  | some place =>
    obtain ⟨channel, slot⟩ := place
    dsimp only
    constructor
    · apply bind_ne_error
      · intro hsettle
        cases (settleCell_error hsettle).1
      · exact fun _ _ heq ↦ nomatch heq
    · intro y hcall
      obtain ⟨⟨settled, z⟩, hsettle, hdone⟩ := bind_eq_ok hcall
      cases settleCell_spec hsettle with
      | placed cnmid =>
        cases hdone
        exact hfilled.write hchannels hfind
      | refused cnmid entry =>
        cases hdone
        exact hfilled.mono

theorem inOrderFlow_count {flow : Flow} {placed : ℕ} {x : Placement}
    (hchannels : 0 < args.numChannels) (hroom : HasRoom length flow.releaseTime placed flow)
    (hcount : (busySlots length (busyFirst x.schedule)).card ≤ placed) :
    inOrderFlow args length x flow ≠ .error .faultyFlow ∧
      ∀ y, inOrderFlow args length x flow = .ok y →
        (busySlots length (busyFirst y.schedule)).card ≤ placed + flow.cells.length := by
  let P : ℕ → ℕ × Placement → Prop := fun k y ↦ Filled length flow.releaseTime k y.1 y.2.schedule
  have hfilled : P placed (flow.releaseTime, x) :=
    ⟨hcount, fun t hstart hlt ↦ absurd hlt (not_lt.mpr hstart)⟩
  have hstep : ∀ cell ∈ flow.cells, ∀ (k : ℕ) (y : ℕ × Placement),
      k < placed + flow.cells.length → P k y →
      inOrderCell args length flow y cell ≠ .error .faultyFlow ∧
        ∀ z, inOrderCell args length flow y cell = .ok z → P (k + 1) z := by
    intro cell hmem k y hk hy
    have hfits := hroom (ne_nil_of_mem hmem)
    exact inOrderCell_filled hchannels (by omega) hy
  obtain ⟨hfault, hcells⟩ := foldlM_count hstep hfilled
  unfold inOrderFlow
  constructor
  · exact bind_ne_error hfault fun _ _ heq ↦ nomatch heq
  · intro y hcall
    obtain ⟨⟨releaseTime, z⟩, hloop, hdone⟩ := bind_eq_ok hcall
    cases hdone
    exact (hcells _ hloop).count

theorem inOrder_ne_faulty {flows : List Flow} {placed : ℕ} {x : Placement}
    (hchannels : 0 < args.numChannels) (hfits : FitsInOrder length placed flows)
    (hcount : (busySlots length (busyFirst x.schedule)).card ≤ placed) :
    flows.foldlM (inOrderFlow args length) x ≠ .error .faultyFlow := by
  induction flows generalizing placed x with
  | nil => exact fun heq ↦ nomatch heq
  | cons flow flows ih =>
    obtain ⟨hroom, hrest⟩ := hfits
    obtain ⟨hfault, hnext⟩ := inOrderFlow_count hchannels hroom hcount
    rw [foldlM_cons]
    exact bind_ne_error hfault fun y hy ↦ ih hrest (hnext y hy)

end InOrder

/-! ## R-LPF -/

section RLpf

variable {args : CreateArgs} {length start placed : ℕ}

def NoneNoted (x : Placement) : Prop :=
  ∀ t, busyFirst x.schedule t = false → x.usedNodesInTimeslot t = []

variable (hchannels : 0 < args.numChannels)

include hchannels

theorem schedulableInSlot_of_free {x : Placement} {t : ℕ} {participants : List ℕ}
    (hnoted : NoneNoted x) (hfree : busyFirst x.schedule t = false) :
    schedulableInSlot args.numChannels x t participants = true := by
  have hnone : (x.schedule 0 t).isNone = true := by
    unfold busyFirst at hfree
    rw [Option.isSome_eq_false_iff] at hfree
    exact hfree
  unfold schedulableInSlot
  rw [hnoted t hfree, Bool.and_eq_true, List.any_eq_true]
  exact ⟨⟨0, List.mem_range.mpr hchannels, hnone⟩, rfl⟩

variable {x : ℕ × Placement}

theorem nextInsertIndex_filled (participants : List ℕ) (hroom : start + placed < length)
    (hfilled : Filled length start placed x.1 x.2.schedule)
    (hnoted : NoneNoted x.2) :
    ∃ slot, nextInsertIndex length args.numChannels start x.2 x.1 participants = some slot ∧
      ∀ t, start ≤ t → t < slot → busyFirst x.2.schedule t = true := by
  have hstop : ∀ t, start ≤ t → busyFirst x.2.schedule t = false →
      (decide (x.1 ≤ t) && schedulableInSlot args.numChannels x.2 t participants &&
        decide (start ≤ t)) = true := by
    intro t hstart hfree
    have hinsert : x.1 ≤ t := by
      by_contra hearly
      have hbusy := hfilled.before t hstart (not_le.mp hearly)
      rw [hfree] at hbusy
      cases hbusy
    rw [schedulableInSlot_of_free hchannels hnoted hfree, decide_eq_true hinsert,
      decide_eq_true hstart]
    rfl
  unfold nextInsertIndex
  obtain ⟨t, hstart, hlt, hfree⟩ := exists_free_slot hfilled.count hroom
  cases hfind : (range length).find? fun slot ↦ decide (x.1 ≤ slot) &&
      schedulableInSlot args.numChannels x.2 slot participants && decide (start ≤ slot) with
  | none =>
    have hnone := find?_eq_none.mp hfind t (mem_range.mpr hlt)
    exact absurd (hstop t hstart hfree) hnone
  | some slot =>
    refine ⟨slot, rfl, fun t hstart hlt ↦ ?_⟩
    by_contra hfree
    rw [Bool.not_eq_true] at hfree
    have hpassed := (find?_range_eq_some.mp hfind).2.2 t hlt
    rw [hstop t hstart hfree] at hpassed
    cases hpassed

theorem rLpfCell_filled {checked : Bool} {flow : Flow} {cell : Cell}
    (hroom : start + placed < length) (hfilled : Filled length start placed x.1 x.2.schedule)
    (hnoted : NoneNoted x.2) :
    rLpfCell args length checked start flow x cell ≠ .error .indexError ∧
      ∀ y, rLpfCell args length checked start flow x cell = .ok y →
        Filled length start (placed + 1) y.1 y.2.schedule ∧ NoneNoted y.2 := by
  obtain ⟨slot, hfind, hpassed⟩ :=
    nextInsertIndex_filled hchannels cell.participants hroom hfilled hnoted
  unfold rLpfCell
  rw [hfind]
  dsimp only
  constructor
  · apply bind_ne_error
    · intro hsettle
      cases (settleCell_error hsettle).1
    · exact fun _ _ heq ↦ nomatch heq
  · intro y hcall
    obtain ⟨⟨settled, z⟩, hsettle, hdone⟩ := bind_eq_ok hcall
    cases settleCell_spec hsettle with
    | placed cnmid =>
      cases hdone
      have hfound := find?_some hfind
      simp only [Bool.and_eq_true] at hfound
      have hany := (Bool.and_eq_true_iff.mp hfound.1.2).1
      have hself : busyFirst (x.2.schedule.write
          (availableChannelInSlot args.numChannels x.2.schedule slot) slot cell) slot = true :=
        busyFirst_write_self (availableChannelInSlot_spec hany).2.2
      refine ⟨⟨card_busyFirst_write_le hfilled.count, fun t hstart hlt ↦ ?_⟩, fun t hfree ↦ ?_⟩
      · exact busyFirst_write_of_busy (hpassed t hstart hlt)
      · change busyFirst (x.2.schedule.write _ slot cell) t = false at hfree
        have hne : t ≠ slot := by
          rintro rfl
          rw [hself] at hfree
          cases hfree
        have hbefore : busyFirst x.2.schedule t = false := by
          by_contra hbusy
          rw [Bool.not_eq_false] at hbusy
          rw [busyFirst_write_of_busy hbusy] at hfree
          cases hfree
        change update x.2.usedNodesInTimeslot slot _ t = []
        rw [update_of_ne hne]
        exact hnoted t hbefore
    | refused cnmid entry =>
      cases hdone
      exact ⟨⟨hfilled.count.trans (Nat.le_succ placed), hpassed⟩, hnoted⟩

theorem rLpfFlow_count (checked : Bool) {flow : Flow} {x : RLpfState}
    (hroom : HasRoom length (if x.currentFlowNumber = some flow.flowNumber then x.currentIdx else 0)
      placed flow) (hcount : (busySlots length (busyFirst x.placement.schedule)).card ≤ placed)
    (hnoted : NoneNoted x.placement) : rLpfFlow args length checked x flow ≠ .error .indexError ∧
      ∀ y, rLpfFlow args length checked x flow = .ok y →
        y.currentFlowNumber = some flow.flowNumber ∧
        y.currentIdx = (if x.currentFlowNumber = some flow.flowNumber then x.currentIdx else 0) +
          flow.period ∧
        (busySlots length (busyFirst y.placement.schedule)).card ≤ placed + flow.cells.length ∧
        NoneNoted y.placement := by
  unfold rLpfFlow
  extract_lets start
  change HasRoom length start placed flow at hroom
  let P : ℕ → ℕ × Placement → Prop := fun k y ↦
    Filled length start k y.1 y.2.schedule ∧ NoneNoted y.2
  have hfilled : P placed (0, x.placement) :=
    ⟨⟨hcount, fun t _ hlt ↦ absurd hlt (Nat.not_lt_zero t)⟩, hnoted⟩
  have hstep : ∀ cell ∈ flow.cells.reverse, ∀ (k : ℕ) (y : ℕ × Placement),
      k < placed + flow.cells.reverse.length → P k y →
      rLpfCell args length checked start flow y cell ≠ .error .indexError ∧
        ∀ z, rLpfCell args length checked start flow y cell = .ok z → P (k + 1) z := by
    intro cell hmem k y hk hy
    rw [length_reverse] at hk
    have hfits := hroom (ne_nil_of_mem (mem_reverse.mp hmem))
    exact rLpfCell_filled hchannels (by omega) hy.1 hy.2
  obtain ⟨hfault, hcells⟩ := foldlM_count hstep hfilled
  constructor
  · exact bind_ne_error hfault fun _ _ heq ↦ nomatch heq
  · intro y hcall
    obtain ⟨⟨insertAtIndex, z⟩, hloop, hdone⟩ := bind_eq_ok hcall
    cases hdone
    obtain ⟨hlast, hlastNoted⟩ := hcells _ hloop
    rw [length_reverse] at hlast
    exact ⟨rfl, rfl, hlast.count, hlastNoted⟩

theorem rLpf_ne_indexError (checked : Bool) {flows : List Flow} {x : RLpfState}
    (hfits : FitsRLpf length x.currentFlowNumber x.currentIdx placed flows)
    (hcount : (busySlots length (busyFirst x.placement.schedule)).card ≤ placed)
    (hnoted : NoneNoted x.placement) :
    flows.foldlM (rLpfFlow args length checked) x ≠ .error .indexError := by
  induction flows generalizing placed x with
  | nil => exact fun heq ↦ nomatch heq
  | cons flow flows ih =>
    obtain ⟨hroom, hrest⟩ := hfits
    obtain ⟨hfault, hnext⟩ := rLpfFlow_count hchannels checked hroom hcount hnoted
    rw [foldlM_cons]
    apply bind_ne_error hfault
    intro y hy
    obtain ⟨hnumber, hidx, hmore, hstill⟩ := hnext y hy
    rw [← hidx, ← hnumber] at hrest
    exact ih hrest hmore hstill

end RLpf

/-- R-LPF stays inside the grid, and EDF and RMS find a slot for every cell. -/
def SearchesSucceed (args : CreateArgs) (length fuel : ℕ) (ordered : List Flow) : Prop :=
  match args.algorithm with
  | .rLpf => placeOrdered args length fuel ordered ≠ .error .indexError
  | .edf | .rms => placeOrdered args length fuel ordered ≠ .error .faultyFlow
  | .cLlf => True

theorem busySlots_empty (length : ℕ) :
    (busySlots length (busyFirst Placement.empty.schedule)).card = 0 := by
  rw [Finset.card_eq_zero, Finset.eq_empty_iff_forall_notMem]
  intro t ht
  cases (mem_busySlots.mp ht).2

section Placement

variable {args : CreateArgs} {length fuel : ℕ} {ordered : List Flow}

theorem placeInOrder_ne_faulty (hchannels : 0 < args.numChannels)
    (hfits : FitsInOrder length 0 ordered) :
    (if allDeadlines ordered then placeInOrder args length ordered else .error .deadlinesNeeded) ≠
      .error .faultyFlow := by
  split
  · exact inOrder_ne_faulty hchannels hfits (busySlots_empty length).le
  · exact fun heq ↦ nomatch heq

theorem searchesSucceed_of_roomForCells (hchannels : 0 < args.numChannels)
    (hroom : RoomForCells args length ordered) : SearchesSucceed args length fuel ordered := by
  unfold SearchesSucceed
  unfold RoomForCells at hroom
  unfold placeOrdered
  cases halgorithm : args.algorithm with
  | rLpf =>
    simp only [halgorithm] at hroom ⊢
    have hnoted : NoneNoted Placement.empty := fun t _ ↦ rfl
    have hloop := rLpf_ne_indexError (x := ⟨none, 0, Placement.empty⟩) hchannels
      (allDeadlines ordered) hroom (busySlots_empty length).le hnoted
    exact bind_ne_error hloop fun _ _ heq ↦ nomatch heq
  | edf =>
    simp only [halgorithm] at hroom ⊢
    exact placeInOrder_ne_faulty hchannels hroom
  | rms =>
    simp only [halgorithm] at hroom ⊢
    exact placeInOrder_ne_faulty hchannels hroom
  | cLlf => exact trivial

end Placement

def numCells (flows : List Flow) : ℕ := (flows.map fun flow ↦ flow.cells.length).sum

variable {flows : List Flow}

theorem fitsInOrder_of_numCells_le {length placed : ℕ}
    (hroom : ∀ flow ∈ flows, flow.releaseTime + placed + numCells flows ≤ length) :
    FitsInOrder length placed flows := by
  induction flows generalizing placed with
  | nil => exact trivial
  | cons flow flows ih =>
    have hsum : numCells (flow :: flows) = flow.cells.length + numCells flows := sum_cons
    rw [hsum] at hroom
    constructor
    · intro _
      have hfirst := hroom flow mem_cons_self
      omega
    · apply ih
      intro other hother
      have hlater := hroom other (mem_cons_of_mem flow hother)
      omega

theorem adjustReleaseTime_le_self (cycle releaseTime : ℕ) :
    adjustReleaseTime cycle releaseTime ≤ releaseTime := by
  unfold adjustReleaseTime
  split
  · exact Nat.mod_le _ _
  · exact le_rfl

theorem fitsInOrder_of_cells {args : CreateArgs} {ready : List Flow}
    (hready : initFlows args flows = .ok ready) (hcells : numCells ready ≤
      (flows.map fun flow ↦ flow.path.length).sum * args.shortestRepeatingCycle) :
    FitsInOrder (gridLength args flows) 0 (orderFlows args.algorithm ready) := by
  have hperm := orderFlows_perm args.algorithm ready
  have htotal : numCells (orderFlows args.algorithm ready) = numCells ready := by
    unfold numCells
    exact (hperm.map _).sum_eq
  apply fitsInOrder_of_numCells_le
  intro flow hflow
  obtain ⟨given, hgiven, id, hinit⟩ := exists_initialised_of_mem hready (hperm.mem_iff.mp hflow)
  have hrelease : flow.releaseTime ≤ given.releaseTime := by
    rw [hinit.releaseTime]
    exact adjustReleaseTime_le_self _ _
  have hmax : given.releaseTime ≤ (flows.map Flow.releaseTime).foldl max 0 :=
    (max?_eq_some_iff.mp max?_cons').2 _
      (mem_cons_of_mem 0 (mem_map_of_mem hgiven))
  rw [htotal]
  unfold gridLength
  omega

/-- A hyper-period of 1, and windows of a fixed size on one channel. -/
def windowArgs (algorithm : SchedulingAlgorithm) (fixedWindowSize : ℕ) : CreateArgs :=
  { plainArgs algorithm with
    numChannels := 1
    strategy := .slidingWindow
    fixedWindowSize := fixedWindowSize }

/-- The searches of `Schedule.create` for given flows. -/
def PlacementSucceeds (args : CreateArgs) (flows : List Flow) : Prop :=
  ∀ ready, initFlows args flows = .ok ready → ∀ fuel,
    SearchesSucceed args (gridLength args flows) fuel (orderFlows args.algorithm ready)

/-- With room for the cells of every flow, the length of the grid suffices. -/
theorem placementSucceeds_of_room {args : CreateArgs} {flows : List Flow}
    (hchannels : 0 < args.numChannels)
    (hroom : ∀ ready, initFlows args flows = .ok ready →
      RoomForCells args (gridLength args flows) (orderFlows args.algorithm ready)) :
    PlacementSucceeds args flows :=
  fun ready hready _ ↦ searchesSucceed_of_roomForCells hchannels (hroom ready hready)

theorem placementSucceeds_of_three : PlacementSucceeds (windowArgs .edf 2)
    [pathFlow 1 1 3 [2], pathFlow 2 3 4 [], pathFlow 3 4 1 [5, 2]] := by
  refine placementSucceeds_of_room Nat.one_pos fun ready hready ↦ fitsInOrder_of_cells hready ?_
  have hcells : ((initFlows (windowArgs .edf 2)
      [pathFlow 1 1 3 [2], pathFlow 2 3 4 [], pathFlow 3 4 1 [5, 2]]).toOption.all fun ready ↦
        decide (numCells ready ≤ 9)) = true := by decide +kernel
  rw [hready] at hcells
  exact of_decide_eq_true hcells

def raises {α : Type} (fault : SchedulerError) (call : Except SchedulerError α) : Bool :=
  match call with
  | .error other => decide (other = fault)
  | .ok _ => false

theorem eq_error_of_raises {α : Type} {fault : SchedulerError} {call : Except SchedulerError α}
    (hraises : raises fault call = true) : call = .error fault := by
  cases call with
  | error other => exact congrArg Except.error (of_decide_eq_true hraises)
  | ok value => cases hraises

theorem not_placementSucceeds {args : CreateArgs}
    (hraises : ((initFlows args flows).toOption.any fun ready ↦
      match args.algorithm with
      | .rLpf => raises .indexError
        (placeOrdered args (gridLength args flows) 0 (orderFlows args.algorithm ready))
      | .edf | .rms => raises .faultyFlow
        (placeOrdered args (gridLength args flows) 0 (orderFlows args.algorithm ready))
      | .cLlf => false) = true) : ¬ PlacementSucceeds args flows := by
  intro hsucceeds
  obtain ⟨ready, hready, hfails⟩ := (any_eq_true _ _).mp hraises
  have hsearches := hsucceeds ready (toOption_eq_some hready) 0
  unfold SearchesSucceed at hsearches
  cases halgorithm : args.algorithm <;> simp only [halgorithm] at hsearches hfails
  · exact hsearches (eq_error_of_raises hfails)
  · exact hsearches (eq_error_of_raises hfails)
  · exact hsearches (eq_error_of_raises hfails)
  · cases hfails

/-- Windows of ten cells make nine cells for a hop: the third does not fit. -/
theorem not_placementSucceeds_of_ten :
    ¬ PlacementSucceeds (windowArgs .edf 10) [pathFlow 1 1 2 []] ∧
      ¬ PlacementSucceeds (windowArgs .rms 10) [pathFlow 1 1 2 []] ∧
      ¬ PlacementSucceeds (windowArgs .rLpf 10) [pathFlow 1 1 2 []] := by
  refine ⟨not_placementSucceeds ?_, not_placementSucceeds ?_, not_placementSucceeds ?_⟩
  · decide +kernel
  · decide +kernel
  · decide +kernel

end ContikiMaster.Scheduler
