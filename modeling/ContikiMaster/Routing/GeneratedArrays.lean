import ContikiMaster.Routing.Generate
import ContikiMaster.Routing.InstalledFlows
import ContikiMaster.Routing.Send

/-!
# The arrays of a generated schedule

The firmware has arrays of `MASTER_NUM_FLOWS` (or one more) entries and rows of `MAX_TX_SIZE`
windows. The discovery slotframe needs an entry after that of the last flow, and a sender computes
the number of its windows again, as the size of its slotframe over the period.
-/

namespace ContikiMaster.Routing

open Sys Tsch Lib Scheduler List Option

/-- An access to an array of `master-routing.c`, with its indices. -/
inductive ArrayAccess
  | sf (i : ℤ)
  | receiverOfFlow (i : ℤ)
  | senderOfFlow (i : ℤ)
  | maxTransmissions (i : ℤ)
  | firstTxSlotInFlow (flow index : ℤ)
  | lastTxSlotInFlow (flow index : ℤ)
  deriving DecidableEq

/-- The indices are inside the array, as it is declared for `MASTER_NUM_FLOWS` and
`MAX_TX_SIZE`. -/
def ArrayAccess.InRange (numFlows maxTxSize : ℕ) : ArrayAccess → Prop
  | .sf i | .receiverOfFlow i | .senderOfFlow i => 0 ≤ i ∧ i < numFlows + 1
  | .maxTransmissions i => 0 ≤ i ∧ i < numFlows
  | .firstTxSlotInFlow flow index | .lastTxSlotInFlow flow index =>
    (0 ≤ flow ∧ flow < numFlows) ∧ 0 ≤ index ∧ index < maxTxSize

/-- An access to a window is to one that the file sets for the flow. -/
def ArrayAccess.Written (schedule : GeneratedSchedule) (flowNumber : ℕ) : ArrayAccess → Prop
  | .firstTxSlotInFlow flow index | .lastTxSlotInFlow flow index =>
    flow = (flowNumber : ℤ) - 1 ∧
      ∃ window ∈ schedule.txWindows, flow = window.flowIndex ∧ index = window.index
  | _ => True

/-- The accesses of the generated `generated_schedule` on a node. -/
def generatedAccesses (file : GeneratedFile) (nodeId : ℕ) : List ArrayAccess :=
  (file.schedule.flows.flatMap fun flow ↦
    [.sf flow.flowNumber, .senderOfFlow flow.flowNumber, .receiverOfFlow flow.flowNumber]) ++
  (file.schedule.txWindows.flatMap fun window ↦
    [.firstTxSlotInFlow window.flowIndex window.index,
      .lastTxSlotInFlow window.flowIndex window.index]) ++
  ((file.maxTransmissions nodeId).map fun flowNumber : ℕ ↦ .maxTransmissions ((flowNumber : ℤ) - 1)) ++
  file.schedule.beaconSlot.toList.map fun _ ↦ .sf 1

/-- The accesses of `install_discovery_schedule`. -/
def discoveryAccesses (n : Node) : List ArrayAccess := [.sf ((n.maxSlotFrameUsed : ℤ) + 1)]

/-- The indices that the loop of `master_routing_send` looks at. -/
def scannedIndices (firstTxSlot : ℕ → ℕ) (count currentSfSlot : ℕ) : List ℕ :=
  if firstTxSlot (count - 1) < currentSfSlot then []
  else (range count).take (firstNextIdx firstTxSlot count currentSfSlot + 1)

/-- The windows that `master_routing_send` reads: the last one, those of the loop, and the one the
loop ends with. -/
def windowAccesses (flow : ℤ) (firstTxSlot : ℕ → ℕ) (count currentSfSlot : ℕ) : List ArrayAccess :=
  let idx := firstNextIdx firstTxSlot count currentSfSlot
  .firstTxSlotInFlow flow ((count : ℤ) - 1) ::
    .firstTxSlotInFlow flow idx :: .lastTxSlotInFlow flow idx ::
      (scannedIndices firstTxSlot count currentSfSlot).map fun index : ℕ ↦ .firstTxSlotInFlow flow index

/-- The accesses of `master_routing_send`: the windows, and the sender for its message. Without a
slotframe there are none. -/
def sendAccesses (n : Node) : List ArrayAccess :=
  if n.ownTransmissionFlow = 0 then []
  else match tschScheduleGetSlotframeByHandle n.mac n.ownTransmissionFlow with
  | none => []
  | some sf =>
    .senderOfFlow n.ownTransmissionFlow ::
      windowAccesses ((n.ownTransmissionFlow : ℤ) - 1)
        (n.firstTxSlotInFlow (n.ownTransmissionFlow - 1))
        ((n.mac.slotframe sf).size / n.scheduleLength)
        (n.mac.tschCurrentAsn.mod n.mac.intWidth (n.mac.slotframe sf).size)

section Windows

variable {first first' last last' : ℕ → ℕ} {count slot : ℕ}

theorem firstNextIdx_lt (hcount : 0 < count) : firstNextIdx first count slot < count := by
  unfold firstNextIdx
  split
  · exact hcount
  · cases hfound : (range count).find? fun index ↦ decide (slot ≤ first index) with
    | none => exact hcount
    | some k =>
      rw [find?_range_eq_some] at hfound
      exact mem_range.mp hfound.2.1

theorem mem_scannedIndices_lt {index : ℕ} (hindex : index ∈ scannedIndices first count slot) :
    index < count := by
  unfold scannedIndices at hindex
  split at hindex
  · cases hindex
  · exact mem_range.mp (mem_of_mem_take hindex)

theorem mem_windowAccesses {flow : ℤ} {access : ArrayAccess} (hcount : 0 < count)
    (haccess : access ∈ windowAccesses flow first count slot) : ∃ index : ℕ, index < count ∧
      (access = .firstTxSlotInFlow flow index ∨ access = .lastTxSlotInFlow flow index) := by
  unfold windowAccesses at haccess
  simp only [List.mem_cons, List.mem_map] at haccess
  rcases haccess with rfl | rfl | rfl | ⟨index, hindex, rfl⟩
  · exact ⟨count - 1, by omega, .inl (by rw [Nat.cast_sub hcount]; rfl)⟩
  · exact ⟨_, firstNextIdx_lt hcount, .inl rfl⟩
  · exact ⟨_, firstNextIdx_lt hcount, .inr rfl⟩
  · exact ⟨index, mem_scannedIndices_lt hindex, .inl rfl⟩

end Windows

/-- A state in which a node sends with the flow, the period and the size of the slotframe it has in
another; the time, for one, has gone on. -/
structure SendsLike (n m : Node) : Prop where
  own : m.ownTransmissionFlow = n.ownTransmissionFlow
  scheduleLength : m.scheduleLength = n.scheduleLength
  size : slotframeSize m.mac n.ownTransmissionFlow = slotframeSize n.mac n.ownTransmissionFlow

variable {n : Node}

theorem sendAccesses_of_none (hsize : slotframeSize n.mac n.ownTransmissionFlow = none) :
    sendAccesses n = [] := by
  unfold sendAccesses
  rw [map_eq_none_iff.mp hsize]
  exact ite_self []

theorem sendAccesses_of_some {size : ℕ} (hown : n.ownTransmissionFlow ≠ 0)
    (hsize : slotframeSize n.mac n.ownTransmissionFlow = some size) :
    ∃ first slot, sendAccesses n = .senderOfFlow n.ownTransmissionFlow ::
      windowAccesses ((n.ownTransmissionFlow : ℤ) - 1) first (size / n.scheduleLength) slot := by
  obtain ⟨sf, hfound, rfl⟩ := map_eq_some_iff.mp hsize
  unfold sendAccesses
  rw [if_neg hown, hfound]
  exact ⟨_, _, rfl⟩

/-! ## What the generator writes -/

section Generator

theorem le_foldl_max {values : List ℕ} {first value : ℕ} (hvalue : value ≤ first ∨ value ∈ values) :
    value ≤ values.foldl max first := by
  induction values generalizing first with
  | nil => exact hvalue.resolve_right not_mem_nil
  | cons head values ih =>
    rw [foldl_cons]
    apply ih
    rcases hvalue with hle | hmem
    · exact .inl (hle.trans (le_max_left _ _))
    · rcases mem_cons.mp hmem with rfl | hmem
      · exact .inl (le_max_right _ _)
      · exact .inr hmem

variable {args : GenerateArgs} {s : Schedule} {file : GeneratedFile}

variable {flow : Flow}

theorem mem_sortByFlowNumber {flows : List Flow} : flow ∈ sortByFlowNumber flows ↔ flow ∈ flows :=
  (perm_insertionSort _ flows).mem_iff

/-- The flows that were kept: given ones, one for each number. -/
structure OneOfEach (flows kept : List Flow) : Prop where
  given : ∀ flow ∈ kept, flow ∈ flows
  covered : ∀ flow ∈ flows, ∃ other ∈ kept, other.flowNumber = flow.flowNumber
  distinct : (kept.map Flow.flowNumber).Nodup

theorem OneOfEach.step {flows kept : List Flow} (hkept : OneOfEach flows kept) (flow : Flow) :
    OneOfEach (flows ++ [flow])
      (if kept.any fun other ↦ other.flowNumber == flow.flowNumber then kept
        else kept ++ [flow]) := by
  split
  · rename_i hany
    obtain ⟨same, hsame, hnumber⟩ := any_eq_true.mp hany
    refine ⟨fun other hother ↦ mem_append_left _ (hkept.given other hother),
      fun other hother ↦ ?_, hkept.distinct⟩
    rcases mem_append.mp hother with hold | hnew
    · exact hkept.covered other hold
    · rw [mem_singleton.mp hnew]
      exact ⟨same, hsame, beq_iff_eq.mp hnumber⟩
  · rename_i hany
    refine ⟨fun other hother ↦ ?_, fun other hother ↦ ?_, ?_⟩
    · exact (mem_append.mp hother).elim
        (fun hold ↦ mem_append_left _ (hkept.given other hold)) (mem_append_right _)
    · rcases mem_append.mp hother with hold | hnew
      · obtain ⟨same, hsame, hnumber⟩ := hkept.covered other hold
        exact ⟨same, mem_append_left _ hsame, hnumber⟩
      · exact ⟨other, mem_append_right _ hnew, rfl⟩
    · rw [map_append, map_singleton]
      apply hkept.distinct.append (nodup_singleton _)
      rw [disjoint_singleton]
      intro hmem
      obtain ⟨other, hother, hnumber⟩ := mem_map.mp hmem
      exact hany (any_eq_true.mpr ⟨other, hother, beq_iff_eq.mpr hnumber⟩)

theorem oneOfEach_firstOfEachNumber (flows : List Flow) :
    OneOfEach flows (firstOfEachNumber flows) := by
  have hloop : ∀ sorted : List Flow, OneOfEach sorted (sorted.foldl (fun kept flow ↦
      if kept.any fun other ↦ other.flowNumber == flow.flowNumber then kept
      else kept ++ [flow]) []) := by
    intro sorted
    induction sorted using reverseRecOn with
    | nil =>
      refine ⟨fun flow hflow ↦ ?_, fun flow hflow ↦ ?_, nodup_nil⟩
      · cases hflow
      · cases hflow
    | append_singleton sorted flow ih =>
      rw [foldl_append]
      exact ih.step flow
  have hsorted := hloop (sortByFlowNumber flows)
  exact ⟨fun flow hflow ↦ mem_sortByFlowNumber.mp (hsorted.given flow hflow),
    fun flow hflow ↦ hsorted.covered flow (mem_sortByFlowNumber.mpr hflow), hsorted.distinct⟩

/-- The number of flows with a number, which are the sub-flows of one flow. -/
def subFlowCount (s : Schedule) (flowNumber : ℕ) : ℕ :=
  s.flows.countP fun flow ↦ flow.flowNumber == flowNumber

theorem length_subFlowsOf (s : Schedule) (flowNumber : ℕ) :
    (subFlowsOf s flowNumber).length = subFlowCount s flowNumber := by
  unfold subFlowsOf subFlowCount
  rw [length_insertionSort, ← countP_eq_length_filter]
  exact (perm_insertionSort _ s.flows).countP_eq _

theorem mem_txWindowsOf {i j : ℕ} :
    (∃ window ∈ txWindowsOf s flow, window.flowIndex = i ∧ window.index = j) ↔
      i = flow.flowNumber - 1 ∧ j < subFlowCount s flow.flowNumber := by
  unfold txWindowsOf
  rw [← length_subFlowsOf]
  constructor
  · rintro ⟨window, hwindow, rfl, rfl⟩
    obtain ⟨⟨subFlow, index⟩, hindex, rfl⟩ := mem_map.mp hwindow
    exact ⟨rfl, by simpa using snd_lt_of_mem_zipIdx hindex⟩
  · rintro ⟨rfl, hj⟩
    refine ⟨_, mem_map_of_mem (mk_mem_zipIdx_iff_getElem?.mpr
      (getElem?_eq_getElem hj)), rfl, rfl⟩

theorem generate_spec (hgenerate : generate args s = .ok file) :
    (∀ nodeId ∈ args.nodeIds, ∃ part, generateNodePart args s nodeId = .ok part) ∧
      file.schedule.flows = (firstOfEachNumber s.flows).map (fun flow ↦
        ⟨flow.flowNumber, flow.source, flow.destination⟩) ∧
      file.schedule.txWindows = (firstOfEachNumber s.flows).flatMap (txWindowsOf s) ∧
      file.schedule.nodePart = (fun nodeId ↦ (nodePartOf args s nodeId).1) ∧
      file.schedule.scheduleLength = slotframeLength args s ∧
      file.schedule.maxSlotFrameUsed = maxSlotUsed s.flows ∧
      file.maxTransmissions = (fun nodeId ↦ (nodePartOf args s nodeId).2) ∧
      file.macros.maxTxSize = ((firstOfEachNumber s.flows).map fun flow ↦
        (subFlowsOf s flow.flowNumber).length).foldl max 0 := by
  unfold generate at hgenerate
  split at hgenerate
  · cases hgenerate
  split at hgenerate
  · cases hgenerate
  obtain ⟨parts, hparts, hdone⟩ := bind_eq_ok hgenerate
  cases hdone
  refine ⟨fun nodeId hnode ↦ ?_, rfl, rfl, rfl, rfl, rfl, rfl, rfl⟩
  obtain ⟨part, -, hpart⟩ := forall₂_exists_right (mapM_forall₂ hparts) hnode
  exact ⟨part, hpart⟩

/-- The flow a node is told to send: its first one, if the node has a cell. -/
def sendingFlow (args : GenerateArgs) (s : Schedule) (nodeId : ℕ) : Option Flow :=
  if getNodeSchedule args s nodeId = [] then none else getFlowFromSender s nodeId

def periodOf (s : Schedule) (flow : Flow) : ℕ :=
  ((getFlowFromId s flow.flowNumber).getD flow).period

theorem nodePartOf_own (hgenerate : generate args s = .ok file) (nodeId : ℕ) :
    (nodePartOf args s nodeId).1.own = (sendingFlow args s nodeId).map fun flow ↦
      (flow.flowNumber, flow.destination, periodOf s flow) := by
  unfold sendingFlow nodePartOf
  by_cases hcells : getNodeSchedule args s nodeId = []
  · unfold generateNodePart
    rw [if_pos hcells, if_pos hcells]
    rfl
  · rw [if_neg hcells]
    have hnode : nodeId ∈ args.nodeIds := by
      obtain ⟨cell, hcell⟩ := exists_mem_of_ne_nil _ hcells
      unfold getNodeSchedule at hcell
      obtain ⟨slot, -, hcell⟩ := mem_flatMap.mp hcell
      obtain ⟨channel, -, hcell⟩ := mem_flatMap.mp hcell
      split at hcell
      · cases hcell
      · obtain ⟨participant, hparticipant, -⟩ := mem_map.mp hcell
        have := (mem_filter.mp hparticipant).2
        simp only [Bool.and_eq_true, decide_eq_true_eq] at this
        exact this.2
    obtain ⟨part, hpart⟩ := (generate_spec hgenerate).1 nodeId hnode
    rw [hpart]
    unfold generateNodePart at hpart
    rw [if_neg hcells] at hpart
    obtain ⟨links, -, hdone⟩ := bind_eq_ok hpart
    cases hdone
    rfl

theorem mem_nodePartOf_maxTransmissions {nodeId flowNumber : ℕ}
    (hmem : flowNumber ∈ (nodePartOf args s nodeId).2) :
    ∃ flow ∈ s.flows, flow.flowNumber = flowNumber := by
  unfold nodePartOf at hmem
  cases hcall : generateNodePart args s nodeId with
  | error fault =>
    rw [hcall] at hmem
    cases hmem
  | ok part =>
    rw [hcall] at hmem
    unfold generateNodePart at hcall
    dsimp only at hcall
    split at hcall
    · cases hcall
      cases hmem
    · obtain ⟨links, -, hdone⟩ := bind_eq_ok hcall
      cases hdone
      obtain ⟨-, hany⟩ := mem_filter.mp hmem
      obtain ⟨flow, hflow, -⟩ := any_eq_true _ _ |>.mp hany
      have hsame : (flowNumber == flow.flowNumber) = true :=
        @find?_some Flow (fun flow ↦ flowNumber == flow.flowNumber) flow s.flows hflow
      exact ⟨flow, mem_of_find?_eq_some hflow, (beq_iff_eq.mp hsame).symm⟩

theorem le_maxTxSize (hgenerate : generate args s = .ok file) (hflow : flow ∈ s.flows) :
    subFlowCount s flow.flowNumber ≤ file.macros.maxTxSize := by
  obtain ⟨-, -, -, -, -, -, -, hmax⟩ := generate_spec hgenerate
  obtain ⟨other, hother, hnumber⟩ := (oneOfEach_firstOfEachNumber s.flows).covered flow hflow
  rw [hmax, ← hnumber, ← length_subFlowsOf]
  apply le_foldl_max
  exact .inr (mem_map_of_mem hother)

end Generator

/-! ## When all indices are in range -/

/-- The flows have the numbers from one to `count`. -/
def Numbered (s : Schedule) (count : ℕ) : Prop :=
  ∀ number, (∃ flow ∈ s.flows, flow.flowNumber = number) ↔ 1 ≤ number ∧ number ≤ count

/-- The accesses of the generated function, of the discovery schedule and of all later sends of a
sender are in range, and the sends read windows that the file sets for the sender's flow. -/
structure ArraysInRange (numFlows : ℕ) (file : GeneratedFile) (n n₁ n₂ : Node) : Prop where
  generated : ∀ access ∈ generatedAccesses file n.nodeId,
    access.InRange numFlows file.macros.maxTxSize
  discovery : ∀ access ∈ discoveryAccesses n₁, access.InRange numFlows file.macros.maxTxSize
  sends : ∀ own, (file.schedule.nodePart n.nodeId).own = some own → ∀ m, SendsLike n₂ m →
    ∀ access ∈ sendAccesses m,
      access.InRange numFlows file.macros.maxTxSize ∧ access.Written file.schedule own.1

def sendSlotframeSize (args : GenerateArgs) (s : Schedule) (flowNumber : ℕ) : ℕ :=
  if s.flows.getLast?.any fun last ↦ flowNumber == last.flowNumber % 256 + 1 then discoverySize
  else slotframeLength args s % 65536

/-- The size over the period is the number of a window of the flow, whose number is a byte. -/
structure WindowsFit (args : GenerateArgs) (s : Schedule) (flow : Flow) : Prop where
  byte : flow.flowNumber < 256
  pos : 1 ≤ sendSlotframeSize args s flow.flowNumber / (periodOf s flow % 65536)
  le : sendSlotframeSize args s flow.flowNumber / (periodOf s flow % 65536) ≤
    subFlowCount s flow.flowNumber

/-- The last flow of the schedule leaves room for the discovery slotframe, and the windows of the
node's flow fit the slotframe. -/
structure IndicesFit (numFlows : ℕ) (args : GenerateArgs) (s : Schedule) (nodeId : ℕ) : Prop where
  discovery : ∀ last, s.flows.getLast? = some last → last.flowNumber % 256 < numFlows
  windows : ∀ flow, sendingFlow args s nodeId = some flow → flow.flowNumber % 256 ≠ 0 →
    sendSlotframeSize args s (flow.flowNumber % 256) ≠ 0 → WindowsFit args s flow

section Main

variable {args : GenerateArgs} {s : Schedule} {file : GeneratedFile} {numFlows count : ℕ}

section

variable (hgenerate : generate args s = .ok file) (hnumbered : Numbered s count)

include hgenerate hnumbered

theorem mem_txWindows {flow : Flow} (hflow : flow ∈ s.flows) {index : ℤ} :
    (∃ window ∈ file.schedule.txWindows, (flow.flowNumber : ℤ) - 1 = window.flowIndex ∧
      index = window.index) ↔ 0 ≤ index ∧ index < subFlowCount s flow.flowNumber := by
  obtain ⟨-, -, hwindows, -⟩ := generate_spec hgenerate
  rw [hwindows]
  have hone := oneOfEach_firstOfEachNumber s.flows
  have hpos : 1 ≤ flow.flowNumber := ((hnumbered _).mp ⟨flow, hflow, rfl⟩).1
  constructor
  · rintro ⟨window, hwindow, hrow, rfl⟩
    obtain ⟨other, hother, hwindow⟩ := mem_flatMap.mp hwindow
    obtain ⟨hindex, hlt⟩ := mem_txWindowsOf.mp ⟨window, hwindow, rfl, rfl⟩
    have hpos' := ((hnumbered _).mp ⟨other, hone.given other hother, rfl⟩).1
    have hsame : other.flowNumber = flow.flowNumber := by omega
    rw [hsame] at hlt
    omega
  · rintro ⟨hnonneg, hlt⟩
    obtain ⟨other, hother, hsame⟩ := hone.covered flow hflow
    obtain ⟨k, rfl⟩ := Int.eq_ofNat_of_zero_le hnonneg
    rw [← hsame] at hlt
    obtain ⟨window, hwindow, hrow, hindex⟩ := mem_txWindowsOf.mpr ⟨rfl, Int.ofNat_lt.mp hlt⟩
    exact ⟨window, mem_flatMap.mpr ⟨other, hother, hwindow⟩, by omega, by rw [hindex]⟩

theorem generatedAccesses_inRange (hpos : 1 ≤ count) (hle : count ≤ numFlows) (nodeId : ℕ) :
    ∀ access ∈ generatedAccesses file nodeId, access.InRange numFlows file.macros.maxTxSize := by
  obtain ⟨-, hflows, hwindows, -, -, -, htransmissions, -⟩ := generate_spec hgenerate
  have hone := oneOfEach_firstOfEachNumber s.flows
  have hbounds : ∀ flow ∈ s.flows, 1 ≤ flow.flowNumber ∧ flow.flowNumber ≤ numFlows :=
    fun flow hflow ↦ ((hnumbered _).mp ⟨flow, hflow, rfl⟩).imp_right fun h ↦ h.trans hle
  intro access haccess
  unfold generatedAccesses at haccess
  rw [hflows, hwindows, htransmissions] at haccess
  simp only [List.mem_append, List.mem_flatMap, List.mem_map] at haccess
  rcases haccess with ((⟨_, ⟨flow, hflow, rfl⟩, haccess⟩ | ⟨window, ⟨flow, hflow, hwindow⟩,
    haccess⟩) | ⟨number, hnumber, rfl⟩) | ⟨slot, -, rfl⟩
  · have := hbounds flow (hone.given flow hflow)
    have hrange : (0 : ℤ) ≤ flow.flowNumber ∧ (flow.flowNumber : ℤ) < numFlows + 1 := by omega
    simp only [List.mem_cons, List.not_mem_nil, or_false] at haccess
    rcases haccess with rfl | rfl | rfl
    · exact hrange
    · exact hrange
    · exact hrange
  · have := hbounds flow (hone.given flow hflow)
    obtain ⟨hrow, hlt⟩ := mem_txWindowsOf.mp ⟨window, hwindow, rfl, rfl⟩
    have hmax := le_maxTxSize hgenerate (hone.given flow hflow)
    have hrange : ((0 : ℤ) ≤ window.flowIndex ∧ (window.flowIndex : ℤ) < numFlows) ∧
        (0 : ℤ) ≤ window.index ∧ (window.index : ℤ) < file.macros.maxTxSize := by omega
    simp only [List.mem_cons, List.not_mem_nil, or_false] at haccess
    rcases haccess with rfl | rfl
    · exact hrange
    · exact hrange
  · obtain ⟨flow, hflow, rfl⟩ := mem_nodePartOf_maxTransmissions hnumber
    have := hbounds flow hflow
    change (0 : ℤ) ≤ (flow.flowNumber : ℤ) - 1 ∧ (flow.flowNumber : ℤ) - 1 < numFlows
    omega
  · change (0 : ℤ) ≤ 1 ∧ (1 : ℤ) < numFlows + 1
    omega

theorem slotframeSize_installed {n₁ n₂ : Node} (hwf : SlotframesWF n.mac)
    (hroom : n.mac.slotframeList.length + file.schedule.flows.length < n.mac.slotframeMemb.num)
    (hgenerated : generatedSchedule file.schedule n = .ok n₁)
    (hdiscovery : installDiscoverySchedule n₁ = .ok n₂) {number : ℕ} (hpos : 1 ≤ number)
    (hle : number ≤ count) :
    slotframeSize n₂.mac number = createdSize (sendSlotframeSize args s number) := by
  obtain ⟨-, hflows, -, -, hlength, hused, -, -⟩ := generate_spec hgenerate
  have hfile := generatedSchedule_installed hwf hroom.le hgenerated
  have hroom' : n₁.mac.slotframeList.length < n₁.mac.slotframeMemb.num := by
    rw [hfile.num]
    exact hfile.length.trans_lt hroom
  obtain ⟨-, -, hsize⟩ := installDiscoverySchedule_installed hfile.wf hroom' hdiscovery
  obtain ⟨flow, hflow, rfl⟩ := (hnumbered number).mpr ⟨hpos, hle⟩
  obtain ⟨last, hlast⟩ := isSome_iff_exists.mp
    (getLast?_isSome.mpr (ne_nil_of_mem hflow))
  rw [hsize, hfile.maxSlotFrameUsed, hused, maxSlotUsed_eq hlast, sendSlotframeSize, hlast]
  simp only [any_some, beq_iff_eq]
  split
  · rfl
  · obtain ⟨other, hother, hsame⟩ := (oneOfEach_firstOfEachNumber s.flows).covered flow hflow
    have hmem : (⟨other.flowNumber, other.source, other.destination⟩ : ScheduledFlow) ∈
        file.schedule.flows := by
      rw [hflows]
      exact mem_map_of_mem hother
    rw [← hsame, ← hlength]
    exact hfile.size _ hmem

theorem sends_iff {flow : Flow} (hle : count ≤ numFlows) (hflow : flow ∈ s.flows)
    (hown : n.ownTransmissionFlow = flow.flowNumber % 256)
    (hlength : n.scheduleLength = periodOf s flow % 65536)
    (hsize : flow.flowNumber % 256 ≠ 0 → slotframeSize n.mac (flow.flowNumber % 256) =
      createdSize (sendSlotframeSize args s (flow.flowNumber % 256))) :
    (∀ m, SendsLike n m → ∀ access ∈ sendAccesses m, access.InRange numFlows file.macros.maxTxSize ∧
          access.Written file.schedule flow.flowNumber) ↔
      (flow.flowNumber % 256 ≠ 0 → sendSlotframeSize args s (flow.flowNumber % 256) ≠ 0 →
        WindowsFit args s flow) := by
  have hbounds := (hnumbered _).mp ⟨flow, hflow, rfl⟩
  have hwritten := fun index ↦ @mem_txWindows args s file count hgenerate hnumbered flow hflow index
  constructor
  · intro hall hnonzero hpos
    specialize hsize hnonzero
    rw [createdSize, if_neg hpos, ← hown] at hsize
    rw [← hown] at hnonzero
    obtain ⟨first, slot, haccesses⟩ := sendAccesses_of_some hnonzero hsize
    obtain ⟨hrange, hrow, hwindow⟩ := hall n ⟨rfl, rfl, rfl⟩ _ (haccesses ▸
      mem_cons_of_mem _ (mem_cons_self))
    have hbyte : flow.flowNumber % 256 = flow.flowNumber := by omega
    rw [hrow] at hwindow
    have hfit := (hwritten _).mp hwindow
    rw [hlength, hown, hbyte] at hfit
    exact ⟨by omega, by omega, by omega⟩
  · intro hfit m hlike access haccess
    by_cases hzero : flow.flowNumber % 256 = 0
    · unfold sendAccesses at haccess
      rw [hlike.own, hown, if_pos hzero] at haccess
      cases haccess
    · have hm : slotframeSize m.mac m.ownTransmissionFlow =
          createdSize (sendSlotframeSize args s (flow.flowNumber % 256)) := by
        rw [hlike.own, hlike.size, hown]
        exact hsize hzero
      by_cases hnone : sendSlotframeSize args s (flow.flowNumber % 256) = 0
      · rw [createdSize, if_pos hnone] at hm
        rw [sendAccesses_of_none hm] at haccess
        cases haccess
      · obtain ⟨hbyte, hwindows, hcount⟩ := hfit hzero hnone
        rw [createdSize, if_neg hnone] at hm
        rw [Nat.mod_eq_of_lt hbyte] at hm hown
        have hown' := hlike.own.trans hown
        obtain ⟨first, slot, haccesses⟩ := sendAccesses_of_some (by omega) hm
        rw [haccesses, hlike.scheduleLength, hlength, hown'] at haccess
        rcases mem_cons.mp haccess with rfl | haccess
        · refine ⟨?_, trivial⟩
          change (0 : ℤ) ≤ flow.flowNumber ∧ (flow.flowNumber : ℤ) < numFlows + 1
          omega
        · obtain ⟨index, hindex, hkind⟩ := mem_windowAccesses hwindows haccess
          have hwindow := (hwritten index).mpr ⟨by omega, by omega⟩
          have hmax := le_maxTxSize hgenerate hflow
          have hrange : ((0 : ℤ) ≤ (flow.flowNumber : ℤ) - 1 ∧
              (flow.flowNumber : ℤ) - 1 < numFlows) ∧
                (0 : ℤ) ≤ index ∧ (index : ℤ) < file.macros.maxTxSize := by omega
          rcases hkind with rfl | rfl
          · exact ⟨hrange, rfl, hwindow⟩
          · exact ⟨hrange, rfl, hwindow⟩

end

/-- All accesses are in range exactly when the indices fit: for every schedule whose flows are
numbered up to at most `MASTER_NUM_FLOWS`, on every node with memory for the slotframes. -/
theorem arraysInRange_iff {n n₁ n₂ : Node} (hgenerate : generate args s = .ok file)
    (hnumbered : Numbered s count) (hpos : 1 ≤ count) (hle : count ≤ numFlows)
    (hwf : SlotframesWF n.mac)
    (hroom : n.mac.slotframeList.length + file.schedule.flows.length < n.mac.slotframeMemb.num)
    (hgenerated : generatedSchedule file.schedule n = .ok n₁)
    (hdiscovery : installDiscoverySchedule n₁ = .ok n₂) :
    ArraysInRange numFlows file n n₁ n₂ ↔ IndicesFit numFlows args s n.nodeId := by
  obtain ⟨-, -, -, hpart, -, hused, -, -⟩ := generate_spec hgenerate
  have hfile := generatedSchedule_installed hwf hroom.le hgenerated
  have hroom' : n₁.mac.slotframeList.length < n₁.mac.slotframeMemb.num := by
    rw [hfile.num]
    exact hfile.length.trans_lt hroom
  obtain ⟨hkept, -, -⟩ := installDiscoverySchedule_installed hfile.wf hroom' hdiscovery
  have hown := nodePartOf_own hgenerate n.nodeId
  rw [← show file.schedule.nodePart n.nodeId = (nodePartOf args s n.nodeId).1 by rw [hpart]] at hown
  -- the discovery slotframe
  have hlast : (∀ access ∈ discoveryAccesses n₁, access.InRange numFlows file.macros.maxTxSize) ↔
      ∀ last, s.flows.getLast? = some last → last.flowNumber % 256 < numFlows := by
    obtain ⟨flow, hflow, -⟩ := (hnumbered 1).mpr ⟨le_rfl, hpos⟩
    obtain ⟨last, hlast⟩ := isSome_iff_exists.mp
      (getLast?_isSome.mpr (ne_nil_of_mem hflow))
    unfold discoveryAccesses
    rw [hfile.maxSlotFrameUsed, hused, maxSlotUsed_eq hlast, hlast]
    simp only [mem_singleton, forall_eq, some.injEq, forall_eq']
    change (0 : ℤ) ≤ _ ∧ _ ↔ _
    omega
  -- the sends of a sender
  have hsends : ∀ flow, sendingFlow args s n.nodeId = some flow →
      ((∀ m, SendsLike n₂ m → ∀ access ∈ sendAccesses m,
        access.InRange numFlows file.macros.maxTxSize ∧
          access.Written file.schedule flow.flowNumber) ↔
      (flow.flowNumber % 256 ≠ 0 → sendSlotframeSize args s (flow.flowNumber % 256) ≠ 0 →
        WindowsFit args s flow)) := by
    intro flow hsending
    have hflow : flow ∈ s.flows := by
      unfold sendingFlow at hsending
      split at hsending
      · cases hsending
      · exact mem_of_find?_eq_some hsending
    rw [hsending] at hown
    apply sends_iff hgenerate hnumbered hle hflow
    · rw [hkept.own, hfile.own, ownFlowAfter, hown]
      rfl
    · rw [hkept.scheduleLength, hfile.scheduleLength, hown]
      rfl
    · intro hnonzero
      have hbounds := (hnumbered _).mp ⟨flow, hflow, rfl⟩
      exact slotframeSize_installed hgenerate hnumbered hwf hroom hgenerated hdiscovery
        (Nat.pos_of_ne_zero hnonzero) ((Nat.mod_le _ _).trans hbounds.2)
  constructor
  · rintro ⟨-, hdisc, hall⟩
    refine ⟨hlast.mp hdisc, fun flow hsending ↦ (hsends flow hsending).mp ?_⟩
    rw [hsending] at hown
    exact hall _ hown
  · rintro ⟨hdisc, hfit⟩
    refine ⟨generatedAccesses_inRange hgenerate hnumbered hpos hle n.nodeId, hlast.mpr hdisc,
      fun own hsome ↦ ?_⟩
    rw [hsome] at hown
    obtain ⟨flow, hsending, rfl⟩ := map_eq_some_iff.mp hown.symm
    exact (hsends flow hsending).mpr (hfit flow hsending)

theorem room_of_started {config : MacConfig} {m : Node} (hgenerate : generate args s = .ok file)
    (hnumbered : Numbered s count) (hle : count ≤ numFlows) (hinit : tschInit config = .ok n.mac)
    (hsize : config.maxSlotframes = numFlows + 4) (hstart : initMasterRouting n = .ok m) :
    SlotframesWF m.mac ∧
      m.mac.slotframeList.length + file.schedule.flows.length < m.mac.slotframeMemb.num := by
  obtain ⟨-, hflows, -⟩ := generate_spec hgenerate
  obtain ⟨hwf, hlength, hnum⟩ := initMasterRouting_slotframesWF hinit (by omega) hstart
  have hone := oneOfEach_firstOfEachNumber s.flows
  have hsub : (firstOfEachNumber s.flows).map Flow.flowNumber ⊆ range' 1 count := by
    intro number hnumber
    obtain ⟨flow, hflow, rfl⟩ := mem_map.mp hnumber
    have := (hnumbered _).mp ⟨flow, hone.given flow hflow, rfl⟩
    rw [mem_range'_1]
    omega
  have hcount : file.schedule.flows.length ≤ count := by
    calc file.schedule.flows.length = ((firstOfEachNumber s.flows).map Flow.flowNumber).length := by
          rw [hflows, length_map, length_map]
      _ ≤ (range' 1 count).length := (hone.distinct.subperm hsub).length_le
      _ = count := length_range'
  refine ⟨hwf, ?_⟩
  rw [hnum, hsize]
  omega

end Main

/-- One flow from node 1 over node 2 to node 3, scheduled by EDF over its period. -/
def scheduledFlow (period : ℕ) : Except SchedulerError Schedule :=
  create { plainArgs .edf with shortestRepeatingCycle := period, numCoojaNodes := 3 } 0
    [{ pathFlow 1 1 3 [2] with period := period }]

/-- The generator's arguments, with the shortest length that the tool allows. -/
def scheduledFlowArgs : GenerateArgs := ⟨[1, 2, 3], fun _ ↦ none, 21⟩

/-- The build for at most `numFlows` flows. -/
def flowsConfig (numFlows : ℕ) : MacConfig := ⟨8, numFlows + 4, 5, 4, 4, 4, false, .bits32⟩

/-- The schedule of the flow, its file, and node 1 after its start, after the file and after the
discovery schedule. -/
def installOneFlow (numFlows period : ℕ) :
    Option (Schedule × GeneratedFile × Node × Node × Node) := do
  let s ← (scheduledFlow period).toOption
  let file ← (generate scheduledFlowArgs s).toOption
  let mac ← (tschInit (flowsConfig numFlows)).toOption
  let n ← (initMasterRouting (Node.zero 1 3 3 mac)).toOption
  let n₁ ← (generatedSchedule file.schedule n).toOption
  let n₂ ← (installDiscoverySchedule n₁).toOption
  return (s, file, n, n₁, n₂)

theorem installOneFlow_spec {numFlows period : ℕ} {s : Schedule} {file : GeneratedFile}
    {n₁ n₂ : Node} (hrun : installOneFlow numFlows period = some (s, file, n, n₁, n₂)) :
    scheduledFlow period = .ok s ∧ generate scheduledFlowArgs s = .ok file ∧
      (∃ n₀, tschInit (flowsConfig numFlows) = .ok n₀.mac ∧ initMasterRouting n₀ = .ok n) ∧
      generatedSchedule file.schedule n = .ok n₁ ∧ installDiscoverySchedule n₁ = .ok n₂ := by
  unfold installOneFlow at hrun
  obtain ⟨_, hs, hrun⟩ := bind_eq_some_iff.mp hrun
  obtain ⟨_, hfile, hrun⟩ := bind_eq_some_iff.mp hrun
  obtain ⟨mac, hmac, hrun⟩ := bind_eq_some_iff.mp hrun
  obtain ⟨_, hn, hrun⟩ := bind_eq_some_iff.mp hrun
  obtain ⟨_, hn₁, hrun⟩ := bind_eq_some_iff.mp hrun
  obtain ⟨_, hn₂, hrun⟩ := bind_eq_some_iff.mp hrun
  cases hrun
  exact ⟨toOption_eq_some hs, toOption_eq_some hfile,
    ⟨_, toOption_eq_some hmac, toOption_eq_some hn⟩, toOption_eq_some hn₁, toOption_eq_some hn₂⟩

theorem numbered_of_map {s : Schedule} {count : ℕ}
    (hmap : s.flows.map Flow.flowNumber = List.range' 1 count) : Numbered s count := by
  intro number
  rw [← List.mem_map, hmap, List.mem_range'_1]
  omega

theorem arraysInRange_iff_oneFlow : ∃ s file n n₁ n₂,
    installOneFlow 2 24 = some (s, file, n, n₁, n₂) ∧
      (ArraysInRange 2 file n n₁ n₂ ↔ IndicesFit 2 scheduledFlowArgs s n.nodeId) := by
  have hrun : (installOneFlow 2 24).any (fun result ↦
      result.1.flows.map Flow.flowNumber == List.range' 1 1) = true := by decide +kernel
  obtain ⟨⟨s, file, n, n₁, n₂⟩, hrun, hflows⟩ := (Option.any_eq_true ..).mp hrun
  obtain ⟨-, hgenerate, ⟨n₀, hinit, hstart⟩, hgenerated, hdiscovery⟩ := installOneFlow_spec hrun
  have hnumbered := numbered_of_map (beq_iff_eq.mp hflows)
  obtain ⟨hwf, hroom⟩ := room_of_started hgenerate hnumbered one_le_two hinit rfl hstart
  exact ⟨s, file, n, n₁, n₂, hrun, arraysInRange_iff hgenerate hnumbered le_rfl one_le_two hwf
    hroom hgenerated hdiscovery⟩

/-- A flow with the period 10, in a build for one flow: the discovery slotframe is entry 2 of an
array of two, and the sender computes two windows for a slotframe padded to 21 slots, although the
file has one and the rows have one entry. -/
theorem not_arraysInRange_padded : ∃ s file n n₁ n₂,
    installOneFlow 1 10 = some (s, file, n, n₁, n₂) ∧ Numbered s 1 ∧
      ¬ (∀ access ∈ discoveryAccesses n₁, access.InRange 1 file.macros.maxTxSize) ∧
      ¬ (∀ access ∈ sendAccesses n₂, access.InRange 1 file.macros.maxTxSize) := by
  have hrun : (installOneFlow 1 10).any (fun result ↦
      result.1.flows.map Flow.flowNumber == List.range' 1 1 &&
        result.2.1.macros.maxTxSize == 1 && result.2.2.2.1.maxSlotFrameUsed == 1 &&
        (sendAccesses result.2.2.2.2).contains (.firstTxSlotInFlow 0 1)) = true := by
    decide +kernel
  obtain ⟨⟨s, file, n, n₁, n₂⟩, hrun, hcheck⟩ := (Option.any_eq_true ..).mp hrun
  simp only [Bool.and_eq_true, beq_iff_eq, List.contains_iff_mem] at hcheck
  obtain ⟨⟨⟨hflows, hmax⟩, hused⟩, haccess⟩ := hcheck
  refine ⟨s, file, n, n₁, n₂, hrun, numbered_of_map hflows, fun hall ↦ ?_, fun hall ↦ ?_⟩
  · have hrange := hall _ List.mem_cons_self
    rw [hused] at hrange
    exact absurd hrange.2 (by decide)
  · have hrange := hall _ haccess
    rw [hmax] at hrange
    exact absurd hrange.2.2 (by decide)

end ContikiMaster.Routing
