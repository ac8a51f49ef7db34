import ContikiMaster.Routing.Install
import ContikiMaster.Tsch.SlotframeSizes

/-!
# The slotframes of an installed schedule

A schedule file creates a slotframe for each of its flows and tells a sender its flow and
the period. The discovery schedule then puts its own slotframe under the handle after
`max_slot_frame_used`, in the place of what is there.
-/

namespace ContikiMaster.Routing

open Sys Tsch Lib List

variable {n m : Node} {schedule : GeneratedSchedule}

/-- What is found under a handle after a slotframe of this size was asked for. -/
def createdSize (size : ℕ) : Option ℕ := if size = 0 then none else some size

/-- The changes of a node that leave the table of slotframes and the data of its flow. -/
structure KeepsFlow (n m : Node) : Prop where
  nodeId : m.nodeId = n.nodeId
  own : m.ownTransmissionFlow = n.ownTransmissionFlow
  scheduleLength : m.scheduleLength = n.scheduleLength
  maxSlotFrameUsed : m.maxSlotFrameUsed = n.maxSlotFrameUsed

theorem KeepsFlow.refl (n : Node) : KeepsFlow n n := ⟨rfl, rfl, rfl, rfl⟩

theorem KeepsFlow.trans {k : Node} (hnm : KeepsFlow n m) (hmk : KeepsFlow m k) : KeepsFlow n k :=
  ⟨hmk.nodeId.trans hnm.nodeId, hmk.own.trans hnm.own,
    hmk.scheduleLength.trans hnm.scheduleLength, hmk.maxSlotFrameUsed.trans hnm.maxSlotFrameUsed⟩

theorem recreateSlotframe_changed {i size : ℕ} (hwf : SlotframesWF n.mac)
    (hroom : n.mac.slotframeList.length < n.mac.slotframeMemb.num)
    (hcall : recreateSlotframe n i size = .ok m) :
    KeepsFlow n m ∧ SlotframeChanged n.mac m.mac i (createdSize size) ∧
      m.mac.slotframeList.length ≤ n.mac.slotframeList.length + 1 := by
  obtain ⟨⟨removed, u⟩, hremove, hrest⟩ := bind_eq_ok hcall
  obtain ⟨⟨sf, w⟩, hadd, hdone⟩ := bind_eq_ok hrest
  cases hdone
  obtain ⟨hremoved, hlength⟩ := tschScheduleRemoveSlotframe_changed hwf hremove
  refine ⟨⟨rfl, rfl, rfl, rfl⟩, ?_⟩
  change SlotframeChanged n.mac w i (createdSize size) ∧ w.slotframeList.length ≤ _
  unfold createdSize
  by_cases hsize : size = 0
  · unfold tschScheduleAddSlotframe at hadd
    rw [if_pos hsize] at hadd
    cases hadd
    rw [if_pos hsize]
    exact ⟨hremoved, by omega⟩
  · have hroom' : u.slotframeList.length < u.slotframeMemb.num := by
      rw [hremoved.num]
      omega
    obtain ⟨hadded, hlength'⟩ :=
      tschScheduleAddSlotframe_changed hremoved.wf hsize hremoved.self hroom' hadd
    rw [if_neg hsize]
    refine ⟨⟨hadded.wf, hadded.num.trans hremoved.num, hadded.self, fun other hother ↦ ?_⟩,
      by omega⟩
    exact (hadded.other other hother).trans (hremoved.other other hother)

/-- The state after the slotframes of some flows were created. -/
structure FlowsCreated (n : Node) (done : List ScheduledFlow) (m : Node) : Prop where
  keeps : KeepsFlow n m
  wf : SlotframesWF m.mac
  num : m.mac.slotframeMemb.num = n.mac.slotframeMemb.num
  length : m.mac.slotframeList.length ≤ n.mac.slotframeList.length + done.length
  size : ∀ flow ∈ done, slotframeSize m.mac flow.flowNumber = createdSize n.scheduleLength

theorem FlowsCreated.step {done : List ScheduledFlow} {k : Node} {flow : ScheduledFlow}
    (hdone : FlowsCreated n done m)
    (hroom : n.mac.slotframeList.length + done.length < n.mac.slotframeMemb.num)
    (hcall : recreateSlotframe m flow.flowNumber m.scheduleLength = .ok k) :
    FlowsCreated n (done ++ [flow]) k := by
  have hroom' : m.mac.slotframeList.length < m.mac.slotframeMemb.num := by
    have hlength := hdone.length
    rw [hdone.num]
    omega
  obtain ⟨hkept, hchanged, hlength⟩ := recreateSlotframe_changed hdone.wf hroom' hcall
  rw [hdone.keeps.scheduleLength] at hchanged
  refine ⟨hdone.keeps.trans hkept, hchanged.wf, hchanged.num.trans hdone.num, ?_,
    fun other hother ↦ ?_⟩
  · rw [length_append, length_singleton]
    have := hdone.length
    omega
  · by_cases hsame : other.flowNumber = flow.flowNumber
    · rw [hsame]
      exact hchanged.self
    · have hold : other ∈ done := by
        rcases mem_append.mp hother with hold | hnew
        · exact hold
        · exact absurd (congrArg ScheduledFlow.flowNumber (mem_singleton.mp hnew)) hsame
      rw [hchanged.other _ hsame]
      exact hdone.size other hold

/-- The lock, when it was free, and the table of slotframes are as before. -/
def KeepsTable (s t : Mac) : Prop :=
  KeepsSlotframes s t ∧ (s.tschLocked = false → t.tschLocked = false)

variable {s t : Mac}

theorem KeepsTable.trans {u : Mac} (hst : KeepsTable s t) (htu : KeepsTable t u) :
    KeepsTable s u := ⟨hst.1.trans htu.1, fun hs ↦ htu.2 (hst.2 hs)⟩

theorem KeepsTable.wf (hkept : KeepsTable s t) (hwf : SlotframesWF s) :
    SlotframesWF t := hkept.1.wf hwf (hkept.2 hwf.unlocked)

theorem KeepsTable.slotframeSize (hkept : KeepsTable s t) (hwf : SlotframesWF s) (handle : ℕ) :
    Tsch.slotframeSize t handle = Tsch.slotframeSize s handle :=
  hkept.1.slotframeSize hwf.unlocked (hkept.2 hwf.unlocked) handle

theorem tschScheduleAddLink_keepsTable {slotframe link : Option ℕ} {request : LinkRequest}
    (hcall : tschScheduleAddLink s slotframe request = .ok (link, t)) : KeepsTable s t :=
  ⟨keepsSlotframes_moves.addLink hcall, (keepsPackets_moves.addLink hcall).unlocked⟩

theorem addLinks_installed {links : List ScheduledLink} :
    ∀ {linkIdx : ℕ} {changes : List (ℕ × ℕ)} {n m : Node},
      addLinks linkIdx links changes n = .ok m → KeepsFlow n m ∧ KeepsTable n.mac m.mac := by
  induction links with
  | nil =>
    intro linkIdx changes n m hcall
    cases hcall
    exact ⟨.refl _, .refl _, id⟩
  | cons link links ih =>
    intro linkIdx changes n m hcall
    obtain ⟨⟨l, mac⟩, hadd, hrest⟩ := bind_eq_ok hcall
    obtain ⟨hkept, htable⟩ := ih hrest
    have hadded := tschScheduleAddLink_keepsTable hadd
    refine ⟨KeepsFlow.trans ?_ hkept, KeepsTable.trans ?_ htable⟩
    · split <;> exact ⟨rfl, rfl, rfl, rfl⟩
    · split at hadded <;> exact hadded

/-- The flow of a node after its block was run, zero for none. -/
def ownFlowAfter (part : NodePart) (n : Node) : ℕ :=
  (part.own.map fun own ↦ own.1 % 256).getD n.ownTransmissionFlow

def scheduleLengthAfter (part : NodePart) (n : Node) : ℕ :=
  (part.own.map fun own ↦ own.2.2 % 65536).getD n.scheduleLength

theorem runNodePart_installed {part : NodePart} (hcall : runNodePart n part = .ok m) :
    m.nodeId = n.nodeId ∧ m.ownTransmissionFlow = ownFlowAfter part n ∧
      m.scheduleLength = scheduleLengthAfter part n ∧ KeepsTable n.mac m.mac := by
  unfold runNodePart at hcall
  obtain ⟨k, hlinks, hrest⟩ := bind_eq_ok hcall
  obtain ⟨hkept, htable⟩ := addLinks_installed hlinks
  have hk : k.nodeId = n.nodeId ∧ k.ownTransmissionFlow = ownFlowAfter part n ∧
      k.scheduleLength = scheduleLengthAfter part n ∧ KeepsTable n.mac k.mac := by
    rw [hkept.nodeId, hkept.own, hkept.scheduleLength]
    unfold ownFlowAfter scheduleLengthAfter
    cases hown : part.own with
    | none =>
      rw [hown] at htable
      exact ⟨rfl, rfl, rfl, htable⟩
    | some own =>
      rw [hown] at htable
      exact ⟨rfl, rfl, rfl, htable⟩
  split at hrest
  · cases hrest
    exact hk
  · obtain ⟨⟨updated, mac⟩, hupdate, hdone⟩ := bind_eq_ok hrest
    cases hdone
    exact ⟨hk.1, hk.2.1, hk.2.2.1, hk.2.2.2.trans
      ⟨tschQueueUpdateTimeSource_keepsSlotframes hupdate,
        (tschQueueUpdateTimeSource_keeps hupdate).unlocked⟩⟩

theorem initMasterRouting_slotframesWF {config : MacConfig} (hinit : tschInit config = .ok n.mac)
    (hpos : 0 < config.maxSlotframes) (hcall : initMasterRouting n = .ok m) :
    SlotframesWF m.mac ∧ m.mac.slotframeList.length ≤ 1 ∧
      m.mac.slotframeMemb.num = config.maxSlotframes := by
  obtain ⟨hwf, hempty, hnum⟩ := tschInit_slotframesWF hinit
  obtain ⟨⟨removed, u⟩, hremove, hrest⟩ := bind_eq_ok hcall
  obtain ⟨⟨sf, v⟩, hadd, hrest⟩ := bind_eq_ok hrest
  obtain ⟨⟨l, w⟩, hlink, hdone⟩ := bind_eq_ok hrest
  cases hdone
  obtain rfl : n.mac = u := by
    unfold tschScheduleRemoveAllSlotframes at hremove
    rw [hempty] at hremove
    unfold removeSlotframesLoop at hremove
    rw [hempty] at hremove
    cases hremove
    rfl
  have hnone : slotframeSize n.mac 0 = none := by
    rw [slotframeSize_unlocked hwf.unlocked, hempty]
    rfl
  have hroom : n.mac.slotframeList.length < n.mac.slotframeMemb.num := by
    rw [hempty, hnum]
    exact hpos
  obtain ⟨hadded, hlength⟩ := tschScheduleAddSlotframe_changed hwf one_ne_zero hnone hroom hadd
  have hkept := tschScheduleAddLink_keepsTable hlink
  refine ⟨hkept.wf hadded.wf, ?_, hkept.1.num.trans (hadded.num.trans hnum)⟩
  calc w.slotframeList.length = v.slotframeList.length :=
        congrArg length hkept.1.slotframeList
    _ = n.mac.slotframeList.length + 1 := hlength
    _ ≤ 1 := by rw [hempty]; rfl

theorem addBeaconLink_keepsTable {beaconSlot link : Option ℕ} {mac : Mac}
    (hcall : addBeaconLink n beaconSlot = .ok (link, mac)) : KeepsTable n.mac mac := by
  cases beaconSlot with
  | none =>
    cases hcall
    exact ⟨.refl _, id⟩
  | some timeslot => exact tschScheduleAddLink_keepsTable hcall

structure FileInstalled (schedule : GeneratedSchedule) (n m : Node) : Prop where
  wf : SlotframesWF m.mac
  num : m.mac.slotframeMemb.num = n.mac.slotframeMemb.num
  length : m.mac.slotframeList.length ≤ n.mac.slotframeList.length + schedule.flows.length
  size : ∀ flow ∈ schedule.flows,
    slotframeSize m.mac flow.flowNumber = createdSize (schedule.scheduleLength % 65536)
  own : m.ownTransmissionFlow = ownFlowAfter (schedule.nodePart n.nodeId) n
  scheduleLength : m.scheduleLength = ((schedule.nodePart n.nodeId).own.map fun own ↦
    own.2.2 % 65536).getD (schedule.scheduleLength % 65536)
  maxSlotFrameUsed : m.maxSlotFrameUsed = schedule.maxSlotFrameUsed % 256

theorem generatedSchedule_installed (hwf : SlotframesWF n.mac)
    (hroom : n.mac.slotframeList.length + schedule.flows.length ≤ n.mac.slotframeMemb.num)
    (hcall : generatedSchedule schedule n = .ok m) : FileInstalled schedule n m := by
  obtain ⟨u, hflows, hrest⟩ := bind_eq_ok hcall
  obtain ⟨w, hpart, hrest⟩ := bind_eq_ok hrest
  obtain ⟨⟨l, mac⟩, hbeacon, hmatrix⟩ := bind_eq_ok hrest
  set start : Node := { n with scheduleLength := schedule.scheduleLength % 65536 } with hstart
  have hu : FlowsCreated start schedule.flows u := by
    refine foldlM_invariant_done (fun done flow rest hitems a b ha hstep ↦ ?_) hflows
      ⟨.refl _, hwf, rfl, le_rfl, fun flow hflow ↦ nomatch hflow⟩
    apply ha.step _ hstep
    have hcount := congrArg length hitems
    rw [length_append, length_cons] at hcount
    change n.mac.slotframeList.length + _ < n.mac.slotframeMemb.num
    omega
  obtain ⟨hnode, hown, hlength, htable⟩ := runNodePart_installed hpart
  have htables : (setFlowTables u schedule).nodeId = n.nodeId := hu.keeps.nodeId
  have hbeacon' := addBeaconLink_keepsTable hbeacon
  have hkept : KeepsTable u.mac mac := htable.trans hbeacon'
  obtain ⟨matrix, rfl⟩ := copyAvailableSlotMatrix_frame hmatrix
  rw [hu.keeps.nodeId] at hown hlength
  refine ⟨hkept.wf hu.wf, hkept.1.num.trans hu.num, ?_, fun flow hflow ↦ ?_, ?_, ?_, rfl⟩
  · exact (congrArg length hkept.1.slotframeList).trans_le hu.length
  · exact (hkept.slotframeSize hu.wf _).trans (hu.size flow hflow)
  · rw [ownFlowAfter, ← show u.ownTransmissionFlow = n.ownTransmissionFlow from hu.keeps.own]
    exact hown
  · rw [scheduleLengthAfter] at hlength
    rw [← show u.scheduleLength = schedule.scheduleLength % 65536 from hu.keeps.scheduleLength]
    exact hlength

theorem installDiscoverySchedule_installed (hwf : SlotframesWF n.mac)
    (hroom : n.mac.slotframeList.length < n.mac.slotframeMemb.num)
    (hcall : installDiscoverySchedule n = .ok m) :
    KeepsFlow n m ∧ m.mac.tschLocked = false ∧ ∀ handle, slotframeSize m.mac handle =
      if handle = n.maxSlotFrameUsed + 1 then some discoverySize
      else slotframeSize n.mac handle := by
  obtain ⟨k, hcreate, hrest⟩ := bind_eq_ok hcall
  obtain ⟨⟨l, mac⟩, hadd, hdone⟩ := bind_eq_ok hrest
  obtain ⟨hkept, hchanged, -⟩ := recreateSlotframe_changed hwf hroom hcreate
  have hadded := tschScheduleAddLink_keepsTable hadd
  cases hdone
  refine ⟨⟨hkept.nodeId, hkept.own, hkept.scheduleLength, hkept.maxSlotFrameUsed⟩,
    hadded.2 hchanged.wf.unlocked, fun handle ↦ ?_⟩
  change slotframeSize mac handle = _
  rw [hadded.slotframeSize hchanged.wf]
  split
  · rename_i hself
    rw [hself]
    exact hchanged.self
  · rename_i hother
    exact hchanged.other handle hother

end ContikiMaster.Routing
