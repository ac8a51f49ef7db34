import ContikiMaster.Routing.Node

/-!
# Installing schedules

What the schedule file written by the Master tool does on a node, as data and one
function that runs it, and the discovery slotframe that the routing layer adds to
it. Retransmission counts, which are unused with TTL-based retransmissions, are
left out.
-/

namespace ContikiMaster.Routing

open Sys Tsch Lib Function

structure ScheduledLink where
  slotframeHandle : ℕ
  sendReceive : ℕ
  timeslot : ℕ
  channelOffset : ℕ

structure ScheduledFlow where
  flowNumber : ℕ
  source : ℕ
  destination : ℕ

/-- An entry of `first_tx_slot_in_flow` and `last_tx_slot_in_flow`. -/
structure TxWindow where
  flowIndex : ℕ
  index : ℕ
  firstTxSlot : ℕ
  lastTxSlot : ℕ

/-- The block of the schedule file for one node. -/
structure NodePart where
  /-- `own_transmission_flow`, `own_receiver` and `schedule_length` of a sender. -/
  own : Option (ℕ × ℕ × ℕ)
  links : List ScheduledLink
  forwardTo : List (ℕ × ℕ)
  /-- `cha_idx` and `cha_idx_to`. -/
  changes : List (ℕ × ℕ)
  timeSource : Option ℕ

structure GeneratedSchedule where
  scheduleLength : ℕ
  flows : List ScheduledFlow
  txWindows : List TxWindow
  nodePart : ℕ → NodePart
  beaconSlot : Option ℕ
  maxSlotFrameUsed : ℕ
  availableSlotMatrix : List ℕ

/-- `set_destination_link_addr`, with `NODE_ID_INDEX` zero. -/
def setDestinationLinkAddr (n : Node) (destinationNodeId : ℕ) : Node :=
  { n with destination := update n.destination 0 (destinationNodeId % 256) }

/-- `add_links`, from a link index on. -/
def addLinks : ℕ → List ScheduledLink → List (ℕ × ℕ) → Node → Except Fault Node
  | _, [], _, n => .ok n
  | linkIdx, link :: links, changes, n => do
    let changed := changes.head?.any fun change ↦ change.1 == linkIdx
    let n := if changed then setDestinationLinkAddr n (changes.headD (0, 0)).2 else n
    let (_, mac) ← tschScheduleAddLink n.mac
      (tschScheduleGetSlotframeByHandle n.mac link.slotframeHandle)
      ⟨link.sendReceive, .normal, n.destination, link.timeslot, link.channelOffset⟩
    addLinks (linkIdx + 1) links (if changed then changes.tail else changes) { n with mac := mac }

/-- The call of `add_links` in a schedule file: the two counts are bytes, and so are the entries of
`cha_idx` and `cha_idx_to`. -/
def addLinksCall (part : NodePart) (n : Node) : Except Fault Node :=
  addLinks 0 (part.links.take (part.links.length % 256))
    ((part.changes.map fun change ↦ (change.1 % 256, change.2 % 256)).take
      (part.changes.length % 256)) n

/-- `copy_available_slot_matrix`: rows of five bytes, row zero skipped. -/
def copyAvailableSlotMatrix (n : Node) (availableSlotMatrix : List ℕ) : Except Fault Node :=
  if availableSlotMatrix.length < (n.deploymentNodeCount + 1) * 5 then .error .invalidAccess
  else .ok { n with
    matrix := fun row col ↦
      if 1 ≤ row ∧ row ≤ n.deploymentNodeCount ∧ col < 5 then
        availableSlotMatrix.getD (5 * row + col) 0 % 256
      else n.matrix row col }

/-- `sf[i] = tsch_schedule_get_slotframe_by_handle(i)`, removed if there is one and created anew. -/
def recreateSlotframe (n : Node) (i size : ℕ) : Except Fault Node := do
  -- removing `NULL` does nothing
  let (_, mac) ← tschScheduleRemoveSlotframe n.mac (tschScheduleGetSlotframeByHandle n.mac i)
  let (sf, mac) ← tschScheduleAddSlotframe mac i size
  return { n with sf := update n.sf i sf, mac := mac }

/-- The blocks `if (node_id == ..)` of a schedule file. -/
def runNodePart (n : Node) (part : NodePart) : Except Fault Node := do
  let n := match part.own with
    | none => n
    | some (flow, receiver, length) => { n with
        ownTransmissionFlow := flow % 256
        ownReceiver := receiver % 256
        scheduleLength := length % 65536 }
  let n := { n with
    forwardTo := part.forwardTo.foldl (fun t entry ↦ (t.insert entry.1 entry.2).2) n.forwardTo }
  let n ← addLinksCall part n
  match part.timeSource with
  | none => return n
  | some id => do
    let n := setDestinationLinkAddr n id
    let (_, mac) ← tschQueueUpdateTimeSource n.mac (some n.destination)
    return { n with mac := mac }

def setFlowTables (n : Node) (schedule : GeneratedSchedule) : Node :=
  { n with
    lastReceivedRelayedPacketOfFlow := schedule.flows.foldl
      (fun t flow ↦ (t.insert flow.flowNumber 0).2) n.lastReceivedRelayedPacketOfFlow
    senderOfFlow := schedule.flows.foldl
      (fun f flow ↦ update f flow.flowNumber (flow.source % 256)) n.senderOfFlow
    receiverOfFlow := schedule.flows.foldl
      (fun f flow ↦ update f flow.flowNumber (flow.destination % 256)) n.receiverOfFlow
    firstTxSlotInFlow := schedule.txWindows.foldl
      (fun f w ↦ update f w.flowIndex
        (update (f w.flowIndex) w.index (w.firstTxSlot % 65536))) n.firstTxSlotInFlow
    lastTxSlotInFlow := schedule.txWindows.foldl
      (fun f w ↦ update f w.flowIndex
        (update (f w.flowIndex) w.index (w.lastTxSlot % 65536))) n.lastTxSlotInFlow }

/-- `LINK_OPTION_RX | LINK_OPTION_TX | LINK_OPTION_SHARED | LINK_OPTION_TIME_KEEPING`. -/
def beaconLinkOptions : ℕ := 15

/-- The beacon link in the last slot, for schedules that are too short. -/
def addBeaconLink (n : Node) : Option ℕ → Except Fault (Option ℕ × Mac)
  | none => .ok (none, n.mac)
  | some timeslot => tschScheduleAddLink n.mac (n.sf 1)
      ⟨beaconLinkOptions, .advertising, tschBroadcastAddress, timeslot, 0⟩

def generatedSchedule (schedule : GeneratedSchedule) (n : Node) : Except Fault Node := do
  let n := { n with scheduleLength := schedule.scheduleLength % 65536 }
  let n ← schedule.flows.foldlM
    (fun n flow ↦ recreateSlotframe n flow.flowNumber n.scheduleLength) n
  let n ← runNodePart (setFlowTables n schedule) (schedule.nodePart n.nodeId)
  let (_, mac) ← addBeaconLink n schedule.beaconSlot
  copyAvailableSlotMatrix { n with
    mac := mac, maxSlotFrameUsed := schedule.maxSlotFrameUsed % 256 } schedule.availableSlotMatrix

/-- The receive link of the discovery slotframe: its cell is the node's own one when the matrix has
one, else the slot numbered like the node. -/
def discoveryLinkRequest (n : Node) : LinkRequest :=
  if n.matrix n.nodeId 3 ≠ 0 then
    ⟨2, .normal, getAddressByNodeID n.nodeId, n.matrix n.nodeId 3, n.matrix n.nodeId 4⟩
  else ⟨2, .normal, getAddressByNodeID n.nodeId, n.nodeId, 0⟩

def discoverySize : ℕ := 40

def installDiscoverySchedule (n : Node) : Except Fault Node := do
  let n ← recreateSlotframe n (n.maxSlotFrameUsed + 1) discoverySize
  let (_, mac) ← tschScheduleAddLink n.mac (n.sf (n.maxSlotFrameUsed + 1)) (discoveryLinkRequest n)
  return { n with mac := mac, ownReceiver := 0 }

def ebLinkRequest : LinkRequest := ⟨3, .advertisingOnly, tschBroadcastAddress, 0, 0⟩

/-- `master_install_schedule`, with `MASTER_EBSF_PERIOD`. -/
def masterInstallSchedule (ebsfPeriod : ℕ) (n : Node) : Except Fault Node := do
  let (_, mac) ← tschScheduleRemoveSlotframe n.mac (n.sf 0)
  let (sf, mac) ← tschScheduleAddSlotframe mac 0 ebsfPeriod
  let (_, mac) ← tschScheduleAddLink mac sf ebLinkRequest
  installDiscoverySchedule { n with sf := update n.sf 0 sf, mac := mac }

def initMasterRouting (n : Node) : Except Fault Node := do
  let (_, mac) ← tschScheduleRemoveAllSlotframes n.mac
  let (sf, mac) ← tschScheduleAddSlotframe mac 0 1
  let (_, mac) ← tschScheduleAddLink mac sf ebLinkRequest
  return { n with
    masternetLen := maximalRoutingPacketSize
    sf := update n.sf 0 sf
    highestNodeID := n.nodeId
    mac := mac }

def applyGeneratedSchedule (schedule : GeneratedSchedule) (n : Node) : Except Fault Node := do
  let n ← generatedSchedule schedule n
  let n ← installDiscoverySchedule n
  addLinkToBestNode n

theorem copyAvailableSlotMatrix_frame {n m : Node} {availableSlotMatrix : List ℕ}
    (hcall : copyAvailableSlotMatrix n availableSlotMatrix = .ok m) :
    ∃ matrix, m = { n with matrix := matrix } := by
  unfold copyAvailableSlotMatrix at hcall
  split at hcall
  · cases hcall
  · cases hcall
    exact ⟨_, rfl⟩

end ContikiMaster.Routing
