import ContikiMaster.Sys.HashMap
import ContikiMaster.Tsch.Mac
import Mathlib.Algebra.Order.Ring.Rat

/-!
# The routing layer of one node

The static variables of `master-routing.c` and `strength-vector.c`, built with a Master
schedule, and the choice of the best node. Link strengths are rationals; how a quotient is
rounded is a parameter. Packets carry decoded content. Logging, LEDs and accesses past the
end of an array are left out.
-/

namespace ContikiMaster.Routing

open Sys Tsch Lib Function

structure Advertisement where
  nodeId : ℕ
  seq : ℕ
  bestNode : ℕ
  strengthToMaster : ℚ
  deriving DecidableEq

def maxExpectedSizeOfActualData : ℕ := 57

/-- `ActualData`; only the first `dataLen` bytes of the array are meaningful. -/
structure ActualData where
  nodeId : ℕ
  dataLen : ℕ
  data : Vector ℕ maxExpectedSizeOfActualData
  deriving DecidableEq

/-- The content of a routing packet, by its packet type. -/
inductive PacketData
  | beacon
  | advertisement (adv : Advertisement)
  | actualData (data : ActualData)
  | unknown (bytes : List ℕ)
  deriving DecidableEq

structure MasterRoutingPacket where
  flowNumber : ℕ
  packetNumber : ℕ
  ttlSlotNumber : ℕ
  earliestTxSlot : ℕ
  data : PacketData
  deriving DecidableEq

structure MasterPacketbufConfig where
  ttlSlotNumber : ℕ
  earliestTxSlot : ℕ
  flowNumber : ℕ
  maxTx : ℕ
  deriving DecidableEq

def masterMsgLength : ℕ := 68

/-- `minimal_routing_packet_size`: the header of a routing packet. -/
def minimalRoutingPacketSize : ℕ := 7

def maximalRoutingPacketSize : ℕ := minimalRoutingPacketSize + masterMsgLength

def sizeofAdvertisement : ℕ := 17

def sizeofActualData : ℕ := 68

structure Node where
  nodeId : ℕ
  mrp : MasterRoutingPacket
  masternetLen : ℕ
  sentPacketConfiguration : MasterPacketbufConfig
  deploymentNodeCount : ℕ
  forwardTo : HashTable
  lastReceivedRelayedPacketOfFlow : HashTable
  firstTxSlotInFlow : ℕ → ℕ → ℕ
  lastTxSlotInFlow : ℕ → ℕ → ℕ
  lastSentPacketTtl : ℕ
  scheduleLength : ℕ
  maxAdvertisementSeq : ℕ
  bestNode : ℕ
  bestTschSheduleLink : Option ℕ
  maxMasterStrength : ℚ
  historyAdSeqArray : ℕ → ℕ
  matrix : ℕ → ℕ → ℕ
  maxSlotFrameUsed : ℕ
  ownPacketNumber : ℕ
  ownReceiver : ℕ
  ownTransmissionFlow : ℕ
  sf : ℕ → Option ℕ
  receiverOfFlow : ℕ → ℕ
  senderOfFlow : ℕ → ℕ
  destination : Linkaddr
  strengthVector : ℕ → ℚ
  receivedCounter : ℕ → ℕ
  highestSequence : ℕ
  highestNodeID : ℕ
  /-- The counter of the application that issues the advertisements. -/
  advCounter : ℕ
  mac : Mac

def Node.zero (nodeId deploymentNodeCount hashMapSize : ℕ) (mac : Mac) : Node where
  nodeId := nodeId
  mrp := ⟨0, 0, 0, 0, .unknown []⟩
  masternetLen := maximalRoutingPacketSize
  sentPacketConfiguration := ⟨0, 0, 0, 0⟩
  deploymentNodeCount := deploymentNodeCount
  forwardTo := HashTable.clear hashMapSize
  lastReceivedRelayedPacketOfFlow := HashTable.clear hashMapSize
  firstTxSlotInFlow := fun _ _ ↦ 0
  lastTxSlotInFlow := fun _ _ ↦ 0
  lastSentPacketTtl := 0
  scheduleLength := 0
  maxAdvertisementSeq := 0
  bestNode := 0
  bestTschSheduleLink := none
  maxMasterStrength := 0
  historyAdSeqArray := fun _ ↦ 0
  matrix := fun _ _ ↦ 0
  maxSlotFrameUsed := 0
  ownPacketNumber := 0
  ownReceiver := 0
  ownTransmissionFlow := 0
  sf := fun _ ↦ none
  receiverOfFlow := fun _ ↦ 0
  senderOfFlow := fun _ ↦ 0
  destination := linkaddrNull
  strengthVector := fun _ ↦ 0
  receivedCounter := fun _ ↦ 0
  highestSequence := 0
  highestNodeID := nodeId
  advCounter := 0
  mac := mac

/-- The low 16 bits of `tsch_current_asn.ls4b`. -/
def Node.asn16 (n : Node) : ℕ := n.mac.tschCurrentAsn.ls4b % 65536

def getAddressByNodeID (id : ℕ) : Linkaddr := nodeAddr id

def macMaxPayload : ℕ := 125

def fixedHdrlen : ℕ := 21

/-- What the framer and the queue buffers answer to one output. -/
structure OutputEnv where
  framerHdrlen : Option ℕ
  framed : Option Framed
  queuebufAvailable : Bool

/-- What `NETSTACK_NETWORK.output` is called with: the packet in `masternet_buf`, the
configuration the callback returns, and the destination. -/
structure NetworkOutput where
  mrp : MasterRoutingPacket
  masternetLen : ℕ
  configuration : MasterPacketbufConfig
  dest : Linkaddr
  deriving DecidableEq

/-- The packet buffer `output` prepares; its bytes are those the framer returns. -/
def outputPacketbuf (configuration : MasterPacketbufConfig) (dest : Linkaddr) : Packetbuf where
  data := []
  receiver := dest
  maxMacTransmissions := configuration.maxTx
  flowNumber := configuration.flowNumber
  transmissionTtl := configuration.ttlSlotNumber
  earliestTxSlot := configuration.earliestTxSlot

/-- `output` of `master-net.c`. -/
def output (n : Node) (dest : Linkaddr) (env : OutputEnv) : Except Fault (NetworkOutput × Node) :=
  let out : NetworkOutput := ⟨n.mrp, n.masternetLen, n.sentPacketConfiguration, dest⟩
  if n.masternetLen ≤ macMaxPayload - env.framerHdrlen.getD fixedHdrlen then do
    let (_, mac) ← sendPacket n.mac (outputPacketbuf n.sentPacketConfiguration dest) env.framed
      env.queuebufAvailable
    return (out, { n with mac := mac })
  else .ok (out, n)

/-- `Beacon`, as `neighbor_discovery_input` fills it. -/
structure Beacon where
  nodeID : ℕ
  seq : ℕ

/-- `onReceivedNewBeacon`, with the quotient as the arithmetic rounds it. -/
def onReceivedNewBeacon (quotient : ℕ → ℕ → ℚ) (n : Node) (receivedBeacon : Beacon) : Node :=
  let highestSequence := max n.highestSequence receivedBeacon.seq
  let highestNodeID := max n.highestNodeID receivedBeacon.nodeID
  let receivedCounter := update n.receivedCounter receivedBeacon.nodeID
    (n.receivedCounter receivedBeacon.nodeID + 1)
  { n with
    highestSequence := highestSequence
    highestNodeID := highestNodeID
    receivedCounter := receivedCounter
    strengthVector := fun i ↦
      if 1 ≤ i ∧ i ≤ highestNodeID then quotient (receivedCounter i) highestSequence
      else n.strengthVector i }

def getStrengthByNodeID (n : Node) (nodeID : ℕ) : ℚ := n.strengthVector nodeID

/-- The removal of the old link in `add_link_to_best_node`. -/
def removeBestLink (n : Node) : Except Fault (Bool × Mac) :=
  match n.bestTschSheduleLink with
  | none => .ok (false, n.mac)
  | some link => tschScheduleRemoveLink n.mac (n.sf (n.maxSlotFrameUsed + 1)) (some link)

/-- The Tx link to the best node: its cell is the node's own one when the matrix has one, else
the slot numbered like the best node. -/
def bestLinkRequest (n : Node) : LinkRequest :=
  if n.matrix n.nodeId 1 ≠ 0 then
    ⟨1, .normal, getAddressByNodeID n.bestNode, n.matrix n.nodeId 1, n.matrix n.nodeId 2⟩
  else ⟨1, .normal, getAddressByNodeID n.bestNode, n.bestNode, 0⟩

def addLinkToBestNode (n : Node) : Except Fault Node := do
  let (_, mac) ← removeBestLink n
  let (link, mac) ← tschScheduleAddLink mac (n.sf (n.maxSlotFrameUsed + 1)) (bestLinkRequest n)
  return { n with bestTschSheduleLink := link, mac := mac }

def masterRoutingSendAdvertisement (n : Node) (strength : ℚ) (advSeq bestNode : ℕ)
    (env : OutputEnv) : Except Fault (NetworkOutput × Node) :=
  let advertisementData : Advertisement :=
    ⟨n.nodeId % 256, advSeq % 65536, bestNode % 256, strength⟩
  output { n with
    mrp := { n.mrp with
      earliestTxSlot := n.asn16
      ttlSlotNumber := (n.asn16 + 30) % 0xFFFF
      data := .advertisement advertisementData }
    masternetLen := minimalRoutingPacketSize + sizeofAdvertisement
    historyAdSeqArray := update n.historyAdSeqArray advertisementData.nodeId
      (advertisementData.seq % 256)
    sentPacketConfiguration := { n.sentPacketConfiguration with maxTx := 1, flowNumber := 0 } }
    tschBroadcastAddress env

def masterRoutingSendAdvertisementSendto (n : Node) (strength : ℚ) (advSeq bestNode : ℕ)
    (env : OutputEnv) : Except Fault (NetworkOutput × Node) :=
  let n := { n with
    maxAdvertisementSeq := advSeq, bestNode := bestNode, maxMasterStrength := strength }
  masterRoutingSendAdvertisement n strength advSeq n.bestNode env

/-- The application of the coordinator, every 15 seconds. -/
def issueAdvertisement (n : Node) (env : OutputEnv) : Except Fault (NetworkOutput × Node) :=
  let advCounter := (n.advCounter + 1) % 65536
  masterRoutingSendAdvertisementSendto { n with advCounter := advCounter } 100 advCounter
    (n.nodeId % 256) env

/-- The first branch of `on_received_advertisement`: a newer number is noted, and one that comes
from the best node refreshes the strength, up or down. -/
def refreshStrength (n : Node) (adv : Advertisement) (currentStrength : ℚ) : Node :=
  if n.maxAdvertisementSeq < adv.seq then
    { n with
      maxAdvertisementSeq := adv.seq
      maxMasterStrength :=
        if n.bestNode = adv.nodeId then currentStrength else n.maxMasterStrength }
  else n

/-- The second branch: a stronger sender becomes the best node. -/
def selectBestNode (n : Node) (adv : Advertisement) (currentStrength : ℚ) : Except Fault Node :=
  if n.maxAdvertisementSeq ≤ adv.seq ∧ n.maxMasterStrength < currentStrength then
    let n := { n with maxMasterStrength := currentStrength }
    if n.bestNode = adv.nodeId then .ok n
    else addLinkToBestNode { n with bestNode := adv.nodeId }
  else .ok n

/-- The third branch: an advertisement that is not in the history is re-broadcast. -/
def resendAdvertisement (n : Node) (adv : Advertisement) (env : OutputEnv) :
    Except Fault (Option NetworkOutput × Node) :=
  -- a cell of the history has 8 bits, the sequence number 16
  if n.historyAdSeqArray adv.nodeId = adv.seq then .ok (none, n)
  else if n.nodeId = 1 then .ok (none, n)
  else do
    let n := { n with
      historyAdSeqArray := update n.historyAdSeqArray adv.nodeId (adv.seq % 256) }
    let (out, n) ← masterRoutingSendAdvertisement n n.maxMasterStrength n.maxAdvertisementSeq
      n.bestNode env
    return (some out, n)

def onReceivedAdvertisement (n : Node) (adv : Advertisement) (env : OutputEnv) :
    Except Fault (Option NetworkOutput × Node) :=
  if adv.bestNode = n.nodeId then .ok (none, n)
  else do
    let currentStrength := min adv.strengthToMaster (getStrengthByNodeID n adv.nodeId)
    let n ← selectBestNode (refreshStrength n adv currentStrength) adv currentStrength
    resendAdvertisement n adv env

section Frames

variable {n m : Node} {out : NetworkOutput} {dest : Linkaddr} {env : OutputEnv}

theorem output_spec (hcall : output n dest env = .ok (out, m)) :
    out = ⟨n.mrp, n.masternetLen, n.sentPacketConfiguration, dest⟩ ∧
      ∃ mac, m = { n with mac := mac } := by
  unfold output at hcall
  simp only at hcall
  split at hcall
  · obtain ⟨⟨p, mac⟩, -, hdone⟩ := bind_eq_ok hcall
    cases hdone
    exact ⟨rfl, mac, rfl⟩
  · cases hcall
    exact ⟨rfl, n.mac, rfl⟩

theorem addLinkToBestNode_frame (hcall : addLinkToBestNode n = .ok m) :
    ∃ link mac, m = { n with bestTschSheduleLink := link, mac := mac } := by
  unfold addLinkToBestNode at hcall
  obtain ⟨⟨removed, mac⟩, -, hrest⟩ := bind_eq_ok hcall
  obtain ⟨⟨link, mac'⟩, -, hdone⟩ := bind_eq_ok hrest
  cases hdone
  exact ⟨link, mac', rfl⟩

end Frames

end ContikiMaster.Routing
