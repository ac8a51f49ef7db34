import ContikiMaster.Routing.Install
import Mathlib.Data.Rat.Floor

/-!
# Sending, relaying and collecting

The functions of `master-routing.c` that call `NETSTACK_NETWORK.output`: the
application's packets, the relay of received ones, and the collection of link
strengths. Stack memory that is sent without having been written is zero. The
coordinator only logs the data it collects. The TTL of a packet that `unicastSend`
sends is computed in an `int` of at least 32 bits.
-/

namespace ContikiMaster.Routing

open Sys Tsch

/-- The index of the next entry of `first_tx_slot_in_flow`, of which a slotframe has `count`. -/
def firstNextIdx (firstTxSlot : ℕ → ℕ) (count currentSfSlot : ℕ) : ℕ :=
  if firstTxSlot (count - 1) < currentSfSlot then 0
  else ((List.range count).find? fun index ↦ decide (currentSfSlot ≤ firstTxSlot index)).getD 0

/-- The `earliest_tx_slot` and `ttl_slot_number` of the next packet of the application. -/
def nextTxWindow (n : Node) : Except Fault (ℕ × ℕ) :=
  match tschScheduleGetSlotframeByHandle n.mac n.ownTransmissionFlow with
  | none => .error .invalidAccess
  | some sf =>
    let sfSize := (n.mac.slotframe sf).size
    let w := n.mac.intWidth
    let currentSfSlot := n.mac.tschCurrentAsn.mod w sfSize
    let firstTxSlot := n.firstTxSlotInFlow (n.ownTransmissionFlow - 1)
    let lastTxSlot := n.lastTxSlotInFlow (n.ownTransmissionFlow - 1)
    -- a division by zero, or index minus one
    if sfSize / n.scheduleLength = 0 then .error .invalidAccess
    else
      let idx := firstNextIdx firstTxSlot (sfSize / n.scheduleLength) currentSfSlot
      let earliest := (n.asn16 + w.wrap (sfSize + firstTxSlot idx - currentSfSlot) % sfSize) % 65536
      let length : ℤ := (w.value (sfSize + lastTxSlot idx - firstTxSlot idx)).tmod sfSize
      .ok (earliest, ((earliest + length) % 65536).toNat)

/-- The number of slots from the current one to a TTL, both included, as `max_tx` holds it. -/
def slotsUntil (n : Node) (ttlSlotNumber : ℕ) : ℕ :=
  (tschSlotnumDiff16 ttlSlotNumber ((n.mac.tschCurrentAsn.ls4b : ℤ) - 1) % 65536).toNat

/-- The end of `master_routing_send`, with the packet prepared. -/
def sendPrepared (n : Node) (datalen : ℕ) (env : OutputEnv) :
    Except Fault (Option NetworkOutput × Node) :=
  let nextReceiver := n.forwardTo.lookup n.mrp.flowNumber % 256
  if nextReceiver = 0 then .ok (none, n)
  else do
    let n := setDestinationLinkAddr n nextReceiver
    let (out, n) ← output { n with
      sentPacketConfiguration := ⟨n.mrp.ttlSlotNumber, n.mrp.earliestTxSlot, n.mrp.flowNumber,
        slotsUntil n n.mrp.ttlSlotNumber⟩
      masternetLen := (minimalRoutingPacketSize + datalen) % 65536 } n.destination env
    return (some out, n)

def masterRoutingSend (n : Node) (data : PacketData) (datalen : ℕ) (env : OutputEnv) :
    Except Fault (Option NetworkOutput × Node) :=
  if n.ownTransmissionFlow = 0 then .ok (none, n)
  else if masterMsgLength < datalen then .error .invalidAccess
  else do
    let (earliest, ttl) ← nextTxWindow n
    let packetNumber := (n.ownPacketNumber + 1) % 65536
    let n := { n with mrp := ⟨n.ownTransmissionFlow, packetNumber, ttl, earliest, data⟩ }
    -- too high sending frequency: the number is taken back, the packet stays
    if tschSlotnumLt earliest n.lastSentPacketTtl then return (none, n)
    else
      sendPrepared { n with ownPacketNumber := packetNumber, lastSentPacketTtl := ttl } datalen env

def masterRoutingSendto (n : Node) (data : PacketData) (datalen receiver : ℕ) (env : OutputEnv) :
    Except Fault (Option NetworkOutput × Node) :=
  if receiver = n.ownReceiver then masterRoutingSend n data datalen env else .ok (none, n)

def unicastSend (n : Node) (env : OutputEnv) : Except Fault (NetworkOutput × Node) :=
  output { n with
    mrp := { n.mrp with
      earliestTxSlot := n.asn16
      ttlSlotNumber := (n.asn16 + 30) % 0xFFFF
      flowNumber := (n.maxSlotFrameUsed + 1) % 256 }
    sentPacketConfiguration := { n.sentPacketConfiguration with maxTx := 1 }
    masternetLen := minimalRoutingPacketSize + sizeofActualData }
    (getAddressByNodeID n.bestNode) env

/-- `memcpy` into the array of an `ActualData`. -/
def copyBytes (data : Vector ℕ maxExpectedSizeOfActualData) (index : ℕ) (bytes : List ℕ) :
    Except Fault (Vector ℕ maxExpectedSizeOfActualData) :=
  if maxExpectedSizeOfActualData < index + bytes.length then .error .invalidAccess
  else .ok (Vector.ofFn fun i ↦
    if index ≤ i.val then bytes.getD (i.val - index) data[i] else data[i])

/-- The fixed-point encoding of a strength, in 16 bits. -/
def strengthValue (strength : ℚ) : ℕ := ⌊strength * 10000⌋.toNat % 65536

/-- `prepareStrengthVectorToSend`: the next index, as a byte, and the array. -/
def prepareStrengthVectorToSend (n : Node) (data : Vector ℕ maxExpectedSizeOfActualData) :
    Except Fault (ℕ × Vector ℕ maxExpectedSizeOfActualData) := do
  let data ← copyBytes data 0 [n.highestNodeID % 256]
  let data ← (List.range n.highestNodeID).foldlM (fun data k ↦
    let value := strengthValue (n.strengthVector (k + 1))
    copyBytes data (3 * k + 1) [(k + 1) % 256, value % 256, value / 256]) data
  return ((3 * n.highestNodeID + 1) % 256, data)

def masterRoutingSendActualData (n : Node) (env : OutputEnv) :
    Except Fault (Option NetworkOutput × Node) :=
  if n.bestNode = 0 then .ok (none, n)
  else do
    let (index, data) ← prepareStrengthVectorToSend n (Vector.replicate _ 0)
    let data ← copyBytes data index [1, n.nodeId % 256]
    let actualData : ActualData := ⟨n.nodeId % 256, (index + 2) % 256, data⟩
    let (out, n) ← unicastSend { n with mrp := { n.mrp with data := .actualData actualData } } env
    return (some out, n)

/-- The forwarding part of `on_received_actual_data`: the node counts itself in the route and
appends its number. -/
def forwardActualData (n : Node) (rcvdAcdt : ActualData) : Except Fault ActualData := do
  let pos := rcvdAcdt.data.getD 0 0 * 3 + 1
  let numberOfNodes := (rcvdAcdt.data.getD pos 0 + 1) % 256
  let data ← copyBytes rcvdAcdt.data pos [numberOfNodes]
  let data ← copyBytes data (pos + numberOfNodes) [n.nodeId % 256]
  return { rcvdAcdt with dataLen := (rcvdAcdt.dataLen + 1) % 256, data := data }

def onReceivedActualData (n : Node) (rcvdAcdt : ActualData) (env : OutputEnv) :
    Except Fault (Option NetworkOutput × Node) :=
  if n.nodeId = 1 then .ok (none, n)
  else do
    let actualData ← forwardActualData n rcvdAcdt
    let (out, n) ← unicastSend { n with mrp := { n.mrp with data := .actualData actualData } } env
    return (some out, n)

/-- What the upper layer's callback is called with. -/
structure Delivery where
  data : PacketData
  datalen : ℕ
  source : ℕ
  dest : ℕ

/-- What a received packet leads to. -/
structure InputResult where
  output : Option NetworkOutput
  delivery : Option Delivery
  node : Node

/-- Whether the packet in `mrp` is newer than the last one of its flow. -/
def isNewPacket (n : Node) : Bool :=
  tschSlotnumLt (n.lastReceivedRelayedPacketOfFlow.lookup n.mrp.flowNumber % 65536 : ℕ)
    n.mrp.packetNumber

/-- The packet in `mrp` becomes the last one of its flow. -/
def updateLastReceived (n : Node) : Node :=
  { n with
    lastReceivedRelayedPacketOfFlow :=
      (n.lastReceivedRelayedPacketOfFlow.insert n.mrp.flowNumber n.mrp.packetNumber).2 }

/-- The call of the upper layer for the packet in `mrp`. -/
def forwardToUpperLayer (n : Node) (len : ℕ) : Option Delivery :=
  if minimalRoutingPacketSize < len then
    some ⟨n.mrp.data, len - minimalRoutingPacketSize, n.senderOfFlow n.mrp.flowNumber,
      n.receiverOfFlow n.mrp.flowNumber⟩
  else none

/-- The relay of the packet in `mrp`. -/
def relay (n : Node) (len : ℕ) (env : OutputEnv) : Except Fault (Option NetworkOutput × Node) :=
  let nextReceiver := n.forwardTo.lookup n.mrp.flowNumber % 256
  if nextReceiver ≠ 0 ∧ isNewPacket n then
    let n := setDestinationLinkAddr (updateLastReceived n) nextReceiver
    let n := { n with
      sentPacketConfiguration := { n.sentPacketConfiguration with flowNumber := n.mrp.flowNumber } }
    if tschSlotnumLt n.asn16 (n.mrp.ttlSlotNumber + 1) then do
      let (out, n) ← output { n with
        sentPacketConfiguration := ⟨n.mrp.ttlSlotNumber, n.mrp.earliestTxSlot,
          n.sentPacketConfiguration.flowNumber, slotsUntil n n.mrp.ttlSlotNumber⟩
        masternetLen := len } n.destination env
      return (some out, n)
    else .ok (none, n)
  else .ok (none, n)

/-- What `master_routing_input` does with the packet in `mrp`. -/
def deliverOrRelay (n : Node) (len : ℕ) (env : OutputEnv) : Except Fault InputResult :=
  if n.nodeId = n.receiverOfFlow n.mrp.flowNumber then
    if isNewPacket n then .ok ⟨none, forwardToUpperLayer n len, updateLastReceived n⟩
    else .ok ⟨none, none, n⟩
  else do
    let (out, n) ← relay n len env
    return ⟨out, none, n⟩

/-- `master_routing_input`. A beacon packet is not copied to `mrp`, which keeps what it was left
with. -/
def masterRoutingInput (n : Node) (frame : MasterRoutingPacket) (len : ℕ) (env : OutputEnv) :
    Except Fault InputResult :=
  if minimalRoutingPacketSize ≤ len ∧ len ≤ maximalRoutingPacketSize then
    match frame.data with
    | .beacon => deliverOrRelay n len env
    | .advertisement adv => do
      let (out, n) ← onReceivedAdvertisement n adv env
      return ⟨out, none, n⟩
    | .actualData actualData => do
      let (out, n) ← onReceivedActualData n actualData env
      return ⟨out, none, n⟩
    | .unknown _ => deliverOrRelay { n with mrp := frame } len env
  else .ok ⟨none, none, n⟩

inductive NodeOp
  | send (data : PacketData) (datalen : ℕ) (env : OutputEnv)
  | sendto (data : PacketData) (datalen receiver : ℕ) (env : OutputEnv)
  | input (frame : MasterRoutingPacket) (len : ℕ) (env : OutputEnv)
  | sendActualData (env : OutputEnv)
  | issue (env : OutputEnv)
  | beacon (beacon : Beacon)
  | start
  | installSchedule (ebsfPeriod : ℕ)
  | applyGeneratedSchedule (schedule : GeneratedSchedule)
  | macCall (op : MacOp)

/-- One step: what is handed to `NETSTACK_NETWORK.output`, if anything, and the next memory. -/
def Node.next (quotient : ℕ → ℕ → ℚ) (n : Node) : NodeOp → Option (Option NetworkOutput × Node)
  | .send data datalen env => (masterRoutingSend n data datalen env).toOption
  | .sendto data datalen receiver env =>
    (masterRoutingSendto n data datalen receiver env).toOption
  | .input frame len env =>
    (masterRoutingInput n frame len env).toOption.map fun result ↦ (result.output, result.node)
  | .sendActualData env => (masterRoutingSendActualData n env).toOption
  | .issue env => (issueAdvertisement n env).toOption.map fun (out, m) ↦ (some out, m)
  | .beacon beacon =>
    if 0 < max n.highestSequence beacon.seq then some (none, onReceivedNewBeacon quotient n beacon)
    else none
  | .start => (initMasterRouting n).toOption.map fun m ↦ (none, m)
  | .installSchedule ebsfPeriod =>
    (masterInstallSchedule ebsfPeriod n).toOption.map fun m ↦ (none, m)
  | .applyGeneratedSchedule schedule =>
    (Routing.applyGeneratedSchedule schedule n).toOption.map fun m ↦ (none, m)
  | .macCall op => (n.mac.next op).map fun mac ↦ (none, { n with mac := mac })

end ContikiMaster.Routing
