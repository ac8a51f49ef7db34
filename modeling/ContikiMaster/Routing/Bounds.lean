import ContikiMaster.Routing.Frame

/-!
# Indices taken from received packets

The handlers of frames and enhanced beacons index tables by bytes of the packets. A ghost
log collects these accesses; what one past the end does to memory is not modelled. All lie
inside the tables exactly when every packet does what the handlers expect.
-/

namespace ContikiMaster.Routing

open Sys Tsch Lib Function List Option

def maxExpectedNodesInNetwork : ℕ := 30

/-- The arrays that received bytes index; `rcvdData` is the array of the received `ActualData`,
`actualData` the local copy of the coordinator. -/
inductive Buffer
  | receiverOfFlow | senderOfFlow | historyAdSeqArray | nodeRcvdTracker | strengthVector
  | receivedCounter | rcvdData | actualData
  deriving DecidableEq

/-- The sizes the build fixes, and the arithmetic of `float`. -/
structure ReceiverConfig where
  masterNumFlows : ℕ
  numCoojaNodes : ℕ
  float : List ℕ → ℚ
  quotient : ℕ → ℕ → ℚ

def Buffer.size (config : ReceiverConfig) : Buffer → ℕ
  | .receiverOfFlow | .senderOfFlow => config.masterNumFlows + 1
  | .historyAdSeqArray | .nodeRcvdTracker => config.numCoojaNodes + 1
  | .strengthVector | .receivedCounter => maxExpectedNodesInNetwork
  | .rcvdData => maxExpectedSizeOfActualData
  | .actualData => masterMsgLength

structure Access where
  buffer : Buffer
  index : ℕ
  deriving DecidableEq

def Access.InRange (config : ReceiverConfig) (access : Access) : Prop :=
  access.index < access.buffer.size config

def InRange (config : ReceiverConfig) (accesses : List Access) : Prop :=
  ∀ access ∈ accesses, access.InRange config

/-- The indices of `onReceivedNewBeacon`. -/
def beaconAccesses (n : Node) (receivedBeacon : Beacon) : List Access :=
  ⟨.receivedCounter, receivedBeacon.nodeID⟩ ::
    (range (max n.highestNodeID receivedBeacon.nodeID)).flatMap fun k ↦
      [⟨.receivedCounter, k + 1⟩, ⟨.strengthVector, k + 1⟩]

/-- The indices of the flow logic of `master_routing_input`. -/
def flowAccesses (flowNumber : ℕ) : List Access :=
  [⟨.receiverOfFlow, flowNumber⟩, ⟨.senderOfFlow, flowNumber⟩]

/-- The indices of `on_received_advertisement`. -/
def advertisementAccesses (n : Node) (adv : Advertisement) : List Access :=
  if adv.bestNode = n.nodeId then []
  else
    [⟨.strengthVector, adv.nodeId⟩, ⟨.historyAdSeqArray, adv.nodeId⟩] ++
      if n.historyAdSeqArray adv.nodeId = adv.seq ∨ n.nodeId = 1 then []
      else [⟨.historyAdSeqArray, adv.nodeId⟩, ⟨.strengthVector, adv.nodeId⟩]

def routePos (rcvdAcdt : ActualData) : ℕ := rcvdAcdt.data.getD 0 0 * 3 + 1

/-- The indices of the forwarding part of `on_received_actual_data`. -/
def forwardAccesses (rcvdAcdt : ActualData) : List Access :=
  let pos := routePos rcvdAcdt
  let numberOfNodes := (rcvdAcdt.data.getD pos 0 + 1) % 256
  [⟨.rcvdData, 0⟩, ⟨.rcvdData, pos⟩, ⟨.rcvdData, pos⟩, ⟨.rcvdData, pos + numberOfNodes⟩]

/-- The number of nodes the coordinator reads from its local copy, which holds the received bytes
and behind them what the stack held. -/
def reportedNodes (stack : ℕ → ℕ) (rcvdAcdt : ActualData) : ℕ :=
  let pos := routePos rcvdAcdt
  if pos < rcvdAcdt.dataLen then rcvdAcdt.data.getD pos 0 else stack pos

/-- The node the coordinator takes the report to be from. -/
def reportedBy (rcvdAcdt : ActualData) : ℕ := rcvdAcdt.data.getD (routePos rcvdAcdt + 1) 0

/-- The coordinator's part of the memory of one node, and the ghost log of accesses. -/
structure Receiver where
  node : Node
  nodeRcvdTracker : ℕ → ℕ
  rcvdActualDataCounter : ℕ
  accesses : List Access

def completes (config : ReceiverConfig) (s : Receiver) (rcvdAcdt : ActualData) : Bool :=
  s.nodeRcvdTracker (reportedBy rcvdAcdt) == 0 &&
    (s.rcvdActualDataCounter + 1) % 256 + 1 == config.numCoojaNodes

/-- The indices of the coordinator's part of `on_received_actual_data`. -/
def coordinatorAccesses (config : ReceiverConfig) (s : Receiver) (stack : ℕ → ℕ)
    (rcvdAcdt : ActualData) : List Access :=
  (range rcvdAcdt.dataLen).flatMap (fun i ↦ [⟨.rcvdData, i⟩, ⟨.actualData, i⟩]) ++
    [⟨.rcvdData, 0⟩, ⟨.actualData, routePos rcvdAcdt⟩] ++
    ((range (reportedNodes stack rcvdAcdt)).map fun i ↦
      ⟨.actualData, routePos rcvdAcdt + 1 + i⟩) ++
    [⟨.rcvdData, routePos rcvdAcdt + 1⟩] ++
    ((range (rcvdAcdt.data.getD 0 0)).flatMap fun k ↦
      [⟨.rcvdData, 3 * k + 1⟩, ⟨.rcvdData, 3 * k + 2⟩, ⟨.rcvdData, 3 * k + 3⟩]) ++
    [⟨.nodeRcvdTracker, reportedBy rcvdAcdt⟩] ++
    if completes config s rcvdAcdt then
      ((range s.node.highestNodeID).map fun k ↦ ⟨.strengthVector, k + 1⟩) ++
        (range (config.numCoojaNodes + 1)).map fun i ↦ ⟨.nodeRcvdTracker, i⟩
    else []

/-- The indices of `master_routing_input`, with the handlers it calls. -/
def frameAccesses (config : ReceiverConfig) (s : Receiver) (stack localData : ℕ → ℕ)
    (frame : List ℕ) : List Access :=
  if acceptedLength frame.length then
    match decodeData config.float stack frame with
    | .beacon => flowAccesses s.node.mrp.flowNumber
    | .advertisement adv => advertisementAccesses s.node adv
    | .actualData rcvdAcdt =>
      if s.node.nodeId = 1 then coordinatorAccesses config s localData rcvdAcdt
      else forwardAccesses rcvdAcdt
    | .unknown _ => flowAccesses (mrpDataByte stack frame 0)
  else []

/-- What a node receives: the bytes of a frame, with what two places of the stack hold, or an
enhanced beacon with its number and the address byte of its source. -/
inductive Reception
  | frame (bytes : List ℕ) (stack localData : ℕ → ℕ) (env : OutputEnv)
  | enhancedBeacon (seq source : ℕ)

def trackReport (config : ReceiverConfig) (s : Receiver) (rcvdAcdt : ActualData) : Receiver :=
  if completes config s rcvdAcdt then
    { s with
      nodeRcvdTracker := fun i ↦ if i < config.numCoojaNodes + 1 then 0 else
        update s.nodeRcvdTracker (reportedBy rcvdAcdt) 1 i
      rcvdActualDataCounter := 0 }
  else if s.nodeRcvdTracker (reportedBy rcvdAcdt) = 0 then
    { s with
      nodeRcvdTracker := update s.nodeRcvdTracker (reportedBy rcvdAcdt) 1
      rcvdActualDataCounter := (s.rcvdActualDataCounter + 1) % 256 }
  else s

def trackFrame (config : ReceiverConfig) (s : Receiver) (stack : ℕ → ℕ) (frame : List ℕ) :
    Receiver :=
  match decodeData config.float stack frame with
  | .actualData rcvdAcdt =>
    if acceptedLength frame.length ∧ s.node.nodeId = 1 then trackReport config s rcvdAcdt else s
  | _ => s

/-- The memory after a frame; that of a call that does not return is left as it was. -/
def nodeAfter (config : ReceiverConfig) (n : Node) (stack : ℕ → ℕ) (frame : List ℕ)
    (env : OutputEnv) : Node :=
  match handleFrame config.float n stack frame env with
  | .ok result => result.node
  | .error _ => n

def receive (config : ReceiverConfig) (s : Receiver) : Reception → Option Receiver
  | .frame bytes stack localData env =>
    some { trackFrame config s stack bytes with
      node := nodeAfter config s.node stack bytes env
      accesses := s.accesses ++ frameAccesses config s stack localData bytes }
  | .enhancedBeacon seq source =>
    some { s with
      node := onReceivedNewBeacon config.quotient s.node ⟨source, seq⟩
      accesses := s.accesses ++ beaconAccesses s.node ⟨source, seq⟩ }

/-- What a node expects of received data: the coordinator, that the copied bytes, the strengths and
the route fit and that it knows the node; another node, that there is room for it in the route. -/
def ReportFits (config : ReceiverConfig) (n : Node) (localData : ℕ → ℕ) (rcvdAcdt : ActualData) :
    Prop :=
  if n.nodeId = 1 then
    rcvdAcdt.dataLen ≤ maxExpectedSizeOfActualData ∧
      routePos rcvdAcdt + 1 < maxExpectedSizeOfActualData ∧
      routePos rcvdAcdt + reportedNodes localData rcvdAcdt < masterMsgLength ∧
      reportedBy rcvdAcdt ≤ config.numCoojaNodes
  else
    routePos rcvdAcdt + (rcvdAcdt.data.getD (routePos rcvdAcdt) 0 + 1) % 256 <
      maxExpectedSizeOfActualData

/-- What the handlers expect of a frame of accepted length. -/
def FrameExpected (config : ReceiverConfig) (n : Node) (stack localData : ℕ → ℕ)
    (frame : List ℕ) : Prop :=
  match decodeData config.float stack frame with
  | .beacon => n.mrp.flowNumber ≤ config.masterNumFlows
  | .advertisement adv => adv.bestNode = n.nodeId ∨
    adv.nodeId < maxExpectedNodesInNetwork ∧ adv.nodeId ≤ config.numCoojaNodes
  | .actualData rcvdAcdt => ReportFits config n localData rcvdAcdt
  | .unknown _ => mrpDataByte stack frame 0 ≤ config.masterNumFlows

/-- What the handlers expect of a received packet. -/
def Expected (config : ReceiverConfig) (s : Receiver) : Reception → Prop
  | .frame bytes stack localData _ =>
    acceptedLength bytes.length → FrameExpected config s.node stack localData bytes
  | .enhancedBeacon _ source => source < maxExpectedNodesInNetwork

section Handlers

variable {config : ReceiverConfig} {s : Receiver} {n : Node} {accesses accesses' : List Access}

@[simp] theorem inRange_nil : InRange config [] := forall_mem_nil _

@[simp] theorem inRange_cons {access : Access} : InRange config (access :: accesses) ↔
    access.InRange config ∧ InRange config accesses := forall_mem_cons

@[simp] theorem inRange_append : InRange config (accesses ++ accesses') ↔
    InRange config accesses ∧ InRange config accesses' := forall_mem_append

variable {count : ℕ} {rcvdAcdt : ActualData}

theorem inRange_flatMap_range {body : ℕ → List Access} :
    InRange config ((range count).flatMap body) ↔ ∀ k < count, InRange config (body k) := by
  unfold InRange
  simp only [mem_flatMap, mem_range, forall_exists_index, and_imp]
  exact ⟨fun hall k hk access hmem ↦ hall access k hk hmem,
    fun hall access k hk hmem ↦ hall k hk access hmem⟩

theorem inRange_map_range {body : ℕ → Access} :
    InRange config ((List.range count).map body) ↔ ∀ k < count, (body k).InRange config := by
  unfold InRange
  simp only [List.mem_map, List.mem_range, forall_exists_index, and_imp, forall_apply_eq_imp_iff₂]

theorem beaconAccesses_inRange_iff {receivedBeacon : Beacon}
    (hown : n.highestNodeID < maxExpectedNodesInNetwork) :
    InRange config (beaconAccesses n receivedBeacon) ↔
      receivedBeacon.nodeID < maxExpectedNodesInNetwork := by
  unfold beaconAccesses
  rw [inRange_cons, inRange_flatMap_range]
  refine ⟨And.left, fun hsource ↦ ⟨hsource, fun k hk ↦ ?_⟩⟩
  have hnode : k + 1 < maxExpectedNodesInNetwork := by omega
  exact inRange_cons.mpr ⟨hnode, inRange_cons.mpr ⟨hnode, inRange_nil⟩⟩

theorem flowAccesses_inRange_iff {flowNumber : ℕ} :
    InRange config (flowAccesses flowNumber) ↔ flowNumber ≤ config.masterNumFlows := by
  unfold flowAccesses
  simp only [inRange_cons, inRange_nil, and_true, Access.InRange, Buffer.size]
  omega

theorem advertisementAccesses_inRange_iff {adv : Advertisement} :
    InRange config (advertisementAccesses n adv) ↔ adv.bestNode = n.nodeId ∨
      adv.nodeId < maxExpectedNodesInNetwork ∧ adv.nodeId ≤ config.numCoojaNodes := by
  unfold advertisementAccesses
  by_cases hbest : adv.bestNode = n.nodeId
  · simp [hbest]
  · rw [if_neg hbest]
    split
    · simp only [inRange_append, inRange_cons, inRange_nil, and_true, Access.InRange, Buffer.size]
      omega
    · simp only [inRange_append, inRange_cons, inRange_nil, and_true, Access.InRange, Buffer.size]
      omega

theorem forwardAccesses_inRange_iff : InRange config (forwardAccesses rcvdAcdt) ↔
      routePos rcvdAcdt + (rcvdAcdt.data.getD (routePos rcvdAcdt) 0 + 1) % 256 <
        maxExpectedSizeOfActualData := by
  unfold forwardAccesses
  simp only [inRange_cons, inRange_nil, and_true, Access.InRange, Buffer.size]
  have hsize : 0 < maxExpectedSizeOfActualData := by decide
  omega

theorem coordinatorAccesses_inRange_iff {stack : ℕ → ℕ}
    (hown : s.node.highestNodeID < maxExpectedNodesInNetwork) :
    InRange config (coordinatorAccesses config s stack rcvdAcdt) ↔
      rcvdAcdt.dataLen ≤ maxExpectedSizeOfActualData ∧
        routePos rcvdAcdt + 1 < maxExpectedSizeOfActualData ∧
        routePos rcvdAcdt + reportedNodes stack rcvdAcdt < masterMsgLength ∧
        reportedBy rcvdAcdt ≤ config.numCoojaNodes := by
  have hcompleted : InRange config (if completes config s rcvdAcdt then
      ((range s.node.highestNodeID).map fun k ↦ (⟨.strengthVector, k + 1⟩ : Access)) ++
        (range (config.numCoojaNodes + 1)).map fun i ↦ (⟨.nodeRcvdTracker, i⟩ : Access)
      else []) := by
    split
    · rw [inRange_append, inRange_map_range, inRange_map_range]
      exact ⟨fun k hk ↦ (show k + 1 < maxExpectedNodesInNetwork by omega), fun i hi ↦ hi⟩
    · exact inRange_nil
  have hpos : routePos rcvdAcdt = rcvdAcdt.data.getD 0 0 * 3 + 1 := rfl
  have hbound : maxExpectedSizeOfActualData = 57 := rfl
  have hlocal : masterMsgLength = 68 := rfl
  unfold coordinatorAccesses
  simp only [inRange_append, inRange_cons, inRange_nil, inRange_flatMap_range, inRange_map_range,
    hcompleted, and_true, Access.InRange, Buffer.size]
  constructor
  · rintro ⟨⟨⟨⟨⟨hcopy, -, hfirst⟩, hroute⟩, hfrom⟩, -⟩, hnode⟩
    refine ⟨?_, hfrom, ?_, Nat.le_of_lt_succ hnode⟩
    · by_contra hlong
      have hlast := (hcopy maxExpectedSizeOfActualData (by omega)).1
      exact absurd hlast (lt_irrefl _)
    · by_cases hnone : reportedNodes stack rcvdAcdt = 0
      · omega
      · have hlast := hroute (reportedNodes stack rcvdAcdt - 1) (by omega)
        omega
  · rintro ⟨hlen, hfrom, hroute, hnode⟩
    refine ⟨⟨⟨⟨⟨fun i hi ↦ ⟨by omega, by omega⟩, by omega, by omega⟩, fun i hi ↦ by omega⟩, hfrom⟩,
      fun k hk ↦ ⟨by omega, by omega, by omega⟩⟩, Nat.lt_succ_of_le hnode⟩

theorem frameAccesses_inRange_iff {frame : List ℕ} {stack localData : ℕ → ℕ}
    (hown : s.node.highestNodeID < maxExpectedNodesInNetwork) :
    InRange config (frameAccesses config s stack localData frame) ↔
      (acceptedLength frame.length → FrameExpected config s.node stack localData frame) := by
  unfold frameAccesses
  by_cases haccepted : acceptedLength frame.length
  · rw [if_pos haccepted, forall_prop_of_true haccepted]
    unfold FrameExpected
    cases decodeData config.float stack frame with
    | beacon => exact flowAccesses_inRange_iff
    | advertisement adv => exact advertisementAccesses_inRange_iff
    | actualData rcvdAcdt =>
      unfold ReportFits
      dsimp only
      split
      · exact coordinatorAccesses_inRange_iff hown
      · exact forwardAccesses_inRange_iff
    | unknown bytes => exact flowAccesses_inRange_iff
  · rw [if_neg haccepted]
    exact iff_of_true inRange_nil fun hlen ↦ absurd hlen haccepted

end Handlers

/-! ## The highest node number -/

section HighestNodeID

variable {n m : Node} {env : OutputEnv} {out : Option NetworkOutput}

theorem output_highestNodeID {o : NetworkOutput} {dest : Linkaddr}
    (hcall : output n dest env = .ok (o, m)) : m.highestNodeID = n.highestNodeID := by
  obtain ⟨-, mac, rfl⟩ := output_spec hcall
  rfl

theorem onReceivedAdvertisement_highestNodeID {adv : Advertisement}
    (hcall : onReceivedAdvertisement n adv env = .ok (out, m)) :
    m.highestNodeID = n.highestNodeID := by
  unfold onReceivedAdvertisement at hcall
  split at hcall
  · cases hcall
    rfl
  · obtain ⟨u, hselect, hresend⟩ := bind_eq_ok hcall
    have hselected : u.highestNodeID = n.highestNodeID := by
      obtain ⟨seq, maxStrength, hrefreshed⟩ := @refreshStrength_frame n adv
        (min adv.strengthToMaster (getStrengthByNodeID n adv.nodeId))
      rw [hrefreshed] at hselect
      unfold selectBestNode at hselect
      dsimp only at hselect
      split at hselect
      · split at hselect
        · cases hselect
          rfl
        · obtain ⟨link, mac, rfl⟩ := addLinkToBestNode_frame hselect
          rfl
      · cases hselect
        rfl
    unfold resendAdvertisement at hresend
    split at hresend
    · cases hresend
      exact hselected
    · split at hresend
      · cases hresend
        exact hselected
      · obtain ⟨⟨o, w⟩, hsend, hdone⟩ := bind_eq_ok hresend
        cases hdone
        exact (output_highestNodeID hsend).trans hselected

theorem onReceivedActualData_highestNodeID {rcvdAcdt : ActualData}
    (hcall : onReceivedActualData n rcvdAcdt env = .ok (out, m)) :
    m.highestNodeID = n.highestNodeID := by
  unfold onReceivedActualData at hcall
  split at hcall
  · cases hcall
    rfl
  · obtain ⟨actualData, -, hrest⟩ := bind_eq_ok hcall
    obtain ⟨⟨o, w⟩, hsend, hdone⟩ := bind_eq_ok hrest
    cases hdone
    exact (output_highestNodeID hsend).trans rfl

variable {len : ℕ} {result : InputResult}

theorem relay_highestNodeID (hcall : relay n len env = .ok (out, m)) :
    m.highestNodeID = n.highestNodeID := by
  unfold relay at hcall
  dsimp only at hcall
  split at hcall
  · split at hcall
    · obtain ⟨⟨o, w⟩, hsend, hdone⟩ := bind_eq_ok hcall
      cases hdone
      exact (output_highestNodeID hsend).trans rfl
    · cases hcall
      rfl
  · cases hcall
    rfl

theorem deliverOrRelay_highestNodeID (hcall : deliverOrRelay n len env = .ok result) :
    result.node.highestNodeID = n.highestNodeID := by
  unfold deliverOrRelay at hcall
  split at hcall
  · split at hcall
    · cases hcall
      rfl
    · cases hcall
      rfl
  · obtain ⟨⟨o, w⟩, hrelay, hdone⟩ := bind_eq_ok hcall
    cases hdone
    exact relay_highestNodeID hrelay

theorem masterRoutingInput_highestNodeID {frame : MasterRoutingPacket}
    (hcall : masterRoutingInput n frame len env = .ok result) :
    result.node.highestNodeID = n.highestNodeID := by
  unfold masterRoutingInput at hcall
  split at hcall
  · split at hcall
    · exact deliverOrRelay_highestNodeID hcall
    · obtain ⟨⟨o, w⟩, hadvertisement, hdone⟩ := bind_eq_ok hcall
      cases hdone
      exact onReceivedAdvertisement_highestNodeID hadvertisement
    · obtain ⟨⟨o, w⟩, hactualData, hdone⟩ := bind_eq_ok hcall
      cases hdone
      exact onReceivedActualData_highestNodeID hactualData
    · exact (deliverOrRelay_highestNodeID hcall).trans rfl
  · cases hcall
    rfl

theorem nodeAfter_highestNodeID {config : ReceiverConfig} {stack : ℕ → ℕ} {frame : List ℕ} :
    (nodeAfter config n stack frame env).highestNodeID = n.highestNodeID := by
  unfold nodeAfter
  split
  · rename_i hcall
    exact masterRoutingInput_highestNodeID hcall
  · rfl

end HighestNodeID

section Runs

variable {config : ReceiverConfig} {s t : Receiver}

/-- Nothing has gone wrong: the accesses so far were in range, and so are the loops over the nodes
heard. -/
def Receiver.Sound (config : ReceiverConfig) (s : Receiver) : Prop :=
  InRange config s.accesses ∧ s.node.highestNodeID < maxExpectedNodesInNetwork

theorem receive_sound_iff (reception : Reception) (hstep : StepOf (receive config) s reception t) :
    t.Sound config ↔ s.Sound config ∧ Expected config s reception := by
  cases reception with
  | frame bytes stack localData env =>
    obtain rfl := some.inj hstep
    unfold Receiver.Sound
    dsimp only
    rw [nodeAfter_highestNodeID, inRange_append]
    constructor
    · rintro ⟨⟨hbefore, hframe⟩, hown⟩
      exact ⟨⟨hbefore, hown⟩, (frameAccesses_inRange_iff hown).mp hframe⟩
    · rintro ⟨⟨hbefore, hown⟩, hexpected⟩
      exact ⟨⟨hbefore, (frameAccesses_inRange_iff hown).mpr hexpected⟩, hown⟩
  | enhancedBeacon seq source =>
    obtain rfl := some.inj hstep
    unfold Receiver.Sound
    dsimp only
    rw [inRange_append]
    change _ ∧ max s.node.highestNodeID source < _ ↔ _ ∧ source < _
    rw [max_lt_iff]
    constructor
    · rintro ⟨⟨hbefore, -⟩, hown, hsource⟩
      exact ⟨⟨hbefore, hown⟩, hsource⟩
    · rintro ⟨⟨hbefore, hown⟩, hsource⟩
      exact ⟨⟨hbefore, (beaconAccesses_inRange_iff hown).mpr hsource⟩, hown, hsource⟩

theorem highestNodeID_of_inRange {receptions : List Reception}
    (hrun : Run (StepOf (receive config)) s receptions t)
    (hown : s.node.highestNodeID < maxExpectedNodesInNetwork) :
    InRange config t.accesses → t.node.highestNodeID < maxExpectedNodesInNetwork := by
  refine hrun.invariant (P := fun s : Receiver ↦ InRange config s.accesses →
    s.node.highestNodeID < maxExpectedNodesInNetwork) (fun s reception t hs hstep ↦ ?_) fun _ ↦ hown
  cases reception with
  | frame bytes stack localData env =>
    obtain rfl := some.inj hstep
    dsimp only
    rw [nodeAfter_highestNodeID, inRange_append]
    exact fun hboth ↦ hs hboth.1
  | enhancedBeacon seq source =>
    obtain rfl := some.inj hstep
    dsimp only
    rw [inRange_append]
    rintro ⟨hbefore, hbeacon⟩
    have hown := hs hbefore
    exact max_lt hown ((beaconAccesses_inRange_iff hown).mp hbeacon)

/-- From a node whose own number fits the tables, all accesses of a run are in range exactly when
every packet of it is as expected. -/
theorem receptions_inRange_iff {receptions : List Reception}
    (hrun : Run (StepOf (receive config)) s receptions t) (hfirst : s.accesses = [])
    (hown : s.node.highestNodeID < maxExpectedNodesInNetwork) :
    InRange config t.accesses ↔
      Run (GuardedStepOf (receive config) (Expected config)) s receptions t := by
  have hsound : s.Sound config := by
    refine ⟨?_, hown⟩
    rw [hfirst]
    exact inRange_nil
  have hiff := hrun.good_iff_guarded (P := Receiver.Sound config) (p := Expected config)
    fun s reception t ↦ receive_sound_iff reception
  calc
    InRange config t.accesses ↔ t.Sound config :=
      ⟨fun hrange ↦ ⟨hrange, highestNodeID_of_inRange hrun hown hrange⟩, And.left⟩
    _ ↔ Run (GuardedStepOf (receive config) (Expected config)) s receptions t :=
      hiff.trans (and_iff_right hsound)

def fiveNodes : ReceiverConfig := ⟨2, 5, fun _ ↦ 0, fun _ _ ↦ 1⟩

def secondNode : Receiver := ⟨Node.zero 2 5 8 (Mac.zero smallConfig), fun _ ↦ 0, 0, []⟩

theorem receptions_inRange_iff_three :
    ∃ t, InRange fiveNodes t.accesses ↔
      Run (GuardedStepOf (receive fiveNodes) (Expected fiveNodes)) secondNode
        [.enhancedBeacon 1 3] t :=
  ⟨_, receptions_inRange_iff (.cons rfl (.nil _)) rfl (by decide)⟩

/-- One beacon from node 30. -/
theorem not_inRange_thirty : ∃ t, Run (StepOf (receive fiveNodes)) secondNode
    [.enhancedBeacon 1 30] t ∧ ¬ InRange fiveNodes t.accesses := by
  refine ⟨_, .cons rfl (.nil _), fun hrange ↦ ?_⟩
  have hthirty : (30 : ℕ) < 30 := hrange ⟨.receivedCounter, 30⟩ mem_cons_self
  exact absurd hthirty (lt_irrefl 30)

end Runs

end ContikiMaster.Routing
