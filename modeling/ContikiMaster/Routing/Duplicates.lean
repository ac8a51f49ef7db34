import ContikiMaster.Lib.SerialNumber
import ContikiMaster.Routing.Frame
import ContikiMaster.Sys.HashMapStore

/-!
# Duplicate detection of a flow

The sender of a flow numbers its packets in 16 bits, and a node takes only packets whose
number is serially after the last one. Frames may be lost, repeated and reordered, as long
as those of one flow are less than half the circle of numbers apart. Then what a node takes
comes in the order of the sender, each packet at most once.
-/

namespace ContikiMaster.Routing

open Sys Tsch Lib Function List Option

theorem tschSlotnumLt_iff {a b : ℤ} : tschSlotnumLt a b = true ↔ SerialLt 32768 a b := by
  rw [tschSlotnumLt, decide_eq_true_iff]
  rfl

/-! ## What does not change the numbers -/

section Numbers

variable {n m : Node} {env : OutputEnv} {out : Option NetworkOutput}

def KeepsNumbers (n m : Node) : Prop :=
  m.lastReceivedRelayedPacketOfFlow = n.lastReceivedRelayedPacketOfFlow

variable {o : NetworkOutput} {datalen : ℕ} {adv : Advertisement}

theorem output_keepsNumbers {dest : Linkaddr} (hcall : output n dest env = .ok (o, m)) :
    KeepsNumbers n m := by
  obtain ⟨-, mac, rfl⟩ := output_spec hcall
  rfl

theorem sendPrepared_keepsNumbers (hcall : sendPrepared n datalen env = .ok (out, m)) :
    KeepsNumbers n m := by
  unfold sendPrepared at hcall
  simp only at hcall
  split at hcall
  · cases hcall
    rfl
  · obtain ⟨⟨o, k⟩, houtput, hdone⟩ := bind_eq_ok hcall
    have hkept := output_keepsNumbers houtput
    cases hdone
    exact hkept

theorem masterRoutingSend_keepsNumbers {data : PacketData}
    (hcall : masterRoutingSend n data datalen env = .ok (out, m)) : KeepsNumbers n m := by
  unfold masterRoutingSend at hcall
  split at hcall
  · cases hcall
    rfl
  split at hcall
  · cases hcall
  obtain ⟨⟨earliest, ttl⟩, -, hrest⟩ := bind_eq_ok hcall
  simp only at hrest
  split at hrest
  · cases hrest
    rfl
  · have hkept := sendPrepared_keepsNumbers hrest
    exact hkept

theorem unicastSend_keepsNumbers (hcall : unicastSend n env = .ok (o, m)) : KeepsNumbers n m := by
  have hkept := output_keepsNumbers hcall
  exact hkept

theorem masterRoutingSendActualData_keepsNumbers
    (hcall : masterRoutingSendActualData n env = .ok (out, m)) : KeepsNumbers n m := by
  unfold masterRoutingSendActualData at hcall
  split at hcall
  · cases hcall
    rfl
  · obtain ⟨⟨index, data⟩, -, hrest⟩ := bind_eq_ok hcall
    obtain ⟨data', -, hrest'⟩ := bind_eq_ok hrest
    obtain ⟨⟨o, k⟩, hsend, hdone⟩ := bind_eq_ok hrest'
    have hkept := unicastSend_keepsNumbers hsend
    cases hdone
    exact hkept

theorem onReceivedActualData_keepsNumbers {rcvdAcdt : ActualData}
    (hcall : onReceivedActualData n rcvdAcdt env = .ok (out, m)) : KeepsNumbers n m := by
  unfold onReceivedActualData at hcall
  split at hcall
  · cases hcall
    rfl
  · obtain ⟨data, -, hrest⟩ := bind_eq_ok hcall
    obtain ⟨⟨o, k⟩, hsend, hdone⟩ := bind_eq_ok hrest
    have hkept := unicastSend_keepsNumbers hsend
    cases hdone
    exact hkept

theorem selectBestNode_keepsNumbers {strength : ℚ} (hcall : selectBestNode n adv strength = .ok m) :
    KeepsNumbers n m := by
  unfold selectBestNode at hcall
  split at hcall
  · simp only at hcall
    split at hcall
    · cases hcall
      rfl
    · obtain ⟨link, mac, rfl⟩ := addLinkToBestNode_frame hcall
      rfl
  · cases hcall
    rfl

theorem resendAdvertisement_keepsNumbers (hcall : resendAdvertisement n adv env = .ok (out, m)) :
    KeepsNumbers n m := by
  unfold resendAdvertisement at hcall
  split at hcall
  · cases hcall
    rfl
  split at hcall
  · cases hcall
    rfl
  obtain ⟨⟨o, k⟩, hsend, hdone⟩ := bind_eq_ok hcall
  have hkept := output_keepsNumbers hsend
  cases hdone
  exact hkept

theorem onReceivedAdvertisement_keepsNumbers
    (hcall : onReceivedAdvertisement n adv env = .ok (out, m)) : KeepsNumbers n m := by
  unfold onReceivedAdvertisement at hcall
  split at hcall
  · cases hcall
    rfl
  · obtain ⟨k, hselect, hresend⟩ := bind_eq_ok hcall
    obtain ⟨seq, maxStrength, hrefreshed⟩ := @refreshStrength_frame n adv
      (min adv.strengthToMaster (getStrengthByNodeID n adv.nodeId))
    have hkept := selectBestNode_keepsNumbers hselect
    rw [hrefreshed] at hkept
    exact (resendAdvertisement_keepsNumbers hresend).trans hkept

theorem recreateSlotframe_keepsNumbers {i size : ℕ}
    (hcall : recreateSlotframe n i size = .ok m) : KeepsNumbers n m := by
  unfold recreateSlotframe at hcall
  obtain ⟨⟨removed, mac⟩, -, hrest⟩ := bind_eq_ok hcall
  obtain ⟨⟨sf, mac'⟩, -, hdone⟩ := bind_eq_ok hrest
  cases hdone
  rfl

theorem installDiscoverySchedule_keepsNumbers (hcall : installDiscoverySchedule n = .ok m) :
    KeepsNumbers n m := by
  obtain ⟨k, hcreate, hrest⟩ := bind_eq_ok hcall
  obtain ⟨⟨link, mac⟩, -, hdone⟩ := bind_eq_ok hrest
  have hkept := recreateSlotframe_keepsNumbers hcreate
  cases hdone
  exact hkept

/-- The steps of a node other than the reception of a packet of a flow and the installation of
the schedule, which sets the numbers of its flows to zero. -/
def NodeOp.leavesNumbers : NodeOp → Bool
  | .input ⟨_, _, _, _, .advertisement _⟩ _ _ => true
  | .input ⟨_, _, _, _, .actualData _⟩ _ _ => true
  | .input _ _ _ => false
  | .applyGeneratedSchedule _ => false
  | _ => true

theorem input_keepsNumbers {frame : MasterRoutingPacket} {len : ℕ} {result : InputResult}
    (hleaves : (NodeOp.input frame len env).leavesNumbers = true)
    (hcall : masterRoutingInput n frame len env = .ok result) : KeepsNumbers n result.node := by
  unfold masterRoutingInput at hcall
  split at hcall
  · obtain ⟨flow, number, ttl, earliest, data⟩ := frame
    cases data with
    | beacon => cases hleaves
    | advertisement adv =>
      obtain ⟨⟨o, m⟩, hreceive, hdone⟩ := bind_eq_ok hcall
      cases hdone
      exact onReceivedAdvertisement_keepsNumbers hreceive
    | actualData actualData =>
      obtain ⟨⟨o, m⟩, hreceive, hdone⟩ := bind_eq_ok hcall
      cases hdone
      exact onReceivedActualData_keepsNumbers hreceive
    | unknown bytes => cases hleaves
  · cases hcall
    rfl

theorem next_keepsNumbers {quotient : ℕ → ℕ → ℚ} {op : NodeOp} (hleaves : op.leavesNumbers = true)
    (hnext : n.next quotient op = some (out, m)) : KeepsNumbers n m := by
  cases op with
  | send data datalen env => exact masterRoutingSend_keepsNumbers (toOption_eq_some hnext)
  | sendto data datalen receiver env =>
    have hcall := toOption_eq_some hnext
    unfold masterRoutingSendto at hcall
    split at hcall
    · exact masterRoutingSend_keepsNumbers hcall
    · cases hcall
      rfl
  | input frame len env =>
    obtain ⟨result, hcall, hdone⟩ := map_eq_some_iff.mp hnext
    cases hdone
    exact input_keepsNumbers hleaves (toOption_eq_some hcall)
  | sendActualData env => exact masterRoutingSendActualData_keepsNumbers (toOption_eq_some hnext)
  | issue env =>
    obtain ⟨⟨o, k⟩, hcall, hdone⟩ := map_eq_some_iff.mp hnext
    have hkept := output_keepsNumbers (toOption_eq_some hcall)
    cases hdone
    exact hkept
  | beacon beacon =>
    change (if _ then some _ else none) = some (out, m) at hnext
    split at hnext
    · cases hnext
      rfl
    · cases hnext
  | start =>
    obtain ⟨k, hcall, hdone⟩ := map_eq_some_iff.mp hnext
    cases hdone
    obtain ⟨⟨removed, mac⟩, -, hrest⟩ := bind_eq_ok (toOption_eq_some hcall)
    obtain ⟨⟨sf, mac'⟩, -, hrest'⟩ := bind_eq_ok hrest
    obtain ⟨⟨link, mac''⟩, -, hdone'⟩ := bind_eq_ok hrest'
    cases hdone'
    rfl
  | installSchedule ebsfPeriod =>
    obtain ⟨k, hcall, hdone⟩ := map_eq_some_iff.mp hnext
    cases hdone
    obtain ⟨⟨removed, mac⟩, -, hrest⟩ := bind_eq_ok (toOption_eq_some hcall)
    obtain ⟨⟨sf, mac'⟩, -, hrest'⟩ := bind_eq_ok hrest
    obtain ⟨⟨link, mac''⟩, -, hinstall⟩ := bind_eq_ok hrest'
    have hkept := installDiscoverySchedule_keepsNumbers hinstall
    exact hkept
  | applyGeneratedSchedule schedule => cases hleaves
  | macCall op =>
    obtain ⟨mac, -, hdone⟩ := map_eq_some_iff.mp hnext
    cases hdone
    rfl

end Numbers

/-- A packet of a flow: how many packets its sender had numbered with it, and what it carries. -/
structure FlowPacket where
  flowNumber : ℕ
  index : ℕ
  ttlSlotNumber : ℕ
  earliestTxSlot : ℕ
  bytes : List ℕ
  len : ℕ
  deriving DecidableEq

namespace FlowPacket

def packetNumber (x : FlowPacket) : ℕ := x.index % 65536

def mrp (x : FlowPacket) : MasterRoutingPacket :=
  ⟨x.flowNumber, x.packetNumber, x.ttlSlotNumber, x.earliestTxSlot, .unknown x.bytes⟩

end FlowPacket

def Node.lastNumber (n : Node) (flowNumber : ℕ) : ℕ :=
  n.lastReceivedRelayedPacketOfFlow.lookup flowNumber

/-- The packet becomes the last one of its flow: it is of accepted length, the node is the
receiver or has a next node for it, and it is newer than the last one. -/
def Node.Takes (n : Node) (x : FlowPacket) : Prop :=
  acceptedLength x.len ∧
    (n.nodeId = n.receiverOfFlow x.flowNumber ∨ n.forwardTo.lookup x.flowNumber % 256 ≠ 0) ∧
    tschSlotnumLt (n.lastNumber x.flowNumber % 65536 : ℕ) x.packetNumber = true

instance (n : Node) (x : FlowPacket) : Decidable (n.Takes x) :=
  inferInstanceAs (Decidable (_ ∧ _ ∧ _))

/-- The packet is handed to the upper layer or relayed. -/
def InputResult.passesOn (result : InputResult) : Bool :=
  result.delivery.isSome || result.output.isSome

section Input

variable {n : Node} {x : FlowPacket} {env : OutputEnv} {result : InputResult}

theorem relay_spec {m : Node} {out : Option NetworkOutput}
    (hcall : relay { n with mrp := x.mrp } x.len env = .ok (out, m)) :
    if n.forwardTo.lookup x.flowNumber % 256 ≠ 0 ∧
        tschSlotnumLt (n.lastNumber x.flowNumber % 65536 : ℕ) x.packetNumber = true then
      m.lastReceivedRelayedPacketOfFlow =
        (n.lastReceivedRelayedPacketOfFlow.insert x.flowNumber x.packetNumber).2
    else KeepsNumbers n m ∧ out = none := by
  unfold relay at hcall
  change (if n.forwardTo.lookup x.flowNumber % 256 ≠ 0 ∧
    tschSlotnumLt (n.lastNumber x.flowNumber % 65536 : ℕ) x.packetNumber = true then _
    else _) = _ at hcall
  split at hcall
  · rename_i htaken
    rw [if_pos htaken]
    dsimp only at hcall
    split at hcall
    · obtain ⟨⟨o, k⟩, houtput, hdone⟩ := bind_eq_ok hcall
      have hkept := output_keepsNumbers houtput
      cases hdone
      exact hkept
    · cases hcall
      rfl
  · rename_i hrefused
    rw [if_neg hrefused]
    cases hcall
    exact ⟨rfl, rfl⟩

theorem masterRoutingInput_spec (hcall : masterRoutingInput n x.mrp x.len env = .ok result) :
    if n.Takes x then
      result.node.lastReceivedRelayedPacketOfFlow =
        (n.lastReceivedRelayedPacketOfFlow.insert x.flowNumber x.packetNumber).2
    else KeepsNumbers n result.node ∧ result.passesOn = false := by
  change (if acceptedLength x.len then deliverOrRelay { n with mrp := x.mrp } x.len env
    else _) = _ at hcall
  by_cases hlen : acceptedLength x.len
  · rw [if_pos hlen] at hcall
    unfold deliverOrRelay at hcall
    change (if n.nodeId = n.receiverOfFlow x.flowNumber then
      if tschSlotnumLt (n.lastNumber x.flowNumber % 65536 : ℕ) x.packetNumber = true then _ else _
      else _) = _ at hcall
    by_cases hreceiver : n.nodeId = n.receiverOfFlow x.flowNumber
    · rw [if_pos hreceiver] at hcall
      split at hcall
      · rename_i hnew
        rw [if_pos ⟨hlen, Or.inl hreceiver, hnew⟩]
        cases hcall
        rfl
      · rename_i hold
        rw [if_neg fun htakes ↦ hold htakes.2.2]
        cases hcall
        exact ⟨rfl, rfl⟩
    · rw [if_neg hreceiver] at hcall
      obtain ⟨⟨out, m⟩, hrelay, hdone⟩ := bind_eq_ok hcall
      cases hdone
      have hspec := relay_spec hrelay
      split at hspec
      · rename_i htaken
        rw [if_pos ⟨hlen, Or.inr htaken.1, htaken.2⟩]
        exact hspec
      · rename_i hrefused
        rw [if_neg fun htakes ↦ hrefused ⟨htakes.2.1.resolve_left hreceiver, htakes.2.2⟩]
        obtain ⟨hkept, rfl⟩ := hspec
        exact ⟨hkept, rfl⟩
  · rw [if_neg hlen] at hcall
    rw [if_neg fun htakes ↦ hlen htakes.1]
    cases hcall
    exact ⟨rfl, rfl⟩

end Input

/-! ## The frames in the network -/

/-- A node, the senders of the flows with the number of packets each has numbered, and the frames
in the network. The packets that became the last ones of their flows and those that were handed to
the upper layer or relayed are noted, the latest first. -/
structure Traffic where
  node : Node
  numbered : ℕ → ℕ
  inFlight : List FlowPacket
  taken : List FlowPacket
  passedOn : List FlowPacket

/-- A sender numbers and sends its next packet; a frame is lost; a frame arrives, which stays in the
network and may arrive again; the node does something else. -/
inductive TrafficOp
  | send (flowNumber ttlSlotNumber earliestTxSlot : ℕ) (bytes : List ℕ) (len : ℕ)
  | lose (x : FlowPacket)
  | receive (x : FlowPacket) (env : OutputEnv)
  | nodeStep (op : NodeOp)

namespace Traffic

def start (node : Node) (numbered : ℕ → ℕ) : Traffic := ⟨node, numbered, [], [], []⟩

def next (quotient : ℕ → ℕ → ℚ) (s : Traffic) : TrafficOp → Option Traffic
  | .send flowNumber ttlSlotNumber earliestTxSlot bytes len =>
    let x : FlowPacket :=
      ⟨flowNumber, s.numbered flowNumber + 1, ttlSlotNumber, earliestTxSlot, bytes, len⟩
    some { s with
      numbered := update s.numbered flowNumber x.index
      inFlight := x :: s.inFlight }
  | .lose x => some { s with inFlight := s.inFlight.erase x }
  | .receive x env =>
    if x ∈ s.inFlight then
      (masterRoutingInput s.node x.mrp x.len env).toOption.map fun result ↦
        { s with
          node := result.node
          taken := if s.node.Takes x then x :: s.taken else s.taken
          passedOn := if result.passesOn then x :: s.passedOn else s.passedOn }
    else none
  | .nodeStep op =>
    if op.leavesNumbers then
      (s.node.next quotient op).map fun (_, node) ↦ { s with node := node }
    else none

/-- The frames in the network are of known flows, and those of one flow are less than half the
circle of numbers apart. -/
def Admissible (flows : Finset ℕ) (s : Traffic) : Prop :=
  (∀ x ∈ s.inFlight, x.flowNumber ∈ flows) ∧
    ∀ x ∈ s.inFlight, ∀ y ∈ s.inFlight, x.flowNumber = y.flowNumber → x.index < y.index + 32768

instance (flows : Finset ℕ) : DecidablePred (Admissible flows) :=
  fun _ ↦ inferInstanceAs (Decidable (_ ∧ _))

/-- The runs in which the frames in the network are admissible at any time. -/
def AdmissibleRun (quotient : ℕ → ℕ → ℚ) (flows : Finset ℕ) : Traffic → List TrafficOp → Traffic →
    Prop :=
  Run (KeepingStepOf (next quotient) (Admissible flows))

end Traffic

def ofFlow (flowNumber : ℕ) (packets : List FlowPacket) : List FlowPacket :=
  packets.filter fun x ↦ x.flowNumber = flowNumber

theorem ofFlow_cons_self (x : FlowPacket) (packets : List FlowPacket) :
    ofFlow x.flowNumber (x :: packets) = x :: ofFlow x.flowNumber packets :=
  filter_cons_of_pos (decide_eq_true rfl)

theorem ofFlow_cons_of_ne {f : ℕ} {x : FlowPacket} (hne : x.flowNumber ≠ f)
    (packets : List FlowPacket) : ofFlow f (x :: packets) = ofFlow f packets :=
  filter_cons_of_neg (by simpa using hne)

/-- What holds between the table of the last numbers, the packets taken so far and the frames in
the network. -/
structure Traffic.Ordered (flows : Finset ℕ) (s : Traffic) : Prop where
  table : s.node.lastReceivedRelayedPacketOfFlow.Within flows
  last : ∀ f ∈ flows, ∀ x, (ofFlow f s.taken).head? = some x →
    s.node.lastNumber f = x.packetNumber
  sent : ∀ x ∈ s.inFlight, x.index ≤ s.numbered x.flowNumber
  near : ∀ f x, (ofFlow f s.taken).head? = some x → x.index ≤ s.numbered f ∧
    ∀ y ∈ s.inFlight, y.flowNumber = f → x.index < y.index + 32768
  ordered : ∀ f, (ofFlow f s.taken).Pairwise fun x y ↦ y.index < x.index
  serial : ∀ f, (ofFlow f s.taken).IsChain fun x y ↦
    tschSlotnumLt y.packetNumber x.packetNumber = true
  passed : s.passedOn.Sublist s.taken

namespace Traffic.Ordered

variable {flows : Finset ℕ} {s t : Traffic} {x : FlowPacket}

theorem advance (hordered : s.Ordered flows) (htable : KeepsNumbers s.node t.node)
    (htaken : t.taken = s.taken) (hpassed : t.passedOn = s.passedOn)
    (hnumbered : ∀ f, s.numbered f ≤ t.numbered f)
    (hsent : ∀ y ∈ t.inFlight, y.index ≤ t.numbered y.flowNumber)
    (hnew : ∀ y ∈ t.inFlight, y ∈ s.inFlight ∨ s.numbered y.flowNumber < y.index) :
    t.Ordered flows := by
  constructor
  case table =>
    rw [htable]
    exact hordered.table
  case last =>
    intro f hf x hhead
    rw [htaken] at hhead
    rw [← hordered.last f hf x hhead, Node.lastNumber, Node.lastNumber, htable]
  case sent => exact hsent
  case near =>
    intro f x hhead
    rw [htaken] at hhead
    obtain ⟨hle, hnear⟩ := hordered.near f x hhead
    refine ⟨hle.trans (hnumbered f), fun y hy hflow ↦ ?_⟩
    rcases hnew y hy with hold | hlater
    · exact hnear y hold hflow
    · rw [hflow] at hlater
      omega
  case ordered =>
    rw [htaken]
    exact hordered.ordered
  case serial =>
    rw [htaken]
    exact hordered.serial
  case passed =>
    rw [htaken, hpassed]
    exact hordered.passed

theorem index_lt_of_takes (hordered : s.Ordered flows) (hflow : x.flowNumber ∈ flows)
    (hmem : x ∈ s.inFlight) (htakes : s.node.Takes x) : ∀ y ∈ ofFlow x.flowNumber s.taken, y.index < x.index := by
  intro y hy
  cases hlist : ofFlow x.flowNumber s.taken with
  | nil =>
    rw [hlist] at hy
    cases hy
  | cons last older =>
    have hhead : (ofFlow x.flowNumber s.taken).head? = some last := by
      rw [hlist]
      rfl
    have hlast : last.index < x.index := by
      apply lt_of_serialLt ((hordered.near _ last hhead).2 x hmem rfl)
      rw [← serialLt_mod]
      have hnewer := tschSlotnumLt_iff.mp htakes.2.2
      rw [hordered.last _ hflow last hhead] at hnewer
      change SerialLt 32768 (last.index % 65536 % 65536 : ℕ) (x.index % 65536 : ℕ) at hnewer
      rwa [Nat.mod_mod] at hnewer
    have hpairwise := hordered.ordered x.flowNumber
    rw [hlist] at hy hpairwise
    rcases mem_cons.mp hy with rfl | holder
    · exact hlast
    · exact (rel_of_pairwise_cons hpairwise holder).trans hlast

theorem take (hordered : s.Ordered flows) (hzero : 0 ∉ flows) (hadmissible : s.Admissible flows)
    (hmem : x ∈ s.inFlight) (htakes : s.node.Takes x)
    (htable : t.node.lastReceivedRelayedPacketOfFlow =
      (s.node.lastReceivedRelayedPacketOfFlow.insert x.flowNumber x.packetNumber).2)
    (hnumbered : t.numbered = s.numbered) (hinFlight : t.inFlight = s.inFlight)
    (htaken : t.taken = x :: s.taken)
    (hpassed : t.passedOn = x :: s.passedOn ∨ t.passedOn = s.passedOn) : t.Ordered flows := by
  have hflow := hadmissible.1 x hmem
  obtain ⟨hwithin, hlookup⟩ := hordered.table.insert hzero hflow x.packetNumber
  rw [← htable] at hwithin hlookup
  have hself : ofFlow x.flowNumber t.taken = x :: ofFlow x.flowNumber s.taken := by
    rw [htaken, ofFlow_cons_self]
  have hother : ∀ f, f ≠ x.flowNumber → ofFlow f t.taken = ofFlow f s.taken := by
    intro f hf
    rw [htaken, ofFlow_cons_of_ne (Ne.symm hf)]
  constructor
  case table => exact hwithin
  case last =>
    intro f hfmem y hhead
    by_cases hf : f = x.flowNumber
    · rw [hf, hself] at hhead
      rw [hf, Node.lastNumber, hlookup _ hflow, if_pos rfl, some.inj hhead]
    · rw [hother f hf] at hhead
      rw [Node.lastNumber, hlookup f hfmem, if_neg hf]
      exact hordered.last f hfmem y hhead
  case sent =>
    rw [hinFlight, hnumbered]
    exact hordered.sent
  case near =>
    intro f y hhead
    rw [hinFlight, hnumbered]
    by_cases hf : f = x.flowNumber
    · rw [hf, hself] at hhead
      rw [hf, ← some.inj hhead]
      exact ⟨hordered.sent x hmem, fun z hz hzflow ↦ hadmissible.2 x hmem z hz hzflow.symm⟩
    · rw [hother f hf] at hhead
      exact hordered.near f y hhead
  case ordered =>
    intro f
    by_cases hf : f = x.flowNumber
    · rw [hf, hself, pairwise_cons]
      exact ⟨hordered.index_lt_of_takes hflow hmem htakes, hordered.ordered _⟩
    · rw [hother f hf]
      exact hordered.ordered f
  case serial =>
    intro f
    by_cases hf : f = x.flowNumber
    · rw [hf, hself, isChain_cons]
      refine ⟨fun y hy ↦ ?_, hordered.serial _⟩
      have hnewer := htakes.2.2
      rw [hordered.last _ hflow y hy, FlowPacket.packetNumber, Nat.mod_mod] at hnewer
      exact hnewer
    · rw [hother f hf]
      exact hordered.serial f
  case passed =>
    rw [htaken]
    rcases hpassed with hboth | hskipped
    · rw [hboth]
      exact hordered.passed.cons_cons x
    · rw [hskipped]
      exact hordered.passed.cons x

theorem start {size : ℕ} {entries : List (ℕ × ℕ)} {n : Node} (hpos : 0 < size) (hle : size ≤ 255)
    (hzero : 0 ∉ flows) (hroom : flows.card ≤ size) (hentries : ∀ entry ∈ entries, entry.1 ∈ flows)
    (htable : n.lastReceivedRelayedPacketOfFlow =
      entries.foldl (fun t entry ↦ (t.insert entry.1 entry.2).2) (HashTable.clear size))
    (numbered : ℕ → ℕ) : (Traffic.start n numbered).Ordered flows := by
  have htables := (HashTable.Within.clear hpos hle hroom).foldl_insert hzero hentries
  rw [← htable] at htables
  exact ⟨htables, nofun, nofun, nofun, fun _ ↦ .nil, fun _ ↦ .nil, .slnil⟩

variable {quotient : ℕ → ℕ → ℚ}

theorem step {op : TrafficOp} (hordered : s.Ordered flows) (hzero : 0 ∉ flows)
    (hadmissible : s.Admissible flows) (hnext : s.next quotient op = some t) : t.Ordered flows := by
  cases op with
  | send flowNumber ttlSlotNumber earliestTxSlot bytes len =>
    cases hnext
    refine hordered.advance rfl rfl rfl ?_ ?_ ?_
    · intro f
      change s.numbered f ≤ update s.numbered flowNumber _ f
      by_cases hf : f = flowNumber
      · rw [hf, update_self]
        exact Nat.le_succ _
      · rw [update_of_ne hf]
    · intro y hy
      change y.index ≤ update s.numbered flowNumber _ y.flowNumber
      rcases mem_cons.mp hy with rfl | hold
      · rw [update_self]
      · have hle := hordered.sent y hold
        by_cases hf : y.flowNumber = flowNumber
        · rw [hf] at hle ⊢
          rw [update_self]
          exact Nat.le_succ_of_le hle
        · rwa [update_of_ne hf]
    · intro y hy
      rcases mem_cons.mp hy with rfl | hold
      · exact Or.inr (Nat.lt_succ_self _)
      · exact Or.inl hold
  | lose x =>
    cases hnext
    refine hordered.advance rfl rfl rfl (fun f ↦ le_rfl) ?_ ?_
    · exact fun y hy ↦ hordered.sent y (mem_of_mem_erase hy)
    · exact fun y hy ↦ Or.inl (mem_of_mem_erase hy)
  | receive x env =>
    unfold Traffic.next at hnext
    dsimp only at hnext
    split at hnext
    · rename_i hmem
      obtain ⟨result, hcall, hdone⟩ := map_eq_some_iff.mp hnext
      have hspec := masterRoutingInput_spec (toOption_eq_some hcall)
      cases hdone
      by_cases htakes : s.node.Takes x
      · rw [if_pos htakes] at hspec
        refine hordered.take hzero hadmissible hmem htakes hspec rfl rfl (if_pos htakes) ?_
        by_cases hpasses : result.passesOn = true
        · exact Or.inl (if_pos hpasses)
        · exact Or.inr (if_neg hpasses)
      · rw [if_neg htakes] at hspec
        exact hordered.advance hspec.1 (if_neg htakes) (if_neg (Bool.eq_false_iff.mp hspec.2))
          (fun f ↦ le_rfl) hordered.sent fun y hy ↦ Or.inl hy
    · cases hnext
  | nodeStep op =>
    unfold Traffic.next at hnext
    dsimp only at hnext
    split at hnext
    · rename_i hleaves
      obtain ⟨⟨out, node⟩, hstep, hdone⟩ := map_eq_some_iff.mp hnext
      have hkept := next_keepsNumbers hleaves hstep
      cases hdone
      exact hordered.advance hkept rfl rfl (fun f ↦ le_rfl) hordered.sent fun y hy ↦ Or.inl hy
    · cases hnext

theorem run {ops : List TrafficOp} (hordered : s.Ordered flows) (hzero : 0 ∉ flows)
    (hadmissible : s.Admissible flows) (hrun : AdmissibleRun quotient flows s ops t) :
    t.Ordered flows := by
  have hboth : t.Ordered flows ∧ t.Admissible flows := by
    apply hrun.invariant _ ⟨hordered, hadmissible⟩
    intro u op v ⟨hu, huadmissible⟩ hstep
    exact ⟨hu.step hzero huadmissible hstep.1, hstep.2⟩
  exact hboth.1

end Traffic.Ordered

theorem Traffic.admissible_start (flows : Finset ℕ) (node : Node) (numbered : ℕ → ℕ) :
    (Traffic.start node numbered).Admissible flows := ⟨nofun, nofun⟩

/-- Whatever is lost, repeated and reordered, the packets of a flow that are handed to the upper
layer or relayed come in the order of their sender, each once. They are among those that became the
last ones of the flow, whose numbers increase serially from each to the next. -/
theorem passedOn_inOrder (quotient : ℕ → ℕ → ℚ) {size : ℕ} {flows : Finset ℕ}
    {entries : List (ℕ × ℕ)} {n : Node} {numbered : ℕ → ℕ} {ops : List TrafficOp} {s : Traffic}
    (hpos : 0 < size) (hle : size ≤ 255) (hzero : 0 ∉ flows) (hroom : flows.card ≤ size)
    (hentries : ∀ entry ∈ entries, entry.1 ∈ flows)
    (htable : n.lastReceivedRelayedPacketOfFlow =
      entries.foldl (fun t entry ↦ (t.insert entry.1 entry.2).2) (HashTable.clear size))
    (hrun : Traffic.AdmissibleRun quotient flows (Traffic.start n numbered) ops s) (f : ℕ) :
    (ofFlow f s.passedOn).Pairwise (fun x y ↦ y.index < x.index) ∧
      (ofFlow f s.passedOn).Sublist (ofFlow f s.taken) ∧
      (ofFlow f s.taken).IsChain fun x y ↦ tschSlotnumLt y.packetNumber x.packetNumber = true := by
  have hstart := Traffic.Ordered.start hpos hle hzero hroom hentries htable numbered
  have hordered := hstart.run hzero (Traffic.admissible_start flows n numbered) hrun
  have hsublist := hordered.passed.filter fun x ↦ decide (x.flowNumber = f)
  exact ⟨(hordered.ordered f).sublist hsublist, hsublist, hordered.serial f⟩

/-- A node on the way of flow 1 to node 3. -/
def onTheWay : Node :=
  { Node.zero 2 5 8 (Mac.zero smallConfig) with
    forwardTo := ((HashTable.clear 8).insert 1 3).2, receiverOfFlow := fun _ ↦ 3 }

/-- A packet of flow 1; slot number 65534 is over when the network starts. -/
def packetOfOne (index ttlSlotNumber : ℕ) : FlowPacket := ⟨1, index, ttlSlotNumber, 0, [7], 8⟩

def sendOfOne (ttlSlotNumber : ℕ) : TrafficOp := .send 1 ttlSlotNumber 0 [7] 8

def quotientZero : ℕ → ℕ → ℚ := fun _ _ ↦ 0

theorem passedOn_inOrder_twice : ∃ s,
    Traffic.AdmissibleRun quotientZero {1} (Traffic.start onTheWay fun _ ↦ 65535)
      [sendOfOne 0, sendOfOne 0, .receive (packetOfOne 65537 0) Network.failingEnv,
        .receive (packetOfOne 65537 0) Network.failingEnv,
        .receive (packetOfOne 65536 0) Network.failingEnv] s ∧
      s.passedOn = [packetOfOne 65537 0] ∧
      (ofFlow 1 s.passedOn).Pairwise (fun x y ↦ y.index < x.index) ∧
      (ofFlow 1 s.passedOn).Sublist (ofFlow 1 s.taken) ∧
      (ofFlow 1 s.taken).IsChain fun x y ↦ tschSlotnumLt y.packetNumber x.packetNumber = true := by
  obtain ⟨s, hexecute, hpassed⟩ : ∃ s,
      execute (keepingNext (Traffic.next quotientZero) (Traffic.Admissible {1}))
        (Traffic.start onTheWay fun _ ↦ 65535)
        [sendOfOne 0, sendOfOne 0, .receive (packetOfOne 65537 0) Network.failingEnv,
          .receive (packetOfOne 65537 0) Network.failingEnv,
          .receive (packetOfOne 65536 0) Network.failingEnv] = some s ∧
        s.passedOn = [packetOfOne 65537 0] :=
    ⟨_, rfl, by decide +kernel⟩
  have hrun := keepingRun_of_execute hexecute
  have hentries : ∀ entry ∈ ([] : List (ℕ × ℕ)), entry.1 ∈ ({1} : Finset ℕ) := nofun
  exact ⟨s, hrun, hpassed, passedOn_inOrder quotientZero (by decide) (by decide) (by decide)
    (by decide) hentries rfl hrun 1⟩

/-- The sender numbers packets that are all lost. -/
def Traffic.skip (k : ℕ) (s : Traffic) : Traffic :=
  { s with numbered := update s.numbered 1 (s.numbered 1 + k) }

theorem exists_skipRun {s : Traffic} (hnone : s.inFlight = []) (k : ℕ) :
    ∃ ops, Traffic.AdmissibleRun quotientZero {1} s ops (s.skip k) := by
  induction k with
  | zero =>
    refine ⟨[], ?_⟩
    have hsame : s.skip 0 = s := by
      unfold Traffic.skip
      rw [Nat.add_zero, update_eq_self]
    rw [hsame]
    exact .nil s
  | succ k ih =>
    obtain ⟨ops, hrun⟩ := ih
    have hnumbered : (s.skip k).numbered 1 = s.numbered 1 + k := by
      change update s.numbered 1 (s.numbered 1 + k) 1 = _
      rw [update_self]
    let x := packetOfOne ((s.skip k).numbered 1 + 1) 0
    let sent : Traffic := { s.skip k with
      numbered := update (s.skip k).numbered 1 x.index
      inFlight := x :: s.inFlight }
    have hadmissible : sent.Admissible {1} := by
      change (∀ y ∈ x :: s.inFlight, _) ∧ ∀ y ∈ x :: s.inFlight, ∀ z ∈ x :: s.inFlight, _
      rw [hnone]
      simp [x, packetOfOne]
    have hsend : KeepingStepOf (Traffic.next quotientZero) (Traffic.Admissible {1}) (s.skip k)
        (sendOfOne 0) sent := ⟨rfl, hadmissible⟩
    have hlost : { sent with inFlight := sent.inFlight.erase x } = s.skip (k + 1) := by
      have hnext : sent.numbered = (s.skip (k + 1)).numbered := by
        change update (update s.numbered 1 _) 1 _ = _
        rw [update_idem]
        change update s.numbered 1 ((s.skip k).numbered 1 + 1) = _
        rw [hnumbered]
        rfl
      change Traffic.mk s.node sent.numbered ((x :: s.inFlight).erase x) s.taken s.passedOn = _
      rw [erase_cons_head, hnext]
      rfl
    have hlose : KeepingStepOf (Traffic.next quotientZero) (Traffic.Admissible {1}) sent
        (.lose x) (s.skip (k + 1)) := by
      constructor
      · exact congrArg some hlost
      · change (∀ y ∈ s.inFlight, _) ∧ ∀ y ∈ s.inFlight, ∀ z ∈ s.inFlight, _
        rw [hnone]
        exact ⟨nofun, nofun⟩
    exact ⟨_, (hrun.snoc hsend).snoc hlose⟩

/-- Packet 1 is relayed, packet 30001 arrives too late to be relayed and packet 60001 is relayed:
on the circle of numbers it comes before packet 1. -/
theorem passedOn_notSerial : ∃ ops s,
    Traffic.AdmissibleRun quotientZero {1} (Traffic.start onTheWay fun _ ↦ 0) ops s ∧
      s.passedOn = [packetOfOne 60001 0, packetOfOne 1 0] ∧
      tschSlotnumLt (packetOfOne 1 0).packetNumber (packetOfOne 60001 0).packetNumber = false := by
  obtain ⟨s₁, s₂, s₃, hfirst, hnone₁, hsecond, hnone₂, hthird, hpassed⟩ : ∃ s₁ s₂ s₃,
      execute (keepingNext (Traffic.next quotientZero) (Traffic.Admissible {1}))
        (Traffic.start onTheWay fun _ ↦ 0)
        [sendOfOne 0, .receive (packetOfOne 1 0) Network.failingEnv, .lose (packetOfOne 1 0)] =
          some s₁ ∧
      s₁.inFlight = [] ∧
      execute (keepingNext (Traffic.next quotientZero) (Traffic.Admissible {1})) (s₁.skip 29999)
        [sendOfOne 65534, .receive (packetOfOne 30001 65534) Network.failingEnv,
          .lose (packetOfOne 30001 65534)] = some s₂ ∧
      s₂.inFlight = [] ∧
      execute (keepingNext (Traffic.next quotientZero) (Traffic.Admissible {1})) (s₂.skip 29999)
        [sendOfOne 0, .receive (packetOfOne 60001 0) Network.failingEnv] = some s₃ ∧
      s₃.passedOn = [packetOfOne 60001 0, packetOfOne 1 0] :=
    ⟨_, _, _, rfl, by decide +kernel, rfl, by decide +kernel, rfl, by decide +kernel⟩
  obtain ⟨ops₁, hskip₁⟩ := exists_skipRun hnone₁ 29999
  obtain ⟨ops₂, hskip₂⟩ := exists_skipRun hnone₂ 29999
  have hrelayed := (keepingRun_of_execute hfirst).append hskip₁
  have hexpired := (keepingRun_of_execute hsecond).append hskip₂
  exact ⟨_, s₃, (hrelayed.append hexpired).append (keepingRun_of_execute hthird), hpassed,
    by decide⟩

end ContikiMaster.Routing
