import ContikiMaster.Routing.Flood
import ContikiMaster.Routing.SendPaths
import Mathlib.Data.List.GetD
import Mathlib.Data.Vector.Defs

/-!
# What the handling of a frame depends on

A received frame is copied over a local packet, whose bytes past its end are what the stack
held. The type byte stands behind the header, which a short frame does not reach; and three
of the types go on with the packet that `mrp` was left with.
-/

namespace ContikiMaster.Routing

open Sys Tsch Lib Function
open List hiding Vector

/-- A byte of the local `mrpData`: the frame is copied over what the stack held. -/
def mrpDataByte (stack : ℕ → ℕ) (frame : List ℕ) (i : ℕ) : ℕ := frame.getD i (stack i)

def mrpDataWord (stack : ℕ → ℕ) (frame : List ℕ) (i : ℕ) : ℕ :=
  mrpDataByte stack frame i + 256 * mrpDataByte stack frame (i + 1)

/-- The type: the byte behind the header and the two unused words of the payload. -/
def packetType (stack : ℕ → ℕ) (frame : List ℕ) : ℕ :=
  mrpDataByte stack frame (minimalRoutingPacketSize + 8)

/-- The payload as its type tells to read it; `float` reads the four bytes of a `float`. -/
def decodeData (float : List ℕ → ℚ) (stack : ℕ → ℕ) (frame : List ℕ) : PacketData :=
  if packetType stack frame = 1 then .beacon
  else if packetType stack frame = 2 then
    .advertisement
      { nodeId := mrpDataByte stack frame 16
        seq := mrpDataWord stack frame 17
        bestNode := mrpDataByte stack frame 19
        strengthToMaster := float ((range 4).map fun i ↦ mrpDataByte stack frame (20 + i)) }
  else if packetType stack frame = 3 then
    .actualData
      { nodeId := mrpDataByte stack frame 16
        dataLen := mrpDataByte stack frame 17
        data := Vector.ofFn fun i ↦ mrpDataByte stack frame (18 + i.val) }
  else .unknown (frame.drop minimalRoutingPacketSize)

/-- The local `mrpData`. -/
def mrpData (float : List ℕ → ℚ) (stack : ℕ → ℕ) (frame : List ℕ) : MasterRoutingPacket where
  flowNumber := mrpDataByte stack frame 0
  packetNumber := mrpDataWord stack frame 1
  ttlSlotNumber := mrpDataWord stack frame 3
  earliestTxSlot := mrpDataWord stack frame 5
  data := decodeData float stack frame

/-- `master_routing_input` on the bytes of a frame. -/
def handleFrame (float : List ℕ → ℚ) (n : Node) (stack : ℕ → ℕ) (frame : List ℕ)
    (env : OutputEnv) : Except Fault InputResult :=
  masterRoutingInput n (mrpData float stack frame) frame.length env

theorem handleFrame_accepted {float : List ℕ → ℚ} {n : Node} {stack : ℕ → ℕ} {frame : List ℕ}
    {env : OutputEnv} (haccepted : acceptedLength frame.length) :
    handleFrame float n stack frame env =
      match decodeData float stack frame with
      | .beacon => deliverOrRelay n frame.length env
      | .advertisement adv => do
        let (out, n) ← onReceivedAdvertisement n adv env
        return ⟨out, none, n⟩
      | .actualData actualData => do
        let (out, n) ← onReceivedActualData n actualData env
        return ⟨out, none, n⟩
      | .unknown _ =>
        deliverOrRelay { n with mrp := mrpData float stack frame } frame.length env :=
  if_pos haccepted

/-- What is compared: the delivery, the packet sent, and the memory of the duplicate detection and
of the choice of the best node. -/
structure Observation where
  output : Option NetworkOutput
  delivery : Option Delivery
  lastReceivedRelayedPacketOfFlow : HashTable
  historyAdSeqArray : ℕ → ℕ
  maxAdvertisementSeq : ℕ
  bestNode : ℕ
  maxMasterStrength : ℚ

def InputResult.observation (result : InputResult) : Observation where
  output := result.output
  delivery := result.delivery
  lastReceivedRelayedPacketOfFlow := result.node.lastReceivedRelayedPacketOfFlow
  historyAdSeqArray := result.node.historyAdSeqArray
  maxAdvertisementSeq := result.node.maxAdvertisementSeq
  bestNode := result.node.bestNode
  maxMasterStrength := result.node.maxMasterStrength

/-- Two runs do the same; what a run does that leaves an array is not determined. -/
def SameHandling (run run' : Except Fault InputResult) : Prop :=
  run ≠ .error .invalidAccess ∧ run.map InputResult.observation = run'.map InputResult.observation

/-- The handling of a frame is the same whatever `mrp` and the stack held. -/
def FrameOnly (float : List ℕ → ℚ) (frame : List ℕ) : Prop :=
  ∀ (n : Node) (mrp mrp' : MasterRoutingPacket) (stack stack' : ℕ → ℕ) (env : OutputEnv),
    SameHandling (handleFrame float { n with mrp := mrp } stack frame env)
      (handleFrame float { n with mrp := mrp' } stack' frame env)

section Faults

variable {s : Mac} {n : Node} {env : OutputEnv}

theorem tschQueueAddNbr_ne_invalidAccess (addr : Linkaddr) :
    tschQueueAddNbr s addr ≠ .error .invalidAccess := by
  unfold tschQueueAddNbr
  split
  · exact nofun
  · refine bind_ne_error ?_ fun result _ ↦ ?_
    · unfold tschGetLock
      split
      · exact nofun
      · split
        · exact nofun
        · exact nofun
    · dsimp only
      split
      · exact nofun
      · exact nofun

theorem tschQueueAddPacket_ne_invalidAccess (addr : Linkaddr) (maxTransmissions : ℕ)
    (packetbuf : Packetbuf) (queuebufAvailable : Bool) :
    tschQueueAddPacket s addr maxTransmissions packetbuf queuebufAvailable ≠
      .error .invalidAccess := by
  unfold tschQueueAddPacket
  split
  · exact nofun
  · refine bind_ne_error (tschQueueAddNbr_ne_invalidAccess addr) fun result _ ↦ ?_
    obtain ⟨n, t⟩ := result
    cases n with
    | none => exact nofun
    | some n => exact nofun

theorem sendPacket_ne_invalidAccess (packetbuf : Packetbuf) (framed : Option Framed)
    (queuebufAvailable : Bool) :
    sendPacket s packetbuf framed queuebufAvailable ≠ .error .invalidAccess := by
  unfold sendPacket
  split
  · exact nofun
  · dsimp only
    split
    · exact nofun
    · cases framed with
      | none => exact nofun
      | some framed =>
        refine bind_ne_error (tschQueueAddPacket_ne_invalidAccess _ _ _ _) fun result _ ↦ ?_
        obtain ⟨p, t⟩ := result
        cases p with
        | none => exact nofun
        | some p => exact nofun

theorem output_ne_invalidAccess (dest : Linkaddr) : output n dest env ≠ .error .invalidAccess := by
  unfold output
  dsimp only
  split
  · exact bind_ne_error (sendPacket_ne_invalidAccess _ _ _) fun result _ ↦ nofun
  · exact nofun

theorem deliverOrRelay_ne_invalidAccess (len : ℕ) :
    deliverOrRelay n len env ≠ .error .invalidAccess := by
  unfold deliverOrRelay
  split
  · split
    · exact nofun
    · exact nofun
  · refine bind_ne_error ?_ fun result _ ↦ nofun
    unfold relay
    dsimp only
    split
    · split
      · exact bind_ne_error (output_ne_invalidAccess _) fun result _ ↦ nofun
      · exact nofun
    · exact nofun

end Faults

section Unknown

variable {float : List ℕ → ℚ} {stack stack' : ℕ → ℕ} {frame : List ℕ}

theorem mrpDataByte_of_lt {i : ℕ} (hi : i < frame.length) :
    mrpDataByte stack frame i = frame.getD i 0 := by
  unfold mrpDataByte
  rw [getD_eq_getElem _ _ hi, getD_eq_getElem _ _ hi]

theorem mrpDataWord_of_lt {i : ℕ} (hi : i + 1 < frame.length) :
    mrpDataWord stack frame i = frame.getD i 0 + 256 * frame.getD (i + 1) 0 := by
  unfold mrpDataWord
  rw [mrpDataByte_of_lt (by omega), mrpDataByte_of_lt hi]

theorem mrpData_header (hlen : minimalRoutingPacketSize ≤ frame.length) :
    mrpData float stack frame = ⟨frame.getD 0 0, frame.getD 1 0 + 256 * frame.getD 2 0,
        frame.getD 3 0 + 256 * frame.getD 4 0, frame.getD 5 0 + 256 * frame.getD 6 0,
        decodeData float stack frame⟩ := by
  have hseven : 7 ≤ frame.length := hlen
  unfold mrpData
  rw [mrpDataByte_of_lt (by omega), mrpDataWord_of_lt (by omega), mrpDataWord_of_lt (by omega),
    mrpDataWord_of_lt (by omega)]

theorem decodeData_unknown (hlen : 16 ≤ frame.length) (htype : frame.getD 15 0 ∉ [1, 2, 3]) :
    decodeData float stack frame = .unknown (frame.drop minimalRoutingPacketSize) := by
  have hbyte : packetType stack frame = frame.getD 15 0 := mrpDataByte_of_lt (by
    change 15 < frame.length
    omega)
  rw [← hbyte] at htype
  have hbeacon : packetType stack frame ≠ 1 := fun heq ↦ htype (by simp [heq])
  have hadvertisement : packetType stack frame ≠ 2 := fun heq ↦ htype (by simp [heq])
  have hactualData : packetType stack frame ≠ 3 := fun heq ↦ htype (by simp [heq])
  unfold decodeData
  rw [if_neg hbeacon, if_neg hadvertisement, if_neg hactualData]

theorem handleFrame_unknown (n : Node) (env : OutputEnv) (haccepted : acceptedLength frame.length)
    (hlen : 16 ≤ frame.length) (htype : frame.getD 15 0 ∉ [1, 2, 3]) :
    handleFrame float n stack frame env =
      deliverOrRelay { n with mrp := mrpData float stack frame } frame.length env := by
  rw [handleFrame_accepted haccepted, decodeData_unknown hlen htype]

theorem frameOnly_of_unknown (haccepted : acceptedLength frame.length)
    (hlen : 16 ≤ frame.length) (htype : frame.getD 15 0 ∉ [1, 2, 3]) : FrameOnly float frame := by
  intro n mrp mrp' stack stack' env
  have hcopied : mrpData float stack frame = mrpData float stack' frame := by
    rw [mrpData_header haccepted.1, mrpData_header haccepted.1, decodeData_unknown hlen htype,
      decodeData_unknown hlen htype]
  rw [handleFrame_unknown _ env haccepted hlen htype, handleFrame_unknown _ env haccepted hlen htype,
    hcopied]
  exact ⟨deliverOrRelay_ne_invalidAccess _, rfl⟩

end Unknown

section Leftover

variable {float : List ℕ → ℚ} {frame : List ℕ} {n : Node} {env : OutputEnv}
  {adv : Advertisement}

/-- A packet with a flow and a number and no content. -/
def leftover (flowNumber packetNumber : ℕ) : MasterRoutingPacket :=
  ⟨flowNumber, packetNumber, 0, 0, .unknown []⟩

theorem not_sameHandling_of_packetNumber {out out' : NetworkOutput} {m m' : Node}
    {delivery delivery' : Option Delivery} (hne : out.mrp.packetNumber ≠ out'.mrp.packetNumber) :
    ¬ SameHandling (.ok ⟨some out, delivery, m⟩) (.ok ⟨some out', delivery', m'⟩) := by
  rintro ⟨-, hsame⟩
  have hobservation := Except.ok.inj hsame
  have hout : some out = some out' := congrArg Observation.output hobservation
  exact hne (congrArg (fun out ↦ out.mrp.packetNumber) (Option.some.inj hout))

def receiverOfOne : Node :=
  { Node.zero 2 5 8 (Mac.zero smallConfig) with
    receiverOfFlow := update (fun _ ↦ 3) 1 2 }

theorem not_frameOnly_of_beacon (stack : ℕ → ℕ) (haccepted : acceptedLength frame.length)
    (htype : packetType stack frame = 1) : ¬ FrameOnly float frame := by
  intro hframe
  have hdecode : decodeData float stack frame = .beacon := if_pos htype
  have hsame := (hframe receiverOfOne (leftover 1 1) (leftover 2 1) stack stack
    Network.failingEnv).2
  rw [handleFrame_accepted haccepted, handleFrame_accepted haccepted, hdecode] at hsame
  have hentries : (1 : ℕ) = 0 :=
    congrArg (fun observation ↦ observation.lastReceivedRelayedPacketOfFlow.numberEntries)
      (Except.ok.inj hsame)
  exact absurd hentries (by decide)

theorem refreshStrength_le {strength : ℚ} (hweak : strength ≤ n.maxMasterStrength) :
    strength ≤ (refreshStrength n adv strength).maxMasterStrength := by
  unfold refreshStrength
  split
  · dsimp only
    split
    · exact le_rfl
    · exact hweak
  · exact hweak

theorem refreshStrength_frame {strength : ℚ} : ∃ seq maxStrength, refreshStrength n adv strength =
      { n with maxAdvertisementSeq := seq, maxMasterStrength := maxStrength } := by
  unfold refreshStrength
  split
  · exact ⟨_, _, rfl⟩
  · exact ⟨n.maxAdvertisementSeq, n.maxMasterStrength, rfl⟩

theorem resendAdvertisement_leftover (hjoined : n.mac.tschIsAssociated = false)
    (hnode : n.nodeId ≠ 1) (hhistory : n.historyAdSeqArray adv.nodeId ≠ adv.seq) :
    ∃ out m, resendAdvertisement n adv env = .ok (some out, m) ∧
      out.mrp.packetNumber = n.mrp.packetNumber := by
  unfold resendAdvertisement
  rw [if_neg hhistory, if_neg hnode]
  obtain ⟨out, m, hsend, -⟩ := Network.masterRoutingSendAdvertisement_unassociated
    { n with historyAdSeqArray := update n.historyAdSeqArray adv.nodeId (adv.seq % 256) }
    n.maxMasterStrength n.maxAdvertisementSeq n.bestNode env hjoined
  have hnumber : out.mrp.packetNumber = n.mrp.packetNumber := by
    rw [(output_spec hsend).1]
  refine ⟨out, m, ?_, hnumber⟩
  simp only [hsend]
  rfl

theorem exists_resent (hjoined : n.mac.tschIsAssociated = false) (hother : adv.bestNode ≠ n.nodeId)
    (hnode : n.nodeId ≠ 1) (hhistory : n.historyAdSeqArray adv.nodeId ≠ adv.seq)
    (hweak : min adv.strengthToMaster (getStrengthByNodeID n adv.nodeId) ≤ n.maxMasterStrength) :
    ∃ out m, onReceivedAdvertisement n adv env = .ok (some out, m) ∧
      out.mrp.packetNumber = n.mrp.packetNumber := by
  unfold onReceivedAdvertisement
  rw [if_neg hother]
  set strength := min adv.strengthToMaster (getStrengthByNodeID n adv.nodeId)
  have hkept : selectBestNode (refreshStrength n adv strength) adv strength =
      .ok (refreshStrength n adv strength) :=
    if_neg fun hboth ↦ absurd hboth.2 (not_lt.mpr (refreshStrength_le hweak))
  dsimp only
  rw [hkept, ok_bind]
  obtain ⟨seq, maxStrength, hrefreshed⟩ := @refreshStrength_frame n adv strength
  rw [hrefreshed]
  exact resendAdvertisement_leftover hjoined hnode hhistory

/-- A node that has heard the advertisements of one number only. -/
def heardOnly (nodeId seq : ℕ) : Node :=
  { Node.zero nodeId 5 8 (Mac.zero smallConfig) with historyAdSeqArray := fun _ ↦ seq }

theorem not_frameOnly_of_advertisement (stack : ℕ → ℕ) (haccepted : acceptedLength frame.length)
    (htype : packetType stack frame = 2) : ¬ FrameOnly float frame := by
  intro hframe
  obtain ⟨adv, hdecode⟩ : ∃ adv, decodeData float stack frame = .advertisement adv := by
    unfold decodeData
    rw [htype]
    exact ⟨_, rfl⟩
  obtain ⟨nodeId, hnode, hother⟩ : ∃ nodeId, nodeId ≠ 1 ∧ adv.bestNode ≠ nodeId := by
    by_cases htwo : adv.bestNode = 2
    · exact ⟨3, by decide, by omega⟩
    · exact ⟨2, by decide, htwo⟩
  have hsame := hframe (heardOnly nodeId (adv.seq + 1)) (leftover 0 0) (leftover 0 1) stack stack
    Network.failingEnv
  rw [handleFrame_accepted haccepted, handleFrame_accepted haccepted, hdecode] at hsame
  have hhistory : adv.seq + 1 ≠ adv.seq := Nat.succ_ne_self _
  have hweak : min adv.strengthToMaster 0 ≤ 0 := min_le_right _ _
  obtain ⟨out, m, hcall, hnumber⟩ := @exists_resent
    { heardOnly nodeId (adv.seq + 1) with mrp := leftover 0 0 } Network.failingEnv adv rfl hother
    hnode hhistory hweak
  obtain ⟨out', m', hcall', hnumber'⟩ := @exists_resent
    { heardOnly nodeId (adv.seq + 1) with mrp := leftover 0 1 } Network.failingEnv adv rfl hother
    hnode hhistory hweak
  dsimp only at hsame
  rw [hcall, hcall'] at hsame
  refine not_sameHandling_of_packetNumber ?_ hsame
  rw [hnumber, hnumber']
  exact Nat.zero_ne_one

theorem copyBytes_ok_or (data : Vector ℕ maxExpectedSizeOfActualData) (index : ℕ)
    (bytes : List ℕ) : (∃ data', copyBytes data index bytes = .ok data') ∨
      copyBytes data index bytes = .error .invalidAccess := by
  unfold copyBytes
  split
  · exact .inr rfl
  · exact .inl ⟨_, rfl⟩

theorem forwardActualData_ok_or (n : Node) (rcvdAcdt : ActualData) :
    (∃ actualData, forwardActualData n rcvdAcdt = .ok actualData) ∨
      forwardActualData n rcvdAcdt = .error .invalidAccess := by
  unfold forwardActualData
  dsimp only
  obtain ⟨data, hcount⟩ | hcount := copyBytes_ok_or rcvdAcdt.data (rcvdAcdt.data.getD 0 0 * 3 + 1)
    [(rcvdAcdt.data.getD (rcvdAcdt.data.getD 0 0 * 3 + 1) 0 + 1) % 256]
  · rw [hcount, ok_bind]
    obtain ⟨data', happend⟩ | happend := copyBytes_ok_or data
      (rcvdAcdt.data.getD 0 0 * 3 + 1 +
        (rcvdAcdt.data.getD (rcvdAcdt.data.getD 0 0 * 3 + 1) 0 + 1) % 256) [n.nodeId % 256]
    · rw [happend]
      exact .inl ⟨_, rfl⟩
    · rw [happend]
      exact .inr rfl
  · rw [hcount]
    exact .inr rfl

theorem unicastSend_unassociated (n : Node) (env : OutputEnv)
    (hjoined : n.mac.tschIsAssociated = false) : ∃ out m, unicastSend n env = .ok (out, m) :=
  ⟨_, _, Network.output_unassociated hjoined⟩

theorem exists_forwarded (hjoined : n.mac.tschIsAssociated = false) (hnode : n.nodeId ≠ 1)
    {rcvdAcdt actualData : ActualData} (hforward : forwardActualData n rcvdAcdt = .ok actualData) :
    ∃ out m, onReceivedActualData n rcvdAcdt env = .ok (some out, m) ∧
      out.mrp.packetNumber = n.mrp.packetNumber := by
  obtain ⟨out, m, hsend⟩ := unicastSend_unassociated
    { n with mrp := { n.mrp with data := .actualData actualData } } env hjoined
  have hnumber : out.mrp.packetNumber = n.mrp.packetNumber := by
    rw [(output_spec hsend).1]
  refine ⟨out, m, ?_, hnumber⟩
  unfold onReceivedActualData
  rw [if_neg hnode, hforward, ok_bind, hsend]
  rfl

theorem onReceivedActualData_fault {rcvdAcdt : ActualData} (hnode : n.nodeId ≠ 1)
    (hfault : forwardActualData n rcvdAcdt = .error .invalidAccess) :
    onReceivedActualData n rcvdAcdt env = .error .invalidAccess := by
  unfold onReceivedActualData
  rw [if_neg hnode, hfault]
  rfl

theorem not_frameOnly_of_actualData (stack : ℕ → ℕ) (haccepted : acceptedLength frame.length)
    (htype : packetType stack frame = 3) : ¬ FrameOnly float frame := by
  intro hframe
  obtain ⟨rcvdAcdt, hdecode⟩ : ∃ rcvdAcdt, decodeData float stack frame = .actualData rcvdAcdt := by
    unfold decodeData
    rw [htype]
    exact ⟨_, rfl⟩
  have hsame := hframe (heardOnly 2 0) (leftover 0 0) (leftover 0 1) stack stack Network.failingEnv
  rw [handleFrame_accepted haccepted, handleFrame_accepted haccepted, hdecode] at hsame
  dsimp only at hsame
  have hnode : (2 : ℕ) ≠ 1 := by decide
  obtain ⟨actualData, hforward⟩ | hfault := forwardActualData_ok_or (heardOnly 2 0) rcvdAcdt
  · obtain ⟨out, m, hcall, hnumber⟩ := @exists_forwarded
      { heardOnly 2 0 with mrp := leftover 0 0 } Network.failingEnv rfl hnode rcvdAcdt actualData
      hforward
    obtain ⟨out', m', hcall', hnumber'⟩ := @exists_forwarded
      { heardOnly 2 0 with mrp := leftover 0 1 } Network.failingEnv rfl hnode rcvdAcdt actualData
      hforward
    rw [hcall, hcall'] at hsame
    refine not_sameHandling_of_packetNumber ?_ hsame
    rw [hnumber, hnumber']
    exact Nat.zero_ne_one
  · -- the forwarding writes past the end of the array
    have hcall := @onReceivedActualData_fault { heardOnly 2 0 with mrp := leftover 0 0 }
      Network.failingEnv rcvdAcdt hnode hfault
    rw [hcall] at hsame
    exact hsame.1 rfl

/-- The handling of an accepted frame depends on the frame alone exactly when the frame reaches the
type byte and that byte is none of the three known types. -/
theorem frameOnly_iff (float : List ℕ → ℚ) {frame : List ℕ}
    (haccepted : acceptedLength frame.length) :
    FrameOnly float frame ↔ 16 ≤ frame.length ∧ frame.getD 15 0 ∉ [1, 2, 3] := by
  refine ⟨fun hframe ↦ ?_, fun hunknown ↦ frameOnly_of_unknown haccepted hunknown.1 hunknown.2⟩
  by_cases hlen : 16 ≤ frame.length
  · refine ⟨hlen, fun htype ↦ ?_⟩
    have hbyte : packetType (fun _ ↦ 0) frame = frame.getD 15 0 := mrpDataByte_of_lt (by
      change 15 < frame.length
      omega)
    rw [← hbyte] at htype
    simp only [mem_cons, not_mem_nil, or_false] at htype
    obtain hbeacon | hadvertisement | hactualData := htype
    · exact not_frameOnly_of_beacon _ haccepted hbeacon hframe
    · exact not_frameOnly_of_advertisement _ haccepted hadvertisement hframe
    · exact not_frameOnly_of_actualData _ haccepted hactualData hframe
  · -- the type is what the stack held
    have htype : packetType (fun _ ↦ 1) frame = 1 := by
      change frame.getD 15 1 = 1
      exact getD_eq_default _ _ (by omega)
    exact absurd hframe (not_frameOnly_of_beacon _ haccepted htype)

theorem frameOnly_iff_zeros : FrameOnly (fun _ ↦ 0) (replicate 20 0) ↔
    16 ≤ (replicate 20 0).length ∧ (replicate 20 0).getD 15 0 ∉ [1, 2, 3] :=
  frameOnly_iff (fun _ ↦ 0) (by decide)

/-- A beacon packet of twenty bytes. -/
theorem not_frameOnly_beacon : acceptedLength 20 ∧
    ¬ FrameOnly (fun _ ↦ 0) ((replicate 20 0).set 15 1) := by
  have haccepted : acceptedLength ((replicate 20 0).set 15 1).length := by decide
  exact ⟨haccepted, not_frameOnly_of_beacon (fun _ ↦ 0) haccepted (by decide)⟩

end Leftover

end ContikiMaster.Routing
