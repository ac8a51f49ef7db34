import ContikiMaster.Framer.RoundTrip
import ContikiMaster.Framer.TschPacket

/-!
# Who acknowledges a data frame

`send_packet` asks for an acknowledgement of every packet whose receiver is not the null address,
which the framer writes as a short broadcast address. A node takes a frame that is addressed to
itself or to everyone, and answers it when asked to. Eight bytes `0xff` are no broadcast to the
sender and one to every receiver.
-/

namespace ContikiMaster.Framer

open Lib Lib.Cursor Option

def tschBroadcastAddress : Addr8 := fun _ ↦ 0xff

/-- The attributes `send_packet` sets for a packet to `receiver`, and its sequence number counter
afterwards. -/
def sendPacketAttr (tschPacketSeqno : UInt8) (attr : PacketbufAttr) (receiver : Addr8) :
    UInt8 × PacketbufAttr :=
  if receiver ≠ linkaddrNull then
    -- the sequence number attribute cannot be zero
    let seqno := if tschPacketSeqno + 1 = 0 then 1 else tschPacketSeqno + 1
    (seqno, { attr with macSeqno := UInt16.ofNat seqno.toNat, macAck := true,
                        frameType := dataFrame })
  else (tschPacketSeqno, { attr with frameType := dataFrame })

/-- A node that listens in a slot: its address and PAN, what its frame structure still holds, and
what it puts into an acknowledgement. -/
structure Listener where
  addr : Addr8
  macPanId : UInt16
  frame : Frame
  drift : ℤ
  nack : Bool

/-- The enhanced acknowledgement that `tsch_rx_slot` sends for a frame of `len` bytes, if any. -/
def tschRxSlotAck (conf : PacketConf) (node : Listener) (len : ℕ) :
    Cursor UInt8 (Option (List UInt8)) := do
  let (headerLen, frame) ← frame802154Parse len node.frame
  pure do
    guard (headerLen > 0 ∧ frame802154CheckDestPanid node.macPanId frame = true)
    let (source, dest) ← frame802154ExtractLinkaddr frame
    guard (frame.fcf.frameType = dataFrame ∨ frame.fcf.frameType = beaconFrame)
    guard (dest = node.addr ∨ dest = linkaddrNull)
    guard (frame.fcf.ackRequired = true)
    tschPacketCreateEack conf node.macPanId node.addr tschPacketMaxLen source frame.seq node.drift
      node.nack

/-- Where the frame stands in `mem`, the node answers it. -/
def Answers (conf : PacketConf) (bytes : List UInt8) (mem : ℕ → UInt8) (node : Listener) : Prop :=
  (value (tschRxSlotAck conf node bytes.length) mem 0).isSome = true

/-- A frame that asks for an acknowledgement has a unicast destination. -/
def AckOnlyForUnicast (bytes : List UInt8) : Prop :=
  ∀ pf mem, Holds mem 0 bytes →
    (value (frame802154Parse bytes.length pf) mem 0).2.fcf.ackRequired = true →
    ∃ source dest, frame802154ExtractLinkaddr (value (frame802154Parse bytes.length pf) mem 0).2 =
      some (source, dest) ∧ dest ≠ linkaddrNull

/-- Of any set of nodes with addresses of their own at most one answers the frame. -/
def AtMostOneAnswers (conf : PacketConf) (bytes : List UInt8) : Prop :=
  ∀ (nodes : Set Listener), Set.InjOn Listener.addr nodes → ∀ mem, Holds mem 0 bytes →
    ∀ node₁ ∈ nodes, ∀ node₂ ∈ nodes,
      Answers conf bytes mem node₁ → Answers conf bytes mem node₂ → node₁ = node₂

variable {macPanId : UInt16} {macDsn seqno : UInt8} {attr : PacketbufAttr} {sender receiver : Addr8}

/-- The frame of `send_packet` before it is written. -/
def sendPacketParams (macPanId : UInt16) (macDsn seqno : UInt8) (attr : PacketbufAttr)
    (sender receiver : Addr8) : Frame :=
  createFrameParams macPanId macDsn (sendPacketAttr seqno attr receiver).2 sender receiver

theorem createFrameParams_fcf : (createFrameParams macPanId macDsn attr sender receiver).fcf =
      { frameType := attr.frameType
        securityEnabled := false
        framePending := false
        ackRequired := if receiver = linkaddrNull then false else attr.macAck
        panidCompression := !attr.macNoDestAddr && decide (receiver = linkaddrNull)
        sequenceNumberSuppression := receiver = linkaddrNull
        ieListPresent := attr.macMetadata
        destAddrMode := if attr.macNoDestAddr then .noAddr
          else if receiver = linkaddrNull then .shortAddrMode else .longAddrMode
        frameVersion := ieee802154_2015
        srcAddrMode := if attr.macNoSrcAddr then .noAddr else .longAddrMode } := by
  have hassign : (assignSeqno macDsn attr).frameType = attr.frameType ∧
      (assignSeqno macDsn attr).macAck = attr.macAck ∧
      (assignSeqno macDsn attr).macMetadata = attr.macMetadata ∧
      (assignSeqno macDsn attr).macNoSrcAddr = attr.macNoSrcAddr ∧
      (assignSeqno macDsn attr).macNoDestAddr = attr.macNoDestAddr := by
    rw [assignSeqno]
    split_ifs <;> exact ⟨rfl, rfl, rfl, rfl, rfl⟩
  obtain ⟨htype, hack, hmetadata, hnoSrc, hnoDest⟩ := hassign
  simp only [createFrameParams, framer802154SetupParams, htype, hack, hmetadata, hnoSrc, hnoDest,
    Fcf.mk.injEq, true_and, and_true]
  cases attr.macNoSrcAddr <;> cases attr.macNoDestAddr <;> by_cases hnull : receiver = linkaddrNull <;>
    simp [hnull]

theorem normalise_createFrameParams :
    normalisePanidCompression (createFrameParams macPanId macDsn attr sender receiver) =
      createFrameParams macPanId macDsn attr sender receiver := by
  rw [normalisePanidCompression, createFrameParams_fcf]
  rfl

theorem createFrame_eq_some {totlen : ℕ} {header : List UInt8}
    (hbuilt : createFrame macPanId macDsn attr sender receiver totlen = some header) :
    header = (frame802154Create (createFrameParams macPanId macDsn attr sender receiver)).1 := by
  have hparams : (frame802154Hdrlen (createFrameParams macPanId macDsn attr sender receiver)).2 =
      createFrameParams macPanId macDsn attr sender receiver := normalise_createFrameParams
  rw [createFrame] at hbuilt
  by_cases hpan : macPanId = 0xffff
  · simp [hpan] at hbuilt
  · rw [if_neg hpan] at hbuilt
    change (if (frame802154Hdrlen _).1 + totlen > packetbufSize then none
      else some (frame802154Create (frame802154Hdrlen _).2).1) = some header at hbuilt
    rw [hparams] at hbuilt
    exact (some.inj (ite_none_left_eq_some.mp hbuilt).2).symm

theorem roundTrips_createFrameParams (payload : List UInt8) :
    RoundTrips (createFrameParams macPanId macDsn attr sender receiver) payload := by
  apply roundTrips_of_not_lone
  · rw [createFrameParams_fcf]
    cases attr.macNoDestAddr <;> by_cases hnull : receiver = linkaddrNull <;> simp [hnull]
  · rw [createFrameParams_fcf]
    cases attr.macNoSrcAddr <;> simp
  · rw [LoneDestPanid, createFrameParams_fcf]
    cases attr.macNoDestAddr <;> by_cases hnull : receiver = linkaddrNull <;> simp [hnull]

theorem isBroadcastAddr_long {addr : Addr8} :
    frame802154IsBroadcastAddr .longAddrMode addr = true ↔ addr = tschBroadcastAddress := by
  simp only [frame802154IsBroadcastAddr, decide_eq_true_eq, reduceCtorEq, if_false]
  constructor
  · intro hall
    funext i
    exact hall i i.isLt
  · intro heq i _
    rw [heq]
    rfl

theorem extractAddr_noAddr (addr : Addr8) : extractAddr .noAddr addr = some linkaddrNull := by
  simp [extractAddr]

theorem extractAddr_long (addr : Addr8) : extractAddr .longAddrMode addr =
      some (if addr = tschBroadcastAddress then linkaddrNull else addr) := by
  by_cases hbroadcast : addr = tschBroadcastAddress
  · rw [extractAddr, if_pos hbroadcast]
    simp [isBroadcastAddr_long.mpr hbroadcast]
  · have hunicast : frame802154IsBroadcastAddr .longAddrMode addr = false := by
      rw [← Bool.not_eq_true, isBroadcastAddr_long]
      exact hbroadcast
    simp [extractAddr, hunicast, hbroadcast]

theorem Answers.accepted {conf : PacketConf} {bytes : List UInt8} {mem : ℕ → UInt8}
    {node : Listener} (hanswers : Answers conf bytes mem node) :
    (value (frame802154Parse bytes.length node.frame) mem 0).2.fcf.ackRequired = true ∧
      ∃ source dest, frame802154ExtractLinkaddr
          (value (frame802154Parse bytes.length node.frame) mem 0).2 = some (source, dest) ∧
        (dest = node.addr ∨ dest = linkaddrNull) := by
  obtain ⟨ack, hack⟩ := isSome_iff_exists.mp hanswers
  simp only [tschRxSlotAck, value_bind, value_pure, bind_eq_bind, bind_eq_some_iff,
    guard_eq_some'] at hack
  obtain ⟨-, -, ⟨source, dest⟩, hextract, -, -, -, hdest, -, hrequired, -⟩ := hack
  exact ⟨hrequired, source, dest, hextract, hdest⟩

theorem parsed_sendPacket {header payload : List UInt8}
    (hbuilt : createFrame macPanId macDsn (sendPacketAttr seqno attr receiver).2 sender receiver
      payload.length = some header) (pf : Frame) {mem : ℕ → UInt8}
    (hholds : Holds mem 0 (header ++ payload)) :
    SameHeader (sendPacketParams macPanId macDsn seqno attr sender receiver)
      (value (frame802154Parse (header ++ payload).length pf) mem 0).2 := by
  have hheader := createFrame_eq_some hbuilt
  rw [hheader] at hholds ⊢
  obtain ⟨q, hvalue, hsame, -⟩ := (roundTrips_createFrameParams payload).parsed pf mem hholds
  rw [hvalue]
  rw [create_snd, normalise_createFrameParams] at hsame
  exact hsame

section Sent

variable {payload header : List UInt8} {pf : Frame} {mem : ℕ → UInt8} {q : Frame}
  (hsame : SameHeader (sendPacketParams macPanId macDsn seqno attr sender receiver) q)

include hsame

theorem ackRequired_sent : q.fcf.ackRequired = decide (receiver ≠ linkaddrNull) := by
  rw [hsame.fcf, sendPacketParams, createFrameParams_fcf, sendPacketAttr]
  by_cases hnull : receiver = linkaddrNull <;> simp [hnull]

theorem extract_sent (hnull : receiver ≠ linkaddrNull) :
    ∃ source, frame802154ExtractLinkaddr q = some (source,
      if attr.macNoDestAddr = true ∨ receiver = tschBroadcastAddress then linkaddrNull
      else receiver) := by
  have hfcf := hsame.fcf
  have hdestAddr := hsame.destAddr
  rw [sendPacketParams, createFrameParams_fcf] at hfcf
  rw [sendPacketParams, createFrameParams_fcf] at hdestAddr
  simp only [sendPacketAttr, if_pos hnull, if_neg hnull] at hfcf hdestAddr
  have hsource : ∃ source, extractAddr q.fcf.srcAddrMode q.srcAddr = some source := by
    rw [hfcf]
    cases attr.macNoSrcAddr
    · exact ⟨_, extractAddr_long _⟩
    · exact ⟨_, extractAddr_noAddr _⟩
  obtain ⟨source, hsource⟩ := hsource
  refine ⟨source, ?_⟩
  rw [frame802154ExtractLinkaddr, hsource, hfcf]
  cases hmode : attr.macNoDestAddr with
  | true => simp [extractAddr_noAddr]
  | false =>
    have haddr : q.destAddr = receiver := by
      funext i
      rw [hdestAddr i (by simp [hmode, addrLen])]
      simp [createFrameParams, hnull]
    simp [extractAddr_long, haddr]

end Sent

/-- Sender and receivers agree on what is broadcast exactly for the null address and for unicast
addresses other than eight bytes `0xff`. -/
theorem ackAgreement_iff (conf : PacketConf) {header payload : List UInt8}
    (hbuilt : createFrame macPanId macDsn (sendPacketAttr seqno attr receiver).2 sender receiver
      payload.length = some header) :
    AckOnlyForUnicast (header ++ payload) ∧ AtMostOneAnswers conf (header ++ payload) ↔
      receiver = linkaddrNull ∨
        receiver ≠ tschBroadcastAddress ∧ attr.macNoDestAddr = false := by
  constructor
  · rintro ⟨hack, -⟩
    by_contra hcondition
    push Not at hcondition
    obtain ⟨hnull, hbroadcast⟩ := hcondition
    have hholds := holds_getD (header ++ payload) 0
    have hsame := parsed_sendPacket hbuilt Frame.zero hholds
    obtain ⟨source, hextract⟩ := extract_sent hsame hnull
    obtain ⟨source', dest, hextract', hdest⟩ := hack Frame.zero _ hholds
      (by rwa [ackRequired_sent hsame, decide_eq_true_eq])
    have hcast : attr.macNoDestAddr = true ∨ receiver = tschBroadcastAddress := by
      by_cases heq : receiver = tschBroadcastAddress
      · exact Or.inr heq
      · exact Or.inl (by simpa using hbroadcast heq)
    rw [hextract, if_pos hcast] at hextract'
    simp only [some.injEq, Prod.mk.injEq] at hextract'
    exact hdest hextract'.2.symm
  · intro hcondition
    constructor
    · intro pf mem hholds hrequired
      have hsame := parsed_sendPacket hbuilt pf hholds
      have hnull : receiver ≠ linkaddrNull := by
        rwa [ackRequired_sent hsame, decide_eq_true_eq] at hrequired
      obtain ⟨source, hextract⟩ := extract_sent hsame hnull
      obtain ⟨hbroadcast, hmode⟩ := hcondition.resolve_left hnull
      rw [if_neg (by simp [hbroadcast, hmode])] at hextract
      exact ⟨source, receiver, hextract, hnull⟩
    · intro nodes hdistinct mem hholds node₁ h₁ node₂ h₂ hanswers₁ hanswers₂
      have hown : ∀ node, Answers conf (header ++ payload) mem node → node.addr = receiver := by
        intro node hanswers
        have hsame := parsed_sendPacket hbuilt node.frame hholds
        obtain ⟨hrequired, source', dest, hextract', hdest⟩ := hanswers.accepted
        have hnull : receiver ≠ linkaddrNull := by
          rwa [ackRequired_sent hsame, decide_eq_true_eq] at hrequired
        obtain ⟨source, hextract⟩ := extract_sent hsame hnull
        obtain ⟨hbroadcast, hmode⟩ := hcondition.resolve_left hnull
        rw [if_neg (by simp [hbroadcast, hmode]), hextract'] at hextract
        simp only [some.injEq, Prod.mk.injEq] at hextract
        rw [hextract.2] at hdest
        exact (hdest.resolve_right hnull).symm
      apply hdistinct h₁ h₂
      rw [hown node₁ hanswers₁, hown node₂ hanswers₂]

/-- The header of a packet from the node 9 of the PAN `0xabcd`. -/
def sentHeader (receiver : Addr8) : List UInt8 :=
  (frame802154Create (sendPacketParams 0xabcd 0 1 PacketbufAttr.clear (fun _ ↦ 9) receiver)).1

def masterConf : PacketConf where
  ebWithTimeslotTiming := false
  ebWithHoppingSequence := false
  ebWithSlotframeAndLink := false
  ebWithNeighborDiscovery := true
  eackWithSrcAddr := false
  eackWithDestAddr := true
  withSixtop := false

theorem ackAgreement_iff_unicast :
    AckOnlyForUnicast (sentHeader (fun _ ↦ 7) ++ [1, 2]) ∧
        AtMostOneAnswers masterConf (sentHeader (fun _ ↦ 7) ++ [1, 2]) ↔
      (fun _ ↦ 7 : Addr8) = linkaddrNull ∨
        (fun _ ↦ 7 : Addr8) ≠ tschBroadcastAddress ∧ PacketbufAttr.clear.macNoDestAddr = false :=
  @ackAgreement_iff 0xabcd 0 1 PacketbufAttr.clear (fun _ ↦ 9) (fun _ ↦ 7) masterConf
    (sentHeader fun _ ↦ 7) [1, 2] (by decide)

/-- A listener of the PAN `0xabcd`. -/
def listener (byte : UInt8) : Listener := ⟨fun _ ↦ byte, 0xabcd, Frame.zero, 0, false⟩

/-- The advertisement to eight bytes `0xff` asks for an acknowledgement, has no unicast destination
and is answered by two nodes. -/
theorem not_ackAgreement_broadcast :
    ¬AckOnlyForUnicast (sentHeader tschBroadcastAddress ++ [1, 2]) ∧
      ¬AtMostOneAnswers masterConf (sentHeader tschBroadcastAddress ++ [1, 2]) := by
  have hholds := holds_getD (sentHeader tschBroadcastAddress ++ [1, 2]) 0
  constructor
  · intro hack
    obtain ⟨source, dest, hextract, hdest⟩ := hack Frame.zero _ hholds (by decide)
    have hnull : frame802154ExtractLinkaddr (value (frame802154Parse
        (sentHeader tschBroadcastAddress ++ [1, 2]).length Frame.zero)
        (fun i ↦ (sentHeader tschBroadcastAddress ++ [1, 2]).getD i 0) 0).2 =
        some (fun _ ↦ 9, linkaddrNull) := by decide
    rw [hnull] at hextract
    simp only [some.injEq, Prod.mk.injEq] at hextract
    exact hdest hextract.2.symm
  · intro hone
    have hdistinct : Set.InjOn Listener.addr {listener 3, listener 4} := by
      rintro node₁ (rfl | rfl) node₂ (rfl | rfl) haddr
      · rfl
      · exact absurd (congrFun haddr 0) (by decide)
      · exact absurd (congrFun haddr 0) (by decide)
      · rfl
    have hsame := hone _ hdistinct _ hholds (listener 3) (by simp) (listener 4) (by simp)
      (by unfold Answers; decide) (by unfold Answers; decide)
    exact absurd (congrFun (congrArg Listener.addr hsame) 0) (by decide)

end ContikiMaster.Framer
