import ContikiMaster.Framer.InformationElements

/-!
# Frames of the TSCH layer

`framer-802154.c`, which turns attributes into a frame, and `tsch-packet.c`, which builds
and parses enhanced acknowledgements and beacons. Link-layer security is compiled out. A
frame that does not fit into the packet buffer is not built.
-/

namespace ContikiMaster.Framer

open Lib Lib.Cursor

def packetbufSize : ℕ := 128

def tschPacketMaxLen : ℕ := 127

/-- The attributes of a packet buffer that the framer reads. -/
structure PacketbufAttr where
  frameType : Fin 8
  macAck : Bool
  macMetadata : Bool
  macSeqno : UInt16
  macNoSrcAddr : Bool
  macNoDestAddr : Bool
  deriving DecidableEq

/-- `packetbuf_attr_clear`. -/
def PacketbufAttr.clear : PacketbufAttr := ⟨0, false, false, 0, false, false⟩

/-- `framer_802154_setup_params` on a node of the PAN `macPanId`. -/
def framer802154SetupParams (macPanId : UInt16) (attr : PacketbufAttr) (destIsBroadcast : Bool)
    (params : Frame) : Frame :=
  let srcAddrMode : AddrMode := if attr.macNoSrcAddr then .noAddr else .longAddrMode
  let destAddrMode : AddrMode :=
    if attr.macNoDestAddr then .noAddr
    else if destIsBroadcast then .shortAddrMode
    else .longAddrMode
  { params with
    fcf :=
      { frameType := attr.frameType
        securityEnabled := false
        framePending := false
        ackRequired := if destIsBroadcast then false else attr.macAck
        panidCompression := srcAddrMode = .shortAddrMode ∨ destAddrMode = .shortAddrMode
        sequenceNumberSuppression := destIsBroadcast
        ieListPresent := attr.macMetadata
        destAddrMode
        frameVersion := ieee802154_2015
        srcAddrMode }
    seq := UInt8.ofNat attr.macSeqno.toNat
    srcPid := macPanId
    destPid := macPanId }

/-- `memset(&params, 0, sizeof(params))`. -/
def Frame.zero : Frame where
  destAddr := linkaddrNull
  srcAddr := linkaddrNull
  fcf := ⟨0, false, false, false, false, false, false, .noAddr, 0, .noAddr⟩
  seq := 0
  destPid := 0
  srcPid := 0
  payload := 0
  payloadLen := 0

/-- The sequence number of a new frame: `mac_dsn`, never 0, where the buffer has none. -/
def assignSeqno (macDsn : UInt8) (attr : PacketbufAttr) : PacketbufAttr :=
  if attr.macSeqno = 0 then
    { attr with macSeqno := UInt16.ofNat (if macDsn = 0 then 1 else macDsn).toNat }
  else attr

def createFrameParams (macPanId : UInt16) (macDsn : UInt8) (attr : PacketbufAttr)
    (sender receiver : Addr8) : Frame :=
  let holdsBroadcast : Bool := receiver = linkaddrNull
  let params :=
    framer802154SetupParams macPanId (assignSeqno macDsn attr) holdsBroadcast Frame.zero
  { params with
    destAddr := if holdsBroadcast then fun i ↦ if i.val < 2 then 0xff else 0 else receiver
    srcAddr := sender }

/-- `create_frame` before the `totlen` bytes that the packet buffer holds: the header, unless the
node has no PAN or the header does not fit. -/
def createFrame (macPanId : UInt16) (macDsn : UInt8) (attr : PacketbufAttr)
    (sender receiver : Addr8) (totlen : ℕ) : Option (List UInt8) :=
  if macPanId = 0xffff then none
  else
    let (hdrLen, params) := frame802154Hdrlen (createFrameParams macPanId macDsn attr sender receiver)
    if hdrLen + totlen > packetbufSize then none
    else some (frame802154Create params).1

/-- `tsch_packet_create_eack` of a node with the address `nodeAddr` into `bufLen` bytes. -/
def tschPacketCreateEack (conf : PacketConf) (macPanId : UInt16) (nodeAddr : Addr8) (bufLen : ℕ)
    (destAddr : Addr8) (seqno : UInt8) (drift : ℤ) (nack : Bool) : Option (List UInt8) := do
  let attr : PacketbufAttr :=
    { frameType := ackFrame, macAck := false, macMetadata := true
      macSeqno := UInt16.ofNat seqno.toNat
      macNoDestAddr := !conf.eackWithDestAddr
      macNoSrcAddr := !conf.eackWithSrcAddr }
  let params := framer802154SetupParams macPanId attr false
    { Frame.zero with destAddr, srcAddr := nodeAddr }
  let (hdrLen, params) := frame802154Hdrlen params
  let ies := { Ies.zero with timeCorrection := drift, isNack := nack }
  let ie ← createIeHeaderAckNackTimeCorrection (bufLen - hdrLen) ies
  pure ((frame802154Create params).1 ++ ie)

/-- What a parser of a frame returns: the length, 0 for a failure, and what it has stored. -/
structure ParsedPacket where
  ret : ℕ
  frame : Frame
  ies : Ies
  hdrLen : ℕ

/-- The end of both packet parsers: the elements behind a header of `ret` bytes, if any, where
`frame802154_parse` has left the pointer. The length so far and the header length are `uint8_t`. -/
def parsePacketIes (conf : PacketConf) (fuel bufSize ret : ℕ) (frame : Frame) (ies : Ies) :
    Cursor UInt8 (Option ParsedPacket) :=
  let finish (currLen : ℕ) (ies : Ies) : ParsedPacket :=
    ⟨currLen, frame, ies, (ret + ies.payloadIeOffset.toNat) % 256⟩
  if frame.fcf.ieListPresent then do
    match ← frame802154eParseInformationElements conf fuel (bufSize - ret) ies with
    | none => pure none
    | some (none, ies) => pure (some ⟨0, frame, ies, ret % 256⟩)
    | some (some ieLen, ies) => pure (some (finish ((ret + ieLen) % 256) ies))
  else pure (some (finish (ret % 256) ies))

/-- `tsch_packet_parse_eack` on the node `nodeAddr` of the PAN `macPanId`; `frame` and `ies` are
what the caller's structures held before. -/
def tschPacketParseEack (conf : PacketConf) (macPanId : UInt16) (nodeAddr : Addr8)
    (fuel bufSize : ℕ) (seqno : UInt8) (frame : Frame) (ies : Ies) :
    Cursor UInt8 (Option ParsedPacket) := do
  let (ret, frame) ← frame802154Parse bufSize frame
  let failed : ParsedPacket := ⟨0, frame, ies, ret % 256⟩
  if ret < 3 then pure (some failed)
  else if seqno ≠ frame.seq then pure (some failed)
  else if ¬frame802154CheckDestPanid macPanId frame then pure (some failed)
  else
    match frame802154ExtractLinkaddr frame with
    | none => pure (some failed)
    | some (_, dest) =>
      if dest ≠ nodeAddr ∧ dest ≠ linkaddrNull then pure (some failed)
      else parsePacketIes conf fuel bufSize ret frame Ies.zero

/-- What the node puts into its beacons. -/
structure EbContent where
  timeslotTimingUs : Fin tschTsElementsCount → UInt16
  hoppingSequenceLength : ℕ
  hoppingSequence : Fin tschHoppingSequenceMaxLen → UInt8
  slotframe0 : Option (UInt16 × IeLink)
  sequenceNumber : UInt16

/-- The elements that `tsch_packet_create_eb` prepares; `slotframe0` is the size of slotframe 0 and
its link at timeslot 0. -/
def ebIes (conf : PacketConf) (content : EbContent) : Ies :=
  let ies := Ies.zero
  let ies := if conf.ebWithTimeslotTiming then
      { ies with timeslotId := 1, timeslot := content.timeslotTimingUs }
    else ies
  let ies := if conf.ebWithHoppingSequence ∧
        content.hoppingSequenceLength ≤ tschHoppingSequenceMaxLen then
      { ies with
        channelHoppingSequenceId := 1
        hoppingSequenceLen := UInt16.ofNat content.hoppingSequenceLength
        hoppingSequenceList := fun i ↦
          if i.val < content.hoppingSequenceLength then content.hoppingSequence i else 0 }
    else ies
  let ies := match conf.ebWithSlotframeAndLink, content.slotframe0 with
    | true, some (size, link) =>
      { ies with slotframeAndLink :=
          ⟨1, 0, size, 1, fun i ↦ if i = 0 then link else ⟨0, 0, 0⟩⟩ }
    | _, _ => ies
  if conf.ebWithNeighborDiscovery then { ies with sequenceNumber := content.sequenceNumber }
  else ies

/-- Appends an element to the data of the packet buffer. -/
def appendIe (create : ℕ → Ies → Option (List UInt8)) (ies : Ies) (data : List UInt8) :
    Option (List UInt8) :=
  (create (packetbufSize - data.length) ies).map (data ++ ·)

/-- The sub-elements of the MLME element, in the order of `tsch_packet_create_eb`. -/
def ebSubIes (conf : PacketConf) (ies : Ies) : Option (List UInt8) := do
  let data ← appendIe createIeTschSynchronization ies []
  let data ← appendIe createIeTschTimeslot ies data
  let data ← appendIe createIeTschChannelHoppingSequence ies data
  let data ← appendIe createIeTschSlotframeAndLink ies data
  if conf.ebWithNeighborDiscovery then appendIe createIeTschNeighborDiscovery ies data
  else pure data

/-- The attributes that `tsch_packet_create_eb` gives a cleared packet buffer. -/
def ebAttr : PacketbufAttr := { PacketbufAttr.clear with frameType := beaconFrame, macMetadata := true }

/-- `tsch_packet_create_eb`: the frame, the header length and the offset of the synchronization
element. -/
def tschPacketCreateEb (conf : PacketConf) (macPanId : UInt16) (macDsn : UInt8) (nodeAddr : Addr8)
    (content : EbContent) : Option (List UInt8 × ℕ × ℕ) := do
  let ies := ebIes conf content
  let data ← ebSubIes conf ies
  let ies := { ies with mlmeLen := UInt16.ofNat data.length }
  -- the MLME descriptor goes before the data, which has moved by its two bytes
  let mlme ← createIeMlme (packetbufSize - (2 + data.length)) ies
  let data := mlme ++ data
  -- the buffer has room for the header termination, the result of the allocation is not checked
  let termination ← createIeHeaderListTermination1 (packetbufSize - (2 + data.length))
  let header ← createFrame macPanId macDsn ebAttr nodeAddr linkaddrNull (2 + data.length)
  let hdrLen := header.length + 2
  pure (header ++ (termination ++ data), hdrLen, hdrLen + 2)

/-- `tsch_packet_update_eb`: the synchronization element at its offset is written anew. -/
def tschPacketUpdateEb (asnLs4b : UInt32) (asnMs1b joinPriority : UInt8) (buf : List UInt8)
    (tschSyncIeOffset : ℕ) : List UInt8 :=
  match createIeTschSynchronization (buf.length - tschSyncIeOffset)
      { Ies.zero with asnLs4b, asnMs1b, joinPriority } with
  | some ie =>
    buf.take tschSyncIeOffset ++ (ie ++ buf.drop (tschSyncIeOffset + ie.length))
  | none => buf

def tschPacketParseEb (conf : PacketConf) (fuel bufSize : ℕ) (frame : Frame) (ies : Ies) :
    Cursor UInt8 (Option ParsedPacket) := do
  let (ret, frame) ← frame802154Parse bufSize frame
  let failed : ParsedPacket := ⟨0, frame, ies, 0⟩
  if ret = 0 then pure (some failed)
  else if frame.fcf.frameVersion < ieee802154_2015 ∨ frame.fcf.frameType ≠ beaconFrame then
    pure (some failed)
  else parsePacketIes conf fuel bufSize ret frame { Ies.zero with joinPriority := 0xff }

end ContikiMaster.Framer
