import ContikiMaster.Framer.Frame802154

/-!
# Information elements

`frame802154e-ie.c`: the elements of enhanced beacons and acknowledgements, as they are
written and walked. A pointer into the frame is an offset, a failed writer or reader is
`none`. The walk over the bytes left, kept in eight bits, takes a bound on its turns.
-/

namespace ContikiMaster.Framer

open Lib Lib.Cursor List

/-- The compile-time options of the TSCH packet format. -/
structure PacketConf where
  ebWithTimeslotTiming : Bool
  ebWithHoppingSequence : Bool
  ebWithSlotframeAndLink : Bool
  ebWithNeighborDiscovery : Bool
  eackWithSrcAddr : Bool
  eackWithDestAddr : Bool
  withSixtop : Bool

abbrev tschTsElementsCount : ℕ := 12

abbrev tschHoppingSequenceMaxLen : ℕ := 16

abbrev ieMaxLinks : ℕ := 4

structure IeLink where
  timeslot : UInt16
  channelOffset : UInt16
  linkOptions : UInt8
  deriving DecidableEq

structure SlotframeAndLinks where
  numSlotframes : UInt8
  slotframeHandle : UInt8
  slotframeSize : UInt16
  numLinks : UInt8
  links : Fin ieMaxLinks → IeLink
  deriving DecidableEq

structure Ies where
  timeCorrection : ℤ
  isNack : Bool
  payloadIeOffset : UInt8
  mlmeLen : UInt16
  asnLs4b : UInt32
  asnMs1b : UInt8
  joinPriority : UInt8
  timeslotId : UInt8
  timeslot : Fin tschTsElementsCount → UInt16
  slotframeAndLink : SlotframeAndLinks
  sequenceNumber : UInt16
  channelHoppingSequenceId : UInt8
  hoppingSequenceLen : UInt16
  hoppingSequenceList : Fin tschHoppingSequenceMaxLen → UInt8
  sixtopIeContentPtr : Option ℕ
  sixtopIeContentLen : UInt16
  deriving DecidableEq

/-- `memset(&ies, 0, sizeof(ies))`. -/
def Ies.zero : Ies where
  timeCorrection := 0
  isNack := false
  payloadIeOffset := 0
  mlmeLen := 0
  asnLs4b := 0
  asnMs1b := 0
  joinPriority := 0
  timeslotId := 0
  timeslot := fun _ ↦ 0
  slotframeAndLink := ⟨0, 0, 0, 0, fun _ ↦ ⟨0, 0, 0⟩⟩
  sequenceNumber := 0
  channelHoppingSequenceId := 0
  hoppingSequenceLen := 0
  hoppingSequenceList := fun _ ↦ 0
  sixtopIeContentPtr := none
  sixtopIeContentLen := 0

def headerIeAckNackTimeCorrection : ℕ := 0x1e

def headerIeListTermination1 : ℕ := 0x7e

def headerIeListTermination2 : ℕ := 0x7f

def payloadIeMlme : ℕ := 1

def payloadIeIetf : ℕ := 5

def payloadIeListTermination : ℕ := 0xf

def mlmeShortIeSynchronization : ℕ := 0x1a

/-- `MLME_SHORT_IE_TSCH_SLOFTRAME_AND_LINK`. -/
def mlmeShortIeSlotframeAndLink : ℕ := 0x1b

def mlmeShortIeTimeslot : ℕ := 0x1c

/-- `MLME_SHORT_IE_NEIGHBOR_DISCOVERY`, the eighth of the enumeration. -/
def mlmeShortIeNeighborDiscovery : ℕ := 0x21

def mlmeLongIeChannelHoppingSequence : ℕ := 9

/-- `SIXTOP_SUBIE_ID`. -/
def ietfIe6top : UInt8 := 0xc9

def createHeaderIeDescriptor (elementId ieLen : ℕ) : List UInt8 :=
  write16 (UInt16.ofNat (ieLen % 128 + elementId % 256 * 128))

def createPayloadIeDescriptor (groupId ieLen : ℕ) : List UInt8 :=
  write16 (UInt16.ofNat (ieLen % 2048 + groupId % 16 * 2048 + 32768))

def createMlmeShortIeDescriptor (subId ieLen : ℕ) : List UInt8 :=
  write16 (UInt16.ofNat (ieLen % 256 + subId % 128 * 256))

def createMlmeLongIeDescriptor (subId ieLen : ℕ) : List UInt8 :=
  write16 (UInt16.ofNat (ieLen % 2048 + subId % 16 * 2048 + 32768))

def createIeHeaderAckNackTimeCorrection (len : ℕ) (ies : Ies) : Option (List UInt8) :=
  if len ≥ 4 then
    let timeSyncField := (ies.timeCorrection % 4096).toNat + if ies.isNack then 0x8000 else 0
    some (createHeaderIeDescriptor headerIeAckNackTimeCorrection 2 ++
      write16 (UInt16.ofNat timeSyncField))
  else none

def createIeHeaderListTermination1 (len : ℕ) : Option (List UInt8) :=
  if len ≥ 2 then some (createHeaderIeDescriptor headerIeListTermination1 0) else none

def createIeMlme (len : ℕ) (ies : Ies) : Option (List UInt8) :=
  if len ≥ 2 then some (createPayloadIeDescriptor payloadIeMlme ies.mlmeLen.toNat) else none

def createIeIetf (len : ℕ) (ies : Ies) : Option (List UInt8) :=
  if len ≥ 2 then some (createPayloadIeDescriptor payloadIeIetf ies.sixtopIeContentLen.toNat)
  else none

def createIePayloadListTermination (len : ℕ) : Option (List UInt8) :=
  if len ≥ 2 then some (createPayloadIeDescriptor payloadIeListTermination 0) else none

def createIeTschSynchronization (len : ℕ) (ies : Ies) : Option (List UInt8) :=
  if len ≥ 8 then
    some (createMlmeShortIeDescriptor mlmeShortIeSynchronization 6 ++
      [UInt8.ofNat (ies.asnLs4b.toNat % 256), UInt8.ofNat (ies.asnLs4b.toNat / 256 % 256),
        UInt8.ofNat (ies.asnLs4b.toNat / 65536 % 256),
        UInt8.ofNat (ies.asnLs4b.toNat / 16777216 % 256), ies.asnMs1b, ies.joinPriority])
  else none

def writeLink (link : IeLink) : List UInt8 :=
  write16 link.timeslot ++ (write16 link.channelOffset ++ [link.linkOptions])

def createIeTschSlotframeAndLink (len : ℕ) (ies : Ies) : Option (List UInt8) :=
  let numSlotframes := ies.slotframeAndLink.numSlotframes.toNat
  let numLinks := ies.slotframeAndLink.numLinks.toNat
  let ieLen := 1 + numSlotframes * (4 + 5 * numLinks)
  if numSlotframes > 1 ∨ numLinks > ieMaxLinks ∨ len < 2 + ieLen then none
  else
    some (createMlmeShortIeDescriptor mlmeShortIeSlotframeAndLink ieLen ++
      (ies.slotframeAndLink.numSlotframes ::
        if numSlotframes = 1 then
          ies.slotframeAndLink.slotframeHandle ::
            (write16 ies.slotframeAndLink.slotframeSize ++
              (ies.slotframeAndLink.numLinks ::
                ((ofFn ies.slotframeAndLink.links).take numLinks).flatMap writeLink))
        else []))

def createIeTschTimeslot (len : ℕ) (ies : Ies) : Option (List UInt8) :=
  let ieLen := if ies.timeslotId = 0 then 1 else 25
  if len ≥ 2 + ieLen then
    some (createMlmeShortIeDescriptor mlmeShortIeTimeslot ieLen ++
      (ies.timeslotId ::
        if ies.timeslotId ≠ 0 then (ofFn ies.timeslot).flatMap write16 else []))
  else none

/-- `frame80215e_create_ie_tsch_channel_hopping_sequence`. With the identifier 0 the element is the
identifier alone; what the source writes behind it is not part of the element. -/
def createIeTschChannelHoppingSequence (len : ℕ) (ies : Ies) : Option (List UInt8) :=
  if ies.hoppingSequenceLen.toNat > tschHoppingSequenceMaxLen then none
  else
    let ieLen := if ies.channelHoppingSequenceId = 0 then 1 else 12 + ies.hoppingSequenceLen.toNat
    if len ≥ 2 + ieLen then
      some (createMlmeLongIeDescriptor mlmeLongIeChannelHoppingSequence ieLen ++
        (ies.channelHoppingSequenceId ::
          if ies.channelHoppingSequenceId ≠ 0 then
            -- channel page, number of channels, phy configuration, sequence, current hop
            [0, 0, 0, 0, 0, 0, 0] ++ (write16 ies.hoppingSequenceLen ++
              ((ofFn ies.hoppingSequenceList).take ies.hoppingSequenceLen.toNat ++ write16 0))
          else []))
    else none

def createIeTschNeighborDiscovery (len : ℕ) (ies : Ies) : Option (List UInt8) :=
  if len < 4 then none
  else
    some (createMlmeShortIeDescriptor mlmeShortIeNeighborDiscovery 2 ++ write16 ies.sequenceNumber)

/-- `frame802154e_parse_header_ie`; the correction is sign-extended from 12 bits. -/
def parseHeaderIe (len elementId : ℕ) (ies : Ies) : Cursor UInt8 (Option Ies) :=
  if elementId = headerIeAckNackTimeCorrection ∧ len = 2 then do
    let timeSyncField ← peek16 0
    let low := timeSyncField.toNat % 4096
    pure (some { ies with
      isNack := timeSyncField.toNat / 32768 = 1
      timeCorrection := if low / 2048 = 1 then (low : ℤ) - 4096 else low })
  else pure none

/-- The slotframe and link element of `frame802154e_parse_mlme_short_ie`. The number of links is
read before the lengths are compared. -/
def parseSlotframeAndLinkIe (len : ℕ) (ies : Ies) : Cursor UInt8 (Option Ies) :=
  if len ≥ 1 then do
    let numSlotframes ← peek 0
    let numLinks ← peek 4
    if numSlotframes = 0 then pure (some ies)
    else if numSlotframes.toNat ≤ 1 ∧ numLinks.toNat ≤ ieMaxLinks ∧
        len = 1 + numSlotframes.toNat * (4 + 5 * numLinks.toNat) then do
      let slotframeHandle ← peek 1
      let slotframeSize ← peek16 2
      let old := ies.slotframeAndLink.links
      let bytes ← peekEach (5 * numLinks.toNat) fun c ↦ 5 + c
      let byte := fun c ↦ if hc : c < 5 * numLinks.toNat then bytes ⟨c, hc⟩ else 0
      let links := fun i : Fin ieMaxLinks ↦
        if i.val < numLinks.toNat then
          ⟨word (byte (i * 5)) (byte (i * 5 + 1)), word (byte (i * 5 + 2)) (byte (i * 5 + 3)),
            byte (i * 5 + 4)⟩
        else old i
      pure (some { ies with
        slotframeAndLink := ⟨numSlotframes, slotframeHandle, slotframeSize, numLinks, links⟩ })
    else pure none
  else pure none

/-- The synchronization element of `frame802154e_parse_mlme_short_ie`. -/
def parseSynchronizationIe (len : ℕ) (ies : Ies) : Cursor UInt8 (Option Ies) :=
  if len = 6 then do
    let bytes ← peekEach 6 fun c ↦ c
    pure (some { ies with
      asnLs4b := UInt32.ofNat ((bytes 0).toNat + 256 * (bytes 1).toNat + 65536 * (bytes 2).toNat +
        16777216 * (bytes 3).toNat)
      asnMs1b := bytes 4
      joinPriority := bytes 5 })
  else pure none

/-- The timeslot element of `frame802154e_parse_mlme_short_ie`. -/
def parseTimeslotIe (len : ℕ) (ies : Ies) : Cursor UInt8 (Option Ies) :=
  if len = 1 ∨ len = 25 then do
    let timeslotId ← peek 0
    if len = 25 then do
      let low ← peekEach tschTsElementsCount fun i ↦ 1 + 2 * i
      let high ← peekEach tschTsElementsCount fun i ↦ 1 + 2 * i + 1
      pure (some { ies with timeslotId, timeslot := fun i ↦ word (low i) (high i) })
    else pure (some { ies with timeslotId })
  else pure none

/-- The sequence number element of `frame802154e_parse_mlme_short_ie`. -/
def parseNeighborDiscoveryIe (len : ℕ) (ies : Ies) : Cursor UInt8 (Option Ies) :=
  if len = 2 then do
    let sequenceNumber ← peek16 0
    pure (some { ies with sequenceNumber })
  else pure none

def parseMlmeShortIe (conf : PacketConf) (len subId : ℕ) (ies : Ies) :
    Cursor UInt8 (Option Ies) :=
  if subId = mlmeShortIeSlotframeAndLink then parseSlotframeAndLinkIe len ies
  else if subId = mlmeShortIeSynchronization then parseSynchronizationIe len ies
  else if subId = mlmeShortIeTimeslot then parseTimeslotIe len ies
  else if conf.ebWithNeighborDiscovery ∧ subId = mlmeShortIeNeighborDiscovery then
    parseNeighborDiscoveryIe len ies
  else pure none

/-- `frame802154e_parse_mlme_long_ie`. The list is copied only when both lengths agree. -/
def parseMlmeLongIe (len subId : ℕ) (ies : Ies) : Cursor UInt8 (Option Ies) :=
  if subId = mlmeLongIeChannelHoppingSequence ∧ len > 0 then do
    let channelHoppingSequenceId ← peek 0
    if len > 1 then do
      let hoppingSequenceLen ← peek16 8
      let n := hoppingSequenceLen.toNat
      if n ≤ tschHoppingSequenceMaxLen ∧ len = 12 + n then do
        let bytes ← peekEach n fun c ↦ 10 + c
        let old := ies.hoppingSequenceList
        let hoppingSequenceList := fun i : Fin tschHoppingSequenceMaxLen ↦
          if hi : i.val < n then bytes ⟨i, hi⟩ else old i
        pure (some { ies with channelHoppingSequenceId, hoppingSequenceLen, hoppingSequenceList })
      else pure (some { ies with channelHoppingSequenceId, hoppingSequenceLen })
    else pure (some { ies with channelHoppingSequenceId })
  else pure none

inductive ParsingState
  | headerIe
  | payloadIe
  | mlmeSubie
  deriving DecidableEq, Repr

/-- The locals of `frame802154e_parse_information_elements`; `bufSize` is a `uint8_t`. -/
structure IeParser where
  bufSize : ℕ
  parsingState : ParsingState
  nestedMlmeLen : ℤ
  ies : Ies

/-- What one turn of the loop does: the function returns, `none` being -1, or goes on. -/
inductive IeTurn
  | returns (ret : Option ℕ) (ies : Ies)
  | goesOn (s : IeParser)

/-- `buf += len; buf_size -= len;`. -/
def IeParser.advance (len : ℕ) (s : IeParser) : Cursor UInt8 IeTurn := do
  skip len
  pure (.goesOn { s with bufSize := (s.bufSize + 2048 - len) % 256 })

def headerIeTurn (start : ℕ) (ieDesc : ℕ) (s : IeParser) : Cursor UInt8 IeTurn :=
  let len := ieDesc % 128
  let id := ieDesc / 128 % 256
  if ieDesc / 32768 ≠ 0 then pure (.returns none s.ies)
  else if id = headerIeListTermination1 then
    if len = 0 then do
      let buf ← here
      IeParser.advance len { s with
        parsingState := .payloadIe
        ies := { s.ies with payloadIeOffset := UInt8.ofNat (buf - start) } }
    else pure (.returns none s.ies)
  else if id = headerIeListTermination2 then
    if len = 0 then do
      let buf ← here
      pure (.returns (some (buf + len - start))
        { s.ies with payloadIeOffset := UInt8.ofNat (buf - start) })
    else pure (.returns none s.ies)
  else if len > s.bufSize then pure (.returns none s.ies)
  else do
    match ← parseHeaderIe len id s.ies with
    | none => pure (.returns none s.ies)
    | some ies => IeParser.advance len { s with ies }

/-- The turn for a payload element, behind its descriptor. -/
def payloadIeTurn (conf : PacketConf) (start : ℕ) (ieDesc : ℕ) (s : IeParser) :
    Cursor UInt8 IeTurn :=
  let len := ieDesc % 2048
  let id := ieDesc / 2048 % 16
  if ieDesc / 32768 ≠ 1 then pure (.returns none s.ies)
  else if id = payloadIeMlme then
    IeParser.advance 0 { s with parsingState := .mlmeSubie, nestedMlmeLen := len }
  else if conf.withSixtop ∧ id = payloadIeIetf then do
    let subId ← peek 0
    let buf ← here
    let ies := if subId = ietfIe6top then
        { s.ies with sixtopIeContentPtr := some (buf + 1)
                     sixtopIeContentLen := UInt16.ofNat len - 1 }
      else s.ies
    IeParser.advance len { s with ies }
  else if id = payloadIeListTermination then do
    let buf ← here
    pure (.returns (if len = 0 then some (buf + len - start) else none) s.ies)
  else pure (.returns none s.ies)

/-- The turn for a sub-element of the MLME element, behind its descriptor. -/
def mlmeSubieTurn (conf : PacketConf) (ieDesc : ℕ) (s : IeParser) : Cursor UInt8 IeTurn :=
  let long := ieDesc / 32768 = 1
  let len := if long then ieDesc % 2048 else ieDesc % 256
  let id := if long then ieDesc / 2048 % 16 else ieDesc / 256 % 128
  if len > s.bufSize then pure (.returns none s.ies)
  else do
    match ← (if long then parseMlmeLongIe len id s.ies else parseMlmeShortIe conf len id s.ies) with
    | none => pure (.returns none s.ies)
    | some ies =>
      let nestedMlmeLen := s.nestedMlmeLen - (2 + len)
      if nestedMlmeLen < 0 then pure (.returns none ies)
      else
        IeParser.advance len { s with
          ies, nestedMlmeLen
          parsingState := if nestedMlmeLen = 0 then .payloadIe else s.parsingState }

/-- One turn of the loop of `frame802154e_parse_information_elements`. -/
def ieTurn (conf : PacketConf) (start : ℕ) (s : IeParser) : Cursor UInt8 IeTurn :=
  if s.bufSize < 2 then pure (.returns none s.ies)
  else do
    let ieDesc ← peek16 0
    skip 2
    let s := { s with bufSize := s.bufSize - 2 }
    match s.parsingState with
    | .headerIe => headerIeTurn start ieDesc.toNat s
    | .payloadIe => payloadIeTurn conf start ieDesc.toNat s
    | .mlmeSubie => mlmeSubieTurn conf ieDesc.toNat s

/-- The loop, for at most `fuel` tests of its condition. -/
def ieLoop (conf : PacketConf) (start : ℕ) :
    ℕ → IeParser → Cursor UInt8 (Option (Option ℕ × Ies))
  | 0, _ => pure none
  | fuel + 1, s =>
    if s.bufSize = 0 then do
      let buf ← here
      pure (some (some (buf - start), if s.parsingState = .headerIe then
        { s.ies with payloadIeOffset := UInt8.ofNat (buf - start) } else s.ies))
    else do
      match ← ieTurn conf start s with
      | .returns ret ies => pure (some (ret, ies))
      | .goesOn s => ieLoop conf start fuel s

def frame802154eParseInformationElements (conf : PacketConf) (fuel bufSize : ℕ) (ies : Ies) :
    Cursor UInt8 (Option (Option ℕ × Ies)) := do
  let start ← here
  ieLoop conf start fuel ⟨bufSize % 256, .headerIe, 0, { ies with payloadIeOffset := 0 }⟩

end ContikiMaster.Framer
