import ContikiMaster.Framer.TschPacket
import ContikiMaster.Tsch.Schedule

/-!
# Joining a network

`tsch_associate` of `tsch.c`, with what it takes from a beacon. The check of the clock at
association, keep-alives and statistics are left out. What a remainder by zero gives is a
parameter of the platform, as is the conversion of microseconds to ticks.
-/

namespace ContikiMaster.Tsch

open Framer (PacketConf Frame Ies IeLink tschPacketParseEb tschTsElementsCount
  tschHoppingSequenceMaxLen ieMaxLinks)

def tschTsTimeslotLength : Fin tschTsElementsCount := 11

/-- The options of the build and the platform. -/
structure JoinConf where
  packetConf : PacketConf
  joinMyPanidOnly : Bool
  ieee802154Panid : UInt16
  initScheduleFromEb : Bool
  scheduleWith6tischMinimal : Bool
  scheduleDefaultLength : ℕ
  maxJoinPriority : ℕ
  defaultHoppingSequence : List UInt8
  defaultTimingUs : Fin tschTsElementsCount → UInt16
  /-- `US_TO_RTIMERTICKS`. -/
  usToRtimerticks : UInt16 → ℕ
  /-- What a remainder by zero gives, `none` for a trap. -/
  remainderByZero : Option ℕ
  hoppingSequence_pos : 0 < defaultHoppingSequence.length
  /-- "Must be greater or equal to the length of TSCH_DEFAULT_HOPPING_SEQUENCE." -/
  hoppingSequence_fits : defaultHoppingSequence.length ≤ tschHoppingSequenceMaxLen
  timeslotLength_pos : 0 < usToRtimerticks (defaultTimingUs tschTsTimeslotLength)

def tschAsnDivisorInit (remainderByZero : Option ℕ) (val : ℕ) : Option TschAsnDivisor :=
  if val = 0 then remainderByZero.map (⟨val, ·⟩)
  else some ⟨val, (0xffffffff % val + 1) % val⟩

structure Joiner where
  mac : Mac
  tschTiming : Fin tschTsElementsCount → ℕ
  tschHoppingSequence : Fin tschHoppingSequenceMaxLen → UInt8
  tschHoppingSequenceLength : TschAsnDivisor
  macPanId : UInt16
  tschIsPanSecured : Bool

/-- `tsch_calculate_channel`; `none` stands for a division by zero or a read past the sequence. -/
def tschCalculateChannel (s : Joiner) (asn : TschAsn) (channelOffset : ℕ) : Option UInt8 :=
  let div := s.tschHoppingSequenceLength
  if div.val = 0 then none
  else
    let indexOfOffset := (tschAsnMod s.mac.intWidth asn div + channelOffset) % div.val
    if h : indexOfOffset < tschHoppingSequenceMaxLen then
      some (s.tschHoppingSequence ⟨indexOfOffset, h⟩)
    else none

def adoptTiming (conf : JoinConf) (ies : Ies) (s : Joiner) : Joiner :=
  { s with tschTiming := fun i ↦
      if ies.timeslotId = 0 then conf.usToRtimerticks (conf.defaultTimingUs i)
      else conf.usToRtimerticks (ies.timeslot i) }

/-- Copies the first `n` channels and sets the length. -/
def setHoppingSequence (conf : JoinConf) (n : ℕ) (list : ℕ → UInt8) (s : Joiner) : Option Joiner :=
  (tschAsnDivisorInit conf.remainderByZero n).map fun div ↦
    { s with
      tschHoppingSequence := fun i ↦ if i.val < n then list i else s.tschHoppingSequence i
      tschHoppingSequenceLength := div }

/-- The hopping sequence; the flag is false for a sequence that is too long. -/
def adoptHoppingSequence (conf : JoinConf) (ies : Ies) (s : Joiner) : Option (Bool × Joiner) :=
  if ies.channelHoppingSequenceId = 0 then
    (setHoppingSequence conf conf.defaultHoppingSequence.length
      (fun i ↦ conf.defaultHoppingSequence.getD i 0) s).map (true, ·)
  else if ies.hoppingSequenceLen.toNat ≤ tschHoppingSequenceMaxLen then
    (setHoppingSequence conf ies.hoppingSequenceLen.toNat
      (fun i ↦ if h : i < tschHoppingSequenceMaxLen then ies.hoppingSequenceList ⟨i, h⟩ else 0)
      s).map (true, ·)
  else some (false, s)

/-- `LINK_OPTION_RX | LINK_OPTION_TX | LINK_OPTION_SHARED | LINK_OPTION_TIME_KEEPING`. -/
def minimalLinkOptions : ℕ := 15

def tschScheduleCreateMinimal (conf : JoinConf) (s : Mac) : Except Fault Mac := do
  let (_, s) ← tschScheduleRemoveAllSlotframes s
  let (sfMin, s) ← tschScheduleAddSlotframe s 0 conf.scheduleDefaultLength
  let (_, s) ← tschScheduleAddLink s sfMin
    ⟨minimalLinkOptions, .advertising, tschBroadcastAddress, 0, 0⟩
  return s

/-- One link of the beacon's slotframe. -/
def addEbLink (sf : Option ℕ) (s : Mac) (link : IeLink) : Except Fault Mac := do
  let (_, s) ← tschScheduleAddLink s sf ⟨link.linkOptions.toNat, .advertising,
    tschBroadcastAddress, link.timeslot.toNat, link.channelOffset.toNat⟩
  return s

/-- The schedule; the flag is false for a slotframe with too many links. -/
def adoptSchedule (conf : JoinConf) (ies : Ies) (s : Mac) : Except Fault (Bool × Mac) :=
  if ¬conf.initScheduleFromEb then return (true, s)
  else if ies.slotframeAndLink.numSlotframes = 0 then
    if conf.scheduleWith6tischMinimal then do
      let s ← tschScheduleCreateMinimal conf s
      return (true, s)
    else return (true, s)
  else do
    let (_, s) ← tschScheduleRemoveAllSlotframes s
    let numLinks := ies.slotframeAndLink.numLinks.toNat
    if numLinks ≤ ieMaxLinks then
      let (sf, s) ← tschScheduleAddSlotframe s ies.slotframeAndLink.slotframeHandle.toNat
        ies.slotframeAndLink.slotframeSize.toNat
      let s ← ((List.ofFn ies.slotframeAndLink.links).take numLinks).foldlM (addEbLink sf) s
      return (true, s)
    else return (false, s)

def adoptTimeSource (frame : Frame) (s : Joiner) : Except Fault (Bool × Joiner) := do
  let addr : Linkaddr := fun i ↦ (frame.srcAddr i).toNat
  let (n, mac) ← tschQueueAddNbr s.mac addr
  match n with
  | none => return (false, { s with mac })
  | some _ =>
    let (_, mac) ← tschQueueUpdateTimeSource mac (some addr)
    return (true, { s with
      mac := { mac with currentLink := none, tschIsAssociated := true }
      macPanId := frame.srcPid
      tschIsPanSecured := frame.fcf.securityEnabled })

/-- `tsch_associate` with a beacon of `len` bytes; `frame` and `ies` are what its locals hold before.
The flag is its result, `none` stands for a call that does not return. -/
def tschAssociate (conf : JoinConf) (fuel : ℕ) (payload : ℕ → UInt8) (len : ℕ) (frame : Frame)
    (ies : Ies) (s : Joiner) : Option (Bool × Joiner) := do
  let ⟨ret, frame, ies, _⟩ ←
    Lib.Cursor.value (tschPacketParseEb conf.packetConf fuel len frame ies) payload 0
  if ret = 0 then return (false, s)
  else
    let s := { s with mac := { s.mac with
      tschCurrentAsn := ⟨ies.asnLs4b.toNat, ies.asnMs1b.toNat⟩
      tschJoinPriority := (ies.joinPriority + 1).toNat } }
    if frame.fcf.securityEnabled then return (false, s)
    else if conf.joinMyPanidOnly ∧ frame.srcPid ≠ conf.ieee802154Panid then return (false, s)
    else if ies.joinPriority = 0xff then return (false, s)
    else
      let (fits, s) ← adoptHoppingSequence conf ies (adoptTiming conf ies s)
      if ¬fits then return (false, s)
      else
        let (fits, mac) ← (adoptSchedule conf ies s.mac).toOption
        let s := { s with mac }
        if ¬fits then return (false, s)
        else if s.mac.tschJoinPriority < conf.maxJoinPriority then
          (adoptTimeSource frame s).toOption
        else return (false, s)

end ContikiMaster.Tsch
