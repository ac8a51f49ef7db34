import ContikiMaster.Lib.Call
import ContikiMaster.Lib.Cursor
import ContikiMaster.Sys.Memb
import Mathlib.Data.Fintype.Pi

/-!
# Data model of the TSCH layer

The records of `tsch-schedule.h`, `tsch-queue.h` and `tsch-asn.h`, with central
scheduling, flow-based queues and TTL-based retransmissions compiled in, and link-layer
security compiled out. Pointers are block indices of the four pools, `none` being `NULL`.
Logging, LEDs and radio timing are left out.
-/

namespace ContikiMaster.Tsch

open Sys

/-- `linkaddr_t` with eight bytes. -/
abbrev Linkaddr := Fin 8 → ℕ

/-- The address of the EB queue, also Contiki's `linkaddr_null`. -/
def tschEbAddress : Linkaddr := fun _ ↦ 0

def linkaddrNull : Linkaddr := fun _ ↦ 0

def tschBroadcastAddress : Linkaddr := fun _ ↦ 0xff

/-- The artificial address of a flow queue: the number is cast to one byte. -/
def flowAddr (flow : ℕ) : Linkaddr := fun i ↦ if i = 1 then flow % 256 else 0

theorem flowAddr_eq_iff {f g : ℕ} : flowAddr f = flowAddr g ↔ f % 256 = g % 256 := by
  constructor
  · intro heq
    simpa [flowAddr] using congrFun heq 1
  · intro heq
    funext i
    simp [flowAddr, heq]

theorem flowAddr_eq_ebAddress_iff {f : ℕ} : flowAddr f = tschEbAddress ↔ f % 256 = 0 := by
  constructor
  · intro heq
    simpa [flowAddr, tschEbAddress] using congrFun heq 1
  · intro heq
    funext i
    simp [flowAddr, tschEbAddress, heq]

theorem flowAddr_ne_broadcastAddress (f : ℕ) : flowAddr f ≠ tschBroadcastAddress := by
  intro heq
  simpa [flowAddr, tschBroadcastAddress] using congrFun heq 0

/-- `TSCH_SLOTNUM_DIFF16`: the signed 16-bit difference of two slot numbers. -/
def tschSlotnumDiff16 (slotnum1 slotnum2 : ℤ) : ℤ := Int.bmod (slotnum1 - slotnum2) 65536

/-- `TSCH_SLOTNUM_LT`: overflow-safe comparison. -/
def tschSlotnumLt (slotnum1 slotnum2 : ℤ) : Bool := tschSlotnumDiff16 slotnum1 slotnum2 < 0

structure TschAsn where
  ls4b : ℕ
  ms1b : ℕ
  deriving DecidableEq, Repr

/-- `TSCH_ASN_INC`. -/
def TschAsn.inc (asn : TschAsn) (by_ : ℕ) : TschAsn :=
  let newLs4b := (asn.ls4b + by_) % 2 ^ 32
  { ls4b := newLs4b, ms1b := if newLs4b < asn.ls4b then (asn.ms1b + 1) % 256 else asn.ms1b }

inductive IntWidth
  | bits16
  | bits32
  deriving DecidableEq

def IntWidth.bits : IntWidth → ℕ
  | .bits16 => 16
  | .bits32 => 32

/-- What the type of a promoted `uint16_t` holds of a number. With 16 bits the type is unsigned and
wraps; with 32 bits what is computed with it stays below the sign. -/
def IntWidth.wrap (w : IntWidth) (x : ℕ) : ℕ := x % 2 ^ w.bits

/-- The value of an expression over `uint16_t` that may go below zero. -/
def IntWidth.value (w : IntWidth) (x : ℤ) : ℤ :=
  match w with
  | .bits16 => x % 65536
  | .bits32 => x

structure TschAsnDivisor where
  val : ℕ
  asnMs1bRemainder : ℕ

def tschAsnMod (w : IntWidth) (asn : TschAsn) (div : TschAsnDivisor) : ℕ :=
  w.wrap (asn.ls4b % div.val % 2 ^ 16 +
    w.wrap (asn.ms1b * div.asnMs1bRemainder) % div.val % 2 ^ 16) % div.val

/-- `TSCH_ASN_MOD` for a size that `TSCH_ASN_DIVISOR_INIT` has set. -/
def TschAsn.mod (w : IntWidth) (asn : TschAsn) (size : ℕ) : ℕ :=
  tschAsnMod w asn ⟨size, (0xffffffff % size + 1) % size⟩

inductive LinkType
  | normal
  | advertising
  | advertisingOnly
  deriving DecidableEq, Repr

def linkOptionTx (options : ℕ) : Bool := options.testBit 0

def linkOptionRx (options : ℕ) : Bool := options.testBit 1

def linkOptionShared (options : ℕ) : Bool := options.testBit 2

structure TschLink where
  handle : ℕ
  addr : Linkaddr
  slotframeHandle : ℕ
  timeslot : ℕ
  channelOffset : ℕ
  linkOptions : ℕ
  linkType : LinkType

structure TschSlotframe where
  handle : ℕ
  size : ℕ
  linksList : List ℕ

/-- A packet buffer: the frame bytes and the attributes the MAC reads. -/
structure Packetbuf where
  data : List ℕ
  receiver : Linkaddr
  maxMacTransmissions : ℕ
  flowNumber : ℕ
  transmissionTtl : ℕ
  earliestTxSlot : ℕ

/-- A queued packet with the content of its queuebuf. -/
structure TschPacket where
  qb : Packetbuf
  transmissions : ℕ
  maxTransmissions : ℕ
  ret : ℕ
  headerLen : ℕ
  tschSyncIeOffset : ℕ

/-- A neighbor queue; the ring of packet pointers is a list, oldest first. -/
structure TschNeighbor where
  addr : Linkaddr
  isBroadcast : Bool
  isTimeSource : Bool
  backoffExponent : ℕ
  backoffWindow : ℕ
  txLinksCount : ℕ
  dedicatedTxLinksCount : ℕ
  txArray : List ℕ

def Packetbuf.zero : Packetbuf := ⟨[], linkaddrNull, 0, 0, 0, 0⟩

def TschLink.zero : TschLink := ⟨0, linkaddrNull, 0, 0, 0, 0, .normal⟩

def TschSlotframe.zero : TschSlotframe := ⟨0, 0, []⟩

def TschPacket.zero : TschPacket := ⟨.zero, 0, 0, 0, 0, 0⟩

def TschNeighbor.zero : TschNeighbor := ⟨linkaddrNull, false, false, 0, 0, 0, 0, []⟩

structure Mac where
  tschLocked : Bool
  tschInSlotOperation : Bool
  tschIsCoordinator : Bool
  tschIsAssociated : Bool
  tschCurrentAsn : TschAsn
  tschJoinPriority : ℕ
  tschPacketSeqno : ℕ
  linkMemb : Memb TschLink
  slotframeMemb : Memb TschSlotframe
  slotframeList : List ℕ
  currentLinkHandle : ℕ
  currentLink : Option ℕ
  backupLink : Option ℕ
  neighborMemb : Memb TschNeighbor
  neighborList : List ℕ
  nBroadcast : Option ℕ
  nEb : Option ℕ
  numEbPackets : ℕ
  packetMemb : Memb TschPacket
  queueNumPerNeighbor : ℕ
  dequeued : List ℕ
  dequeuedArraySize : ℕ
  intWidth : IntWidth

/-- The ways a call can fail to return. -/
inductive Fault
  /-- `tsch_get_lock` spins until a slot operation ends. -/
  | busyWait
  /-- A loop whose condition no iteration changes. -/
  | diverges
  /-- `NULL` is dereferenced, or an array is accessed past its end. -/
  | invalidAccess
  deriving DecidableEq, Repr

namespace Mac

abbrev link (s : Mac) (l : ℕ) : TschLink := s.linkMemb.mem l

abbrev slotframe (s : Mac) (sf : ℕ) : TschSlotframe := s.slotframeMemb.mem sf

abbrev neighbor (s : Mac) (n : ℕ) : TschNeighbor := s.neighborMemb.mem n

abbrev packet (s : Mac) (p : ℕ) : TschPacket := s.packetMemb.mem p

def setNeighbor (s : Mac) (n : ℕ) (v : TschNeighbor) : Mac :=
  { s with neighborMemb := s.neighborMemb.store n v }

def setSlotframe (s : Mac) (sf : ℕ) (v : TschSlotframe) : Mac :=
  { s with slotframeMemb := s.slotframeMemb.store sf v }

def setPacket (s : Mac) (p : ℕ) (v : TschPacket) : Mac :=
  { s with packetMemb := s.packetMemb.store p v }

end Mac

/-- Lock TSCH. Within a slot operation the wait for its end never ends. -/
def tschGetLock (s : Mac) : Except Fault (Bool × Mac) :=
  if s.tschLocked then .ok (false, s)
  else if s.tschInSlotOperation then .error .busyWait
  else .ok (true, { s with tschLocked := true })

def tschReleaseLock (s : Mac) : Mac := { s with tschLocked := false }

end ContikiMaster.Tsch
