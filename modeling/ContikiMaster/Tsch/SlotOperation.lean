import ContikiMaster.Tsch.Schedule

/-!
# Slot operation

The interrupt side of TSCH (`tsch-slot-operation.c`). Radio outcomes, random numbers and
missed deadlines are inputs. A slot is one step, so code of the process context runs
between slots only.
-/

namespace ContikiMaster.Tsch

open Sys

/-- A packet whose TTL leaves no time to send it in the current slot. -/
def ttlExpired (s : Mac) (p : ℕ) : Bool :=
  !tschSlotnumLt ((s.tschCurrentAsn.ls4b : ℤ) - 1) (s.packet p).qb.transmissionTtl

/-- A packet whose earliest slot is still to come. -/
def tooEarly (s : Mac) (p : ℕ) : Bool :=
  tschSlotnumLt s.tschCurrentAsn.ls4b (s.packet p).qb.earliestTxSlot

def dropExpired (s : Mac) (n : Option ℕ) (p : ℕ) : Except Fault Mac :=
  tschQueueFreeUnusedNeighbors (tschQueueFreePacket (tschQueueRemovePacketFromQueue s n).2 p)

/-- One iteration of the TTL loop, with what follows it when the head has expired. -/
def ttlStep (again : Mac → Except Fault (Option ℕ × Mac)) (s : Mac) (n : Option ℕ)
    (link : TschLink) : Except Fault (Option ℕ × Mac) :=
  match tschQueueGetPacketForNbr s n link with
  | none => .ok (none, s)
  | some p => if ttlExpired s p then dropExpired s n p >>= again else .ok (some p, s)

/-- The loop of `get_packet_and_neighbor_for_link` that dequeues expired packets. -/
def ttlLoop : ℕ → Mac → Option ℕ → TschLink → Except Fault (Option ℕ × Mac)
  | 0, s, n, link => ttlStep (fun _ ↦ .error .diverges) s n link
  | fuel + 1, s, n, link => ttlStep (fun s ↦ ttlLoop fuel s n link) s n link

/-- The number of packets in a neighbor queue, `0` for `NULL`. -/
def queueLength (s : Mac) : Option ℕ → ℕ
  | none => 0
  | some n => (s.neighbor n).txArray.length

/-- The part of `get_packet_and_neighbor_for_link` that picks a data packet. -/
def getDataPacketForLink (s : Mac) (link : TschLink) :
    Except Fault (Option ℕ × Option ℕ × Mac) := do
  let n := tschQueueGetNbr s (flowAddr link.slotframeHandle)
  let (p, s) ← ttlLoop (queueLength s n) s n link
  let p := p.filter fun p ↦ !tooEarly s p
  if p.isNone && n == s.nBroadcast then
    match tschQueueGetUnicastPacketForAny s link with
    | none => return (none, n, s)
    | some (p, n) => return (some p, some n, s)
  else return (p, n, s)

/-- `get_packet_and_neighbor_for_link`: the packet, its neighbor and the next state. -/
def getPacketAndNeighborForLink (s : Mac) (l : ℕ) : Except Fault (Option ℕ × Option ℕ × Mac) :=
  let link := s.link l
  if linkOptionTx link.linkOptions then
    let eb :=
      match link.linkType with
      | .normal => none
      | .advertising | .advertisingOnly => tschQueueGetPacketForNbr s s.nEb link
    if link.linkType = .advertisingOnly then .ok (eb, s.nEb, s)
    else match eb with
      | some p => .ok (some p, s.nEb, s)
      | none => getDataPacketForLink s link
  else .ok (none, none, s)

/-- The TSCH synchronization IE: descriptor, ASN and join priority. -/
def tschSynchronizationIe (s : Mac) : List ℕ :=
  let asn := s.tschCurrentAsn
  [6, 0x1a, asn.ls4b % 256, asn.ls4b / 2 ^ 8 % 256, asn.ls4b / 2 ^ 16 % 256,
    asn.ls4b / 2 ^ 24 % 256, asn.ms1b, s.tschJoinPriority]

/-- `tsch_packet_update_eb`: write the IE at its offset when there is room for its eight bytes. -/
def tschPacketUpdateEb (s : Mac) (buf : List ℕ) (tschSyncIeOffset : ℕ) : List ℕ :=
  if tschSyncIeOffset + 8 ≤ buf.length then
    buf.take tschSyncIeOffset ++ tschSynchronizationIe s ++ buf.drop (tschSyncIeOffset + 8)
  else buf

structure SlotEnv where
  macTxStatus : ℕ
  randomRand : ℕ
  desynchronized : Bool
  missedDeadlines : ℕ

/-- The frame that `tsch_tx_slot` copies to the radio buffer. -/
def framePrepared (s : Mac) (n p : ℕ) : List ℕ :=
  if some n = s.nEb then
    tschPacketUpdateEb s (s.packet p).qb.data (s.packet p).tschSyncIeOffset
  else (s.packet p).qb.data

/-- `tsch_tx_slot`: the frame handed to the radio, and the next state. Nothing happens when
there is no room to store a dequeued packet. -/
def tschTxSlot (s : Mac) (n p : ℕ) (link : TschLink) (env : SlotEnv) : Option (List ℕ) × Mac :=
  if s.dequeuedArraySize ≤ s.dequeued.length + 1 then (none, s)
  else
    let frame := framePrepared s n p
    let s := s.setPacket p { s.packet p with
      qb := { (s.packet p).qb with data := frame }
      transmissions := ((s.packet p).transmissions + 1) % 256
      ret := env.macTxStatus }
    let (inQueue, s) := tschQueuePacketSent s n p link env.macTxStatus env.randomRand
    (some frame, if inQueue then s else { s with dequeued := s.dequeued ++ [p] })

def nextSlot (s : Mac) : Mac :=
  let s := match s.currentLink with
    | some l =>
      if linkOptionTx (s.link l).linkOptions && linkOptionShared (s.link l).linkOptions then
        tschQueueUpdateAllBackoffWindows s (s.link l).addr
      else s
    | none => s
  let next := tschScheduleGetNextActiveLink s
  { s with
    currentLink := next.currBest
    backupLink := next.currBackup
    tschCurrentAsn := s.tschCurrentAsn.inc
      (if next.currBest.isNone then 1 else next.timeToCurrBest) }

/-- The end of `tsch_slot_operation`: resynchronize or schedule the next slot. -/
def endSlot (s : Mac) (env : SlotEnv) : Mac :=
  let s :=
    if !s.tschIsCoordinator && env.desynchronized then { s with tschIsAssociated := false }
    else nextSlot^[env.missedDeadlines + 1] s
  { s with tschInSlotOperation := false }

/-- The packet of the current link, or of the backup link when the current one has nothing
to send and no Rx option. -/
def selectPacket (s : Mac) (l : ℕ) : Except Fault (ℕ × Option ℕ × Option ℕ × Mac) := do
  let (p, n, s) ← getPacketAndNeighborForLink s l
  match p, s.backupLink with
  | none, some backup =>
    if linkOptionRx (s.link l).linkOptions then return (l, none, n, s)
    else
      let (p, n, s) ← getPacketAndNeighborForLink { s with currentLink := some backup } backup
      return (backup, p, n, s)
  | p, _ => return (l, p, n, s)

/-- A frame handed to the radio, with the packet it belongs to. -/
structure Transmission where
  packet : ℕ
  frame : List ℕ

/-- `tsch_slot_operation` from one wake-up to the next; `none` when nothing is transmitted. -/
def tschSlotOperation (s : Mac) (env : SlotEnv) : Except Fault (Option Transmission × Mac) :=
  if s.tschIsAssociated then
    match s.currentLink with
    | none => .ok (none, endSlot s env)
    | some l => do
      let (l, p, n, s) ← selectPacket { s with tschInSlotOperation := true } l
      match p, n with
      | some p, some n =>
        let (frame, s) := tschTxSlot s n p (s.link l) env
        return (frame.map fun frame ↦ ⟨p, frame⟩, endSlot s env)
      | _, _ => return (none, endSlot s env)
  else .ok (none, s)

end ContikiMaster.Tsch
