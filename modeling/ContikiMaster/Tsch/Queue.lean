import ContikiMaster.Tsch.Types

/-!
# Per-neighbor packet queues

The functions of `tsch-queue.c`. A call that would never return yields a `Fault`; a loop
that may not end fails with `Fault.diverges` when the bound on its turns is not enough.
Upper layer callbacks are left out: the routing layer passes `NULL`.
-/

namespace ContikiMaster.Tsch

open Sys

def macTxOk : ℕ := 0

def macTxDeferred : ℕ := 3

def macTxErr : ℕ := 4

def tschMacMinBe : ℕ := 1

def tschMacMaxBe : ℕ := 5

def tschQueueBackoffExpired (n : TschNeighbor) : Bool := n.backoffWindow == 0

def tschQueueBackoffReset (n : TschNeighbor) : TschNeighbor :=
  { n with backoffWindow := 0, backoffExponent := tschMacMinBe }

/-- `tsch_queue_backoff_inc`, with the value `random_rand` returns. -/
def tschQueueBackoffInc (randomRand : ℕ) (n : TschNeighbor) : TschNeighbor :=
  let exponent := min (n.backoffExponent + 1) tschMacMaxBe
  { n with backoffExponent := exponent, backoffWindow := randomRand / 64 % 2 ^ exponent + 1 }

def tschQueueGetNbr (s : Mac) (addr : Linkaddr) : Option ℕ :=
  if s.tschLocked then none else s.neighborList.find? fun n ↦ decide ((s.neighbor n).addr = addr)

/-- The entry `tsch_queue_add_nbr` initializes. -/
def newNeighbor (addr : Linkaddr) : TschNeighbor :=
  tschQueueBackoffReset { TschNeighbor.zero with
    addr := addr
    isBroadcast := decide (addr = tschEbAddress) || decide (addr = tschBroadcastAddress) }

/-- The part of `tsch_queue_add_nbr` that runs with the lock held. -/
def allocNeighbor (s : Mac) (addr : Linkaddr) : Option ℕ × Mac :=
  match s.neighborMemb.alloc with
  | none => (none, s)
  | some (n, pool) =>
    (some n, { s with
      neighborMemb := pool.store n (newNeighbor addr)
      neighborList := listAdd s.neighborList n })

def tschQueueAddNbr (s : Mac) (addr : Linkaddr) : Except Fault (Option ℕ × Mac) :=
  match tschQueueGetNbr s addr with
  | some n => .ok (some n, s)
  | none => do
    let (got, s) ← tschGetLock s
    if got then
      let (n, s) := allocNeighbor s addr
      return (n, tschReleaseLock s)
    else return (none, s)

def tschQueueGetTimeSource (s : Mac) : Option ℕ :=
  if s.tschLocked then none else s.neighborList.find? fun n ↦ (s.neighbor n).isTimeSource

def setTimeSource (s : Mac) (n : Option ℕ) (flag : Bool) : Mac :=
  match n with
  | none => s
  | some n => s.setNeighbor n { s.neighbor n with isTimeSource := flag }

/-- The switch of `tsch_queue_update_time_source`, the new flag set before the old is cleared. -/
def switchTimeSource (s : Mac) (newTimeSrc oldTimeSrc : Option ℕ) : Mac :=
  if newTimeSrc = oldTimeSrc then s
  else setTimeSource (setTimeSource s newTimeSrc true) oldTimeSrc false

def tschQueueUpdateTimeSource (s : Mac) (newAddr : Option Linkaddr) : Except Fault (Bool × Mac) :=
  if s.tschLocked || s.tschIsCoordinator then .ok (false, s)
  else
    let oldTimeSrc := tschQueueGetTimeSource s
    match newAddr with
    | none => .ok (true, switchTimeSource s none oldTimeSrc)
    | some addr => do
      let (newTimeSrc, s) ← tschQueueAddNbr s addr
      match newTimeSrc with
      | none => return (false, s)
      | some n => return (true, switchTimeSource s (some n) oldTimeSrc)

/-- `tsch_queue_is_empty`: false while TSCH is locked. -/
def tschQueueIsEmpty (s : Mac) (n : ℕ) : Bool := !s.tschLocked && (s.neighbor n).txArray.isEmpty

def tschQueueRemovePacketFromQueue (s : Mac) (n : Option ℕ) : Option ℕ × Mac :=
  if s.tschLocked then (none, s)
  else match n with
    | none => (none, s)
    | some n =>
      match (s.neighbor n).txArray with
      | [] => (none, s)
      | p :: rest =>
        (some p, { s.setNeighbor n { s.neighbor n with txArray := rest } with
          numEbPackets :=
            if some n = s.nEb then (s.numEbPackets + 255) % 256 else s.numEbPackets })

def tschQueueFreePacket (s : Mac) (p : ℕ) : Mac := { s with packetMemb := s.packetMemb.free p }

/-- One iteration of `tsch_queue_flush_nbr_queue`. -/
def flushOne (s : Mac) (n : ℕ) : Mac :=
  match tschQueueRemovePacketFromQueue s (some n) with
  | (none, s) => s
  | (some p, s) => tschQueueFreePacket (s.setPacket p { s.packet p with ret := macTxErr }) p

def flushLoop : ℕ → Mac → ℕ → Except Fault Mac
  | 0, s, n => if tschQueueIsEmpty s n then .ok s else .error .diverges
  | fuel + 1, s, n => if tschQueueIsEmpty s n then .ok s else flushLoop fuel (flushOne s n) n

def tschQueueFlushNbrQueue (s : Mac) (n : ℕ) : Except Fault Mac :=
  flushLoop (s.neighbor n).txArray.length s n

def tschQueueRemoveNbr (s : Mac) (n : ℕ) : Except Fault Mac := do
  let (got, s) ← tschGetLock s
  if got then
    let s := tschReleaseLock { s with neighborList := listRemove s.neighborList n }
    let s ← tschQueueFlushNbrQueue s n
    return { s with neighborMemb := s.neighborMemb.free n }
  else return s

/-- The guard of the neighbor garbage collector. -/
def neighborUnused (s : Mac) (n : ℕ) : Bool :=
  !(s.neighbor n).isBroadcast && !(s.neighbor n).isTimeSource &&
    (s.neighbor n).txLinksCount == 0 && tschQueueIsEmpty s n

/-- One iteration of `tsch_queue_free_unused_neighbors`. -/
def freeIfUnused (s : Mac) (n : ℕ) : Except Fault Mac :=
  if neighborUnused s n then tschQueueRemoveNbr s n else .ok s

def tschQueueFreeUnusedNeighbors (s : Mac) : Except Fault Mac :=
  if s.tschLocked then .ok s else s.neighborList.foldlM freeIfUnused s

/-- The record of a freshly queued packet: the header length and the sync IE offset
are what the block held before. -/
def queuedPacket (stale : TschPacket) (packetbuf : Packetbuf) (maxTransmissions : ℕ) : TschPacket :=
  { stale with
    qb := packetbuf, ret := macTxDeferred, transmissions := 0
    maxTransmissions := maxTransmissions }

/-- The commit of `tsch_queue_add_packet` to the queue of a neighbor; a ring of `2^k`
cells holds `2^k - 1` packets. -/
def putPacket (s : Mac) (n : ℕ) (maxTransmissions : ℕ) (packetbuf : Packetbuf)
    (queuebufAvailable : Bool) : Option ℕ × Mac :=
  if s.queueNumPerNeighbor ≤ (s.neighbor n).txArray.length + 1 then (none, s)
  else match s.packetMemb.alloc with
    | none => (none, s)
    | some (p, pool) =>
      if queuebufAvailable then
        let s := { s with
          packetMemb := pool.store p (queuedPacket (s.packet p) packetbuf maxTransmissions) }
        let s := s.setNeighbor n { s.neighbor n with txArray := (s.neighbor n).txArray ++ [p] }
        (some p, { s with
          numEbPackets := if some n = s.nEb then (s.numEbPackets + 1) % 256 else s.numEbPackets })
      else (none, { s with packetMemb := pool.free p })

/-- `tsch_queue_add_packet`; `queuebufAvailable` tells whether `queuebuf_new_from_packetbuf`
finds a buffer. -/
def tschQueueAddPacket (s : Mac) (addr : Linkaddr) (maxTransmissions : ℕ) (packetbuf : Packetbuf)
    (queuebufAvailable : Bool) : Except Fault (Option ℕ × Mac) :=
  if s.tschLocked then .ok (none, s)
  else do
    let (n, s) ← tschQueueAddNbr s addr
    match n with
    | none => return (none, s)
    | some n => return putPacket s n maxTransmissions packetbuf queuebufAvailable

/-- `tsch_queue_packet_count`, `none` standing for `-1`. -/
def tschQueuePacketCount (s : Mac) (addr : Linkaddr) : Except Fault (Option ℕ × Mac) :=
  if s.tschLocked then .ok (none, s)
  else do
    let (n, s) ← tschQueueAddNbr s addr
    return (n.map fun n ↦ (s.neighbor n).txArray.length, s)

def tschQueueGetPacketForNbr (s : Mac) (n : Option ℕ) (link : TschLink) : Option ℕ :=
  if s.tschLocked then none
  else match n with
    | none => none
    | some n =>
      if linkOptionShared link.linkOptions && !tschQueueBackoffExpired (s.neighbor n) then none
      else (s.neighbor n).txArray.head?

/-- `tsch_queue_get_unicast_packet_for_any`, with the neighbor the packet belongs to. -/
def tschQueueGetUnicastPacketForAny (s : Mac) (link : TschLink) : Option (ℕ × ℕ) :=
  if s.tschLocked then none
  else s.neighborList.findSome? fun n ↦
    if !(s.neighbor n).isBroadcast && (s.neighbor n).txLinksCount == 0 then
      (tschQueueGetPacketForNbr s (some n) link).map fun p ↦ (p, n)
    else none

/-- The number of transmissions left after a failed one, from the packet's TTL. -/
def ttlMaxTransmissions (s : Mac) (p : TschPacket) : ℕ :=
  let nextAsn : ℤ := ((s.tschCurrentAsn.ls4b : ℤ) + 1) % 65536
  if tschSlotnumLt (nextAsn - 1) p.qb.transmissionTtl then
    ((((p.qb.transmissionTtl : ℤ) - (nextAsn - 1)) % 256 + p.transmissions) % 256).toNat
  else p.transmissions

/-- `tsch_queue_packet_sent`: whether the packet stays in the queue, and the next state. -/
def tschQueuePacketSent (s : Mac) (n p : ℕ) (link : TschLink) (macTxStatus randomRand : ℕ) :
    Bool × Mac :=
  if macTxStatus = macTxOk then
    let s := (tschQueueRemovePacketFromQueue s (some n)).2
    if !(s.neighbor n).isBroadcast &&
        (linkOptionShared link.linkOptions || tschQueueIsEmpty s n) then
      (false, s.setNeighbor n (tschQueueBackoffReset (s.neighbor n)))
    else (false, s)
  else
    let s := s.setPacket p { s.packet p with maxTransmissions := ttlMaxTransmissions s (s.packet p) }
    let dropped : Bool := (s.packet p).maxTransmissions ≤ (s.packet p).transmissions
    let s := if dropped then (tschQueueRemovePacketFromQueue s (some n)).2 else s
    if !(s.neighbor n).isBroadcast && linkOptionShared link.linkOptions then
      (!dropped, s.setNeighbor n (tschQueueBackoffInc randomRand (s.neighbor n)))
    else (!dropped, s)

/-- One iteration of `tsch_queue_reset`. -/
def resetOne (s : Mac) (n : ℕ) : Except Fault Mac := do
  let s ← tschQueueFlushNbrQueue s n
  return s.setNeighbor n (tschQueueBackoffReset (s.neighbor n))

def tschQueueReset (s : Mac) : Except Fault Mac :=
  if s.tschLocked then .ok s else s.neighborList.foldlM resetOne s

/-- The decrement of `tsch_queue_update_all_backoff_windows` for one neighbor. -/
def backoffStep (destAddr : Linkaddr) (n : TschNeighbor) : TschNeighbor :=
  if n.backoffWindow ≠ 0 ∧ ((n.txLinksCount = 0 ∧ destAddr = tschBroadcastAddress) ∨
      (0 < n.txLinksCount ∧ destAddr = n.addr)) then
    { n with backoffWindow := n.backoffWindow - 1 }
  else n

def tschQueueUpdateAllBackoffWindows (s : Mac) (destAddr : Linkaddr) : Mac :=
  if s.tschLocked then s
  else s.neighborList.foldl (fun s n ↦ s.setNeighbor n (backoffStep destAddr (s.neighbor n))) s

def tschQueueInit (s : Mac) : Except Fault Mac := do
  let s := { s with
    neighborList := []
    neighborMemb := Memb.init s.neighborMemb.num TschNeighbor.zero
    packetMemb := Memb.init s.packetMemb.num TschPacket.zero }
  let (nEb, s) ← tschQueueAddNbr s tschEbAddress
  let (nBroadcast, s) ← tschQueueAddNbr { s with nEb := nEb } tschBroadcastAddress
  return { s with nBroadcast := nBroadcast }

end ContikiMaster.Tsch
