import ContikiMaster.Lib.Run
import ContikiMaster.Net.QueueBuf
import ContikiMaster.Tsch.Types

/-!
# CSMA output

The transmit queues of `csma-output.c`: neighbours with pending packets and timers, over
three pools. The radio, the framer and the time at which a timer expires are the
environment's; the length of a backoff is left out. The state keeps a stack of the sent
callbacks that are being executed; a packet may be output inside one.
-/

namespace ContikiMaster.Csma

open Lib Sys Net
open Tsch (Linkaddr linkaddrNull)

/-- The constants of the build, within the ranges the source gives for them. -/
structure Conf where
  minBe : ℕ := 0
  maxBackoff : ℕ := 5
  maxFrameRetries : ℕ := 7
  maxNeighborQueues : ℕ := 2
  maxPacketPerNeighbor : ℕ := 8
  queuebufNum : ℕ := 8
  minBe_lt : minBe < 255 := by decide
  maxBackoff_lt : maxBackoff < 255 := by decide
  maxFrameRetries_lt : maxFrameRetries < 255 := by decide
  maxPacketPerNeighbor_pos : 0 < maxPacketPerNeighbor := by decide

inductive MacStatus
  | ok
  | collision
  | noack
  | deferred
  | err
  | errFatal
  deriving DecidableEq, Repr

/-- What the radio's `transmit` returns. -/
inductive RadioTx
  | ok
  | err
  | collision
  | noack
  deriving DecidableEq, Repr

/-- The packet attributes this layer reads and writes. -/
structure Attrs where
  receiver : Linkaddr
  macSeqno : ℕ
  maxMacTransmissions : ℕ
  deriving DecidableEq

/-- The caller's callback and its argument are known by the number of the call. -/
structure QbufMetadata where
  sent : ℕ
  maxTransmissions : ℕ
  deriving DecidableEq

structure PacketQueue where
  buf : ℕ
  ptr : Option ℕ
  deriving DecidableEq

/-- A neighbour block; its packets are blocks of the packet pool. -/
structure NeighborQueue (ι : Type) where
  addr : Linkaddr
  transmitTimer : Bool
  transmissions : ℕ
  collisions : ℕ
  packetQueue : List ι
  deriving DecidableEq

structure Accepted where
  call : ℕ
  receiver : Linkaddr
  maxTransmissions : ℕ
  deriving DecidableEq

structure Called where
  call : ℕ
  status : MacStatus
  transmissions : ℕ
  deriving DecidableEq

/-- A frame handed to the radio, what `transmit` returned and what came of it. -/
structure Airing where
  call : ℕ
  transmit : RadioTx
  status : MacStatus
  deriving DecidableEq

/-- The static variables, the queue buffers that other modules hold, the callbacks being executed,
whether a freed neighbour block was accessed, and what was asked and answered so far. -/
structure State where
  neighborMemb : Memb (NeighborQueue ℕ)
  packetMemb : Memb PacketQueue
  metadataMemb : Memb QbufMetadata
  queuebufs : QueueBufs Attrs
  neighborList : List ℕ
  seqno : ℕ
  foreign : List ℕ
  active : List ℕ
  dangling : Bool
  calls : ℕ
  accepted : List Accepted
  called : List Called
  aired : List Airing

/-- The pools are empty and the random initial sequence number is drawn. -/
def init (conf : Conf) (seqno : ℕ) : State where
  neighborMemb := .init conf.maxNeighborQueues ⟨linkaddrNull, false, 0, 0, []⟩
  packetMemb := .init conf.queuebufNum ⟨0, none⟩
  metadataMemb := .init conf.queuebufNum ⟨0, 0⟩
  queuebufs := .init conf.queuebufNum ⟨linkaddrNull, 0, 0⟩
  neighborList := []
  seqno := seqno % 256
  foreign := []
  active := []
  dangling := false
  calls := 0
  accepted := []
  called := []
  aired := []

namespace State

/-- A neighbour block is read or written. -/
def access (s : State) (n : ℕ) : State :=
  { s with dangling := s.dangling || s.neighborMemb.count n == 0 }

/-- The list functions walk over the blocks of a list. -/
def accessAll (s : State) (l : List ℕ) : State := l.foldl access s

def neighbor (s : State) (n : ℕ) : NeighborQueue ℕ := s.neighborMemb.mem n

def packet (s : State) (p : ℕ) : PacketQueue := s.packetMemb.mem p

def updateNeighbor (s : State) (n : ℕ) (f : NeighborQueue ℕ → NeighborQueue ℕ) : State :=
  let s := s.access n
  { s with neighborMemb := s.neighborMemb.store n (f (s.neighbor n)) }

/-- `mac_call_sent_callback`. -/
def callSent (s : State) (call : ℕ) (status : MacStatus) (transmissions : ℕ) : State :=
  { s with called := s.called ++ [⟨call, status, transmissions⟩], active := call :: s.active }

end State

open State

/-- The walk of `neighbor_queue_from_addr` over the rest of the list. -/
def neighborQueueFrom (addr : Linkaddr) : List ℕ → State → State × Option ℕ
  | [], s => (s, none)
  | n :: rest, s =>
    let s := s.access n
    if (s.neighbor n).addr = addr then (s, some n) else neighborQueueFrom addr rest s

def neighborQueueFromAddr (s : State) (addr : Linkaddr) : State × Option ℕ :=
  neighborQueueFrom addr s.neighborList s

/-- `schedule_transmission`: some time later the timer expires. -/
def scheduleTransmission (s : State) (n : ℕ) : State :=
  s.updateNeighbor n fun q ↦ { q with transmitTimer := true }

/-- A neighbour without packets leaves the list and is freed. -/
def removeNeighbor (s : State) (n : ℕ) : State :=
  let s := s.accessAll s.neighborList
  { s with
    neighborList := listRemove s.neighborList n
    neighborMemb := s.neighborMemb.free n }

/-- The end of `free_packet`: the next packet is scheduled, or the neighbour is freed. -/
def scheduleNext (conf : Conf) (s : State) (n : ℕ) : State :=
  let s := s.access n
  if (s.neighbor n).packetQueue ≠ [] then
    let s := s.updateNeighbor n fun q ↦ { q with transmissions := 0, collisions := conf.minBe }
    scheduleTransmission s n
  else
    removeNeighbor (s.updateNeighbor n fun q ↦ { q with transmitTimer := false }) n

def freePacket (conf : Conf) (s : State) (n p m : ℕ) : State :=
  let s := s.updateNeighbor n fun q ↦ { q with packetQueue := listRemove q.packetQueue p }
  let s := { s with
    queuebufs := s.queuebufs.free (s.packet p).buf
    metadataMemb := s.metadataMemb.free m
    packetMemb := s.packetMemb.free p }
  scheduleNext conf s n

def txDone (conf : Conf) (s : State) (status : MacStatus) (p n m : ℕ) : State :=
  let s := s.access n
  let sent := (s.metadataMemb.mem m).sent
  let ntx := (s.neighbor n).transmissions
  let s := freePacket conf s n p m
  s.callSent sent status ntx

def rexmit (s : State) (packetbuf : Attrs) (p n : ℕ) : State :=
  let s := scheduleTransmission s n
  { s with queuebufs := s.queuebufs.updateFromPacketbuf (s.packet p).buf packetbuf }

/-- The end of `collision` and of `noack`: the packet is given up or sent again. -/
def retry (conf : Conf) (s : State) (packetbuf : Attrs) (status : MacStatus) (p n m : ℕ) : State :=
  let s := s.access n
  if (s.metadataMemb.mem m).maxTransmissions ≤ (s.neighbor n).transmissions then
    txDone conf s status p n m
  else
    rexmit s packetbuf p n

/-- What `collision` does to the counters. -/
def NeighborQueue.collide {ι : Type} (conf : Conf) (q : NeighborQueue ι) (numTransmissions : ℕ) :
    NeighborQueue ι :=
  let q := { q with collisions := (q.collisions + numTransmissions) % 256 }
  if conf.maxBackoff < q.collisions then
    { q with collisions := conf.minBe, transmissions := (q.transmissions + 1) % 256 }
  else q

/-- What `noack` and `tx_ok` do to the counters. -/
def NeighborQueue.transmit {ι : Type} (conf : Conf) (q : NeighborQueue ι)
    (numTransmissions : ℕ) : NeighborQueue ι :=
  { q with
    collisions := conf.minBe
    transmissions := (q.transmissions + numTransmissions) % 256 }

def collision (conf : Conf) (s : State) (packetbuf : Attrs) (p n m numTransmissions : ℕ) : State :=
  let s := s.updateNeighbor n fun q ↦ q.collide conf numTransmissions
  retry conf s packetbuf .collision p n m

def noack (conf : Conf) (s : State) (packetbuf : Attrs) (p n m numTransmissions : ℕ) : State :=
  let s := s.updateNeighbor n fun q ↦ q.transmit conf numTransmissions
  retry conf s packetbuf .noack p n m

def txOk (conf : Conf) (s : State) (p n m numTransmissions : ℕ) : State :=
  let s := s.updateNeighbor n fun q ↦ q.transmit conf numTransmissions
  txDone conf s .ok p n m

/-- `packet_sent`: the packet is found by its sequence number. -/
def packetSent (conf : Conf) (s : State) (packetbuf : Attrs) (n : ℕ) (status : MacStatus)
    (numTransmissions : ℕ) : State :=
  let s := s.access n
  match (s.neighbor n).packetQueue.find? fun p ↦
      (s.queuebufs.toPacketbuf (s.packet p).buf).macSeqno = packetbuf.macSeqno with
  | none => s
  | some p =>
    match (s.packet p).ptr with
    | none => s
    | some m =>
      match status with
      | .ok => txOk conf s p n m numTransmissions
      | .noack => noack conf s packetbuf p n m numTransmissions
      | .collision => collision conf s packetbuf p n m numTransmissions
      | .deferred => s
      | _ => txDone conf s status p n m

/-- The answers of the framer and the radio during one attempt: the header that was created, whether
a packet is being received or waits to be read before sending, what `transmit` returns, what is
seen when the time for an acknowledgement is over, and what is read then. -/
structure Radio where
  header : Option (List ℕ)
  receivingPacket : Bool
  pendingPacket : Bool
  transmit : RadioTx
  receivingAfter : Bool
  pendingAfter : Bool
  channelClear : Bool
  pendingThen : Bool
  read : List ℕ
  deriving DecidableEq

def csmaAckLen : ℕ := 3

/-- What `send_one_packet` makes of a frame that the radio has sent. -/
def ackStatus (r : Radio) (isBroadcast : Bool) (dsn : ℕ) : MacStatus :=
  if isBroadcast then .ok
  else if r.receivingAfter || r.pendingAfter || !r.channelClear then
    if r.pendingThen then
      -- anything but the acknowledgement of this frame counts as a collision
      if r.read.length = csmaAckLen ∧ r.read.getD 2 0 = dsn then .ok else .collision
    else .noack
  else .noack

/-- The status of an attempt, and what `transmit` returned when it was called. -/
def sendStatus (packetbuf : Attrs) (r : Radio) : MacStatus × Option RadioTx :=
  match r.header with
  | none => (.errFatal, none)
  | some header =>
    let dsn := header.getD 2 0
    let isBroadcast : Bool := packetbuf.receiver = linkaddrNull
    if r.receivingPacket || (!isBroadcast && r.pendingPacket) then (.collision, none)
    else
      match r.transmit with
      | .ok => (ackStatus r isBroadcast dsn, some .ok)
      | .collision => (.collision, some .collision)
      | transmit => (.err, some transmit)

/-- `send_one_packet`; `call` is the call that submitted the packet. -/
def sendOnePacket (conf : Conf) (s : State) (packetbuf : Attrs) (call n : ℕ) (r : Radio) : State :=
  let (status, transmit) := sendStatus packetbuf r
  let airing := transmit.map fun t ↦ (⟨call, t, status⟩ : Airing)
  let s := { s with aired := s.aired ++ airing.toList }
  packetSent conf s packetbuf n status 1

/-- The call that submitted a queued packet. -/
def State.metadataOf (s : State) (p : ℕ) : QbufMetadata :=
  s.metadataMemb.mem ((s.packet p).ptr.getD 0)

def transmitFromQueue (conf : Conf) (s : State) (n : ℕ) (r : Radio) : State :=
  let s := s.access n
  match (s.neighbor n).packetQueue.head? with
  | none => s
  | some p =>
    let packetbuf := s.queuebufs.toPacketbuf (s.packet p).buf
    sendOnePacket conf s packetbuf (s.metadataOf p).sent n r

/-- A new neighbour without packets joins the list. -/
def addNeighbor (conf : Conf) (s : State) (addr : Linkaddr) (n : ℕ) : State :=
  let s := s.updateNeighbor n fun q ↦
    { q with addr := addr, transmissions := 0, collisions := conf.minBe, packetQueue := [] }
  let s := s.accessAll s.neighborList
  { s with neighborList := listAdd s.neighborList n }

/-- The neighbour of a new packet: the one with the address, or a new one. -/
def findOrAddNeighbor (conf : Conf) (s : State) (addr : Linkaddr) : State × Option ℕ :=
  match neighborQueueFromAddr s addr with
  | (s, some n) => (s, some n)
  | (s, none) =>
    match s.neighborMemb.alloc with
    | none => (s, none)
    | some (n, neighborMemb) =>
      (addNeighbor conf { s with neighborMemb := neighborMemb } addr n, some n)

/-- `max_transmissions` of a packet's metadata, one byte wide. -/
def Attrs.maxTransmissions (conf : Conf) (packetbuf : Attrs) : ℕ :=
  let maxTransmissions := packetbuf.maxMacTransmissions % 256
  if maxTransmissions = 0 then conf.maxFrameRetries + 1 else maxTransmissions

/-- The three allocations for a new packet; a failure frees what was allocated before it. The packet
and the metadata block come with the state when all succeed. -/
def allocPacket (conf : Conf) (s : State) (packetbuf : Attrs) (call : ℕ) : State × Option ℕ :=
  match s.packetMemb.alloc with
  | none => (s, none)
  | some (q, packetMemb) =>
    match s.metadataMemb.alloc with
    | none =>
      ({ s with packetMemb := (packetMemb.store q { packetMemb.mem q with ptr := none }).free q },
        none)
    | some (m, metadataMemb) =>
      let packetMemb := packetMemb.store q { packetMemb.mem q with ptr := some m }
      match s.queuebufs.newFromPacketbuf packetbuf with
      | none =>
        ({ s with metadataMemb := metadataMemb.free m, packetMemb := packetMemb.free q }, none)
      | some (buf, queuebufs) =>
        ({ s with
          packetMemb := packetMemb.store q { packetMemb.mem q with buf := buf }
          metadataMemb := metadataMemb.store m ⟨call, packetbuf.maxTransmissions conf⟩
          queuebufs := queuebufs }, some q)

/-- The new packet joins the queue; the first of a queue is scheduled. -/
def addPacket (conf : Conf) (s : State) (packetbuf : Attrs) (call n q : ℕ) : State :=
  let s := s.updateNeighbor n fun nq ↦ { nq with packetQueue := listAdd nq.packetQueue q }
  let new : Accepted := ⟨call, packetbuf.receiver, packetbuf.maxTransmissions conf⟩
  let s := { s with accepted := s.accepted ++ [new] }
  let s := s.access n
  if (s.neighbor n).packetQueue.head? = some q then scheduleTransmission s n else s

/-- The packet is added to the queue of its neighbour, or its callback is called at once. -/
def queuePacket (conf : Conf) (s : State) (packetbuf : Attrs) (call n : ℕ) : State :=
  let s := s.access n
  if (s.neighbor n).packetQueue.length < conf.maxPacketPerNeighbor then
    match allocPacket conf s packetbuf call with
    | (s, some q) => addPacket conf s packetbuf call n q
    | (s, none) =>
      let s := s.access n
      let s := if (s.neighbor n).packetQueue.length = 0 then removeNeighbor s n else s
      s.callSent call .err 1
  else
    s.callSent call .err 1

def csmaOutputPacket (conf : Conf) (s : State) (receiver : Linkaddr) (maxMacTransmissions : ℕ) :
    State :=
  let call := s.calls
  let seqno := if s.seqno = 0 then 1 else s.seqno
  let packetbuf : Attrs := ⟨receiver, seqno, maxMacTransmissions⟩
  let s := { s with calls := call + 1, seqno := (seqno + 1) % 256 }
  match findOrAddNeighbor conf s receiver with
  | (s, none) => s.callSent call .err 1
  | (s, some n) => queuePacket conf s packetbuf call n

/-- What can happen next: a packet is output, a callback returns, a transmit timer expires, another
module takes or frees a queue buffer. -/
inductive Event
  | output (receiver : Linkaddr) (maxMacTransmissions : ℕ)
  | callbackReturns
  | expire (n : ℕ) (radio : Radio)
  | borrow (packetbuf : Attrs)
  | giveBack (buf : ℕ)
  deriving DecidableEq

def next (conf : Conf) (s : State) : Event → Option State
  | .output receiver maxMacTransmissions =>
    some (csmaOutputPacket conf s receiver maxMacTransmissions)
  | .callbackReturns =>
    match s.active with
    | [] => none
    | _ :: rest => some { s with active := rest }
  | .expire n radio =>
    -- the timer process runs no other timer before the callback has returned
    if s.active = [] ∧ (s.neighbor n).transmitTimer then
      let s := s.updateNeighbor n fun q ↦ { q with transmitTimer := false }
      some (transmitFromQueue conf s n radio)
    else none
  | .borrow packetbuf =>
    (s.queuebufs.newFromPacketbuf packetbuf).map fun (buf, queuebufs) ↦
      { s with queuebufs := queuebufs, foreign := buf :: s.foreign }
  | .giveBack buf =>
    if buf ∈ s.foreign then
      some { s with queuebufs := s.queuebufs.free buf, foreign := s.foreign.erase buf }
    else none

end ContikiMaster.Csma
