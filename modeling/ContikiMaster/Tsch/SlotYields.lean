import ContikiMaster.Tsch.FlowQueues

/-!
# The slot and its yields

A transmit slot yields before the frame is sent and again before the acknowledgement; here the two
are one, since in between the slot only hands the frame to the radio. The process context is taken
apart where it waits for the lock: `tsch_get_lock` does not return while a slot is in progress.
How often a block was given out and freed is kept beside the state.
-/

namespace ContikiMaster.Tsch

open Sys Lib

/-- `current_neighbor` and `current_packet` of a transmit slot that has yielded. -/
structure TxSlot where
  neighbor : ℕ
  packet : ℕ

/-- `tsch_slot_operation` up to the yields of `tsch_tx_slot`, or to the next slot where it does not
come to them. -/
def slotBegin (s : Mac) (env : SlotEnv) : Except Fault (Option TxSlot × Mac) :=
  if s.tschIsAssociated then
    match s.currentLink with
    | none => .ok (none, endSlot s env)
    | some l => do
      let (l, p, n, s) ← selectPacket { s with tschInSlotOperation := true } l
      match p, n with
      | some p, some n =>
        if s.dequeuedArraySize ≤ s.dequeued.length + 1 then return (none, endSlot s env)
        else
          let qb := { (s.packet p).qb with data := framePrepared s n p }
          return (some ⟨n, p⟩,
            { s.setPacket p { s.packet p with qb := qb } with currentLink := some l })
      | _, _ => return (none, endSlot s env)
  else .ok (none, s)

/-- `tsch_slot_operation` from the yields of `tsch_tx_slot` on, with what the radio returned. -/
def slotEnd (s : Mac) (tx : TxSlot) (env : SlotEnv) : Except Fault Mac :=
  match s.currentLink with
  | none => .error .invalidAccess
  | some l =>
    let s := s.setPacket tx.packet { s.packet tx.packet with
      transmissions := ((s.packet tx.packet).transmissions + 1) % 256, ret := env.macTxStatus }
    let (inQueue, s) := tschQueuePacketSent s tx.neighbor tx.packet (s.link l) env.macTxStatus
      env.randomRand
    .ok (endSlot (if inQueue then s else { s with dequeued := s.dequeued ++ [tx.packet] }) env)

/-- The packets that one iteration of the TTL loop passes to `tsch_queue_free_packet`, and the next
ones. -/
def ttlDroppedStep (again : Mac → List ℕ) (s : Mac) (n : Option ℕ) (link : TschLink) : List ℕ :=
  match tschQueueGetPacketForNbr s n link with
  | none => []
  | some p => if ttlExpired s p then p :: ((dropExpired s n p).toOption.elim [] again) else []

/-- The packets that the TTL loop passes to `tsch_queue_free_packet`. -/
def ttlDropped : ℕ → Mac → Option ℕ → TschLink → List ℕ
  | 0, s, n, link => ttlDroppedStep (fun _ ↦ []) s n link
  | fuel + 1, s, n, link => ttlDroppedStep (fun s ↦ ttlDropped fuel s n link) s n link

/-- The packets that `get_packet_and_neighbor_for_link` frees. -/
def droppedForLink (s : Mac) (l : ℕ) : List ℕ :=
  let link := s.link l
  let eb :=
    match link.linkType with
    | .normal => none
    | .advertising | .advertisingOnly => tschQueueGetPacketForNbr s s.nEb link
  if linkOptionTx link.linkOptions && !decide (link.linkType = .advertisingOnly) && eb.isNone then
    let n := tschQueueGetNbr s (flowAddr link.slotframeHandle)
    ttlDropped (queueLength s n) s n link
  else []

/-- The packets that the selection for the backup link frees once the current link `l` has nothing
to send. -/
def droppedForBackup (s : Mac) (l : ℕ) : Option ℕ → List ℕ
  | none => []
  | some backup =>
    if linkOptionRx (s.link l).linkOptions then []
    else droppedForLink { s with currentLink := some backup } backup

/-- The packets that the selection for the current link, or else the backup link, frees. -/
def droppedBySelection (s : Mac) (l : ℕ) : List ℕ :=
  droppedForLink s l ++
    match getPacketAndNeighborForLink s l with
    | .ok (none, _, t) => droppedForBackup t l t.backupLink
    | _ => []

/-- The packets that a slot frees before its yields. -/
def droppedInSlot (s : Mac) : List ℕ :=
  if s.tschIsAssociated then
    s.currentLink.elim [] (droppedBySelection { s with tschInSlotOperation := true })
  else []

/-- What the process context does without waiting for the lock in between; a step that has to
wait is taken once the slot in progress has ended. -/
inductive MainStep
  | addPacket (addr : Linkaddr) (maxTransmissions : ℕ) (packetbuf : Packetbuf)
    (queuebufAvailable : Bool)
  | processPending
  | freeUnusedNeighbors
  | queueReset
  | disassociate
  | resetVariables

/-- The calls of the process context; a node leaves the network by `tsch_disassociate`, and its
process then calls `tsch_reset`. -/
inductive ProcessCall
  | tschQueueAddPacket (addr : Linkaddr) (maxTransmissions : ℕ) (packetbuf : Packetbuf)
    (queuebufAvailable : Bool)
  | tschTxProcessPending
  | tschQueueFreeUnusedNeighbors
  | tschQueueReset
  | tschDisassociate
  | tschReset

def ProcessCall.steps : ProcessCall → List MainStep
  | .tschQueueAddPacket addr maxTransmissions packetbuf queuebufAvailable =>
    [.addPacket addr maxTransmissions packetbuf queuebufAvailable]
  | .tschTxProcessPending => [.processPending]
  | .tschQueueFreeUnusedNeighbors => [.freeUnusedNeighbors]
  | .tschQueueReset => [.queueReset]
  | .tschDisassociate => [.disassociate]
  | .tschReset => [.processPending, .queueReset, .freeUnusedNeighbors, .resetVariables]

/-- `tsch_reset` is called once the node is not associated. -/
def ProcessCall.enabled (s : Mac) : ProcessCall → Bool
  | .tschReset => !s.tschIsAssociated
  | _ => true

/-- The state with the two threads: the slot that has yielded, and where the process context is.
`removing` is the neighbor `tsch_queue_remove_nbr` waits to take off the list, `collecting` those
the collector has still to check, and `processing` tells that the oldest dequeued packet has been
freed and is about to be taken off the ring. -/
structure Interleaved where
  mac : Mac
  slot : Option TxSlot
  removing : Option ℕ
  collecting : List ℕ
  processing : Bool
  todo : List MainStep
  /-- How often each packet block was given to a caller of `tsch_queue_add_packet`. -/
  given : ℕ → ℕ
  /-- How often each packet block was passed to `tsch_queue_free_packet`. -/
  freed : ℕ → ℕ

def noteAll (counts : ℕ → ℕ) (packets : List ℕ) : ℕ → ℕ := fun p ↦ counts p + packets.count p

namespace Interleaved

def start (s : Mac) : Interleaved := ⟨s, none, none, [], false, [], fun _ ↦ 0, fun _ ↦ 0⟩

def isIdle (x : Interleaved) : Bool :=
  x.removing.isNone && x.collecting.isEmpty && !x.processing && x.todo.isEmpty

/-- The neighbors a collector that starts now will check. -/
def toCollect (s : Mac) : List ℕ := if s.tschLocked then [] else s.neighborList

/-- The step `step`, with the steps that are left after it. -/
def stepNext (x : Interleaved) (step : MainStep) (todo : List MainStep) : Option Interleaved :=
  match step with
  | .addPacket addr maxTransmissions packetbuf queuebufAvailable =>
    (Tsch.tschQueueAddPacket x.mac addr maxTransmissions packetbuf queuebufAvailable).toOption.map
      fun (p, s) ↦ { x with mac := s, todo := todo, given := noteAll x.given p.toList }
  | .processPending =>
    match x.mac.dequeued with
    | [] => some { x with todo := todo }
    | p :: _ =>
      let s := tschQueueFreePacket x.mac p
      some { x with
        mac := s, processing := true, collecting := toCollect s, freed := noteAll x.freed [p] }
  | .freeUnusedNeighbors => some { x with todo := todo, collecting := toCollect x.mac }
  | .queueReset =>
    (Tsch.tschQueueReset x.mac).toOption.map fun s ↦
      { x with mac := s, todo := todo, freed := noteAll x.freed x.mac.view.queued }
  | .disassociate => some { x with mac := { x.mac with tschIsAssociated := false }, todo := todo }
  | .resetVariables =>
    (tschQueueUpdateTimeSource x.mac none).toOption.map fun (_, s) ↦
      { x with
        mac := { s with tschJoinPriority := 0xff, tschCurrentAsn := ⟨0, 0⟩, currentLink := none }
        todo := todo }

/-- The next step of the process context: the removal of a neighbor before the rest of the
collection, the collection before the rest of `tsch_tx_process_pending`. -/
def mainNext (x : Interleaved) : Option Interleaved :=
  match x.removing, x.collecting, x.processing, x.todo with
  | some n, _, _, _ =>
    (tschQueueRemoveNbr x.mac n).toOption.map fun s ↦
      { x with mac := s, removing := none, freed := noteAll x.freed (x.mac.neighbor n).txArray }
  | none, n :: rest, _, _ =>
    some { x with
      removing := if neighborUnused x.mac n then some n else none, collecting := rest }
  | none, [], true, _ =>
    some { x with mac := { x.mac with dequeued := x.mac.dequeued.tail }, processing := false }
  | none, [], false, step :: todo => x.stepNext step todo
  | none, [], false, [] => none

end Interleaved

inductive YieldOp
  | call (c : ProcessCall)
  | main
  | slotBegin (env : SlotEnv)
  | slotEnd (env : SlotEnv)

def Interleaved.next (x : Interleaved) : YieldOp → Option Interleaved
  | .call c => if x.isIdle && c.enabled x.mac then some { x with todo := c.steps } else none
  | .main => x.mainNext
  | .slotBegin env =>
    if x.slot.isSome then none
    else (Tsch.slotBegin x.mac env).toOption.map fun (tx, s) ↦
      { x with mac := s, slot := tx, freed := noteAll x.freed (droppedInSlot x.mac) }
  | .slotEnd env =>
    x.slot.bind fun tx ↦ (Tsch.slotEnd x.mac tx env).toOption.map fun s ↦
      { x with mac := s, slot := none }

end ContikiMaster.Tsch
