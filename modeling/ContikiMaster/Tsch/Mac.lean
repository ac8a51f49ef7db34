import ContikiMaster.Tsch.SlotOperation
import ContikiMaster.Lib.Run

/-!
# Runs of the TSCH layer

The calls the upper layers, the TSCH processes and the slot interrupt make, as
the labels of a transition system that starts with initialized queues and an
empty schedule. A composite of the source (association, leaving the network)
is a sequence of these calls.
-/

namespace ContikiMaster.Tsch

open Sys Lib Option

/-- The sizes the build fixes, and the width of `int` on its target. -/
structure MacConfig where
  maxLinks : ℕ
  maxSlotframes : ℕ
  maxNeighborQueues : ℕ
  queuebufNum : ℕ
  queueNumPerNeighbor : ℕ
  dequeuedArraySize : ℕ
  isCoordinator : Bool
  intWidth : IntWidth

/-- The static variables before `tsch_init`. -/
def Mac.zero (config : MacConfig) : Mac where
  tschLocked := false
  tschInSlotOperation := false
  tschIsCoordinator := config.isCoordinator
  tschIsAssociated := false
  tschCurrentAsn := ⟨0, 0⟩
  tschJoinPriority := 0xff
  tschPacketSeqno := 0
  linkMemb := Memb.init config.maxLinks TschLink.zero
  slotframeMemb := Memb.init config.maxSlotframes TschSlotframe.zero
  slotframeList := []
  currentLinkHandle := 0
  currentLink := none
  backupLink := none
  neighborMemb := Memb.init config.maxNeighborQueues TschNeighbor.zero
  neighborList := []
  nBroadcast := none
  nEb := none
  numEbPackets := 0
  packetMemb := Memb.init config.queuebufNum TschPacket.zero
  queueNumPerNeighbor := config.queueNumPerNeighbor
  dequeued := []
  dequeuedArraySize := config.dequeuedArraySize
  intWidth := config.intWidth

/-- `tsch_queue_init` and `tsch_schedule_init`, as `tsch_init` calls them. -/
def tschInit (config : MacConfig) : Except Fault Mac := do
  let s ← tschQueueInit (Mac.zero config)
  let (_, s) ← tschScheduleInit s
  return s

/-- What the framer makes of a packet buffer: the frame and its header length. -/
structure Framed where
  frame : List ℕ
  hdrLen : ℕ

/-- The sequence number after `send_packet` took one; zero is skipped. -/
def nextSeqno (seqno : ℕ) : ℕ := if (seqno + 1) % 256 = 0 then 1 else seqno + 1

/-- `send_packet`, with the result of the framer (`none` on a framing error); the pointer of the
queued packet is returned. -/
def sendPacket (s : Mac) (packetbuf : Packetbuf) (framed : Option Framed)
    (queuebufAvailable : Bool) : Except Fault (Option ℕ × Mac) :=
  if !s.tschIsAssociated then .ok (none, s)
  else
    let s := if packetbuf.receiver = linkaddrNull then s
      else { s with tschPacketSeqno := nextSeqno s.tschPacketSeqno }
    let maxTransmissions := packetbuf.maxMacTransmissions % 256
    if maxTransmissions = 0 then .ok (none, s)
    else match framed with
      | none => .ok (none, s)
      | some framed => do
        let (p, s) ← tschQueueAddPacket s (flowAddr packetbuf.flowNumber) maxTransmissions
          { packetbuf with data := framed.frame } queuebufAvailable
        match p with
        | none => return (none, s)
        | some p =>
          return (some p, s.setPacket p { s.packet p with headerLen := framed.hdrLen % 256 })

/-- An enhanced beacon built by `tsch_packet_create_eb`. -/
structure EbFrame where
  packetbuf : Packetbuf
  hdrLen : ℕ
  tschSyncIeOffset : ℕ

/-- The body of `tsch_send_eb_process`: queue an EB unless one is waiting. The pointer of the
queued packet is returned. -/
def tschSendEb (s : Mac) (eb : Option EbFrame) (queuebufAvailable : Bool) :
    Except Fault (Option ℕ × Mac) := do
  let (count, s) ← tschQueuePacketCount s tschEbAddress
  if count = some 0 then
    match eb with
    | none => return (none, s)
    | some eb =>
      let (p, s) ← tschQueueAddPacket s tschEbAddress 1 eb.packetbuf queuebufAvailable
      match p with
      | none => return (none, s)
      | some p => return (some p, s.setPacket p { s.packet p with
          tschSyncIeOffset := eb.tschSyncIeOffset, headerLen := eb.hdrLen })
  else return (none, s)

/-- One iteration of `tsch_tx_process_pending`: free the oldest dequeued packet. -/
def tschTxProcessOne (s : Mac) : Except Fault Mac :=
  match s.dequeued with
  | [] => .ok s
  | p :: _ => do
    let s ← tschQueueFreeUnusedNeighbors (tschQueueFreePacket s p)
    return { s with dequeued := s.dequeued.tail }

inductive MacOp
  | addSlotframe (handle size : ℕ)
  | removeSlotframe (slotframe : Option ℕ)
  | removeAllSlotframes
  | addLink (slotframe : Option ℕ) (request : LinkRequest)
  | removeLink (slotframe link : Option ℕ)
  | addNbr (addr : Linkaddr)
  | updateTimeSource (newAddr : Option Linkaddr)
  | sendPacket (packetbuf : Packetbuf) (framed : Option Framed) (queuebufAvailable : Bool)
  | sendEb (eb : Option EbFrame) (queuebufAvailable : Bool)
  | txProcessOne
  | queueReset
  | freeUnusedNeighbors
  | synchronize (asn : TschAsn) (joinPriority : ℕ) (associated : Bool)
  | startSlots
  | slot (env : SlotEnv)

/-- One call: the frame handed to the radio, if any, and the next state. -/
def Mac.call (s : Mac) : MacOp → Except Fault (Option Transmission × Mac)
  | .addSlotframe handle size => do
    let (_, s) ← tschScheduleAddSlotframe s handle size
    return (none, s)
  | .removeSlotframe slotframe => do
    let (_, s) ← tschScheduleRemoveSlotframe s slotframe
    return (none, s)
  | .removeAllSlotframes => do
    let (_, s) ← tschScheduleRemoveAllSlotframes s
    return (none, s)
  | .addLink slotframe request => do
    let (_, s) ← tschScheduleAddLink s slotframe request
    return (none, s)
  | .removeLink slotframe link => do
    let (_, s) ← tschScheduleRemoveLink s slotframe link
    return (none, s)
  | .addNbr addr => do
    let (_, s) ← tschQueueAddNbr s addr
    return (none, s)
  | .updateTimeSource newAddr => do
    let (_, s) ← tschQueueUpdateTimeSource s newAddr
    return (none, s)
  | .sendPacket packetbuf framed queuebufAvailable => do
    let (_, s) ← Tsch.sendPacket s packetbuf framed queuebufAvailable
    return (none, s)
  | .sendEb eb queuebufAvailable => do
    let (_, s) ← tschSendEb s eb queuebufAvailable
    return (none, s)
  | .txProcessOne => do
    let s ← tschTxProcessOne s
    return (none, s)
  | .queueReset => do
    let s ← tschQueueReset s
    return (none, s)
  | .freeUnusedNeighbors => do
    let s ← tschQueueFreeUnusedNeighbors s
    return (none, s)
  | .synchronize asn joinPriority associated =>
    .ok (none, { s with
      tschCurrentAsn := asn, tschJoinPriority := joinPriority
      tschIsAssociated := associated, currentLink := none })
  | .startSlots => .ok (none, nextSlot s)
  | .slot env => tschSlotOperation s env

def Mac.next (s : Mac) (op : MacOp) : Option Mac := (s.call op).toOption.map Prod.snd

/-- Runs from the initialized TSCH layer, for some choice of the calls that count as steps. -/
def InitRun (next : Mac → MacOp → Option Mac) (config : MacConfig) (ops : List MacOp) (s : Mac) :
    Prop :=
  ∃ s₀, tschInit config = .ok s₀ ∧ Run (StepOf next) s₀ ops s

abbrev MacRun := InitRun Mac.next

/-- Initialize TSCH and make the calls of a list. -/
def runOps (next : Mac → MacOp → Option Mac) (config : MacConfig) (ops : List MacOp) :
    Option Mac :=
  (tschInit config).toOption.bind fun s₀ ↦ execute next s₀ ops

variable {config : MacConfig} {ops : List MacOp}

theorem initRun_of_runOps {next : Mac → MacOp → Option Mac} {s : Mac}
    (hruns : runOps next config ops = some s) : InitRun next config ops s := by
  obtain ⟨s₀, hinit, hexecute⟩ := bind_eq_some_iff.mp hruns
  exact ⟨s₀, toOption_eq_some hinit, run_of_execute hexecute⟩

theorem exists_initRun {next : Mac → MacOp → Option Mac} {P : Mac → Prop} [DecidablePred P]
    (hany : (runOps next config ops).any (fun s ↦ decide (P s)) = true) :
    ∃ s, InitRun next config ops s ∧ P s := by
  obtain ⟨s, hruns, hs⟩ := (any_eq_true _ _).mp hany
  exact ⟨s, initRun_of_runOps hruns, of_decide_eq_true hs⟩

theorem call_of_next {s t : Mac} {op : MacOp} (hnext : s.next op = some t) :
    ∃ frame, s.call op = .ok (frame, t) := by
  unfold Mac.next at hnext
  cases hcall : s.call op with
  | error fault =>
    rw [hcall] at hnext
    cases hnext
  | ok result =>
    rw [hcall] at hnext
    obtain ⟨frame, u⟩ := result
    obtain rfl : u = t := some.inj hnext
    exact ⟨frame, rfl⟩

/-- A small build: four links, two slotframes, five neighbor queues, four packets. -/
def smallConfig : MacConfig := ⟨4, 2, 5, 4, 4, 4, false, .bits32⟩

def nodeAddr (id : ℕ) : Linkaddr := fun i ↦ if i = 0 then id % 256 else 0

end ContikiMaster.Tsch
