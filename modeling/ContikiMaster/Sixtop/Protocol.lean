import ContikiMaster.Sixtop.Transaction

/-!
# The 6P protocol on one node

`sixp.c`: sending a packet within a transaction, receiving one, and the calls and timers in
any order. Timers and received packets are handled when no function waits for a callback;
the MAC reports frames, and other code sends packets, at any time.
-/

namespace ContikiMaster.Sixtop

open Lib Sys Net Framer Tsch

namespace Sixp

variable (s : Sixp)

/-- The check of the transaction with the peer in `sixp_output`; `none` when it fails. -/
def outputTrans (type : SixpPktType) (destAddr : Addr8) : Option (Option ℕ) :=
  let trans := s.sixpTransFind destAddr
  match type with
  | .request => if trans.isSome then none else some none
  | .response => (trans.filter fun p ↦ (s.trans p).state == .requestReceived).map some
  | .confirmation => (trans.filter fun p ↦ (s.trans p).state == .responseReceived).map some
  | .reserved => none

/-- The choice of the neighbour and the sequence number in `sixp_output`; `none` when there is no
memory for the neighbour. -/
def outputNbr (type : SixpPktType) (code : UInt8) (trans : Option ℕ) (destAddr : Addr8)
    (removable : Option (Option Linkaddr)) (react : Reaction) :
    Option (Option ℕ × UInt8) × Sixp :=
  let cmd := (trans.map fun p ↦ (s.trans p).cmd).getD 0
  let allocates : Bool := type = .request ∨
    (type = .response ∧ code = rcSuccess ∧ (cmd = cmdAdd ∨ cmd = cmdDelete))
  match s.sixpNbrFind destAddr with
  | some item =>
    if type = .request then (some (some item, (s.nbr item).nextSeqno),
      s.sixpNbrIncrementNextSeqno item)
    else (some (some item, (trans.map fun p ↦ (s.trans p).seqno).getD 0), s)
  | none =>
    if allocates then
      match s.sixpNbrAlloc destAddr removable react with
      | (none, s) => (none, s)
      | (some item, s) =>
        if type = .request then (some (some item, (s.nbr item).nextSeqno),
          s.sixpNbrIncrementNextSeqno item)
        else (some (some item, (trans.map fun p ↦ (s.trans p).seqno).getD 0), s)
    else (some (none, (trans.map fun p ↦ (s.trans p).seqno).getD 0), s)

/-- The end of `sixp_output`: set the callback, and give the packet to the 6top sub-layer with
`mac_callback`. -/
def outputPacket (p : ℕ) (callback : Option ℕ) (destAddr : Addr8) (pkt : SixpPkt) :
    Except Fault Sixp := do
  let s := s.sixpTransSetCallback p callback
  match ← sixtopOutput s.withTermination s.nodeAddr destAddr s.packetbuf with
  | .dropped => return s
  | .failed => return s.macCallback p false
  | .sent packetbuf =>
    return { s with
      packetbuf
      frames := s.frames ++ [⟨p, (s.trans p).ident, destAddr, sixpHeader pkt ++ pkt.body⟩] }

/-- The arguments of `sixp_output`; the callback stands for its function and arguments. -/
structure OutputArgs where
  type : SixpPktType
  code : UInt8
  sfid : UInt8
  body : List UInt8
  destAddr : Addr8
  callback : Option ℕ

/-- The packet that `sixp_output` creates. -/
def outputPkt (args : OutputArgs) (nbr : Option ℕ) (seqno : UInt8) : SixpPkt :=
  ⟨args.type, args.code, args.sfid, seqno, (nbr.map fun item ↦ (s.nbr item).gen).getD 0, args.body⟩

/-- `sixp_output` with its result: true for 0, false for -1. -/
def sixpOutputResult (args : OutputArgs) (removable : Option (Option Linkaddr)) (react : Reaction) :
    Except Fault (Bool × Sixp) :=
  match s.outputTrans args.type args.destAddr with
  | none => return (false, s)
  | some trans =>
    match s.outputNbr args.type args.code trans args.destAddr removable react with
    | (none, s) => return (false, s)
    | (some (nbr, seqno), s) => do
      let pkt := s.outputPkt args nbr seqno
      match ← sixpPktCreate pkt s.packetbuf with
      | none => return (false, s)
      | some packetbuf =>
        let s := { s with packetbuf }
        match trans with
        | some p => return (true, ← s.outputPacket p args.callback args.destAddr pkt)
        | none =>
          match s.sixpTransAlloc pkt args.destAddr with
          | none => return (false, s)
          | some (p, s) => return (true, ← s.outputPacket p args.callback args.destAddr pkt)

/-- `sixp_output` where its result is ignored. -/
def sixpOutput (args : OutputArgs) (removable : Option (Option Linkaddr)) (react : Reaction) :
    Except Fault Sixp :=
  (s.sixpOutputResult args removable react).map Prod.snd

/-- `send_back_error`; nobody is called back about the frame. -/
def sendBackError (code sfid seqno : UInt8) (destAddr : Addr8) : Except Fault Sixp := do
  match ← sixpPktCreate ⟨.response, code, sfid, seqno, 0, []⟩ s.packetbuf with
  | none => return s
  | some packetbuf =>
    match ← sixtopOutput s.withTermination s.nodeAddr destAddr packetbuf with
    | .sent packetbuf => return { s with packetbuf }
    | _ => return s

/-- The check of the schedule generation in `sixp_input`. -/
def validGeneration (pkt : SixpPkt) (srcAddr : Addr8) : Bool :=
  pkt.code == cmdClear ||
    match s.sixpNbrFind srcAddr with
    | none => pkt.gen == 0
    | some item => pkt.gen == (s.nbr item).gen

def receivedState : SixpPktType → TransState
  | .request => .requestReceived
  | .response => .responseReceived
  | .confirmation => .confirmationReceived
  | .reserved => .unavailable

/-- The state transition at the end of `sixp_input`, and the packet handed to the scheduling
function. -/
def inputTransit (sf : SchedulingFunction) (p : ℕ) (pkt : SixpPkt) (srcAddr : Addr8) : Sixp :=
  let (allowed, s) := s.sixpTransTransitState p (receivedState pkt.type)
  if allowed then
    { s with log := if sf.input then s.log ++ [Event.input srcAddr pkt] else s.log }
  else (s.sixpTransTransitState p .terminating).2

/-- `sixp_input` of a packet that was parsed. -/
def inputPacket (pkt : SixpPkt) (srcAddr : Addr8) : Except Fault Sixp :=
  if pkt.type = .reserved then return s
  else
    match s.sixtopFindSf pkt.sfid with
    | none => s.sendBackError rcSfid pkt.sfid pkt.seqno srcAddr
    | some sf =>
      if s.validGeneration pkt srcAddr then
        if pkt.type = .request then
          if (s.sixpTransFind srcAddr).isSome then
            s.sendBackError rcBusy pkt.sfid pkt.seqno srcAddr
          else
            match s.sixpTransAlloc pkt srcAddr with
            | none => s.sendBackError rcNores pkt.sfid pkt.seqno srcAddr
            | some (p, s) => return s.inputTransit sf p pkt srcAddr
        else
          match s.sixpTransFind srcAddr with
          | none => return s
          | some p =>
            if (s.trans p).seqno ≠ pkt.seqno then return s
            else return s.inputTransit sf p pkt srcAddr
      else return s

def sixpInput (buf : List UInt8) (srcAddr : Addr8) : Except Fault Sixp :=
  match sixpPktParse buf with
  | none => return s
  | some pkt => s.inputPacket pkt srcAddr

/-- What can happen on a node. -/
inductive Label
  | output (args : OutputArgs) (removable : Option (Option Linkaddr)) (react : Reaction)
  | input (buf : List UInt8) (srcAddr : Addr8)
  | macCallback (frame : ℕ) (ok : Bool)
  | timer (trans : ℕ)
  | resume
  | nbrTables (policy : Bool) (op : NbrTables.Op)

def fire (p : ℕ) : Option Sixp :=
  match s.timer p with
  | none => none
  | some .timeout =>
    some ({ s with timer := Function.update s.timer p none }.handleTransTimeout p)
  | some .process => some (s.processTrans p)

/-- One step: a call of `sixp_output`, a received packet, a report of the MAC, a timer, the
return of a callback, or a use of the neighbour tables by another module. A packet whose bytes leave
the packet buffer, with a body of 125 to 128 bytes, is no step. -/
def next (s : Sixp) : Label → Option Sixp
  | .output args removable react => (s.sixpOutput args removable react).toOption
  | .input buf srcAddr => if s.pending = [] then (s.sixpInput buf srcAddr).toOption else none
  | .macCallback i ok =>
    (s.frames[i]?).map fun frame ↦
      { s with frames := s.frames.eraseIdx i }.macCallback frame.trans ok
  | .timer p => if s.pending = [] then s.fire p else none
  | .resume =>
    match s.pending with
    | [] => none
    | call :: pending => some ({ s with pending }.resume call)
  | .nbrTables policy op => (s.nbrs.next policy op).map fun nbrs ↦ { s with nbrs }

end Sixp

end ContikiMaster.Sixtop
