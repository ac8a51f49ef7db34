import ContikiMaster.Net.NbrTable
import ContikiMaster.Sixtop.Packet

/-!
# 6P transactions

`sixp-trans.c`: a pool of transactions, a list of those going on, and one callback timer
each, which runs the next processing step or the timeout. Two functions hand control to
other code before they are done, the timeout handler and the transmission callback; what is
left of them waits on a stack.
-/

namespace ContikiMaster.Sixtop

open Lib Sys Net Framer Function

inductive TransState
  | unavailable
  | init
  | requestSent
  | requestReceived
  | responseSent
  | responseReceived
  | confirmationSent
  | confirmationReceived
  | terminating
  deriving DecidableEq, Repr

inductive TransMode
  | unavailable
  | twoStep
  | threeStep
  deriving DecidableEq, Repr

/-- `sixtop_sf_t`: its identifier and which handlers it has. -/
structure SchedulingFunction where
  sfid : UInt8
  input : Bool
  timeout : Bool
  deriving DecidableEq

/-- `sixp_trans_t` without its timer. The callback stands for its function and arguments; `ident`
counts the transactions and is never read. -/
structure Trans where
  sf : SchedulingFunction
  peerAddr : Addr8
  seqno : UInt8
  cmd : UInt8
  state : TransState
  mode : TransMode
  callback : Option ℕ
  ident : ℕ
  deriving DecidableEq

def Trans.zero : Trans where
  sf := ⟨0, false, false⟩
  peerAddr := Framer.linkaddrNull
  seqno := 0
  cmd := 0
  state := .unavailable
  mode := .unavailable
  callback := none
  ident := 0

inductive TransTimer
  | timeout
  | process
  deriving DecidableEq

/-- `sixp_nbr_t`. -/
structure Nbr where
  nextSeqno : UInt8
  gen : UInt8
  deriving DecidableEq

instance : Zero Nbr := ⟨⟨0, 0⟩⟩

/-- A frame that the MAC has not reported yet, with the argument of its callback. -/
structure SentFrame where
  trans : ℕ
  ident : ℕ
  dest : Addr8
  packet : List UInt8
  deriving DecidableEq

/-- The rest of a function that waits for a callback to return. -/
inductive Pending
  | terminate (trans : ℕ)
  | clearCallback (trans ident : ℕ)
  deriving DecidableEq

/-- What other code sees of the module. -/
inductive Event
  | transit (ident : ℕ) (state : TransState)
  | input (src : Addr8) (pkt : SixpPkt)
  | timeout (cmd : UInt8) (peer : Addr8)
  | callback (ident callback : ℕ) (success : Bool)
  deriving DecidableEq

/-- The static variables of the sub-layer on one node, the frames that the MAC holds, the calls
that are not done and what has been seen so far. -/
structure Sixp where
  nodeAddr : Addr8
  withTermination : Bool
  schedulingFunctions : List SchedulingFunction
  transMemb : Memb Trans
  transList : List ℕ
  timer : ℕ → Option TransTimer
  nbrs : NbrTables Nbr
  packetbuf : Packetbuf
  frames : List SentFrame
  pending : List Pending
  nextIdent : ℕ
  log : List Event

namespace Sixp

/-- The static initial values on a node with room for `num` transactions. -/
def init (nodeAddr : Addr8) (withTermination : Bool)
    (schedulingFunctions : List SchedulingFunction) (num numNbrs : ℕ) : Sixp where
  nodeAddr := nodeAddr
  withTermination := withTermination
  schedulingFunctions := schedulingFunctions
  transMemb := Memb.init num Trans.zero
  transList := []
  timer := fun _ ↦ none
  nbrs := (NbrTables.init numNbrs).nbrTableRegister 0 false |>.2
  packetbuf := ⟨fun _ ↦ 0, 0, 0, 0, PacketbufAttr.clear, linkaddrNull, linkaddrNull⟩
  frames := []
  pending := []
  nextIdent := 0
  log := []

variable (s : Sixp)

def trans (p : ℕ) : Trans := s.transMemb.mem p

def sixtopFindSf (sfid : UInt8) : Option SchedulingFunction :=
  s.schedulingFunctions.find? fun sf ↦ sf.sfid == sfid

def sixpTransFind (peerAddr : Addr8) : Option ℕ :=
  s.transList.find? fun p ↦ decide ((s.trans p).peerAddr = peerAddr)

/-- `sixp_pkt_get_cell_list`: the length of the list of cells. -/
def sixpPktGetCellList (pkt : SixpPkt) : Option ℕ :=
  let offset : Option ℕ :=
    if pkt.type = .request ∧ (pkt.code = cmdAdd ∨ pkt.code = cmdDelete) then some 4
    else if (pkt.type = .response ∨ pkt.type = .confirmation) ∧
      (pkt.code = rcSuccess ∨ pkt.code = rcEol) then some 0
    else none
  match offset with
  | none => none
  | some offset =>
    if pkt.body.length < offset ∨ (pkt.body.length - offset) % 4 ≠ 0 then none
    else some (pkt.body.length - offset)

def determineTransMode (req : SixpPkt) : TransMode :=
  if req.type = .request ∧ (req.code = cmdAdd ∨ req.code = cmdDelete) ∧
    sixpPktGetCellList req = some 0 then .threeStep
  else .twoStep

def startTransTimer (p : ℕ) : Sixp :=
  { s with timer := update s.timer p (some .timeout) }

def scheduleTransProcess (p : ℕ) : Sixp :=
  { s with timer := update s.timer p (some .process) }

/-- The transition rules of `sixp_trans_transit_state`. -/
def mayTransit (t : Trans) (newState : TransState) : Bool :=
  newState == .terminating ||
    (newState == .requestSent && t.state == .init) ||
    (newState == .requestReceived && t.state == .init) ||
    (newState == .responseSent && t.state == .requestReceived) ||
    (newState == .responseReceived && t.state == .requestSent) ||
    (newState == .confirmationReceived && t.state == .responseSent && t.mode == .threeStep) ||
    (newState == .confirmationSent && t.state == .responseReceived && t.mode == .threeStep)

/-- A transaction enters a state and is to be processed. -/
def enter (p : ℕ) (newState : TransState) : Sixp :=
  let s' := { s with
    transMemb := s.transMemb.store p { s.trans p with state := newState }
    log := s.log ++ [Event.transit (s.trans p).ident newState] }
  s'.scheduleTransProcess p

/-- `sixp_trans_transit_state`: whether the transition is allowed. -/
def sixpTransTransitState (p : ℕ) (newState : TransState) : Bool × Sixp :=
  if mayTransit (s.trans p) newState then (true, s.enter p newState) else (false, s)

def freeTrans (p : ℕ) : Sixp :=
  { s with transList := listRemove s.transList p, transMemb := s.transMemb.free p }

/-- `handle_trans_timeout`, up to the return of the scheduling function's handler. -/
def handleTransTimeout (p : ℕ) : Sixp :=
  let t := s.trans p
  { s with
    log := if t.sf.timeout then s.log ++ [Event.timeout t.cmd t.peerAddr] else s.log
    pending := .terminate p :: s.pending }

def processTrans (p : ℕ) : Sixp :=
  let s := { s with timer := update s.timer p none }
  let t := s.trans p
  if t.state = .terminating then s.freeTrans p
  else
    let s :=
      if (t.state = .responseSent ∨ t.state = .responseReceived) ∧ t.mode = .twoStep ∨
          t.state = .confirmationSent ∨ t.state = .confirmationReceived then
        (s.sixpTransTransitState p .terminating).2
      else s
    if (s.trans p).state ≠ .terminating then s.startTransTimer p else s

def sixpTransSetCallback (p : ℕ) (callback : Option ℕ) : Sixp :=
  { s with transMemb := s.transMemb.store p { s.trans p with callback } }

def sixpTransAlloc (pkt : SixpPkt) (peerAddr : Addr8) : Option (ℕ × Sixp) :=
  match s.sixtopFindSf pkt.sfid with
  | none => none
  | some sf =>
    if (s.sixpTransFind peerAddr).isSome then none
    else
      match s.transMemb.alloc with
      | none => none
      | some (p, memb) =>
        let trans : Trans :=
          { sf, peerAddr, seqno := pkt.seqno, cmd := pkt.code, state := .init
            mode := determineTransMode pkt, callback := none, ident := s.nextIdent }
        let s := { s with
          transMemb := memb.store p trans
          transList := listAdd s.transList p
          nextIdent := s.nextIdent + 1 }
        some (p, s.startTransTimer p)

/-- `mac_callback`, up to the return of the user callback. -/
def macCallback (p : ℕ) (ok : Bool) : Sixp :=
  let current := (s.trans p).state
  let newState : Option TransState :=
    if ok then
      match current with
      | .init => some .requestSent
      | .requestReceived => some .responseSent
      | .responseReceived => some .confirmationSent
      | _ => none
    else if current = .init then some .terminating
    else some current
  match newState with
  | none => s
  | some newState =>
    let transition := if newState ≠ current then s.sixpTransTransitState p newState else (true, s)
    if transition.1 then
      let s := transition.2
      let t := s.trans p
      { s with
        log := s.log ++ (t.callback.toList.map fun callback ↦ Event.callback t.ident callback ok)
        pending := .clearCallback p t.ident :: s.pending }
    else (transition.2.sixpTransTransitState p .terminating).2

/-- The rest of a function whose callback has returned. -/
def resume : Pending → Sixp
  | .terminate p => (s.sixpTransTransitState p .terminating).2
  | .clearCallback p _ => s.sixpTransSetCallback p none

def nbrKey (addr : Addr8) : Tsch.Linkaddr := fun i ↦ (addr i).toNat

/-- `sixp_nbr_find`; the table of the sub-layer is table 0. -/
def sixpNbrFind (addr : Addr8) : Option ℕ := s.nbrs.nbrTableGetFromLladdr 0 (some (nbrKey addr))

def nbr (item : ℕ) : Nbr := (s.nbrs.table 0).data item

def setNbr (item : ℕ) (nbr : Nbr) : Sixp :=
  let data := update (s.nbrs.table 0).data item nbr
  let table := update s.nbrs.table 0 { s.nbrs.table 0 with data }
  { s with nbrs := { s.nbrs with table } }

def sixpNbrAlloc (addr : Addr8) (removable : Option (Option Tsch.Linkaddr)) (react : Reaction) :
    Option ℕ × Sixp :=
  if (s.sixpNbrFind addr).isSome then (none, s)
  else
    let (item, nbrs) := s.nbrs.nbrTableAddLladdr 0 (some (nbrKey addr)) removable react
    let s := { s with nbrs }
    match item with
    | none => (none, s)
    | some item => (some item, s.setNbr item ⟨0, 0⟩)

def sixpNbrIncrementNextSeqno (item : ℕ) : Sixp :=
  let nextSeqno := (s.nbr item).nextSeqno + 1
  s.setNbr item { s.nbr item with nextSeqno := if nextSeqno > 0x0f then 0 else nextSeqno }

end Sixp

end ContikiMaster.Sixtop
