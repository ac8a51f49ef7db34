import ContikiMaster.Sixtop.PacketSurvives
import ContikiMaster.Sixtop.TransactionRuns

/-!
# 6P exchanges between two nodes

An exchange is a request, its response and perhaps a confirmation. A packet handed to the
MAC is in flight until the other node handles it; its transmission callback runs at any
time after. Both nodes may process transactions and change their neighbours in between.
-/

namespace ContikiMaster.Sixtop

open Lib Sys Net Framer Tsch

/-- What a scheduling function gives to `sixp_output`, and what the other one is given. -/
structure Message where
  type : SixpPktType
  code : UInt8
  body : List UInt8
  deriving DecidableEq

inductive Role
  | initiator
  | responder
  deriving DecidableEq

def Role.other : Role → Role
  | .initiator => .responder
  | .responder => .initiator

/-- Two nodes, the messages that were sent so far, and the packet that is in flight. -/
structure Exchange where
  initiator : Sixp
  responder : Sixp
  mode : TransMode
  messages : List Message
  inFlight : Option (List UInt8)

/-- What can happen in an exchange. -/
inductive ExchangeLabel
  | output (code : UInt8) (body : List UInt8) (callback : Option ℕ)
      (removable : Option (Option Linkaddr)) (react : Reaction)
  | deliver
  | report (role : Role)
  | process (role : Role)
  | resume (role : Role)
  | nbrTables (role : Role) (policy : Bool) (op : NbrTables.Op)
  | advanceGen (role : Role) (item : ℕ)

def Sixp.sixpNbrAdvanceGen (s : Sixp) (item : ℕ) : Sixp :=
  let gen := (s.nbr item).gen
  if gen = 0x00 ∨ gen = 0x09 then s.setNbr item { s.nbr item with gen := 0x01 }
  else if gen < 0x09 then s.setNbr item { s.nbr item with gen := gen + 1 }
  else s

namespace Exchange

def start (initiator responder : Sixp) : Exchange := ⟨initiator, responder, .unavailable, [], none⟩

variable (e : Exchange)

def node : Role → Sixp
  | .initiator => e.initiator
  | .responder => e.responder

def setNode : Role → Sixp → Exchange
  | .initiator, s => { e with initiator := s }
  | .responder, s => { e with responder := s }

def turn : Option (Role × SixpPktType) :=
  match e.messages.length with
  | 0 => some (.initiator, .request)
  | 1 => some (.responder, .response)
  | 2 => if e.mode = .threeStep then some (.initiator, .confirmation) else none
  | _ => none

/-- Who the packet in flight is for. -/
def receiver : Role := if e.messages.length = 2 then .initiator else .responder

def peerAddr (role : Role) : Addr8 := (e.node role.other).nodeAddr

/-- A scheduling function sends its message, which the MAC takes. -/
def output (sfid : UInt8) (code : UInt8) (body : List UInt8) (callback : Option ℕ)
    (removable : Option (Option Linkaddr)) (react : Reaction) : Option Exchange := do
  let (role, type) ← e.turn
  guard (acceptsBody type code body.length)
  let args : Sixp.OutputArgs := ⟨type, code, sfid, body, e.peerAddr role, callback⟩
  let s ← (e.node role).next (.output args removable react)
  match s.frames.drop (e.node role).frames.length with
  | [frame] =>
    let mode :=
      if type = .request then Sixp.determineTransMode ⟨type, code, sfid, 0, 0, body⟩ else e.mode
    some { e.setNode role s with
      mode
      messages := e.messages ++ [⟨type, code, body⟩]
      inFlight := some frame.packet }
  | _ => none

/-- The packet in flight is handled. -/
def deliver : Option Exchange := do
  let packet ← e.inFlight
  let s ← (e.node e.receiver).next (.input packet (e.peerAddr e.receiver))
  some { e.setNode e.receiver s with inFlight := none }

def process (role : Role) : Option Exchange := do
  let p ← (e.node role).sixpTransFind (e.peerAddr role)
  guard ((e.node role).timer p = some .process)
  let s ← (e.node role).next (.timer p)
  some (e.setNode role s)

/-- One step of an exchange under the scheduling function `sfid`. -/
def next (sfid : UInt8) (e : Exchange) : ExchangeLabel → Option Exchange
  | .output code body callback removable react => e.output sfid code body callback removable react
  | .deliver => e.deliver
  | .report role => ((e.node role).next (.macCallback 0 true)).map (e.setNode role)
  | .process role => e.process role
  | .resume role => ((e.node role).next .resume).map (e.setNode role)
  | .nbrTables role policy op => ((e.node role).next (.nbrTables policy op)).map (e.setNode role)
  | .advanceGen role item => some (e.setNode role ((e.node role).sixpNbrAdvanceGen item))

end Exchange

def Sixp.states (s : Sixp) : List TransState :=
  s.log.filterMap fun event ↦
    match event with
    | .transit _ state => some state
    | _ => none

def Sixp.received (s : Sixp) : List Message :=
  s.log.filterMap fun event ↦
    match event with
    | .input _ pkt => some ⟨pkt.type, pkt.code, pkt.body⟩
    | _ => none

end ContikiMaster.Sixtop
