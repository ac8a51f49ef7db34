import ContikiMaster.Coap.EngineRuns
import ContikiMaster.Coap.MessageRoundTrip

/-!
# Block-wise transfers

`coap_blocking_request` of one engine against the resource of another, over a network that
loses nothing. A resource gives its whole representation every time, or the range it is
asked for and the next offset.
-/

namespace ContikiMaster.Coap

open Lib Sys

/-- A resource with a representation, whose handler is aware of blocks or is not. -/
structure Resource where
  representation : List UInt8
  aware : Bool

/-- The handler of the resource: it writes into the buffer that it is given, behind the place of the
header. A handler that is aware of blocks says where the next range starts, or -1. -/
def Resource.service (resource : Resource) (sizes : CoapConf) : Service :=
  fun _ _ packet size offset ↦
    let found (chunk : List UInt8) (newOffset : UInt32) : ServiceResult :=
      ⟨true, [.payload (.inBuffer sizes.maxHeaderSize) chunk.length], newOffset,
        writeAt packet sizes.maxHeaderSize chunk, 0, "", [], []⟩
    if resource.aware then
      let next := offset.toNat + size.toNat
      found ((resource.representation.drop offset.toNat).take size.toNat)
        (if next < resource.representation.length then UInt32.ofNat next else 0xFFFFFFFF)
    else found resource.representation offset

/-- The variables of the loop of `coap_blocking_request`, and the payloads that its callback was
given. -/
structure Progress where
  blockNum : UInt32
  resBlock : UInt32
  more : UInt8
  blockError : UInt8
  received : List (List UInt8)

def Progress.start : Progress := ⟨0, 0, 0, 0, []⟩

/-- What the loop reads of a response: the number and the more flag of its Block2 option, if it has
one, and the payload. -/
structure Reply where
  block : Option (UInt32 × UInt8)
  payload : List UInt8

def coapMaxAttempts : UInt8 := 4

/-- The loop from the response to the end of the turn. -/
def Progress.resume (p : Progress) (reply : Reply) : Turn Progress Progress :=
  let p :=
    match reply.block with
    | none => p
    | some (num, more) => { p with resBlock := num, more := more }
  let p :=
    if p.resBlock = p.blockNum then
      { p with received := p.received ++ [reply.payload], blockNum := p.blockNum + 1 }
    else { p with blockError := p.blockError + 1 }
  if p.more ≠ 0 ∧ p.blockError < coapMaxAttempts then .goesOn p else .returns p

def ParseState.payload (st : ParseState) : List UInt8 :=
  slice st.mem st.packet.payload.start st.packet.payload.len

/-- `coap_get_header_block2` and the payload. -/
def ParseState.reply (st : ParseState) : Reply where
  block :=
    if st.packet.IsOption BlockOption.block2.number then
      some ((st.packet.block .block2).num, (st.packet.block .block2).more)
    else none
  payload := st.payload

/-- The two nodes: their configurations and addresses, the resource of the server, and what lies in
their packet buffers before a datagram arrives. -/
structure Nodes where
  clientConf : EngineConf
  serverConf : EngineConf
  clientAddr : Endpoint
  serverAddr : Endpoint
  resource : Resource
  uipBuf : ℕ → UInt8

structure Transfer where
  client : Engine
  server : Engine
  request : Message
  progress : Progress

def Nodes.arrives (n : Nodes) (source : Endpoint) (bytes : List UInt8) : Datagram :=
  ⟨source, writeAt n.uipBuf 0 bytes, bytes.length⟩

/-- One engine receives what another one sent last, if it has sent anything. -/
def Nodes.pass (n : Nodes) (sender : Engine) (source : Endpoint) (receiver : Engine)
    (conf : EngineConf) (service : Option Service) : Option Engine :=
  sender.outbox.getLast?.bind fun (_, bytes) ↦
    receiver.coapReceive conf service (n.arrives source bytes)

/-- One turn of the loop of `coap_blocking_request`: the request is sent, the server answers, and the
callback of the transaction hands the response to the loop. The transfer ends where there is no
transaction or no response. -/
def Nodes.turn (n : Nodes) (tr : Transfer) : Turn Transfer Transfer :=
  let (t, request, client) := tr.client.requestBlock n.clientConf 0 n.serverAddr tr.request
    tr.progress.blockNum
  let tr := { tr with client := client, request := request }
  let service := n.resource.service n.serverConf.sizes
  match t, n.pass client n.clientAddr tr.server n.serverConf (some service) with
  | some _, some server =>
    match n.pass server n.serverAddr client n.clientConf none with
    | none => .returns { tr with server := server }
    | some client =>
      let tr := { tr with client := client, server := server }
      match client.delivered.getLast? with
      | some (_, some response) =>
        match tr.progress.resume response.reply with
        | .goesOn p => .goesOn { tr with progress := p }
        | .returns p => .returns { tr with progress := p }
      | _ => .returns tr
  | _, _ => .returns tr

/-- The start of a transfer between two engines that were just started. -/
def Nodes.start (n : Nodes) (clientMid serverMid : UInt16) (request : Message) : Transfer where
  client := Engine.init n.clientConf clientMid
  server := Engine.init n.serverConf serverMid
  request := request
  progress := Progress.start

/-- The transfer ends behind a block without the more flag, and the payloads that the callback was
given are the representation. -/
def Delivers (n : Nodes) (tr : Transfer) : Prop :=
  ∃ fuel final, loop n.turn fuel tr = some final ∧ final.progress.more = 0 ∧
    final.progress.blockError = 0 ∧ final.progress.received.flatten = n.resource.representation

end ContikiMaster.Coap
