import ContikiMaster.Framer.TschPacket
import ContikiMaster.Tsch.Types

/-!
# 6P packets in the packet buffer

`sixp-pkt.c` and `sixtop.c` over the bytes of `packetbuf.c`. A 6P packet is a header of four
bytes and a body. `sixtop_output` puts the identifier of the sub-element, the descriptor of
the payload element and the end of the header elements before it, and `sixtop_input` finds
the packet again in a frame whose header the framer has removed.
-/

namespace ContikiMaster.Sixtop

open Lib Lib.Cursor Framer Tsch

/-- The variables of `packetbuf.c`; the buffer is the first `PACKETBUF_SIZE` bytes of `mem`. -/
structure Packetbuf where
  mem : ℕ → UInt8
  buflen : ℕ
  bufptr : ℕ
  hdrlen : ℕ
  attr : PacketbufAttr
  sender : Addr8
  receiver : Addr8

namespace Packetbuf

variable (pb : Packetbuf)

def clear : Packetbuf where
  mem := pb.mem
  buflen := 0
  bufptr := 0
  hdrlen := 0
  attr := PacketbufAttr.clear
  sender := Framer.linkaddrNull
  receiver := Framer.linkaddrNull

/-- `packetbuf_hdrlen`, a `uint8_t`. -/
def packetbufHdrlen : ℕ := (pb.bufptr + pb.hdrlen) % 256

def totlen : ℕ := pb.packetbufHdrlen + pb.buflen

/-- `packetbuf_dataptr`, as an offset into the buffer. -/
def dataptr : ℕ := pb.packetbufHdrlen

/-- Write bytes through a pointer into the buffer. -/
def write (p : ℕ) (bytes : List UInt8) : Except Fault Packetbuf :=
  if p + bytes.length ≤ packetbufSize then
    .ok { pb with mem := fun i ↦ if p ≤ i then bytes.getD (i - p) (pb.mem i) else pb.mem i }
  else .error .invalidAccess

/-- `packetbuf_hdralloc`: the bytes of the buffer move up; `none` when there is no room. -/
def hdralloc (size : ℕ) : Option Packetbuf :=
  if size + pb.totlen > packetbufSize then none
  else some { pb with
    mem := fun i ↦ if size ≤ i ∧ i < pb.totlen + size then pb.mem (i - size) else pb.mem i
    hdrlen := (pb.hdrlen + size) % 256 }

def hdrreduce (size : ℕ) : Packetbuf :=
  if pb.buflen < size then pb
  else { pb with bufptr := pb.bufptr + size, buflen := pb.buflen - size }

/-- The bytes that are handed to the MAC: the header and the data behind it. -/
def bytes : List UInt8 := (List.range pb.totlen).map pb.mem

end Packetbuf

inductive SixpPktType
  | request
  | response
  | confirmation
  | reserved
  deriving DecidableEq, Repr

def SixpPktType.value : SixpPktType → UInt8
  | .request => 0
  | .response => 1
  | .confirmation => 2
  | .reserved => 3

def SixpPktType.ofValue (value : UInt8) : SixpPktType :=
  if value = 0 then .request
  else if value = 1 then .response
  else if value = 2 then .confirmation
  else .reserved

def sixpPktVersion : UInt8 := 0

def cmdAdd : UInt8 := 1

def cmdDelete : UInt8 := 2

def cmdRelocate : UInt8 := 3

def cmdCount : UInt8 := 4

def cmdList : UInt8 := 5

def cmdClear : UInt8 := 6

def rcSuccess : UInt8 := 0

def rcEol : UInt8 := 2

def rcSfid : UInt8 := 5

def rcBusy : UInt8 := 7

def rcNores : UInt8 := 8

/-- `SIXP_PKT_RC_CELLLIST`, the last of the return codes. -/
def rcCelllist : UInt8 := 9

/-- `sixp_pkt_t`. An empty body has no pointer. -/
structure SixpPkt where
  type : SixpPktType
  code : UInt8
  sfid : UInt8
  seqno : UInt8
  gen : UInt8
  body : List UInt8
  deriving DecidableEq, Repr

/-- The lengths of the body that `sixp_pkt_parse` accepts for a type and a code: metadata, cell
options and the number of cells take 4 bytes, a list request 8 and a number of cells 2. -/
def acceptsBody (type : SixpPktType) (code : UInt8) (len : ℕ) : Bool :=
  match type with
  | .request =>
    if code = cmdAdd ∨ code = cmdDelete ∨ code = cmdRelocate then 4 ≤ len && len % 4 == 0
    else if code = cmdCount then len == 3
    else if code = cmdList then len == 8
    else if code = cmdClear then len == 2
    else false
  | .response | .confirmation =>
    if code = rcSuccess then len == 0 || len == 2 || len % 4 == 0
    else if code = rcEol then len % 4 == 0
    else if code ≤ rcCelllist then len == 0
    else false
  | .reserved => false

def sixpPktParse : List UInt8 → Option SixpPkt
  | b₀ :: b₁ :: b₂ :: b₃ :: body =>
    if b₀ &&& 0x0f ≠ sixpPktVersion then none
    else
      let type := SixpPktType.ofValue ((b₀ &&& 0x30) >>> 4)
      if acceptsBody type b₁ body.length then
        some ⟨type, b₁, b₂, b₃ &&& 0x0f, (b₃ &&& 0xf0) >>> 4, body⟩
      else none
  | _ => none

def sixpHeader (pkt : SixpPkt) : List UInt8 :=
  [pkt.type.value <<< 4 ||| sixpPktVersion, pkt.code, pkt.sfid, pkt.gen <<< 4 ||| pkt.seqno]

/-- `sixp_pkt_create`; `none` when the body is too long for the buffer. -/
def sixpPktCreate (pkt : SixpPkt) (pb : Packetbuf) : Except Fault (Option Packetbuf) := do
  let pb := pb.clear
  if packetbufSize < pb.totlen + pkt.body.length then return none
  match pb.hdralloc 4 with
  | none => return none
  | some pb =>
    let pb ← pb.write 0 (sixpHeader pkt)
    if pkt.body = [] then return some pb
    let pb ← pb.write pb.dataptr pkt.body
    return some { pb with buflen := pkt.body.length }

/-- What `sixtop_output` does with the buffer: return, call back with `MAC_TX_ERR_FATAL`, or hand
it to the MAC. -/
inductive SixtopOutput
  | dropped
  | failed
  | sent (pb : Packetbuf)

/-- The end of the payload elements behind the data, where the build has it; `none` when there is
no room. -/
def appendPayloadTermination (withTermination : Bool) (pb : Packetbuf) :
    Except Fault (Option Packetbuf) :=
  if withTermination then
    match createIePayloadListTermination (packetbufSize - pb.totlen) with
    | none => return none
    | some ie => do
      let pb ← pb.write (pb.dataptr + pb.buflen) ie
      return some { pb with buflen := pb.buflen + ie.length }
  else return some pb

/-- The end of the header elements before the frame. Where there is no room for it, it is left
out; written, it never fails. -/
def prependHeaderTermination (pb : Packetbuf) : Except Fault (Option Packetbuf) :=
  match pb.hdralloc 2 with
  | none => return some pb
  | some pb =>
    match createIeHeaderListTermination1 2 with
    | none => return none
    | some ie => do
      let pb ← pb.write 0 ie
      return some pb

/-- `sixtop_output` on the node `nodeAddr`. -/
def sixtopOutput (withTermination : Bool) (nodeAddr destAddr : Addr8) (pb : Packetbuf) :
    Except Fault SixtopOutput :=
  match pb.hdralloc 1 with
  | none => return .dropped
  | some pb => do
    let pb ← pb.write 0 [ietfIe6top]
    let ies := { Ies.zero with sixtopIeContentLen := UInt16.ofNat pb.totlen }
    match pb.hdralloc 2, createIeIetf 2 ies with
    | some pb, some ie =>
      let pb ← pb.write 0 ie
      match ← appendPayloadTermination withTermination pb with
      | none => return .failed
      | some pb =>
        match ← prependHeaderTermination pb with
        | none => return .failed
        | some pb =>
          return .sent { pb with
            attr := { pb.attr with macMetadata := true, frameType := dataFrame }
            receiver := destAddr
            sender := nodeAddr }
    | _, _ => return .failed

/-- A packet is created and handed on, as `sixp_output` and `send_back_error` do. -/
def sendPacket (withTermination : Bool) (nodeAddr destAddr : Addr8) (pkt : SixpPkt)
    (pb : Packetbuf) : Except Fault SixtopOutput := do
  match ← sixpPktCreate pkt pb with
  | none => return .dropped
  | some pb => sixtopOutput withTermination nodeAddr destAddr pb

end ContikiMaster.Sixtop
