import ContikiMaster.Lib.Memory
import ContikiMaster.Rpl.DaoAck

/-!
# RPL extension headers

The functions of `rpl-ext-header.c` for packets of others: the look for a routing header,
the updates of source routing header and hop-by-hop option, and the removal of both. The
memory starts at the IPv6 header, and the datagram records whether every offset that was
read or written was below `uip_len`. `uip_ext_len` has 8 bits. Loops have a bound.
-/

namespace ContikiMaster.Rpl

open Lib List

def uipProtoHbho : UInt8 := 0

def uipProtoDesto : UInt8 := 60

def uipProtoRouting : UInt8 := 43

def uipExtHdrOptRpl : UInt8 := 0x63

def rplRhTypeSrh : UInt8 := 3

def rplHdrOptLen : UInt8 := 4

def rplHdrOptDown : UInt8 := 0x80

def rplHdrOptRankErr : UInt8 := 0x40

def rplHdrOptFwdErr : UInt8 := 0x20

/-- The buffer, `uip_len` and `uip_ext_len`; whether only bytes of the datagram were touched so far,
and whether a length was lowered below 0. -/
structure Datagram where
  mem : ℕ → UInt8
  uipLen : ℕ
  uipExtLen : ℕ
  inside : Bool
  wrapped : Bool

/-- A datagram of some length as it is received or about to be sent. -/
def Datagram.received (mem : ℕ → UInt8) (uipLen : ℕ) : Datagram := ⟨mem, uipLen, 0, true, false⟩

/-- What the functions read of `curr_instance`, of the link graph and of the configuration. -/
structure RplContext extends CurrInstance where
  rank : UInt16
  prefixLength : UInt8
  loopErrorDrop : Bool
  ns : RplNs

namespace Datagram

variable (d : Datagram)

def touch (offsets : List ℕ) : Datagram :=
  { d with inside := d.inside && offsets.all fun o ↦ decide (o < d.uipLen) }

def write (offset : ℕ) (bytes : List UInt8) : Datagram :=
  { d with mem := writeAt d.mem offset bytes }

def withExtLen (extLen : ℕ) : Datagram := { d with uipExtLen := extLen }

end Datagram

variable (mem : ℕ → UInt8)

/-- `UIP_IP_BUF->destipaddr`. -/
def destipaddr : AddressBytes := fun j ↦ mem (24 + j.val)

def lengthField : ℕ := (mem 4).toNat * 256 + (mem 5).toNat

/-- `(UIP_EXT_BUF->len << 3) + 8`, for the extension header behind `extLen` bytes of them. -/
def extHeaderLen (extLen : ℕ) : ℕ := (mem (41 + extLen)).toNat * 8 + 8

/-- `uip_ext_len += (UIP_EXT_BUF->len << 3) + 8`. -/
def nextExtLen (extLen : ℕ) : ℕ := (extLen + extHeaderLen mem extLen) % 256

/-- A header that may stand before a routing header. -/
def isOptionsHeader (type : UInt8) : Bool := type == uipProtoHbho || type == uipProtoDesto

/-- `uip_next_hdr`, `uip_ext_len` and the offsets that were read. -/
structure Search where
  next : ℕ
  extLen : ℕ
  touched : List ℕ

/-- What the look comes to; `uip_next_hdr` is `NULL` where nothing was found. -/
structure Found where
  routing : Bool
  extLen : ℕ
  touched : List ℕ
deriving DecidableEq

def searchTurn (s : Search) : Turn Search Found :=
  let type := mem s.next
  if type = uipProtoRouting then .returns ⟨true, s.extLen, s.touched ++ [s.next]⟩
  else if isOptionsHeader type then
    .goesOn ⟨40 + s.extLen, nextExtLen mem s.extLen, s.touched ++ [s.next, 41 + s.extLen]⟩
  else .returns ⟨false, s.extLen, s.touched ++ [s.next]⟩

/-- The loop over the headers, from the IPv6 header on. -/
def searchRoutingHeader (fuel : ℕ) : Option Found := loop (searchTurn mem) fuel ⟨6, 0, []⟩

variable (ctx : RplContext)

def rplIsAddrInOurDag (addr : AddressBytes) : Bool :=
  ctx.used && (finRange 16).all fun j ↦
    !decide (j.val < (ctx.prefixLength >>> 3).toNat) || ctx.dagId j == addr j

/-- The root has a node, and it is the parent of the node of this address. -/
def isChildOfRoot (addr : AddressBytes) : Bool :=
  let dagId := UipIpaddr.ofBytes ctx.dagId
  match ctx.ns.rplNsGetNode dagId dagId, ctx.ns.rplNsGetNode dagId (.ofBytes addr) with
  | some rootNode, some destNode => (ctx.ns.node destNode).parent == some rootNode
  | _, _ => false

def createLinklocalPrefix (addr : AddressBytes) : AddressBytes :=
  fun j ↦ if j.val = 0 then 0xfe else if j.val = 1 then 0x80 else if j.val < 8 then 0 else addr j

/-- The end of `rpl_ext_header_srh_get_next_hop`: the next hop, where there is one. For another DAG
the value of `uip_ext_len` is not restored. -/
def nextHopOf (d : Datagram) (found : Found) : Option AddressBytes × Datagram :=
  let d := (d.touch found.touched).touch (range' 24 16)
  let dest := destipaddr d.mem
  if !rplIsAddrInOurDag ctx dest then (none, d.withExtLen found.extLen)
  else
    let d := if found.routing then d.touch [42 + found.extLen] else d
    if found.routing && d.mem (42 + found.extLen) == rplRhTypeSrh || isChildOfRoot ctx dest then
      (some (createLinklocalPrefix dest), d)
    else (none, d)

def rplExtHeaderSrhGetNextHop (fuel : ℕ) (d : Datagram) : Option (Option AddressBytes × Datagram) :=
  (searchRoutingHeader d.mem fuel).map (nextHopOf ctx d)

/-- The fields of the source routing header behind `extLen` bytes of extension headers. -/
structure SrhFields where
  segmentsLeft : ℕ
  headerLen : ℕ
  cmpri : ℕ
  cmpre : ℕ
  padding : ℕ

def srhFields (extLen : ℕ) : SrhFields where
  segmentsLeft := (mem (43 + extLen)).toNat
  headerLen := extHeaderLen mem extLen
  cmpri := (mem (44 + extLen) >>> 4).toNat
  cmpre := (mem (44 + extLen) &&& 0x0f).toNat
  padding := (mem (45 + extLen) >>> 4).toNat

namespace SrhFields

variable (f : SrhFields)

/-- `path_len`, in 8 bits, from an `ext_len` in 8 bits; the division is that of C. -/
def pathLen : ℕ :=
  ((((f.headerLen % 256 : ℕ) : ℤ) - f.padding - 4 - 4 - (16 - f.cmpre)).tdiv (16 - f.cmpri) + 1).emod
    256 |>.toNat

/-- `i`, the index of the next address to be visited, in 8 bits. -/
def index : ℕ := (f.pathLen + 256 - f.segmentsLeft) % 256

def cmpr : ℕ := if f.segmentsLeft = 1 then f.cmpre else f.cmpri

/-- Where the next address to be visited stands. -/
def addrPtr (extLen : ℕ) : ℕ := 48 + extLen + f.index * (16 - f.cmpri)

end SrhFields

def swapAddress (f : SrhFields) (extLen : ℕ) (d : Datagram) : Datagram :=
  let addrPtr := f.addrPtr extLen
  let size := 16 - f.cmpr
  let currentDestAddr := slice d.mem 24 16
  let d := d.touch (range' 24 16 ++ range' addrPtr size)
  let d := d.write (24 + f.cmpr) (slice d.mem addrPtr size)
  let d := d.write addrPtr (currentDestAddr.drop f.cmpr)
  d.write (43 + extLen) [d.mem (43 + extLen) - 1]

/-- The end of `rpl_ext_header_srh_update`: whether the header is accepted, and the datagram. -/
def updateFound (d : Datagram) (found : Found) : Bool × Datagram :=
  let extLen := found.extLen
  let d := d.touch found.touched
  if !found.routing then (false, d)
  else
    let d := d.touch [42 + extLen]
    if d.mem (42 + extLen) ≠ rplRhTypeSrh then (false, d)
    else
      let d := d.touch [43 + extLen, 41 + extLen, 44 + extLen, 45 + extLen]
      let f := srhFields d.mem extLen
      if f.segmentsLeft = 0 then (true, d) else (true, swapAddress f extLen d)

def rplExtHeaderSrhUpdate (fuel : ℕ) (d : Datagram) : Option (Bool × Datagram) :=
  (searchRoutingHeader d.mem fuel).map (updateFound d)

/-- `rpl_process_hbh`, which drops the packet or not; what it does to the neighbours is not
modelled. -/
def rplProcessHbh (loopDetected rankErrorSignaled : Bool) : Bool :=
  !(loopDetected && rankErrorSignaled && ctx.loopErrorDrop)

/-- A sender in the wrong direction: its rank is not higher going up, or not lower going down. -/
def hbhLoopDetected (flags : UInt8) (senderRank : UInt16) : Bool :=
  let down := flags &&& rplHdrOptDown != 0
  let senderCloser := decide (senderRank < ctx.rank)
  down && !senderCloser || !down && senderCloser

/-- `rpl_ext_header_hbh_update`, for the option at an offset in the extension header. -/
def rplExtHeaderHbhUpdate (uipExtOptOffset : ℕ) (d : Datagram) : Bool × Datagram :=
  let opt := 40 + d.uipExtLen + uipExtOptOffset
  let d := d.touch [opt, opt + 1, 41 + d.uipExtLen]
  if d.mem (41 + d.uipExtLen) ≠ 0 ∨ d.mem opt ≠ uipExtHdrOptRpl ∨ d.mem (opt + 1) ≠ rplHdrOptLen then
    (false, d)
  else if !ctx.used then (false, d)
  else
    let d := d.touch [opt + 3]
    if ctx.instanceId ≠ d.mem (opt + 3) then (false, d)
    else
      let d := d.touch [opt + 2]
      let flags := d.mem (opt + 2)
      if flags &&& rplHdrOptFwdErr ≠ 0 then (false, d)
      else
        let d := d.touch [opt + 4, opt + 5]
        let senderRank := get16 d.mem (opt + 4)
        let loopDetected := hbhLoopDetected ctx flags senderRank
        let rankErrorSignaled := flags &&& rplHdrOptRankErr != 0
        let d := if loopDetected then d.write (opt + 2) [flags ||| rplHdrOptRankErr] else d
        (rplProcessHbh ctx loopDetected rankErrorSignaled, d)

/-- `rpl_ext_hdr_len`, in 8 bits. -/
def rplExtHdrLen (extLen : ℕ) : ℕ := extHeaderLen mem extLen % 256

/-- The IPv6 length field is lowered, byte by byte. -/
def lowerLength (len : ℕ) : ℕ → UInt8 :=
  let lowered := writeAt mem 5 [mem 5 - UInt8.ofNat len]
  if mem 5 < lowered 5 then writeAt lowered 4 [lowered 4 - 1] else lowered

/-- The datagram once a length was subtracted from `uip_len` and from the IPv6 length field. -/
def shrink (len : ℕ) (d : Datagram) : Datagram :=
  { d with
    mem := lowerLength d.mem len
    uipLen := (d.uipLen + 65536 - len) % 65536
    wrapped := d.wrapped || decide (d.uipLen < len) || decide (lengthField d.mem < len) }

/-- The type behind `uip_next_hdr` is replaced by the next one, and the lengths are looked at. -/
def unlinkHeader (next : ℕ) (d : Datagram) : Datagram :=
  let ext := 40 + d.uipExtLen
  ((d.touch [ext, next]).write next [d.mem ext]).touch [ext + 1, 4, 5]

/-- What follows a header of some length is moved over it. A move of less than no bytes, which is
one of nearly all the memory, is not followed. -/
def moveOver (next len : ℕ) (d : Datagram) : Turn (ℕ × Datagram) Datagram :=
  let ext := 40 + d.uipExtLen
  let uipLen := (d.uipLen + 65536 - len) % 65536
  if uipLen < 40 then .returns (shrink len (d.touch [ext + 65536]))
  else
    let d := d.touch (range' (ext + len) (uipLen - 40) ++ range' ext (uipLen - 40))
    let d := shrink len d
    .goesOn (next, d.write ext (slice d.mem (ext + len) (uipLen - 40)))

def removeHeader (next : ℕ) (d : Datagram) : Turn (ℕ × Datagram) Datagram :=
  let d := unlinkHeader next d
  moveOver next (rplExtHdrLen d.mem d.uipExtLen) d

def skipHeader (d : Datagram) : Turn (ℕ × Datagram) Datagram :=
  .goesOn (40 + d.uipExtLen,
    (d.touch [41 + d.uipExtLen]).withExtLen (nextExtLen d.mem d.uipExtLen))

def removeTurn (s : ℕ × Datagram) : Turn (ℕ × Datagram) Datagram :=
  let (next, d) := s
  let type := d.mem next
  let d := d.touch [next]
  if type = uipProtoHbho then
    let d := d.touch [42 + d.uipExtLen]
    if d.mem (42 + d.uipExtLen) = uipExtHdrOptRpl then removeHeader next d else skipHeader d
  else if type = uipProtoRouting then removeHeader next d
  else if type = uipProtoDesto then skipHeader d
  else .returns d

def rplExtHeaderRemove (fuel : ℕ) (d : Datagram) : Option Datagram :=
  loop removeTurn fuel (6, d.withExtLen 0)

end ContikiMaster.Rpl
