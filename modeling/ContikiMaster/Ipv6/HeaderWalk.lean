import ContikiMaster.Rpl.ExtHeader

/-!
# The walk along the headers of a received packet

`uip_process` of `uip6.c` from the check of the IPv6 header to the dispatch to TCP, UDP or ICMPv6,
`ext_hdr_options_process` and `uip_icmp6_error_output`, for a router without multicast forwarding
and reassembly. The datagram records whether every offset that was read or written was below
`uip_len`. The two counters of the position have 8 bits. Loops have a bound on their turns; of an
ICMPv6 error only the length is modelled, not the bytes.
-/

namespace ContikiMaster.Ipv6

open Lib Rpl List

def uipExtHdrOptPad1 : UInt8 := 0

def uipExtHdrOptPadn : UInt8 := 1

def uipProtoTcp : UInt8 := 6

def uipProtoUdp : UInt8 := 17

def uipProtoIcmp6 : UInt8 := 58

def uipExtHdrBitmapHbho : UInt8 := 0x01

def uipExtHdrBitmapDesto1 : UInt8 := 0x02

def uipExtHdrBitmapRouting : UInt8 := 0x04

def uipExtHdrBitmapDesto2 : UInt8 := 0x40

/-- What the walk reads of the configuration and of the addresses of the node. -/
structure IpNode where
  rpl : RplContext
  isMyAddr : AddressBytes → Bool
  isMyMaddr : AddressBytes → Bool
  isAddrOnlink : AddressBytes → Bool
  ipv6Checks : Bool
  tcp : Bool
  udp : Bool

/-- What `ext_hdr_options_process` returns: 0, 1 or 2. -/
inductive OptionsVerdict
  | continues
  | discards
  | sendsError
  deriving DecidableEq

/-- Where the walk leads: to a label of `uip_process`, or to an ICMPv6 error, which is one on an
option or another one. -/
inductive Verdict
  | drop
  | send
  | error (option : Bool)
  | tcpInput
  | udpInput
  | icmp6Input
  deriving DecidableEq

def isAddrMcast (a : AddressBytes) : Bool := a 0 == 0xff

def isAddrLinklocal (a : AddressBytes) : Bool := a 0 == 0xfe && a 1 == 0x80

def isAddrUnspecified (a : AddressBytes) : Bool := (finRange 16).all fun j ↦ a j == 0

def isAddrLoopback (a : AddressBytes) : Bool :=
  (finRange 16).all fun j ↦ a j == if j.val = 15 then 1 else 0

/-- `UIP_IP_BUF->srcipaddr`. -/
def srcipaddr (mem : ℕ → UInt8) : AddressBytes := fun j ↦ mem (8 + j.val)

variable (node : IpNode)

/-- One turn of the loop over the options, from an 8-bit offset in the extension header on. -/
def optionTurn (s : ℕ × Datagram) : Turn (ℕ × Datagram) (OptionsVerdict × Datagram) :=
  let (offset, d) := s
  let d := d.touch [41 + d.uipExtLen]
  if offset < extHeaderLen d.mem d.uipExtLen then
    let opt := 40 + d.uipExtLen + offset
    let d := d.touch [opt]
    let type := d.mem opt
    if type = uipExtHdrOptPad1 then .goesOn ((offset + 1) % 256, d)
    else if type = uipExtHdrOptPadn then
      .goesOn ((offset + ((d.mem (opt + 1)).toNat + 2)) % 256, d.touch [opt + 1])
    else if type = uipExtHdrOptRpl then
      let (accepted, d) := rplExtHeaderHbhUpdate node.rpl offset d
      if accepted then .returns (.continues, d.touch [opt + 1]) else .returns (.discards, d)
    else if type &&& 0xC0 = 0 then
      .goesOn ((offset + ((d.mem (opt + 1)).toNat + 2)) % 256, d.touch [opt + 1])
    else if type &&& 0xC0 = 0x40 then .returns (.discards, d)
    else if type &&& 0xC0 = 0xC0 then
      let d := d.touch [24]
      .returns (if isAddrMcast (destipaddr d.mem) then .discards else .sendsError, d)
    else .returns (.sendsError, d)
  else .returns (.continues, d)

def extHdrOptionsProcess (fuel : ℕ) (d : Datagram) : Option (OptionsVerdict × Datagram) :=
  loop (optionTurn node) fuel (2, d)

/-- `uip_ext_len` is moved behind the extension header. -/
def passHeader (d : Datagram) : Datagram :=
  (d.touch [41 + d.uipExtLen]).withExtLen (nextExtLen d.mem d.uipExtLen)

/-- The header is noted in `uip_ext_bitmap`; nothing where it was there too often. -/
def noteHeader (type bitmap : UInt8) : Option UInt8 :=
  if !node.ipv6Checks then some bitmap
  else if type = uipProtoHbho then
    if bitmap &&& uipExtHdrBitmapHbho ≠ 0 then none else some (bitmap ||| uipExtHdrBitmapHbho)
  else if type = uipProtoDesto then
    if bitmap &&& uipExtHdrBitmapDesto1 ≠ 0 then
      if bitmap &&& uipExtHdrBitmapDesto2 ≠ 0 then none
      else some (bitmap ||| uipExtHdrBitmapDesto2)
    else some (bitmap ||| uipExtHdrBitmapDesto1)
  else if bitmap &&& uipExtHdrBitmapRouting ≠ 0 then none
  else some (bitmap ||| uipExtHdrBitmapRouting)

/-- `uip_next_hdr`, `uip_ext_bitmap` and the datagram. -/
structure Walk where
  next : ℕ
  bitmap : UInt8
  d : Datagram

/-- To the next hop: the hop limit is lowered unless the packet is too big or has come too far. -/
def forwardToNextHop (d : Datagram) : Verdict × Datagram :=
  if 1280 < d.uipLen then (.error false, d)
  else
    let d := d.touch [7]
    if d.mem 7 ≤ 1 then (.error false, d) else (.send, d.write 7 [d.mem 7 - 1])

/-- Once a source routing header was updated: the packet goes to the next hop, or an error back. -/
def leaveRouting (result : Bool × Datagram) : Verdict × Datagram :=
  if result.1 then forwardToNextHop result.2 else (.error false, result.2)

/-- The walk goes on behind an options header, or ends with it. -/
def leaveOptions (bitmap : UInt8) (result : OptionsVerdict × Datagram) :
    Turn Walk (Verdict × Datagram) :=
  let (verdict, d) := result
  match verdict with
  | .continues => .goesOn ⟨40 + d.uipExtLen, bitmap, passHeader d⟩
  | .discards => .returns (.drop, d)
  | .sendsError => .returns (.error true, d)

def headerTurn (fuel : ℕ) (s : Walk) : Option (Turn Walk (Verdict × Datagram)) :=
  let d := s.d.touch [s.next]
  let type := d.mem s.next
  if type = uipProtoTcp ∧ node.tcp then some (.returns (.tcpInput, d))
  else if type = uipProtoUdp ∧ node.udp then some (.returns (.udpInput, d))
  else if type = uipProtoIcmp6 then some (.returns (.icmp6Input, d))
  else if isOptionsHeader type then
    match noteHeader node type s.bitmap with
    | none => some (.returns (.error false, d))
    | some bitmap => (extHdrOptionsProcess node fuel d).map (leaveOptions bitmap)
  else if type = uipProtoRouting then
    match noteHeader node type s.bitmap with
    | none => some (.returns (.error false, d))
    | some bitmap =>
      let d := d.touch [43 + d.uipExtLen]
      if d.mem (43 + d.uipExtLen) = 0 then
        some (.goesOn ⟨40 + d.uipExtLen, bitmap, passHeader d⟩)
      else (rplExtHeaderSrhUpdate fuel d).map fun result ↦ .returns (leaveRouting result)
  -- a fragment, the end of the headers, or a header that is not known
  else some (.returns (if type = 44 ∨ type = 59 then .drop else .error false, d))

def walkHeaders : ℕ → Walk → Option (Verdict × Datagram)
  | 0, _ => none
  | fuel + 1, s => (headerTurn node fuel s).bind fun turn ↦
    match turn with
    | .goesOn s => walkHeaders fuel s
    | .returns r => some r

/-- The packet is for another node: it is forwarded, dropped, or answered by an error. -/
def forwardPacket (d : Datagram) : Verdict × Datagram :=
  let dest := destipaddr d.mem
  let src := srcipaddr d.mem
  let d := d.touch (range' 24 16 ++ range' 8 16)
  if !isAddrMcast dest && !isAddrLinklocal dest && !isAddrLinklocal src && !isAddrUnspecified src &&
      !isAddrLoopback dest then
    forwardToNextHop d
  else if isAddrLinklocal src && !isAddrUnspecified src && !isAddrLoopback dest &&
      !isAddrMcast dest && !node.isAddrOnlink dest then
    (.error false, d)
  else (.drop, d)

/-- The rest of the walk once a hop-by-hop header in front was processed: for other nodes, or for
this one. -/
def routePacket (fuel : ℕ) (s : Walk) : Option (Verdict × Datagram) :=
  let d := s.d.touch (range' 24 16)
  let dest := destipaddr d.mem
  if !node.isMyAddr dest && !node.isMyMaddr dest then some (forwardPacket node d)
  else walkHeaders node fuel { s with d := d }

/-- The hop-by-hop header that stands in front, and what follows. -/
def processHeaders (fuel : ℕ) (d : Datagram) : Option (Verdict × Datagram) :=
  let d := d.touch [6]
  if d.mem 6 = uipProtoHbho then
    let bitmap := if node.ipv6Checks then uipExtHdrBitmapHbho else 0
    (extHdrOptionsProcess node fuel d).bind fun result ↦
      match leaveOptions bitmap result with
      | .goesOn s => routePacket node fuel s
      | .returns r => some r
  else routePacket node fuel ⟨6, 0, d⟩

def uipBufsize : ℕ := 1280

/-- The walk along the headers of `n` received bytes. -/
def walkPacket (fuel : ℕ) (mem : ℕ → UInt8) (n : ℕ) : Option (Verdict × Datagram) :=
  let d := (Datagram.received mem n).touch [0]
  if d.mem 0 &&& 0xf0 ≠ 0x60 then some (.drop, d)
  else
    let d := d.touch [4, 5]
    if lengthField d.mem ≤ d.uipLen then
      let d := { d with uipLen := (lengthField d.mem + 40) % 65536 }
      let d := d.touch [8]
      if isAddrMcast (srcipaddr d.mem) then some (.drop, d) else processHeaders node fuel d
    else some (.drop, d)

def clearBuf (d : Datagram) : Datagram := { d with uipLen := 0, uipExtLen := 0 }

/-- The end of `uip_icmp6_error_output`, behind the removal: the error quotes what fits of the
packet behind the headers that stay. None is sent to the unspecified address, or for a multicast
packet unless on an option. -/
def errorMessage (option : Bool) (d : Datagram) : Datagram :=
  let d := d.touch (range' 24 16)
  let dest := destipaddr d.mem
  let uipLen := min ((d.uipLen + 48) % 65536) 1280
  let d := { d with wrapped := d.wrapped || decide (uipLen < 48 + d.uipExtLen) }
  let d := d.touch (range' 0 (uipLen - 48 - d.uipExtLen) ++ range' 8 16)
  if isAddrUnspecified (srcipaddr d.mem) || isAddrMcast dest && !option then clearBuf d
  else { d with uipLen }

/-- `uip_icmp6_error_output`; an ICMPv6 error is not answered. -/
def uipIcmp6ErrorOutput (fuel : ℕ) (option : Bool) (d : Datagram) : Option Datagram :=
  let next := if d.uipExtLen = 0 then 6 else 40 + d.uipExtLen
  let d := d.touch [next]
  if d.mem next = uipProtoIcmp6 then
    let d := d.touch [40 + d.uipExtLen]
    if d.mem (40 + d.uipExtLen) < 128 then some (clearBuf d)
    else (rplExtHeaderRemove fuel d).map (errorMessage option)
  else (rplExtHeaderRemove fuel d).map (errorMessage option)

end ContikiMaster.Ipv6
