import ContikiMaster.Sixtop.PacketPath

/-!
# Which 6P packets survive

A packet for which the framer has room is decoded to itself. To one node, the framer refuses the
frames of 99 to 121 bytes of body, and a body of 125 to 128 bytes is copied past the end of the
packet buffer.
-/

namespace ContikiMaster.Sixtop

open Lib Lib.Cursor Framer Tsch List

variable {pkt : SixpPkt} {pb pb' : Packetbuf} {withTermination : Bool} {nodeAddr destAddr : Addr8}
  {l : List UInt8}

theorem type_header {type : SixpPktType} :
    (type.value <<< 4 ||| sixpPktVersion) &&& 0x0f = sixpPktVersion ∧
      SixpPktType.ofValue (((type.value <<< 4 ||| sixpPktVersion) &&& 0x30) >>> 4) = type := by
  cases type <;> decide

theorem nibbles_header {seqno gen : UInt8} (hseqno : seqno < 16) (hgen : gen < 16) :
    (gen <<< 4 ||| seqno) &&& 0x0f = seqno ∧ ((gen <<< 4 ||| seqno) &&& 0xf0) >>> 4 = gen := by
  have hall : ∀ s g : Fin 16, (UInt8.ofNat g <<< 4 ||| UInt8.ofNat s) &&& 0x0f = UInt8.ofNat s ∧
      ((UInt8.ofNat g <<< 4 ||| UInt8.ofNat s) &&& 0xf0) >>> 4 = UInt8.ofNat g := by
    decide
  have hboth := hall ⟨seqno.toNat, hseqno⟩ ⟨gen.toNat, hgen⟩
  simpa using hboth

theorem sixpPktParse_packetBytes (hseqno : pkt.seqno < 16) (hgen : pkt.gen < 16)
    (haccepts : acceptsBody pkt.type pkt.code pkt.body.length = true) :
    sixpPktParse (packetBytes pkt) = some pkt := by
  obtain ⟨hversion, htype⟩ := @type_header pkt.type
  obtain ⟨hlow, hhigh⟩ := nibbles_header hseqno hgen
  rw [packetBytes, sixpHeader]
  change (if _ then _ else if acceptsBody _ _ pkt.body.length = true then
    some (SixpPkt.mk _ _ _ _ _ pkt.body) else none) = _
  rw [if_neg (not_not.mpr hversion)]
  simp only [htype, haccepts, if_true, hlow, hhigh]

section Receiving

variable {conf : PacketConf} {fuel hdrLen : ℕ} {mem : ℕ → UInt8} {frame : Frame}
  {macPanId : UInt16} {macDsn : UInt8} {attr attr' : PacketbufAttr} {sender receiver : Addr8}
  {frameBytes : List UInt8}

end Receiving

/-! ## From node to node -/

/-- The length of the header that the framer puts before a 6P frame. -/
def macHeaderLen (receiver : Addr8) : ℕ := if receiver = Framer.linkaddrNull then 14 else 21

/-- A body of `n` bytes fits into the buffer with all that is put around it, or it is handed to
nobody, either because it is longer than the buffer or because a descriptor has no room. -/
def Fits (withTermination : Bool) (destAddr : Addr8) (n : ℕ) : Prop :=
  macHeaderLen destAddr + (n + 9 + (payloadEnd withTermination).length) ≤ packetbufSize ∨
    (packetbufSize < n + 7 + (payloadEnd withTermination).length ∧ n + 4 ≤ packetbufSize) ∨
    packetbufSize < n

/-- A request to add cells whose body of `n` bytes is all zero. -/
def addRequest (n : ℕ) : SixpPkt := ⟨.request, cmdAdd, 0, 3, 1, replicate n 0⟩

end ContikiMaster.Sixtop
