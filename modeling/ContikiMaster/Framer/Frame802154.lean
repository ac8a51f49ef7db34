import ContikiMaster.Lib.Cursor
import Mathlib.Data.Fintype.Pi
import Mathlib.Tactic.FinCases

/-!
# The header of an 802.15.4 frame

`frame802154.c`: which PAN ids a header carries, its length, how it is written
and how it is read back. Link-layer security is compiled out, so there is no
auxiliary security header.
-/

namespace ContikiMaster.Framer

open Lib Lib.Cursor

/-- `uint8_t[8]`, also `linkaddr_t`. -/
abbrev Addr8 := Fin 8 → UInt8

/-- `linkaddr_null`, also `tsch_eb_address`. -/
def linkaddrNull : Addr8 := fun _ ↦ 0

inductive AddrMode
  | noAddr
  | reserved
  | shortAddrMode
  | longAddrMode
  deriving DecidableEq, Repr

/-- The address mode as the two bits of the frame control field. -/
def AddrMode.bits : AddrMode → ℕ
  | noAddr => 0
  | reserved => 1
  | shortAddrMode => 2
  | longAddrMode => 3

def AddrMode.ofBits (bits : ℕ) : AddrMode :=
  match bits % 4 with
  | 0 => noAddr
  | 1 => reserved
  | 2 => shortAddrMode
  | _ => longAddrMode

@[simp]
theorem AddrMode.ofBits_bits (mode : AddrMode) : AddrMode.ofBits mode.bits = mode := by
  cases mode <;> rfl

theorem AddrMode.bits_lt (mode : AddrMode) : mode.bits < 4 := by
  cases mode <;> decide

def beaconFrame : Fin 8 := 0

def dataFrame : Fin 8 := 1

def ackFrame : Fin 8 := 2

/-- `FRAME802154_IEEE802154_2015`. -/
def ieee802154_2015 : Fin 4 := 2

def broadcastPanid : UInt16 := 0xffff

/-- `frame802154_fcf_t`. -/
structure Fcf where
  frameType : Fin 8
  securityEnabled : Bool
  framePending : Bool
  ackRequired : Bool
  panidCompression : Bool
  sequenceNumberSuppression : Bool
  ieListPresent : Bool
  destAddrMode : AddrMode
  frameVersion : Fin 4
  srcAddrMode : AddrMode
  deriving DecidableEq

/-- `frame802154_t`; the payload pointer is an offset. -/
structure Frame where
  destAddr : Addr8
  srcAddr : Addr8
  fcf : Fcf
  seq : UInt8
  destPid : UInt16
  srcPid : UInt16
  payload : ℕ
  payloadLen : ℤ
  deriving DecidableEq

/-- `frame802154_has_panid`: whether the header has a source and a destination PAN id. -/
def frame802154HasPanid (fcf : Fcf) : Bool × Bool :=
  if fcf.frameVersion = ieee802154_2015 then
    let destPanId : Bool :=
      (fcf.destAddrMode = .noAddr ∧ fcf.srcAddrMode = .noAddr ∧ fcf.panidCompression = true) ∨
      (fcf.destAddrMode ≠ .noAddr ∧ fcf.srcAddrMode = .noAddr ∧ fcf.panidCompression = false) ∨
      (fcf.destAddrMode = .longAddrMode ∧ fcf.srcAddrMode = .longAddrMode ∧
        fcf.panidCompression = false) ∨
      ((fcf.destAddrMode = .shortAddrMode ∧ fcf.srcAddrMode ≠ .noAddr) ∨
        (fcf.destAddrMode ≠ .noAddr ∧ fcf.srcAddrMode = .shortAddrMode))
    let srcPanId : Bool :=
      fcf.panidCompression = false ∧
        ((fcf.destAddrMode = .noAddr ∧ fcf.srcAddrMode = .longAddrMode) ∨
          (fcf.destAddrMode = .noAddr ∧ fcf.srcAddrMode = .shortAddrMode) ∨
          (fcf.destAddrMode = .shortAddrMode ∧ fcf.srcAddrMode = .shortAddrMode) ∨
          (fcf.destAddrMode = .shortAddrMode ∧ fcf.srcAddrMode = .longAddrMode) ∨
          (fcf.destAddrMode = .longAddrMode ∧ fcf.srcAddrMode = .shortAddrMode))
    (srcPanId, destPanId)
  else if fcf.frameType ≠ ackFrame then
    (!fcf.panidCompression && decide (fcf.srcAddrMode ≠ .noAddr),
      decide (fcf.destAddrMode ≠ .noAddr))
  else
    (false, false)

def Fcf.hasSrcPanid (fcf : Fcf) : Bool := (frame802154HasPanid fcf).1

def Fcf.hasDestPanid (fcf : Fcf) : Bool := (frame802154HasPanid fcf).2

/-- `frame802154_check_dest_panid` on a node of the PAN `macPanId`. -/
def frame802154CheckDestPanid (macPanId : UInt16) (frame : Frame) : Bool :=
  frame.fcf.hasDestPanid && (frame.destPid == macPanId || frame.destPid == broadcastPanid)

/-- `frame802154_is_broadcast_addr`: all bytes of the mode's length are `0xff`. -/
def frame802154IsBroadcastAddr (mode : AddrMode) (addr : Addr8) : Bool :=
  let len := if mode = .shortAddrMode then 2 else 8
  decide (∀ i : Fin 8, i.val < len → addr i = 0xff)

/-- One address of `frame802154_extract_linkaddr`: the null address for a missing or broadcast
address, nothing for an address of another size than `linkaddr_t`. -/
def extractAddr (mode : AddrMode) (addr : Addr8) : Option Addr8 :=
  let len := if mode = .noAddr then 0 else if mode = .shortAddrMode then 2 else 8
  if len = 0 || frame802154IsBroadcastAddr mode addr then some linkaddrNull
  else if len ≠ 8 then none
  else some addr

/-- `frame802154_extract_linkaddr`: the source and the destination. -/
def frame802154ExtractLinkaddr (frame : Frame) : Option (Addr8 × Addr8) := do
  let source ← extractAddr frame.fcf.srcAddrMode frame.srcAddr
  let dest ← extractAddr frame.fcf.destAddrMode frame.destAddr
  pure (source, dest)

def addrLen : AddrMode → ℕ
  | .shortAddrMode => 2
  | .longAddrMode => 8
  | _ => 0

structure FieldLength where
  seqnoLen : ℕ
  destPidLen : ℕ
  destAddrLen : ℕ
  srcPidLen : ℕ
  srcAddrLen : ℕ
  deriving DecidableEq

/-- The bit `field_len` sets in a frame of a version before 2015. -/
def normalisePanidCompression (p : Frame) : Frame :=
  if p.fcf.frameVersion < ieee802154_2015 then
    { p with fcf.panidCompression :=
        p.fcf.destAddrMode ≠ .noAddr && p.fcf.srcAddrMode ≠ .noAddr && p.srcPid == p.destPid }
  else p

/-- `field_len`: the frame it leaves, and the lengths of the fields. -/
def fieldLen (p : Frame) : Frame × FieldLength :=
  let p := normalisePanidCompression p
  (p, { seqnoLen := if p.fcf.sequenceNumberSuppression then 0 else 1
        srcPidLen := if p.fcf.hasSrcPanid then 2 else 0
        destPidLen := if p.fcf.hasDestPanid then 2 else 0
        destAddrLen := addrLen p.fcf.destAddrMode
        srcAddrLen := addrLen p.fcf.srcAddrMode })

/-- `frame802154_hdrlen`, with the frame it leaves. -/
def frame802154Hdrlen (p : Frame) : ℕ × Frame :=
  let (p, flen) := fieldLen p
  (2 + flen.seqnoLen + flen.destPidLen + flen.destAddrLen + flen.srcPidLen + flen.srcAddrLen, p)

def frame802154CreateFcf (fcf : Fcf) : List UInt8 :=
  [UInt8.ofNat (fcf.frameType + 8 * fcf.securityEnabled.toNat + 16 * fcf.framePending.toNat +
      32 * fcf.ackRequired.toNat + 64 * fcf.panidCompression.toNat),
    UInt8.ofNat (fcf.sequenceNumberSuppression.toNat + 2 * fcf.ieListPresent.toNat +
      4 * fcf.destAddrMode.bits + 16 * fcf.frameVersion + 64 * fcf.srcAddrMode.bits)]

def write16 (val : UInt16) : List UInt8 :=
  [UInt8.ofNat (val.toNat % 256), UInt8.ofNat (val.toNat / 256 % 256)]

/-- `for(c = n; c > 0; c--) buf[pos++] = addr[c - 1]`. -/
def writeAddr (addr : Addr8) : ℕ → List UInt8
  | 0 => []
  | c + 1 => addr (Fin.ofNat 8 c) :: writeAddr addr c

/-- `frame802154_create`: the bytes of the header, and the frame it leaves. -/
def frame802154Create (p : Frame) : List UInt8 × Frame :=
  let (p, flen) := fieldLen p
  (frame802154CreateFcf p.fcf ++
    ((if flen.seqnoLen = 1 then [p.seq] else []) ++
      (((if flen.destPidLen = 2 then write16 p.destPid else []) ++
        writeAddr p.destAddr flen.destAddrLen) ++
      ((if flen.srcPidLen = 2 then write16 p.srcPid else []) ++
        writeAddr p.srcAddr flen.srcAddrLen))), p)

def frame802154ParseFcf (data₀ data₁ : UInt8) : Fcf where
  frameType := Fin.ofNat 8 data₀.toNat
  securityEnabled := data₀.toNat / 8 % 2 = 1
  framePending := data₀.toNat / 16 % 2 = 1
  ackRequired := data₀.toNat / 32 % 2 = 1
  panidCompression := data₀.toNat / 64 % 2 = 1
  sequenceNumberSuppression := data₁.toNat % 2 = 1
  ieListPresent := data₁.toNat / 2 % 2 = 1
  destAddrMode := .ofBits (data₁.toNat / 4)
  frameVersion := Fin.ofNat 4 (data₁.toNat / 16)
  srcAddrMode := .ofBits (data₁.toNat / 64)

def word (lo hi : UInt8) : UInt16 := UInt16.ofNat (lo.toNat + 256 * hi.toNat)

/-- `READ16(p + k)`. -/
def peek16 (k : ℕ) : Cursor UInt8 UInt16 := do
  let lo ← peek k
  let hi ← peek (k + 1)
  pure (word lo hi)

def parseSeqno (fcf : Fcf) (pf : Frame) : Cursor UInt8 UInt8 :=
  if fcf.sequenceNumberSuppression then pure pf.seq else take

/-- A PAN id the header has, else `absent`. -/
def parsePid (present : Bool) (absent : UInt16) : Cursor UInt8 UInt16 :=
  if present then do
    let pid ← peek16 0
    skip 2
    pure pid
  else pure absent

/-- The bytes of an address stand last to first; the reserved mode leaves `old`. -/
def parseAddr (mode : AddrMode) (old : Addr8) : Cursor UInt8 Addr8 :=
  match mode with
  | .noAddr => pure linkaddrNull
  | .reserved => pure old
  | .shortAddrMode => do
    let addr₀ ← peek 1
    let addr₁ ← peek 0
    skip 2
    pure fun i ↦ if i = 0 then addr₀ else if i = 1 then addr₁ else 0
  | .longAddrMode => do
    let addr ← peekEach 8 fun c ↦ 7 - c
    skip 8
    pure addr

/-- The destination PAN id and address; the PAN id is read in the address branch only. -/
def parseDest (fcf : Fcf) (pf : Frame) : Cursor UInt8 (UInt16 × Addr8) :=
  if fcf.destAddrMode ≠ .noAddr then do
    let destPid ← parsePid fcf.hasDestPanid 0
    let destAddr ← parseAddr fcf.destAddrMode pf.destAddr
    pure (destPid, destAddr)
  else pure (0, linkaddrNull)

/-- The source PAN id and address; a missing source PAN id is the destination's. -/
def parseSrc (fcf : Fcf) (pf : Frame) (destPid : UInt16) : Cursor UInt8 (UInt16 × Addr8) :=
  if fcf.srcAddrMode ≠ .noAddr then do
    let srcPid ← parsePid fcf.hasSrcPanid destPid
    let srcAddr ← parseAddr fcf.srcAddrMode pf.srcAddr
    pure (srcPid, srcAddr)
  else pure (0, linkaddrNull)

/-- The destination PAN id after the source branch: a lone source PAN id stands for both. -/
def finalDestPid (fcf : Fcf) (destPid srcPid : UInt16) : UInt16 :=
  if fcf.srcAddrMode ≠ .noAddr ∧ fcf.hasSrcPanid ∧ ¬fcf.hasDestPanid then srcPid else destPid

/-- The fields of a header, read into `pf`. -/
def parseFields (pf : Frame) : Cursor UInt8 Frame := do
  let data₀ ← take
  let data₁ ← take
  let fcf := frame802154ParseFcf data₀ data₁
  let seq ← parseSeqno fcf pf
  let (destPid, destAddr) ← parseDest fcf pf
  let (srcPid, srcAddr) ← parseSrc fcf pf destPid
  pure { pf with destAddr, srcAddr, fcf, seq, srcPid, destPid := finalDestPid fcf destPid srcPid }

/-- `frame802154_parse` of a frame of `len` bytes into `pf`. -/
def frame802154Parse (len : ℕ) (pf : Frame) : Cursor UInt8 (ℕ × Frame) :=
  if len < 2 then pure (0, pf) else do
    let data ← here
    let pf ← parseFields pf
    let p ← here
    let c := p - data
    pure (if c > len then 0 else c, { pf with payload := p, payloadLen := len - c })

end ContikiMaster.Framer
