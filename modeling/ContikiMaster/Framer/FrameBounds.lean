import ContikiMaster.Framer.ElementWalk
import ContikiMaster.Framer.TschPacket

/-!
# What the frame parsers read

A frame is parsed in place, so every offset that is read must lie in it. The header parser
compares the lengths after it has read the header; the elements are walked behind it.
-/

namespace ContikiMaster.Framer

open Lib Lib.Cursor List

/-- The frame control field that stands at the offset `p`. -/
def fcfAt (mem : ℕ → UInt8) (p : ℕ) : Fcf := frame802154ParseFcf (mem p) (mem (p + 1))

/-- The bytes of an optional address with an optional PAN id before it. -/
def addrFieldLen (mode : AddrMode) (hasPanid : Bool) : ℕ :=
  if mode ≠ .noAddr then (if hasPanid then 2 else 0) + addrLen mode else 0

def Fcf.headerLen (fcf : Fcf) : ℕ :=
  2 + (if fcf.sequenceNumberSuppression then 0 else 1) +
    addrFieldLen fcf.destAddrMode fcf.hasDestPanid + addrFieldLen fcf.srcAddrMode fcf.hasSrcPanid

theorem sweeps_parseSeqno (fcf : Fcf) (pf : Frame) (mem : ℕ → UInt8) (p : ℕ) :
    Sweeps (parseSeqno fcf pf) mem p ∧
      next (parseSeqno fcf pf) mem p = p + if fcf.sequenceNumberSuppression then 0 else 1 := by
  rw [parseSeqno]
  split_ifs
  · exact ⟨sweeps_pure _ _ _, rfl⟩
  · exact ⟨sweeps_take _ _, rfl⟩

theorem sweeps_parsePid (present : Bool) (absent : UInt16) (mem : ℕ → UInt8) (p : ℕ) :
    Sweeps (parsePid present absent) mem p ∧
      next (parsePid present absent) mem p = p + if present then 2 else 0 := by
  cases present with
  | false => exact ⟨sweeps_pure _ _ _, rfl⟩
  | true =>
    refine ⟨⟨by simp [parsePid, peek16], ?_⟩, by simp [parsePid, peek16]⟩
    intro o
    simp only [parsePid, peek16, if_true, touched_bind, touched_peek, touched_skip, touched_pure,
      next_bind, next_peek, next_skip, next_pure, append_nil, mem_append,
      mem_singleton]
    omega

theorem sweeps_parseAddr (mode : AddrMode) (old : Addr8) (mem : ℕ → UInt8) (p : ℕ) :
    Sweeps (parseAddr mode old) mem p ∧ next (parseAddr mode old) mem p = p + addrLen mode := by
  cases mode with
  | noAddr => exact ⟨sweeps_pure _ _ _, rfl⟩
  | reserved => exact ⟨sweeps_pure _ _ _, rfl⟩
  | shortAddrMode =>
    refine ⟨⟨by simp [parseAddr], ?_⟩, by simp [parseAddr, addrLen]⟩
    intro o
    simp only [parseAddr, touched_bind, touched_peek, touched_skip, touched_pure, next_bind,
      next_peek, next_skip, next_pure, append_nil, mem_append, mem_singleton]
    omega
  | longAddrMode =>
    refine ⟨⟨by simp [parseAddr], ?_⟩, by simp [parseAddr, addrLen]⟩
    intro o
    simp only [parseAddr, touched_bind, touched_peekEach, touched_skip, touched_pure, next_bind,
      next_peekEach, next_skip, next_pure, append_nil, mem_ofFn]
    constructor
    · rintro ⟨c, rfl⟩
      omega
    · intro ho
      exact ⟨⟨7 - (o - p), by omega⟩, by simp only; omega⟩

theorem sweeps_parseDest (fcf : Fcf) (pf : Frame) (mem : ℕ → UInt8) (p : ℕ) :
    Sweeps (parseDest fcf pf) mem p ∧
      next (parseDest fcf pf) mem p = p + addrFieldLen fcf.destAddrMode fcf.hasDestPanid := by
  rw [parseDest, addrFieldLen]
  by_cases hmode : fcf.destAddrMode ≠ .noAddr
  · rw [if_pos hmode, if_pos hmode]
    obtain ⟨hpid, hpidNext⟩ := sweeps_parsePid fcf.hasDestPanid 0 mem p
    obtain ⟨haddr, haddrNext⟩ := sweeps_parseAddr fcf.destAddrMode pf.destAddr mem
      (next (parsePid fcf.hasDestPanid 0) mem p)
    refine ⟨hpid.bind (haddr.bind (sweeps_pure _ _ _)), ?_⟩
    rw [next_bind, next_bind, haddrNext, hpidNext, next_pure, Nat.add_assoc]
  · rw [if_neg hmode, if_neg hmode]
    exact ⟨sweeps_pure _ _ _, rfl⟩

theorem sweeps_parseSrc (fcf : Fcf) (pf : Frame) (destPid : UInt16) (mem : ℕ → UInt8) (p : ℕ) :
    Sweeps (parseSrc fcf pf destPid) mem p ∧
      next (parseSrc fcf pf destPid) mem p = p + addrFieldLen fcf.srcAddrMode fcf.hasSrcPanid := by
  rw [parseSrc, addrFieldLen]
  by_cases hmode : fcf.srcAddrMode ≠ .noAddr
  · rw [if_pos hmode, if_pos hmode]
    obtain ⟨hpid, hpidNext⟩ := sweeps_parsePid fcf.hasSrcPanid destPid mem p
    obtain ⟨haddr, haddrNext⟩ := sweeps_parseAddr fcf.srcAddrMode pf.srcAddr mem
      (next (parsePid fcf.hasSrcPanid destPid) mem p)
    refine ⟨hpid.bind (haddr.bind (sweeps_pure _ _ _)), ?_⟩
    rw [next_bind, next_bind, haddrNext, hpidNext, next_pure, Nat.add_assoc]
  · rw [if_neg hmode, if_neg hmode]
    exact ⟨sweeps_pure _ _ _, rfl⟩

theorem sweeps_parseFields (pf : Frame) (mem : ℕ → UInt8) (p : ℕ) : Sweeps (parseFields pf) mem p ∧
      next (parseFields pf) mem p = p + (fcfAt mem p).headerLen ∧
      (value (parseFields pf) mem p).fcf = fcfAt mem p := by
  obtain ⟨hseqno, hseqnoNext⟩ := sweeps_parseSeqno (fcfAt mem p) pf mem (p + 1 + 1)
  obtain ⟨hdest, hdestNext⟩ := sweeps_parseDest (fcfAt mem p) pf mem
    (next (parseSeqno (fcfAt mem p) pf) mem (p + 1 + 1))
  obtain ⟨hsrc, hsrcNext⟩ := sweeps_parseSrc (fcfAt mem p) pf
    (value (parseDest (fcfAt mem p) pf) mem
      (next (parseSeqno (fcfAt mem p) pf) mem (p + 1 + 1))).1 mem
    (next (parseDest (fcfAt mem p) pf) mem (next (parseSeqno (fcfAt mem p) pf) mem (p + 1 + 1)))
  refine ⟨?_, ?_, rfl⟩
  · apply (sweeps_take mem p).bind
    apply (sweeps_take mem (p + 1)).bind
    exact hseqno.bind (hdest.bind (hsrc.bind (sweeps_pure _ _ _)))
  · apply hsrcNext.trans
    rw [hdestNext, hseqnoNext, Fcf.headerLen]
    omega

theorem two_le_headerLen {fcf : Fcf} : 2 ≤ fcf.headerLen := by
  rw [Fcf.headerLen]
  omega

variable {len o : ℕ} {mem : ℕ → UInt8}

theorem staysBelow_parse (hlen : 2 ≤ len) (pf : Frame) (mem : ℕ → UInt8) :
    (StaysBelow len (frame802154Parse len pf) mem 0 ↔ (fcfAt mem 0).headerLen ≤ len) ∧
      (value (frame802154Parse len pf) mem 0).1 =
        (if (fcfAt mem 0).headerLen > len then 0 else (fcfAt mem 0).headerLen) ∧
      next (frame802154Parse len pf) mem 0 = (fcfAt mem 0).headerLen := by
  obtain ⟨hsweeps, hnext, -⟩ := sweeps_parseFields pf mem 0
  rw [Nat.zero_add] at hnext
  have hbelow := hsweeps.staysBelow_iff (Nat.zero_le len)
  rw [hnext] at hbelow
  simp only [frame802154Parse, if_neg (Nat.not_lt.mpr hlen)]
  refine ⟨?_, ?_, ?_⟩
  · rw [← hbelow]
    simp [StaysBelow]
  · change (if next (parseFields pf) mem 0 - 0 > len then 0
      else next (parseFields pf) mem 0 - 0) = _
    rw [Nat.sub_zero, hnext]
  · exact hnext

/-! ## The frame parsers -/

/-- A frame parser, run for enough turns of its loop, ends, reads the `len` bytes of the frame
alone, and returns a failure or a length within the frame. -/
def InFrame (parser : ℕ → Cursor UInt8 (Option ParsedPacket)) (mem : ℕ → UInt8) (len o : ℕ) :
    Prop :=
  ∃ fuel packet, value (parser fuel) mem o = some packet ∧ StaysBelow len (parser fuel) mem o ∧
    packet.ret ≤ len

/-- The header fits into the frame, and so does the list of elements behind it where the header
passes the parser's checks. -/
def FrameInside (conf : PacketConf) (mem : ℕ → UInt8) (len : ℕ) (checked : Prop) : Prop :=
  2 ≤ len → (fcfAt mem 0).headerLen ≤ len ∧
    (checked → (fcfAt mem 0).ieListPresent = true →
      StaysInFrame conf mem
        ⟨(fcfAt mem 0).headerLen, len - (fcfAt mem 0).headerLen, .headerIe, 0⟩)

/-- The checks of `tsch_packet_parse_eb` before it looks at the elements. -/
def EbChecked (mem : ℕ → UInt8) : Prop :=
  ieee802154_2015 ≤ (fcfAt mem 0).frameVersion ∧ (fcfAt mem 0).frameType = beaconFrame

/-- The checks of `tsch_packet_parse_eack` before it looks at the elements, on the header that
stands in the frame. -/
def EackChecked (macPanId : UInt16) (nodeAddr : Addr8) (seqno : UInt8) (frame : Frame)
    (mem : ℕ → UInt8) : Prop :=
  let header := value (parseFields frame) mem 0
  3 ≤ (fcfAt mem 0).headerLen ∧ seqno = header.seq ∧
    frame802154CheckDestPanid macPanId header = true ∧
    ∃ source dest, frame802154ExtractLinkaddr header = some (source, dest) ∧
      (dest = nodeAddr ∨ dest = linkaddrNull)

theorem inFrame_of_returns {parser : ℕ → Cursor UInt8 (Option ParsedPacket)}
    {packet : ParsedPacket} (hparser : ∀ fuel, parser fuel = pure (some packet))
    (hret : packet.ret ≤ len) : InFrame parser mem len o := by
  refine ⟨0, packet, ?_, ?_, hret⟩
  · rw [hparser, value_pure]
  · rw [hparser]
    exact staysBelow_pure _ _ _

theorem inFrame_bind {α : Type} {x : Cursor UInt8 α}
    {f : ℕ → α → Cursor UInt8 (Option ParsedPacket)} :
    InFrame (fun fuel ↦ x >>= f fuel) mem len o ↔
      StaysBelow len x mem o ∧ InFrame (fun fuel ↦ f fuel (value x mem o)) mem len (next x mem o) := by
  simp only [InFrame, value_bind, staysBelow_bind]
  constructor
  · rintro ⟨fuel, packet, hvalue, ⟨hbelow, hrest⟩, hret⟩
    exact ⟨hbelow, fuel, packet, hvalue, hrest, hret⟩
  · rintro ⟨hbelow, fuel, packet, hvalue, hrest, hret⟩
    exact ⟨fuel, packet, hvalue, ⟨hbelow, hrest⟩, hret⟩

theorem inFrame_parsePacketIes (conf : PacketConf) (mem : ℕ → UInt8) {ret : ℕ} (hlen : len ≤ 127)
    (hret : ret ≤ len) (frame : Frame) (ies : Ies) :
    InFrame (fun fuel ↦ parsePacketIes conf fuel len ret frame ies) mem len ret ↔
      (frame.fcf.ieListPresent = true → StaysInFrame conf mem ⟨ret, len - ret, .headerIe, 0⟩) := by
  have hend : ret + (len - ret) = len := by omega
  have hat : IeParser.At ⟨(len - ret) % 256, .headerIe, 0, { ies with payloadIeOffset := 0 }⟩
      ⟨ret, len - ret, .headerIe, 0⟩ := ⟨Nat.mod_eq_of_lt (by omega), rfl, rfl⟩
  cases hies : frame.fcf.ieListPresent with
  | false =>
    simp only [Bool.false_eq_true, false_implies, iff_true]
    apply inFrame_of_returns (fun fuel ↦ by rw [parsePacketIes, hies]; rfl)
    simp only
    omega
  | true =>
    simp only [forall_const]
    constructor
    · rintro ⟨fuel, packet, hvalue, hbelow, -⟩ pos' hpath hover
      simp only [parsePacketIes, hies, if_true] at hvalue hbelow
      cases hloop : value (frame802154eParseInformationElements conf fuel (len - ret) ies) mem ret with
      | none =>
        rw [value_bind, hloop] at hvalue
        simp at hvalue
      | some res =>
        apply not_staysBelow_of_overruns hpath hover hat le_rfl (by simp only; omega) hloop
        rw [hend]
        exact (staysBelow_bind.mp hbelow).1
    · intro hstays
      obtain ⟨fuel, ⟨ret', ies'⟩, hres, hbelow, hlength⟩ :=
        @ieLoop_staysBelow _ ret _ _ _ hstays hat le_rfl (by simp only; omega)
      have hvalue : value (frame802154eParseInformationElements conf fuel (len - ret) ies) mem ret =
          some (ret', ies') := hres
      simp only [hend] at hbelow hlength
      refine ⟨fuel, ?_⟩
      simp only [parsePacketIes, hies, if_true, value_bind, staysBelow_bind, hvalue]
      cases ret' with
      | none => exact ⟨_, rfl, ⟨hbelow, staysBelow_pure _ _ _⟩, Nat.zero_le len⟩
      | some k => exact ⟨_, rfl, ⟨hbelow, staysBelow_pure _ _ _⟩, hlength k rfl⟩

theorem parse_inFrame (hlen : 2 ≤ len) (hle : (fcfAt mem 0).headerLen ≤ len) (frame : Frame) :
    ∃ payload payloadLen, value (frame802154Parse len frame) mem 0 = ((fcfAt mem 0).headerLen,
        { value (parseFields frame) mem 0 with payload, payloadLen }) := by
  obtain ⟨-, hnext, -⟩ := sweeps_parseFields frame mem 0
  have hsub : next (parseFields frame) mem 0 - 0 = (fcfAt mem 0).headerLen := by
    rw [hnext]
    omega
  refine ⟨next (parseFields frame) mem 0, len - (fcfAt mem 0).headerLen, ?_⟩
  rw [frame802154Parse, if_neg (Nat.not_lt.mpr hlen)]
  simp only [value_bind, value_here, next_here, value_pure, hsub, if_neg (Nat.not_lt.mpr hle)]

theorem inFrame_header {frame : Frame} {checked : Prop} {conf : PacketConf}
    {f : ℕ → ℕ × Frame → Cursor UInt8 (Option ParsedPacket)}
    (hshort : InFrame (fun fuel ↦ f fuel (0, frame)) mem len 0)
    (hrest : 2 ≤ len → (fcfAt mem 0).headerLen ≤ len → ∀ payload payloadLen,
      InFrame (fun fuel ↦ f fuel ((fcfAt mem 0).headerLen,
          { value (parseFields frame) mem 0 with payload, payloadLen })) mem len
            (fcfAt mem 0).headerLen ↔
        (checked → (fcfAt mem 0).ieListPresent = true → StaysInFrame conf mem
          ⟨(fcfAt mem 0).headerLen, len - (fcfAt mem 0).headerLen, .headerIe, 0⟩)) :
    InFrame (fun fuel ↦ frame802154Parse len frame >>= f fuel) mem len 0 ↔
      FrameInside conf mem len checked := by
  rw [inFrame_bind, FrameInside]
  by_cases hlen : 2 ≤ len
  · obtain ⟨hbelow, -, hnext⟩ := staysBelow_parse hlen frame mem
    rw [hbelow, hnext]
    simp only [hlen, true_implies]
    by_cases hle : (fcfAt mem 0).headerLen ≤ len
    · obtain ⟨payload, payloadLen, hvalue⟩ := parse_inFrame hlen hle frame
      rw [hvalue, hrest hlen hle]
    · simp only [hle, false_and]
  · have hparse : frame802154Parse len frame = pure (0, frame) := by
      rw [frame802154Parse, if_pos (Nat.lt_of_not_le hlen)]
    simp only [hparse, hlen, false_implies, iff_true]
    exact ⟨staysBelow_pure _ _ _, hshort⟩

theorem ebInFrame_iff (conf : PacketConf) (mem : ℕ → UInt8) (hlen : len ≤ 127) (frame : Frame)
    (ies : Ies) :
    InFrame (fun fuel ↦ tschPacketParseEb conf fuel len frame ies) mem len 0 ↔
      FrameInside conf mem len (EbChecked mem) := by
  apply inFrame_header
  · exact inFrame_of_returns (fun fuel ↦ rfl) (Nat.zero_le len)
  · intro htwo hle payload payloadLen
    have hfcf := (sweeps_parseFields frame mem 0).2.2
    have hpos : (fcfAt mem 0).headerLen ≠ 0 := by
      have htwo := @two_le_headerLen (fcfAt mem 0)
      omega
    simp only [if_neg hpos, hfcf]
    by_cases hchecked : EbChecked mem
    · have hpass : ¬((fcfAt mem 0).frameVersion < ieee802154_2015 ∨
          (fcfAt mem 0).frameType ≠ beaconFrame) := by
        rintro (hversion | htype)
        · exact absurd hchecked.1 (not_le.mpr hversion)
        · exact htype hchecked.2
      simp only [if_neg hpass, hchecked, true_implies]
      exact inFrame_parsePacketIes conf mem hlen hle _ _
    · have hfail : (fcfAt mem 0).frameVersion < ieee802154_2015 ∨
          (fcfAt mem 0).frameType ≠ beaconFrame := by
        by_contra hpass
        push Not at hpass
        exact hchecked hpass
      simp only [if_pos hfail, hchecked, false_implies, iff_true]
      exact inFrame_of_returns (fun fuel ↦ rfl) (Nat.zero_le len)

theorem eackInFrame_iff (conf : PacketConf) (macPanId : UInt16) (nodeAddr : Addr8) (seqno : UInt8)
    (mem : ℕ → UInt8) (hlen : len ≤ 127) (frame : Frame) (ies : Ies) :
    InFrame (fun fuel ↦ tschPacketParseEack conf macPanId nodeAddr fuel len seqno frame ies) mem
        len 0 ↔ FrameInside conf mem len (EackChecked macPanId nodeAddr seqno frame mem) := by
  apply inFrame_header
  · exact inFrame_of_returns (fun fuel ↦ rfl) (Nat.zero_le len)
  · intro htwo hle payload payloadLen
    have hfcf := (sweeps_parseFields frame mem 0).2.2
    by_cases hthree : (fcfAt mem 0).headerLen < 3
    · have hnot : ¬EackChecked macPanId nodeAddr seqno frame mem :=
        fun hchecked ↦ absurd hchecked.1 (Nat.not_le.mpr hthree)
      simp only [if_pos hthree, hnot, false_implies, iff_true]
      exact inFrame_of_returns (fun fuel ↦ rfl) (Nat.zero_le len)
    by_cases hseqno : seqno = (value (parseFields frame) mem 0).seq
    swap
    · have hnot : ¬EackChecked macPanId nodeAddr seqno frame mem :=
        fun hchecked ↦ hseqno hchecked.2.1
      simp only [if_neg hthree, if_pos hseqno, hnot, false_implies, iff_true]
      exact inFrame_of_returns (fun fuel ↦ rfl) (Nat.zero_le len)
    -- neither check looks at the payload of the parsed frame
    have hpanid : frame802154CheckDestPanid macPanId
        { value (parseFields frame) mem 0 with payload, payloadLen } =
        frame802154CheckDestPanid macPanId (value (parseFields frame) mem 0) := rfl
    have haddr : frame802154ExtractLinkaddr
        { value (parseFields frame) mem 0 with payload, payloadLen } =
        frame802154ExtractLinkaddr (value (parseFields frame) mem 0) := rfl
    simp only [if_neg hthree, if_neg (not_not_intro hseqno), hpanid, haddr]
    by_cases hpid : frame802154CheckDestPanid macPanId (value (parseFields frame) mem 0) = true
    swap
    · have hnot : ¬EackChecked macPanId nodeAddr seqno frame mem :=
        fun hchecked ↦ hpid hchecked.2.2.1
      simp only [if_pos hpid, hnot, false_implies, iff_true]
      exact inFrame_of_returns (fun fuel ↦ rfl) (Nat.zero_le len)
    simp only [if_neg (not_not_intro hpid)]
    cases hextract : frame802154ExtractLinkaddr (value (parseFields frame) mem 0) with
    | none =>
      have hnot : ¬EackChecked macPanId nodeAddr seqno frame mem := by
        rintro ⟨-, -, -, source, dest, hsome, -⟩
        rw [hextract] at hsome
        simp at hsome
      simp only [hnot, false_implies, iff_true]
      exact inFrame_of_returns (fun fuel ↦ rfl) (Nat.zero_le len)
    | some addrs =>
      obtain ⟨source, dest⟩ := addrs
      by_cases hdest : dest = nodeAddr ∨ dest = linkaddrNull
      · have hchecked : EackChecked macPanId nodeAddr seqno frame mem :=
          ⟨Nat.le_of_not_lt hthree, hseqno, hpid, source, dest, hextract, hdest⟩
        have hpass : ¬(dest ≠ nodeAddr ∧ dest ≠ linkaddrNull) :=
          fun hfail ↦ hdest.elim hfail.1 hfail.2
        simp only [if_neg hpass, hchecked, true_implies]
        rw [← hfcf]
        exact inFrame_parsePacketIes conf mem hlen hle _ _
      · have hnot : ¬EackChecked macPanId nodeAddr seqno frame mem := by
          rintro ⟨-, -, -, source', dest', hsome, hdest'⟩
          rw [hextract] at hsome
          simp only [Option.some.injEq, Prod.mk.injEq] at hsome
          rw [← hsome.2] at hdest'
          exact hdest hdest'
        simp only [if_pos (not_or.mp hdest), hnot, false_implies, iff_true]
        exact inFrame_of_returns (fun fuel ↦ rfl) (Nat.zero_le len)

/-- Both frame parsers end, read the frame alone and return a failure or a length within it exactly
when the header fits and no element behind an accepted header leads out of the frame. -/
theorem parsers_inFrame_iff (conf : PacketConf) (macPanId : UInt16) (nodeAddr : Addr8)
    (seqno : UInt8) (mem : ℕ → UInt8) {len : ℕ} (hlen : len ≤ 127) (frame : Frame) (ies : Ies) :
    (InFrame (fun fuel ↦ tschPacketParseEb conf fuel len frame ies) mem len 0 ↔
      FrameInside conf mem len (EbChecked mem)) ∧
    (InFrame (fun fuel ↦ tschPacketParseEack conf macPanId nodeAddr fuel len seqno frame ies) mem
        len 0 ↔
      FrameInside conf mem len (EackChecked macPanId nodeAddr seqno frame mem)) :=
  ⟨ebInFrame_iff conf mem hlen frame ies,
    eackInFrame_iff conf macPanId nodeAddr seqno mem hlen frame ies⟩

def plainConf : PacketConf := ⟨false, false, false, false, false, true, false⟩

theorem parsers_inFrame_iff_header :
    (InFrame (fun fuel ↦ tschPacketParseEb plainConf fuel 2 Frame.zero Ies.zero) (fun _ ↦ 0) 2 0 ↔
      FrameInside plainConf (fun _ ↦ 0) 2 (EbChecked fun _ ↦ 0)) ∧
    (InFrame (fun fuel ↦ tschPacketParseEack plainConf 0xabcd (fun _ ↦ 9) fuel 2 1 Frame.zero
        Ies.zero) (fun _ ↦ 0) 2 0 ↔
      FrameInside plainConf (fun _ ↦ 0) 2
        (EackChecked 0xabcd (fun _ ↦ 9) 1 Frame.zero fun _ ↦ 0)) :=
  parsers_inFrame_iff plainConf 0xabcd (fun _ ↦ 9) 1 (fun _ ↦ 0) (by decide) Frame.zero Ies.zero

/-- The beacon that `tsch_packet_create_eb` builds on node 9 of the PAN `0xabcd` without optional
elements. -/
def plainBeacon : List UInt8 :=
  [0x40, 0xeb, 0xcd, 0xab, 0xff, 0xff, 9, 9, 9, 9, 9, 9, 9, 9, 0x00, 0x3f, 0x11, 0x88, 0x06, 0x1a,
    0, 0, 0, 0, 0, 0, 0x01, 0x1c, 0, 0x01, 0xc8, 0, 0x01, 0x1b, 0]

/-- Parsing the node's own plain beacon reads behind the beacon, and so does parsing a frame of two
zero bytes as an acknowledgement. -/
theorem not_inFrame_plainBeacon :
    (tschPacketCreateEb plainConf 0xabcd 1 (fun _ ↦ 9) ⟨fun _ ↦ 0, 4, fun _ ↦ 20, none, 1⟩).map
        Prod.fst = some plainBeacon ∧
      ¬InFrame (fun fuel ↦ tschPacketParseEb plainConf fuel 35 Frame.zero Ies.zero)
        (fun i ↦ plainBeacon.getD i 0) 35 0 ∧
      ¬InFrame (fun fuel ↦ tschPacketParseEack plainConf 0xabcd (fun _ ↦ 9) fuel 2 1 Frame.zero
        Ies.zero) (fun _ ↦ 0) 2 0 := by
  refine ⟨by decide, ?_, ?_⟩
  · rw [ebInFrame_iff plainConf _ (by decide)]
    intro hinside
    have hstays := (hinside (by decide)).2 (by unfold EbChecked; decide) (by decide)
    -- header termination, MLME, synchronization, timeslot, hopping sequence
    have h₁ : WalksTo plainConf (fun i ↦ plainBeacon.getD i 0) ⟨14, 21, .headerIe, 0⟩
        ⟨16, 19, .payloadIe, 0⟩ := rfl
    have h₂ : WalksTo plainConf (fun i ↦ plainBeacon.getD i 0) ⟨16, 19, .payloadIe, 0⟩
        ⟨18, 17, .mlmeSubie, 17⟩ := rfl
    have h₃ : WalksTo plainConf (fun i ↦ plainBeacon.getD i 0) ⟨18, 17, .mlmeSubie, 17⟩
        ⟨26, 9, .mlmeSubie, 9⟩ := rfl
    have h₄ : WalksTo plainConf (fun i ↦ plainBeacon.getD i 0) ⟨26, 9, .mlmeSubie, 9⟩
        ⟨29, 6, .mlmeSubie, 6⟩ := rfl
    have h₅ : WalksTo plainConf (fun i ↦ plainBeacon.getD i 0) ⟨29, 6, .mlmeSubie, 6⟩
        ⟨32, 3, .mlmeSubie, 3⟩ := rfl
    have hpath := Relation.ReflTransGen.head h₁
      (.head h₂ (.head h₃ (.head h₄ (.head h₅ .refl))))
    apply hstays _ hpath
    exact ⟨by decide, by decide, by decide⟩
  · rw [eackInFrame_iff plainConf _ _ _ _ (by decide)]
    intro hinside
    exact absurd (hinside (by decide)).1 (by decide)

end ContikiMaster.Framer
