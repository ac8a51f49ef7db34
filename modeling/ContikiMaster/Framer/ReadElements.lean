import ContikiMaster.Framer.FrameBounds
import ContikiMaster.Lib.Latest

/-!
# The sub-elements a beacon is made of

The sub-elements of the MLME element in the order in which the loop reads them, and what that
makes of the hopping sequence and the timeslot: later ones overwrite earlier ones, and a hopping
sequence is copied only where the two lengths agree.
-/

namespace ContikiMaster.Framer

open Lib Lib.Cursor Option

/-- A sub-element of the MLME element; `content` is the offset of its content. -/
structure MlmeSubie where
  long : Bool
  id : ℕ
  len : ℕ
  content : ℕ
  deriving DecidableEq

namespace MlmeSubie

variable (mem : ℕ → UInt8) (ie : MlmeSubie)

def isHopping : Bool := ie.long && ie.id == mlmeLongIeChannelHoppingSequence

/-- A channel hopping sequence that is more than its identifier. -/
def announces : Bool := ie.isHopping && decide (1 < ie.len)

/-- The number of channels a hopping sequence announces. -/
def hoppingLen : UInt16 := word (mem (ie.content + 8)) (mem (ie.content + 9))

/-- The number announced is a number of channels that fits, and the length is that of the list. -/
def lists : Bool :=
  ie.announces && decide ((ie.hoppingLen mem).toNat ≤ tschHoppingSequenceMaxLen ∧
    ie.len = 12 + (ie.hoppingLen mem).toNat)

def channel (k : ℕ) : UInt8 := mem (ie.content + (10 + k))

def isTimeslot : Bool := !ie.long && ie.id == mlmeShortIeTimeslot

def hasTiming : Bool := ie.isTimeslot && ie.len == 25

def timing : Fin tschTsElementsCount → UInt16 :=
  fun i ↦ word (mem (ie.content + (1 + 2 * i))) (mem (ie.content + (1 + 2 * i + 1)))

end MlmeSubie

/-- What the elements hold of the hopping sequence and the timeslot. -/
structure SlotParams where
  channelHoppingSequenceId : UInt8
  hoppingSequenceLen : UInt16
  hoppingSequenceList : Fin tschHoppingSequenceMaxLen → UInt8
  timeslotId : UInt8
  timeslot : Fin tschTsElementsCount → UInt16

def Ies.slotParams (ies : Ies) : SlotParams where
  channelHoppingSequenceId := ies.channelHoppingSequenceId
  hoppingSequenceLen := ies.hoppingSequenceLen
  hoppingSequenceList := ies.hoppingSequenceList
  timeslotId := ies.timeslotId
  timeslot := ies.timeslot

/-- What a sub-element makes of the parameters. -/
def SlotParams.read (mem : ℕ → UInt8) (params : SlotParams) (ie : MlmeSubie) : SlotParams where
  channelHoppingSequenceId := if ie.isHopping then mem ie.content
    else params.channelHoppingSequenceId
  hoppingSequenceLen := if ie.announces then ie.hoppingLen mem else params.hoppingSequenceLen
  hoppingSequenceList := fun i ↦
    if ie.lists mem && decide (i.val < (ie.hoppingLen mem).toNat) then ie.channel mem i
    else params.hoppingSequenceList i
  timeslotId := if ie.isTimeslot then mem ie.content else params.timeslotId
  timeslot := if ie.hasTiming then ie.timing mem else params.timeslot

/-- The sub-element in front of the loop, if it walks the MLME element. -/
def subieAt (mem : ℕ → UInt8) (s : IeParser) (o : ℕ) : List MlmeSubie :=
  if s.parsingState = .mlmeSubie then
    [⟨descriptorAt mem o / 32768 = 1, descriptorId .mlmeSubie (descriptorAt mem o),
      descriptorLen .mlmeSubie (descriptorAt mem o), o + 2⟩]
  else []

/-- The sub-elements that the loop reads, for at most `fuel` turns. -/
def mlmeSubies (conf : PacketConf) (start : ℕ) (mem : ℕ → UInt8) :
    ℕ → IeParser → ℕ → List MlmeSubie
  | 0, _, _ => []
  | fuel + 1, s, o =>
    if s.bufSize = 0 then []
    else
      match value (ieTurn conf start s) mem o with
      | .returns _ _ => []
      | .goesOn s' =>
        subieAt mem s o ++ mlmeSubies conf start mem fuel s' (next (ieTurn conf start s) mem o)

/-! ## Readers -/

section Readers

variable {mem : ℕ → UInt8} {p len id : ℕ} {ies ies' : Ies}

theorem slotParams_headerIe (hread : value (parseHeaderIe len id ies) mem p = some ies') :
    ies'.slotParams = ies.slotParams := by
  rw [parseHeaderIe] at hread
  split_ifs at hread with haccepts
  · change some _ = some ies' at hread
    rw [← some.inj hread]
    rfl
  · cases hread

theorem hasTiming_long : (MlmeSubie.mk true id len p).hasTiming = false := rfl

theorem slotParams_long (hread : value (parseMlmeLongIe len id ies) mem p = some ies') :
    ies'.slotParams = ies.slotParams.read mem ⟨true, id, len, p⟩ := by
  rw [parseMlmeLongIe] at hread
  by_cases haccepts : id = mlmeLongIeChannelHoppingSequence ∧ len > 0
  · have hhopping : (MlmeSubie.mk true id len p).isHopping = true := by
      simp [MlmeSubie.isHopping, haccepts.1]
    have htimeslot : (MlmeSubie.mk true id len p).isTimeslot = false := rfl
    rw [if_pos haccepts, value_bind] at hread
    by_cases hlong : len > 1
    · have hannounces : (MlmeSubie.mk true id len p).announces = true := by
        simp [MlmeSubie.announces, hhopping, hlong]
      rw [if_pos hlong, value_bind] at hread
      by_cases hlist : (word (mem (p + 8)) (mem (p + 9))).toNat ≤ tschHoppingSequenceMaxLen ∧
          len = 12 + (word (mem (p + 8)) (mem (p + 9))).toNat
      · have hlists : (MlmeSubie.mk true id len p).lists mem = true := by
          simp only [MlmeSubie.lists, hannounces, Bool.true_and, decide_eq_true_eq]
          exact hlist
        change value (if (word (mem (p + 8)) (mem (p + 9))).toNat ≤ tschHoppingSequenceMaxLen ∧
          len = 12 + (word (mem (p + 8)) (mem (p + 9))).toNat then _ else _) mem p = _ at hread
        rw [if_pos hlist] at hread
        change some { ies with
          channelHoppingSequenceId := mem p
          hoppingSequenceLen := word (mem (p + 8)) (mem (p + 9))
          hoppingSequenceList := fun i : Fin tschHoppingSequenceMaxLen ↦
            if _ : i.val < (word (mem (p + 8)) (mem (p + 9))).toNat then mem (p + (10 + i.val))
            else ies.hoppingSequenceList i } = some ies' at hread
        rw [← some.inj hread, SlotParams.read]
        simp only [hhopping, hannounces, hlists, htimeslot, hasTiming_long, if_true, Bool.true_and,
          decide_eq_true_eq]
        rfl
      · have hlists : (MlmeSubie.mk true id len p).lists mem = false := by
          simp only [MlmeSubie.lists, hannounces, Bool.true_and, decide_eq_false_iff_not]
          exact hlist
        change value (if (word (mem (p + 8)) (mem (p + 9))).toNat ≤ tschHoppingSequenceMaxLen ∧
          len = 12 + (word (mem (p + 8)) (mem (p + 9))).toNat then _ else _) mem p = _ at hread
        rw [if_neg hlist] at hread
        change some { ies with
          channelHoppingSequenceId := mem p
          hoppingSequenceLen := word (mem (p + 8)) (mem (p + 9)) } = some ies' at hread
        rw [← some.inj hread, SlotParams.read]
        simp only [hhopping, hannounces, hlists, htimeslot, hasTiming_long, if_true, if_false,
          Bool.false_and, Bool.false_eq_true]
        rfl
    · have hannounces : (MlmeSubie.mk true id len p).announces = false := by
        simp [MlmeSubie.announces, hhopping, Nat.le_of_not_lt hlong]
      have hlists : (MlmeSubie.mk true id len p).lists mem = false := by
        simp [MlmeSubie.lists, hannounces]
      rw [if_neg hlong] at hread
      change some { ies with channelHoppingSequenceId := mem p } = some ies' at hread
      rw [← some.inj hread, SlotParams.read]
      simp only [hhopping, hannounces, hlists, htimeslot, hasTiming_long, if_true, if_false,
        Bool.false_and, Bool.false_eq_true]
      rfl
  · rw [if_neg haccepts] at hread
    cases hread

theorem slotParams_slotframeAndLink
    (hread : value (parseSlotframeAndLinkIe len ies) mem p = some ies') :
    ies'.slotParams = ies.slotParams := by
  rw [parseSlotframeAndLinkIe] at hread
  split_ifs at hread
  · rw [value_bind, value_bind] at hread
    split_ifs at hread
    · rw [← some.inj hread]
    · rw [value_bind] at hread
      rw [← some.inj hread]
      rfl
    · cases hread
  · cases hread

theorem slotParams_synchronization
    (hread : value (parseSynchronizationIe len ies) mem p = some ies') :
    ies'.slotParams = ies.slotParams := by
  rw [parseSynchronizationIe] at hread
  split_ifs at hread
  · rw [← some.inj hread]
    rfl
  · cases hread

theorem slotParams_neighborDiscovery
    (hread : value (parseNeighborDiscoveryIe len ies) mem p = some ies') :
    ies'.slotParams = ies.slotParams := by
  rw [parseNeighborDiscoveryIe] at hread
  split_ifs at hread
  · rw [← some.inj hread]
    rfl
  · cases hread

theorem slotParams_timeslot (hread : value (parseTimeslotIe len ies) mem p = some ies') :
    ies'.slotParams = ies.slotParams.read mem ⟨false, mlmeShortIeTimeslot, len, p⟩ := by
  have hhopping : (MlmeSubie.mk false mlmeShortIeTimeslot len p).isHopping = false := rfl
  have hannounces : (MlmeSubie.mk false mlmeShortIeTimeslot len p).announces = false := rfl
  have hlists : (MlmeSubie.mk false mlmeShortIeTimeslot len p).lists mem = false := rfl
  have htimeslot : (MlmeSubie.mk false mlmeShortIeTimeslot len p).isTimeslot = true := rfl
  rw [parseTimeslotIe] at hread
  split_ifs at hread with hlen hfull
  · have htiming : (MlmeSubie.mk false mlmeShortIeTimeslot len p).hasTiming = true := by
      rw [hfull]
      rfl
    rw [← some.inj hread, SlotParams.read]
    simp only [hhopping, hannounces, hlists, htimeslot, htiming, if_true, Bool.false_and,
      Bool.false_eq_true, if_false]
    rfl
  · have htiming : (MlmeSubie.mk false mlmeShortIeTimeslot len p).hasTiming = false := by
      simp [MlmeSubie.hasTiming, hfull]
    rw [← some.inj hread, SlotParams.read]
    simp only [hhopping, hannounces, hlists, htimeslot, htiming, if_true, Bool.false_and,
      Bool.false_eq_true, if_false]
    rfl
  · cases hread

theorem read_other {ie : MlmeSubie} (hlong : ie.long = false) (hid : ie.id ≠ mlmeShortIeTimeslot)
    (params : SlotParams) : params.read mem ie = params := by
  have hhopping : ie.isHopping = false := by simp [MlmeSubie.isHopping, hlong]
  have hannounces : ie.announces = false := by simp [MlmeSubie.announces, hhopping]
  have hlists : ie.lists mem = false := by simp [MlmeSubie.lists, hannounces]
  have htimeslot : ie.isTimeslot = false := by simp [MlmeSubie.isTimeslot, hid]
  have htiming : ie.hasTiming = false := by simp [MlmeSubie.hasTiming, htimeslot]
  simp [SlotParams.read, hhopping, hannounces, hlists, htimeslot, htiming]

theorem slotParams_short {conf : PacketConf}
    (hread : value (parseMlmeShortIe conf len id ies) mem p = some ies') :
    ies'.slotParams = ies.slotParams.read mem ⟨false, id, len, p⟩ := by
  rw [parseMlmeShortIe] at hread
  split_ifs at hread with hslotframe hsync htimeslot hdiscovery
  · have hother : id ≠ mlmeShortIeTimeslot := by
      rw [hslotframe]
      decide
    rw [read_other rfl hother]
    exact slotParams_slotframeAndLink hread
  · have hother : id ≠ mlmeShortIeTimeslot := by
      rw [hsync]
      decide
    rw [read_other rfl hother]
    exact slotParams_synchronization hread
  · rw [htimeslot]
    exact slotParams_timeslot hread
  · rw [read_other rfl htimeslot]
    exact slotParams_neighborDiscovery hread
  · cases hread

end Readers

section Turns

variable {conf : PacketConf} {start o : ℕ} {mem : ℕ → UInt8} {s s' : IeParser}

/-- A turn that goes on leaves the parameters `next`, one that returns a length leaves `params`. -/
def IeTurn.Leaves (params next : SlotParams) : IeTurn → Prop
  | .returns none _ => True
  | .returns (some _) ies => ies.slotParams = params
  | .goesOn s => s.ies.slotParams = next

theorem leaves_headerIeTurn (desc : ℕ) :
    (value (headerIeTurn start desc s) mem o).Leaves s.ies.slotParams s.ies.slotParams := by
  rw [headerIeTurn]
  dsimp only
  split_ifs
  · trivial
  · exact rfl
  · trivial
  · exact rfl
  · trivial
  · trivial
  · rw [value_bind]
    cases hread : value (parseHeaderIe (desc % 128) (desc / 128 % 256) s.ies) mem o with
    | none => trivial
    | some ies => exact slotParams_headerIe hread

theorem leaves_payloadIeTurn (desc : ℕ) :
    (value (payloadIeTurn conf start desc s) mem o).Leaves s.ies.slotParams s.ies.slotParams := by
  rw [payloadIeTurn]
  dsimp only
  split_ifs with hpayload hmlme hsixtop
  · trivial
  · exact rfl
  · change (if mem (o + 0) = ietfIe6top then _ else s.ies).slotParams = _
    split_ifs <;> rfl
  · exact rfl
  · trivial
  · trivial

theorem slotParams_subie {long : Prop} [Decidable long] {len id : ℕ} {ies ies' : Ies}
    (hread : value (if long then parseMlmeLongIe len id ies else parseMlmeShortIe conf len id ies)
      mem o = some ies') : ies'.slotParams = ies.slotParams.read mem ⟨long, id, len, o⟩ := by
  by_cases hlong : long
  · rw [if_pos hlong] at hread
    simp only [hlong, decide_true]
    exact slotParams_long hread
  · rw [if_neg hlong] at hread
    simp only [hlong, decide_false]
    exact slotParams_short hread

theorem leaves_mlmeSubieTurn (desc : ℕ) :
    (value (mlmeSubieTurn conf desc s) mem o).Leaves s.ies.slotParams
      (s.ies.slotParams.read mem ⟨desc / 32768 = 1, descriptorId .mlmeSubie desc,
        descriptorLen .mlmeSubie desc, o⟩) := by
  rw [mlmeSubieTurn]
  change IeTurn.Leaves _ _ (value (if descriptorLen .mlmeSubie desc > s.bufSize then _ else
    (if desc / 32768 = 1 then
      parseMlmeLongIe (descriptorLen .mlmeSubie desc) (descriptorId .mlmeSubie desc) s.ies
    else parseMlmeShortIe conf (descriptorLen .mlmeSubie desc) (descriptorId .mlmeSubie desc)
      s.ies) >>= _) mem o)
  by_cases hover : descriptorLen .mlmeSubie desc > s.bufSize
  · rw [if_pos hover]
    trivial
  · rw [if_neg hover, value_bind]
    cases hread : value (if desc / 32768 = 1 then
        parseMlmeLongIe (descriptorLen .mlmeSubie desc) (descriptorId .mlmeSubie desc) s.ies
      else parseMlmeShortIe conf (descriptorLen .mlmeSubie desc) (descriptorId .mlmeSubie desc)
        s.ies) mem o with
    | none => trivial
    | some ies =>
      change IeTurn.Leaves _ _ (value (if
        s.nestedMlmeLen - (2 + (descriptorLen .mlmeSubie desc : ℤ)) < 0 then _ else _) mem _)
      by_cases hneg : s.nestedMlmeLen - (2 + (descriptorLen .mlmeSubie desc : ℤ)) < 0
      · rw [if_pos hneg]
        trivial
      · rw [if_neg hneg]
        exact slotParams_subie hread

theorem leaves_ieTurn : (value (ieTurn conf start s) mem o).Leaves s.ies.slotParams
    ((subieAt mem s o).foldl (SlotParams.read mem) s.ies.slotParams) := by
  rw [ieTurn, subieAt]
  by_cases hshort : s.bufSize < 2
  · rw [if_pos hshort]
    trivial
  · rw [if_neg hshort]
    simp only [value_bind]
    cases hstate : s.parsingState with
    | headerIe => exact leaves_headerIeTurn _
    | payloadIe => exact leaves_payloadIeTurn _
    | mlmeSubie => exact leaves_mlmeSubieTurn _

theorem slotParams_ieLoop {fuel k : ℕ} {ies : Ies}
    (hloop : value (ieLoop conf start fuel s) mem o = some (some k, ies)) : ies.slotParams =
      (mlmeSubies conf start mem fuel s o).foldl (SlotParams.read mem) s.ies.slotParams := by
  induction fuel generalizing s o with
  | zero => cases hloop
  | succ fuel ih =>
    rw [mlmeSubies]
    by_cases hdone : s.bufSize = 0
    · rw [ieLoop, if_pos hdone] at hloop
      rw [if_pos hdone, List.foldl_nil]
      change some (some (o - start), if s.parsingState = .headerIe then _ else s.ies) = _ at hloop
      simp only [some.injEq, Prod.mk.injEq] at hloop
      rw [← hloop.2]
      split_ifs <;> rfl
    · rw [if_neg hdone]
      cases hturn : value (ieTurn conf start s) mem o with
      | returns ret ies' =>
        rw [(ieLoop_returns (e := 0) fuel hdone hturn).1] at hloop
        simp only [some.injEq, Prod.mk.injEq] at hloop
        obtain ⟨rfl, rfl⟩ := hloop
        have hleaves := @leaves_ieTurn conf start o mem s
        rwa [hturn] at hleaves
      | goesOn s' =>
        rw [(ieLoop_goesOn (e := 0) fuel hdone hturn).1] at hloop
        dsimp only
        have hleaves := @leaves_ieTurn conf start o mem s
        rw [hturn] at hleaves
        rw [List.foldl_append, ← hleaves]
        exact ih hloop

end Turns

/-- The sub-elements of a frame of `len` bytes that is parsed as a beacon. -/
def ebSubies (conf : PacketConf) (mem : ℕ → UInt8) (fuel len : ℕ) : List MlmeSubie :=
  mlmeSubies conf (fcfAt mem 0).headerLen mem fuel
    ⟨(len - (fcfAt mem 0).headerLen) % 256, .headerIe, 0,
      { Ies.zero with joinPriority := 0xff, payloadIeOffset := 0 }⟩ (fcfAt mem 0).headerLen

variable {frame : Frame} {packet : ParsedPacket}

theorem slotParams_parsePacketIes {conf : PacketConf} {fuel len ret : ℕ} {ies : Ies}
    {mem : ℕ → UInt8}
    (hparsed : value (parsePacketIes conf fuel len ret frame ies) mem ret = some packet)
    (hret : packet.ret ≠ 0) : packet.ies = ies ∨ packet.ies.slotParams =
      (mlmeSubies conf ret mem fuel ⟨(len - ret) % 256, .headerIe, 0,
        { ies with payloadIeOffset := 0 }⟩ ret).foldl (SlotParams.read mem) ies.slotParams := by
  rw [parsePacketIes] at hparsed
  cases hlist : frame.fcf.ieListPresent with
  | false =>
    rw [hlist] at hparsed
    rw [← some.inj hparsed]
    exact Or.inl rfl
  | true =>
    rw [hlist, if_pos rfl, value_bind] at hparsed
    cases hloop : value (frame802154eParseInformationElements conf fuel (len - ret) ies) mem ret with
    | none =>
      rw [hloop] at hparsed
      cases hparsed
    | some res =>
      obtain ⟨ret', ies'⟩ := res
      rw [hloop] at hparsed
      cases ret' with
      | none =>
        rw [← some.inj hparsed] at hret
        exact absurd rfl hret
      | some k =>
        rw [← some.inj hparsed]
        exact Or.inr (slotParams_ieLoop hloop)

theorem slotParams_parseEb {conf : PacketConf} {fuel len : ℕ} {ies : Ies} {mem : ℕ → UInt8}
    (hparsed : value (tschPacketParseEb conf fuel len frame ies) mem 0 = some packet)
    (hret : packet.ret ≠ 0) (hjoin : packet.ies.joinPriority ≠ 0xff) : packet.ies.slotParams =
      (ebSubies conf mem fuel len).foldl (SlotParams.read mem) Ies.zero.slotParams := by
  rw [tschPacketParseEb, value_bind] at hparsed
  by_cases hlen : 2 ≤ len
  · obtain ⟨-, hfst, hnext⟩ := staysBelow_parse hlen frame mem
    rw [hnext] at hparsed
    generalize value (frame802154Parse len frame) mem 0 = parsed at hparsed hfst
    obtain ⟨ret, parsed⟩ := parsed
    dsimp only at hparsed hfst
    split_ifs at hparsed with hzero hchecked
    · rw [← some.inj hparsed] at hret
      exact absurd rfl hret
    · rw [← some.inj hparsed] at hret
      exact absurd rfl hret
    · have hheader : ret = (fcfAt mem 0).headerLen := by
        rw [hfst] at hzero ⊢
        split_ifs at hzero ⊢
        · exact absurd rfl hzero
        · rfl
      rw [hheader] at hparsed
      rcases slotParams_parsePacketIes hparsed hret with hnone | hparams
      · rw [hnone] at hjoin
        exact absurd rfl hjoin
      · exact hparams
  · have hparse : frame802154Parse len frame = pure (0, frame) := by
      rw [frame802154Parse, if_pos (Nat.lt_of_not_le hlen)]
    rw [hparse] at hparsed
    rw [← some.inj hparsed] at hret
    exact absurd rfl hret

end ContikiMaster.Framer
