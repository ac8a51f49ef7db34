import ContikiMaster.Framer.Acknowledgement
import ContikiMaster.Framer.ElementRoundTrip
import ContikiMaster.Framer.FrameBounds

/-!
# The beacon round trip

The beacon of `tsch_packet_create_eb` is a header, the header termination and an MLME
element with one sub-element for each thing it carries. Stamping it replaces the first
sub-element by one of the same length.
-/

namespace ContikiMaster.Framer

open Lib Lib.Cursor List Option

/-- What a parsed beacon must hold of the content it was built from and of its stamp. -/
structure CarriesContent (conf : PacketConf) (content : EbContent) (asnLs4b : UInt32)
    (asnMs1b joinPriority : UInt8) (ies : Ies) : Prop where
  asnLs4b_eq : ies.asnLs4b = asnLs4b
  asnMs1b_eq : ies.asnMs1b = asnMs1b
  joinPriority_eq : ies.joinPriority = joinPriority
  timeslotId : ies.timeslotId = if conf.ebWithTimeslotTiming then 1 else 0
  timeslot : ies.timeslot = if conf.ebWithTimeslotTiming then content.timeslotTimingUs else fun _ ↦ 0
  hoppingSequenceId : ies.channelHoppingSequenceId = if conf.ebWithHoppingSequence then 1 else 0
  hoppingSequenceLen : ies.hoppingSequenceLen.toNat =
    if conf.ebWithHoppingSequence then content.hoppingSequenceLength else 0
  hoppingSequence : conf.ebWithHoppingSequence = true → ∀ i : Fin tschHoppingSequenceMaxLen,
    i.val < content.hoppingSequenceLength → ies.hoppingSequenceList i = content.hoppingSequence i
  slotframe : ∀ size link, conf.ebWithSlotframeAndLink = true →
    content.slotframe0 = some (size, link) → ies.slotframeAndLink.numSlotframes = 1 ∧
      ies.slotframeAndLink.slotframeHandle = 0 ∧ ies.slotframeAndLink.slotframeSize = size ∧
      ies.slotframeAndLink.numLinks = 1 ∧ ies.slotframeAndLink.links 0 = link
  noSlotframe : conf.ebWithSlotframeAndLink = false ∨ content.slotframe0 = none →
    ies.slotframeAndLink = ⟨0, 0, 0, 0, fun _ ↦ ⟨0, 0, 0⟩⟩
  sequenceNumber : ies.sequenceNumber =
    if conf.ebWithNeighborDiscovery then content.sequenceNumber else 0

/-! ## The sub-elements of a beacon -/

variable {conf : PacketConf} {content : EbContent}

def ebSlotframeAndLink (conf : PacketConf) (content : EbContent) : SlotframeAndLinks :=
  match conf.ebWithSlotframeAndLink, content.slotframe0 with
  | true, some (size, link) => ⟨1, 0, size, 1, fun i ↦ if i = 0 then link else ⟨0, 0, 0⟩⟩
  | _, _ => ⟨0, 0, 0, 0, fun _ ↦ ⟨0, 0, 0⟩⟩

theorem ebIes_eq (hfits : content.hoppingSequenceLength ≤ tschHoppingSequenceMaxLen) :
    ebIes conf content = { Ies.zero with
      timeslotId := if conf.ebWithTimeslotTiming then 1 else 0
      timeslot := if conf.ebWithTimeslotTiming then content.timeslotTimingUs else fun _ ↦ 0
      channelHoppingSequenceId := if conf.ebWithHoppingSequence then 1 else 0
      hoppingSequenceLen := if conf.ebWithHoppingSequence then
        UInt16.ofNat content.hoppingSequenceLength else 0
      hoppingSequenceList := if conf.ebWithHoppingSequence then
        fun i ↦ if i.val < content.hoppingSequenceLength then content.hoppingSequence i else 0
        else fun _ ↦ 0
      slotframeAndLink := ebSlotframeAndLink conf content
      sequenceNumber := if conf.ebWithNeighborDiscovery then content.sequenceNumber else 0 } := by
  unfold ebIes ebSlotframeAndLink
  cases conf.ebWithTimeslotTiming <;> cases conf.ebWithHoppingSequence <;>
    cases conf.ebWithSlotframeAndLink <;> cases conf.ebWithNeighborDiscovery <;>
    cases content.slotframe0 <;> simp only [hfits] <;> rfl

/-- Elements whose lists fit into what is written of them. -/
structure Ies.Fits (ies : Ies) : Prop where
  hopping : ies.hoppingSequenceLen.toNat ≤ tschHoppingSequenceMaxLen
  frames : ies.slotframeAndLink.numSlotframes.toNat ≤ 1
  links : ies.slotframeAndLink.numLinks.toNat ≤ ieMaxLinks

theorem fits_ebIes (hfits : content.hoppingSequenceLength ≤ tschHoppingSequenceMaxLen) :
    (ebIes conf content).Fits := by
  have hmax : tschHoppingSequenceMaxLen = 16 := rfl
  rw [ebIes_eq hfits]
  constructor
  · change (if conf.ebWithHoppingSequence then UInt16.ofNat content.hoppingSequenceLength
      else 0).toNat ≤ _
    cases conf.ebWithHoppingSequence
    · exact Nat.zero_le _
    · rw [if_pos rfl, UInt16.toNat_ofNat', Nat.mod_eq_of_lt (by omega)]
      exact hfits
  · change (ebSlotframeAndLink conf content).numSlotframes.toNat ≤ 1
    unfold ebSlotframeAndLink
    split
    · exact le_rfl
    · exact Nat.zero_le 1
  · change (ebSlotframeAndLink conf content).numLinks.toNat ≤ 4
    unfold ebSlotframeAndLink
    split
    · exact (by decide : 1 ≤ 4)
    · exact Nat.zero_le 4

/-- The sub-elements behind the synchronization element. -/
def ebRestSubIes (conf : PacketConf) (ies : Ies) (hfits : ies.Fits) : List (SubIe conf) :=
  timeslotSubIe conf ies :: hoppingSequenceSubIe conf ies hfits.hopping ::
    slotframeAndLinkSubIe conf ies hfits.frames hfits.links ::
      if hconf : conf.ebWithNeighborDiscovery = true then [neighborDiscoverySubIe ies hconf] else []

section Written

variable {ies : Ies} {len : ℕ}

theorem length_synchronizationSubIe : (synchronizationSubIe conf ies).bytes.length = 8 := rfl

theorem length_timeslotSubIe : (timeslotSubIe conf ies).bytes.length =
    2 + if ies.timeslotId = 0 then 1 else 25 := by
  rw [SubIe.length_bytes]
  change 2 + (_ :: if _ then _ else _).length = _
  by_cases hid : ies.timeslotId = 0
  · simp [hid]
  · simp only [hid, ne_eq, not_false_eq_true, if_true, if_false, length_cons,
      length_flatMap_write16]
    rfl

theorem length_hoppingSequenceSubIe
    (hfits : ies.hoppingSequenceLen.toNat ≤ tschHoppingSequenceMaxLen) :
    (hoppingSequenceSubIe conf ies hfits).bytes.length =
      2 + if ies.channelHoppingSequenceId = 0 then 1 else 12 + ies.hoppingSequenceLen.toNat := by
  rw [SubIe.length_bytes]
  exact congrArg (2 + ·) (length_hoppingSequenceContent hfits)

theorem length_slotframeAndLinkSubIe (hframes : ies.slotframeAndLink.numSlotframes.toNat ≤ 1)
    (hlinks : ies.slotframeAndLink.numLinks.toNat ≤ ieMaxLinks) :
    (slotframeAndLinkSubIe conf ies hframes hlinks).bytes.length =
      2 + (1 + ies.slotframeAndLink.numSlotframes.toNat *
        (4 + 5 * ies.slotframeAndLink.numLinks.toNat)) := by
  rw [SubIe.length_bytes]
  exact congrArg (2 + ·) (length_slotframeAndLinkContent hframes hlinks)

theorem appendIe_subIe {create : ℕ → Ies → Option (List UInt8)} {ie : SubIe conf}
    (data : List UInt8) (hcreate : ∀ len, ie.bytes.length ≤ len → create len ies = some ie.bytes)
    (hroom : data.length + ie.bytes.length ≤ packetbufSize) :
    appendIe create ies data = some (data ++ ie.bytes) := by
  rw [appendIe, hcreate _ (by omega)]
  rfl

theorem create_synchronizationSubIe (hlen : (synchronizationSubIe conf ies).bytes.length ≤ len) :
    createIeTschSynchronization len ies = some (synchronizationSubIe conf ies).bytes := if_pos hlen

theorem create_timeslotSubIe (hlen : (timeslotSubIe conf ies).bytes.length ≤ len) :
    createIeTschTimeslot len ies = some (timeslotSubIe conf ies).bytes := by
  rw [length_timeslotSubIe] at hlen
  exact if_pos hlen

theorem create_hoppingSequenceSubIe
    (hfits : ies.hoppingSequenceLen.toNat ≤ tschHoppingSequenceMaxLen)
    (hlen : (hoppingSequenceSubIe conf ies hfits).bytes.length ≤ len) :
    createIeTschChannelHoppingSequence len ies =
      some (hoppingSequenceSubIe conf ies hfits).bytes := by
  rw [length_hoppingSequenceSubIe] at hlen
  rw [createIeTschChannelHoppingSequence, if_neg (Nat.not_lt.mpr hfits)]
  exact if_pos hlen

theorem create_slotframeAndLinkSubIe (hframes : ies.slotframeAndLink.numSlotframes.toNat ≤ 1)
    (hlinks : ies.slotframeAndLink.numLinks.toNat ≤ ieMaxLinks)
    (hlen : (slotframeAndLinkSubIe conf ies hframes hlinks).bytes.length ≤ len) :
    createIeTschSlotframeAndLink len ies =
      some (slotframeAndLinkSubIe conf ies hframes hlinks).bytes := by
  rw [length_slotframeAndLinkSubIe] at hlen
  have hroom : ¬(ies.slotframeAndLink.numSlotframes.toNat > 1 ∨
      ies.slotframeAndLink.numLinks.toNat > ieMaxLinks ∨
      len < 2 + (1 + ies.slotframeAndLink.numSlotframes.toNat *
        (4 + 5 * ies.slotframeAndLink.numLinks.toNat))) := by
    omega
  exact if_neg hroom

theorem create_neighborDiscoverySubIe (hconf : conf.ebWithNeighborDiscovery = true)
    (hlen : (neighborDiscoverySubIe ies hconf).bytes.length ≤ len) :
    createIeTschNeighborDiscovery len ies = some (neighborDiscoverySubIe ies hconf).bytes :=
  if_neg (Nat.not_lt.mpr hlen)

theorem length_ebRestSubIes (hfits : ies.Fits) :
    (subIesBytes (ebRestSubIes conf ies hfits)).length ≤ 88 := by
  have hhopping : ies.hoppingSequenceLen.toNat ≤ 16 := hfits.hopping
  have hlinks : ies.slotframeAndLink.numLinks.toNat ≤ 4 := hfits.links
  have hmul : ies.slotframeAndLink.numSlotframes.toNat *
      (4 + 5 * ies.slotframeAndLink.numLinks.toNat) ≤ 1 * 24 :=
    Nat.mul_le_mul hfits.frames (by omega)
  have hrest : (subIesBytes (if hconf : conf.ebWithNeighborDiscovery = true then
      [neighborDiscoverySubIe ies hconf] else [])).length ≤ 4 := by
    split_ifs
    · exact le_rfl
    · exact Nat.zero_le 4
  change (_ ++ (_ ++ (_ ++ subIesBytes _))).length ≤ 88
  rw [length_append, length_append, length_append, length_timeslotSubIe,
    length_hoppingSequenceSubIe, length_slotframeAndLinkSubIe]
  split_ifs at hrest ⊢ <;> omega

theorem ebSubIes_eq (hfits : ies.Fits) :
    ebSubIes conf ies = some (subIesBytes (synchronizationSubIe conf ies ::
      ebRestSubIes conf ies hfits)) := by
  have hroom := @length_ebRestSubIes conf ies hfits
  have hsize : packetbufSize = 128 := rfl
  have hsync : (synchronizationSubIe conf ies).bytes.length = 8 := rfl
  rw [ebRestSubIes] at hroom ⊢
  simp only [subIesBytes, List.flatMap_cons, List.length_append] at hroom ⊢
  have h₁ := appendIe_subIe [] (fun _ ↦ @create_synchronizationSubIe conf ies _)
    (by rw [hsync, List.length_nil]; omega)
  have h₂ := appendIe_subIe ((synchronizationSubIe conf ies).bytes)
    (fun _ ↦ @create_timeslotSubIe conf ies _) (by omega)
  have h₃ := appendIe_subIe ((synchronizationSubIe conf ies).bytes ++
    (timeslotSubIe conf ies).bytes) (fun _ ↦ @create_hoppingSequenceSubIe conf ies _ hfits.hopping)
    (by rw [List.length_append]; omega)
  have h₄ := appendIe_subIe ((synchronizationSubIe conf ies).bytes ++
    (timeslotSubIe conf ies).bytes ++ (hoppingSequenceSubIe conf ies hfits.hopping).bytes)
    (fun _ ↦ @create_slotframeAndLinkSubIe conf ies _ hfits.frames hfits.links)
    (by rw [List.length_append, List.length_append]; omega)
  rw [List.nil_append] at h₁
  simp only [ebSubIes, h₁, h₂, h₃, h₄, Option.bind_eq_bind, Option.bind_some]
  by_cases hconf : conf.ebWithNeighborDiscovery = true
  · rw [dif_pos hconf] at hroom ⊢
    have h₅ := appendIe_subIe ((synchronizationSubIe conf ies).bytes ++
      (timeslotSubIe conf ies).bytes ++ (hoppingSequenceSubIe conf ies hfits.hopping).bytes ++
      (slotframeAndLinkSubIe conf ies hfits.frames hfits.links).bytes)
      (fun _ ↦ @create_neighborDiscoverySubIe conf ies _ hconf) (by
        simp only [List.flatMap_cons, List.flatMap_nil, List.append_nil] at hroom
        simp only [List.length_append]
        omega)
    rw [if_pos hconf, h₅]
    simp only [List.flatMap_cons, List.flatMap_nil, List.append_nil, List.append_assoc]
  · rw [if_neg hconf, dif_neg hconf]
    simp only [List.flatMap_nil, List.append_nil, List.append_assoc, Option.pure_def]

end Written

/-- A frame of a header, the header termination and an MLME element of the given sub-elements. -/
def ebFrame (header : List UInt8) (subs : List (SubIe conf)) : List UInt8 :=
  header ++ (createHeaderIeDescriptor headerIeListTermination1 0 ++
    (createPayloadIeDescriptor payloadIeMlme (subIesBytes subs).length ++ subIesBytes subs))

variable {macPanId : UInt16} {macDsn : UInt8} {nodeAddr : Addr8}

def ebHeader (macPanId : UInt16) (macDsn : UInt8) (nodeAddr : Addr8) : List UInt8 :=
  (frame802154Create (createFrameParams macPanId macDsn ebAttr nodeAddr linkaddrNull)).1

theorem length_ebHeader : (ebHeader macPanId macDsn nodeAddr).length = 14 := by
  rw [ebHeader, length_create]
  rfl

theorem createFrame_eb {totlen : ℕ} (htotlen : totlen ≤ 114) :
    createFrame macPanId macDsn ebAttr nodeAddr linkaddrNull totlen =
      if macPanId = 0xffff then none else some (ebHeader macPanId macDsn nodeAddr) := by
  have hlength : (frame802154Hdrlen (createFrameParams macPanId macDsn ebAttr nodeAddr
      linkaddrNull)).1 = 14 := rfl
  have hparams : (frame802154Hdrlen (createFrameParams macPanId macDsn ebAttr nodeAddr
      linkaddrNull)).2 = createFrameParams macPanId macDsn ebAttr nodeAddr linkaddrNull :=
    normalise_createFrameParams
  have hroom : ¬14 + totlen > packetbufSize := by
    have hsize : packetbufSize = 128 := rfl
    omega
  rw [createFrame]
  change (if _ then none else if (frame802154Hdrlen _).1 + totlen > packetbufSize then none
    else some (frame802154Create (frame802154Hdrlen _).2).1) = _
  rw [hlength, hparams, if_neg hroom, ebHeader]

theorem tschPacketCreateEb_eq (hfits : content.hoppingSequenceLength ≤ tschHoppingSequenceMaxLen) :
    tschPacketCreateEb conf macPanId macDsn nodeAddr content =
      if macPanId = 0xffff then none
      else some (ebFrame (ebHeader macPanId macDsn nodeAddr)
        (synchronizationSubIe conf (ebIes conf content) ::
          ebRestSubIes conf (ebIes conf content) (fits_ebIes hfits)), 16, 18) := by
  have hrest := @length_ebRestSubIes conf _ (@fits_ebIes conf content hfits)
  have hbytes := @ebSubIes_eq conf _ (@fits_ebIes conf content hfits)
  have hlength := length_subIesBytes_cons (synchronizationSubIe conf (ebIes conf content))
    (ebRestSubIes conf (ebIes conf content) (fits_ebIes hfits))
  rw [length_synchronizationSubIe] at hlength
  generalize synchronizationSubIe conf (ebIes conf content) ::
    ebRestSubIes conf (ebIes conf content) (fits_ebIes hfits) = subs at hbytes hlength ⊢
  have hmlmeLen : (UInt16.ofNat (subIesBytes subs).length).toNat = (subIesBytes subs).length := by
    rw [UInt16.toNat_ofNat', Nat.mod_eq_of_lt (by omega)]
  have hsize : packetbufSize = 128 := rfl
  have hmlme : createIeMlme (packetbufSize - (2 + (subIesBytes subs).length))
      { ebIes conf content with mlmeLen := UInt16.ofNat (subIesBytes subs).length } =
        some (createPayloadIeDescriptor payloadIeMlme (subIesBytes subs).length) := by
    rw [createIeMlme, if_pos (by omega), hmlmeLen]
  have hdata : (createPayloadIeDescriptor payloadIeMlme (subIesBytes subs).length ++
      subIesBytes subs).length = 2 + (subIesBytes subs).length := length_append
  have htermination : createIeHeaderListTermination1
      (packetbufSize - (2 + (2 + (subIesBytes subs).length))) =
        some (createHeaderIeDescriptor headerIeListTermination1 0) := if_pos (by omega)
  simp only [tschPacketCreateEb, hbytes, bind_eq_bind, bind_some, hmlme, hdata, htermination]
  rw [createFrame_eb (by omega)]
  by_cases hpan : macPanId = 0xffff
  · rw [if_pos hpan, if_pos hpan]
    rfl
  · rw [if_neg hpan, if_neg hpan, bind_some, length_ebHeader]
    rfl

def ebStamp (asnLs4b : UInt32) (asnMs1b joinPriority : UInt8) : Ies :=
  { Ies.zero with asnLs4b, asnMs1b, joinPriority }

theorem tschPacketUpdateEb_ebFrame (asnLs4b : UInt32) (asnMs1b joinPriority : UInt8)
    (header : List UInt8) (ies : Ies) (subs : List (SubIe conf)) :
    tschPacketUpdateEb asnLs4b asnMs1b joinPriority
        (ebFrame header (synchronizationSubIe conf ies :: subs)) (header.length + 4) =
      ebFrame header
        (synchronizationSubIe conf (ebStamp asnLs4b asnMs1b joinPriority) :: subs) := by
  have hframe : ∀ ies : Ies, ebFrame header (synchronizationSubIe conf ies :: subs) =
      (header ++ (createHeaderIeDescriptor headerIeListTermination1 0 ++
        createPayloadIeDescriptor payloadIeMlme (8 + (subIesBytes subs).length))) ++
        ((synchronizationSubIe conf ies).bytes ++ subIesBytes subs) := by
    intro ies
    rw [ebFrame, length_subIesBytes_cons, length_synchronizationSubIe, append_assoc, append_assoc]
    rfl
  have hoffset : (header ++ (createHeaderIeDescriptor headerIeListTermination1 0 ++
      createPayloadIeDescriptor payloadIeMlme (8 + (subIesBytes subs).length))).length =
        header.length + 4 := length_append
  rw [hframe, hframe, ← hoffset]
  generalize header ++ (createHeaderIeDescriptor headerIeListTermination1 0 ++
    createPayloadIeDescriptor payloadIeMlme (8 + (subIesBytes subs).length)) = front
  have hroom : (synchronizationSubIe conf (ebStamp asnLs4b asnMs1b joinPriority)).bytes.length ≤
      (front ++ ((synchronizationSubIe conf ies).bytes ++ subIesBytes subs)).length -
        front.length := by
    rw [length_append, length_append, length_synchronizationSubIe, length_synchronizationSubIe]
    omega
  rw [tschPacketUpdateEb]
  rw [show { Ies.zero with asnLs4b, asnMs1b, joinPriority } = ebStamp asnLs4b asnMs1b joinPriority
    from rfl, create_synchronizationSubIe hroom]
  have hdrop : (front ++ ((synchronizationSubIe conf ies).bytes ++ subIesBytes subs)).drop
      (front.length + 8) = subIesBytes subs := by
    rw [← append_assoc]
    exact drop_left' length_append
  simp only [take_left, length_synchronizationSubIe, hdrop]

/-! ## Parsing a beacon -/

variable {start o n : ℕ} {mem : ℕ → UInt8}

theorem goes_termination {ies : Ies} (hn : 2 + n < 256)
    (hholds : Holds mem o (createHeaderIeDescriptor headerIeListTermination1 0)) :
    Goes conf start mem o ⟨2 + n, .headerIe, 0, ies⟩ (o + 2)
      ⟨n, .payloadIe, 0, { ies with payloadIeOffset := UInt8.ofNat (o + 2 - start) }⟩ := by
  have hdesc : descriptorAt mem o = 0x3f00 := descriptorAt_of_holds (by decide) hholds
  have hlong : ¬2 + n < 2 := by omega
  have hwrap : (n + 2048 - 0) % 256 = n := by omega
  apply goes_of_turn
  · simp only
    omega
  · rw [ieTurn, if_neg hlong]
    change value (headerIeTurn start (descriptorAt mem o) ⟨2 + n - 2, .headerIe, 0, ies⟩) mem
      (o + 2) = _
    rw [hdesc, Nat.add_sub_cancel_left]
    change IeTurn.goesOn ⟨(n + 2048 - 0) % 256, _, _, _⟩ = _
    rw [hwrap]
    rfl
  · rw [ieTurn, if_neg hlong]
    change next (headerIeTurn start (descriptorAt mem o) ⟨2 + n - 2, .headerIe, 0, ies⟩) mem
      (o + 2) = _
    rw [hdesc]
    rfl

theorem goes_mlme {ies : Ies} (hn : 2 + n < 256)
    (hholds : Holds mem o (createPayloadIeDescriptor payloadIeMlme n)) :
    Goes conf start mem o ⟨2 + n, .payloadIe, 0, ies⟩ (o + 2) ⟨n, .mlmeSubie, n, ies⟩ := by
  have hdesc : descriptorAt mem o = n % 2048 + 1 % 16 * 2048 + 32768 :=
    descriptorAt_of_holds (by omega) hholds
  have hlong : ¬2 + n < 2 := by omega
  have hwrap : (n + 2048 - 0) % 256 = n := by omega
  have hpayload : ¬(n % 2048 + 1 % 16 * 2048 + 32768) / 32768 ≠ 1 := by omega
  have hid : (n % 2048 + 1 % 16 * 2048 + 32768) / 2048 % 16 = payloadIeMlme := by
    have hmlme : payloadIeMlme = 1 := rfl
    omega
  have hlen : (n % 2048 + 1 % 16 * 2048 + 32768) % 2048 = n := by omega
  have hturn : payloadIeTurn conf start (descriptorAt mem o) ⟨n, .payloadIe, 0, ies⟩ =
      IeParser.advance 0 ⟨n, .mlmeSubie, n, ies⟩ := by
    rw [hdesc, payloadIeTurn]
    simp only [if_neg hpayload, if_pos hid, hlen]
  apply goes_of_turn
  · simp only
    omega
  · rw [ieTurn, if_neg hlong]
    change value (payloadIeTurn conf start (descriptorAt mem o) ⟨2 + n - 2, .payloadIe, 0, ies⟩) mem
      (o + 2) = _
    rw [Nat.add_sub_cancel_left, hturn]
    change IeTurn.goesOn ⟨(n + 2048 - 0) % 256, _, _, _⟩ = _
    rw [hwrap]
  · rw [ieTurn, if_neg hlong]
    change next (payloadIeTurn conf start (descriptorAt mem o) ⟨2 + n - 2, .payloadIe, 0, ies⟩) mem
      (o + 2) = _
    rw [Nat.add_sub_cancel_left, hturn]
    rfl

theorem loop_ebFrame {subs : List (SubIe conf)} (hne : subs ≠ [])
    (hholds : Holds mem start (createHeaderIeDescriptor headerIeListTermination1 0 ++
      (createPayloadIeDescriptor payloadIeMlme (subIesBytes subs).length ++ subIesBytes subs)))
    (hlength : 4 + (subIesBytes subs).length < 256) (ies : Ies) (fuel : ℕ) :
    value (ieLoop conf start (fuel + subs.length + 3)
        ⟨4 + (subIesBytes subs).length, .headerIe, 0, ies⟩) mem start =
      some (some (4 + (subIesBytes subs).length), subIesChange subs { ies with payloadIeOffset := 2 }) := by
  rw [holds_append, holds_append] at hholds
  obtain ⟨htermination, hmlme, hsubs⟩ := hholds
  have hoffset : UInt8.ofNat (start + 2 - start) = 2 := by
    rw [Nat.add_sub_cancel_left]
    rfl
  have hend : start + 2 + 2 + (subIesBytes subs).length - start = 4 + (subIesBytes subs).length := by
    omega
  have hfirst : Goes conf start mem start ⟨2 + (2 + (subIesBytes subs).length), .headerIe, 0, ies⟩
      (start + 2) ⟨2 + (subIesBytes subs).length, .payloadIe, 0,
        { ies with payloadIeOffset := UInt8.ofNat (start + 2 - start) }⟩ :=
    goes_termination (by omega) htermination
  rw [hoffset, ← Nat.add_assoc] at hfirst
  calc value (ieLoop conf start (fuel + subs.length + 3)
          ⟨4 + (subIesBytes subs).length, .headerIe, 0, ies⟩) mem start
      = value (ieLoop conf start (fuel + subs.length + 2) ⟨2 + (subIesBytes subs).length,
          .payloadIe, 0, { ies with payloadIeOffset := 2 }⟩) mem (start + 2) := hfirst _
    _ = value (ieLoop conf start (fuel + subs.length + 1) ⟨(subIesBytes subs).length, .mlmeSubie,
          ((subIesBytes subs).length : ℕ), { ies with payloadIeOffset := 2 }⟩) mem
          (start + 2 + 2) := goes_mlme (by omega) hmlme _
    _ = value (ieLoop conf start (fuel + 1) ⟨0, .payloadIe, 0,
          subIesChange subs { ies with payloadIeOffset := 2 }⟩) mem
          (start + 2 + 2 + (subIesBytes subs).length) := by
        rw [Nat.add_right_comm]
        exact loop_subIes hne hsubs (by omega) _ _
    _ = some (some (4 + (subIesBytes subs).length),
          subIesChange subs { ies with payloadIeOffset := 2 }) := by
        rw [ieLoop, if_pos rfl]
        change some (some (start + 2 + 2 + (subIesBytes subs).length - start), _) = _
        rw [hend]
        rfl

theorem parse_ebHeader {rest : List UInt8} (pf : Frame)
    (hholds : Holds mem 0 (ebHeader macPanId macDsn nodeAddr ++ rest)) :
    ∃ q, value (frame802154Parse (14 + rest.length) pf) mem 0 = (14, q) ∧
      q.fcf.frameVersion = ieee802154_2015 ∧ q.fcf.frameType = beaconFrame ∧
      q.fcf.ieListPresent = true ∧ next (frame802154Parse (14 + rest.length) pf) mem 0 = 14 := by
  have htrip := @roundTrips_createFrameParams macPanId macDsn ebAttr nodeAddr linkaddrNull rest
  have hheader : (ebHeader macPanId macDsn nodeAddr ++ rest).length = 14 + rest.length := by
    rw [length_append, length_ebHeader]
  obtain ⟨q, hvalue, hsame, -⟩ := htrip.parsed pf mem hholds
  have hfcf := hsame.fcf
  rw [create_snd, normalise_createFrameParams, createFrameParams_fcf] at hfcf
  change value (frame802154Parse (ebHeader macPanId macDsn nodeAddr ++ rest).length pf) mem 0 =
    (14, q) at hvalue
  rw [hheader] at hvalue
  obtain ⟨-, hlen, hnext⟩ := @staysBelow_parse (14 + rest.length) (by omega) pf mem
  rw [hvalue] at hlen
  refine ⟨q, hvalue, ?_, ?_, ?_, ?_⟩
  · rw [hfcf]
  · rw [hfcf]
    rfl
  · rw [hfcf]
    rfl
  · rw [hnext]
    split_ifs at hlen
    exact hlen.symm

/-- What the elements of a beacon hold after parsing, for any elements that fit. -/
def parsedEbIes (conf : PacketConf) (stamp ies : Ies) : Ies where
  timeCorrection := 0
  isNack := false
  payloadIeOffset := 2
  mlmeLen := 0
  asnLs4b := stamp.asnLs4b
  asnMs1b := stamp.asnMs1b
  joinPriority := stamp.joinPriority
  timeslotId := ies.timeslotId
  timeslot := if ies.timeslotId = 0 then fun _ ↦ 0 else ies.timeslot
  slotframeAndLink := if ies.slotframeAndLink.numSlotframes.toNat = 1 then
      ⟨ies.slotframeAndLink.numSlotframes, ies.slotframeAndLink.slotframeHandle,
        ies.slotframeAndLink.slotframeSize, ies.slotframeAndLink.numLinks, fun i ↦
          if i.val < ies.slotframeAndLink.numLinks.toNat then ies.slotframeAndLink.links i
          else ⟨0, 0, 0⟩⟩
    else ⟨0, 0, 0, 0, fun _ ↦ ⟨0, 0, 0⟩⟩
  sequenceNumber := if conf.ebWithNeighborDiscovery then ies.sequenceNumber else 0
  channelHoppingSequenceId := ies.channelHoppingSequenceId
  hoppingSequenceLen := if ies.channelHoppingSequenceId = 0 then 0 else ies.hoppingSequenceLen
  hoppingSequenceList := if ies.channelHoppingSequenceId = 0 then fun _ ↦ 0 else
    fun i ↦ if i.val < ies.hoppingSequenceLen.toNat then ies.hoppingSequenceList i else 0
  sixtopIeContentPtr := none
  sixtopIeContentLen := 0

theorem subIesChange_eb (stamp : Ies) {ies : Ies} (hfits : ies.Fits) :
    subIesChange (synchronizationSubIe conf stamp :: ebRestSubIes conf ies hfits)
        { Ies.zero with joinPriority := 0xff, payloadIeOffset := 2 } =
      parsedEbIes conf stamp ies := by
  rw [subIesChange, ebRestSubIes]
  simp only [foldl_cons]
  by_cases htimeslot : ies.timeslotId = 0 <;> by_cases hhopping : ies.channelHoppingSequenceId = 0 <;>
    by_cases hframe : ies.slotframeAndLink.numSlotframes.toNat = 1 <;>
    by_cases hconf : conf.ebWithNeighborDiscovery = true <;>
    simp [synchronizationSubIe, timeslotSubIe, hoppingSequenceSubIe, slotframeAndLinkSubIe,
      neighborDiscoverySubIe, parsedEbIes, htimeslot, hhopping, hframe, hconf, Ies.zero]

theorem carriesContent_parsedEbIes
    (hfits : content.hoppingSequenceLength ≤ tschHoppingSequenceMaxLen) (asnLs4b : UInt32)
    (asnMs1b joinPriority : UInt8) : CarriesContent conf content asnLs4b asnMs1b joinPriority
      (parsedEbIes conf (ebStamp asnLs4b asnMs1b joinPriority) (ebIes conf content)) := by
  have hlen : (UInt16.ofNat content.hoppingSequenceLength).toNat =
      content.hoppingSequenceLength := by
    have hmax : tschHoppingSequenceMaxLen = 16 := rfl
    rw [UInt16.toNat_ofNat', Nat.mod_eq_of_lt (by omega)]
  rw [ebIes_eq hfits]
  constructor
  · rfl
  · rfl
  · rfl
  · rfl
  · cases conf.ebWithTimeslotTiming <;> simp [parsedEbIes]
  · rfl
  · cases conf.ebWithHoppingSequence <;> simp [parsedEbIes, hlen]
  · intro hhopping i hi
    simp [parsedEbIes, hhopping, hlen, hi]
  · intro size link hconf hslotframe
    simp [parsedEbIes, ebSlotframeAndLink, hconf, hslotframe]
  · intro hnone
    have hempty : ebSlotframeAndLink conf content = ⟨0, 0, 0, 0, fun _ ↦ ⟨0, 0, 0⟩⟩ := by
      rw [ebSlotframeAndLink]
      rcases hnone with hconf | hslotframe
      · rw [hconf]
      · rw [hslotframe]
        cases conf.ebWithSlotframeAndLink <;> rfl
    simp [parsedEbIes, hempty]
  · cases hconf : conf.ebWithNeighborDiscovery <;> simp [parsedEbIes, hconf]

/-- Every receiver parses the stamped beacon in full, into elements that carry its content. -/
def BeaconParsed (conf : PacketConf) (content : EbContent) (asnLs4b : UInt32)
    (asnMs1b joinPriority : UInt8) (bytes : List UInt8) (hdrLen : ℕ) : Prop :=
  ∀ mem pf ies, Holds mem 0 bytes → ∀ fuel ≥ 8, ∃ packet,
    value (tschPacketParseEb conf fuel bytes.length pf ies) mem 0 = some packet ∧
      packet.ret = bytes.length ∧ packet.hdrLen = hdrLen ∧
      CarriesContent conf content asnLs4b asnMs1b joinPriority packet.ies

theorem beaconParsed_ebFrame (hfits : content.hoppingSequenceLength ≤ tschHoppingSequenceMaxLen)
    (asnLs4b : UInt32) (asnMs1b joinPriority : UInt8) :
    BeaconParsed conf content asnLs4b asnMs1b joinPriority
      (ebFrame (ebHeader macPanId macDsn nodeAddr)
        (synchronizationSubIe conf (ebStamp asnLs4b asnMs1b joinPriority) ::
          ebRestSubIes conf (ebIes conf content) (fits_ebIes hfits))) 16 := by
  intro mem pf ies hholds fuel hfuel
  have hchange := @subIesChange_eb conf (ebStamp asnLs4b asnMs1b joinPriority) _
    (@fits_ebIes conf content hfits)
  have hrest := @length_ebRestSubIes conf _ (@fits_ebIes conf content hfits)
  have hlength := length_subIesBytes_cons
    (synchronizationSubIe conf (ebStamp asnLs4b asnMs1b joinPriority))
    (ebRestSubIes conf (ebIes conf content) (fits_ebIes hfits))
  rw [length_synchronizationSubIe] at hlength
  have hfive : (synchronizationSubIe conf (ebStamp asnLs4b asnMs1b joinPriority) ::
      ebRestSubIes conf (ebIes conf content) (fits_ebIes hfits)).length ≤ 5 := by
    rw [ebRestSubIes]
    split_ifs <;> simp
  generalize hsubs : synchronizationSubIe conf (ebStamp asnLs4b asnMs1b joinPriority) ::
    ebRestSubIes conf (ebIes conf content) (fits_ebIes hfits) = subs at *
  have hne : subs ≠ [] := by
    rw [← hsubs]
    simp
  generalize htail : createHeaderIeDescriptor headerIeListTermination1 0 ++
    (createPayloadIeDescriptor payloadIeMlme (subIesBytes subs).length ++ subIesBytes subs) = tail
  have htailLength : tail.length = 4 + (subIesBytes subs).length := by
    rw [← htail, length_append, length_append, ← Nat.add_assoc]
    rfl
  have hbytes : ebFrame (ebHeader macPanId macDsn nodeAddr) subs =
      ebHeader macPanId macDsn nodeAddr ++ tail := by
    rw [ebFrame, htail]
  rw [hbytes, length_append, length_ebHeader]
  rw [hbytes] at hholds
  obtain ⟨q, hvalue, hversion, htype, hlist, hnext⟩ := parse_ebHeader pf hholds
  have htailHolds := (holds_append.mp hholds).2
  rw [length_ebHeader, ← htail] at htailHolds
  have hloop := loop_ebFrame hne htailHolds (by omega)
    { Ies.zero with joinPriority := 0xff, payloadIeOffset := 0 } (fuel - subs.length - 3)
  rw [show fuel - subs.length - 3 + subs.length + 3 = fuel by omega] at hloop
  have helements : value (frame802154eParseInformationElements conf fuel (14 + tail.length - 14)
      { Ies.zero with joinPriority := 0xff }) mem 14 = some (some tail.length,
        parsedEbIes conf (ebStamp asnLs4b asnMs1b joinPriority) (ebIes conf content)) := by
    have hsize : (14 + tail.length - 14) % 256 = 4 + (subIesBytes subs).length := by omega
    rw [frame802154eParseInformationElements, value_bind, hsize, htailLength, ← hchange]
    exact hloop
  have hchecked : ¬(q.fcf.frameVersion < ieee802154_2015 ∨ q.fcf.frameType ≠ beaconFrame) := by
    rw [hversion, htype]
    decide
  have hret : (14 + tail.length) % 256 = 14 + tail.length := by omega
  refine ⟨⟨14 + tail.length, q, _, 16⟩, ?_, rfl, rfl,
    carriesContent_parsedEbIes hfits asnLs4b asnMs1b joinPriority⟩
  rw [tschPacketParseEb, value_bind, hvalue, hnext]
  change value (if 14 = 0 then _ else if q.fcf.frameVersion < ieee802154_2015 ∨
    q.fcf.frameType ≠ beaconFrame then _ else parsePacketIes conf fuel (14 + tail.length) 14 q
      { Ies.zero with joinPriority := 0xff }) mem 14 = _
  rw [if_neg (by decide), if_neg hchecked, parsePacketIes, if_pos hlist, value_bind, helements]
  change some (ParsedPacket.mk ((14 + tail.length) % 256) q _ 16) = _
  rw [hret]
  rfl

/-- Every beacon that is built is parsed in full, with whatever stamp, into its content; it is built
unless the node has no PAN. -/
theorem beacon_roundTrip (conf : PacketConf) (macPanId : UInt16) (macDsn : UInt8) (nodeAddr : Addr8)
    (content : EbContent) (hfits : content.hoppingSequenceLength ≤ tschHoppingSequenceMaxLen) :
    (tschPacketCreateEb conf macPanId macDsn nodeAddr content = none ↔ macPanId = 0xffff) ∧
      ∀ frame hdrLen offset,
        tschPacketCreateEb conf macPanId macDsn nodeAddr content = some (frame, hdrLen, offset) →
        ∀ asnLs4b asnMs1b joinPriority,
          BeaconParsed conf content asnLs4b asnMs1b joinPriority
            (tschPacketUpdateEb asnLs4b asnMs1b joinPriority frame offset) hdrLen := by
  rw [tschPacketCreateEb_eq hfits]
  constructor
  · simp
  · intro frame hdrLen offset hbuilt asnLs4b asnMs1b joinPriority
    obtain ⟨hpan, hframe⟩ := ite_none_left_eq_some.mp hbuilt
    simp only [some.injEq, Prod.mk.injEq] at hframe
    obtain ⟨rfl, rfl, rfl⟩ := hframe
    have hstamped := tschPacketUpdateEb_ebFrame asnLs4b asnMs1b joinPriority
      (ebHeader macPanId macDsn nodeAddr) (ebIes conf content)
      (ebRestSubIes conf (ebIes conf content) (fits_ebIes hfits))
    rw [length_ebHeader] at hstamped
    rw [hstamped]
    exact beaconParsed_ebFrame hfits asnLs4b asnMs1b joinPriority

theorem beacon_roundTrip_full :
    (tschPacketCreateEb ⟨true, true, true, true, false, true, false⟩ 0xabcd 0 (fun _ ↦ 9)
        ⟨fun _ ↦ 10, 4, fun _ ↦ 20, some (7, ⟨0, 1, 2⟩), 5⟩ = none ↔ (0xabcd : UInt16) = 0xffff) ∧
      ∀ frame hdrLen offset,
        tschPacketCreateEb ⟨true, true, true, true, false, true, false⟩ 0xabcd 0 (fun _ ↦ 9)
          ⟨fun _ ↦ 10, 4, fun _ ↦ 20, some (7, ⟨0, 1, 2⟩), 5⟩ = some (frame, hdrLen, offset) →
        ∀ asnLs4b asnMs1b joinPriority, BeaconParsed ⟨true, true, true, true, false, true, false⟩
          ⟨fun _ ↦ 10, 4, fun _ ↦ 20, some (7, ⟨0, 1, 2⟩), 5⟩ asnLs4b asnMs1b joinPriority
            (tschPacketUpdateEb asnLs4b asnMs1b joinPriority frame offset) hdrLen :=
  beacon_roundTrip _ _ _ _ _ (by decide)

end ContikiMaster.Framer
