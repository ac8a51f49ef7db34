import ContikiMaster.Framer.ReadElements
import ContikiMaster.Tsch.Associate
import ContikiMaster.Tsch.Mac

/-!
# The parameters of a node that has joined

A node that has joined computes its channels from the hopping sequence and its slots from
the timeslot length of the beacon. Both are what the last sub-elements have left, and the
length of the hopping sequence is taken over even where its list is not.
-/

namespace ContikiMaster.Tsch

open Lib Option
open Framer (MlmeSubie SlotParams Ies Frame ebSubies tschHoppingSequenceMaxLen
  tschTsElementsCount)

section Carried

variable (mem : ℕ → UInt8) (subies : List MlmeSubie)

/-- The identifier of the last hopping sequence of a beacon, 0 without one. -/
def hoppingSequenceId : UInt8 :=
  lastWrite MlmeSubie.isHopping (fun ie ↦ mem ie.content) subies 0

/-- The number of channels that the last hopping sequence with a list announces. -/
def announcedLen : UInt16 :=
  lastWrite MlmeSubie.announces (MlmeSubie.hoppingLen mem) subies 0

/-- The channel `c` stands in the list of a hopping sequence whose two lengths agree. -/
def ListsChannel (c : UInt8) : Prop :=
  ∃ ie ∈ subies, ie.lists mem = true ∧ ∃ k < (ie.hoppingLen mem).toNat, ie.channel mem k = c

def CarriesChannel (conf : JoinConf) (c : UInt8) : Prop :=
  if hoppingSequenceId mem subies = 0 then c ∈ conf.defaultHoppingSequence
  else ListsChannel mem subies c

/-- The identifier of the last timeslot of a beacon, 0 without one. -/
def timeslotId : UInt8 := lastWrite MlmeSubie.isTimeslot (fun ie ↦ mem ie.content) subies 0

/-- The timeslot length of the last timeslot with a timing, 0 without one. -/
def timeslotLength : UInt16 :=
  lastWrite MlmeSubie.hasTiming (fun ie ↦ ie.timing mem tschTsTimeslotLength) subies 0

/-- The beacon names the default sequence, or announces at least one channel and either lists as many
channels somewhere or lists the channel 0; it names the default timing, or carries a timeslot length
of at least one tick. -/
structure CarriesParameters (conf : JoinConf) : Prop where
  hopping : hoppingSequenceId mem subies = 0 ∨ 0 < (announcedLen mem subies).toNat ∧
    ((∃ ie ∈ subies, ie.lists mem = true ∧
      (announcedLen mem subies).toNat ≤ (ie.hoppingLen mem).toNat) ∨ ListsChannel mem subies 0)
  timeslot : timeslotId mem subies = 0 ∨ 0 < conf.usToRtimerticks (timeslotLength mem subies)

/-- The sequence has a length that fits, every channel is one that the beacon carries, and the
timeslot length is positive. -/
structure UsableParameters (conf : JoinConf) (s : Joiner) : Prop where
  length_pos : 1 ≤ s.tschHoppingSequenceLength.val
  length_le : s.tschHoppingSequenceLength.val ≤ tschHoppingSequenceMaxLen
  channel : ∀ asn channelOffset, channelOffset ≤ 15 → ∃ c,
    tschCalculateChannel s asn channelOffset = some c ∧ CarriesChannel mem subies conf c
  timeslotLength_pos : 0 < s.tschTiming tschTsTimeslotLength

end Carried

variable {conf : JoinConf} {ies : Ies} {s joined : Joiner}

/-- The parameters of a node that has adopted those of `ies`. -/
structure Adopted (conf : JoinConf) (ies : Ies) (s : Joiner) : Prop where
  timing : s.tschTiming = (adoptTiming conf ies s).tschTiming
  fits : ies.channelHoppingSequenceId ≠ 0 →
    ies.hoppingSequenceLen.toNat ≤ tschHoppingSequenceMaxLen
  length : s.tschHoppingSequenceLength.val =
    if ies.channelHoppingSequenceId = 0 then conf.defaultHoppingSequence.length
    else ies.hoppingSequenceLen.toNat
  sequence : ∀ i : Fin tschHoppingSequenceMaxLen, i.val < s.tschHoppingSequenceLength.val →
    s.tschHoppingSequence i = if ies.channelHoppingSequenceId = 0 then
      conf.defaultHoppingSequence.getD i 0 else ies.hoppingSequenceList i

theorem setHoppingSequence_spec {n : ℕ} {list : ℕ → UInt8}
    (hset : setHoppingSequence conf n list s = some joined) :
    joined.tschHoppingSequenceLength.val = n ∧ joined.tschTiming = s.tschTiming ∧
      ∀ i : Fin tschHoppingSequenceMaxLen, i.val < n → joined.tschHoppingSequence i = list i := by
  obtain ⟨div, hdiv, rfl⟩ := map_eq_some_iff.mp hset
  refine ⟨?_, rfl, fun i hi ↦ if_pos hi⟩
  rw [tschAsnDivisorInit] at hdiv
  split_ifs at hdiv with hzero
  · obtain ⟨remainder, -, rfl⟩ := map_eq_some_iff.mp hdiv
    rfl
  · rw [← some.inj hdiv]

theorem adoptHoppingSequence_spec (hadopt : adoptHoppingSequence conf ies s = some (true, joined))
    (htiming : s.tschTiming = (adoptTiming conf ies s).tschTiming) : Adopted conf ies joined := by
  rw [adoptHoppingSequence] at hadopt
  split_ifs at hadopt with hdefault hfits
  · obtain ⟨s', hset, heq⟩ := map_eq_some_iff.mp hadopt
    simp only [Prod.mk.injEq, true_and] at heq
    subst heq
    obtain ⟨hlength, hkept, hsequence⟩ := setHoppingSequence_spec hset
    refine ⟨?_, fun hid ↦ absurd hdefault hid, ?_, fun i hi ↦ ?_⟩
    · rw [hkept, htiming]
      rfl
    · rw [if_pos hdefault, hlength]
    · rw [if_pos hdefault, hsequence i (hlength ▸ hi)]
  · obtain ⟨s', hset, heq⟩ := map_eq_some_iff.mp hadopt
    simp only [Prod.mk.injEq, true_and] at heq
    subst heq
    obtain ⟨hlength, hkept, hsequence⟩ := setHoppingSequence_spec hset
    refine ⟨?_, fun _ ↦ hfits, ?_, fun i hi ↦ ?_⟩
    · rw [hkept, htiming]
      rfl
    · rw [if_neg hdefault, hlength]
    · rw [if_neg hdefault, hsequence i (hlength ▸ hi), dif_pos i.isLt]
  · simp at hadopt

theorem adoptTimeSource_spec {frame : Frame}
    (hadopt : adoptTimeSource frame s = .ok (true, joined)) :
    joined.tschTiming = s.tschTiming ∧ joined.tschHoppingSequence = s.tschHoppingSequence ∧
      joined.tschHoppingSequenceLength = s.tschHoppingSequenceLength := by
  rw [adoptTimeSource] at hadopt
  obtain ⟨⟨n, mac⟩, -, hadopt⟩ := bind_eq_ok hadopt
  cases n with
  | none => cases hadopt
  | some n =>
    obtain ⟨⟨found, mac'⟩, -, hreturn⟩ := bind_eq_ok hadopt
    cases hreturn
    exact ⟨rfl, rfl, rfl⟩

theorem Adopted.congr (hadopted : Adopted conf ies s) (htiming : joined.tschTiming = s.tschTiming)
    (hsequence : joined.tschHoppingSequence = s.tschHoppingSequence)
    (hlength : joined.tschHoppingSequenceLength = s.tschHoppingSequenceLength) :
    Adopted conf ies joined where
  timing := htiming.trans hadopted.timing
  fits := hadopted.fits
  length := by rw [hlength, hadopted.length]
  sequence := by
    rw [hlength, hsequence]
    exact hadopted.sequence

theorem tschAssociate_spec {fuel len : ℕ} {payload : ℕ → UInt8} {frame : Frame}
    (hjoined : tschAssociate conf fuel payload len frame ies s = some (true, joined)) :
    ∃ packet, Cursor.value (Framer.tschPacketParseEb conf.packetConf fuel len frame ies) payload 0 =
        some packet ∧ packet.ret ≠ 0 ∧ packet.ies.joinPriority ≠ 0xff ∧
      Adopted conf packet.ies joined := by
  rw [tschAssociate, bind_eq_bind, bind_eq_some_iff] at hjoined
  obtain ⟨packet, hparsed, hjoined⟩ := hjoined
  dsimp only at hjoined
  split_ifs at hjoined with hret hsecured hpanid hjoin
  · simp at hjoined
  · simp at hjoined
  · simp at hjoined
  · simp at hjoined
  · rw [bind_eq_bind, bind_eq_some_iff] at hjoined
    obtain ⟨⟨fits, s₁⟩, hhopping, hjoined⟩ := hjoined
    cases fits with
    | false => simp at hjoined
    | true =>
      simp only [not_true_eq_false, if_false, bind_eq_bind, bind_eq_some_iff] at hjoined
      obtain ⟨⟨fits, mac⟩, -, hjoined⟩ := hjoined
      cases fits with
      | false => simp at hjoined
      | true =>
        simp only [not_true_eq_false, if_false] at hjoined
        split_ifs at hjoined
        · obtain ⟨htiming, hsequence, hlength⟩ := adoptTimeSource_spec (toOption_eq_some hjoined)
          have hadopted := adoptHoppingSequence_spec hhopping rfl
          exact ⟨packet, hparsed, hret, hjoin, hadopted.congr htiming hsequence hlength⟩
        · simp at hjoined

theorem forall_channel_iff {p : UInt8 → Prop} (hpos : 1 ≤ s.tschHoppingSequenceLength.val)
    (hle : s.tschHoppingSequenceLength.val ≤ tschHoppingSequenceMaxLen) :
    (∀ asn channelOffset, channelOffset ≤ 15 → ∃ c,
        tschCalculateChannel s asn channelOffset = some c ∧ p c) ↔
      ∀ i : Fin tschHoppingSequenceMaxLen, i.val < s.tschHoppingSequenceLength.val →
        p (s.tschHoppingSequence i) := by
  have hzero : ¬s.tschHoppingSequenceLength.val = 0 := by omega
  constructor
  · intro hchannel i hi
    obtain ⟨c, hc, hp⟩ := hchannel ⟨i, 0⟩ 0 (Nat.zero_le 15)
    have hindex : (tschAsnMod s.mac.intWidth ⟨i, 0⟩ s.tschHoppingSequenceLength + 0) %
        s.tschHoppingSequenceLength.val = i.val := by
      have hwrap : i.val % 65536 % 2 ^ s.mac.intWidth.bits = i.val := by
        have hi16 : i.val < 65536 := i.isLt.trans (by decide)
        cases s.mac.intWidth <;> simp only [IntWidth.bits] <;> omega
      simp [tschAsnMod, IntWidth.wrap, Nat.mod_eq_of_lt hi, hwrap]
    simp only [tschCalculateChannel, if_neg hzero, hindex, i.isLt, dif_pos, some.injEq] at hc
    rwa [hc]
  · intro hsequence asn channelOffset _
    have hlt : (tschAsnMod s.mac.intWidth asn s.tschHoppingSequenceLength + channelOffset) %
        s.tschHoppingSequenceLength.val < s.tschHoppingSequenceLength.val := Nat.mod_lt _ hpos
    refine ⟨_, ?_, hsequence ⟨_, hlt.trans_le hle⟩ hlt⟩
    simp only [tschCalculateChannel, if_neg hzero, dif_pos (hlt.trans_le hle)]

section Elements

variable {mem : ℕ → UInt8} {subies : List MlmeSubie}
  (hread : ies.slotParams = subies.foldl (SlotParams.read mem) Ies.zero.slotParams)

include hread

theorem channelHoppingSequenceId_eq :
    ies.channelHoppingSequenceId = hoppingSequenceId mem subies := by
  have hlast := foldl_lastWrite (SlotParams.read mem) SlotParams.channelHoppingSequenceId
    (fun _ _ ↦ rfl) Ies.zero.slotParams subies
  rw [← hread] at hlast
  exact hlast

theorem hoppingSequenceLen_eq : ies.hoppingSequenceLen = announcedLen mem subies := by
  have hlast := foldl_lastWrite (SlotParams.read mem) SlotParams.hoppingSequenceLen
    (fun _ _ ↦ rfl) Ies.zero.slotParams subies
  rw [← hread] at hlast
  exact hlast

theorem timeslotId_eq : ies.timeslotId = timeslotId mem subies := by
  have hlast := foldl_lastWrite (SlotParams.read mem) SlotParams.timeslotId
    (fun _ _ ↦ rfl) Ies.zero.slotParams subies
  rw [← hread] at hlast
  exact hlast

theorem timeslot_eq : ies.timeslot tschTsTimeslotLength = timeslotLength mem subies := by
  have hlast := foldl_lastWrite (SlotParams.read mem)
    (fun params ↦ params.timeslot tschTsTimeslotLength) (fun params ie ↦ ite_apply _ _ _ _)
    Ies.zero.slotParams subies
  rw [← hread] at hlast
  exact hlast

theorem hoppingSequenceList_cases (i : Fin tschHoppingSequenceMaxLen) :
    (∃ ie ∈ subies, ie.lists mem = true ∧ i.val < (ie.hoppingLen mem).toNat ∧
        ies.hoppingSequenceList i = ie.channel mem i) ∨
      (∀ ie ∈ subies, ie.lists mem = true → (ie.hoppingLen mem).toNat ≤ i.val) ∧
        ies.hoppingSequenceList i = 0 := by
  have hlast := foldl_lastWrite (SlotParams.read mem)
    (fun params ↦ params.hoppingSequenceList i) (fun _ _ ↦ rfl) Ies.zero.slotParams subies
  rw [← hread] at hlast
  change ies.hoppingSequenceList i = lastWrite
    (fun ie ↦ ie.lists mem && decide (i.val < (ie.hoppingLen mem).toNat)) _ subies 0 at hlast
  rcases lastWrite_cases (fun ie ↦ ie.lists mem && decide (i.val < (ie.hoppingLen mem).toNat))
    (fun ie ↦ ie.channel mem i) subies 0 with ⟨ie, hie, hlists, heq⟩ | ⟨hnone, heq⟩
  · rw [Bool.and_eq_true, decide_eq_true_eq] at hlists
    exact Or.inl ⟨ie, hie, hlists.1, hlists.2, hlast.trans heq⟩
  · refine Or.inr ⟨fun ie hie hlists ↦ ?_, hlast.trans heq⟩
    have hshort := hnone ie hie
    rw [hlists, Bool.true_and, decide_eq_false_iff_not] at hshort
    exact Nat.le_of_not_lt hshort

theorem forall_listsChannel_iff {n : ℕ} (hpos : 0 < n) (hle : n ≤ tschHoppingSequenceMaxLen) :
    (∀ i : Fin tschHoppingSequenceMaxLen, i.val < n →
        ListsChannel mem subies (ies.hoppingSequenceList i)) ↔
      (∃ ie ∈ subies, ie.lists mem = true ∧ n ≤ (ie.hoppingLen mem).toNat) ∨
        ListsChannel mem subies 0 := by
  constructor
  · intro hlisted
    -- the last position is listed, or nothing lists as many channels
    have hlast := hlisted ⟨n - 1, by omega⟩ (Nat.sub_lt hpos Nat.one_pos)
    rcases hoppingSequenceList_cases hread ⟨n - 1, by omega⟩ with
      ⟨ie, hie, hlists, hcovered, -⟩ | ⟨-, hzero⟩
    · exact Or.inl ⟨ie, hie, hlists, by simp only at hcovered; omega⟩
    · rw [hzero] at hlast
      exact Or.inr hlast
  · intro hcarried i hi
    rcases hoppingSequenceList_cases hread i with ⟨ie, hie, hlists, hcovered, heq⟩ | ⟨hshort, hzero⟩
    · exact ⟨ie, hie, hlists, i, hcovered, heq.symm⟩
    · rw [hzero]
      apply hcarried.resolve_left
      rintro ⟨ie, hie, hlists, hlong⟩
      have hle := hshort ie hie hlists
      omega

end Elements

/-- The parameters of a node that has joined are usable exactly when the beacon carries them. -/
theorem usableParameters_iff {fuel len : ℕ} {payload : ℕ → UInt8} {frame : Frame}
    (hjoined : tschAssociate conf fuel payload len frame ies s = some (true, joined)) :
    UsableParameters payload (ebSubies conf.packetConf payload fuel len) conf joined ↔
      CarriesParameters payload (ebSubies conf.packetConf payload fuel len) conf := by
  obtain ⟨packet, hparsed, hret, hjoin, hadopted⟩ := tschAssociate_spec hjoined
  have hread := Framer.slotParams_parseEb hparsed hret hjoin
  generalize ebSubies conf.packetConf payload fuel len = subies at hread ⊢
  have hid := channelHoppingSequenceId_eq hread
  have hlen := hoppingSequenceLen_eq hread
  have htiming : 0 < joined.tschTiming tschTsTimeslotLength ↔
      timeslotId payload subies = 0 ∨
        0 < conf.usToRtimerticks (timeslotLength payload subies) := by
    rw [hadopted.timing, ← timeslotId_eq hread, ← timeslot_eq hread]
    change 0 < (if packet.ies.timeslotId = 0 then _ else _) ↔ _
    by_cases hdefault : packet.ies.timeslotId = 0
    · simp [hdefault, conf.timeslotLength_pos]
    · simp [hdefault]
  have hsequence := hadopted.sequence
  have hlength := hadopted.length
  rw [hid] at hsequence hlength
  by_cases hdefault : hoppingSequenceId payload subies = 0
  · simp only [if_pos hdefault] at hsequence hlength
    have hpos : 1 ≤ joined.tschHoppingSequenceLength.val := hlength ▸ conf.hoppingSequence_pos
    have hle : joined.tschHoppingSequenceLength.val ≤ tschHoppingSequenceMaxLen :=
      hlength ▸ conf.hoppingSequence_fits
    have hchannel : ∀ i : Fin tschHoppingSequenceMaxLen,
        i.val < joined.tschHoppingSequenceLength.val →
        CarriesChannel payload subies conf (joined.tschHoppingSequence i) := by
      intro i hi
      rw [CarriesChannel, if_pos hdefault, hsequence i hi, List.getD_eq_getElem _ _ (hlength ▸ hi)]
      exact List.getElem_mem _
    constructor
    · intro husable
      exact ⟨Or.inl hdefault, htiming.mp husable.timeslotLength_pos⟩
    · intro hcarries
      exact ⟨hpos, hle, (forall_channel_iff hpos hle).mpr hchannel, htiming.mpr hcarries.timeslot⟩
  · simp only [if_neg hdefault] at hsequence hlength
    rw [hlen] at hlength
    have hle : joined.tschHoppingSequenceLength.val ≤ tschHoppingSequenceMaxLen := by
      rw [hlength, ← hlen]
      exact hadopted.fits (hid ▸ hdefault)
    have hchannel : (∀ i : Fin tschHoppingSequenceMaxLen,
        i.val < joined.tschHoppingSequenceLength.val →
          CarriesChannel payload subies conf (joined.tschHoppingSequence i)) ↔
        ∀ i : Fin tschHoppingSequenceMaxLen, i.val < (announcedLen payload subies).toNat →
          ListsChannel payload subies (packet.ies.hoppingSequenceList i) := by
      rw [← hlength]
      apply forall_congr'
      intro i
      apply imp_congr_right
      intro hi
      rw [CarriesChannel, if_neg hdefault, hsequence i hi]
    constructor
    · intro husable
      have hpos := husable.length_pos
      have hlisted := hchannel.mp ((forall_channel_iff hpos hle).mp husable.channel)
      rw [hlength] at hpos hle
      exact ⟨Or.inr ⟨hpos, (forall_listsChannel_iff hread hpos hle).mp hlisted⟩,
        htiming.mp husable.timeslotLength_pos⟩
    · intro hcarries
      obtain ⟨hpos, hlisted⟩ := hcarries.hopping.resolve_left hdefault
      have hall := (forall_listsChannel_iff hread hpos (hlength ▸ hle)).mpr hlisted
      rw [← hlength] at hpos
      exact ⟨hpos, hle, (forall_channel_iff hpos hle).mpr (hchannel.mpr hall),
        htiming.mpr hcarries.timeslot⟩

/-- The default options on a platform whose clock counts microseconds. -/
def defaultJoin : JoinConf where
  packetConf := Framer.plainConf
  joinMyPanidOnly := true
  ieee802154Panid := 0xabcd
  initScheduleFromEb := true
  scheduleWith6tischMinimal := false
  scheduleDefaultLength := 7
  maxJoinPriority := 32
  defaultHoppingSequence := [15, 25, 26, 20]
  defaultTimingUs :=
    fun i ↦ [1800, 128, 2120, 1020, 800, 1000, 2200, 400, 192, 2400, 4256, 10000].getD i 0
  usToRtimerticks := UInt16.toNat
  remainderByZero := none
  hoppingSequence_pos := by decide
  hoppingSequence_fits := by decide
  timeslotLength_pos := by decide

def firstJoiner : Joiner :=
  ⟨Mac.zero smallConfig, fun _ ↦ 0, fun _ ↦ 0, ⟨0, 0⟩, 0xffff, false⟩

theorem usableParameters_iff_plainBeacon :
    ∃ joined, tschAssociate defaultJoin 8 (fun i ↦ Framer.plainBeacon.getD i 0) 35 Frame.zero
        Ies.zero firstJoiner = some (true, joined) ∧
      (UsableParameters (fun i ↦ Framer.plainBeacon.getD i 0)
          (ebSubies defaultJoin.packetConf (fun i ↦ Framer.plainBeacon.getD i 0) 8 35) defaultJoin
          joined ↔
        CarriesParameters (fun i ↦ Framer.plainBeacon.getD i 0)
          (ebSubies defaultJoin.packetConf (fun i ↦ Framer.plainBeacon.getD i 0) 8 35) defaultJoin) := by
  have hjoins : (tschAssociate defaultJoin 8 (fun i ↦ Framer.plainBeacon.getD i 0) 35 Frame.zero
      Ies.zero firstJoiner).map Prod.fst = some true := by decide +kernel
  obtain ⟨⟨flag, joined⟩, hjoined, hflag⟩ := map_eq_some_iff.mp hjoins
  change flag = true at hflag
  subst hflag
  exact ⟨joined, hjoined, usableParameters_iff hjoined⟩

/-- A beacon whose hopping sequence announces the one channel 20 in an element that is a byte
longer. -/
def longElementBeacon : List UInt8 :=
  [0x40, 0xeb, 0xcd, 0xab, 0xff, 0xff, 9, 9, 9, 9, 9, 9, 9, 9, 0x00, 0x3f, 0x18, 0x88, 0x06, 0x1a,
    0, 0, 0, 0, 0, 0, 0x0e, 0xc8, 1, 0, 0, 0, 0, 0, 0, 0, 1, 0, 20, 0, 0, 0]

/-- A node joins by the beacon and hops to the channel 0. -/
theorem not_usableParameters_longElement :
    ∃ joined, tschAssociate defaultJoin 8 (fun i ↦ longElementBeacon.getD i 0) 42 Frame.zero
        Ies.zero firstJoiner = some (true, joined) ∧
      ¬UsableParameters (fun i ↦ longElementBeacon.getD i 0)
        (ebSubies defaultJoin.packetConf (fun i ↦ longElementBeacon.getD i 0) 8 42) defaultJoin
        joined := by
  have hjoins : (tschAssociate defaultJoin 8 (fun i ↦ longElementBeacon.getD i 0) 42 Frame.zero
      Ies.zero firstJoiner).map (fun r ↦ (r.1, tschCalculateChannel r.2 ⟨0, 0⟩ 0)) =
        some (true, some 0) := by decide +kernel
  obtain ⟨⟨flag, joined⟩, hjoined, hresult⟩ := map_eq_some_iff.mp hjoins
  simp only [Prod.mk.injEq] at hresult
  obtain ⟨rfl, hchannel⟩ := hresult
  refine ⟨joined, hjoined, fun husable ↦ ?_⟩
  obtain ⟨c, hc, hcarried⟩ := husable.channel ⟨0, 0⟩ 0 (Nat.zero_le 15)
  rw [hchannel, some.injEq] at hc
  subst hc
  have hid : hoppingSequenceId (fun i ↦ longElementBeacon.getD i 0)
      (ebSubies defaultJoin.packetConf (fun i ↦ longElementBeacon.getD i 0) 8 42) ≠ 0 := by
    decide +kernel
  have hnone : ∀ ie ∈ ebSubies defaultJoin.packetConf (fun i ↦ longElementBeacon.getD i 0) 8 42,
      ie.lists (fun i ↦ longElementBeacon.getD i 0) = false := by decide +kernel
  rw [CarriesChannel, if_neg hid] at hcarried
  obtain ⟨ie, hie, hlists, -⟩ := hcarried
  rw [hnone ie hie] at hlists
  cases hlists

end ContikiMaster.Tsch
