import ContikiMaster.Framer.ElementWalk
import ContikiMaster.Framer.RoundTrip

/-!
# A written element is read back

A `SubIe` is the bytes a writer has produced with what reading them does to the elements
read so far. A list of them, announced by the MLME element, is read in as many turns as
it has elements.
-/

namespace ContikiMaster.Framer

open Lib Lib.Cursor List

variable {mem : ℕ → UInt8} {p o n start : ℕ} {ies₀ : Ies}

theorem word_of_holds {val : UInt16} (hholds : Holds mem p (write16 val)) :
    word (mem p) (mem (p + 1)) = val := by
  rw [write16, holds_cons, holds_cons] at hholds
  rw [hholds.1, hholds.2.1, word_write16]

theorem descriptorAt_of_holds (hn : n < 65536) (hholds : Holds mem o (write16 (UInt16.ofNat n))) :
    descriptorAt mem o = n := by
  rw [descriptorAt, word_of_holds hholds, UInt16.toNat_ofNat', Nat.mod_eq_of_lt hn]

theorem value_peek16 (mem : ℕ → UInt8) (p k : ℕ) :
    value (peek16 k) mem p = word (mem (p + k)) (mem (p + k + 1)) := rfl

/-! ## One turn for one sub-element -/

/-- The loop goes on from one pointer and state to another in one turn. -/
def Goes (conf : PacketConf) (start : ℕ) (mem : ℕ → UInt8) (o : ℕ) (s : IeParser) (o' : ℕ)
    (s' : IeParser) : Prop :=
  ∀ fuel, value (ieLoop conf start (fuel + 1) s) mem o = value (ieLoop conf start fuel s') mem o'

theorem goes_of_turn {conf : PacketConf} {o' : ℕ} {s s' : IeParser} (hsize : s.bufSize ≠ 0)
    (hturn : value (ieTurn conf start s) mem o = .goesOn s')
    (hnext : next (ieTurn conf start s) mem o = o') : Goes conf start mem o s o' s' := by
  intro fuel
  rw [(ieLoop_goesOn (e := 0) fuel hsize hturn).1, hnext]

/-- Bytes that one turn reads as a sub-element, and what reading does to the elements so far. -/
structure SubIe (conf : PacketConf) where
  bytes : List UInt8
  change : Ies → Ies
  long : Bool
  id : ℕ
  content : List UInt8
  bytes_eq : bytes = (if long then createMlmeLongIeDescriptor id content.length
    else createMlmeShortIeDescriptor id content.length) ++ content
  id_lt : id < if long then 16 else 128
  length_lt : content.length < 256
  reads : ∀ mem p ies, Holds mem p content →
    value (if long then parseMlmeLongIe content.length id ies
      else parseMlmeShortIe conf content.length id ies) mem p = some (change ies)

variable {conf : PacketConf}

theorem SubIe.length_bytes (ie : SubIe conf) : ie.bytes.length = 2 + ie.content.length := by
  rw [ie.bytes_eq, length_append]
  cases ie.long <;> rfl

theorem SubIe.descriptor (ie : SubIe conf) (hholds : Holds mem o ie.bytes) :
    (descriptorAt mem o / 32768 = 1 ↔ ie.long = true) ∧
      descriptorLen .mlmeSubie (descriptorAt mem o) = ie.content.length ∧
      descriptorId .mlmeSubie (descriptorAt mem o) = ie.id ∧ Holds mem (o + 2) ie.content := by
  have hid := ie.id_lt
  have hlength := ie.length_lt
  rw [ie.bytes_eq, holds_append] at hholds
  obtain ⟨hdesc, hcontent⟩ := hholds
  cases hlong : ie.long with
  | true =>
    rw [hlong] at hid hdesc hcontent
    simp only [if_true] at hid
    have hat := descriptorAt_of_holds (by omega) hdesc
    rw [hat, descriptorLen, descriptorId]
    refine ⟨by simp only [iff_true]; omega, ?_, ?_, hcontent⟩
    · rw [if_pos (by omega)]
      omega
    · rw [if_pos (by omega)]
      omega
  | false =>
    rw [hlong] at hid hdesc hcontent
    simp only [Bool.false_eq_true, if_false] at hid
    have hat := descriptorAt_of_holds (by omega) hdesc
    rw [hat, descriptorLen, descriptorId]
    refine ⟨by simp only [Bool.false_eq_true, iff_false]; omega, ?_, ?_, hcontent⟩
    · rw [if_neg (by omega)]
      omega
    · rw [if_neg (by omega)]
      omega

theorem mlmeSubieTurn_reads {desc len id : ℕ} {s : IeParser} {long : Bool} {ies : Ies}
    (hlong : desc / 32768 = 1 ↔ long = true) (hlen : descriptorLen .mlmeSubie desc = len)
    (hid : descriptorId .mlmeSubie desc = id)
    (hread : value (if long then parseMlmeLongIe len id s.ies
      else parseMlmeShortIe conf len id s.ies) mem p = some ies) (hfits : len ≤ s.bufSize)
    (hsize : s.bufSize < 256) (hnested : (2 + len : ℤ) ≤ s.nestedMlmeLen) :
    value (mlmeSubieTurn conf desc s) mem p = .goesOn ⟨s.bufSize - len,
        if s.nestedMlmeLen - (2 + len) = 0 then .payloadIe else s.parsingState,
        s.nestedMlmeLen - (2 + len), ies⟩ ∧ next (mlmeSubieTurn conf desc s) mem p = p + len := by
  simp only [descriptorLen] at hlen
  simp only [descriptorId] at hid
  have hreader : (if desc / 32768 = 1 then parseMlmeLongIe len id s.ies
      else parseMlmeShortIe conf len id s.ies) =
      if long then parseMlmeLongIe len id s.ies else parseMlmeShortIe conf len id s.ies :=
    if_congr hlong rfl rfl
  have hstays : next (if long then parseMlmeLongIe len id s.ies
      else parseMlmeShortIe conf len id s.ies) mem p = p := by
    cases long with
    | true => exact (readsElement_long id s.ies).stays
    | false => exact (readsElement_short conf id s.ies).stays
  have hgo : ¬s.nestedMlmeLen - (2 + len) < 0 := by omega
  have hwrap : (s.bufSize + 2048 - len) % 256 = s.bufSize - len := by omega
  rw [mlmeSubieTurn]
  simp only [hlen, hid, if_neg (Nat.not_lt.mpr hfits), hreader, value_bind, next_bind, hread, hstays,
    if_neg hgo]
  constructor
  · change IeTurn.goesOn ⟨(s.bufSize + 2048 - len) % 256, _, _, _⟩ = _
    rw [hwrap]
  · rfl

theorem SubIe.goes (ie : SubIe conf) {r : ℕ} (hholds : Holds mem o ie.bytes)
    (hr : ie.bytes.length + r < 256) (ies : Ies) : Goes conf start mem o
      ⟨ie.bytes.length + r, .mlmeSubie, (ie.bytes.length + r : ℕ), ies⟩ (o + ie.bytes.length)
      ⟨r, if r = 0 then .payloadIe else .mlmeSubie, r, ie.change ies⟩ := by
  obtain ⟨hlong, hlen, hid, hcontent⟩ := ie.descriptor hholds
  have hlength := ie.length_bytes
  have hread := ie.reads mem (o + 2) ies hcontent
  obtain ⟨hvalue, hnext⟩ := mlmeSubieTurn_reads (s := ⟨ie.bytes.length + r - 2, .mlmeSubie,
    (ie.bytes.length + r : ℕ), ies⟩) hlong hlen hid hread (by simp only; omega)
    (by simp only; omega) (by simp only; omega)
  have hshort : ¬ie.bytes.length + r < 2 := by omega
  have hleft : ie.bytes.length + r - 2 - ie.content.length = r := by omega
  have hnested : ((ie.bytes.length + r : ℕ) : ℤ) - (2 + ie.content.length) = r := by omega
  simp only [hleft, hnested, Int.natCast_eq_zero] at hvalue
  apply goes_of_turn
  · simp only
    omega
  · rw [ieTurn, if_neg hshort]
    exact hvalue
  · rw [ieTurn, if_neg hshort]
    apply hnext.trans
    omega

def subIesBytes (subs : List (SubIe conf)) : List UInt8 := subs.flatMap SubIe.bytes

theorem length_subIesBytes_cons (ie : SubIe conf) (subs : List (SubIe conf)) :
    (subIesBytes (ie :: subs)).length = ie.bytes.length + (subIesBytes subs).length :=
  length_append

/-- What reading a list of sub-elements does to the elements so far. -/
def subIesChange (subs : List (SubIe conf)) (ies : Ies) : Ies :=
  subs.foldl (fun ies ie ↦ ie.change ies) ies

theorem loop_subIes {subs : List (SubIe conf)} (hne : subs ≠ [])
    (hholds : Holds mem o (subIesBytes subs)) (hlength : (subIesBytes subs).length < 256)
    (ies : Ies) (fuel : ℕ) :
    value (ieLoop conf start (fuel + subs.length) ⟨(subIesBytes subs).length, .mlmeSubie,
        ((subIesBytes subs).length : ℕ), ies⟩) mem o =
      value (ieLoop conf start fuel ⟨0, .payloadIe, 0, subIesChange subs ies⟩) mem
        (o + (subIesBytes subs).length) := by
  induction subs generalizing o ies with
  | nil => exact absurd rfl hne
  | cons ie subs ih =>
    have hbytes : subIesBytes (ie :: subs) = ie.bytes ++ subIesBytes subs := rfl
    rw [hbytes, holds_append] at hholds
    rw [hbytes, length_append] at hlength
    have hstep := @SubIe.goes _ _ start _ ie _ hholds.1 hlength ies (fuel + subs.length)
    rw [hbytes, length_append, length_cons, ← Nat.add_assoc, hstep]
    by_cases hlast : subs = []
    · subst hlast
      rfl
    · have hpos : (subIesBytes subs).length ≠ 0 := by
        obtain ⟨ie', subs', rfl⟩ := exists_cons_of_ne_nil hlast
        have htwo := ie'.length_bytes
        simp only [subIesBytes, flatMap_cons, length_append]
        omega
      rw [if_neg hpos, ih hlast hholds.2 (by omega), Nat.add_assoc]
      rfl

/-! ## The writers of `frame802154e-ie.c` -/

theorem value_parseSynchronizationIe (mem : ℕ → UInt8) (p : ℕ) (ies : Ies) :
    value (parseSynchronizationIe 6 ies) mem p = some { ies with
      asnLs4b := UInt32.ofNat ((mem p).toNat + 256 * (mem (p + 1)).toNat +
        65536 * (mem (p + 2)).toNat + 16777216 * (mem (p + 3)).toNat)
      asnMs1b := mem (p + 4)
      joinPriority := mem (p + 5) } := rfl

theorem uint32_ofNat_bytes (w : UInt32) : UInt32.ofNat ((UInt8.ofNat (w.toNat % 256)).toNat +
      256 * (UInt8.ofNat (w.toNat / 256 % 256)).toNat +
      65536 * (UInt8.ofNat (w.toNat / 65536 % 256)).toNat +
      16777216 * (UInt8.ofNat (w.toNat / 16777216 % 256)).toNat) = w := by
  have hlt : w.toNat < 4294967296 := w.toNat_lt
  apply UInt32.toNat_inj.mp
  simp only [UInt32.toNat_ofNat', UInt8.toNat_ofNat']
  omega

def synchronizationSubIe (conf : PacketConf) (ies₀ : Ies) : SubIe conf where
  bytes := createMlmeShortIeDescriptor mlmeShortIeSynchronization 6 ++
    [UInt8.ofNat (ies₀.asnLs4b.toNat % 256), UInt8.ofNat (ies₀.asnLs4b.toNat / 256 % 256),
      UInt8.ofNat (ies₀.asnLs4b.toNat / 65536 % 256),
      UInt8.ofNat (ies₀.asnLs4b.toNat / 16777216 % 256), ies₀.asnMs1b, ies₀.joinPriority]
  change ies := { ies with
    asnLs4b := ies₀.asnLs4b, asnMs1b := ies₀.asnMs1b, joinPriority := ies₀.joinPriority }
  long := false
  id := mlmeShortIeSynchronization
  content := [UInt8.ofNat (ies₀.asnLs4b.toNat % 256), UInt8.ofNat (ies₀.asnLs4b.toNat / 256 % 256),
    UInt8.ofNat (ies₀.asnLs4b.toNat / 65536 % 256),
    UInt8.ofNat (ies₀.asnLs4b.toNat / 16777216 % 256), ies₀.asnMs1b, ies₀.joinPriority]
  bytes_eq := rfl
  id_lt := by decide
  length_lt := by simp
  reads mem p ies hholds := by
    simp only [holds_cons, holds_nil, and_true, Nat.add_assoc, Nat.reduceAdd] at hholds
    obtain ⟨h₀, h₁, h₂, h₃, h₄, h₅⟩ := hholds
    change value (parseSynchronizationIe 6 ies) mem p = _
    rw [value_parseSynchronizationIe, h₀, h₁, h₂, h₃, h₄, h₅, uint32_ofNat_bytes]

theorem length_flatMap_write16 (f : Fin n → UInt16) :
    ((ofFn f).flatMap write16).length = 2 * n := by
  rw [length_flatMap_of_const (k := 2) (f := write16) fun _ _ ↦ rfl, length_ofFn]

/-- The timings that stand in a timeslot element. -/
def timeslotAt (mem : ℕ → UInt8) (p : ℕ) : Fin tschTsElementsCount → UInt16 :=
  fun i ↦ word (mem (p + (1 + 2 * i))) (mem (p + (1 + 2 * i + 1)))

def timeslotSubIe (conf : PacketConf) (ies₀ : Ies) : SubIe conf where
  bytes := createMlmeShortIeDescriptor mlmeShortIeTimeslot (if ies₀.timeslotId = 0 then 1 else 25) ++
    (ies₀.timeslotId ::
      if ies₀.timeslotId ≠ 0 then (ofFn ies₀.timeslot).flatMap write16 else [])
  change ies := if ies₀.timeslotId = 0 then { ies with timeslotId := 0 }
    else { ies with timeslotId := ies₀.timeslotId, timeslot := ies₀.timeslot }
  long := false
  id := mlmeShortIeTimeslot
  content := ies₀.timeslotId ::
    if ies₀.timeslotId ≠ 0 then (ofFn ies₀.timeslot).flatMap write16 else []
  bytes_eq := by
    by_cases hid : ies₀.timeslotId = 0
    · simp [hid]
    · simp only [hid, if_false, ne_eq, not_false_eq_true, if_true, length_cons,
        length_flatMap_write16]
      rfl
  id_lt := by decide
  length_lt := by
    by_cases hid : ies₀.timeslotId = 0
    · simp [hid]
    · simp only [hid, ne_eq, not_false_eq_true, if_true, length_cons, length_flatMap_write16]
      decide
  reads mem p ies hholds := by
    by_cases hid : ies₀.timeslotId = 0
    · simp only [hid, ne_eq, not_true_eq_false, if_false, holds_cons] at hholds
      simp only [hid, if_true, ne_eq, not_true_eq_false, if_false]
      change some { ies with timeslotId := mem p } = _
      rw [hholds.1]
    · simp only [ne_eq, hid, not_false_eq_true, if_true, holds_cons] at hholds
      simp only [hid, ne_eq, not_false_eq_true, if_true, if_false, Bool.false_eq_true,
        length_cons, length_flatMap_write16]
      have htimeslot : timeslotAt mem p = ies₀.timeslot := by
        funext i
        have hi := holds_flatMap (k := 2) (fun _ _ ↦ rfl) hholds.2 (i := i)
          (by rw [length_ofFn]; exact i.isLt)
        rw [List.getElem_ofFn] at hi
        exact word_of_holds (by simpa [Nat.add_assoc] using hi)
      change some { ies with timeslotId := mem p, timeslot := timeslotAt mem p } = _
      rw [htimeslot, hholds.1]

def hoppingSequenceContent (ies₀ : Ies) : List UInt8 :=
  ies₀.channelHoppingSequenceId ::
    if ies₀.channelHoppingSequenceId ≠ 0 then
      [0, 0, 0, 0, 0, 0, 0] ++ (write16 ies₀.hoppingSequenceLen ++
        ((ofFn ies₀.hoppingSequenceList).take ies₀.hoppingSequenceLen.toNat ++ write16 0))
    else []

theorem length_hoppingSequenceContent
    (hfits : ies₀.hoppingSequenceLen.toNat ≤ tschHoppingSequenceMaxLen) :
    (hoppingSequenceContent ies₀).length =
      if ies₀.channelHoppingSequenceId = 0 then 1 else 12 + ies₀.hoppingSequenceLen.toNat := by
  by_cases hid : ies₀.channelHoppingSequenceId = 0
  · simp [hoppingSequenceContent, hid]
  · have htake : ((ofFn ies₀.hoppingSequenceList).take ies₀.hoppingSequenceLen.toNat).length =
        ies₀.hoppingSequenceLen.toNat := by
      rw [length_take, length_ofFn, Nat.min_eq_left hfits]
    have hword : ∀ val : UInt16, (write16 val).length = 2 := fun _ ↦ rfl
    simp only [hoppingSequenceContent, ne_eq, hid, not_false_eq_true, if_true, if_false,
      length_cons, length_append, length_nil, htake, hword]
    omega

theorem value_parseMlmeLongIe {n : UInt16} (ies : Ies) (hn : word (mem (p + 8)) (mem (p + 9)) = n)
    (hfits : n.toNat ≤ tschHoppingSequenceMaxLen) :
    value (parseMlmeLongIe (12 + n.toNat) mlmeLongIeChannelHoppingSequence ies) mem p =
      some { ies with
        channelHoppingSequenceId := mem p
        hoppingSequenceLen := n
        hoppingSequenceList := fun i ↦ if i.val < n.toNat then mem (p + (10 + i.val))
          else ies.hoppingSequenceList i } := by
  subst hn
  have hpos : 12 + (word (mem (p + 8)) (mem (p + 9))).toNat > 0 := by omega
  have hlong : 12 + (word (mem (p + 8)) (mem (p + 9))).toNat > 1 := by omega
  rw [parseMlmeLongIe, if_pos ⟨rfl, hpos⟩, value_bind, if_pos hlong, value_bind]
  simp only [next_peek, value_peek16]
  rw [if_pos ⟨hfits, trivial⟩]
  rfl

/-- The hopping sequence element, of a sequence that fits. -/
def hoppingSequenceSubIe (conf : PacketConf) (ies₀ : Ies)
    (hfits : ies₀.hoppingSequenceLen.toNat ≤ tschHoppingSequenceMaxLen) : SubIe conf where
  bytes := createMlmeLongIeDescriptor mlmeLongIeChannelHoppingSequence
      (if ies₀.channelHoppingSequenceId = 0 then 1 else 12 + ies₀.hoppingSequenceLen.toNat) ++
    hoppingSequenceContent ies₀
  change ies := if ies₀.channelHoppingSequenceId = 0 then { ies with channelHoppingSequenceId := 0 }
    else { ies with
      channelHoppingSequenceId := ies₀.channelHoppingSequenceId
      hoppingSequenceLen := ies₀.hoppingSequenceLen
      hoppingSequenceList := fun i ↦ if i.val < ies₀.hoppingSequenceLen.toNat
        then ies₀.hoppingSequenceList i else ies.hoppingSequenceList i }
  long := true
  id := mlmeLongIeChannelHoppingSequence
  content := hoppingSequenceContent ies₀
  bytes_eq := by
    rw [length_hoppingSequenceContent hfits]
    rfl
  id_lt := by decide
  length_lt := by
    have hmax : tschHoppingSequenceMaxLen = 16 := rfl
    rw [length_hoppingSequenceContent hfits]
    split_ifs <;> omega
  reads mem p ies hholds := by
    rw [length_hoppingSequenceContent hfits, if_pos rfl]
    rw [hoppingSequenceContent, holds_cons] at hholds
    by_cases hid : ies₀.channelHoppingSequenceId = 0
    · rw [if_pos hid, if_pos hid]
      change some { ies with channelHoppingSequenceId := mem p } = _
      rw [hholds.1, hid]
    · obtain ⟨hat, hrest⟩ := hholds
      rw [if_pos hid, holds_append, holds_append, holds_append] at hrest
      obtain ⟨-, hlen, hlist, -⟩ := hrest
      rw [if_neg hid, if_neg hid, value_parseMlmeLongIe ies (word_of_holds hlen) hfits, hat]
      congr 2
      funext i
      by_cases hi : i.val < ies₀.hoppingSequenceLen.toNat
      · rw [if_pos hi, if_pos hi]
        have hbyte := hlist i (by
          rw [length_take, length_ofFn]
          exact lt_min hi i.isLt)
        rw [List.getElem_take, List.getElem_ofFn] at hbyte
        calc mem (p + (10 + i.val)) = mem (p + 1 + 7 + 2 + i.val) := by congr 1; omega
          _ = ies₀.hoppingSequenceList i := hbyte
      · rw [if_neg hi, if_neg hi]

/-- The link that stands at an offset, as `writeLink` puts it. -/
def linkAt (mem : ℕ → UInt8) (p : ℕ) : IeLink :=
  ⟨word (mem p) (mem (p + 1)), word (mem (p + 2)) (mem (p + 3)), mem (p + 4)⟩

theorem linkAt_of_holds {link : IeLink} (hholds : Holds mem p (writeLink link)) :
    linkAt mem p = link := by
  rw [writeLink, holds_append, holds_append, holds_cons] at hholds
  obtain ⟨htimeslot, hoffset, hoptions, -⟩ := hholds
  have hlow := word_of_holds htimeslot
  have hhigh := word_of_holds hoffset
  rw [linkAt, hlow]
  congr 1

def slotframeAndLinkContent (ies₀ : Ies) : List UInt8 :=
  ies₀.slotframeAndLink.numSlotframes ::
    if ies₀.slotframeAndLink.numSlotframes.toNat = 1 then
      ies₀.slotframeAndLink.slotframeHandle ::
        (write16 ies₀.slotframeAndLink.slotframeSize ++
          (ies₀.slotframeAndLink.numLinks ::
            ((ofFn ies₀.slotframeAndLink.links).take
              ies₀.slotframeAndLink.numLinks.toNat).flatMap writeLink))
    else []

theorem length_slotframeAndLinkContent (hframes : ies₀.slotframeAndLink.numSlotframes.toNat ≤ 1)
    (hlinks : ies₀.slotframeAndLink.numLinks.toNat ≤ ieMaxLinks) :
    (slotframeAndLinkContent ies₀).length = 1 + ies₀.slotframeAndLink.numSlotframes.toNat *
        (4 + 5 * ies₀.slotframeAndLink.numLinks.toNat) := by
  have hflat : (((ofFn ies₀.slotframeAndLink.links).take
      ies₀.slotframeAndLink.numLinks.toNat).flatMap writeLink).length =
      5 * ies₀.slotframeAndLink.numLinks.toNat := by
    rw [length_flatMap_of_const (k := 5) (f := writeLink) fun _ _ ↦ rfl, length_take,
      length_ofFn, Nat.min_eq_left hlinks]
  have hword : ∀ val : UInt16, (write16 val).length = 2 := fun _ ↦ rfl
  by_cases hone : ies₀.slotframeAndLink.numSlotframes.toNat = 1
  · simp only [slotframeAndLinkContent, hone, if_true, length_cons, length_append, hflat,
      hword]
    omega
  · have hzero : ies₀.slotframeAndLink.numSlotframes.toNat = 0 := by omega
    simp [slotframeAndLinkContent, hzero]

theorem value_parseSlotframeAndLinkIe (ies : Ies) (hone : mem p = 1)
    (hlinks : (mem (p + 4)).toNat ≤ ieMaxLinks) :
    value (parseSlotframeAndLinkIe (1 + 1 * (4 + 5 * (mem (p + 4)).toNat)) ies) mem p =
      some { ies with slotframeAndLink := ⟨1, mem (p + 1), word (mem (p + 2)) (mem (p + 3)),
        mem (p + 4), fun i ↦ if i.val < (mem (p + 4)).toNat then linkAt mem (p + 5 + 5 * i.val)
          else ies.slotframeAndLink.links i⟩ } := by
  have hpos : 1 + 1 * (4 + 5 * (mem (p + 4)).toNat) ≥ 1 := by omega
  have hsome : ¬mem p = 0 := by
    rw [hone]
    decide
  have hfits : (mem p).toNat ≤ 1 ∧ (mem (p + 4)).toNat ≤ ieMaxLinks ∧
      1 + 1 * (4 + 5 * (mem (p + 4)).toNat) =
        1 + (mem p).toNat * (4 + 5 * (mem (p + 4)).toNat) := by
    rw [hone]
    exact ⟨le_rfl, hlinks, rfl⟩
  let byte := fun c ↦ if c < 5 * (mem (p + 4)).toNat then mem (p + (5 + c)) else 0
  have hbyte : ∀ c, c < 5 * (mem (p + 4)).toNat → byte c = mem (p + (5 + c)) := fun c hc ↦ if_pos hc
  rw [parseSlotframeAndLinkIe, if_pos hpos, value_bind, value_bind]
  change value (if mem p = 0 then _ else if (mem p).toNat ≤ 1 ∧
    (mem (p + 4)).toNat ≤ ieMaxLinks ∧ 1 + 1 * (4 + 5 * (mem (p + 4)).toNat) =
      1 + (mem p).toNat * (4 + 5 * (mem (p + 4)).toNat) then _ else _) mem p = _
  rw [if_neg hsome, if_pos hfits]
  change some { ies with slotframeAndLink := ⟨mem p, mem (p + 1), word (mem (p + 2)) (mem (p + 3)),
    mem (p + 4), fun i : Fin ieMaxLinks ↦ if i.val < (mem (p + 4)).toNat then
      ⟨word (byte (i * 5)) (byte (i * 5 + 1)), word (byte (i * 5 + 2)) (byte (i * 5 + 3)),
        byte (i * 5 + 4)⟩ else ies.slotframeAndLink.links i⟩ } = _
  rw [hone]
  congr 3
  funext i
  by_cases hi : i.val < (mem (p + 4)).toNat
  · have hoff : ∀ c, p + (5 + (i.val * 5 + c)) = p + 5 + 5 * i.val + c := by omega
    rw [if_pos hi, if_pos hi, hbyte _ (by omega), hbyte _ (by omega), hbyte _ (by omega),
      hbyte _ (by omega), hbyte _ (by omega), hoff, hoff, hoff, hoff, ← Nat.add_zero (i.val * 5),
      hoff]
    rfl
  · rw [if_neg hi, if_neg hi]

/-- The slotframe and link element, of at most one slotframe with as many links as fit. -/
def slotframeAndLinkSubIe (conf : PacketConf) (ies₀ : Ies)
    (hframes : ies₀.slotframeAndLink.numSlotframes.toNat ≤ 1)
    (hlinks : ies₀.slotframeAndLink.numLinks.toNat ≤ ieMaxLinks) : SubIe conf where
  bytes := createMlmeShortIeDescriptor mlmeShortIeSlotframeAndLink
      (1 + ies₀.slotframeAndLink.numSlotframes.toNat *
        (4 + 5 * ies₀.slotframeAndLink.numLinks.toNat)) ++ slotframeAndLinkContent ies₀
  change ies := if ies₀.slotframeAndLink.numSlotframes.toNat = 1 then
      { ies with slotframeAndLink := ⟨ies₀.slotframeAndLink.numSlotframes,
        ies₀.slotframeAndLink.slotframeHandle, ies₀.slotframeAndLink.slotframeSize,
        ies₀.slotframeAndLink.numLinks, fun i ↦
          if i.val < ies₀.slotframeAndLink.numLinks.toNat then ies₀.slotframeAndLink.links i
          else ies.slotframeAndLink.links i⟩ }
    else ies
  long := false
  id := mlmeShortIeSlotframeAndLink
  content := slotframeAndLinkContent ies₀
  bytes_eq := by
    rw [length_slotframeAndLinkContent hframes hlinks]
    rfl
  id_lt := by decide
  length_lt := by
    have hmax : ieMaxLinks = 4 := rfl
    rw [length_slotframeAndLinkContent hframes hlinks]
    have hmul : ies₀.slotframeAndLink.numSlotframes.toNat *
        (4 + 5 * ies₀.slotframeAndLink.numLinks.toNat) ≤ 1 * 24 :=
      Nat.mul_le_mul hframes (by omega)
    omega
  reads mem p ies hholds := by
    rw [length_slotframeAndLinkContent hframes hlinks]
    rw [slotframeAndLinkContent, holds_cons] at hholds
    change value (parseSlotframeAndLinkIe _ ies) mem p = _
    by_cases hone : ies₀.slotframeAndLink.numSlotframes.toNat = 1
    · have hbyte : ies₀.slotframeAndLink.numSlotframes = 1 := UInt8.toNat_inj.mp hone
      obtain ⟨hat, hrest⟩ := hholds
      rw [if_pos hone, holds_cons, holds_append, holds_cons] at hrest
      obtain ⟨hhandle, hsize, hnum, hflat⟩ := hrest
      change mem (p + 4) = _ at hnum
      rw [if_pos hone, hone, ← hnum, value_parseSlotframeAndLinkIe ies (hat.trans hbyte)
        (hnum ▸ hlinks)]
      have hlinkAt : ∀ i : Fin ieMaxLinks, i.val < (mem (p + 4)).toNat →
          linkAt mem (p + 5 + 5 * i.val) = ies₀.slotframeAndLink.links i := by
        intro i hi
        have hpiece := holds_flatMap (k := 5) (fun _ _ ↦ rfl) hflat (i := i) (by
          rw [length_take, length_ofFn, ← hnum]
          exact lt_min hi i.isLt)
        rw [List.getElem_take, List.getElem_ofFn] at hpiece
        exact linkAt_of_holds hpiece
      rw [← hbyte, hhandle, ← word_of_holds hsize]
      congr 3
      funext i
      by_cases hi : i.val < (mem (p + 4)).toNat
      · rw [if_pos hi, if_pos hi, hlinkAt i hi]
      · rw [if_neg hi, if_neg hi]
    · have hzero : ies₀.slotframeAndLink.numSlotframes.toNat = 0 := by omega
      have hbyte : mem p = 0 := hholds.1.trans (UInt8.toNat_inj.mp hzero)
      have hpos : 1 + 0 * (4 + 5 * ies₀.slotframeAndLink.numLinks.toNat) ≥ 1 := by omega
      rw [if_neg hone, hzero, parseSlotframeAndLinkIe, if_pos hpos, value_bind, value_bind]
      change value (if mem p = 0 then _ else _) mem p = _
      rw [if_pos hbyte]
      rfl

/-- The sequence number element, where the node's compilation has it. -/
def neighborDiscoverySubIe (ies₀ : Ies) (hconf : conf.ebWithNeighborDiscovery = true) :
    SubIe conf where
  bytes := createMlmeShortIeDescriptor mlmeShortIeNeighborDiscovery 2 ++ write16 ies₀.sequenceNumber
  change ies := { ies with sequenceNumber := ies₀.sequenceNumber }
  long := false
  id := mlmeShortIeNeighborDiscovery
  content := write16 ies₀.sequenceNumber
  bytes_eq := rfl
  id_lt := by decide
  length_lt := by
    change 2 < 256
    decide
  reads mem p ies hholds := by
    have hparse : parseMlmeShortIe conf 2 mlmeShortIeNeighborDiscovery ies =
        parseNeighborDiscoveryIe 2 ies := by
      rw [parseMlmeShortIe, if_neg (by decide), if_neg (by decide), if_neg (by decide),
        if_pos ⟨hconf, rfl⟩]
    change value (parseMlmeShortIe conf 2 mlmeShortIeNeighborDiscovery ies) mem p = _
    rw [hparse]
    change some { ies with sequenceNumber := word (mem p) (mem (p + 1)) } = _
    rw [word_of_holds hholds]

end ContikiMaster.Framer
