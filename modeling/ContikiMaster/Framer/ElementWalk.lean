import ContikiMaster.Framer.InformationElements

/-!
# Where the walk of the information elements reads

The element parser compares most lengths before it reads, but not the fixed offsets of two
sub-elements, nor the length of the payload element that carries 6top. The loop ends
within the frame exactly when no element on the walk from element to element leads out.
-/

namespace ContikiMaster.Framer

open Lib Lib.Cursor List Option

/-! ## Single elements -/

def AcceptsHeaderIe (len id : ℕ) : Prop := id = headerIeAckNackTimeCorrection ∧ len = 2

/-- The short sub-elements that are accepted, with their content at the offset `o`. -/
def AcceptsShortIe (conf : PacketConf) (mem : ℕ → UInt8) (o len id : ℕ) : Prop :=
  (id = mlmeShortIeSlotframeAndLink ∧ 1 ≤ len ∧
    (mem o = 0 ∨ ((mem o).toNat ≤ 1 ∧ (mem (o + 4)).toNat ≤ ieMaxLinks ∧
      len = 1 + (mem o).toNat * (4 + 5 * (mem (o + 4)).toNat)))) ∨
  (id = mlmeShortIeSynchronization ∧ len = 6) ∨
  (id = mlmeShortIeTimeslot ∧ (len = 1 ∨ len = 25)) ∨
  (conf.ebWithNeighborDiscovery = true ∧ id = mlmeShortIeNeighborDiscovery ∧ len = 2)

def AcceptsLongIe (len id : ℕ) : Prop := id = mlmeLongIeChannelHoppingSequence ∧ 0 < len

instance (len id : ℕ) : Decidable (AcceptsHeaderIe len id) :=
  inferInstanceAs (Decidable (_ ∧ _))

instance (conf : PacketConf) (mem : ℕ → UInt8) (o len id : ℕ) :
    Decidable (AcceptsShortIe conf mem o len id) :=
  inferInstanceAs (Decidable (_ ∨ _ ∨ _ ∨ _))

instance (len id : ℕ) : Decidable (AcceptsLongIe len id) :=
  inferInstanceAs (Decidable (_ ∧ _))

/-- A reader of one element of `len` bytes: it moves no pointer, it succeeds exactly when it
accepts the element, and it reads the element's bytes and those of `extra`. -/
structure ReadsElement (x : Cursor UInt8 (Option Ies)) (mem : ℕ → UInt8) (o len : ℕ)
    (accepts : Prop) (extra : List ℕ) : Prop where
  stays : next x mem o = o
  accepted : (value x mem o).isSome = true ↔ accepts
  reads : ∀ i ∈ touched x mem o, i < o + len ∨ i ∈ extra
  reaches : ∀ i ∈ extra, i ∈ touched x mem o

section ReadsElement

variable {mem : ℕ → UInt8} {o len : ℕ} {accepts : Prop} {extra : List ℕ}

theorem readsElement_none (hrejects : ¬accepts) : ReadsElement (pure none) mem o len accepts [] where
  stays := rfl
  accepted := by simp [hrejects]
  reads := by simp
  reaches := by simp

theorem readsElement_some (haccepts : accepts) (ies : Ies) :
    ReadsElement (pure (some ies)) mem o len accepts [] where
  stays := rfl
  accepted := by simp [haccepts]
  reads := by simp
  reaches := by simp

theorem ReadsElement.after {α : Type} {x : Cursor UInt8 α} {f : α → Cursor UInt8 (Option Ies)}
    {e : List ℕ} (hf : ReadsElement (f (value x mem o)) mem o len accepts extra)
    (hnext : next x mem o = o) (hreads : ∀ i ∈ touched x mem o, i < o + len ∨ i ∈ e)
    (hextra : ∀ i ∈ e, i ∈ touched x mem o) :
    ReadsElement (x >>= f) mem o len accepts (e ++ extra) where
  stays := by rw [next_bind, hnext, hf.stays]
  accepted := by rw [value_bind, hnext, hf.accepted]
  reads i hi := by
    rw [touched_bind, hnext, mem_append] at hi
    rw [mem_append]
    rcases hi with hi | hi
    · exact (hreads i hi).imp_right Or.inl
    · exact (hf.reads i hi).imp_right Or.inr
  reaches i hi := by
    rw [touched_bind, hnext, mem_append]
    exact (mem_append.mp hi).imp (hextra i) (hf.reaches i)

theorem ReadsElement.peek {k : ℕ} {f : UInt8 → Cursor UInt8 (Option Ies)} (hk : k < len)
    (hf : ReadsElement (f (mem (o + k))) mem o len accepts extra) :
    ReadsElement (Cursor.peek k >>= f) mem o len accepts extra := by
  apply ReadsElement.after (e := []) hf rfl
  · intro i hi
    rw [touched_peek, mem_singleton] at hi
    exact Or.inl (by omega)
  · simp

theorem ReadsElement.peek16 {k : ℕ} {f : UInt16 → Cursor UInt8 (Option Ies)} (hk : k + 1 < len)
    (hf : ∀ w, ReadsElement (f w) mem o len accepts extra) :
    ReadsElement (Framer.peek16 k >>= f) mem o len accepts extra := by
  apply ReadsElement.after (e := []) (hf _) rfl
  · intro i hi
    have hmem : i = o + k ∨ i = o + (k + 1) := by simpa [Framer.peek16] using hi
    exact Or.inl (by omega)
  · simp

theorem ReadsElement.peekEach {n : ℕ} {off : Fin n → ℕ}
    {f : (Fin n → UInt8) → Cursor UInt8 (Option Ies)} (hoff : ∀ c, off c < len)
    (hf : ∀ bytes, ReadsElement (f bytes) mem o len accepts extra) :
    ReadsElement (Cursor.peekEach n off >>= f) mem o len accepts extra := by
  apply ReadsElement.after (e := []) (hf _) rfl
  · intro i hi
    obtain ⟨c, rfl⟩ : ∃ c, o + off c = i := by simpa [mem_ofFn] using hi
    exact Or.inl (by have := hoff c; omega)
  · simp

theorem readsElement_header (id : ℕ) (ies : Ies) :
    ReadsElement (parseHeaderIe len id ies) mem o len (AcceptsHeaderIe len id) [] := by
  rw [parseHeaderIe, AcceptsHeaderIe]
  split_ifs with haccepts
  · apply ReadsElement.peek16 (by omega)
    intro w
    exact readsElement_some haccepts _
  · exact readsElement_none haccepts

theorem readsElement_slotframeAndLink (ies : Ies) :
    ReadsElement (parseSlotframeAndLinkIe len ies) mem o len
      (1 ≤ len ∧ (mem o = 0 ∨ ((mem o).toNat ≤ 1 ∧ (mem (o + 4)).toNat ≤ ieMaxLinks ∧
        len = 1 + (mem o).toNat * (4 + 5 * (mem (o + 4)).toNat))))
      (if 1 ≤ len then [o + 4] else []) := by
  rw [parseSlotframeAndLinkIe]
  by_cases hlen : 1 ≤ len
  · rw [if_pos hlen, if_pos hlen]
    apply ReadsElement.peek hlen
    apply ReadsElement.after (e := [o + 4]) _ rfl (by simp) (by simp)
    rw [value_peek, Nat.add_zero]
    split_ifs with hzero hlinks
    · exact readsElement_some ⟨hlen, Or.inl hzero⟩ _
    · have hpos : (mem o).toNat ≠ 0 := fun hzero' ↦ hzero (UInt8.toNat_inj.mp hzero')
      have hone : (mem o).toNat = 1 := by omega
      have hlen' : len = 5 + 5 * (mem (o + 4)).toNat := by
        rw [hlinks.2.2, hone]
        omega
      apply ReadsElement.peek (by omega)
      apply ReadsElement.peek16 (by omega)
      intro w
      apply ReadsElement.peekEach (fun c ↦ by omega)
      intro bytes
      exact readsElement_some ⟨hlen, Or.inr hlinks⟩ _
    · apply readsElement_none
      rintro ⟨-, hzero' | hlinks'⟩
      · exact hzero hzero'
      · exact hlinks hlinks'
  · rw [if_neg hlen, if_neg hlen]
    exact readsElement_none fun haccepts ↦ hlen haccepts.1

theorem ReadsElement.congr {x : Cursor UInt8 (Option Ies)} {accepts' : Prop}
    (hx : ReadsElement x mem o len accepts extra) (heq : accepts ↔ accepts') :
    ReadsElement x mem o len accepts' extra :=
  ⟨hx.stays, hx.accepted.trans heq, hx.reads, hx.reaches⟩

/-- What a short sub-element has read at a fixed offset. -/
def shortIeExtra (o len id : ℕ) : List ℕ :=
  if id = mlmeShortIeSlotframeAndLink ∧ 1 ≤ len then [o + 4] else []

/-- What a long sub-element has read at fixed offsets. -/
def longIeExtra (o len id : ℕ) : List ℕ :=
  if id = mlmeLongIeChannelHoppingSequence ∧ 1 < len then [o + 8, o + 9] else []

theorem readsElement_synchronization (ies : Ies) :
    ReadsElement (parseSynchronizationIe len ies) mem o len (len = 6) [] := by
  rw [parseSynchronizationIe]
  split_ifs with hlen
  · apply ReadsElement.peekEach (fun c ↦ by omega)
    intro bytes
    exact readsElement_some hlen _
  · exact readsElement_none hlen

theorem readsElement_timeslot (ies : Ies) :
    ReadsElement (parseTimeslotIe len ies) mem o len (len = 1 ∨ len = 25) [] := by
  rw [parseTimeslotIe]
  by_cases hlen : len = 1 ∨ len = 25
  · rw [if_pos hlen]
    apply ReadsElement.peek (by omega)
    split_ifs with hfull
    · have hi : ∀ i : Fin tschTsElementsCount, i.val < 12 := fun i ↦ i.isLt
      apply ReadsElement.peekEach (fun i ↦ by have := hi i; omega)
      intro low
      apply ReadsElement.peekEach (fun i ↦ by have := hi i; omega)
      intro high
      exact readsElement_some hlen _
    · exact readsElement_some hlen _
  · rw [if_neg hlen]
    exact readsElement_none hlen

theorem readsElement_neighborDiscovery (ies : Ies) :
    ReadsElement (parseNeighborDiscoveryIe len ies) mem o len (len = 2) [] := by
  rw [parseNeighborDiscoveryIe]
  split_ifs with hlen
  · apply ReadsElement.peek16 (by omega)
    intro w
    exact readsElement_some hlen _
  · exact readsElement_none hlen

theorem readsElement_short (conf : PacketConf) (id : ℕ) (ies : Ies) :
    ReadsElement (parseMlmeShortIe conf len id ies) mem o len (AcceptsShortIe conf mem o len id)
      (shortIeExtra o len id) := by
  rw [parseMlmeShortIe, shortIeExtra]
  by_cases hlinks : id = mlmeShortIeSlotframeAndLink
  · rw [if_pos hlinks]
    simp only [hlinks, true_and]
    apply (readsElement_slotframeAndLink ies).congr
    simp [AcceptsShortIe, mlmeShortIeSlotframeAndLink, mlmeShortIeSynchronization,
      mlmeShortIeTimeslot, mlmeShortIeNeighborDiscovery]
  have hextra : ¬(id = mlmeShortIeSlotframeAndLink ∧ 1 ≤ len) := fun hextra ↦ hlinks hextra.1
  rw [if_neg hlinks, if_neg hextra]
  by_cases hsync : id = mlmeShortIeSynchronization
  · rw [if_pos hsync]
    apply (readsElement_synchronization ies).congr
    simp [AcceptsShortIe, hsync, mlmeShortIeSlotframeAndLink, mlmeShortIeSynchronization,
      mlmeShortIeTimeslot, mlmeShortIeNeighborDiscovery]
  rw [if_neg hsync]
  by_cases htimeslot : id = mlmeShortIeTimeslot
  · rw [if_pos htimeslot]
    apply (readsElement_timeslot ies).congr
    simp [AcceptsShortIe, htimeslot, mlmeShortIeSlotframeAndLink, mlmeShortIeSynchronization,
      mlmeShortIeTimeslot, mlmeShortIeNeighborDiscovery]
  rw [if_neg htimeslot]
  split_ifs with hdiscovery
  · apply (readsElement_neighborDiscovery ies).congr
    simp [AcceptsShortIe, hdiscovery.1, hdiscovery.2, mlmeShortIeSlotframeAndLink,
      mlmeShortIeSynchronization, mlmeShortIeTimeslot, mlmeShortIeNeighborDiscovery]
  · apply readsElement_none
    simp only [AcceptsShortIe, hlinks, hsync, htimeslot, false_and, false_or]
    tauto

theorem readsElement_long (id : ℕ) (ies : Ies) :
    ReadsElement (parseMlmeLongIe len id ies) mem o len (AcceptsLongIe len id)
      (longIeExtra o len id) := by
  rw [parseMlmeLongIe, longIeExtra, AcceptsLongIe]
  by_cases haccepts : id = mlmeLongIeChannelHoppingSequence ∧ 0 < len
  · rw [if_pos haccepts]
    apply ReadsElement.peek haccepts.2
    by_cases hlong : len > 1
    · rw [if_pos hlong, if_pos ⟨haccepts.1, hlong⟩]
      apply ReadsElement.after (e := [o + 8, o + 9]) _ rfl (by simp [peek16]) (by simp [peek16])
      dsimp only
      split_ifs with hlist
      · apply ReadsElement.peekEach (fun c ↦ by omega)
        intro bytes
        exact readsElement_some haccepts _
      · exact readsElement_some haccepts _
    · rw [if_neg hlong, if_neg fun hextra ↦ hlong hextra.2]
      exact readsElement_some haccepts _
  · rw [if_neg haccepts, if_neg fun hextra ↦ haccepts ⟨hextra.1, Nat.lt_of_succ_lt hextra.2⟩]
    exact readsElement_none haccepts

end ReadsElement

/-! ## Walking the elements -/

/-- Where the walk of the element list stands: the offset of the next descriptor, the bytes that
are left, and the state of the walk. -/
structure IePosition where
  offset : ℕ
  left : ℕ
  parsingState : ParsingState
  nestedMlmeLen : ℤ

/-- The descriptor that stands at the offset `o`. -/
def descriptorAt (mem : ℕ → UInt8) (o : ℕ) : ℕ := (word (mem o) (mem (o + 1))).toNat

def descriptorLen (state : ParsingState) (desc : ℕ) : ℕ :=
  match state with
  | .headerIe => desc % 128
  | .payloadIe => desc % 2048
  | .mlmeSubie => if desc / 32768 = 1 then desc % 2048 else desc % 256

def descriptorId (state : ParsingState) (desc : ℕ) : ℕ :=
  match state with
  | .headerIe => desc / 128 % 256
  | .payloadIe => desc / 2048 % 16
  | .mlmeSubie => if desc / 32768 = 1 then desc / 2048 % 16 else desc / 256 % 128

/-- The position behind the element at `pos`, where the element lies in the frame, is accepted and
does not end the walk. -/
def walk (conf : PacketConf) (mem : ℕ → UInt8) (pos : IePosition) : Option IePosition :=
  let desc := descriptorAt mem pos.offset
  let len := descriptorLen pos.parsingState desc
  let id := descriptorId pos.parsingState desc
  let left := pos.left - 2
  if pos.left < 2 then none
  else
    match pos.parsingState with
    | .headerIe =>
      if desc / 32768 = 0 ∧ id = headerIeListTermination1 ∧ len = 0 then
        some ⟨pos.offset + 2, left, .payloadIe, pos.nestedMlmeLen⟩
      else if desc / 32768 = 0 ∧ AcceptsHeaderIe len id ∧ len ≤ left then
        some ⟨pos.offset + 2 + len, left - len, .headerIe, pos.nestedMlmeLen⟩
      else none
    | .payloadIe =>
      if desc / 32768 = 1 ∧ id = payloadIeMlme then
        some ⟨pos.offset + 2, left, .mlmeSubie, len⟩
      else if desc / 32768 = 1 ∧ conf.withSixtop = true ∧ id = payloadIeIetf ∧ 1 ≤ left ∧
          len ≤ left then
        some ⟨pos.offset + 2 + len, left - len, .payloadIe, pos.nestedMlmeLen⟩
      else none
    | .mlmeSubie =>
      if len ≤ left ∧ (if desc / 32768 = 1 then AcceptsLongIe len id
            else AcceptsShortIe conf mem (pos.offset + 2) len id) ∧
          (2 + len : ℤ) ≤ pos.nestedMlmeLen then
        some ⟨pos.offset + 2 + len, left - len,
          if pos.nestedMlmeLen - (2 + len) = 0 then .payloadIe else .mlmeSubie,
          pos.nestedMlmeLen - (2 + len)⟩
      else none

/-- The walk goes on from `pos` to `pos'`. -/
def WalksTo (conf : PacketConf) (mem : ℕ → UInt8) (pos pos' : IePosition) : Prop :=
  walk conf mem pos = some pos'

/-- The element at `pos` leads the parser out of the frame: a 6top element without content, or of a
length that exceeds what is left by something other than the wrap-around of eight bits to 0 or 1; a
slotframe and link element whose fifth byte, or a hopping sequence element whose tenth byte, is
not in the frame. -/
def Overruns (conf : PacketConf) (mem : ℕ → UInt8) (pos : IePosition) : Prop :=
  let desc := descriptorAt mem pos.offset
  let len := descriptorLen pos.parsingState desc
  let id := descriptorId pos.parsingState desc
  let left := pos.left - 2
  2 ≤ pos.left ∧
  match pos.parsingState with
  | .headerIe => False
  | .payloadIe => desc / 32768 = 1 ∧ conf.withSixtop = true ∧ id = payloadIeIetf ∧
      (left = 0 ∨ left < len ∧ 2 ≤ (left + 2048 - len) % 256)
  | .mlmeSubie => len ≤ left ∧
      if desc / 32768 = 1 then id = mlmeLongIeChannelHoppingSequence ∧ 1 < len ∧ left < 10
      else id = mlmeShortIeSlotframeAndLink ∧ 1 ≤ len ∧ left < 5

/-- No element that the walk from `pos` comes to leads out of the frame. -/
def StaysInFrame (conf : PacketConf) (mem : ℕ → UInt8) (pos : IePosition) : Prop :=
  ∀ pos', Relation.ReflTransGen (WalksTo conf mem) pos pos' →
    ¬Overruns conf mem pos'

/-- The locals of the loop agree with a position of the walk. -/
structure IeParser.At (s : IeParser) (pos : IePosition) : Prop where
  bufSize : s.bufSize = pos.left
  parsingState : s.parsingState = pos.parsingState
  nestedMlmeLen : s.nestedMlmeLen = pos.nestedMlmeLen

/-- What a turn `x` of the loop does in a frame that ends at `e`, with at most `n` bytes left after
it: it returns, it goes on where the walk does, it wraps the bytes that are left around to 0 or 1,
or it leads out of the frame. -/
inductive TurnOutcome (start e n : ℕ) (x : Cursor UInt8 IeTurn) (mem : ℕ → UInt8) (o : ℕ)
    (overrun : Prop) : Option IePosition → Prop
  | stops (ret : Option ℕ) (ies : Ies) : value x mem o = .returns ret ies →
      (∀ k, ret = some k → start + k ≤ e) → StaysBelow e x mem o → ¬overrun →
      TurnOutcome start e n x mem o overrun none
  | goesOn (s : IeParser) (pos : IePosition) : value x mem o = .goesOn s → s.At pos →
      x.next mem o = pos.offset → pos.offset + pos.left = e → pos.left ≤ n →
      StaysBelow e x mem o → ¬overrun → TurnOutcome start e n x mem o overrun (some pos)
  | wraps (s : IeParser) : value x mem o = .goesOn s → s.bufSize < 2 → start ≤ x.next mem o →
      (s.bufSize = 0 → x.next mem o % 256 = e % 256) → StaysBelow e x mem o → ¬overrun →
      TurnOutcome start e n x mem o overrun none
  | overruns (pos : Option IePosition) : overrun →
      (¬StaysBelow e x mem o ∨ ∃ s, value x mem o = .goesOn s ∧ 2 ≤ s.bufSize ∧
        e ≤ x.next mem o) →
      TurnOutcome start e n x mem o overrun pos

section Turns

variable {conf : PacketConf} {start e n o desc : ℕ} {mem : ℕ → UInt8} {s : IeParser}
  {overrun : Prop}

theorem turnOutcome_returns {ret : Option ℕ} {ies : Ies} (hret : ∀ k, ret = some k → start + k ≤ e)
    (hover : ¬overrun) : TurnOutcome start e n (pure (.returns ret ies)) mem o overrun none :=
  .stops ret ies rfl hret (staysBelow_pure _ _ _) hover

theorem turnOutcome_advance {len : ℕ} (hsize : s.bufSize < 256) (hlen : len ≤ s.bufSize)
    (he : e = o + s.bufSize) (hn : s.bufSize ≤ n) (hover : ¬overrun) :
    TurnOutcome start e n (IeParser.advance len s) mem o overrun
      (some ⟨o + len, s.bufSize - len, s.parsingState, s.nestedMlmeLen⟩) := by
  apply TurnOutcome.goesOn _ _ rfl
  · constructor
    · change (s.bufSize + 2048 - len) % 256 = s.bufSize - len
      omega
    · rfl
    · rfl
  · rfl
  · simp only
    omega
  · simp only
    omega
  · simp [StaysBelow, IeParser.advance]
  · exact hover

theorem TurnOutcome.after {α : Type} {x : Cursor UInt8 α} {f : α → Cursor UInt8 IeTurn}
    {pos : Option IePosition} {c : ℕ} (hnext : x.next mem o = c) (hbelow : StaysBelow e x mem o)
    (hf : TurnOutcome start e n (f (value x mem o)) mem c overrun pos) :
    TurnOutcome start e n (x >>= f) mem o overrun pos := by
  subst hnext
  cases hf with
  | stops ret ies hvalue hret hreads hover =>
    exact .stops ret ies hvalue hret (staysBelow_bind.mpr ⟨hbelow, hreads⟩) hover
  | goesOn s pos hvalue hat hnext hend hleft hreads hover =>
    exact .goesOn s pos hvalue hat hnext hend hleft (staysBelow_bind.mpr ⟨hbelow, hreads⟩) hover
  | wraps s hvalue hsmall hstart hmod hreads hover =>
    exact .wraps s hvalue hsmall hstart hmod (staysBelow_bind.mpr ⟨hbelow, hreads⟩) hover
  | overruns pos hover hout =>
    refine .overruns pos hover (hout.imp ?_ id)
    intro hreads hall
    exact hreads (staysBelow_bind.mp hall).2

theorem staysBelow_here (n : ℕ) (mem : ℕ → UInt8) (p : ℕ) :
    StaysBelow n (here : Cursor UInt8 ℕ) mem p := by
  simp [StaysBelow]

theorem headerIeTurn_outcome (hstate : s.parsingState = .headerIe) (hsize : s.bufSize < 256)
    (he : e = o + s.bufSize) (hn : s.bufSize ≤ n) (hstart : start ≤ o) (hover : ¬overrun) :
    TurnOutcome start e n (headerIeTurn start desc s) mem o overrun
      (if desc / 32768 = 0 ∧ desc / 128 % 256 = headerIeListTermination1 ∧ desc % 128 = 0 then
        some ⟨o, s.bufSize, .payloadIe, s.nestedMlmeLen⟩
      else if desc / 32768 = 0 ∧ AcceptsHeaderIe (desc % 128) (desc / 128 % 256) ∧
          desc % 128 ≤ s.bufSize then
        some ⟨o + desc % 128, s.bufSize - desc % 128, .headerIe, s.nestedMlmeLen⟩
      else none) := by
  have hreturns : ∀ ies, TurnOutcome start e n (pure (.returns none ies)) mem o overrun none :=
    fun ies ↦ turnOutcome_returns (by simp) hover
  rw [headerIeTurn]
  by_cases htype : desc / 32768 = 0
  · rw [if_neg (not_not_intro htype)]
    by_cases hfirst : desc / 128 % 256 = headerIeListTermination1
    · have hid : ¬AcceptsHeaderIe (desc % 128) (desc / 128 % 256) := by
        rw [hfirst]
        exact fun haccepts ↦ absurd haccepts.1 (by decide)
      rw [if_pos hfirst]
      by_cases hlen : desc % 128 = 0
      · rw [if_pos hlen, if_pos ⟨htype, hfirst, hlen⟩, hlen]
        apply TurnOutcome.after rfl (staysBelow_here _ _ _)
        refine turnOutcome_advance ?_ ?_ ?_ ?_ hover
        exacts [hsize, Nat.zero_le _, he, hn]
      · rw [if_neg hlen, if_neg fun h ↦ hlen h.2.2, if_neg fun h ↦ hid h.2.1]
        exact hreturns s.ies
    · have hfirst' : ¬(desc / 32768 = 0 ∧ desc / 128 % 256 = headerIeListTermination1 ∧
          desc % 128 = 0) := fun h ↦ hfirst h.2.1
      rw [if_neg hfirst, if_neg hfirst']
      by_cases hsecond : desc / 128 % 256 = headerIeListTermination2
      · have hid : ¬(desc / 32768 = 0 ∧ AcceptsHeaderIe (desc % 128) (desc / 128 % 256) ∧
            desc % 128 ≤ s.bufSize) := by
          rw [hsecond]
          exact fun haccepts ↦ absurd haccepts.2.1.1 (by decide)
        rw [if_pos hsecond, if_neg hid]
        split_ifs with hlen
        · apply TurnOutcome.after rfl (staysBelow_here _ _ _)
          apply turnOutcome_returns _ hover
          intro k hk
          simp only [value_here, hlen, some.injEq] at hk
          omega
        · exact hreturns s.ies
      · rw [if_neg hsecond]
        by_cases hlong : desc % 128 > s.bufSize
        · rw [if_pos hlong, if_neg fun h ↦ absurd h.2.2 (Nat.not_le.mpr hlong)]
          exact hreturns s.ies
        · rw [if_neg hlong]
          have hreads := @readsElement_header mem o (desc % 128) (desc / 128 % 256) s.ies
          apply TurnOutcome.after hreads.stays
          · intro i hi
            have hbound := (hreads.reads i hi).resolve_right (not_mem_nil)
            omega
          · cases hvalue : value (parseHeaderIe (desc % 128) (desc / 128 % 256) s.ies) mem o with
            | none =>
              have hrejects : ¬AcceptsHeaderIe (desc % 128) (desc / 128 % 256) := by
                rw [← hreads.accepted, hvalue]
                simp
              rw [if_neg fun h ↦ hrejects h.2.1]
              exact hreturns s.ies
            | some ies =>
              have haccepts : AcceptsHeaderIe (desc % 128) (desc / 128 % 256) := by
                rw [← hreads.accepted, hvalue]
                rfl
              rw [if_pos ⟨htype, haccepts, Nat.le_of_not_lt hlong⟩, ← hstate]
              refine turnOutcome_advance ?_ ?_ ?_ ?_ hover
              exacts [hsize, Nat.le_of_not_lt hlong, he, hn]
  · rw [if_pos htype, if_neg fun h ↦ htype h.1, if_neg fun h ↦ htype h.1]
    exact hreturns s.ies

theorem payloadIeTurn_outcome (hstate : s.parsingState = .payloadIe) (hsize : s.bufSize < 256)
    (he : e = o + s.bufSize) (hn : s.bufSize ≤ n) (hstart : start ≤ o)
    (hover : overrun ↔ desc / 32768 = 1 ∧ conf.withSixtop = true ∧
      desc / 2048 % 16 = payloadIeIetf ∧ (s.bufSize = 0 ∨ s.bufSize < desc % 2048 ∧
        2 ≤ (s.bufSize + 2048 - desc % 2048) % 256)) :
    TurnOutcome start e n (payloadIeTurn conf start desc s) mem o overrun
      (if desc / 32768 = 1 ∧ desc / 2048 % 16 = payloadIeMlme then
        some ⟨o, s.bufSize, .mlmeSubie, (desc % 2048 : ℕ)⟩
      else if desc / 32768 = 1 ∧ conf.withSixtop = true ∧ desc / 2048 % 16 = payloadIeIetf ∧
          1 ≤ s.bufSize ∧ desc % 2048 ≤ s.bufSize then
        some ⟨o + desc % 2048, s.bufSize - desc % 2048, .payloadIe, s.nestedMlmeLen⟩
      else none) := by
  rw [payloadIeTurn]
  by_cases htype : desc / 32768 = 1
  · rw [if_neg (not_not_intro htype)]
    by_cases hmlme : desc / 2048 % 16 = payloadIeMlme
    · have hnot : ¬overrun := by
        rw [hover, hmlme]
        exact fun h ↦ absurd h.2.2.1 (by decide)
      rw [if_pos hmlme, if_pos ⟨htype, hmlme⟩]
      refine turnOutcome_advance ?_ ?_ ?_ ?_ hnot
      exacts [hsize, Nat.zero_le _, he, hn]
    · have hmlme' : ¬(desc / 32768 = 1 ∧ desc / 2048 % 16 = payloadIeMlme) := fun h ↦ hmlme h.2
      rw [if_neg hmlme, if_neg hmlme']
      by_cases hietf : conf.withSixtop = true ∧ desc / 2048 % 16 = payloadIeIetf
      · rw [if_pos hietf]
        by_cases hempty : s.bufSize = 0
        · apply TurnOutcome.overruns _ (hover.mpr ⟨htype, hietf.1, hietf.2, Or.inl hempty⟩)
          left
          intro hbelow
          have hread := staysBelow_peek.mp (staysBelow_bind.mp hbelow).1
          omega
        have hread : StaysBelow e (peek 0 : Cursor UInt8 UInt8) mem o := by
          rw [staysBelow_peek]
          omega
        by_cases hlen : desc % 2048 ≤ s.bufSize
        · have hnot : ¬overrun := by
            rw [hover]
            exact fun h ↦ absurd (h.2.2.2.resolve_left hempty).1 (Nat.not_lt.mpr hlen)
          rw [if_pos ⟨htype, hietf.1, hietf.2, by omega, hlen⟩, ← hstate]
          apply TurnOutcome.after rfl hread
          apply TurnOutcome.after rfl (staysBelow_here _ _ _)
          refine turnOutcome_advance ?_ ?_ ?_ ?_ hnot
          exacts [hsize, hlen, he, hn]
        · have hlen' : ¬(desc / 32768 = 1 ∧ conf.withSixtop = true ∧
              desc / 2048 % 16 = payloadIeIetf ∧ 1 ≤ s.bufSize ∧ desc % 2048 ≤ s.bufSize) :=
            fun h ↦ hlen h.2.2.2.2
          rw [if_neg hlen']
          apply TurnOutcome.after rfl hread
          apply TurnOutcome.after rfl (staysBelow_here _ _ _)
          -- the bytes that are left wrap around
          by_cases hwrap : 2 ≤ (s.bufSize + 2048 - desc % 2048) % 256
          · apply TurnOutcome.overruns _
              (hover.mpr ⟨htype, hietf.1, hietf.2, Or.inr ⟨by omega, hwrap⟩⟩)
            right
            refine ⟨_, rfl, hwrap, ?_⟩
            change e ≤ o + desc % 2048
            omega
          · have hnot : ¬overrun := by
              rw [hover]
              exact fun h ↦ hwrap (h.2.2.2.resolve_left hempty).2
            apply TurnOutcome.wraps _ rfl
            · change (s.bufSize + 2048 - desc % 2048) % 256 < 2
              omega
            · change start ≤ o + desc % 2048
              omega
            · intro hzero
              change (s.bufSize + 2048 - desc % 2048) % 256 = 0 at hzero
              change (o + desc % 2048) % 256 = e % 256
              omega
            · simp [StaysBelow, IeParser.advance]
            · exact hnot
      · have hnot : ¬overrun := by
          rw [hover]
          exact fun h ↦ hietf ⟨h.2.1, h.2.2.1⟩
        have hietf' : ¬(desc / 32768 = 1 ∧ conf.withSixtop = true ∧
            desc / 2048 % 16 = payloadIeIetf ∧ 1 ≤ s.bufSize ∧ desc % 2048 ≤ s.bufSize) :=
          fun h ↦ hietf ⟨h.2.1, h.2.2.1⟩
        rw [if_neg hietf, if_neg hietf']
        split_ifs with hterm hlen
        · apply TurnOutcome.after rfl (staysBelow_here _ _ _)
          apply turnOutcome_returns _ hnot
          intro k hk
          simp only [value_here, hlen, some.injEq] at hk
          omega
        · apply TurnOutcome.after rfl (staysBelow_here _ _ _)
          exact turnOutcome_returns (by simp) hnot
        · exact turnOutcome_returns (by simp) hnot
  · have hnot : ¬overrun := by
      rw [hover]
      exact fun h ↦ htype h.1
    rw [if_pos htype, if_neg fun h ↦ htype h.1, if_neg fun h ↦ htype h.1]
    exact turnOutcome_returns (by simp) hnot

theorem mlmeSubieTurn_outcome (hstate : s.parsingState = .mlmeSubie) (hsize : s.bufSize < 256)
    (he : e = o + s.bufSize) (hn : s.bufSize ≤ n) {len id : ℕ}
    (hlen : len = descriptorLen .mlmeSubie desc) (hid : id = descriptorId .mlmeSubie desc)
    (hover : overrun ↔ len ≤ s.bufSize ∧
      if desc / 32768 = 1 then id = mlmeLongIeChannelHoppingSequence ∧ 1 < len ∧ s.bufSize < 10
      else id = mlmeShortIeSlotframeAndLink ∧ 1 ≤ len ∧ s.bufSize < 5) :
    TurnOutcome start e n (mlmeSubieTurn conf desc s) mem o overrun
      (if len ≤ s.bufSize ∧ (if desc / 32768 = 1 then AcceptsLongIe len id
            else AcceptsShortIe conf mem o len id) ∧ (2 + len : ℤ) ≤ s.nestedMlmeLen then
        some ⟨o + len, s.bufSize - len,
          if s.nestedMlmeLen - (2 + len) = 0 then .payloadIe else .mlmeSubie,
          s.nestedMlmeLen - (2 + len)⟩
      else none) := by
  simp only [descriptorLen] at hlen
  simp only [descriptorId] at hid
  rw [mlmeSubieTurn]
  simp only [← hlen, ← hid]
  by_cases hlong : len > s.bufSize
  · have hnot : ¬overrun := by
      rw [hover]
      exact fun h ↦ absurd h.1 (Nat.not_le.mpr hlong)
    rw [if_pos hlong, if_neg fun h ↦ Nat.not_le.mpr hlong h.1]
    exact turnOutcome_returns (by simp) hnot
  · rw [if_neg hlong]
    have hreads : ReadsElement (if desc / 32768 = 1 then parseMlmeLongIe len id s.ies
        else parseMlmeShortIe conf len id s.ies) mem o len
        (if desc / 32768 = 1 then AcceptsLongIe len id else AcceptsShortIe conf mem o len id)
        (if desc / 32768 = 1 then longIeExtra o len id else shortIeExtra o len id) := by
      split_ifs
      · exact readsElement_long id s.ies
      · exact readsElement_short conf id s.ies
    have hextra : overrun ↔
        ∃ i ∈ (if desc / 32768 = 1 then longIeExtra o len id else shortIeExtra o len id), e ≤ i := by
      rw [hover, longIeExtra, shortIeExtra]
      split_ifs <;> simp <;> omega
    generalize hreader : (if desc / 32768 = 1 then parseMlmeLongIe len id s.ies
      else parseMlmeShortIe conf len id s.ies) = reader at hreads ⊢
    by_cases hout : overrun
    · apply TurnOutcome.overruns _ hout
      left
      intro hbelow
      obtain ⟨i, hi, hie⟩ := hextra.mp hout
      exact absurd ((staysBelow_bind.mp hbelow).1 i (hreads.reaches i hi)) (Nat.not_lt.mpr hie)
    apply TurnOutcome.after hreads.stays
    · intro i hi
      rcases hreads.reads i hi with hbound | hfar
      · omega
      · by_contra hie
        exact hout (hextra.mpr ⟨i, hfar, Nat.le_of_not_lt hie⟩)
    cases hvalue : value reader mem o with
    | none =>
      have hrejects := hreads.accepted.not.mp (by rw [hvalue]; simp)
      rw [if_neg (c := len ≤ s.bufSize ∧ _ ∧ _) fun h ↦ hrejects h.2.1]
      exact turnOutcome_returns (by simp) hout
    | some ies =>
      have haccepts := hreads.accepted.mp (by rw [hvalue]; rfl)
      by_cases hnested : s.nestedMlmeLen - (2 + len) < 0
      · simp only [if_pos hnested]
        have hle : ¬(2 + len : ℤ) ≤ s.nestedMlmeLen := by omega
        rw [if_neg (c := len ≤ s.bufSize ∧ _ ∧ _) fun h ↦ hle h.2.2]
        exact turnOutcome_returns (by simp) hout
      · simp only [if_neg hnested]
        have hle : (2 + len : ℤ) ≤ s.nestedMlmeLen := by omega
        rw [if_pos (c := len ≤ s.bufSize ∧ _ ∧ _) ⟨Nat.le_of_not_lt hlong, haccepts, hle⟩, ← hstate]
        refine turnOutcome_advance ?_ ?_ ?_ ?_ hout
        exacts [hsize, Nat.le_of_not_lt hlong, he, hn]

theorem ieTurn_outcome (conf : PacketConf) (mem : ℕ → UInt8) {pos : IePosition} (hat : s.At pos)
    (hsize : pos.left < 256) (hstart : start ≤ pos.offset) (hleft : pos.left ≠ 0) :
    TurnOutcome start (pos.offset + pos.left) (pos.left - 1) (ieTurn conf start s) mem pos.offset
      (Overruns conf mem pos) (walk conf mem pos) := by
  obtain ⟨offset, left, state, nested⟩ := pos
  obtain ⟨bufSize, state', nested', ies⟩ := s
  obtain ⟨rfl, rfl, rfl⟩ := hat
  simp only at hsize hstart hleft ⊢
  rw [ieTurn]
  by_cases hshort : bufSize < 2
  · have hnot : ¬Overruns conf mem ⟨offset, bufSize, state', nested'⟩ :=
      fun hover ↦ absurd hover.1 (Nat.not_le.mpr hshort)
    rw [if_pos hshort, walk]
    simp only [if_pos hshort]
    exact turnOutcome_returns (by simp) hnot
  rw [if_neg hshort]
  have htwo : 2 ≤ bufSize := Nat.le_of_not_lt hshort
  have hend : offset + bufSize = offset + 2 + (bufSize - 2) := by omega
  have hdesc : StaysBelow (offset + bufSize) (peek16 0) mem offset := by
    simp only [peek16, staysBelow_bind, staysBelow_peek, next_peek, staysBelow_pure, and_true]
    omega
  apply TurnOutcome.after (c := offset) rfl hdesc
  apply TurnOutcome.after (c := offset + 2) rfl (by simp [StaysBelow])
  rw [walk, Overruns]
  simp only [if_neg hshort, htwo, true_and]
  rw [hend]
  cases state' with
  | headerIe =>
    exact headerIeTurn_outcome (s := ⟨bufSize - 2, .headerIe, nested', ies⟩) rfl
      (by simp only; omega) rfl (by simp only; omega) (by omega) not_false
  | payloadIe =>
    exact payloadIeTurn_outcome (s := ⟨bufSize - 2, .payloadIe, nested', ies⟩) rfl
      (by simp only; omega) rfl (by simp only; omega) (by omega) Iff.rfl
  | mlmeSubie =>
    exact mlmeSubieTurn_outcome (s := ⟨bufSize - 2, .mlmeSubie, nested', ies⟩) rfl
      (by simp only; omega) rfl (by simp only; omega) rfl rfl Iff.rfl

end Turns

/-! ## The whole list -/

section Loop

variable {conf : PacketConf} {start e o : ℕ} {mem : ℕ → UInt8} {s : IeParser}

theorem ieLoop_done (fuel : ℕ) (hdone : s.bufSize = 0) :
    (∃ ies, value (ieLoop conf start (fuel + 1) s) mem o = some (some (o - start), ies)) ∧
      StaysBelow e (ieLoop conf start (fuel + 1) s) mem o := by
  rw [ieLoop, if_pos hdone]
  constructor
  · exact ⟨_, rfl⟩
  · simp [StaysBelow]

theorem ieLoop_returns (fuel : ℕ) (hsize : s.bufSize ≠ 0) {ret : Option ℕ} {ies : Ies}
    (hturn : value (ieTurn conf start s) mem o = .returns ret ies) :
    value (ieLoop conf start (fuel + 1) s) mem o = some (ret, ies) ∧
      (StaysBelow e (ieLoop conf start (fuel + 1) s) mem o ↔
        StaysBelow e (ieTurn conf start s) mem o) := by
  rw [ieLoop, if_neg hsize, staysBelow_bind, value_bind, hturn]
  exact ⟨rfl, and_iff_left (staysBelow_pure _ _ _)⟩

theorem ieLoop_goesOn (fuel : ℕ) (hsize : s.bufSize ≠ 0) {s' : IeParser}
    (hturn : value (ieTurn conf start s) mem o = .goesOn s') :
    value (ieLoop conf start (fuel + 1) s) mem o =
        value (ieLoop conf start fuel s') mem (next (ieTurn conf start s) mem o) ∧
      (StaysBelow e (ieLoop conf start (fuel + 1) s) mem o ↔
        StaysBelow e (ieTurn conf start s) mem o ∧
          StaysBelow e (ieLoop conf start fuel s') mem (next (ieTurn conf start s) mem o)) := by
  rw [ieLoop, if_neg hsize, staysBelow_bind, value_bind, hturn]
  exact ⟨rfl, Iff.rfl⟩

theorem not_staysBelow_ieLoop (fuel : ℕ) (hsize : 2 ≤ s.bufSize) (ho : e ≤ o) :
    ¬StaysBelow e (ieLoop conf start (fuel + 1) s) mem o := by
  intro hbelow
  rw [ieLoop, if_neg (by omega), staysBelow_bind, ieTurn, if_neg (by omega)] at hbelow
  have hread := (staysBelow_bind.mp hbelow.1).1
  simp only [peek16, staysBelow_bind, staysBelow_peek] at hread
  omega

variable {pos pos' : IePosition} {fuel : ℕ} {res : Option ℕ × Ies}

theorem ieLoop_staysBelow (hstays : StaysInFrame conf mem pos) (hat : s.At pos)
    (hstart : start ≤ pos.offset) (hend : pos.offset + pos.left < 256) :
    ∃ fuel res, value (ieLoop conf start fuel s) mem pos.offset = some res ∧
      StaysBelow (pos.offset + pos.left) (ieLoop conf start fuel s) mem pos.offset ∧
      ∀ k, res.1 = some k → (start + k) % 256 ≤ pos.offset + pos.left := by
  induction hleft : pos.left using Nat.strong_induction_on generalizing pos s with
  | _ left ih =>
    subst hleft
    by_cases hdone : s.bufSize = 0
    · obtain ⟨⟨ies, hvalue⟩, hbelow⟩ := @ieLoop_done conf _ _ _ _ _ 0 hdone
      refine ⟨1, _, hvalue, hbelow, ?_⟩
      intro k hk
      simp only [some.injEq] at hk
      omega
    have hne : pos.left ≠ 0 := by
      rw [← hat.bufSize]
      exact hdone
    have hturn := ieTurn_outcome conf mem hat (by omega) hstart hne
    generalize hwalk : walk conf mem pos = walked at hturn
    cases hturn with
    | stops ret ies hvalue hret hbelow _ =>
      obtain ⟨hloop, hreads⟩ := ieLoop_returns (e := pos.offset + pos.left) 0 hdone hvalue
      refine ⟨1, _, hloop, hreads.mpr hbelow, ?_⟩
      intro k hk
      have hle := hret k hk
      omega
    | goesOn s' pos' hvalue hat' hnext hend' hleft' hbelow _ =>
      have hstays' : StaysInFrame conf mem pos' := fun pos'' hpath ↦ hstays pos'' (hpath.head hwalk)
      obtain ⟨fuel, res, hres, hbelow', hlength⟩ := ih pos'.left (by omega) hstays' hat'
        (by omega) (by omega) rfl
      obtain ⟨hloop, hreads⟩ := ieLoop_goesOn (e := pos.offset + pos.left) fuel hdone hvalue
      rw [hnext] at hloop hreads
      rw [hend'] at hbelow' hlength
      exact ⟨fuel + 1, res, hloop.trans hres, hreads.mpr ⟨hbelow, hbelow'⟩, hlength⟩
    | wraps s' hvalue hsmall hstart' hmod hbelow _ =>
      by_cases hzero : s'.bufSize = 0
      · obtain ⟨hloop, hreads⟩ := ieLoop_goesOn (e := pos.offset + pos.left) 1 hdone hvalue
        obtain ⟨⟨ies, hvalue'⟩, hbelow'⟩ := @ieLoop_done conf _ _ _ _ _ 0 hzero
        refine ⟨2, _, hloop.trans hvalue', hreads.mpr ⟨hbelow, hbelow'⟩, ?_⟩
        intro k hk
        simp only [some.injEq] at hk
        have hmod' := hmod hzero
        omega
      · obtain ⟨hloop, hreads⟩ := ieLoop_goesOn (e := pos.offset + pos.left) 1 hdone hvalue
        have hvalue' : value (ieTurn conf start s') mem
            (next (ieTurn conf start s) mem pos.offset) = .returns none s'.ies := by
          rw [ieTurn, if_pos hsmall]
          rfl
        obtain ⟨hloop', hreads'⟩ := ieLoop_returns (e := pos.offset + pos.left) 0 hzero hvalue'
        refine ⟨2, _, hloop.trans hloop', hreads.mpr ⟨hbelow, hreads'.mpr ?_⟩, by simp⟩
        rw [ieTurn, if_pos hsmall]
        exact staysBelow_pure _ _ _
    | overruns _ hover _ => exact absurd hover (hstays pos Relation.ReflTransGen.refl)

theorem two_le_left_of_walk (hwalk : walk conf mem pos = some pos') : 2 ≤ pos.left := by
  rw [walk] at hwalk
  by_contra hshort
  simp [Nat.lt_of_not_le hshort] at hwalk

theorem not_staysBelow_of_out (hsize : s.bufSize ≠ 0)
    (hout : ¬StaysBelow e (ieTurn conf start s) mem o ∨
      ∃ s', value (ieTurn conf start s) mem o = .goesOn s' ∧ 2 ≤ s'.bufSize ∧
        e ≤ next (ieTurn conf start s) mem o)
    (hres : value (ieLoop conf start fuel s) mem o = some res) :
    ¬StaysBelow e (ieLoop conf start fuel s) mem o := by
  intro hbelow
  cases fuel with
  | zero => simp [ieLoop] at hres
  | succ fuel =>
    have hturn : StaysBelow e (ieTurn conf start s) mem o := by
      rw [ieLoop, if_neg hsize, staysBelow_bind] at hbelow
      exact hbelow.1
    obtain ⟨s', hvalue, hleft, hnext⟩ := hout.resolve_left (not_not_intro hturn)
    obtain ⟨hloop, hreads⟩ := ieLoop_goesOn (e := e) fuel hsize hvalue
    cases fuel with
    | zero =>
      rw [hloop] at hres
      simp [ieLoop] at hres
    | succ fuel => exact not_staysBelow_ieLoop fuel hleft hnext (hreads.mp hbelow).2

theorem not_staysBelow_of_overruns (hpath : Relation.ReflTransGen (WalksTo conf mem) pos pos')
    (hover : Overruns conf mem pos') (hat : s.At pos) (hstart : start ≤ pos.offset)
    (hend : pos.offset + pos.left < 256)
    (hres : value (ieLoop conf start fuel s) mem pos.offset = some res) :
    ¬StaysBelow (pos.offset + pos.left) (ieLoop conf start fuel s) mem pos.offset := by
  induction hpath using Relation.ReflTransGen.head_induction_on generalizing s fuel with
  | refl =>
    have htwo : 2 ≤ pos'.left := hover.1
    have hleft : pos'.left ≠ 0 := by omega
    have hturn := ieTurn_outcome conf mem hat (by omega) hstart hleft
    generalize walk conf mem pos' = walked at hturn
    have hsize : s.bufSize ≠ 0 := by rwa [hat.bufSize]
    cases hturn with
    | stops _ _ _ _ _ hnot => exact absurd hover hnot
    | goesOn _ _ _ _ _ _ _ _ hnot => exact absurd hover hnot
    | wraps _ _ _ _ _ _ hnot => exact absurd hover hnot
    | overruns _ _ hout => exact not_staysBelow_of_out hsize hout hres
  | head hwalk hpath ih =>
    rename_i pos pos₁
    have hleft : pos.left ≠ 0 := by
      have htwo := two_le_left_of_walk hwalk
      omega
    have hturn := ieTurn_outcome conf mem hat (by omega) hstart hleft
    have hsize : s.bufSize ≠ 0 := by rwa [hat.bufSize]
    rw [show walk conf mem pos = some pos₁ from hwalk] at hturn
    cases hturn with
    | goesOn s' _ hvalue hat' hnext hend' hless _ _ =>
      intro hbelow
      cases fuel with
      | zero => simp [ieLoop] at hres
      | succ fuel =>
        obtain ⟨hloop, hreads⟩ := ieLoop_goesOn (e := pos.offset + pos.left) fuel hsize hvalue
        rw [hnext] at hloop hreads
        apply ih hat' (by omega) (by omega) (hloop.symm.trans hres)
        rw [hend']
        exact (hreads.mp hbelow).2
    | overruns _ _ hout => exact not_staysBelow_of_out hsize hout hres

end Loop

end ContikiMaster.Framer
