import ContikiMaster.Framer.Frame802154

/-!
# A header that is written is read back

Parsing reads back what `frame802154_create` wrote, but for one header: with frame version
2015, no address and PAN ID compression set, the table gives it a destination PAN id, which
`frame802154_parse` looks for only beside a destination address.
-/

namespace ContikiMaster.Framer

open Lib Lib.Cursor List

theorem parseFcf_createFcf_fst (fcf : Fcf) :
    fcf.frameType + 8 * fcf.securityEnabled.toNat + 16 * fcf.framePending.toNat +
      32 * fcf.ackRequired.toNat + 64 * fcf.panidCompression.toNat < 128 := by
  have htype := fcf.frameType.isLt
  have hsecurity := Bool.toNat_le fcf.securityEnabled
  have hpending := Bool.toNat_le fcf.framePending
  have hack := Bool.toNat_le fcf.ackRequired
  have hcompression := Bool.toNat_le fcf.panidCompression
  omega

theorem parseFcf_createFcf_snd (fcf : Fcf) :
    fcf.sequenceNumberSuppression.toNat + 2 * fcf.ieListPresent.toNat +
      4 * fcf.destAddrMode.bits + 16 * fcf.frameVersion + 64 * fcf.srcAddrMode.bits < 256 := by
  have hseqno := Bool.toNat_le fcf.sequenceNumberSuppression
  have hies := Bool.toNat_le fcf.ieListPresent
  have hdest := fcf.destAddrMode.bits_lt
  have hversion := fcf.frameVersion.isLt
  have hsrc := fcf.srcAddrMode.bits_lt
  omega

variable {mode : AddrMode} {n start : ℕ} {mem : ℕ → UInt8} {fcf : Fcf} {p : Frame}

theorem AddrMode.ofBits_eq {bits : ℕ} (hbits : bits % 4 = mode.bits) :
    AddrMode.ofBits bits = mode := by
  rw [← AddrMode.ofBits_bits mode, ← hbits]
  simp only [AddrMode.ofBits, Nat.mod_mod]

theorem toNat_eq_one {b : Bool} (hn : n = b.toNat) : decide (n = 1) = b := by
  cases b <;> simp [hn]

theorem parseFcf_createFcf (fcf : Fcf) {data₀ data₁ : UInt8}
    (hdata : frame802154CreateFcf fcf = [data₀, data₁]) :
    frame802154ParseFcf data₀ data₁ = fcf := by
  simp only [frame802154CreateFcf, cons.injEq, and_true] at hdata
  have hfst := parseFcf_createFcf_fst fcf
  have hsnd := parseFcf_createFcf_snd fcf
  have hdata₀ := congrArg UInt8.toNat hdata.1
  have hdata₁ := congrArg UInt8.toNat hdata.2
  rw [UInt8.toNat_ofNat', Nat.mod_eq_of_lt (by omega)] at hdata₀
  rw [UInt8.toNat_ofNat', Nat.mod_eq_of_lt hsnd] at hdata₁
  obtain ⟨type, security, pending, ack, compression, seqno, ies, dest, version, src⟩ := fcf
  dsimp only at hdata₀ hdata₁ hfst hsnd
  have htype := type.isLt
  have hversion := version.isLt
  have hdest := dest.bits_lt
  have hsecurity := Bool.toNat_le security
  have hpending := Bool.toNat_le pending
  have hack := Bool.toNat_le ack
  have hcompression := Bool.toNat_le compression
  have hseqno := Bool.toNat_le seqno
  have hies := Bool.toNat_le ies
  rw [frame802154ParseFcf, ← hdata₀, ← hdata₁, Fcf.mk.injEq]
  refine ⟨?_, toNat_eq_one ?_, toNat_eq_one ?_, toNat_eq_one ?_, toNat_eq_one ?_, toNat_eq_one ?_,
    toNat_eq_one ?_, AddrMode.ofBits_eq ?_, ?_, AddrMode.ofBits_eq ?_⟩
  · ext
    simp only [Fin.val_ofNat]
    omega
  all_goals try omega
  · ext
    simp only [Fin.val_ofNat]
    omega

theorem word_write16 (val : UInt16) :
    word (UInt8.ofNat (val.toNat % 256)) (UInt8.ofNat (val.toNat / 256 % 256)) = val := by
  have hval : val.toNat < 65536 := val.toNat_lt
  apply UInt16.toNat_inj.mp
  rw [word, UInt16.toNat_ofNat', UInt8.toNat_ofNat', UInt8.toNat_ofNat']
  omega

def seqnoField (suppressed : Bool) (seq : UInt8) : List UInt8 := if suppressed then [] else [seq]

def pidField (present : Bool) (pid : UInt16) : List UInt8 := if present then write16 pid else []

theorem reads_parseSeqno (fcf : Fcf) (pf : Frame) (seq : UInt8) :
    Reads (parseSeqno fcf pf) (if fcf.sequenceNumberSuppression then pf.seq else seq)
      (seqnoField fcf.sequenceNumberSuppression seq) := by
  cases hseqno : fcf.sequenceNumberSuppression with
  | true =>
    rw [parseSeqno, hseqno]
    apply reads_pure
  | false =>
    rw [parseSeqno, hseqno]
    apply reads_take

theorem reads_parsePid (present : Bool) (absent pid : UInt16) :
    Reads (parsePid present absent) (if present then pid else absent)
      (pidField present pid) := by
  cases present with
  | false => exact reads_pure absent
  | true =>
    intro mem p hholds
    obtain ⟨hlo, hhi, -⟩ : mem p = _ ∧ mem (p + 1) = _ ∧ True := by
      simpa [pidField, write16] using hholds
    simp [parsePid, peek16, hlo, hhi, word_write16, pidField, write16]

/-- What parsing makes of an address of the given mode. -/
def addrOf (mode : AddrMode) (addr : Addr8) : Addr8 :=
  match mode with
  | .shortAddrMode => fun i ↦ if i = 0 then addr 0 else if i = 1 then addr 1 else 0
  | .longAddrMode => addr
  | _ => linkaddrNull

theorem addrOf_eq (mode : AddrMode) (addr : Addr8) {i : Fin 8} (hi : i.val < addrLen mode) :
    addrOf mode addr i = addr i := by
  cases mode with
  | noAddr => simp [addrLen] at hi
  | reserved => simp [addrLen] at hi
  | longAddrMode => rfl
  | shortAddrMode =>
    obtain h₀ | h₁ : i = 0 ∨ i = 1 := by
      simp only [addrLen] at hi
      omega
    · simp [addrOf, h₀]
    · simp [addrOf, h₁]

@[simp]
theorem length_writeAddr (addr : Addr8) (n : ℕ) : (writeAddr addr n).length = n := by
  induction n with
  | zero => rfl
  | succ n ih => rw [writeAddr, length_cons, ih]

theorem holds_writeAddr {p : ℕ} {addr : Addr8} (hholds : Holds mem p (writeAddr addr n)) {c : ℕ}
    (hc : c < n) : mem (p + (n - 1 - c)) = addr (Fin.ofNat 8 c) := by
  induction n generalizing p with
  | zero => simp at hc
  | succ n ih =>
    obtain ⟨hhead, htail⟩ := holds_cons.mp hholds
    by_cases hlast : c = n
    · rw [hlast, ← hhead]
      simp
    · rw [← ih htail (by omega)]
      congr 1
      omega

theorem reads_parseAddr (hmode : mode ≠ .reserved) (old addr : Addr8) :
    Reads (parseAddr mode old) (addrOf mode addr) (writeAddr addr (addrLen mode)) := by
  cases mode with
  | noAddr => exact reads_pure linkaddrNull
  | reserved => exact absurd rfl hmode
  | shortAddrMode =>
    intro mem p hholds
    have h₀ : mem (p + 1) = addr 0 := holds_writeAddr (c := 0) hholds (by decide)
    have h₁ : mem p = addr 1 := holds_writeAddr (c := 1) hholds (by decide)
    simp [parseAddr, addrOf, addrLen, h₀, h₁]
  | longAddrMode =>
    intro mem p hholds
    have heach : ∀ c : Fin 8, mem (p + (7 - c)) = addr c := by
      intro c
      have hc := holds_writeAddr hholds c.isLt
      rwa [Fin.ofNat_val_eq_self] at hc
    constructor
    · simpa [parseAddr, addrOf, funext_iff] using heach
    · simp [parseAddr, addrLen]

theorem srcAddrMode_ne_noAddr (hhas : fcf.hasSrcPanid = true) : fcf.srcAddrMode ≠ .noAddr := by
  intro hmode
  rw [Fcf.hasSrcPanid, frame802154HasPanid, hmode] at hhas
  split_ifs at hhas <;> simp at hhas

/-- The header that has a destination PAN id without a destination address. -/
def LoneDestPanid (fcf : Fcf) : Prop :=
  fcf.frameVersion = ieee802154_2015 ∧ fcf.destAddrMode = .noAddr ∧ fcf.srcAddrMode = .noAddr ∧
    fcf.panidCompression = true

instance (fcf : Fcf) : Decidable (LoneDestPanid fcf) :=
  inferInstanceAs (Decidable (_ ∧ _ ∧ _ ∧ _))

theorem loneDestPanid_iff :
    LoneDestPanid fcf ↔ fcf.hasDestPanid = true ∧ fcf.destAddrMode = .noAddr := by
  rw [LoneDestPanid, Fcf.hasDestPanid, frame802154HasPanid]
  by_cases hversion : fcf.frameVersion = ieee802154_2015
  · simp only [hversion, true_and, if_true, decide_eq_true_eq]
    constructor
    · rintro ⟨hdest, hsrc, hcompression⟩
      simp [hdest, hsrc, hcompression]
    · rintro ⟨hhas, hdest⟩
      simpa [hdest] using hhas
  · split_ifs <;> simp [hversion]

theorem reads_parseDest (hmode : fcf.destAddrMode ≠ .reserved) (hlone : ¬LoneDestPanid fcf)
    (pf : Frame) (pid : UInt16) (addr : Addr8) :
    Reads (parseDest fcf pf) (if fcf.hasDestPanid then pid else 0, addrOf fcf.destAddrMode addr)
      (pidField fcf.hasDestPanid pid ++ writeAddr addr (addrLen fcf.destAddrMode)) := by
  by_cases hnone : fcf.destAddrMode = .noAddr
  · have hhas : fcf.hasDestPanid = false := by
      cases hhas : fcf.hasDestPanid with
      | false => rfl
      | true => exact absurd (loneDestPanid_iff.mpr ⟨hhas, hnone⟩) hlone
    simp only [parseDest, hnone, hhas, ne_eq, not_true_eq_false, if_false]
    exact reads_pure (0, linkaddrNull)
  · rw [parseDest, if_pos hnone]
    apply Reads.bind (reads_parsePid _ 0 pid)
    apply Reads.map (reads_parseAddr hmode pf.destAddr addr)

theorem reads_parseSrc (hmode : fcf.srcAddrMode ≠ .reserved) (pf : Frame) (destPid pid : UInt16)
    (addr : Addr8) : Reads (parseSrc fcf pf destPid)
      (if fcf.srcAddrMode = .noAddr then 0 else if fcf.hasSrcPanid then pid else destPid,
        addrOf fcf.srcAddrMode addr) (pidField fcf.hasSrcPanid pid ++
        writeAddr addr (addrLen fcf.srcAddrMode)) := by
  by_cases hnone : fcf.srcAddrMode = .noAddr
  · have hhas : fcf.hasSrcPanid = false := by
      cases hhas : fcf.hasSrcPanid with
      | false => rfl
      | true => exact absurd hnone (srcAddrMode_ne_noAddr hhas)
    simp only [parseSrc, hnone, hhas, ne_eq, not_true_eq_false, if_false, if_true]
    exact reads_pure (0, linkaddrNull)
  · rw [parseSrc, if_pos hnone, if_neg hnone]
    apply Reads.bind (reads_parsePid _ destPid pid)
    apply Reads.map (reads_parseAddr hmode pf.srcAddr addr)

/-- The fields of a parsed header `q` are those of the frame `p` it was written from. A header
with a source address and no source PAN id of its own implies the destination's. -/
structure SameHeader (p q : Frame) : Prop where
  fcf : q.fcf = p.fcf
  seq : p.fcf.sequenceNumberSuppression = false → q.seq = p.seq
  destPid : p.fcf.hasDestPanid = true → q.destPid = p.destPid
  destAddr : ∀ i : Fin 8, i.val < addrLen p.fcf.destAddrMode → q.destAddr i = p.destAddr i
  srcPid : p.fcf.hasSrcPanid = true → q.srcPid = p.srcPid
  impliedSrcPid : p.fcf.srcAddrMode ≠ .noAddr → p.fcf.hasSrcPanid = false →
    p.fcf.hasDestPanid = true → q.srcPid = p.destPid
  srcAddr : ∀ i : Fin 8, i.val < addrLen p.fcf.srcAddrMode → q.srcAddr i = p.srcAddr i

/-- Parsing the header of `p` with `payload` behind it gives the header's length, the fields of
the frame as `frame802154_create` leaves it, and the payload. -/
structure RoundTrips (p : Frame) (payload : List UInt8) : Prop where
  written : (frame802154Create p).1.length = (frame802154Hdrlen p).1
  parsed : ∀ pf mem, Holds mem 0 ((frame802154Create p).1 ++ payload) →
    ∃ q, value (frame802154Parse ((frame802154Create p).1 ++ payload).length pf) mem 0 =
        ((frame802154Hdrlen p).1, q) ∧
      SameHeader (frame802154Create p).2 q ∧
      Holds mem q.payload payload ∧ q.payloadLen = payload.length

/-- The header of the frame that `field_len` leaves, field by field. -/
def header (p : Frame) : List UInt8 :=
  frame802154CreateFcf p.fcf ++
    (seqnoField p.fcf.sequenceNumberSuppression p.seq ++
      ((pidField p.fcf.hasDestPanid p.destPid ++
        writeAddr p.destAddr (addrLen p.fcf.destAddrMode)) ++
      (pidField p.fcf.hasSrcPanid p.srcPid ++
        writeAddr p.srcAddr (addrLen p.fcf.srcAddrMode))))

theorem seqnoField_eq (suppressed : Bool) (seq : UInt8) :
    (if (if suppressed then 0 else 1) = 1 then [seq] else []) = seqnoField suppressed seq := by
  cases suppressed <;> rfl

theorem pidField_eq (present : Bool) (pid : UInt16) :
    (if (if present then 2 else 0) = 2 then write16 pid else []) = pidField present pid := by
  cases present <;> rfl

theorem create_fst (p : Frame) :
    (frame802154Create p).1 = header (normalisePanidCompression p) := by
  rw [header, ← seqnoField_eq, ← pidField_eq, ← pidField_eq]
  rfl

@[simp]
theorem create_snd (p : Frame) : (frame802154Create p).2 = normalisePanidCompression p := rfl

@[simp]
theorem length_seqnoField (suppressed : Bool) (seq : UInt8) :
    (seqnoField suppressed seq).length = if suppressed then 0 else 1 := by
  cases suppressed <;> rfl

@[simp]
theorem length_pidField (present : Bool) (pid : UInt16) :
    (pidField present pid).length = if present then 2 else 0 := by
  cases present <;> rfl

theorem length_create (p : Frame) : (frame802154Create p).1.length = (frame802154Hdrlen p).1 := by
  rw [create_fst, header]
  simp only [length_append, length_seqnoField, length_pidField, length_writeAddr,
    frame802154CreateFcf, length_cons, length_nil, frame802154Hdrlen, fieldLen]
  omega

/-- What parsing makes of the header of a frame that `field_len` has left. -/
def parsedFields (p pf : Frame) : Frame :=
  let destPid := if p.fcf.hasDestPanid then p.destPid else 0
  let srcPid := if p.fcf.srcAddrMode = .noAddr then 0
    else if p.fcf.hasSrcPanid then p.srcPid else destPid
  { pf with
    destAddr := addrOf p.fcf.destAddrMode p.destAddr
    srcAddr := addrOf p.fcf.srcAddrMode p.srcAddr
    fcf := p.fcf
    seq := if p.fcf.sequenceNumberSuppression then pf.seq else p.seq
    destPid := finalDestPid p.fcf destPid srcPid
    srcPid }

theorem sameHeader_parsedFields (p pf : Frame) : SameHeader p (parsedFields p pf) where
  fcf := rfl
  seq hseqno := by simp [parsedFields, hseqno]
  destPid hhas := by simp [parsedFields, finalDestPid, hhas]
  destAddr i hi := addrOf_eq _ _ hi
  srcPid hhas := by simp [parsedFields, srcAddrMode_ne_noAddr hhas, hhas]
  impliedSrcPid hmode hsrc hdest := by simp [parsedFields, hmode, hsrc, hdest]
  srcAddr i hi := addrOf_eq _ _ hi

theorem reads_parseFields (hdest : p.fcf.destAddrMode ≠ .reserved)
    (hsrc : p.fcf.srcAddrMode ≠ .reserved) (hlone : ¬LoneDestPanid p.fcf) (pf : Frame) :
    Reads (parseFields pf) (parsedFields p pf) (header p) := by
  obtain ⟨data₀, data₁, hdata⟩ : ∃ data₀ data₁, frame802154CreateFcf p.fcf = [data₀, data₁] :=
    ⟨_, _, rfl⟩
  have hfcf := parseFcf_createFcf p.fcf hdata
  rw [header, hdata]
  apply Reads.bind (reads_take data₀)
  apply Reads.bind (reads_take data₁)
  rw [hfcf]
  apply Reads.bind (reads_parseSeqno p.fcf pf p.seq)
  apply Reads.bind (reads_parseDest hdest hlone pf p.destPid p.destAddr)
  apply Reads.map (reads_parseSrc hsrc pf _ p.srcPid p.srcAddr)

@[simp]
theorem normalise_destAddrMode (p : Frame) :
    (normalisePanidCompression p).fcf.destAddrMode = p.fcf.destAddrMode := by
  rw [normalisePanidCompression]
  split_ifs <;> rfl

@[simp]
theorem normalise_srcAddrMode (p : Frame) :
    (normalisePanidCompression p).fcf.srcAddrMode = p.fcf.srcAddrMode := by
  rw [normalisePanidCompression]
  split_ifs <;> rfl

@[simp]
theorem normalise_frameVersion (p : Frame) :
    (normalisePanidCompression p).fcf.frameVersion = p.fcf.frameVersion := by
  rw [normalisePanidCompression]
  split_ifs <;> rfl

theorem normalise_loneDestPanid (p : Frame) :
    LoneDestPanid (normalisePanidCompression p).fcf ↔ LoneDestPanid p.fcf := by
  by_cases hversion : p.fcf.frameVersion = ieee802154_2015
  · rw [normalisePanidCompression, if_neg (by rw [hversion]; decide)]
  · simp [LoneDestPanid, hversion]

theorem next_parseFields_lone (hlone : LoneDestPanid p.fcf) (pf : Frame)
    (hholds : Holds mem start (header p)) : next (parseFields pf) mem start =
      start + (2 + (seqnoField p.fcf.sequenceNumberSuppression p.seq).length) := by
  obtain ⟨-, hdest, hsrc, -⟩ := hlone
  obtain ⟨data₀, data₁, hdata⟩ : ∃ data₀ data₁, frame802154CreateFcf p.fcf = [data₀, data₁] :=
    ⟨_, _, rfl⟩
  have hfcf := parseFcf_createFcf p.fcf hdata
  rw [header, hdata, holds_append, holds_append, holds_cons, holds_cons] at hholds
  obtain ⟨⟨h₀, h₁, -⟩, hseqno, -⟩ := hholds
  have hseqnoRead := (reads_parseSeqno p.fcf pf p.seq mem _ hseqno).2
  simp only [length_cons, length_nil, Nat.zero_add, Nat.reduceAdd] at hseqnoRead
  simp [parseFields, h₀, h₁, hfcf, parseDest, parseSrc, hdest, hsrc, Nat.add_assoc] at hseqnoRead ⊢
  exact hseqnoRead

theorem value_parse {len : ℕ} (hlen : 2 ≤ len) (pf : Frame) (mem : ℕ → UInt8)
    (hnext : next (parseFields pf) mem start = start + n) :
    value (frame802154Parse len pf) mem start = (if n > len then 0 else n,
      { value (parseFields pf) mem start with payload := start + n, payloadLen := len - n }) := by
  simp [frame802154Parse, Nat.not_lt.mpr hlen, hnext]

theorem two_le_length_header (p : Frame) : 2 ≤ (header p).length := by
  simp only [header, frame802154CreateFcf, length_append, length_cons]
  omega

theorem roundTrips_of_not_lone (payload : List UInt8) (hdest : p.fcf.destAddrMode ≠ .reserved)
    (hsrc : p.fcf.srcAddrMode ≠ .reserved) (hlone : ¬LoneDestPanid p.fcf) :
    RoundTrips p payload where
  written := length_create p
  parsed pf mem hholds := by
    obtain ⟨hheader, hpayload⟩ := holds_append.mp hholds
    have hlength := length_create p
    rw [create_fst] at hheader hpayload hlength ⊢
    obtain ⟨hvalue, hnext⟩ := reads_parseFields (by simpa using hdest) (by simpa using hsrc)
      (by rwa [normalise_loneDestPanid]) pf mem 0 hheader
    have hlen : 2 ≤ (header (normalisePanidCompression p) ++ payload).length := by
      have htwo := two_le_length_header (normalisePanidCompression p)
      rw [length_append]
      omega
    rw [value_parse hlen pf mem hnext, hvalue, if_neg (by rw [length_append]; omega), hlength]
    refine ⟨_, rfl, ?_, ?_, ?_⟩
    · have hsame := sameHeader_parsedFields (normalisePanidCompression p) pf
      exact ⟨hsame.fcf, hsame.seq, hsame.destPid, hsame.destAddr, hsame.srcPid,
        hsame.impliedSrcPid, hsame.srcAddr⟩
    · rwa [← hlength]
    · simp only [length_append, hlength, Int.natCast_add]
      omega

theorem not_roundTrips_of_lone (payload : List UInt8) (hlone : LoneDestPanid p.fcf) :
    ¬RoundTrips p payload := by
  intro htrip
  have hlone' := (normalise_loneDestPanid p).mpr hlone
  have hholds := holds_getD ((frame802154Create p).1 ++ payload) 0
  obtain ⟨q, hvalue, -⟩ := htrip.parsed p _ hholds
  obtain ⟨hheader, -⟩ := holds_append.mp hholds
  rw [create_fst] at hheader hvalue
  have hnext := next_parseFields_lone hlone' p hheader
  have hlen : 2 ≤ (header (normalisePanidCompression p) ++ payload).length := by
    have htwo := two_le_length_header (normalisePanidCompression p)
    rw [length_append]
    omega
  have hhas := (loneDestPanid_iff.mp hlone').1
  have hsrc : (normalisePanidCompression p).fcf.hasSrcPanid = false := by
    cases hsrc : (normalisePanidCompression p).fcf.hasSrcPanid with
    | false => rfl
    | true => exact absurd hlone'.2.2.1 (srcAddrMode_ne_noAddr hsrc)
  have hlength : (frame802154Hdrlen p).1 = 4 + (seqnoField
      (normalisePanidCompression p).fcf.sequenceNumberSuppression
      (normalisePanidCompression p).seq).length := by
    rw [← length_create, create_fst, header]
    simp only [frame802154CreateFcf, length_append, length_cons, length_nil,
      length_pidField, length_writeAddr, hhas, hsrc, if_true, hlone'.2.1, hlone'.2.2.1, addrLen]
    simp only [Bool.false_eq_true, if_false]
    omega
  have hret := congrArg Prod.fst hvalue
  rw [value_parse hlen p _ (by simpa using hnext), hlength] at hret
  simp only at hret
  split_ifs at hret <;> omega

/-- A header makes the round trip exactly when it has no lone destination PAN id. -/
theorem roundTrips_iff {p : Frame} (payload : List UInt8)
    (hdest : p.fcf.destAddrMode ≠ .reserved) (hsrc : p.fcf.srcAddrMode ≠ .reserved) :
    RoundTrips p payload ↔ ¬LoneDestPanid p.fcf := by
  constructor
  · intro htrip hlone
    exact not_roundTrips_of_lone payload hlone htrip
  · exact roundTrips_of_not_lone payload hdest hsrc

/-- A data frame of version 2015 from one long address to another. -/
def unicastFrame : Frame where
  destAddr := fun _ ↦ 7
  srcAddr := fun _ ↦ 9
  fcf := ⟨dataFrame, false, false, true, false, false, false, .longAddrMode, ieee802154_2015,
    .longAddrMode⟩
  seq := 1
  destPid := 0xabcd
  srcPid := 0xabcd
  payload := 0
  payloadLen := 0

theorem roundTrips_iff_unicast :
    RoundTrips unicastFrame [1, 2, 3] ↔ ¬LoneDestPanid unicastFrame.fcf :=
  roundTrips_iff [1, 2, 3] (by decide) (by decide)

/-- The same frame without addresses, its PAN id compressed. -/
def addresslessFrame : Frame :=
  { unicastFrame with fcf := { unicastFrame.fcf with
      destAddrMode := .noAddr, srcAddrMode := .noAddr, panidCompression := true } }

/-- The address-less frame is written in five bytes, of which parsing follows three. -/
theorem not_roundTrips_addressless :
    (frame802154Create addresslessFrame).1 = [0x61, 0x20, 1, 0xcd, 0xab] ∧
      (value (frame802154Parse 5 unicastFrame)
        (fun i ↦ [0x61, 0x20, 1, 0xcd, 0xab].getD i 0) 0).1 = 3 ∧
      ¬RoundTrips addresslessFrame [] :=
  ⟨by decide, by decide, not_roundTrips_of_lone [] (by decide)⟩

end ContikiMaster.Framer
