import ContikiMaster.Coap.ParseItems

/-!
# Messages that are read back

A message that was built and serialized is parsed to the same message, but for a block
size that is no power of two, a more flag beyond 1, and a payload right behind a header
that fills its place, whose first byte the payload marker overwrites.
-/

namespace ContikiMaster.Coap

open Lib Cursor Function List Option

variable {bits : ℕ} {conf : CoapConf} {p : Message} {buffer mem : ℕ → UInt8} {st st' : ParseState}

/-- The integers fit their fields, blocks have passed the checks, the options are known ones, and
the payload is a chunk at most. -/
structure Built (conf : CoapConf) (p : Message) : Prop where
  int : ∀ o, (p.int o).toNat < 2 ^ o.width
  block : ∀ o : BlockOption, p.IsOption o.number →
    16 ≤ (p.block o).size ∧ (p.block o).size ≤ 2048 ∧ (p.block o).num ≤ 0x0FFFFF
  options : ∀ n ∈ p.options, ∃ o : CoapOption, o.number = n
  payload : p.payload.len ≤ conf.maxChunkSize

theorem built_init (type : MessageType) (code : UInt8) (mid : UInt16) :
    Built conf (coapInitMessage type code mid) where
  int o := Nat.two_pow_pos o.width
  block _ hset := absurd hset (Finset.notMem_empty _)
  options _ hn := absurd hn (Finset.notMem_empty _)
  payload := Nat.zero_le _

section

variable (hbuilt : Built conf p)

include hbuilt

theorem Built.setOption {o : CoapOption} (hnot : ∀ b, o ≠ .block b) :
    Built conf (p.setOption o.number) where
  int := hbuilt.int
  block b hset := by
    rcases Finset.mem_insert.mp hset with hsame | hold
    · exact absurd (CoapOption.number_injective hsame.symm) (hnot b)
    · exact hbuilt.block b hold
  options n hn := by
    rcases Finset.mem_insert.mp hn with rfl | hold
    · exact ⟨o, rfl⟩
    · exact hbuilt.options n hold
  payload := hbuilt.payload

theorem Built.setInt (o : IntOption) (value : UInt32) :
    Built conf (p.setInt o value) where
  int o' := by
    change (update p.int o _ o').toNat < _
    by_cases ho : o' = o
    · rw [ho, update_self, UInt32.toNat_ofNat']
      exact (Nat.mod_le _ _).trans_lt (Nat.mod_lt _ (Nat.two_pow_pos _))
    · rw [update_of_ne ho]
      exact hbuilt.int o'
  block := hbuilt.block
  options := hbuilt.options
  payload := hbuilt.payload

theorem Built.setString (o : StringOption) (t : Text) :
    Built conf (p.setString o t) where
  int := hbuilt.int
  block := hbuilt.block
  options := hbuilt.options
  payload := hbuilt.payload

theorem Built.setHeaderInt (o : IntOption) (value : UInt32) : Built conf (p.setHeaderInt o value) :=
  Built.setOption (o := .int o) (hbuilt.setInt o value) fun _ h ↦ by cases h

theorem Built.setHeaderString (o : StringOption) (t : Text) : Built conf (p.setHeaderString o t) :=
  Built.setOption (o := .string o) (hbuilt.setString o t) fun _ h ↦ by cases h

theorem Built.setHeaderBlock (o : BlockOption) (num : UInt32) (more : UInt8)
    (size : UInt16) : Built conf (p.setHeaderBlock o num more size) := by
  unfold Message.setHeaderBlock
  split_ifs with hlow hhigh hnum
  · exact hbuilt
  · exact hbuilt
  · exact hbuilt
  refine ⟨hbuilt.int, fun b hset ↦ ?_, fun n hn ↦ ?_, hbuilt.payload⟩
  · change 16 ≤ (update p.block o _ b).size ∧ (update p.block o _ b).size ≤ 2048 ∧
      (update p.block o _ b).num ≤ 0x0FFFFF
    by_cases hb : b = o
    · rw [hb, update_self]
      exact ⟨UInt16.not_lt.mp hlow, UInt16.not_lt.mp hhigh, UInt32.not_lt.mp hnum⟩
    · rw [update_of_ne hb]
      rcases Finset.mem_insert.mp hset with hsame | hold
      · have hnumber : (CoapOption.block b).number = (CoapOption.block o).number := hsame
        exact absurd (CoapOption.block.inj (CoapOption.number_injective hnumber)) hb
      · exact hbuilt.block b hold
  · rcases Finset.mem_insert.mp hn with rfl | hold
    · exact ⟨.block o, rfl⟩
    · exact hbuilt.options n hold

theorem Built.applySetter (s : Setter) : Built conf (applySetter conf p s) := by
  cases s with
  | token token => exact ⟨hbuilt.int, hbuilt.block, hbuilt.options, hbuilt.payload⟩
  | statusCode code =>
    change Built conf (p.coapSetStatusCode code)
    unfold Message.coapSetStatusCode
    split_ifs
    · exact ⟨hbuilt.int, hbuilt.block, hbuilt.options, hbuilt.payload⟩
    · exact hbuilt
  | int o value => cases o <;> exact hbuilt.setHeaderInt _ value
  | byte o bytes =>
    have hbyte : Built conf (p.setByte o bytes) :=
      ⟨hbuilt.int, hbuilt.block, hbuilt.options, hbuilt.payload⟩
    have hset := Built.setOption (o := .byte o) hbyte fun _ h ↦ by cases h
    cases o <;> exact hset
  | ifNoneMatch => exact hbuilt.setOption fun _ h ↦ by cases h
  | proxyUri uri => exact hbuilt.setHeaderString _ _
  | proxyScheme scheme => exact hbuilt.setHeaderString _ _
  | uriHost host => exact hbuilt.setHeaderString _ _
  | uriPath path => exact hbuilt.setHeaderString _ _
  | uriQuery query => exact hbuilt.setHeaderString _ _
  | locationQuery query => exact hbuilt.setHeaderString _ _
  | locationPath path =>
    change Built conf (p.coapSetHeaderLocationPath path)
    unfold Message.coapSetHeaderLocationPath
    dsimp only
    generalize (if 0x3f ∈ (path.skip 0x2f).chars then _ else _ : Text) = location
    split_ifs
    · exact (hbuilt.setHeaderString _ _).setHeaderString .locationPath location
    · exact hbuilt.setHeaderString .locationPath location
    · exact (hbuilt.setHeaderString _ _).setString .locationPath location
    · exact hbuilt.setString .locationPath location
  | block2 num more size => exact hbuilt.setHeaderBlock _ _ _ _
  | block1 num more size => exact hbuilt.setHeaderBlock _ _ _ _
  | payload payload length => exact ⟨hbuilt.int, hbuilt.block, hbuilt.options, Nat.min_le_left _ _⟩

theorem built_build (setters : List Setter) : Built conf (build conf p setters) := by
  induction setters generalizing p with
  | nil => exact hbuilt
  | cons s setters ih => exact ih (hbuilt.applySetter s)

end

/-- The size of the header, as the token and the items make it. -/
def wireSize (p : Message) : ℕ := 4 + p.token.1.length + itemsSize 0 (messageItems p serializeOrder)

theorem length_serializedHeader_items (hsegments : SegmentsNonempty p) :
    (serializedHeader p).bytes.length = wireSize p := by
  rw [serializedHeader, append_bytes, length_append, length_append,
    serializeOptions_bytes hsegments, length_encodeItems]
  rfl

def givenPayload (p : Message) (buffer : ℕ → UInt8) : List UInt8 :=
  slice (p.payload.read buffer) 0 p.payload.len

def frontBytes (p : Message) : List UInt8 :=
  if p.payload.len ≠ 0 then (serializedHeader p).bytes ++ [0xFF] else (serializedHeader p).bytes

def sentPayload (p : Message) (buffer : ℕ → UInt8) : List UInt8 :=
  slice (p.payload.read (writeAt buffer 0 (frontBytes p))) 0 p.payload.len

/-- What is sent behind the options. -/
def payloadPart (p : Message) (buffer : ℕ → UInt8) : List UInt8 :=
  if p.payload.len ≠ 0 then 0xFF :: sentPayload p buffer else []

variable (buffer) in
/-- The datagram of any other message. -/
theorem datagram_coapSerializeMessage (hcode : p.code ≠ 0)
    (hfits : (serializedHeader p).bytes.length ≤ conf.maxHeaderSize) :
    (coapSerializeMessage conf p buffer).datagram =
      (serializedHeader p).bytes ++ payloadPart p buffer := by
  rw [coapSerializeMessage, if_neg hcode]
  dsimp only
  rw [if_pos hfits]
  change slice (writeAt (writeAt buffer 0 (frontBytes p)) (frontBytes p).length
    (sentPayload p buffer)) 0 ((frontBytes p).length + p.payload.len) = _
  have hlength : (sentPayload p buffer).length = p.payload.len := length_slice _ _ _
  rw [slice_add, slice_writeAt (.inl (Nat.zero_add _).le), slice_writeAt_self, Nat.zero_add,
    ← hlength, slice_writeAt_self, frontBytes, payloadPart]
  split_ifs with hpayload
  · rw [append_assoc]
    rfl
  · rw [length_eq_zero_iff.mp (hlength.trans (not_not.mp hpayload))]

/-- The payload lies in the buffer where the header may end, and the header does end there. -/
def Overwritten (conf : CoapConf) (p : Message) (buffer : ℕ → UInt8) : Prop :=
  p.payload.ptr = .inBuffer conf.maxHeaderSize ∧ wireSize p = conf.maxHeaderSize ∧
    p.payload.len ≠ 0 ∧ buffer conf.maxHeaderSize ≠ 0xFF

theorem length_frontBytes (hsegments : SegmentsNonempty p) (hpayload : p.payload.len ≠ 0) :
    (frontBytes p).length = wireSize p + 1 := by
  rw [frontBytes, if_pos hpayload, length_append, length_serializedHeader_items hsegments]
  rfl

variable (buffer) in
/-- The marker overwrites a byte of the payload in one case only. -/
theorem sentPayload_eq_iff (hsegments : SegmentsNonempty p) (hfits : wireSize p ≤ conf.maxHeaderSize)
    (hptr : (∃ mem, p.payload.ptr = .own mem) ∨ p.payload.ptr = .inBuffer conf.maxHeaderSize) :
    sentPayload p buffer = givenPayload p buffer ↔ ¬ Overwritten conf p buffer := by
  by_cases hpayload : p.payload.len = 0
  · refine iff_of_true ?_ fun hover ↦ hover.2.2.1 hpayload
    rw [sentPayload, givenPayload, hpayload, slice_zero, slice_zero]
  have hlength := length_frontBytes hsegments hpayload
  rcases hptr with ⟨own, hown⟩ | hbuffer
  · refine iff_of_true ?_ fun hover ↦ ?_
    · have hread : p.payload.read = fun _ i ↦ own i := by
        funext buffer i
        simp only [Payload.read, hown]
      rw [sentPayload, givenPayload, hread]
    · have hsame := hown.symm.trans hover.1
      cases hsame
  · obtain ⟨n, hn⟩ := Nat.exists_eq_succ_of_ne_zero hpayload
    have hread : p.payload.read = fun buffer i ↦ buffer (conf.maxHeaderSize + i) := by
      funext buffer i
      simp only [Payload.read, hbuffer]
    have hlater : slice (fun i ↦ writeAt buffer 0 (frontBytes p) (conf.maxHeaderSize + i)) 1 n =
        slice (fun i ↦ buffer (conf.maxHeaderSize + i)) 1 n :=
      slice_congr fun i hi _ ↦ writeAt_of_le (by omega)
    have hfirst : sentPayload p buffer = givenPayload p buffer ↔
        writeAt buffer 0 (frontBytes p) conf.maxHeaderSize = buffer conf.maxHeaderSize := by
      rw [sentPayload, givenPayload, hread, hn, slice_succ, slice_succ]
      dsimp only
      rw [hlater]
      constructor
      · exact fun hsame ↦ (cons.inj hsame).1
      · intro hsame
        rw [Nat.add_zero, hsame]
    rw [hfirst, Overwritten, and_iff_right hbuffer]
    by_cases hfull : wireSize p = conf.maxHeaderSize
    · have hmarker : writeAt buffer 0 (frontBytes p) conf.maxHeaderSize = 0xFF := by
        have hheader := length_serializedHeader_items hsegments
        have hheld := holds_writeAt buffer 0 (frontBytes p) conf.maxHeaderSize (by omega)
        rw [Nat.zero_add] at hheld
        rw [hheld]
        simp only [frontBytes, if_pos hpayload]
        rw [getElem_append_right (by omega)]
        simp only [getElem_singleton]
      rw [hmarker, and_iff_right hfull, and_iff_right hpayload, not_not, eq_comm]
    · refine iff_of_true (writeAt_of_le (by omega)) fun hover ↦ hfull hover.1

/-! ### The parsed message -/

/-- What is parsed: the fields of the header, the options with their values, and a payload. -/
structure Received (p : Message) (payload : List UInt8) (st : ParseState) : Prop where
  type : st.packet.type = p.type
  code : st.packet.code = p.code
  mid : st.packet.mid = p.mid
  token : st.packet.token = p.token
  options : st.packet.options = p.options
  read : ∀ o : CoapOption, p.IsOption o.number → ReadBack p st o
  payload : slice st.mem st.packet.payload.start st.packet.payload.len = payload

theorem fixedByte_read (type : MessageType) {n : ℕ} (hn : n ≤ 8) :
    let first := (0xC0 : UInt8) &&& (1 : UInt8) <<< 6 ||| (0x30 : UInt8) &&& type.toByte <<< 4 |||
      (0x0F : UInt8) &&& UInt8.ofNat n <<< 0
    (0xC0 &&& first) >>> 6 = 1 ∧ MessageType.ofByte ((0x30 &&& first) >>> 4) = type ∧
      (0x0F &&& first).toNat = n := by
  have hall : ∀ n < 9, ∀ t ∈ [MessageType.con, .non, .ack, .rst],
      let first := (0xC0 : UInt8) &&& (1 : UInt8) <<< 6 ||| (0x30 : UInt8) &&& t.toByte <<< 4 |||
        (0x0F : UInt8) &&& UInt8.ofNat n <<< 0
      (0xC0 &&& first) >>> 6 = 1 ∧ MessageType.ofByte ((0x30 &&& first) >>> 4) = t ∧
        (0x0F &&& first).toNat = n := by decide +kernel
  exact hall n (Nat.lt_succ_of_le hn) type (by cases type <;> decide)

theorem mid_read (mid : UInt16) :
    (mid >>> 8).toUInt8.toUInt16 <<< 8 ||| mid.toUInt8.toUInt16 = mid := by
  have hlt := mid.toNat_lt
  apply UInt16.toNat_inj.mp
  rw [UInt16.toNat_or, UInt16.toNat_shiftLeft, UInt8.toNat_toUInt16, UInt8.toNat_toUInt16,
    UInt16.toNat_toUInt8, UInt16.toNat_toUInt8, UInt16.toNat_shiftRight]
  change ((mid.toNat >>> 8 % 2 ^ 8) <<< 8) % 2 ^ 16 ||| mid.toNat % 2 ^ 8 = mid.toNat
  rw [Nat.shiftRight_eq_div_pow, Nat.mod_eq_of_lt (show _ < 2 ^ 16 by rw [Nat.shiftLeft_eq]; omega),
    ← Nat.shiftLeft_add_eq_or_of_lt (Nat.mod_lt _ (by decide)), Nat.shiftLeft_eq]
  omega

theorem grows_serializeOrder : Grows 0 serializeOrder := by
  unfold Grows
  decide

theorem ReadBack.congr {o : CoapOption} (hread : ReadBack p st o) (hstrings : StringsBehind st)
    (hint : st'.packet.int = st.packet.int) (hbyte : st'.packet.byte = st.packet.byte)
    (hblock : st'.packet.block = st.packet.block) (hstring : st'.packet.string = st.packet.string)
    (hmem : ∀ i < st.current, st'.mem i = st.mem i) : ReadBack p st' o := by
  cases o with
  | int i =>
    change st'.packet.int i = _
    rwa [hint]
  | byte b =>
    change st'.packet.byte b = _
    rwa [hbyte]
  | block b =>
    change st'.packet.block b = _
    rwa [hblock]
  | ifNoneMatch => trivial
  | string s =>
    have hbehind := hstrings s
    change slice st'.mem (st'.packet.string s).start (st'.packet.string s).len = _
    rw [hstring, slice_congr fun i _ hi ↦ hmem i (by omega)]
    exact hread

theorem exists_received {dataLen : ℕ} {order : List CoapOption} {st₀ : ParseState}
    (hread : OptionsRead bits dataLen conf p order (payloadPart p buffer) st₀ st)
    (hpayload : st.packet.payload = ⟨0, 0⟩) :
    ∃ r, parseTurn bits conf dataLen st = .returns (some r) ∧ r.status = .noError ∧
      slice r.state.mem r.state.packet.payload.start r.state.packet.payload.len =
        (sentPayload p buffer).take conf.maxChunkSize ∧
      { r.state.packet with payload := st.packet.payload } = st.packet ∧
      ∀ i < st.current, r.state.mem i = st.mem i := by
  have hend := hread.atEnd
  have hholds := hread.holds
  have hlength : (sentPayload p buffer).length = p.payload.len := length_slice _ _ _
  by_cases hempty : p.payload.len = 0
  · rw [payloadPart, if_neg (not_not.mpr hempty), length_nil] at hend
    rw [parseTurn, if_neg (by omega)]
    refine ⟨_, rfl, rfl, ?_, rfl, fun _ _ ↦ rfl⟩
    dsimp only
    rw [hpayload, length_eq_zero_iff.mp (hlength.trans hempty), take_nil]
    rfl
  · rw [payloadPart, if_pos hempty] at hend hholds
    rw [length_cons, hlength] at hend
    obtain ⟨hmarker, hsent⟩ := holds_cons.mp hholds
    have hmark : st.mem st.current &&& 0xF0 = 0xF0 := by
      rw [hmarker]
      decide
    have hrest : dataLen - (st.current + 1) = p.payload.len := by omega
    have hsent' : slice st.mem (st.current + 1) p.payload.len = sentPayload p buffer := by
      rw [← hlength]
      exact holds_iff_slice.mp hsent
    rw [parseTurn, if_pos (by omega)]
    dsimp only
    rw [if_pos (show (st.touch [st.current]).mem (st.touch [st.current]).current &&& 0xF0 = 0xF0
      from hmark)]
    refine ⟨_, rfl, rfl, ?_, rfl, fun i hi ↦ writeAt_of_lt ?_⟩
    · change slice (writeAt st.mem (st.current + 1 + min _ (dataLen - (st.current + 1))) [0])
        (st.current + 1) (min _ (dataLen - (st.current + 1))) = _
      rw [hrest, slice_writeAt (.inl le_rfl), ← take_slice, hsent']
    · change i < st.current + 1 + min _ (dataLen - (st.current + 1))
      omega

theorem received_datagram (receiver : CoapConf) (hbuilt : Built conf p) (hsupported : Supported p)
    (hbits : 16 ≤ bits) (hcode : p.code ≠ 0) (hfits : wireSize p ≤ conf.maxHeaderSize)
    (hholds : Holds mem 0 (coapSerializeMessage conf p buffer).datagram) :
    ∃ r, coapParseMessage bits receiver mem (coapSerializeMessage conf p buffer).length = some r ∧
      r.status = .noError ∧
      Received p ((sentPayload p buffer).take receiver.maxChunkSize) r.state := by
  have hconf := conf.fits
  have hheader := length_serializedHeader_items hsupported.segments
  have hchunk := hbuilt.payload
  have hdatagram := datagram_coapSerializeMessage buffer hcode (hheader.trans_le hfits)
  have hlength : (coapSerializeMessage conf p buffer).length =
      wireSize p + (payloadPart p buffer).length := by
    rw [← hheader, ← length_append, ← hdatagram, Serialized.datagram, length_slice]
  have hpart : (payloadPart p buffer).length ≤ p.payload.len + 1 := by
    rw [payloadPart]
    split_ifs
    · rw [length_cons, sentPayload, length_slice]
    · exact Nat.zero_le _
  have hbytes : (serializedHeader p).bytes =
      fixedHeader p ++ p.token.1 ++ encodeItems 0 (messageItems p serializeOrder) := by
    rw [serializedHeader, append_bytes, serializeOptions_bytes hsupported.segments]
  rw [hdatagram, hbytes, append_assoc] at hholds
  obtain ⟨hfront, hoptions⟩ := holds_append.mp hholds
  obtain ⟨hfixed, htoken⟩ := holds_append.mp hfront
  have hfour : (fixedHeader p).length = 4 := rfl
  rw [length_append, hfour, Nat.zero_add] at hoptions
  rw [hfour, Nat.zero_add] at htoken
  obtain ⟨hfirst, hfixed⟩ := holds_cons.mp hfixed
  obtain ⟨hsecond, hfixed⟩ := holds_cons.mp hfixed
  obtain ⟨hthird, hfixed⟩ := holds_cons.mp hfixed
  obtain ⟨hfourth, -⟩ := holds_cons.mp hfixed
  simp only [Nat.zero_add] at hsecond hthird hfourth
  obtain ⟨hversion, htype, htokenLen⟩ := fixedByte_read p.type p.token.2
  rw [← hfirst] at hversion htype htokenLen
  set start := parseStart mem p.token.1.length with hstart
  -- the options, from the start of the loop on
  have hsize : wireSize p = 4 + p.token.1.length +
      (encodeItems 0 (messageItems p serializeOrder)).length := by
    rw [length_encodeItems, wireSize]
  obtain ⟨st, hread⟩ : ∃ st, OptionsRead bits (coapSerializeMessage conf p buffer).length receiver p
      serializeOrder (payloadPart p buffer) start st := exists_optionsRead hsupported hbits
    (show (coapSerializeMessage conf p buffer).length ≤ 2 ^ 16 by omega) grows_serializeOrder
    (fun _ _ ↦ rfl) (fun _ ↦ Nat.zero_le _) hoptions
    (by
      change 4 + p.token.1.length + (encodeItems 0 (messageItems p serializeOrder) ++ _).length = _
      rw [length_append, hlength, hsize]
      omega)
  obtain ⟨-, htype', hcode', hmid', htoken', hpayload'⟩ := hread.header
  obtain ⟨r, hturn, hstatus, hsent, hpacket, hmem⟩ := exists_received hread hpayload'
  refine ⟨r, ?_, hstatus, ?_⟩
  · rw [coapParseMessage_of_accepted hversion (htokenLen.trans_le p.token.2), htokenLen]
    exact congrArg Option.join (loop_of_goes (parseTurn_lowers bits receiver _)
      (Nat.lt_succ_of_le (Nat.sub_le _ _)) hread.goes hturn)
  · have hfields : ∀ {α : Type} (f : ParsedPacket → α),
        (∀ q payload, f { q with payload := payload } = f q) → f r.state.packet = f st.packet := by
      intro α f hf
      exact (hf _ _).symm.trans (congrArg f hpacket)
    refine ⟨?_, ?_, ?_, ?_, ?_, ?_, hsent⟩
    · rw [hfields CoapPacket.type fun _ _ ↦ rfl, htype']
      exact htype
    · rw [hfields CoapPacket.code fun _ _ ↦ rfl, hcode']
      exact hsecond
    · rw [hfields CoapPacket.mid fun _ _ ↦ rfl, hmid']
      change (mem 2).toUInt16 <<< 8 ||| (mem 3).toUInt16 = p.mid
      rw [hthird, hfourth, mid_read]
    · rw [hfields CoapPacket.token fun _ _ ↦ rfl, htoken']
      change ShortBytes.cut (slice mem 4 p.token.1.length) = p.token
      rw [holds_iff_slice.mp htoken]
      exact Subtype.ext (take_of_length_le p.token.2)
    · rw [hfields CoapPacket.options fun _ _ ↦ rfl]
      ext n
      rw [hread.options]
      constructor
      · rintro (hnone | ⟨o, -, hset, rfl⟩)
        · exact absurd hnone (Finset.notMem_empty n)
        · exact hset
      · intro hn
        obtain ⟨o, rfl⟩ := hbuilt.options n hn
        exact .inr ⟨o, mem_serializeOrder o, hn, rfl⟩
    · intro o hset
      exact (hread.read o (mem_serializeOrder o) hset).congr hread.strings
        (hfields CoapPacket.int fun _ _ ↦ rfl) (hfields CoapPacket.byte fun _ _ ↦ rfl)
        (hfields CoapPacket.block fun _ _ ↦ rfl) (hfields CoapPacket.string fun _ _ ↦ rfl) hmem

/-! ### The round trip -/

/-- What comes back is the message: the fields of the header, the options, their values, and the
payload. -/
structure SameMessage (p : Message) (buffer : ℕ → UInt8) (st : ParseState) : Prop where
  type : st.packet.type = p.type
  code : st.packet.code = p.code
  mid : st.packet.mid = p.mid
  token : st.packet.token = p.token
  options : st.packet.options = p.options
  int : ∀ o : IntOption, p.IsOption o.number → st.packet.int o = p.int o
  byte : ∀ o : ByteOption, p.IsOption o.number → st.packet.byte o = p.byte o
  string : ∀ o : StringOption, p.IsOption o.number →
    slice st.mem (st.packet.string o).start (st.packet.string o).len = (p.string o).chars
  block : ∀ o : BlockOption, p.IsOption o.number →
    (st.packet.block o).num = (p.block o).num ∧ (st.packet.block o).more = (p.block o).more ∧
      (st.packet.block o).size = (p.block o).size ∧
      (st.packet.block o).offset.toNat = (p.block o).num.toNat * (p.block o).size.toNat
  payload : slice st.mem st.packet.payload.start st.packet.payload.len = givenPayload p buffer

/-- If the serializer returns a length, the parser accepts these bytes and yields the message. -/
def RoundTrip (bits : ℕ) (conf : CoapConf) (p : Message) (buffer : ℕ → UInt8) : Prop :=
  0 < (coapSerializeMessage conf p buffer).length →
    ∀ mem, Holds mem 0 (coapSerializeMessage conf p buffer).datagram →
      ∃ r, coapParseMessage bits conf mem (coapSerializeMessage conf p buffer).length = some r ∧
        r.status = .noError ∧ SameMessage p buffer r.state

/-- The set block options say a power of two and a more flag of 0 or 1. -/
def SayableBlocks (p : Message) : Prop :=
  ∀ o : BlockOption, p.IsOption o.number → (∃ k, (p.block o).size.toNat = 2 ^ k) ∧ (p.block o).more ≤ 1

/-- The header does not fit, or the blocks can be said and the payload is not overwritten. -/
def Faithful (conf : CoapConf) (p : Message) (buffer : ℕ → UInt8) : Prop :=
  conf.maxHeaderSize < wireSize p ∨ SayableBlocks p ∧ ¬ Overwritten conf p buffer

theorem parseBlock_encodeBlock_iff {b : Block} (hlow : 16 ≤ b.size) (hhigh : b.size ≤ 2048)
    (hnum : b.num ≤ 0x0FFFFF) :
    ((parseBlock (encodeBlock b)).num = b.num ∧ (parseBlock (encodeBlock b)).more = b.more ∧
      (parseBlock (encodeBlock b)).size = b.size ∧
      (parseBlock (encodeBlock b)).offset.toNat = b.num.toNat * b.size.toNat) ↔
      (∃ k, b.size.toNat = 2 ^ k) ∧ b.more ≤ 1 := by
  obtain ⟨hparsedNum, hmore, hsize, hoffset⟩ := toNat_parseBlock_encodeBlock hnum hhigh
  have hflag : (if b.more ≠ 0 then 1 else 0) = b.more ↔ b.more ≤ 1 := by
    rw [UInt8.le_iff_toNat_le]
    constructor
    · intro hsame
      rw [← hsame]
      split_ifs <;> decide
    · intro hle
      have hone : (1 : UInt8).toNat = 1 := rfl
      split_ifs with hne
      · apply UInt8.toNat_inj.mp
        have hpos : b.more.toNat ≠ 0 := fun hzero ↦ hne (UInt8.toNat_inj.mp hzero)
        omega
      · exact (not_not.mp hne).symm
  rw [hparsedNum, hmore, hoffset, ← UInt16.toNat_inj, hsize, ← saidSize_eq_iff hlow, hflag]
  constructor
  · rintro ⟨-, hle, hsaid, -⟩
    exact ⟨hsaid, hle⟩
  · rintro ⟨hsaid, hle⟩
    exact ⟨rfl, hle, hsaid, by rw [hsaid]⟩

theorem Received.sameMessage_iff {payload : List UInt8} (hreceived : Received p payload st)
    (hbuilt : Built conf p) :
    SameMessage p buffer st ↔ SayableBlocks p ∧ payload = givenPayload p buffer := by
  have hblock : ∀ o : BlockOption, p.IsOption o.number →
      (((st.packet.block o).num = (p.block o).num ∧ (st.packet.block o).more = (p.block o).more ∧
        (st.packet.block o).size = (p.block o).size ∧
        (st.packet.block o).offset.toNat = (p.block o).num.toNat * (p.block o).size.toNat) ↔
        (∃ k, (p.block o).size.toNat = 2 ^ k) ∧ (p.block o).more ≤ 1) := by
    intro o hset
    obtain ⟨hlow, hhigh, hnum⟩ := hbuilt.block o hset
    have hread : st.packet.block o = parseBlock (encodeBlock (p.block o)) :=
      hreceived.read (.block o) hset
    rw [hread]
    exact parseBlock_encodeBlock_iff hlow hhigh hnum
  constructor
  · intro hsame
    exact ⟨fun o hset ↦ (hblock o hset).mp (hsame.block o hset),
      hreceived.payload.symm.trans hsame.payload⟩
  · rintro ⟨hblocks, hpayload⟩
    exact ⟨hreceived.type, hreceived.code, hreceived.mid, hreceived.token, hreceived.options,
      fun o ↦ hreceived.read (.int o), fun o ↦ hreceived.read (.byte o),
      fun o ↦ hreceived.read (.string o), fun o hset ↦ (hblock o hset).mpr (hblocks o hset),
      hreceived.payload.trans hpayload⟩

/-- Every message that the setters build of the supported options comes back exactly if it is
faithful. -/
theorem roundTrip_iff (hbits : 16 ≤ bits) {type : MessageType} {code : UInt8} {mid : UInt16}
    {setters : List Setter} (hp : p = build conf (coapInitMessage type code mid) setters)
    (hcode : p.code ≠ 0)
    (hproxy : ¬ p.IsOption StringOption.proxyUri.number ∧
      ¬ p.IsOption StringOption.proxyScheme.number)
    (hsegments : SegmentsNonempty p)
    (hptr : (∃ mem, p.payload.ptr = .own mem) ∨ p.payload.ptr = .inBuffer conf.maxHeaderSize) :
    RoundTrip bits conf p buffer ↔ Faithful conf p buffer := by
  have hbuilt : Built conf p := hp ▸ built_build (built_init type code mid) setters
  have hsupported : Supported p := ⟨hbuilt.int, hproxy, hsegments⟩
  have hheader := length_serializedHeader_items hsegments
  by_cases hfits : wireSize p ≤ conf.maxHeaderSize
  · have hsent := sentPayload_eq_iff buffer hsegments hfits hptr
    rw [Faithful, or_iff_right (not_lt.mpr hfits), ← hsent]
    have hwhole : (sentPayload p buffer).take conf.maxChunkSize = sentPayload p buffer := by
      apply take_of_length_le
      rw [sentPayload, length_slice]
      exact hbuilt.payload
    have hpos : 0 < (coapSerializeMessage conf p buffer).length := by
      have hlength := congrArg length
        (datagram_coapSerializeMessage buffer hcode (hheader.trans_le hfits))
      rw [Serialized.datagram, length_slice, length_append, hheader, wireSize] at hlength
      omega
    constructor
    · intro htrip
      have hholds := holds_getD (coapSerializeMessage conf p buffer).datagram 0
      obtain ⟨r, hparse, -, hsame⟩ := htrip hpos _ hholds
      obtain ⟨r', hparse', -, hreceived⟩ :=
        received_datagram conf hbuilt hsupported hbits hcode hfits hholds
      rw [hwhole] at hreceived
      obtain rfl := some.inj (hparse.symm.trans hparse')
      exact (hreceived.sameMessage_iff hbuilt).mp hsame
    · intro hfaithful _ mem hholds
      obtain ⟨r, hparse, hstatus, hreceived⟩ :=
        received_datagram conf hbuilt hsupported hbits hcode hfits hholds
      rw [hwhole] at hreceived
      exact ⟨r, hparse, hstatus, (hreceived.sameMessage_iff hbuilt).mpr hfaithful⟩
  · have hlong := not_le.mp hfits
    refine iff_of_true (fun hpos ↦ ?_) (.inl hlong)
    rw [refused_of_not_fits buffer hcode (hheader.symm ▸ hlong)] at hpos
    exact absurd hpos (Nat.lt_irrefl 0)

def pathMessage : Message :=
  build CoapConf.default (coapInitMessage .con 1 7)
    [.token [1, 2], .uriPath ⟨[0x61, 0x62, 0x2f, 0x63], by decide, fun _ ↦ 0⟩, .block2 3 0 64]

theorem roundTrip_pathMessage : RoundTrip 16 CoapConf.default pathMessage fun _ ↦ 0 := by
  have hsegments : SegmentsNonempty pathMessage := by
    intro s hsplit hset
    cases s with
    | uriPath => exact .inr (by decide +kernel)
    | _ => exact absurd hset (by decide)
  refine (roundTrip_iff (by decide) rfl (by decide) (by decide) hsegments (.inl ⟨_, rfl⟩)).mpr
    (.inr ⟨?_, fun hover ↦ hover.2.2.1 rfl⟩)
  intro o hset
  cases o with
  | block2 => exact ⟨⟨6, by decide⟩, by decide⟩
  | block1 => exact absurd hset (by decide)

/-- A message whose header has exactly `COAP_MAX_HEADER_SIZE` bytes, and whose payload was put behind
the place of the header. -/
def fullHeader : Message :=
  build CoapConf.default (coapInitMessage .con 2 7)
    [.token (replicate 8 0x74), .uriHost ⟨replicate 48 0x61, by decide, fun _ ↦ 0⟩,
      .payload (.inBuffer 62) 1]

/-- Its payload comes back as the payload marker. -/
theorem not_roundTrip :
    ¬ ∀ (bits : ℕ) (conf : CoapConf) (type : MessageType) (code : UInt8) (mid : UInt16)
      (setters : List Setter) (buffer : ℕ → UInt8),
      let p := build conf (coapInitMessage type code mid) setters
      16 ≤ bits → p.code ≠ 0 →
      (¬ p.IsOption StringOption.proxyUri.number ∧ ¬ p.IsOption StringOption.proxyScheme.number) →
      SegmentsNonempty p →
      ((∃ mem, p.payload.ptr = .own mem) ∨ p.payload.ptr = .inBuffer conf.maxHeaderSize) →
        RoundTrip bits conf p buffer := by
  intro hall
  have hsegments : SegmentsNonempty fullHeader := by
    intro s hsplit hset
    cases s with
    | uriHost => exact absurd rfl hsplit
    | _ => exact absurd hset (by decide)
  have htrip : RoundTrip 32 CoapConf.default fullHeader fun _ ↦ 0x70 :=
    hall 32 CoapConf.default .con 2 7 _ _ (by decide) (by decide) (by decide) hsegments (.inr rfl)
  have hsent : (coapSerializeMessage CoapConf.default fullHeader fun _ ↦ 0x70).length = 64 := by
    decide +kernel
  obtain ⟨r, hparse, -, hsame⟩ := htrip (by rw [hsent]; decide) _ (holds_getD _ 0)
  have hparsed : (coapParseMessage 32 CoapConf.default (fun i ↦
      (coapSerializeMessage CoapConf.default fullHeader fun _ ↦ 0x70).datagram.getD i 0) 64).map
      (fun r ↦ slice r.state.mem r.state.packet.payload.start r.state.packet.payload.len) =
        some [0xFF] := by decide +kernel
  rw [hsent] at hparse
  rw [hparse] at hparsed
  have hmarker := hsame.payload.symm.trans (some.inj hparsed)
  exact absurd hmarker (by decide +kernel)

end ContikiMaster.Coap
