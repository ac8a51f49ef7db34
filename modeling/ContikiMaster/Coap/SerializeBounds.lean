import ContikiMaster.Coap.ParseTurns
import ContikiMaster.Coap.Values

/-!
# Bounds of the serializer

The serializer tests the size of the header once it has written all options, and does
not count the payload marker; the loop that splits a string looks at the character
behind it. The buffer and the strings are left in these cases only.
-/

namespace ContikiMaster.Coap

open Lib List Option

variable {conf : CoapConf} {p : Message} {array : Text} {splitChar : UInt8}
  {number currentNumber partStart j fuel : ℕ}

@[simp]
theorem append_bytes (a b : Out) : (a ++ b).bytes = a.bytes ++ b.bytes := rfl

@[simp]
theorem append_reads (a b : Out) : (a ++ b).reads = a.reads ++ b.reads := rfl

def optionSize (delta length : ℕ) : ℕ := 1 + extensionSize delta + extensionSize length + length

def valueSize (p : Message) : CoapOption → ℕ
  | .int o => intSize (p.int o).toNat
  | .byte o => (p.byte o).1.length
  | .string o => (p.string o).len
  | .block o => intSize (encodeBlock (p.block o)).toNat
  | .ifNoneMatch => 0

def optionsSize (p : Message) : ℕ → List CoapOption → ℕ
  | _, [] => 0
  | currentNumber, o :: rest =>
    if p.IsOption o.number then
      optionSize (o.number - currentNumber) (valueSize p o) + optionsSize p o.number rest
    else optionsSize p currentNumber rest

def headerSize (p : Message) : ℕ := 4 + p.token.1.length + optionsSize p 0 serializeOrder

/-- No string that is split into options is set. -/
def NoSplitString (p : Message) : Prop :=
  ∀ o : StringOption, o.splitter ≠ 0 → ¬ p.IsOption o.number

theorem length_coapSetOptionHeader (delta length : ℕ) :
    (coapSetOptionHeader delta length).length = 1 + extensionSize delta + extensionSize length := by
  rw [coapSetOptionHeader, length_cons, length_append, length_extension, length_extension]
  omega

variable {o : CoapOption} {r : ℕ × ℕ}

theorem length_serializeOption (hwhole : ∀ s, o = .string s → s.splitter = 0) :
    (serializeOption p currentNumber o).bytes.length =
      optionSize (o.number - currentNumber) (valueSize p o) := by
  cases o with
  | int i =>
    simp [serializeOption, coapSerializeIntOption, length_coapSetOptionHeader, length_intBytes,
      optionSize, valueSize]
  | byte b =>
    simp [serializeOption, coapSerializeByteOption, length_coapSetOptionHeader, optionSize, valueSize]
  | string s =>
    simp [serializeOption, coapSerializeArrayOption, hwhole s rfl, copyPart,
      length_coapSetOptionHeader, optionSize, valueSize]
  | block b =>
    simp [serializeOption, coapSerializeIntOption, length_coapSetOptionHeader, length_intBytes,
      optionSize, valueSize]
  | ifNoneMatch =>
    simp [serializeOption, coapSerializeIntOption, length_coapSetOptionHeader, length_intBytes,
      optionSize, valueSize, intSize]

theorem mem_reads_copyPart {delta start length : ℕ}
    (hr : r ∈ (copyPart delta array start length).reads) :
    r.2 = array.len ∧ r.1 < start + length := by
  obtain ⟨k, hk, rfl⟩ := mem_map.mp hr
  exact ⟨rfl, (mem_range'_1.mp hk).2⟩

theorem reads_serializeOption (hwhole : ∀ s, o = .string s → s.splitter = 0)
    (hr : r ∈ (serializeOption p currentNumber o).reads) : r.1 < r.2 := by
  cases o with
  | string s =>
    have hcopy : (serializeOption p currentNumber (.string s)).reads =
        (copyPart (s.number - currentNumber) (p.string s) 0 (p.string s).len).reads := by
      simp [serializeOption, coapSerializeArrayOption, hwhole s rfl, CoapOption.number]
    rw [hcopy] at hr
    obtain ⟨hlen, hlt⟩ := mem_reads_copyPart hr
    omega
  | _ => cases hr

theorem serializeOptions_whole (hwhole : NoSplitString p) (order : List CoapOption)
    (currentNumber : ℕ) :
    (serializeOptions p currentNumber order).bytes.length = optionsSize p currentNumber order ∧
      ∀ r ∈ (serializeOptions p currentNumber order).reads, r.1 < r.2 := by
  induction order generalizing currentNumber with
  | nil => exact ⟨rfl, fun r hr ↦ by cases hr⟩
  | cons o rest ih =>
    rw [serializeOptions, optionsSize]
    split_ifs with hset
    · have hnot : ∀ s, o = .string s → s.splitter = 0 := by
        rintro s rfl
        by_contra hsplit
        exact hwhole s hsplit hset
      obtain ⟨hlength, hreads⟩ := ih o.number
      refine ⟨?_, fun r hr ↦ ?_⟩
      · rw [append_bytes, length_append, length_serializeOption hnot, hlength]
      · rcases mem_append.mp hr with hfirst | hlater
        · exact reads_serializeOption hnot hfirst
        · exact hreads r hlater
    · exact ih currentNumber

theorem length_serializedHeader (hwhole : NoSplitString p) :
    (serializedHeader p).bytes.length = headerSize p := by
  rw [serializedHeader, append_bytes, length_append, length_append,
    (serializeOptions_whole hwhole serializeOrder 0).1]
  rfl

theorem splitLoop_reads_past (hfuel : array.len + 2 ≤ fuel + j) (hj : j ≤ array.len + 1) :
    ∃ r ∈ (splitLoop number array splitChar fuel currentNumber partStart j).reads, r.2 ≤ r.1 := by
  induction fuel generalizing currentNumber partStart j with
  | zero => omega
  | succ fuel ih =>
    rw [splitLoop, if_pos hj]
    by_cases hpast : array.len ≤ j
    · refine ⟨(j, array.len), ?_, hpast⟩
      split_ifs <;> simp
    · split_ifs
      · obtain ⟨r, hr, hle⟩ : ∃ r ∈ (splitLoop number array splitChar fuel number (j + 1)
          (j + 2)).reads, r.2 ≤ r.1 := ih (by omega) (by omega)
        exact ⟨r, by simp [hr], hle⟩
      · obtain ⟨r, hr, hle⟩ : ∃ r ∈ (splitLoop number array splitChar fuel currentNumber partStart
          (j + 1)).reads, r.2 ≤ r.1 := ih (by omega) (by omega)
        exact ⟨r, by simp [hr], hle⟩

theorem serializeOptions_reads_past {o : StringOption} (hsplit : o.splitter ≠ 0)
    (hset : p.IsOption o.number) {order : List CoapOption} (ho : .string o ∈ order) :
    ∃ r ∈ (serializeOptions p currentNumber order).reads, r.2 ≤ r.1 := by
  induction order generalizing currentNumber with
  | nil => cases ho
  | cons first rest ih =>
    rw [serializeOptions]
    rcases mem_cons.mp ho with rfl | hrest
    · rw [if_pos (show p.IsOption (CoapOption.string o).number from hset)]
      obtain ⟨r, hr, hle⟩ : ∃ r ∈ (splitLoop o.number (p.string o) o.splitter ((p.string o).len + 2)
        currentNumber 0 0).reads, r.2 ≤ r.1 := splitLoop_reads_past le_rfl (Nat.zero_le _)
      refine ⟨r, mem_append_left _ ?_, hle⟩
      simpa [serializeOption, coapSerializeArrayOption, hsplit, CoapOption.number] using hr
    · split_ifs
      · obtain ⟨r, hr, hle⟩ : ∃ r ∈ (serializeOptions p first.number rest).reads, r.2 ≤ r.1 := ih hrest
        exact ⟨r, mem_append_right _ hr, hle⟩
      · exact ih hrest

/-- A parsed message as the setters and the serializer see it: its strings and its payload are
where they were left in the memory. -/
def ParseState.message (st : ParseState) : Message where
  version := st.packet.version
  type := st.packet.type
  code := st.packet.code
  mid := st.packet.mid
  token := st.packet.token
  options := st.packet.options
  int := st.packet.int
  byte := st.packet.byte
  string o := ⟨fun i ↦ st.mem ((st.packet.string o).start + i), (st.packet.string o).len⟩
  block := st.packet.block
  ifNoneMatch := st.packet.ifNoneMatch
  payload := ⟨.own fun i ↦ st.mem (st.packet.payload.start + i), st.packet.payload.len⟩

/-- The messages that the setters build, of a new message or of a parsed one. -/
inductive Reachable (conf : CoapConf) : Message → Prop
  | init (type : MessageType) (code : UInt8) (mid : UInt16) :
      Reachable conf (coapInitMessage type code mid)
  | parsed {bits dataLen : ℕ} {mem : ℕ → UInt8} {r : Parsed}
      (hparsed : coapParseMessage bits conf mem dataLen = some r) : Reachable conf r.state.message
  | set {p : Message} (hreachable : Reachable conf p) (s : Setter) :
      Reachable conf (applySetter conf p s)

theorem payload_le_of_parse {bits dataLen : ℕ} {mem : ℕ → UInt8} {r : Parsed}
    (hparsed : coapParseMessage bits conf mem dataLen = some r) :
    r.state.packet.payload.len ≤ conf.maxChunkSize := by
  have hkeeps : ∀ s t : ParseState, s.packet.payload.len = 0 →
      parseTurn bits conf dataLen s = .goesOn t → t.packet.payload.len = 0 := by
    intro s t hs hturn
    obtain ⟨-, -, -, -, u, hoption, rfl⟩ := parseTurn_goesOn hturn
    obtain ⟨-, -, -, hpayload⟩ := parseOption_goesOn hoption
    rw [hpayload]
    exact hs
  have hreturns : ∀ (s : ParseState) (out : Option Parsed), s.packet.payload.len = 0 →
      parseTurn bits conf dataLen s = .returns out →
      ∀ r, out = some r → r.state.packet.payload.len ≤ conf.maxChunkSize := by
    rintro s _ hs hturn r rfl
    obtain ⟨-, -, hpayload | ⟨-, rfl⟩⟩ := parseTurn_returns hturn
    · rw [hpayload, hs]
      exact Nat.zero_le _
    · exact Nat.min_le_left _ _
  unfold coapParseMessage at hparsed
  dsimp only at hparsed
  split_ifs at hparsed
  · obtain rfl := some.inj hparsed
    exact Nat.zero_le _
  · obtain rfl := some.inj hparsed
    exact Nat.zero_le _
  · exact loop_invariant (P := fun s : ParseState ↦ s.packet.payload.len = 0)
      (Q := fun out : Option Parsed ↦ ∀ r, out = some r →
        r.state.packet.payload.len ≤ conf.maxChunkSize) hkeeps hreturns rfl
      (Option.join_eq_some_iff.mp hparsed) r rfl

theorem setHeaderBlock_payload (o : BlockOption) (num : UInt32) (more : UInt8) (size : UInt16) :
    (p.setHeaderBlock o num more size).payload = p.payload := by
  unfold Message.setHeaderBlock
  split_ifs <;> rfl

theorem Reachable.payload_le (hreachable : Reachable conf p) :
    p.payload.len ≤ conf.maxChunkSize := by
  induction hreachable with
  | init type code mid => exact Nat.zero_le _
  | parsed hparsed => exact payload_le_of_parse hparsed
  | @set p _ s ih =>
    cases s with
    | payload payload length => exact Nat.min_le_left _ _
    | statusCode code =>
      simp only [applySetter, Message.coapSetStatusCode]
      split_ifs
      · exact ih
      · exact ih
    | int o value => cases o <;> exact ih
    | byte o bytes => cases o <;> exact ih
    | locationPath path =>
      simp only [applySetter, Message.coapSetHeaderLocationPath]
      split_ifs <;> exact ih
    | block2 num more size =>
      simp only [applySetter, Message.coapSetHeaderBlock2, setHeaderBlock_payload]
      exact ih
    | block1 num more size =>
      simp only [applySetter, Message.coapSetHeaderBlock1, setHeaderBlock_payload]
      exact ih
    | _ => exact ih

/-- The serializer writes inside a buffer of `COAP_MAX_PACKET_SIZE` bytes, reads inside the strings,
and returns 0 when the header does not fit. -/
structure StaysInBuffer (conf : CoapConf) (p : Message) : Prop where
  written : ∀ buffer, (coapSerializeMessage conf p buffer).written ≤ conf.maxPacketSize
  reads : ∀ buffer, ∀ r ∈ (coapSerializeMessage conf p buffer).reads, r.1 < r.2
  refused : ∀ buffer, p.code ≠ 0 → conf.maxHeaderSize < (serializedHeader p).bytes.length →
    (coapSerializeMessage conf p buffer).length = 0

/-- The message is empty, or no split string is set, the header fits the packet, and a header that
fills its place comes with less than a whole chunk of payload. -/
def FitsBuffer (conf : CoapConf) (p : Message) : Prop :=
  p.code = 0 ∨ NoSplitString p ∧ headerSize p ≤ conf.maxPacketSize ∧
    (headerSize p = conf.maxHeaderSize → p.payload.len = 0 ∨ p.payload.len < conf.maxChunkSize)

theorem refused_of_not_fits (buffer : ℕ → UInt8) (hcode : p.code ≠ 0)
    (hlong : conf.maxHeaderSize < (serializedHeader p).bytes.length) :
    (coapSerializeMessage conf p buffer).length = 0 := by
  rw [coapSerializeMessage, if_neg hcode]
  dsimp only
  rw [if_neg (not_le.mpr hlong)]

theorem reads_coapSerializeMessage (conf : CoapConf) (buffer : ℕ → UInt8) (hcode : p.code ≠ 0) :
    (coapSerializeMessage conf p buffer).reads = (serializedHeader p).reads := by
  rw [coapSerializeMessage, if_neg hcode]
  dsimp only
  split_ifs <;> rfl

theorem written_coapSerializeMessage (conf : CoapConf) (buffer : ℕ → UInt8) (hcode : p.code ≠ 0) :
    (coapSerializeMessage conf p buffer).written = (serializedHeader p).bytes.length +
        if (serializedHeader p).bytes.length ≤ conf.maxHeaderSize then
          (if p.payload.len ≠ 0 then 1 else 0) + p.payload.len
        else 0 := by
  rw [coapSerializeMessage, if_neg hcode]
  dsimp only
  split_ifs
  · simp only [length_append, length_singleton, Nat.add_assoc]
  · simp only [Nat.zero_add]
  · rfl

/-- The serializer stays inside its buffer and the strings exactly for these messages. -/
theorem staysInBuffer_iff (hreachable : Reachable conf p) :
    StaysInBuffer conf p ↔ FitsBuffer conf p := by
  have hpayload := hreachable.payload_le
  have hheader := conf.header
  have hmax : conf.maxPacketSize = conf.maxHeaderSize + conf.maxChunkSize := rfl
  by_cases hcode : p.code = 0
  · refine iff_of_true ⟨fun buffer ↦ ?_, fun buffer r hr ↦ ?_, fun _ hne ↦ absurd hcode hne⟩
      (Or.inl hcode)
    · rw [coapSerializeMessage, if_pos hcode]
      change 4 ≤ conf.maxPacketSize
      omega
    · rw [coapSerializeMessage, if_pos hcode] at hr
      cases hr
  rw [FitsBuffer, or_iff_right hcode]
  by_cases hwhole : NoSplitString p
  · have hlength := length_serializedHeader hwhole
    have hreads : ∀ buffer, ∀ r ∈ (coapSerializeMessage conf p buffer).reads, r.1 < r.2 := by
      intro buffer r hr
      rw [reads_coapSerializeMessage conf buffer hcode] at hr
      exact (serializeOptions_whole hwhole serializeOrder 0).2 r hr
    have hwritten := fun buffer ↦ written_coapSerializeMessage (p := p) conf buffer hcode
    rw [hlength] at hwritten
    rw [and_iff_right hwhole]
    constructor
    · intro hstays
      have hle := hstays.written fun _ ↦ 0
      rw [hwritten] at hle
      split_ifs at hle <;> omega
    · intro hfits
      refine ⟨fun buffer ↦ ?_, hreads, fun buffer hne hlong ↦ refused_of_not_fits buffer hne hlong⟩
      rw [hwritten]
      split_ifs <;> omega
  · refine iff_of_false (fun hstays ↦ ?_) fun hfits ↦ hwhole hfits.1
    unfold NoSplitString at hwhole
    push Not at hwhole
    obtain ⟨o, hsplit, hset⟩ := hwhole
    obtain ⟨r, hr, hle⟩ : ∃ r ∈ (serializeOptions p 0 serializeOrder).reads, r.2 ≤ r.1 :=
      serializeOptions_reads_past hsplit hset (mem_serializeOrder (.string o))
    have hread := hstays.reads (fun _ ↦ 0) r
    rw [reads_coapSerializeMessage conf _ hcode] at hread
    exact absurd (hread hr) (not_lt.mpr hle)

def blockRequest : Message :=
  build CoapConf.default (coapInitMessage .con 1 7) [.token [1, 2], .block2 0 0 64]

theorem staysInBuffer_blockRequest : StaysInBuffer CoapConf.default blockRequest := by
  have hreachable : Reachable CoapConf.default blockRequest :=
    ((Reachable.init .con 1 7).set (.token [1, 2])).set (.block2 0 0 64)
  refine (staysInBuffer_iff hreachable).mpr (Or.inr ⟨?_, by decide +kernel, by decide +kernel⟩)
  intro o hsplit
  cases o with
  | uriHost => exact absurd rfl hsplit
  | proxyUri => exact absurd rfl hsplit
  | proxyScheme => exact absurd rfl hsplit
  | _ => decide +kernel

def longHost : CString := ⟨replicate 200 0x61, by decide, fun _ ↦ 0⟩

/-- The host name is written past the end of the buffer, although 0 is returned then. -/
theorem not_staysInBuffer :
    ¬ ∀ p, Reachable CoapConf.default p → StaysInBuffer CoapConf.default p := by
  intro hall
  have hstays := hall _ ((Reachable.init .con 1 7).set (.uriHost longHost))
  have hwritten : (coapSerializeMessage CoapConf.default
      (applySetter CoapConf.default (coapInitMessage .con 1 7) (.uriHost longHost))
      fun _ ↦ 0).written = 206 := by decide +kernel
  have hle := hstays.written fun _ ↦ 0
  rw [hwritten] at hle
  exact absurd hle (by decide)

end ContikiMaster.Coap
