import ContikiMaster.Coap.OptionItems
import ContikiMaster.Coap.ParseBounds

/-!
# Parsing items

What the parser makes of the items of a message, turn by turn. The values of an option
that is split are glued in place; what this writes stays behind everything that was
parsed before the option.
-/

namespace ContikiMaster.Coap

open Lib Cursor Function List

variable {bits dataLen number : ℕ} {conf : CoapConf} {p : Message} {st st' : ParseState}
  {value rest : List UInt8}

theorem marker_iff (b : UInt8) : b &&& 0xF0 = 0xF0 ↔ b.toNat >>> 4 = 15 := by
  have hall : ∀ n < 256, UInt8.ofNat n &&& 0xF0 = 0xF0 ↔ n >>> 4 = 15 := by decide +kernel
  have hb := hall b.toNat b.toNat_lt
  rwa [UInt8.ofNat_toNat] at hb

/-- The parser is at an item with a larger number. -/
structure AtItem (bits dataLen : ℕ) (st : ParseState) (number : ℕ) (value rest : List UInt8) :
    Prop where
  bits : 16 ≤ bits
  size : dataLen ≤ 2 ^ 16
  le : st.number ≤ number
  small : number ≤ 60
  holds : Holds st.mem st.current
    (coapSetOptionHeader (number - st.number) value.length ++ value ++ rest)
  atEnd : st.current + (coapSetOptionHeader (number - st.number) value.length ++ value ++
    rest).length = dataLen

def itemHeaderSize (delta length : ℕ) : ℕ := 1 + extensionSize delta + extensionSize length

/-- What the parser knows once it has read the header of an item. -/
structure ItemEntered (bits : ℕ) (st : ParseState) (number : ℕ) (value rest : List UInt8) :
    Prop where
  numberRead : (optionState bits st).number = number
  length : optionLength bits st = value.length
  current : (optionState bits st).current =
    st.current + itemHeaderSize (number - st.number) value.length
  valueRead : slice st.mem (optionState bits st).current value.length = value
  restHolds : Holds st.mem ((optionState bits st).current + value.length) rest

theorem AtItem.entered (hitem : AtItem bits dataLen st number value rest) :
    ItemEntered bits st number value rest ∧ st.mem st.current &&& 0xF0 ≠ 0xF0 := by
  have hend := hitem.atEnd
  have hsize := hitem.size
  have hle := hitem.le
  have hsmall := hitem.small
  have hpow : 2 ^ 16 ≤ 2 ^ bits := Nat.pow_le_pow_right (by decide) hitem.bits
  rw [length_append, length_append, length_coapSetOptionHeader] at hend
  obtain ⟨hfront, hrest⟩ := holds_append.mp hitem.holds
  obtain ⟨hheader, hvalue⟩ := holds_append.mp hfront
  rw [length_coapSetOptionHeader] at hvalue
  rw [length_append, length_coapSetOptionHeader] at hrest
  obtain ⟨hfirst, hextensions⟩ := holds_cons.mp hheader
  obtain ⟨hdelta, hlength⟩ := holds_append.mp hextensions
  rw [length_extension] at hlength
  obtain ⟨hhigh, hlow⟩ := headerByte_halves (number - st.number) value.length
  rw [← hfirst] at hhigh hlow
  have hreadDelta := readExtension_extension hitem.bits
    (show number - st.number < 2 ^ 16 by omega) hdelta
  have hreadLength := readExtension_extension hitem.bits
    (show value.length < 2 ^ 16 by omega) hlength
  have hread : readHeader bits st.mem st.current =
      ⟨number - st.number, value.length,
        st.current + itemHeaderSize (number - st.number) value.length,
        range' (st.current + 1) (extensionSize (number - st.number)) ++
          range' (st.current + 1 + extensionSize (number - st.number))
            (extensionSize value.length)⟩ := by
    unfold readHeader
    dsimp only
    rw [hhigh, hlow, hreadDelta]
    dsimp only
    rw [hreadLength]
    simp only [itemHeaderSize, Nat.add_assoc]
  have hcurrent : (optionState bits st).current =
      st.current + itemHeaderSize (number - st.number) value.length := by
    change (readHeader bits st.mem st.current).content = _
    rw [hread]
  refine ⟨⟨?_, ?_, hcurrent, ?_, ?_⟩, ?_⟩
  · change (st.number + (readHeader bits st.mem st.current).delta) % 2 ^ bits = number
    rw [hread]
    change (st.number + (number - st.number)) % 2 ^ bits = number
    rw [Nat.add_sub_cancel' hle, Nat.mod_eq_of_lt (by omega)]
  · rw [optionLength, hread]
  · rw [hcurrent]
    exact holds_iff_slice.mp hvalue
  · rw [hcurrent, Nat.add_assoc]
    exact hrest
  · rw [ne_eq, marker_iff, hhigh]
    exact (coapOptionNibble_lt _).ne

theorem AtItem.turn (hitem : AtItem bits dataLen st number value rest) {t : ParseState}
    (hoption : parseOption (optionState bits st) value.length = .goesOn t) :
    parseTurn bits conf dataLen st = .goesOn { t with current := t.current + value.length } := by
  obtain ⟨hentered, hmarker⟩ := hitem.entered
  have hend := hitem.atEnd
  have hsmall := hitem.small
  have hcurrent := hentered.current
  have hlength := hentered.length
  have hnumber := hentered.numberRead
  rw [length_append, length_append, length_coapSetOptionHeader] at hend
  unfold itemHeaderSize at hcurrent
  have hcases := parseTurn_cases bits conf dataLen st
  generalize parseTurn bits conf dataLen st = turn at hcases
  cases hcases with
  | done hdone => omega
  | payload _ hmark => exact absurd hmark hmarker
  | tooLong _ _ hlong => exact absurd (passes_of_le (by omega)) hlong
  | tooLarge _ _ _ hlarge => omega
  | option =>
    have hsame := (parseOption_goesOn hoption).1
    rw [hlength, hoption, advance_goesOn (by omega)]

/-! ### One option -/

def ReadBack (p : Message) (st : ParseState) : CoapOption → Prop
  | .int o => st.packet.int o = p.int o
  | .byte o => st.packet.byte o = p.byte o
  | .string o => slice st.mem (st.packet.string o).start (st.packet.string o).len = (p.string o).chars
  | .block o => st.packet.block o = parseBlock (encodeBlock (p.block o))
  | .ifNoneMatch => True

def StringsBehind (st : ParseState) : Prop :=
  ∀ s, (st.packet.string s).start + (st.packet.string s).len ≤ st.current

/-- The fields of the header and the payload. -/
def SameHeader (st st' : ParseState) : Prop :=
  st'.packet.version = st.packet.version ∧ st'.packet.type = st.packet.type ∧
    st'.packet.code = st.packet.code ∧ st'.packet.mid = st.packet.mid ∧
    st'.packet.token = st.packet.token ∧ st'.packet.payload = st.packet.payload

/-- The parser has read an option: its fields are set, and what was parsed before is as it was. -/
structure OptionRead (bits dataLen : ℕ) (conf : CoapConf) (p : Message) (o : CoapOption)
    (rest : List UInt8) (st st' : ParseState) : Prop where
  goes : Goes (parseTurn bits conf dataLen) st st'
  holds : Holds st'.mem st'.current rest
  atEnd : st'.current + rest.length = dataLen
  number : st'.number = o.number
  strings : StringsBehind st'
  read : ReadBack p st' o
  others : ∀ o', o' ≠ o → ReadBack p st o' → ReadBack p st' o'
  untouched : ∀ s, CoapOption.string s ≠ o → st'.packet.string s = st.packet.string s
  options : st'.packet.options = insert o.number st.packet.options
  header : SameHeader st st'

theorem ItemEntered.option {o : CoapOption} (hentered : ItemEntered bits st o.number value rest) :
    CoapOption.ofNumber (optionState bits st).number = some o := by
  rw [hentered.numberRead]
  exact CoapOption.ofNumber_eq_some.mpr rfl

theorem ItemEntered.options (hentered : ItemEntered bits st number value rest) :
    (optionState bits st).packet.options = insert number st.packet.options := by
  rw [← hentered.numberRead]
  rfl

theorem optionRead_of_packet {o : CoapOption} {q : ParsedPacket} (offsets : List ℕ)
    (hitem : AtItem bits dataLen st o.number value rest) (hstrings : StringsBehind st)
    (hoption : CoapOption.ofNumber (optionState bits st).number = some o →
      slice (optionState bits st).mem (optionState bits st).current value.length = value →
      parseOption (optionState bits st) value.length =
        .goesOn (((optionState bits st).withPacket q).touch offsets))
    (hread : ReadBack p { (optionState bits st).withPacket q with
      current := (optionState bits st).current + value.length } o)
    (hothers : ∀ o', o' ≠ o → ReadBack p st o' → ReadBack p ((optionState bits st).withPacket q) o')
    (huntouched : ∀ s, CoapOption.string s ≠ o → q.string s = st.packet.string s)
    (hstring : ∀ s, CoapOption.string s = o → (q.string s).start + (q.string s).len ≤
      (optionState bits st).current + value.length)
    (hoptions : q.options = (optionState bits st).packet.options)
    (hheader : SameHeader st ((optionState bits st).withPacket q)) :
    ∃ st', OptionRead bits dataLen conf p o rest st st' := by
  obtain ⟨hentered, -⟩ := hitem.entered
  have hend := hitem.atEnd
  have hcurrent := hentered.current
  rw [length_append, length_append, length_coapSetOptionHeader] at hend
  unfold itemHeaderSize at hcurrent
  refine ⟨_, goes_single (hitem.turn (hoption hentered.option hentered.valueRead)),
    hentered.restHolds, ?_, hentered.numberRead, ?_, hread,
    hothers, huntouched, hoptions.trans hentered.options, hheader⟩
  · change (optionState bits st).current + value.length + rest.length = dataLen
    omega
  · intro s
    change (q.string s).start + (q.string s).len ≤ (optionState bits st).current + value.length
    by_cases hs : CoapOption.string s = o
    · exact hstring s hs
    · have hbehind := hstrings s
      rw [huntouched s hs]
      omega

theorem optionRead_int {o : IntOption} (hwidth : (p.int o).toNat < 2 ^ o.width)
    (hitem : AtItem bits dataLen st o.number (intBytes (p.int o)) rest)
    (hstrings : StringsBehind st) : ∃ st', OptionRead bits dataLen conf p (.int o) rest st st' := by
  refine optionRead_of_packet (o := .int o)
    (q := (optionState bits st).packet.setInt o (coapParseIntOption (intBytes (p.int o))))
    (range' (optionState bits st).current (intBytes (p.int o)).length)
    hitem hstrings ?_ ?_ ?_ (fun _ _ ↦ rfl) (fun s hs ↦ by cases hs) rfl
    ⟨rfl, rfl, rfl, rfl, rfl, rfl⟩
  · intro hoption hvalue
    rw [parseOption, hoption]
    dsimp only
    rw [hvalue]
  · change update _ o _ o = _
    rw [update_self, coapParseIntOption_intBytes, Nat.mod_eq_of_lt hwidth, UInt32.ofNat_toNat]
  · intro o' hne hread
    cases o' with
    | int i =>
      have hi : i ≠ o := fun heq ↦ hne (by rw [heq])
      exact (update_of_ne hi _ _).trans hread
    | _ => exact hread

theorem optionRead_byte {o : ByteOption}
    (hitem : AtItem bits dataLen st o.number (p.byte o).1 rest) (hstrings : StringsBehind st) :
    ∃ st', OptionRead bits dataLen conf p (.byte o) rest st st' := by
  refine optionRead_of_packet (o := .byte o)
    (q := (optionState bits st).packet.setByte o (p.byte o).1)
    ((range' (optionState bits st).current (p.byte o).1.length).take 8)
    hitem hstrings ?_ ?_ ?_ (fun _ _ ↦ rfl) (fun s hs ↦ by cases hs) rfl
    ⟨rfl, rfl, rfl, rfl, rfl, rfl⟩
  · intro hoption hvalue
    rw [parseOption, hoption]
    dsimp only
    rw [hvalue]
  · change update _ o _ o = _
    rw [update_self]
    exact Subtype.ext (take_of_length_le (p.byte o).2)
  · intro o' hne hread
    cases o' with
    | byte b =>
      have hb : b ≠ o := fun heq ↦ hne (by rw [heq])
      exact (update_of_ne hb _ _).trans hread
    | _ => exact hread

theorem optionRead_block {o : BlockOption}
    (hitem : AtItem bits dataLen st o.number (intBytes (encodeBlock (p.block o))) rest)
    (hstrings : StringsBehind st) :
    ∃ st', OptionRead bits dataLen conf p (.block o) rest st st' := by
  refine optionRead_of_packet (o := .block o)
    (q := (optionState bits st).packet.setBlock o
      (parseBlock (coapParseIntOption (intBytes (encodeBlock (p.block o))))))
    (range' (optionState bits st).current
      (intBytes (encodeBlock (p.block o))).length)
    hitem hstrings ?_ ?_ ?_ (fun _ _ ↦ rfl) (fun s hs ↦ by cases hs) rfl
    ⟨rfl, rfl, rfl, rfl, rfl, rfl⟩
  · intro hoption hvalue
    rw [parseOption, hoption]
    dsimp only
    rw [hvalue]
  · change update _ o _ o = _
    rw [update_self, coapParseIntOption_intBytes]
  · intro o' hne hread
    cases o' with
    | block b =>
      have hb : b ≠ o := fun heq ↦ hne (by rw [heq])
      exact (update_of_ne hb _ _).trans hread
    | _ => exact hread

theorem optionRead_ifNoneMatch
    (hitem : AtItem bits dataLen st CoapOption.ifNoneMatch.number [] rest)
    (hstrings : StringsBehind st) :
    ∃ st', OptionRead bits dataLen conf p .ifNoneMatch rest st st' := by
  refine optionRead_of_packet (q := { (optionState bits st).packet with ifNoneMatch := 1 })
    [] hitem hstrings ?_ trivial ?_ (fun _ _ ↦ rfl) (fun s hs ↦ by cases hs) rfl
    ⟨rfl, rfl, rfl, rfl, rfl, rfl⟩
  · intro hoption _
    rw [parseOption, hoption]
    dsimp only
    rw [ParseState.touch, append_nil]
  · intro o' _ hread
    cases o' <;> exact hread

theorem optionRead_uriHost
    (hitem : AtItem bits dataLen st StringOption.uriHost.number (p.string .uriHost).chars rest)
    (hstrings : StringsBehind st) :
    ∃ st', OptionRead bits dataLen conf p (.string .uriHost) rest st st' := by
  obtain ⟨hentered, -⟩ := hitem.entered
  refine optionRead_of_packet (o := .string .uriHost)
    (q := (optionState bits st).packet.setString .uriHost
      ⟨(optionState bits st).current, (p.string .uriHost).chars.length⟩)
    [] hitem hstrings ?_ ?_ ?_ ?_ ?_ rfl ⟨rfl, rfl, rfl, rfl, rfl, rfl⟩
  · intro hoption _
    rw [parseOption, hoption]
    dsimp only
    rw [ParseState.touch, append_nil]
  · exact hentered.valueRead
  · intro o' hne hread
    cases o' with
    | string s =>
      have hs : s ≠ .uriHost := fun heq ↦ hne (by rw [heq])
      have hsame : ((optionState bits st).packet.setString .uriHost
          ⟨(optionState bits st).current, (p.string .uriHost).chars.length⟩).string s =
          st.packet.string s := update_of_ne hs _ _
      change slice st.mem _ _ = _
      rw [ParseState.withPacket, hsame]
      exact hread
    | _ => exact hread
  · intro s hs
    exact update_of_ne (fun heq ↦ hs (by rw [heq])) _ _
  · intro s hs
    obtain rfl : s = .uriHost := CoapOption.string.inj hs
    exact le_rfl

/-! ### Glued strings -/

/-- The parser has read some segments of a string since some state, and glued them. -/
structure Glued (st₀ : ParseState) (o : StringOption) (span : Span) (glued : List UInt8)
    (st : ParseState) : Prop where
  number : st.number = o.number
  start : st₀.current ≤ span.start
  behind : span.start + span.len ≤ st.current
  chars : slice st.mem span.start span.len = glued
  mem : ∀ i < st₀.current, st.mem i = st₀.mem i
  packet : st.packet = (st₀.packet.setOption o.number).setString o span

variable {st₀ : ParseState} {o : StringOption} {span : Span} {glued : List UInt8}

theorem parseOption_glues (hsplit : o.splitter ≠ 0)
    (hoption : CoapOption.ofNumber st.number = some (.string o)) (length : ℕ) :
    parseOption st length =
      let (mem, dst, offsets) :=
        coapMergeMultiOption st.mem (st.packet.string o) st.current length o.splitter
      .goesOn (({ st with mem := mem }.withPacket (st.packet.setString o dst)).touch offsets) := by
  rw [parseOption, hoption]
  cases o with
  | uriHost => exact absurd rfl hsplit
  | proxyUri => exact absurd rfl hsplit
  | proxyScheme => exact absurd rfl hsplit
  | _ => rfl

variable (conf) in
/-- The first segment stays where it is. -/
theorem glued_first (hsplit : o.splitter ≠ 0) (hfresh : (st.packet.string o).len = 0)
    (hitem : AtItem bits dataLen st o.number value rest) :
    ∃ st' span, Goes (parseTurn bits conf dataLen) st st' ∧ Glued st o span value st' ∧
      Holds st'.mem st'.current rest ∧ st'.current + rest.length = dataLen := by
  obtain ⟨hentered, -⟩ := hitem.entered
  have hend := hitem.atEnd
  have hcurrent := hentered.current
  rw [length_append, length_append, length_coapSetOptionHeader] at hend
  unfold itemHeaderSize at hcurrent
  have hturn := parseOption_glues hsplit (ItemEntered.option (o := .string o) hentered) value.length
  have hempty : ((optionState bits st).packet.string o).len = 0 := hfresh
  rw [coapMergeMultiOption, if_neg (by omega)] at hturn
  refine ⟨_, ⟨(optionState bits st).current, value.length⟩, goes_single (hitem.turn hturn),
    ⟨hentered.numberRead, ?_, le_rfl, hentered.valueRead, fun _ _ ↦ rfl, ?_⟩,
    hentered.restHolds, ?_⟩
  · change st.current ≤ (optionState bits st).current
    omega
  · change (optionState bits st).packet.setString o _ = _
    rw [← hentered.numberRead]
    rfl
  · change (optionState bits st).current + value.length + rest.length = dataLen
    omega

variable (conf) in
/-- A further segment is moved to the end of the string, over the header of its item. -/
theorem Glued.next (hglued : Glued st₀ o span glued st) (hsplit : o.splitter ≠ 0)
    (hnonempty : glued ≠ []) (hitem : AtItem bits dataLen st o.number value rest) :
    ∃ st' span', Goes (parseTurn bits conf dataLen) st st' ∧
      Glued st₀ o span' (glued ++ o.splitter :: value) st' ∧
      Holds st'.mem st'.current rest ∧ st'.current + rest.length = dataLen := by
  obtain ⟨hentered, -⟩ := hitem.entered
  have hend := hitem.atEnd
  have hcurrent := hentered.current
  have hstart := hglued.start
  have hbehind := hglued.behind
  rw [length_append, length_append, length_coapSetOptionHeader] at hend
  unfold itemHeaderSize at hcurrent
  have hspan : (optionState bits st).packet.string o = span := by
    change st.packet.string o = span
    rw [hglued.packet]
    change update st₀.packet.string o span o = span
    rw [update_self]
  have hlen : glued.length = span.len := by rw [← hglued.chars, length_slice]
  have hpos : 0 < span.len := by
    rw [← hlen]
    exact length_pos_iff.mpr hnonempty
  have hturn := parseOption_glues hsplit (ItemEntered.option (o := .string o) hentered) value.length
  rw [coapMergeMultiOption, hspan, if_pos hpos] at hturn
  -- the value is copied from behind the separator
  have hcopied : slice (writeAt (optionState bits st).mem (span.start + span.len) [o.splitter])
      (optionState bits st).current value.length = value := by
    rw [slice_writeAt (.inr (by rw [length_singleton]; omega))]
    exact hentered.valueRead
  dsimp only at hturn
  rw [hcopied] at hturn
  have hmem : ∀ i, i < span.start + span.len ∨ (optionState bits st).current + value.length ≤ i →
      writeAt (writeAt st.mem (span.start + span.len) [o.splitter]) (span.start + span.len + 1) value i =
        st.mem i := by
    rintro i (hbefore | hafter)
    · rw [writeAt_of_lt (by omega), writeAt_of_lt hbefore]
    · rw [writeAt_of_le (by omega), writeAt_of_le (by rw [length_singleton]; omega)]
  refine ⟨_, ⟨span.start, span.len + 1 + value.length⟩, goes_single (hitem.turn hturn),
    ⟨hentered.numberRead, hstart, ?_, ?_, ?_, ?_⟩, ?_, ?_⟩
  · change span.start + (span.len + 1 + value.length) ≤ (optionState bits st).current + value.length
    omega
  · change slice (writeAt (writeAt st.mem _ _) _ value) span.start (span.len + 1 + value.length) = _
    rw [slice_add, slice_add, slice_writeAt (.inl (by omega)), slice_writeAt (.inl le_rfl),
      hglued.chars, slice_writeAt (.inl (by omega)), ← Nat.add_assoc, slice_writeAt_self,
      append_assoc]
    have hseparator := slice_writeAt_self st.mem (span.start + span.len) [o.splitter]
    rw [length_singleton] at hseparator
    rw [hseparator]
    rfl
  · intro i hi
    exact (hmem i (.inl (by omega))).trans (hglued.mem i hi)
  · change (optionState bits st).packet.setString o _ = _
    have hpacket : (optionState bits st).packet = st.packet.setOption o.number := by
      rw [← hentered.numberRead]
      rfl
    rw [hpacket, hglued.packet]
    simp only [CoapPacket.setString, CoapPacket.setOption, update_idem, Finset.insert_idem]
  · intro i hi
    have hheld := hentered.restHolds i hi
    rw [← hheld]
    exact hmem _ (.inr (Nat.le_add_right _ _))
  · change (optionState bits st).current + value.length + rest.length = dataLen
    omega

/-- The parser is at the items of an option. -/
structure AtItems (bits dataLen : ℕ) (st : ParseState) (number : ℕ) (values : List (List UInt8))
    (rest : List UInt8) : Prop where
  bits : 16 ≤ bits
  size : dataLen ≤ 2 ^ 16
  le : st.number ≤ number
  small : number ≤ 60
  holds : Holds st.mem st.current (encodeItems st.number (itemsOf number values) ++ rest)
  atEnd : st.current + (encodeItems st.number (itemsOf number values) ++ rest).length = dataLen

variable {values : List (List UInt8)} {order : List CoapOption}

theorem AtItems.first (hitems : AtItems bits dataLen st number (value :: values) rest) :
    AtItem bits dataLen st number value (encodeItems number (itemsOf number values) ++ rest) where
  bits := hitems.bits
  size := hitems.size
  le := hitems.le
  small := hitems.small
  holds := by
    have hholds := hitems.holds
    rw [itemsOf, map_cons, encodeItems, append_assoc] at hholds
    exact hholds
  atEnd := by
    have hend := hitems.atEnd
    rw [itemsOf, map_cons, encodeItems, append_assoc] at hend
    exact hend

variable (conf) in
/-- The further segments of a string are glued to the first ones. -/
theorem Glued.all (hglued : Glued st₀ o span glued st) (hsplit : o.splitter ≠ 0)
    (hnonempty : glued ≠ []) (hitems : AtItems bits dataLen st o.number values rest) :
    ∃ st' span', Goes (parseTurn bits conf dataLen) st st' ∧
      Glued st₀ o span' (glued ++ values.flatMap fun v ↦ o.splitter :: v) st' ∧
      Holds st'.mem st'.current rest ∧ st'.current + rest.length = dataLen := by
  induction values generalizing st span glued with
  | nil =>
    refine ⟨st, span, Goes.refl st, ?_, hitems.holds, hitems.atEnd⟩
    rwa [flatMap_nil, append_nil]
  | cons value values ih =>
    obtain ⟨st₁, span₁, hgoes₁, hglued₁, hholds₁, hend₁⟩ :=
      hglued.next conf hsplit hnonempty hitems.first
    have hnumber : st₁.number = o.number := hglued₁.number
    have hitems₁ : AtItems bits dataLen st₁ o.number values rest :=
      ⟨hitems.bits, hitems.size, hnumber.le, hitems.small, by rwa [hnumber], by rwa [hnumber]⟩
    obtain ⟨st₂, span₂, hgoes₂, hglued₂, hrest⟩ := ih hglued₁ (by simp) hitems₁
    refine ⟨st₂, span₂, hgoes₁.trans hgoes₂, ?_, hrest⟩
    rwa [flatMap_cons, ← append_assoc]

theorem intercalate_cons (separator : UInt8) (value : List UInt8) (values : List (List UInt8)) :
    [separator].intercalate (value :: values) = value ++ values.flatMap fun v ↦ separator :: v := by
  induction values generalizing value with
  | nil => simp [intercalate]
  | cons next values ih =>
    have hnext := ih next
    simp only [intercalate, intersperse_cons_cons, flatten_cons] at hnext ⊢
    rw [hnext]
    rfl

theorem Glued.optionRead (hgoes : Goes (parseTurn bits conf dataLen) st st')
    (hglued : Glued st o span glued st') (hchars : glued = (p.string o).chars)
    (hstrings : StringsBehind st) (hholds : Holds st'.mem st'.current rest)
    (hend : st'.current + rest.length = dataLen) :
    OptionRead bits dataLen conf p (.string o) rest st st' := by
  have hpacket := hglued.packet
  have hle : st.current ≤ st'.current :=
    hglued.start.trans ((Nat.le_add_right _ _).trans hglued.behind)
  have hstring : ∀ s, s ≠ o → st'.packet.string s = st.packet.string s := by
    intro s hs
    rw [hpacket]
    exact update_of_ne hs _ _
  have hself : st'.packet.string o = span := by
    rw [hpacket]
    change update st.packet.string o span o = span
    rw [update_self]
  refine ⟨hgoes, hholds, hend, hglued.number, ?_, ?_, ?_, ?_, ?_, ?_⟩
  · intro s
    by_cases hs : s = o
    · rw [hs, hself]
      exact hglued.behind
    · rw [hstring s hs]
      exact (hstrings s).trans hle
  · change slice st'.mem (st'.packet.string o).start (st'.packet.string o).len = _
    rw [hself, hglued.chars, hchars]
  · intro o' hne hread
    cases o' with
    | string s =>
      have hs : s ≠ o := fun heq ↦ hne (by rw [heq])
      have hbehind := hstrings s
      have hsame : slice st'.mem (st.packet.string s).start (st.packet.string s).len =
          slice st.mem (st.packet.string s).start (st.packet.string s).len :=
        slice_congr fun i _ hi ↦ hglued.mem i (by omega)
      change slice st'.mem (st'.packet.string s).start (st'.packet.string s).len = _
      rw [hstring s hs, hsame]
      exact hread
    | int i =>
      change st'.packet.int i = _
      rw [hpacket]
      exact hread
    | byte b =>
      change st'.packet.byte b = _
      rw [hpacket]
      exact hread
    | block b =>
      change st'.packet.block b = _
      rw [hpacket]
      exact hread
    | ifNoneMatch => trivial
  · exact fun s hs ↦ hstring s fun heq ↦ hs (by rw [heq])
  · rw [hpacket]
    rfl
  · rw [SameHeader, hpacket]
    exact ⟨rfl, rfl, rfl, rfl, rfl, rfl⟩

theorem optionRead_split (hsplit : o.splitter ≠ 0) (hfresh : (st.packet.string o).len = 0)
    (hsegments : (p.string o).chars = [] ∨ [] ∉ segments o (p.string o))
    (hitems : AtItems bits dataLen st o.number (segments o (p.string o)) rest)
    (hstrings : StringsBehind st) :
    ∃ st', OptionRead bits dataLen conf p (.string o) rest st st' := by
  have hjoined : [o.splitter].intercalate (segments o (p.string o)) = (p.string o).chars :=
    intercalate_splitOn _
  obtain ⟨first, others, hvalues⟩ := exists_cons_of_ne_nil
    (splitOn_ne_nil o.splitter (p.string o).chars)
  change segments o (p.string o) = first :: others at hvalues
  rw [hvalues] at hjoined hitems hsegments
  rw [intercalate_cons] at hjoined
  obtain ⟨st₁, span₁, hgoes₁, hglued₁, hholds₁, hend₁⟩ :=
    glued_first conf hsplit hfresh hitems.first
  have hnumber : st₁.number = o.number := hglued₁.number
  rcases hsegments with hempty | hfull
  · -- an empty string is one empty segment
    rw [hempty, append_eq_nil_iff] at hjoined
    obtain ⟨rfl, hothers⟩ := hjoined
    have hnil : others = [] := by
      by_contra hne
      obtain ⟨v, vs, rfl⟩ := exists_cons_of_ne_nil hne
      cases hothers
    rw [hnil] at hholds₁ hend₁
    exact ⟨st₁, hglued₁.optionRead hgoes₁ hempty.symm hstrings hholds₁ hend₁⟩
  · have hfirst : first ≠ [] := fun heq ↦ hfull (heq ▸ mem_cons_self)
    have hothers : AtItems bits dataLen st₁ o.number others rest :=
      ⟨hitems.bits, hitems.size, hnumber.le, hitems.small, by rwa [hnumber], by rwa [hnumber]⟩
    obtain ⟨st₂, span₂, hgoes₂, hglued₂, hholds₂, hend₂⟩ := hglued₁.all conf hsplit hfirst hothers
    exact ⟨st₂, hglued₂.optionRead (hgoes₁.trans hgoes₂) hjoined hstrings hholds₂ hend₂⟩

/-! ### All options -/

/-- What the setters make sure of: the integers fit their fields, and the proxy options are not
among those that are set. -/
structure Supported (p : Message) : Prop where
  int : ∀ o, (p.int o).toNat < 2 ^ o.width
  noProxy : ¬ p.IsOption StringOption.proxyUri.number ∧ ¬ p.IsOption StringOption.proxyScheme.number
  segments : SegmentsNonempty p

theorem number_le_sixty (o : CoapOption) : o.number ≤ 60 := by
  have hall : ∀ o ∈ serializeOrder, o.number ≤ 60 := by decide
  exact hall o (mem_serializeOrder o)

variable (conf) in
/-- The parser reads an option that was serialized. -/
theorem exists_optionRead (hsupported : Supported p) {o : CoapOption} (hset : p.IsOption o.number)
    (hfresh : ∀ s, CoapOption.string s = o → (st.packet.string s).len = 0)
    (hitems : AtItems bits dataLen st o.number (optionValues p o) rest)
    (hstrings : StringsBehind st) : ∃ st', OptionRead bits dataLen conf p o rest st st' := by
  cases o with
  | int i => exact optionRead_int (hsupported.int i) hitems.first hstrings
  | byte b => exact optionRead_byte hitems.first hstrings
  | block b => exact optionRead_block hitems.first hstrings
  | ifNoneMatch => exact optionRead_ifNoneMatch hitems.first hstrings
  | string s =>
    rw [optionValues] at hitems
    by_cases hsplit : s.splitter ≠ 0
    · rw [if_pos hsplit] at hitems
      exact optionRead_split hsplit (hfresh s rfl) (hsupported.segments s hsplit hset) hitems hstrings
    · rw [if_neg hsplit] at hitems
      cases s with
      | uriHost => exact optionRead_uriHost hitems.first hstrings
      | proxyUri => exact absurd hset hsupported.noProxy.1
      | proxyScheme => exact absurd hset hsupported.noProxy.2
      | _ => exact absurd (by decide) hsplit

def Grows (number : ℕ) (order : List CoapOption) : Prop :=
  (number :: order.map CoapOption.number).Pairwise (· < ·)

/-- The parser has read all options of some order that are set. -/
structure OptionsRead (bits dataLen : ℕ) (conf : CoapConf) (p : Message) (order : List CoapOption)
    (rest : List UInt8) (st st' : ParseState) : Prop where
  goes : Goes (parseTurn bits conf dataLen) st st'
  holds : Holds st'.mem st'.current rest
  atEnd : st'.current + rest.length = dataLen
  strings : StringsBehind st'
  read : ∀ o ∈ order, p.IsOption o.number → ReadBack p st' o
  kept : ∀ o, o ∉ order → ReadBack p st o → ReadBack p st' o
  options : ∀ n, n ∈ st'.packet.options ↔
    n ∈ st.packet.options ∨ ∃ o ∈ order, p.IsOption o.number ∧ o.number = n
  header : SameHeader st st'

theorem SameHeader.trans {st'' : ParseState} (hfirst : SameHeader st st')
    (hsecond : SameHeader st' st'') : SameHeader st st'' := by
  obtain ⟨hversion, htype, hcode, hmid, htoken, hpayload⟩ := hfirst
  obtain ⟨hversion', htype', hcode', hmid', htoken', hpayload'⟩ := hsecond
  exact ⟨hversion'.trans hversion, htype'.trans htype, hcode'.trans hcode, hmid'.trans hmid,
    htoken'.trans htoken, hpayload'.trans hpayload⟩

theorem OptionRead.cons {o : CoapOption} {middle : List UInt8} {st₁ : ParseState}
    (hset : p.IsOption o.number) (hnotMem : o ∉ order)
    (hread : OptionRead bits dataLen conf p o middle st st₁)
    (hothers : OptionsRead bits dataLen conf p order rest st₁ st') :
    OptionsRead bits dataLen conf p (o :: order) rest st st' where
  goes := hread.goes.trans hothers.goes
  holds := hothers.holds
  atEnd := hothers.atEnd
  strings := hothers.strings
  read o' ho' hset' := by
    rcases mem_cons.mp ho' with rfl | hlater
    · exact hothers.kept o' hnotMem hread.read
    · exact hothers.read o' hlater hset'
  kept o' ho' hread' := by
    rw [mem_cons, not_or] at ho'
    exact hothers.kept o' ho'.2 (hread.others o' ho'.1 hread')
  options n := by
    rw [hothers.options, hread.options, Finset.mem_insert]
    constructor
    · rintro ((rfl | hold) | ⟨o', ho', hset', rfl⟩)
      · exact .inr ⟨o, mem_cons_self, hset, rfl⟩
      · exact .inl hold
      · exact .inr ⟨o', mem_cons_of_mem _ ho', hset', rfl⟩
    · rintro (hold | ⟨o', ho', hset', rfl⟩)
      · exact .inl (.inr hold)
      · rcases mem_cons.mp ho' with rfl | hlater
        · exact .inl (.inl rfl)
        · exact .inr ⟨o', hlater, hset', rfl⟩
  header := hread.header.trans hothers.header

theorem OptionsRead.cons_of_not {o : CoapOption} (hset : ¬ p.IsOption o.number)
    (hothers : OptionsRead bits dataLen conf p order rest st st') :
    OptionsRead bits dataLen conf p (o :: order) rest st st' where
  goes := hothers.goes
  holds := hothers.holds
  atEnd := hothers.atEnd
  strings := hothers.strings
  read o' ho' hset' := by
    rcases mem_cons.mp ho' with rfl | hlater
    · exact absurd hset' hset
    · exact hothers.read o' hlater hset'
  kept o' ho' hread' := hothers.kept o' (fun hlater ↦ ho' (mem_cons_of_mem _ hlater)) hread'
  options n := by
    rw [hothers.options]
    constructor
    · rintro (hold | ⟨o', ho', hset', rfl⟩)
      · exact .inl hold
      · exact .inr ⟨o', mem_cons_of_mem _ ho', hset', rfl⟩
    · rintro (hold | ⟨o', ho', hset', rfl⟩)
      · exact .inl hold
      · rcases mem_cons.mp ho' with rfl | hlater
        · exact absurd hset' hset
        · exact .inr ⟨o', hlater, hset', rfl⟩
  header := hothers.header

theorem exists_optionsRead (hsupported : Supported p) (hbits : 16 ≤ bits)
    (hsize : dataLen ≤ 2 ^ 16) (hgrows : Grows st.number order)
    (hfresh : ∀ s, CoapOption.string s ∈ order → (st.packet.string s).len = 0)
    (hstrings : StringsBehind st)
    (hholds : Holds st.mem st.current (encodeItems st.number (messageItems p order) ++ rest))
    (hend : st.current + (encodeItems st.number (messageItems p order) ++ rest).length = dataLen) :
    ∃ st', OptionsRead bits dataLen conf p order rest st st' := by
  induction order generalizing st with
  | nil =>
    refine ⟨st, Goes.refl st, hholds, hend, hstrings, ?_, ?_, ?_, rfl, rfl, rfl, rfl, rfl, rfl⟩
    · intro o ho
      cases ho
    · exact fun _ _ hread ↦ hread
    · intro n
      simp
  | cons o order ih =>
    obtain ⟨hlt, hlater⟩ := pairwise_cons.mp hgrows
    have hnumber : st.number < o.number := hlt _ (by simp)
    have hnotMem : o ∉ order := by
      intro hmem
      exact lt_irrefl _ ((pairwise_cons.mp hlater).1 _ (mem_map_of_mem hmem))
    by_cases hset : p.IsOption o.number
    · rw [messageItems, flatMap_cons, if_pos hset,
        encodeItems_append (optionValues_ne_nil p o), append_assoc] at hholds hend
      obtain ⟨st₁, hread⟩ := exists_optionRead conf hsupported hset
        (fun s hs ↦ hfresh s (by rw [hs]; exact mem_cons_self))
        ⟨hbits, hsize, hnumber.le, number_le_sixty o, hholds, hend⟩ hstrings
      have hnumber₁ : st₁.number = o.number := hread.number
      have hfresh₁ : ∀ s, CoapOption.string s ∈ order → (st₁.packet.string s).len = 0 := by
        intro s hs
        rw [hread.untouched s fun heq ↦ hnotMem (heq ▸ hs)]
        exact hfresh s (mem_cons_of_mem _ hs)
      have hgrows₁ : Grows st₁.number order := by
        rw [hnumber₁]
        exact hlater
      have hholds₁ := hread.holds
      have hend₁ := hread.atEnd
      rw [← hnumber₁] at hholds₁ hend₁
      obtain ⟨st₂, hothers⟩ := ih hgrows₁ hfresh₁ hread.strings hholds₁ hend₁
      exact ⟨st₂, hread.cons hset hnotMem hothers⟩
    · rw [messageItems, flatMap_cons, if_neg hset, nil_append] at hholds hend
      have hgrows' : Grows st.number order :=
        pairwise_cons.mpr ⟨fun n hn ↦ hlt n (mem_cons_of_mem _ hn), (pairwise_cons.mp hlater).2⟩
      obtain ⟨st₂, hothers⟩ :=
        ih hgrows' (fun s hs ↦ hfresh s (mem_cons_of_mem _ hs)) hstrings hholds hend
      exact ⟨st₂, hothers.cons_of_not hset⟩

end ContikiMaster.Coap
