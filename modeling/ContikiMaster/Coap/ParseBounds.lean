import ContikiMaster.Coap.ParseTurns
import Mathlib.Data.Nat.Bitwise

/-!
# Bounds of the parser

The parser reads the header, the token and extension bytes before it looks at the length
of the datagram, and writes a zero behind the payload. A scan of the datagram tells when
this stays inside, no option number and no pointer wraps and what is accepted is well formed.
-/

namespace ContikiMaster.Coap

open Lib Cursor Function List Option

variable {bits dataLen length number nibble value current : ℕ} {conf : CoapConf}
  {mem : ℕ → UInt8} {st st' : ParseState} {r : Parsed} {bytes rest : List UInt8} {ok : Bool}

/-- A delta or a length and the bytes behind its extension bytes, unless some of these are
missing. -/
def takeExtension (nibble : ℕ) : List UInt8 → Option (ℕ × List UInt8)
  | [] => if nibble = 13 ∨ nibble = 14 then none else some (nibble, [])
  | b :: rest =>
    if nibble = 13 then some (13 + b.toNat, rest)
    else if nibble = 14 then
      match rest with
      | [] => none
      | b' :: rest => some (14 + 255 + b.toNat <<< 8 + b'.toNat, rest)
    else some (nibble, b :: rest)

/-- A sequence of options, up to the end or to the payload marker and a payload. -/
inductive WellFormedOptions : List UInt8 → Prop
  | nil : WellFormedOptions []
  | payload {rest : List UInt8} (hpayload : rest ≠ []) : WellFormedOptions (0xFF :: rest)
  | option {first : UInt8} {rest afterDelta afterLength : List UInt8} {delta length : ℕ}
      (hmarker : first &&& 0xF0 ≠ 0xF0)
      (hdelta : takeExtension (first.toNat >>> 4) rest = some (delta, afterDelta))
      (hreserved : first.toNat &&& 0x0F ≠ 15)
      (hlength : takeExtension (first.toNat &&& 0x0F) afterDelta = some (length, afterLength))
      (hvalue : length ≤ afterLength.length)
      (hrest : WellFormedOptions (afterLength.drop length)) : WellFormedOptions (first :: rest)

/-- A header of version 1, a token of the length that the header says, and options. -/
def WellFormed (bytes : List UInt8) : Prop :=
  ∃ (first code mid₁ mid₂ : UInt8) (token rest : List UInt8),
    bytes = [first, code, mid₁, mid₂] ++ token ++ rest ∧ (0xC0 &&& first) >>> 6 = 1 ∧
      token.length = (0x0F &&& first).toNat ∧ token.length ≤ 8 ∧ WellFormedOptions rest

/-- The option numbers at which the parser returns an error. -/
def refused (number : ℕ) : Bool :=
  match CoapOption.ofNumber number with
  | some (.string .proxyUri) | some (.string .proxyScheme) => true
  | some _ => false
  | none => number % 2 = 1

/-- A scan of the options, behind an option with some number: no extension byte is missing, neither
the number nor the pointer behind the option wraps around, a payload is longer than the chunk it is
cut to, and unless an option is rejected everything is well formed. -/
def cleanOptions (bits : ℕ) (conf : CoapConf) : ℕ → ℕ → Bool → List UInt8 → Bool
  | 0, _, _, _ => false
  | _ + 1, _, ok, [] => ok
  | fuel + 1, number, ok, first :: rest =>
    if first &&& 0xF0 = 0xF0 then decide (conf.maxChunkSize < rest.length) && ok && first == 0xFF
    else
      match takeExtension (first.toNat >>> 4) rest with
      | none => false
      | some (delta, rest) =>
        match takeExtension (first.toNat &&& 0x0F) rest with
        | none => false
        | some (length, rest) =>
          let number' := (number + delta % 2 ^ bits) % 2 ^ bits
          if rest.length < length % 2 ^ bits ∧ length % 2 ^ bits < rest.length + conf.behind then true
          else if number' < number then false
          else if 60 < number' ∨ refused number' then true
          else if rest.length < length % 2 ^ bits then false
          else cleanOptions bits conf fuel number'
            (ok && first.toNat &&& 0x0F != 15 && decide (length < 2 ^ bits))
            (rest.drop (length % 2 ^ bits))

/-- The whole datagram: its four header bytes are there, and either they are rejected or the token
is there, too, and the options are clean. -/
def CleanDatagram (bits : ℕ) (conf : CoapConf) (bytes : List UInt8) : Prop :=
  4 ≤ bytes.length ∧
    let first := bytes.getD 0 0
    let tokenLen := (0x0F &&& first).toNat
    ((0xC0 &&& first) >>> 6 ≠ 1 ∨ 8 < tokenLen ∨ 4 + tokenLen ≤ bytes.length ∧
      cleanOptions bits conf (bytes.length + 1) 0 true (bytes.drop (4 + tokenLen)))

def TouchesInside (dataLen : ℕ) (st : ParseState) : Prop := ∀ o ∈ st.touched, o < dataLen

def NeverDecreases (st : ParseState) : Prop := st.numbers.Pairwise (· ≤ ·)

def SpansInside (dataLen : ℕ) (p : ParsedPacket) : Prop :=
  (∀ o, (p.string o).start + (p.string o).len ≤ dataLen) ∧ p.payload.start + p.payload.len ≤ dataLen

/-- The parser returns, stays inside the datagram, and accepts well-formed datagrams only. -/
def InsideDatagram (bits : ℕ) (conf : CoapConf) (mem : ℕ → UInt8) (bytes : List UInt8) : Prop :=
  ∃ r, coapParseMessage bits conf mem bytes.length = some r ∧ TouchesInside bytes.length r.state ∧
    SpansInside bytes.length r.state.packet ∧ NeverDecreases r.state ∧
    (r.status = .noError → WellFormed bytes)

variable (bits dataLen current mem) in
/-- Where an extension byte is missing, the parser reads behind the datagram. -/
theorem extension_missing (hend : current + rest.length = dataLen)
    (hmissing : takeExtension nibble rest = none) :
    ∃ o ∈ (readExtension bits mem nibble current).2.2, dataLen ≤ o := by
  unfold readExtension
  match rest, hmissing with
  | [], hmissing =>
    have hnibble : nibble = 13 ∨ nibble = 14 := by
      by_contra hnot
      rw [takeExtension, if_neg hnot] at hmissing
      cases hmissing
    rw [length_nil] at hend
    refine ⟨current, ?_, by omega⟩
    rcases hnibble with rfl | rfl <;> simp
  | b :: rest, hmissing =>
    rw [takeExtension.eq_def] at hmissing
    dsimp only at hmissing
    split_ifs at hmissing with hshort hlong
    match rest, hmissing with
    | [], _ =>
      rw [length_singleton] at hend
      exact ⟨current + 1, by simp [hlong], by omega⟩

variable {behind afterDelta : List UInt8} {o delta fuel tokenLen : ℕ} {s : StringOption}
  {first : UInt8} {t : ParseState}

variable (bits) in
/-- Where the extension bytes are there, the parser reads them, up to the width of its integers. -/
theorem extension_taken (hholds : Holds mem current rest) (hend : current + rest.length = dataLen)
    (hbits : 4 ≤ bits) (hnibble : nibble < 16)
    (htaken : takeExtension nibble rest = some (value, behind)) :
    (readExtension bits mem nibble current).1 = value % 2 ^ bits ∧
      (readExtension bits mem nibble current).2.1 + behind.length = dataLen ∧
      Holds mem (readExtension bits mem nibble current).2.1 behind ∧
      ∀ o ∈ (readExtension bits mem nibble current).2.2, o < dataLen := by
  have hpow : 2 ^ 4 ≤ 2 ^ bits := Nat.pow_le_pow_right (by decide) hbits
  unfold readExtension
  match rest, htaken with
  | [], htaken =>
    rw [takeExtension] at htaken
    split_ifs at htaken with hext
    obtain ⟨rfl, rfl⟩ := Prod.mk.inj (some.inj htaken)
    rw [if_neg (by omega), if_neg (by omega)]
    exact ⟨(Nat.mod_eq_of_lt (by omega)).symm, hend, hholds, fun o ho ↦ by cases ho⟩
  | b :: rest, htaken =>
    obtain ⟨hfirst, hrest⟩ := holds_cons.mp hholds
    rw [length_cons] at hend
    rw [takeExtension.eq_def] at htaken
    dsimp only at htaken
    split_ifs at htaken with hshort hlong
    · obtain ⟨rfl, rfl⟩ := Prod.mk.inj (some.inj htaken)
      rw [if_pos hshort, hfirst]
      refine ⟨rfl, by dsimp only; omega, hrest, fun o ho ↦ ?_⟩
      obtain rfl := mem_singleton.mp ho
      omega
    · match rest, htaken with
      | b' :: rest, htaken =>
        obtain ⟨rfl, rfl⟩ := Prod.mk.inj (some.inj htaken)
        obtain ⟨hsecond, hrest⟩ := holds_cons.mp hrest
        rw [length_cons] at hend
        rw [if_neg hshort, if_pos hlong, hfirst, hsecond]
        refine ⟨rfl, by dsimp only; omega, hrest, fun o ho ↦ ?_⟩
        rcases mem_pair.mp ho with rfl | rfl <;> omega
    · obtain ⟨rfl, rfl⟩ := Prod.mk.inj (some.inj htaken)
      rw [if_neg hshort, if_neg hlong]
      exact ⟨(Nat.mod_eq_of_lt (by omega)).symm, by rw [length_cons]; exact hend, hholds,
        fun o ho ↦ by cases ho⟩

/-- What the `switch` over an option touches, writes and leaves, when the strings end before the
option header. -/
structure OptionInside (st : ParseState) (length : ℕ) (t : ParseState) : Prop where
  touched : ∃ offsets, t.touched = st.touched ++ offsets ∧ ∀ o ∈ offsets, o < st.current + length
  mem : ∀ i, st.current + length ≤ i → t.mem i = st.mem i
  spans : ∀ o, (t.packet.string o).start + (t.packet.string o).len ≤ st.current + length

theorem optionInside_of_packet {p : ParsedPacket} {offsets : List ℕ}
    (hspans : ∀ o, (st.packet.string o).start + (st.packet.string o).len < st.current)
    (hsame : p.string = st.packet.string) (hoffsets : ∀ o ∈ offsets, o < st.current + length) :
    OptionInside st length ((st.withPacket p).touch offsets) where
  touched := ⟨offsets, rfl, hoffsets⟩
  mem _ _ := rfl
  spans o := by
    change (p.string o).start + (p.string o).len ≤ _
    rw [hsame]
    exact ((hspans o).trans_le (Nat.le_add_right _ _)).le

theorem mem_valueOffsets (ho : o ∈ range' current length) : o < current + length :=
  (mem_range'_1.mp ho).2

theorem update_string_inside {span : Span}
    (hspans : ∀ o, (st.packet.string o).start + (st.packet.string o).len < st.current)
    (hspan : span.start + span.len ≤ st.current + length) (o : StringOption) :
    ((st.packet.setString s span).string o).start + ((st.packet.setString s span).string o).len ≤
      st.current + length := by
  change (update st.packet.string s span o).start + _ ≤ _
  by_cases ho : o = s
  · rw [ho, update_self]
    simpa [CoapPacket.setString] using hspan
  · rw [update_of_ne ho]
    simpa [CoapPacket.setString, update_of_ne ho] using
      ((hspans o).trans_le (Nat.le_add_right _ length)).le

theorem optionInside_merge
    (hspans : ∀ o, (st.packet.string o).start + (st.packet.string o).len < st.current) :
    OptionInside st length
      (let (mem, dst, offsets) :=
        coapMergeMultiOption st.mem (st.packet.string s) st.current length s.splitter
      ({ st with mem := mem }.withPacket (st.packet.setString s dst)).touch offsets) := by
  have hspan := hspans s
  unfold coapMergeMultiOption
  dsimp only
  split_ifs with hempty
  · refine ⟨⟨_, rfl, fun o ho ↦ ?_⟩, fun i hi ↦ ?_, update_string_inside hspans ?_⟩
    · rcases mem_cons.mp ho with rfl | ho
      · omega
      · rcases mem_append.mp ho with ho | ho
        · exact mem_valueOffsets ho
        · have hlt := mem_valueOffsets ho
          omega
    · refine (writeAt_of_le ?_).trans (writeAt_of_le ?_)
      · rw [length_slice]
        omega
      · rw [length_singleton]
        omega
    · dsimp only
      omega
  · exact ⟨⟨[], rfl, fun o ho ↦ by cases ho⟩, fun _ _ ↦ rfl, update_string_inside hspans le_rfl⟩

theorem parseOption_inside
    (hspans : ∀ o, (st.packet.string o).start + (st.packet.string o).len < st.current)
    (hturn : parseOption st length = .goesOn st') : OptionInside st length st' := by
  unfold parseOption at hturn
  cases hoption : CoapOption.ofNumber st.number with
  | none =>
    simp only [hoption] at hturn
    split_ifs at hturn
    obtain rfl := Turn.goesOn.inj hturn
    exact ⟨⟨[], (append_nil _).symm, fun o ho ↦ by cases ho⟩, fun _ _ ↦ rfl,
      fun o ↦ ((hspans o).trans_le (Nat.le_add_right _ _)).le⟩
  | some o =>
    cases o with
    | int i =>
      simp only [hoption] at hturn
      obtain rfl := Turn.goesOn.inj hturn
      exact optionInside_of_packet hspans rfl fun _ ↦ mem_valueOffsets
    | byte b =>
      simp only [hoption] at hturn
      obtain rfl := Turn.goesOn.inj hturn
      exact optionInside_of_packet hspans rfl fun _ ho ↦ mem_valueOffsets (mem_of_mem_take ho)
    | block b =>
      simp only [hoption] at hturn
      obtain rfl := Turn.goesOn.inj hturn
      exact optionInside_of_packet hspans rfl fun _ ↦ mem_valueOffsets
    | ifNoneMatch =>
      simp only [hoption] at hturn
      obtain rfl := Turn.goesOn.inj hturn
      exact ⟨⟨[], (append_nil _).symm, fun o ho ↦ by cases ho⟩, fun _ _ ↦ rfl,
        fun o ↦ ((hspans o).trans_le (Nat.le_add_right _ _)).le⟩
    | string s =>
      cases s with
      | proxyUri => simp only [hoption, reduceCtorEq] at hturn
      | proxyScheme => simp only [hoption, reduceCtorEq] at hturn
      | uriHost =>
        simp only [hoption] at hturn
        obtain rfl := Turn.goesOn.inj hturn
        exact ⟨⟨[], (append_nil _).symm, fun o ho ↦ by cases ho⟩, fun _ _ ↦ rfl,
          update_string_inside hspans le_rfl⟩
      | _ =>
        simp only [hoption] at hturn
        obtain rfl := Turn.goesOn.inj hturn
        exact optionInside_merge hspans

variable (length st) in
theorem parseOption_refused :
    if refused st.number = true then ∃ r, parseOption st length = .returns r
    else ∃ t, parseOption st length = .goesOn t := by
  unfold refused parseOption
  cases hoption : CoapOption.ofNumber st.number with
  | none =>
    simp only [decide_eq_true_eq]
    split_ifs <;> exact ⟨_, rfl⟩
  | some o =>
    rcases o with i | b | s | b | _ <;> try cases s
    all_goals exact ⟨_, rfl⟩

theorem wellFormedOptions_marker (hmarker : first &&& 0xF0 = 0xF0) :
    WellFormedOptions (first :: rest) ↔ first = 0xFF ∧ rest ≠ [] := by
  constructor
  · intro hformed
    cases hformed with
    | payload hpayload => exact ⟨rfl, hpayload⟩
    | option hnot => exact absurd hmarker hnot
  · rintro ⟨rfl, hpayload⟩
    exact .payload hpayload

theorem wellFormedOptions_option {afterLength : List UInt8} (hmarker : first &&& 0xF0 ≠ 0xF0)
    (hdelta : takeExtension (first.toNat >>> 4) rest = some (delta, afterDelta))
    (hlength : takeExtension (first.toNat &&& 0x0F) afterDelta = some (length, afterLength)) :
    WellFormedOptions (first :: rest) ↔ first.toNat &&& 0x0F ≠ 15 ∧ length ≤ afterLength.length ∧
      WellFormedOptions (afterLength.drop length) := by
  constructor
  · intro hformed
    cases hformed with
    | payload => exact absurd rfl hmarker
    | option _ hdelta' hreserved hlength' hvalue hrest =>
      obtain ⟨rfl, rfl⟩ := Prod.mk.inj (some.inj (hdelta'.symm.trans hdelta))
      obtain ⟨rfl, rfl⟩ := Prod.mk.inj (some.inj (hlength'.symm.trans hlength))
      exact ⟨hreserved, hvalue, hrest⟩
  · rintro ⟨hreserved, hvalue, hrest⟩
    exact .option hmarker hdelta hreserved hlength hvalue hrest

/-! ### The loop -/

/-- The state of a loop that has stayed inside so far, with the rest of the datagram. -/
structure Scanning (dataLen : ℕ) (rest : List UInt8) (st : ParseState) : Prop where
  holds : Holds st.mem st.current rest
  atEnd : st.current + rest.length = dataLen
  spans : ∀ o, (st.packet.string o).start + (st.packet.string o).len ≤ st.current
  touched : TouchesInside dataLen st
  decreases : NeverDecreases st
  listed : st.number ∈ st.numbers
  last : ∀ m ∈ st.numbers, m ≤ st.number

theorem loop_numbers (hloop : loop (parseTurn bits conf dataLen) fuel st = some (some r)) :
    st.numbers <+: r.state.numbers := by
  have hoption : ∀ s : ParseState, s.numbers <+: (optionState bits s).numbers :=
    fun s ↦ prefix_append _ _
  refine loop_invariant (P := fun s : ParseState ↦ st.numbers <+: s.numbers)
    (Q := fun out : Option Parsed ↦ ∀ r, out = some r → st.numbers <+: r.state.numbers) ?_ ?_
    (prefix_refl _) hloop r rfl
  · intro s t hs hturn
    obtain ⟨-, -, -, -, u, hgoes, rfl⟩ := parseTurn_goesOn hturn
    obtain ⟨-, -, hnumbers, -⟩ := parseOption_goesOn hgoes
    change st.numbers <+: u.numbers
    rw [hnumbers]
    exact hs.trans (hoption s)
  · rintro s _ hs hturn r rfl
    exact hs.trans (parseTurn_returns hturn).1

/-- What an option header says, read from the front of the rest. -/
structure HeaderTaken (bits dataLen : ℕ) (st : ParseState) (delta length : ℕ) (behind : List UInt8) :
    Prop where
  delta : (readHeader bits st.mem st.current).delta = delta % 2 ^ bits
  length : optionLength bits st = length % 2 ^ bits
  atEnd : (optionState bits st).current + behind.length = dataLen
  holds : Holds st.mem (optionState bits st).current behind
  offsets : ∀ o ∈ (readHeader bits st.mem st.current).offsets, o < dataLen

theorem nibble_lt (first : UInt8) : first.toNat >>> 4 < 16 ∧ first.toNat &&& 0x0F < 16 := by
  have hlt := first.toNat_lt
  constructor
  · rw [Nat.shiftRight_eq_div_pow]
    omega
  · exact Nat.lt_succ_of_le Nat.and_le_right

theorem headerTaken (hscan : Scanning dataLen (first :: rest) st) (hbits : 4 ≤ bits)
    (hdelta : takeExtension (first.toNat >>> 4) rest = some (delta, afterDelta))
    (hlength : takeExtension (first.toNat &&& 0x0F) afterDelta = some (length, behind)) :
    HeaderTaken bits dataLen st delta length behind := by
  obtain ⟨hfirst, hrest⟩ := holds_cons.mp hscan.holds
  have hend := hscan.atEnd
  rw [length_cons] at hend
  obtain ⟨hhigh, hlow⟩ := nibble_lt first
  obtain ⟨hvalue₁, hend₁, hholds₁, hoffsets₁⟩ :=
    extension_taken bits hrest (show st.current + 1 + rest.length = dataLen by omega) hbits hhigh hdelta
  obtain ⟨hvalue₂, hend₂, hholds₂, hoffsets₂⟩ :=
    extension_taken bits hholds₁ hend₁ hbits hlow hlength
  rw [← hfirst] at hvalue₁ hvalue₂ hend₂ hholds₂ hoffsets₁ hoffsets₂
  refine ⟨hvalue₁, hvalue₂, hend₂, hholds₂, fun o ho ↦ ?_⟩
  rcases mem_append.mp ho with hfront | hback
  · exact hoffsets₁ o hfront
  · exact hoffsets₂ o hback

def HeaderMissing (first : UInt8) (rest : List UInt8) : Prop :=
  takeExtension (first.toNat >>> 4) rest = none ∨
    ∃ delta afterDelta, takeExtension (first.toNat >>> 4) rest = some (delta, afterDelta) ∧
      takeExtension (first.toNat &&& 0x0F) afterDelta = none

theorem headerMissing (hscan : Scanning dataLen (first :: rest) st) (hbits : 4 ≤ bits)
    (hmissing : HeaderMissing first rest) :
    ∃ o ∈ (readHeader bits st.mem st.current).offsets, dataLen ≤ o := by
  obtain ⟨hfirst, hrest⟩ := holds_cons.mp hscan.holds
  have hend := hscan.atEnd
  rw [length_cons] at hend
  have hoffsets : (readHeader bits st.mem st.current).offsets =
      (readExtension bits st.mem (first.toNat >>> 4) (st.current + 1)).2.2 ++
        (readExtension bits st.mem (first.toNat &&& 0x0F)
          (readExtension bits st.mem (first.toNat >>> 4) (st.current + 1)).2.1).2.2 := by
    rw [← hfirst]
    rfl
  rw [hoffsets]
  rcases hmissing with hdelta | ⟨delta, afterDelta, hdelta, hlength⟩
  · obtain ⟨o, ho, hle⟩ := extension_missing bits dataLen (st.current + 1) st.mem
      (by omega) hdelta
    exact ⟨o, mem_append_left _ ho, hle⟩
  · obtain ⟨-, hend₁, -, -⟩ := extension_taken bits hrest
      (show st.current + 1 + rest.length = dataLen by omega) hbits (nibble_lt first).1 hdelta
    obtain ⟨o, ho, hle⟩ := extension_missing bits _ _ st.mem hend₁ hlength
    exact ⟨o, mem_append_right _ ho, hle⟩

theorem offsets_lt_content (ho : o ∈ (readHeader bits mem current).offsets) :
    o < (readHeader bits mem current).content := by
  have hextension : ∀ nibble current, ∀ o ∈ (readExtension bits mem nibble current).2.2,
      o < (readExtension bits mem nibble current).2.1 := by
    intro nibble current o ho
    unfold readExtension at ho ⊢
    split_ifs at ho ⊢
    · obtain rfl := mem_singleton.mp ho
      exact Nat.lt_succ_self o
    · rcases mem_pair.mp ho with rfl | rfl
      · exact Nat.lt_add_of_pos_right (by decide)
      · exact Nat.lt_succ_self _
    · cases ho
  rcases mem_append.mp ho with hfront | hback
  · exact (hextension _ _ o hfront).trans_le (readExtension_le _ _ _ _)
  · exact hextension _ _ o hback

/-- The outcome that is wanted of the rest, after everything was or was not well formed so far. -/
def GoodOutcome (dataLen : ℕ) (ok : Bool) (rest : List UInt8) (r : Parsed) : Prop :=
  TouchesInside dataLen r.state ∧ NeverDecreases r.state ∧
    (r.status = .noError → ok = true ∧ WellFormedOptions rest)

theorem neverDecreases_append (hdecreases : NeverDecreases st)
    (hlast : ∀ m ∈ st.numbers, m ≤ st.number) (hnumbers : t.numbers = st.numbers ++ [number])
    (hle : st.number ≤ number) : NeverDecreases t ∧ ∀ m ∈ t.numbers, m ≤ number := by
  rw [NeverDecreases, hnumbers]
  constructor
  · refine pairwise_append.mpr ⟨hdecreases, pairwise_singleton _ _, fun a ha b hb ↦ ?_⟩
    rw [mem_singleton.mp hb]
    exact (hlast a ha).trans hle
  · intro m hm
    rcases mem_append.mp hm with hold | hnew
    · exact (hlast m hold).trans hle
    · exact (mem_singleton.mp hnew).le

theorem not_neverDecreases (hmem : st.number ∈ st.numbers)
    (hnumbers : st.numbers ++ [number] <+: t.numbers) (hlt : number < st.number) :
    ¬ NeverDecreases t := by
  intro hdecreases
  have hsorted := hdecreases.sublist hnumbers.sublist
  have hle := (pairwise_append.mp hsorted).2.2 st.number hmem number (mem_singleton_self _)
  omega

theorem takeExtension_cases (first : UInt8) (rest : List UInt8) :
    HeaderMissing first rest ∨ ∃ delta afterDelta length behind,
      takeExtension (first.toNat >>> 4) rest = some (delta, afterDelta) ∧
        takeExtension (first.toNat &&& 0x0F) afterDelta = some (length, behind) := by
  cases hdelta : takeExtension (first.toNat >>> 4) rest with
  | none => exact Or.inl (Or.inl hdelta)
  | some taken =>
    obtain ⟨delta, afterDelta⟩ := taken
    cases hlength : takeExtension (first.toNat &&& 0x0F) afterDelta with
    | none => exact Or.inl (Or.inr ⟨delta, afterDelta, hdelta, hlength⟩)
    | some taken => exact Or.inr ⟨delta, afterDelta, taken.1, taken.2, rfl, hlength⟩

theorem cleanOptions_missing (hmarker : first &&& 0xF0 ≠ 0xF0)
    (hmissing : HeaderMissing first rest) :
    cleanOptions bits conf (fuel + 1) number ok (first :: rest) = false := by
  rw [cleanOptions, if_neg hmarker]
  rcases hmissing with hdelta | ⟨delta, afterDelta, hdelta, hlength⟩
  · rw [hdelta]
  · simp only [hdelta, hlength]

theorem cleanOptions_taken (hmarker : first &&& 0xF0 ≠ 0xF0)
    (hdelta : takeExtension (first.toNat >>> 4) rest = some (delta, afterDelta))
    (hlength : takeExtension (first.toNat &&& 0x0F) afterDelta = some (length, behind)) :
    cleanOptions bits conf (fuel + 1) number ok (first :: rest) =
      if behind.length < length % 2 ^ bits ∧ length % 2 ^ bits < behind.length + conf.behind then true
      else if (number + delta % 2 ^ bits) % 2 ^ bits < number then false
      else if 60 < (number + delta % 2 ^ bits) % 2 ^ bits ∨
          refused ((number + delta % 2 ^ bits) % 2 ^ bits) then true
      else if behind.length < length % 2 ^ bits then false
      else cleanOptions bits conf fuel ((number + delta % 2 ^ bits) % 2 ^ bits)
        (ok && first.toNat &&& 0x0F != 15 && decide (length < 2 ^ bits))
        (behind.drop (length % 2 ^ bits)) := by
  rw [cleanOptions, if_neg hmarker]
  simp only [hdelta, hlength]

theorem wellFormed_behind (hbits : bits = 16 ∨ bits = 32) (hbehind : behind.length < 2 ^ 16)
    (hmarker : first &&& 0xF0 ≠ 0xF0)
    (hdelta : takeExtension (first.toNat >>> 4) rest = some (delta, afterDelta))
    (hlength : takeExtension (first.toNat &&& 0x0F) afterDelta = some (length, behind))
    (hfits : length % 2 ^ bits ≤ behind.length) : (ok = true ∧ WellFormedOptions (first :: rest)) ↔
      ((ok && first.toNat &&& 0x0F != 15 && decide (length < 2 ^ bits)) = true ∧
        WellFormedOptions (behind.drop (length % 2 ^ bits))) := by
  have hpow : 2 ^ 16 ≤ 2 ^ bits := by
    rcases hbits with rfl | rfl <;> decide
  rw [wellFormedOptions_option hmarker hdelta hlength]
  simp only [Bool.and_eq_true, bne_iff_ne, decide_eq_true_eq, and_assoc]
  refine and_congr_right fun _ ↦ and_congr_right fun _ ↦ ?_
  constructor
  · rintro ⟨hle, hrest⟩
    have hlt : length < 2 ^ bits := by omega
    rw [Nat.mod_eq_of_lt hlt]
    exact ⟨hlt, hrest⟩
  · rintro ⟨hlt, hrest⟩
    rw [Nat.mod_eq_of_lt hlt] at hfits hrest
    exact ⟨hfits, hrest⟩

theorem scanning_behind (hscan : Scanning dataLen (first :: rest) st)
    (htaken : HeaderTaken bits dataLen st delta length behind) (hcurrent : st.current < dataLen)
    (hfits : (optionState bits st).current + optionLength bits st ≤ dataLen)
    (hle : st.number ≤ (optionState bits st).number)
    (hgoes : parseOption (optionState bits st) (optionLength bits st) = .goesOn t) :
    Scanning dataLen (behind.drop (length % 2 ^ bits))
      { t with current := t.current + optionLength bits st } := by
  have hbefore : st.current < (optionState bits st).current := lt_optionState_current bits st
  have hspans : ∀ o, ((optionState bits st).packet.string o).start +
      ((optionState bits st).packet.string o).len < (optionState bits st).current :=
    fun o ↦ (hscan.spans o).trans_lt hbefore
  obtain ⟨⟨offsets, htouched, hoffsets⟩, hmem, hstrings⟩ := parseOption_inside hspans hgoes
  obtain ⟨hsame, hnumber, hnumbers, -⟩ := parseOption_goesOn hgoes
  have hend := htaken.atEnd
  have hlength := htaken.length
  obtain ⟨hdecreases, hlast⟩ := neverDecreases_append hscan.decreases hscan.last hnumbers hle
  refine ⟨?_, ?_, fun o ↦ ?_, fun o ho ↦ ?_, hdecreases, ?_, ?_⟩
  · intro i hi
    rw [length_drop] at hi
    have hheld := htaken.holds (length % 2 ^ bits + i) (by omega)
    change t.mem (t.current + optionLength bits st + i) = _
    rw [hsame, hmem _ (by omega), hlength, Nat.add_assoc, getElem_drop]
    exact hheld
  · change t.current + optionLength bits st + _ = dataLen
    rw [hsame, length_drop]
    omega
  · change (t.packet.string o).start + (t.packet.string o).len ≤ t.current + optionLength bits st
    rw [hsame]
    exact hstrings o
  · change o ∈ t.touched at ho
    rw [htouched] at ho
    rcases mem_append.mp ho with hold | hnew
    · rcases mem_append.mp hold with hold | hheader
      · rcases mem_append.mp hold with hold | hfirst
        · exact hscan.touched o hold
        · exact mem_singleton.mp hfirst ▸ hcurrent
      · exact htaken.offsets o hheader
    · exact (hoffsets o hnew).trans_le hfits
  · change t.number ∈ t.numbers
    rw [hnumber, hnumbers]
    exact mem_append_right _ (mem_singleton_self _)
  · change ∀ m ∈ t.numbers, m ≤ t.number
    rw [hnumber]
    exact hlast

theorem touchesInside_header (hscan : Scanning dataLen (first :: rest) st)
    (hcurrent : st.current < dataLen) (htaken : HeaderTaken bits dataLen st delta length behind)
    (ht : t.touched = st.touched ++ [st.current] ++ (readHeader bits st.mem st.current).offsets) :
    TouchesInside dataLen t := by
  intro o ho
  rw [ht] at ho
  rcases mem_append.mp ho with hold | hheader
  · rcases mem_append.mp hold with hold | hfirst
    · exact hscan.touched o hold
    · exact mem_singleton.mp hfirst ▸ hcurrent
  · exact htaken.offsets o hheader

variable (conf) in
theorem passes_iff (hcurrent : (optionState bits st).current ≤ dataLen)
    (hlength : optionLength bits st < 2 ^ bits) : Passes bits conf dataLen st ↔
      (optionState bits st).current + optionLength bits st ≤ dataLen ∨
        dataLen + conf.behind ≤ (optionState bits st).current + optionLength bits st := by
  have hpos := conf.behind_pos
  unfold Passes wrapPointer
  split_ifs with hlimit
  · exact (or_iff_left (not_le.mpr hlimit)).symm
  · exact iff_of_true (by omega) (.inr (not_lt.mp hlimit))

variable {out : Option Parsed}

theorem loop_marker (hscan : Scanning dataLen (first :: rest) st) (hmarker : first &&& 0xF0 = 0xF0)
    (hloop : loop (parseTurn bits conf dataLen) (fuel + 1) st = some out) :
    (∃ r, out = some r ∧ GoodOutcome dataLen ok (first :: rest) r) ↔
      cleanOptions bits conf (fuel + 1) st.number ok (first :: rest) = true := by
  have hend := hscan.atEnd
  rw [length_cons] at hend
  have hcurrent : st.current < dataLen := by omega
  obtain ⟨hfirst, -⟩ := holds_cons.mp hscan.holds
  rw [loop, parseTurn, if_pos hcurrent] at hloop
  dsimp only at hloop
  rw [if_pos (show (st.touch [st.current]).mem (st.touch [st.current]).current &&& 0xF0 = 0xF0
    from hfirst ▸ hmarker)] at hloop
  obtain rfl := some.inj hloop
  simp only [some.injEq, exists_eq_left']
  rw [cleanOptions, if_pos hmarker, Bool.and_eq_true, Bool.and_eq_true, decide_eq_true_eq,
    beq_iff_eq, GoodOutcome, wellFormedOptions_marker hmarker]
  have hlen : min conf.maxChunkSize (dataLen - (st.current + 1)) =
      min conf.maxChunkSize rest.length := by congr 1; omega
  constructor
  · rintro ⟨hinside, -, hformed⟩
    obtain ⟨hok, hff, -⟩ := hformed rfl
    have hzero := hinside (st.current + 1 + min conf.maxChunkSize (dataLen - (st.current + 1)))
      (mem_append_right _ (mem_singleton_self _))
    exact ⟨⟨by omega, hok⟩, hff⟩
  · rintro ⟨⟨hchunk, hok⟩, hff⟩
    refine ⟨fun o ho ↦ ?_, hscan.decreases, fun _ ↦ ⟨hok, hff, ?_⟩⟩
    · rcases mem_append.mp ho with hold | hzero
      · rcases mem_append.mp hold with hold | hmark
        · exact hscan.touched o hold
        · exact mem_singleton.mp hmark ▸ hcurrent
      · rw [mem_singleton.mp hzero]
        change st.current + 1 + min conf.maxChunkSize (dataLen - (st.current + 1)) < dataLen
        omega
    · rintro rfl
      exact absurd hchunk (Nat.not_lt_zero _)

section

variable (hcurrent : st.current < dataLen) (hmarker : st.mem st.current &&& 0xF0 ≠ 0xF0)
  (hloop : loop (parseTurn bits conf dataLen) (fuel + 1) st = some out)

include hcurrent hmarker hloop

theorem not_goodOutcome_missing (hscan : Scanning dataLen (first :: rest) st) (hbits : 4 ≤ bits)
    (hmissing : HeaderMissing first rest) :
    ¬ ∃ r, out = some r ∧ GoodOutcome dataLen ok (first :: rest) r := by
  have hcases := parseTurn_cases bits conf dataLen st
  rw [loop] at hloop
  generalize parseTurn bits conf dataLen st = turn at hloop hcases
  rintro ⟨r, rfl, hgood⟩
  obtain ⟨o, ho, hle⟩ := headerMissing hscan hbits hmissing
  have hlt : o < (optionState bits st).current := offsets_lt_content ho
  have hbehind : ∀ t : ParseState, t.touched = st.touched ++ [st.current] ++
      (readHeader bits st.mem st.current).offsets → ¬ TouchesInside dataLen t :=
    fun t ht hinside ↦ absurd (hinside o (ht ▸ mem_append_right _ ho)) (not_lt.mpr hle)
  cases hcases with
  | done hend => exact absurd hcurrent (not_lt.mpr hend)
  | payload _ hmark => exact hmarker hmark
  | tooLong =>
    cases hloop
    exact hbehind _ rfl hgood.1
  | tooLarge =>
    cases hloop
    exact hbehind _ rfl hgood.1
  | option _ _ hpasses =>
    cases hgoes : parseOption (optionState bits st) (optionLength bits st) with
    | returns r' =>
      rw [hgoes] at hloop
      cases hloop
      exact hbehind _ (congrArg ParseState.touched (parseOption_returns hgoes).2) hgood.1
    | goesOn t =>
      have hsame := (parseOption_goesOn hgoes).1
      rw [hgoes, advance, hsame] at hloop
      split_ifs at hloop with hwraps
      · cases hloop
      · have hfits := hpasses.le hwraps
        omega

/-- An option number that wraps around is on record in the end. -/
theorem not_goodOutcome_wrapped (hscan : Scanning dataLen rest st)
    (hpasses : Passes bits conf dataLen st)
    (hless : (optionState bits st).number < st.number) :
    ¬ ∃ r, out = some r ∧ GoodOutcome dataLen ok rest r := by
  have hcases := parseTurn_cases bits conf dataLen st
  rw [loop] at hloop
  generalize parseTurn bits conf dataLen st = turn at hloop hcases
  rintro ⟨r, rfl, hgood⟩
  refine not_neverDecreases hscan.listed ?_ hless hgood.2.1
  cases hcases with
  | done hend => exact absurd hcurrent (not_lt.mpr hend)
  | payload _ hmark => exact absurd hmark hmarker
  | tooLong _ _ hlong => exact absurd hpasses hlong
  | tooLarge =>
    cases hloop
    exact prefix_refl _
  | option =>
    cases hgoes : parseOption (optionState bits st) (optionLength bits st) with
    | returns r' =>
      rw [hgoes] at hloop
      cases hloop
      rw [(parseOption_returns hgoes).2]
      exact prefix_refl _
    | goesOn t =>
      rw [hgoes, advance] at hloop
      split_ifs at hloop with hwraps
      · cases hloop
      have hrecord := loop_numbers hloop
      change t.numbers <+: _ at hrecord
      rwa [(parseOption_goesOn hgoes).2.2.1] at hrecord

end

variable (ok) in
/-- The loop stays inside exactly as far as the scan says. -/
theorem loop_goodOutcome_iff (hbits : bits = 16 ∨ bits = 32) (hsize : dataLen < 2 ^ 16)
    (hscan : Scanning dataLen rest st)
    (hloop : loop (parseTurn bits conf dataLen) fuel st = some out) :
    (∃ r, out = some r ∧ GoodOutcome dataLen ok rest r) ↔
      cleanOptions bits conf fuel st.number ok rest = true := by
  have hfour : 4 ≤ bits := by omega
  induction fuel generalizing st rest ok with
  | zero => cases hloop
  | succ fuel ih =>
    have hend := hscan.atEnd
    by_cases hdone : dataLen ≤ st.current
    · -- the end of the datagram
      obtain rfl : rest = [] := eq_nil_of_length_eq_zero (by omega)
      rw [loop, parseTurn, if_neg (not_lt.mpr hdone)] at hloop
      obtain rfl := some.inj hloop
      rw [cleanOptions]
      simp only [some.injEq, exists_eq_left']
      exact ⟨fun hgood ↦ (hgood.2.2 rfl).1,
        fun hok ↦ ⟨hscan.touched, hscan.decreases, fun _ ↦ ⟨hok, .nil⟩⟩⟩
    have hcurrent := not_le.mp hdone
    obtain ⟨first, rest, rfl⟩ : ∃ first rest', rest = first :: rest' :=
      exists_cons_of_length_pos (by omega)
    obtain ⟨hfirst, -⟩ := holds_cons.mp hscan.holds
    rw [length_cons] at hend
    by_cases hmarker : first &&& 0xF0 = 0xF0
    · exact loop_marker hscan hmarker hloop
    have hmarker' : st.mem st.current &&& 0xF0 ≠ 0xF0 := hfirst ▸ hmarker
    rcases takeExtension_cases first rest with hmissing | ⟨delta, afterDelta, length, behind, hd, hl⟩
    · rw [cleanOptions_missing hmarker hmissing]
      exact iff_of_false (not_goodOutcome_missing hcurrent hmarker' hloop hscan hfour hmissing)
        Bool.false_ne_true
    have htaken := headerTaken hscan hfour hd hl
    have hlength := htaken.length
    have hbehind := htaken.atEnd
    have hnumber : (optionState bits st).number = (st.number + delta % 2 ^ bits) % 2 ^ bits := by
      rw [← htaken.delta]
      rfl
    have hpasses := passes_iff conf (hbehind ▸ Nat.le_add_right _ _)
      (hlength.trans_lt (Nat.mod_lt length (Nat.two_pow_pos bits)))
    rw [cleanOptions_taken hmarker hd hl, ← hnumber]
    by_cases hwrapped : Passes bits conf dataLen st ∧ (optionState bits st).number < st.number
    · obtain ⟨hfits, hless⟩ := hwrapped
      rw [if_neg (by rw [hpasses] at hfits; omega), if_pos hless]
      exact iff_of_false (not_goodOutcome_wrapped hcurrent hmarker' hloop hscan hfits hless)
        Bool.false_ne_true
    have hle (hfits : Passes bits conf dataLen st) : st.number ≤ (optionState bits st).number :=
      not_lt.mp fun hless ↦ hwrapped ⟨hfits, hless⟩
    have hcases := parseTurn_cases bits conf dataLen st
    rw [loop] at hloop
    generalize parseTurn bits conf dataLen st = turn at hloop hcases
    cases hcases with
    | done hend => exact absurd hend hdone
    | payload _ hmark => exact absurd hmark hmarker'
    | tooLong _ _ hlong =>
      cases hloop
      rw [hpasses, not_or, not_le, not_le] at hlong
      rw [if_pos (by omega)]
      exact iff_of_true ⟨_, rfl, touchesInside_header hscan hcurrent htaken rfl, hscan.decreases,
        fun hstatus ↦ by cases hstatus⟩ rfl
    | tooLarge _ _ hfits hlarge =>
      cases hloop
      have hle := hle hfits
      rw [if_neg (by rw [hpasses] at hfits; omega), if_neg (not_lt.mpr hle),
        if_pos (Or.inl hlarge)]
      exact iff_of_true ⟨_, rfl, touchesInside_header hscan hcurrent htaken rfl,
        (neverDecreases_append hscan.decreases hscan.last rfl hle).1,
        fun hstatus ↦ by cases hstatus⟩ rfl
    | option _ _ hfits hsmall =>
      have hle := hle hfits
      rw [hpasses] at hfits
      rw [if_neg (by omega), if_neg (not_lt.mpr hle)]
      have hparse := parseOption_refused (optionLength bits st) (optionState bits st)
      by_cases hrefused : refused (optionState bits st).number = true
      · rw [if_pos (Or.inr hrefused)]
        obtain ⟨r', hgoes⟩ := (if_pos hrefused).mp hparse
        rw [hgoes] at hloop
        cases hloop
        obtain ⟨hstatus, hstate⟩ := parseOption_returns hgoes
        refine iff_of_true ⟨_, rfl, ?_, ?_, fun hok ↦ absurd hok hstatus⟩ rfl
        · rw [hstate]
          exact touchesInside_header hscan hcurrent htaken rfl
        · rw [hstate]
          exact (neverDecreases_append hscan.decreases hscan.last rfl hle).1
      · rw [if_neg (by rw [not_or]; exact ⟨not_lt.mpr hsmall, hrefused⟩)]
        obtain ⟨t, hgoes⟩ := (if_neg hrefused).mp hparse
        have hsame := (parseOption_goesOn hgoes).1
        rw [hgoes, advance, hsame] at hloop
        by_cases hwraps : dataLen + conf.behind ≤
            (optionState bits st).current + optionLength bits st
        · -- the pointer wraps around
          have hpos := conf.behind_pos
          rw [if_pos hwraps] at hloop
          cases hloop
          rw [if_pos (by omega)]
          exact iff_of_false (by simp) Bool.false_ne_true
        have hinside := hfits.resolve_right hwraps
        rw [if_neg hwraps, ← hsame] at hloop
        rw [if_neg (by omega)]
        have hnext := ih (ok && first.toNat &&& 0x0F != 15 && decide (length < 2 ^ bits))
          (scanning_behind hscan htaken hcurrent hinside hle hgoes) hloop
        have hsame : t.number = (optionState bits st).number := (parseOption_goesOn hgoes).2.1
        change _ ↔ cleanOptions _ _ _ t.number _ _ = true at hnext
        rw [← hsame, ← hnext]
        refine exists_congr fun r ↦ and_congr_right fun _ ↦ ?_
        rw [GoodOutcome, GoodOutcome, wellFormed_behind hbits (by omega) hmarker hd hl (by omega)]

/-! ### The datagram -/

theorem loop_spansInside (hspans : ∀ o, (st.packet.string o).start + (st.packet.string o).len = 0)
    (hpayload : st.packet.payload = ⟨0, 0⟩)
    (hloop : loop (parseTurn bits conf dataLen) fuel st = some (some r)) :
    SpansInside dataLen r.state.packet := by
  refine loop_invariant
    (P := fun s : ParseState ↦ (∀ o, (s.packet.string o).start + (s.packet.string o).len ≤ s.current ∧
      (s.packet.string o).start + (s.packet.string o).len ≤ dataLen) ∧ s.packet.payload = ⟨0, 0⟩)
    (Q := fun out : Option Parsed ↦ ∀ r, out = some r → SpansInside dataLen r.state.packet) ?_ ?_
    ⟨fun o ↦ by rw [hspans o]; exact ⟨Nat.zero_le _, Nat.zero_le _⟩, hpayload⟩ hloop r rfl
  · rintro s t ⟨hs, hzero⟩ hturn
    obtain ⟨hcurrent, -, hfits, -, u, hgoes, rfl⟩ := parseTurn_goesOn hturn
    obtain ⟨hsame, -, -, hpay⟩ := parseOption_goesOn hgoes
    have hlt : ∀ o, ((optionState bits s).packet.string o).start +
        ((optionState bits s).packet.string o).len < (optionState bits s).current :=
      fun o ↦ (hs o).1.trans_lt (lt_optionState_current bits s)
    have hinside := parseOption_inside hlt hgoes
    refine ⟨fun o ↦ ?_, hpay.trans hzero⟩
    have hstring := hinside.spans o
    change (u.packet.string o).start + (u.packet.string o).len ≤ u.current + _ ∧
      (u.packet.string o).start + (u.packet.string o).len ≤ dataLen
    rw [hsame]
    exact ⟨hstring, hstring.trans hfits⟩
  · rintro s _ ⟨hs, hzero⟩ hturn r rfl
    have hkept : SpansInside dataLen s.packet :=
      ⟨fun o ↦ (hs o).2, by rw [hzero]; exact Nat.zero_le _⟩
    obtain ⟨-, hstring, hpayload | ⟨hcurrent, rfl⟩⟩ := parseTurn_returns hturn
    · rw [SpansInside, hstring, hpayload]
      exact hkept
    · refine ⟨hkept.1, ?_⟩
      change s.current + 1 + min conf.maxChunkSize (dataLen - (s.current + 1)) ≤ dataLen
      omega

theorem wellFormed_iff (hfirst : bytes.head? = some first) (hversion : (0xC0 &&& first) >>> 6 = 1)
    (hshort : (0x0F &&& first).toNat ≤ 8) (hlength : 4 + (0x0F &&& first).toNat ≤ bytes.length) :
    WellFormed bytes ↔ WellFormedOptions (bytes.drop (4 + (0x0F &&& first).toNat)) := by
  constructor
  · rintro ⟨first', code, mid₁, mid₂, token, rest, rfl, -, htoken, -, hrest⟩
    obtain rfl := some.inj hfirst
    have hdrop : ([first', code, mid₁, mid₂] ++ token ++ rest).drop
        (4 + (0x0F &&& first').toNat) = rest := by
      apply drop_left'
      rw [length_append, htoken]
      rfl
    rwa [hdrop]
  · intro hrest
    match bytes, hfirst, hlength, hrest with
    | [_], _, hlength, _ => simp at hlength; omega
    | [_, _], _, hlength, _ => simp at hlength; omega
    | [_, _, _], _, hlength, _ => simp at hlength; omega
    | first' :: code :: mid₁ :: mid₂ :: others, hfirst, hlength, hrest =>
      obtain rfl := some.inj hfirst
      simp only [length_cons] at hlength
      refine ⟨first', code, mid₁, mid₂, others.take (0x0F &&& first').toNat,
        others.drop (0x0F &&& first').toNat, ?_, hversion, ?_, ?_, ?_⟩
      · rw [append_assoc, take_append_drop]
        rfl
      · rw [length_take]
        omega
      · rw [length_take]
        omega
      · rwa [Nat.add_comm] at hrest

theorem touches_behind (hshort : dataLen < 4 + tokenLen)
    (hloop : loop (parseTurn bits conf dataLen) (dataLen + 1) (parseStart mem tokenLen) =
      some (some r)) : ¬ TouchesInside dataLen r.state := by
  rw [loop, parseTurn, if_neg (not_lt.mpr (show dataLen ≤ (parseStart mem tokenLen).current from
    hshort.le))] at hloop
  cases hloop
  intro hinside
  rcases Nat.eq_zero_or_pos tokenLen with hzero | hpos
  · have hthree := hinside 3 (mem_append_left _ (by decide))
    omega
  · have hlast := hinside (3 + tokenLen)
      (mem_append_right _ (mem_range'_1.mpr ⟨by unfold coapHeaderLen; omega,
        by unfold coapHeaderLen; omega⟩))
    omega

variable (bits dataLen conf) in
/-- What the parser does with a header that it rejects. -/
theorem coapParseMessage_of_rejected
    (hrejected : (0xC0 &&& mem 0) >>> 6 ≠ 1 ∨ 8 < (0x0F &&& mem 0).toNat) :
    ∃ r, coapParseMessage bits conf mem dataLen = some r ∧ r.status ≠ .noError ∧
      r.state.touched = [0, 1, 2, 3] ∧ r.state.numbers = [0] ∧
      r.state.packet = parseHeader mem := by
  unfold coapParseMessage
  dsimp only
  by_cases hversion : (parseHeader mem).version ≠ 1
  · rw [if_pos hversion]
    exact ⟨_, rfl, ParseStatus.noConfusion, rfl, rfl, rfl⟩
  · have hlong : 8 < ((0x0F &&& mem 0) >>> 0).toNat := by
      rcases hrejected with hwrong | hlong
      · exact absurd hwrong hversion
      · rwa [UInt8.shiftRight_zero]
    rw [if_neg hversion, if_pos hlong]
    exact ⟨_, rfl, ParseStatus.noConfusion, rfl, rfl, rfl⟩

theorem coapParseMessage_of_accepted (hversion : (0xC0 &&& mem 0) >>> 6 = 1)
    (hshort : (0x0F &&& mem 0).toNat ≤ 8) : coapParseMessage bits conf mem dataLen =
      (loop (parseTurn bits conf dataLen) (dataLen + 1)
        (parseStart mem (0x0F &&& mem 0).toNat)).join := by
  unfold coapParseMessage
  dsimp only
  rw [UInt8.shiftRight_zero, if_neg (not_not.mpr (show (parseHeader mem).version = 1 from hversion)),
    if_neg (not_lt.mpr hshort)]

theorem lt_four (ho : o ∈ [0, 1, 2, 3]) : o < 4 := by
  simp only [mem_cons, not_mem_nil, or_false] at ho
  omega

theorem scanning_parseStart (hholds : Holds mem 0 bytes) (hlength : 4 + tokenLen ≤ bytes.length) :
    Scanning bytes.length (bytes.drop (4 + tokenLen)) (parseStart mem tokenLen) where
  holds i hi := by
    rw [length_drop] at hi
    have hheld := hholds (4 + tokenLen + i) (by omega)
    rw [getElem_drop, ← hheld, Nat.zero_add]
    rfl
  atEnd := by
    rw [length_drop]
    change 4 + tokenLen + (bytes.length - (4 + tokenLen)) = bytes.length
    omega
  spans _ := Nat.zero_le _
  touched o ho := by
    rcases mem_append.mp ho with hheader | htoken
    · have hlt := lt_four hheader
      omega
    · have hlt := mem_valueOffsets htoken
      unfold coapHeaderLen at hlt
      omega
  decreases := pairwise_singleton _ _
  listed := mem_singleton_self _
  last m hm := (mem_singleton.mp hm).le

/-- The parser stays inside the datagram, and accepts well-formed datagrams only, exactly as far as
the scan of it says so. -/
theorem insideDatagram_iff (hbits : bits = 16 ∨ bits = 32) (hsize : bytes.length < 2 ^ 16)
    (hholds : Holds mem 0 bytes) :
    InsideDatagram bits conf mem bytes ↔ CleanDatagram bits conf bytes := by
  by_cases hfour : 4 ≤ bytes.length
  swap
  · -- the four bytes of the header are read all the same
    refine iff_of_false ?_ fun hclean ↦ hfour hclean.1
    rintro ⟨r, hparse, hinside, -⟩
    by_cases hrejected : (0xC0 &&& mem 0) >>> 6 ≠ 1 ∨ 8 < (0x0F &&& mem 0).toNat
    · obtain ⟨r', hparse', -, htouched, -⟩ :=
        coapParseMessage_of_rejected bits bytes.length conf hrejected
      obtain rfl := some.inj (hparse'.symm.trans hparse)
      exact hfour (hinside 3 (htouched ▸ by decide))
    · rw [not_or, not_not, not_lt] at hrejected
      rw [coapParseMessage_of_accepted hrejected.1 hrejected.2] at hparse
      exact touches_behind (by omega) (join_eq_some_iff.mp hparse) hinside
  have hfirst : mem 0 = bytes.getD 0 0 := by
    rw [getD_eq_getElem _ _ (by omega)]
    exact hholds 0 (by omega)
  have hhead : bytes.head? = some (mem 0) := by
    rw [hfirst, head?_eq_getElem?, getD_eq_getElem?_getD,
      getElem?_eq_getElem (by omega)]
    rfl
  rw [CleanDatagram, ← hfirst]
  dsimp only
  by_cases hrejected : (0xC0 &&& mem 0) >>> 6 ≠ 1 ∨ 8 < (0x0F &&& mem 0).toNat
  · obtain ⟨r, hparse, hstatus, htouched, hnumbers, hpacket⟩ :=
      coapParseMessage_of_rejected bits bytes.length conf hrejected
    refine iff_of_true ⟨r, hparse, ?_, ?_, ?_, fun hok ↦ absurd hok hstatus⟩
      ⟨hfour, hrejected.imp_right .inl⟩
    · intro o ho
      rw [htouched] at ho
      have hlt := lt_four ho
      omega
    · rw [hpacket]
      exact ⟨fun _ ↦ Nat.zero_le _, Nat.zero_le _⟩
    · rw [NeverDecreases, hnumbers]
      exact pairwise_singleton _ _
  rw [not_or, not_not, not_lt] at hrejected
  obtain ⟨hversion, hshort⟩ := hrejected
  rw [InsideDatagram, coapParseMessage_of_accepted hversion hshort]
  by_cases hlength : 4 + (0x0F &&& mem 0).toNat ≤ bytes.length
  swap
  · -- the token is read all the same
    refine iff_of_false ?_ fun hclean ↦ ?_
    · rintro ⟨r, hparse, hinside, -⟩
      exact touches_behind (by omega) (join_eq_some_iff.mp hparse) hinside
    · rcases hclean.2 with hwrong | hlong | ⟨hle, -⟩
      · exact hwrong hversion
      · omega
      · exact hlength hle
  have hscan := scanning_parseStart hholds hlength
  have hreturns : (loop (parseTurn bits conf bytes.length) (bytes.length + 1)
      (parseStart mem (0x0F &&& mem 0).toNat)).isSome :=
    loop_isSome (parseTurn_lowers bits conf bytes.length)
      (Nat.lt_succ_of_le (Nat.sub_le bytes.length (parseStart mem (0x0F &&& mem 0).toNat).current))
  obtain ⟨out, hloop⟩ := isSome_iff_exists.mp hreturns
  have hgood := loop_goodOutcome_iff true hbits hsize hscan hloop
  simp only [GoodOutcome, true_and, ← wellFormed_iff hhead hversion hshort hlength] at hgood
  rw [show (parseStart mem (0x0F &&& mem 0).toNat).number = 0 from rfl] at hgood
  rw [hloop]
  constructor
  · rintro ⟨r, hparse, hinside, -, hdecreases, hformed⟩
    exact ⟨hfour, .inr (.inr ⟨hlength, hgood.mp ⟨r, hparse, hinside, hdecreases, hformed⟩⟩)⟩
  · rintro ⟨-, hclean⟩
    have hoptions : cleanOptions bits conf (bytes.length + 1) 0 true
        (bytes.drop (4 + (0x0F &&& mem 0).toNat)) = true := by
      rcases hclean with hwrong | hlong | ⟨-, hoptions⟩
      · exact absurd hversion hwrong
      · omega
      · exact hoptions
    obtain ⟨r, rfl, hinside, hdecreases, hformed⟩ := hgood.mpr hoptions
    exact ⟨r, rfl, hinside, loop_spansInside (fun _ ↦ rfl) rfl hloop, hdecreases, hformed⟩

def pathRequest : List UInt8 := [0x40, 0x01, 0x00, 0x07, 0xB2, 0x61, 0x62, 0x01, 0x63]

theorem insideDatagram_pathRequest :
    InsideDatagram 32 CoapConf.default (fun i ↦ pathRequest.getD i 0) pathRequest := by
  refine (insideDatagram_iff (.inr rfl) (by decide) (holds_getD _ 0)).mpr ⟨by decide, .inr (.inr ?_)⟩
  decide +kernel

def shortPost : List UInt8 := [0x40, 0x02, 0x00, 0x07, 0xFF, 0x61]

/-- The zero behind its payload is written behind the datagram. -/
theorem not_insideDatagram :
    ¬ ∀ (bits : ℕ) (conf : CoapConf) (mem : ℕ → UInt8) (bytes : List UInt8),
      bits = 16 ∨ bits = 32 → bytes.length < 2 ^ 16 → Holds mem 0 bytes →
        InsideDatagram bits conf mem bytes := by
  intro hall
  obtain ⟨r, hparse, hinside, -⟩ :=
    hall 32 CoapConf.default _ shortPost (.inr rfl) (by decide) (holds_getD _ 0)
  have hbehind : (coapParseMessage 32 CoapConf.default (fun i ↦ shortPost.getD i 0)
      shortPost.length).map (fun r ↦ decide (6 ∈ r.state.touched)) = some true := by decide +kernel
  rw [hparse] at hbehind
  exact absurd (hinside 6 (of_decide_eq_true (some.inj hbehind))) (by decide)

end ContikiMaster.Coap
