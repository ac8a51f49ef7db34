import ContikiMaster.Coap.Parse

/-!
# Turns of the parser

What one turn of the loop over the options can do, once for all results about the
parser. Every turn that goes on moves the pointer towards the end of the datagram, so
the loop ends for every datagram.
-/

namespace ContikiMaster.Coap

open Lib List

variable {bits dataLen length : ℕ} {conf : CoapConf} {mem : ℕ → UInt8} {st st' : ParseState}
  {r : Parsed}

theorem parseOption_goesOn (hturn : parseOption st length = .goesOn st') :
    st'.current = st.current ∧ st'.number = st.number ∧ st'.numbers = st.numbers ∧
      st'.packet.payload = st.packet.payload := by
  unfold parseOption at hturn
  cases hoption : CoapOption.ofNumber st.number with
  | none =>
    simp only [hoption] at hturn
    split_ifs at hturn
    obtain rfl := Turn.goesOn.inj hturn
    exact ⟨rfl, rfl, rfl, rfl⟩
  | some o =>
    rcases o with i | b | s | b | _ <;> try cases s
    all_goals simp only [hoption, reduceCtorEq] at hturn
    all_goals
      obtain rfl := Turn.goesOn.inj hturn
      exact ⟨rfl, rfl, rfl, rfl⟩

theorem parseOption_returns (hturn : parseOption st length = .returns r) : r.status ≠ .noError ∧ r.state = st := by
  unfold parseOption at hturn
  cases hoption : CoapOption.ofNumber st.number with
  | none =>
    simp only [hoption] at hturn
    split_ifs at hturn
    obtain rfl := Turn.returns.inj hturn
    exact ⟨ParseStatus.noConfusion, rfl⟩
  | some o =>
    rcases o with i | b | s | b | _ <;> try cases s
    all_goals simp only [hoption, reduceCtorEq] at hturn
    all_goals
      obtain rfl := Turn.returns.inj hturn
      exact ⟨ParseStatus.noConfusion, rfl⟩

theorem readExtension_le (bits : ℕ) (mem : ℕ → UInt8) (nibble current : ℕ) :
    current ≤ (readExtension bits mem nibble current).2.1 := by
  unfold readExtension
  split_ifs
  · exact Nat.le_succ current
  · exact Nat.le_add_right current 2
  · exact le_rfl

theorem lt_content (bits : ℕ) (mem : ℕ → UInt8) (current : ℕ) :
    current < (readHeader bits mem current).content :=
  (readExtension_le bits mem ((mem current).toNat >>> 4) (current + 1)).trans
    (readExtension_le bits mem ((mem current).toNat &&& 0x0F) _)

/-- The state in which the `switch` looks at the option at the pointer. -/
def optionState (bits : ℕ) (st : ParseState) : ParseState :=
  let h := readHeader bits st.mem st.current
  let number := (st.number + h.delta) % 2 ^ bits
  let entered := enterOption number (enterValue h (st.touch [st.current]))
  entered.withPacket (entered.packet.setOption number)

def optionLength (bits : ℕ) (st : ParseState) : ℕ := (readHeader bits st.mem st.current).length

/-- The pointer behind the option passes for one that is not behind the datagram. -/
def Passes (bits : ℕ) (conf : CoapConf) (dataLen : ℕ) (st : ParseState) : Prop :=
  wrapPointer bits (dataLen + conf.behind) ((optionState bits st).current + optionLength bits st) ≤
    dataLen

theorem passes_of_le (hfits : (optionState bits st).current + optionLength bits st ≤ dataLen) :
    Passes bits conf dataLen st := by
  have hpos := conf.behind_pos
  unfold Passes wrapPointer
  rw [if_pos (by omega)]
  exact hfits

theorem Passes.le (hpasses : Passes bits conf dataLen st)
    (hlimit : ¬ dataLen + conf.behind ≤ (optionState bits st).current + optionLength bits st) :
    (optionState bits st).current + optionLength bits st ≤ dataLen := by
  unfold Passes wrapPointer at hpasses
  rwa [if_pos (not_le.mp hlimit)] at hpasses

theorem advance_goesOn (hfits : st.current + length ≤ dataLen) :
    advance (dataLen + conf.behind) length (.goesOn st) =
      .goesOn { st with current := st.current + length } := by
  have hpos := conf.behind_pos
  exact if_neg (by omega)

/-- The ways in which a turn goes: the end of the datagram, the payload marker, an option that does
not fit, an option number that is too large, or an option. -/
inductive TurnCase (bits : ℕ) (conf : CoapConf) (dataLen : ℕ) (st : ParseState) :
    Turn ParseState (Option Parsed) → Prop
  | done (hend : dataLen ≤ st.current) :
      TurnCase bits conf dataLen st (.returns (some ⟨.noError, none, st⟩))
  | payload (hcurrent : st.current < dataLen) (hmarker : st.mem st.current &&& 0xF0 = 0xF0) :
      TurnCase bits conf dataLen st
        (.returns (some (parsePayload conf dataLen (st.touch [st.current]))))
  | tooLong (hcurrent : st.current < dataLen) (hmarker : st.mem st.current &&& 0xF0 ≠ 0xF0)
      (hlong : ¬ Passes bits conf dataLen st) :
      TurnCase bits conf dataLen st (.returns (some ⟨.badRequest400, none,
        enterValue (readHeader bits st.mem st.current) (st.touch [st.current])⟩))
  | tooLarge (hcurrent : st.current < dataLen) (hmarker : st.mem st.current &&& 0xF0 ≠ 0xF0)
      (hpasses : Passes bits conf dataLen st) (hlarge : 60 < (optionState bits st).number) :
      TurnCase bits conf dataLen st (.returns (some ⟨.badRequest400, none,
        enterOption (optionState bits st).number
          (enterValue (readHeader bits st.mem st.current) (st.touch [st.current]))⟩))
  | option (hcurrent : st.current < dataLen) (hmarker : st.mem st.current &&& 0xF0 ≠ 0xF0)
      (hpasses : Passes bits conf dataLen st) (hsmall : (optionState bits st).number ≤ 60) :
      TurnCase bits conf dataLen st (advance (dataLen + conf.behind) (optionLength bits st)
        (parseOption (optionState bits st) (optionLength bits st)))

theorem parseTurn_cases (bits : ℕ) (conf : CoapConf) (dataLen : ℕ) (st : ParseState) :
    TurnCase bits conf dataLen st (parseTurn bits conf dataLen st) := by
  unfold parseTurn
  dsimp only
  by_cases hcurrent : st.current < dataLen
  · rw [if_pos hcurrent]
    by_cases hmarker : (st.touch [st.current]).mem (st.touch [st.current]).current &&& 0xF0 = 0xF0
    · rw [if_pos hmarker]
      exact .payload hcurrent hmarker
    · rw [if_neg hmarker, parseOptionAt]
      dsimp only
      split_ifs with hlong hlarge
      · exact .tooLong hcurrent hmarker (not_le.mpr hlong)
      · exact .tooLarge hcurrent hmarker (not_lt.mp hlong) hlarge
      · exact .option hcurrent hmarker (not_lt.mp hlong) (not_lt.mp hlarge)
  · rw [if_neg hcurrent]
    exact .done (not_lt.mp hcurrent)

theorem parseTurn_goesOn (hturn : parseTurn bits conf dataLen st = .goesOn st') :
    st.current < dataLen ∧ st.mem st.current &&& 0xF0 ≠ 0xF0 ∧
      (optionState bits st).current + optionLength bits st ≤ dataLen ∧
      (optionState bits st).number ≤ 60 ∧
      ∃ t, parseOption (optionState bits st) (optionLength bits st) = .goesOn t ∧
        st' = { t with current := t.current + optionLength bits st } := by
  have hcases := parseTurn_cases bits conf dataLen st
  rw [hturn] at hcases
  generalize hgoes : Turn.goesOn st' = turn at hcases
  cases hcases with
  | done => cases hgoes
  | payload => cases hgoes
  | tooLong => cases hgoes
  | tooLarge => cases hgoes
  | option hcurrent hmarker hpasses hsmall =>
    cases hoption : parseOption (optionState bits st) (optionLength bits st) with
    | returns r =>
      rw [hoption] at hgoes
      cases hgoes
    | goesOn t =>
      rw [hoption, advance, (parseOption_goesOn hoption).1] at hgoes
      split_ifs at hgoes with hwraps
      refine ⟨hcurrent, hmarker, hpasses.le hwraps, hsmall, t, rfl, ?_⟩
      rw [(parseOption_goesOn hoption).1]
      exact Turn.goesOn.inj hgoes

/-- What a turn that returns leaves: the strings, and also the payload unless it is at the marker. -/
theorem parseTurn_returns (hturn : parseTurn bits conf dataLen st = .returns (some r)) :
    st.numbers <+: r.state.numbers ∧ r.state.packet.string = st.packet.string ∧
      (r.state.packet.payload = st.packet.payload ∨
        st.current < dataLen ∧ r = parsePayload conf dataLen (st.touch [st.current])) := by
  have hcases := parseTurn_cases bits conf dataLen st
  rw [hturn] at hcases
  generalize hr : Turn.returns (some r) = turn at hcases
  cases hcases with
  | done | tooLong =>
    cases hr
    exact ⟨prefix_refl _, rfl, .inl rfl⟩
  | payload hcurrent =>
    cases hr
    exact ⟨prefix_refl _, rfl, .inr ⟨hcurrent, rfl⟩⟩
  | tooLarge =>
    cases hr
    exact ⟨prefix_append _ _, rfl, .inl rfl⟩
  | option =>
    cases hoption : parseOption (optionState bits st) (optionLength bits st) with
    | goesOn t =>
      rw [hoption, advance] at hr
      split_ifs at hr
      cases hr
    | returns r' =>
      rw [hoption] at hr
      cases hr
      rw [(parseOption_returns hoption).2]
      exact ⟨prefix_append _ _, rfl, .inl rfl⟩

theorem lt_optionState_current (bits : ℕ) (st : ParseState) :
    st.current < (optionState bits st).current := lt_content bits st.mem st.current

theorem parseTurn_moves (hturn : parseTurn bits conf dataLen st = .goesOn st') :
    st.current < dataLen ∧ st'.current = (optionState bits st).current + optionLength bits st ∧
      st.current < st'.current ∧ st'.current ≤ dataLen := by
  obtain ⟨hcurrent, -, hfits, -, t, hoption, rfl⟩ := parseTurn_goesOn hturn
  obtain ⟨hsame, -⟩ := parseOption_goesOn hoption
  have hlt := lt_optionState_current bits st
  dsimp only
  rw [hsame]
  exact ⟨hcurrent, rfl, by omega, hfits⟩

theorem parseTurn_lowers (bits : ℕ) (conf : CoapConf) (dataLen : ℕ) (st st' : ParseState)
    (hturn : parseTurn bits conf dataLen st = .goesOn st') :
    dataLen - st'.current < dataLen - st.current := by
  obtain ⟨hcurrent, -, hlt, hle⟩ := parseTurn_moves hturn
  omega

end ContikiMaster.Coap
