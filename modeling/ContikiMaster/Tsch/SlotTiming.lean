import ContikiMaster.Lib.Run
import Mathlib.Data.Int.Notation
import Mathlib.Data.Nat.Notation
import Mathlib.Tactic.Ring

/-!
# The timing of slots

Whether a deadline has passed, on a clock that wraps, and the compensation of
the drift between two nodes. The compensation keeps what it could not yet pay
back in two variables; with it go the sums that they account for.
-/

namespace ContikiMaster.Tsch

open List Lib

/-- `check_timer_miss`, for an `rtimer_clock_t` of `w` bits. -/
def checkTimerMiss {w : ℕ} (refTime offset now : BitVec w) : Bool :=
  let target := refTime + offset
  let nowHasOverflowed := decide (now < refTime)
  let targetHasOverflowed := decide (target < refTime)
  if nowHasOverflowed = targetHasOverflowed then decide (target ≤ now) else nowHasOverflowed

theorem add_toNat_or {w : ℕ} (refTime offset : BitVec w) :
    ((refTime + offset).toNat = refTime.toNat + offset.toNat ∧ ¬ refTime + offset < refTime) ∨
      ((refTime + offset).toNat + 2 ^ w = refTime.toNat + offset.toNat ∧
        refTime + offset < refTime) := by
  have hsum := BitVec.toNat_add refTime offset
  have href := refTime.isLt
  have hoffset := offset.isLt
  rw [BitVec.lt_def]
  rcases Nat.lt_or_ge (refTime.toNat + offset.toNat) (2 ^ w) with hfits | hwraps
  · rw [Nat.mod_eq_of_lt hfits] at hsum
    omega
  · rw [Nat.mod_eq_sub_mod hwraps, Nat.mod_eq_of_lt (by omega)] at hsum
    omega

theorem checkTimerMiss_iff {w : ℕ} (refTime offset elapsed : BitVec w) :
    checkTimerMiss refTime offset (refTime + elapsed) = true ↔ offset ≤ elapsed := by
  have hoffset := offset.isLt
  have helapsed := elapsed.isLt
  have hnow := add_toNat_or refTime elapsed
  have htarget := add_toNat_or refTime offset
  unfold checkTimerMiss
  generalize refTime + elapsed = now at *
  generalize refTime + offset = target at *
  rcases hnow with ⟨hnow, hn⟩ | ⟨hnow, hn⟩ <;> rcases htarget with ⟨htarget, ht⟩ | ⟨htarget, ht⟩ <;>
    simp [hn, ht, BitVec.le_def] <;> omega

/-- What a signed type of `w` bits holds. -/
def Fits (w : ℕ) (x : ℤ) : Prop := -2 ^ (w - 1) ≤ x ∧ x < 2 ^ (w - 1)

instance (w : ℕ) (x : ℤ) : Decidable (Fits w x) := inferInstanceAs (Decidable (_ ∧ _))

/-- The value that a conversion to it leaves. -/
def wrap (w : ℕ) (x : ℤ) : ℤ := x.bmod (2 ^ w)

theorem wrap_of_fits {w : ℕ} (hw : 0 < w) {x : ℤ} (hfits : Fits w x) : wrap w x = x := by
  obtain ⟨k, rfl⟩ := Nat.exists_eq_add_of_lt hw
  unfold Fits at hfits
  rw [Nat.zero_add, Nat.add_sub_cancel] at hfits
  apply Int.bmod_eq_of_le_mul_two <;> push_cast <;> rw [Nat.zero_add, Int.pow_succ] <;> omega

def tschDriftUnit : ℤ := 1000 * 1000 * 256

/-- What `compensate_internal` takes from the platform: whether `long` has 32 or 64 bits, and the
conversion between ticks and microseconds, which round-trips within one tick. -/
structure TickConversion where
  long32 : Bool
  rtimerArchSecond : ℕ
  usToRtimerticks : ℤ → ℤ
  rtimerticksToUs : ℤ → ℤ
  tick : ℤ
  tick_le : tick ≤ 2 ^ 15
  roundTrips : ∀ us, Fits 32 us →
    -tick < us - rtimerticksToUs (usToRtimerticks us) ∧
      us - rtimerticksToUs (usToRtimerticks us) < tick

def TickConversion.longBits (c : TickConversion) : ℕ := if c.long32 then 32 else 64

/-- A call of `compensate_internal`. -/
structure DriftCall where
  timeDeltaUsec : BitVec 32
  driftPpm : BitVec 32

def DriftCall.drift (call : DriftCall) : ℤ := call.timeDeltaUsec.toNat * call.driftPpm.toInt

/-- What a call leaves and returns, and every value it computes with the width it is kept in. -/
structure Compensated where
  remainder : ℤ
  tickConversionError : ℤ
  amountTicks : ℤ
  clamped : Bool
  computed : List (ℕ × ℤ)

def compensateInternal (c : TickConversion) (call : DriftCall)
    (remainder tickConversionError : ℤ) : Compensated :=
  let d := wrap 64 (wrap 64 call.drift + remainder)
  let amount := wrap 32 (d.tdiv tschDriftUnit)
  let product := wrap c.longBits (amount * tschDriftUnit)
  let corrected := wrap 32 (amount + tickConversionError)
  let ticks := wrap 32 (c.usToRtimerticks corrected)
  let error := corrected - c.rtimerticksToUs ticks
  let limit : ℤ := c.rtimerArchSecond / 128
  let clamped := decide (limit < ticks.natAbs)
  { remainder := wrap 32 (d - product), tickConversionError := wrap 16 error, clamped
    amountTicks := if clamped then if 0 < ticks then limit else -limit else ticks
    computed := [(64, call.drift), (64, wrap 64 call.drift + remainder),
      (32, d.tdiv tschDriftUnit), (c.longBits, amount * tschDriftUnit), (32, d - product),
      (32, amount + tickConversionError), (32, c.usToRtimerticks corrected), (16, error)] }

/-- The two variables of a drift. With them the sum of elapsed time times drift over the calls, the
sum of the returned ticks in microseconds, and whether a value did not fit its type. -/
structure Compensation where
  remainder : ℤ
  tickConversionError : ℤ
  drifted : ℤ
  compensatedUs : ℤ
  overflowed : Bool

namespace Compensation

def init : Compensation := ⟨0, 0, 0, 0, false⟩

/-- A call that is not clamped. -/
def next (c : TickConversion) (s : Compensation) (call : DriftCall) : Option Compensation :=
  let result := compensateInternal c call s.remainder s.tickConversionError
  if result.clamped then none
  else some
    { remainder := result.remainder, tickConversionError := result.tickConversionError
      drifted := s.drifted + call.drift
      compensatedUs := s.compensatedUs + c.rtimerticksToUs result.amountTicks
      overflowed := s.overflowed || !result.computed.all fun v ↦ decide (Fits v.1 v.2) }

/-- Every drift is compensated or kept, and nothing overflowed. -/
structure Accounted (c : TickConversion) (s : Compensation) : Prop where
  sums : s.drifted = tschDriftUnit * (s.compensatedUs + s.tickConversionError) + s.remainder
  remainder : s.remainder.natAbs < tschDriftUnit
  error : s.tickConversionError.natAbs < c.tick
  fits : s.overflowed = false

/-- The microseconds to compensate fit in 32 bits, with the conversion error and in ticks too; where
`long` has 32 bits there are at most 8. -/
structure CallFits (c : TickConversion) (s : Compensation) (call : DriftCall) : Prop where
  amount : Fits 32 ((call.drift + s.remainder).tdiv tschDriftUnit)
  corrected : Fits 32 ((call.drift + s.remainder).tdiv tschDriftUnit + s.tickConversionError)
  ticks : Fits 32
    (c.usToRtimerticks ((call.drift + s.remainder).tdiv tschDriftUnit + s.tickConversionError))
  product : c.long32 = true → (call.drift + s.remainder).natAbs < 9 * tschDriftUnit

theorem natAbs_drift_le (call : DriftCall) : call.drift.natAbs ≤ (2 ^ 32 - 1) * 2 ^ 31 := by
  have helapsed := call.timeDeltaUsec.isLt
  have hlow := call.driftPpm.le_toInt
  have hhigh := @BitVec.toInt_lt _ call.driftPpm
  unfold DriftCall.drift
  rw [Int.natAbs_mul]
  exact Nat.mul_le_mul (by omega) (by omega)

section Call

variable {c : TickConversion} {s t : Compensation} {call : DriftCall}

theorem drift_fits (hremainder : s.remainder.natAbs < tschDriftUnit) :
    Fits 64 call.drift ∧ Fits 64 (call.drift + s.remainder) := by
  have hdrift := natAbs_drift_le call
  have hunit : tschDriftUnit = 256000000 := rfl
  unfold Fits
  omega

theorem longBits_pos : 0 < c.longBits := by
  unfold TickConversion.longBits
  split <;> decide

/-- The multiple of the unit that is taken off. -/
theorem product_fits_iff {d : ℤ} (hamount : Fits 32 (d.tdiv tschDriftUnit)) :
    Fits c.longBits (d.tdiv tschDriftUnit * tschDriftUnit) ↔
      (c.long32 = true → d.natAbs < 9 * tschDriftUnit) := by
  have hunit : tschDriftUnit = 256000000 := rfl
  have howed : (d.tdiv tschDriftUnit).natAbs = d.natAbs / 256000000 := Int.natAbs_tdiv _ _
  have hmul : d.tdiv tschDriftUnit * tschDriftUnit = d.tdiv tschDriftUnit * 256000000 := rfl
  unfold TickConversion.longBits Fits at *
  rw [hmul]
  by_cases hlong : c.long32 = true
  · rw [if_pos hlong, forall_prop_of_true hlong]
    omega
  · rw [if_neg hlong, forall_prop_of_false hlong, iff_true]
    omega

/-- What is left of the drift. -/
theorem remainder_lt (d : ℤ) : (d - d.tdiv tschDriftUnit * tschDriftUnit).natAbs < tschDriftUnit := by
  have hrest := Int.tmod_add_tdiv_mul d tschDriftUnit
  have hless := @Int.tmod_lt_of_pos d tschDriftUnit (by decide)
  have hmore := @Int.lt_tmod_of_pos d tschDriftUnit (by decide)
  omega

theorem remainder_fits (d : ℤ) : Fits 32 (d - d.tdiv tschDriftUnit * tschDriftUnit) := by
  have hless := remainder_lt d
  have hunit : tschDriftUnit = 256000000 := rfl
  unfold Fits
  omega

theorem error_fits {us : ℤ} (hfits : Fits 32 us) :
    Fits 16 (us - c.rtimerticksToUs (c.usToRtimerticks us)) := by
  have hkept := c.roundTrips us hfits
  have htick := c.tick_le
  unfold Fits
  omega

theorem computed_fit_iff (hremainder : s.remainder.natAbs < tschDriftUnit) :
    (∀ v ∈ (compensateInternal c call s.remainder s.tickConversionError).computed, Fits v.1 v.2) ↔
      CallFits c s call := by
  obtain ⟨hdrift, hsum⟩ := @drift_fits _ call hremainder
  simp only [compensateInternal, wrap_of_fits, hdrift, hsum, forall_mem_cons, not_mem_nil,
    false_implies, implies_true, and_true, Nat.succ_pos, true_and]
  constructor
  · rintro ⟨hamount, hproduct, -, hcorrected, hticks, -⟩
    rw [wrap_of_fits (by decide) hamount] at hproduct hcorrected hticks
    rw [wrap_of_fits (by decide) hcorrected] at hticks
    exact ⟨hamount, hcorrected, hticks, (product_fits_iff hamount).mp hproduct⟩
  · rintro ⟨hamount, hcorrected, hticks, hfew⟩
    have hproduct := (product_fits_iff hamount).mpr hfew
    rw [wrap_of_fits (by decide) hamount, wrap_of_fits (by decide) hcorrected,
      wrap_of_fits (by decide) hticks, wrap_of_fits longBits_pos hproduct]
    exact ⟨hamount, hproduct, remainder_fits _, hcorrected, hticks, error_fits hcorrected⟩

theorem compensateInternal_of_fits (hremainder : s.remainder.natAbs < tschDriftUnit)
    (hfits : CallFits c s call) :
    let result := compensateInternal c call s.remainder s.tickConversionError
    let d := call.drift + s.remainder
    let corrected := d.tdiv tschDriftUnit + s.tickConversionError
    result.remainder = d - d.tdiv tschDriftUnit * tschDriftUnit ∧
      result.tickConversionError = corrected - c.rtimerticksToUs (c.usToRtimerticks corrected) ∧
      (result.clamped = false → result.amountTicks = c.usToRtimerticks corrected) := by
  obtain ⟨hdrift, hsum⟩ := @drift_fits _ call hremainder
  have hproduct := (product_fits_iff hfits.amount).mpr hfits.product
  simp only [compensateInternal, wrap_of_fits, hdrift, hsum, Nat.succ_pos, hfits.amount, hproduct,
    longBits_pos, hfits.corrected, hfits.ticks, remainder_fits, error_fits hfits.corrected]
  refine ⟨trivial, trivial, fun hclamped ↦ ?_⟩
  rw [hclamped]
  rfl

theorem next_eq_some (hnext : next c s call = some t) :
    let result := compensateInternal c call s.remainder s.tickConversionError
    result.clamped = false ∧
      t = { remainder := result.remainder, tickConversionError := result.tickConversionError
            drifted := s.drifted + call.drift
            compensatedUs := s.compensatedUs + c.rtimerticksToUs result.amountTicks
            overflowed := s.overflowed || !result.computed.all fun v ↦ decide (Fits v.1 v.2) } := by
  unfold next at hnext
  intro result
  by_cases hclamped : result.clamped = true
  · rw [if_pos hclamped] at hnext
    cases hnext
  · rw [if_neg hclamped] at hnext
    exact ⟨Bool.eq_false_of_not_eq_true hclamped, (Option.some.inj hnext).symm⟩

theorem accounted_next (hs : Accounted c s) (hfits : CallFits c s call)
    (hnext : next c s call = some t) : Accounted c t := by
  have hcomputed := (computed_fit_iff hs.remainder).mpr hfits
  obtain ⟨hremainder, herror, hticks⟩ := compensateInternal_of_fits hs.remainder hfits
  obtain ⟨hclamped, rfl⟩ := next_eq_some hnext
  have hkept := c.roundTrips _ hfits.corrected
  refine ⟨?_, ?_, ?_, ?_⟩
  · rw [hremainder, herror, hticks hclamped, hs.sums]
    ring
  · rw [hremainder]
    exact remainder_lt _
  · rw [herror]
    change ((_ - _ : ℤ).natAbs : ℤ) < _
    omega
  · rw [hs.fits, Bool.false_or, Bool.not_eq_false', all_eq_true]
    exact fun v hv ↦ decide_eq_true (hcomputed v hv)

theorem callFits_of_next (hs : Accounted c s) (hnext : next c s call = some t)
    (ht : Accounted c t) : CallFits c s call := by
  apply (computed_fit_iff hs.remainder).mp
  have hclean := ht.fits
  rw [(next_eq_some hnext).2, hs.fits, Bool.false_or, Bool.not_eq_false', all_eq_true] at hclean
  exact fun v hv ↦ of_decide_eq_true (hclean v hv)

theorem accounted_init : Accounted c init := by
  have hzero := c.roundTrips 0 (by decide)
  refine ⟨rfl, by decide, ?_, rfl⟩
  change (0 : ℤ) < c.tick
  omega

/-- Along a run of calls that are not clamped every drift is compensated or kept without an overflow
exactly if what each call has to compensate fits. -/
theorem compensateInternal_accounts (calls : List DriftCall) :
    Run (KeepingStepOf (next c) (Accounted c)) init calls s ↔
      Run (GuardedStepOf (next c) (CallFits c)) init calls s := by
  apply Run.keeping_iff_guarded (I := Accounted c) (fun _ hs ↦ hs)
  · exact fun s call t hs hstep ↦ accounted_next hs hstep.1 hstep.2
  · exact fun s call t hs hnot hnext ht ↦ hnot (callFits_of_next hs hnext ht)
  · exact accounted_init

/-- The ticks of a platform where one tick is a microsecond. -/
def microseconds : TickConversion where
  long32 := true
  rtimerArchSecond := 1000000
  usToRtimerticks := id
  rtimerticksToUs := id
  tick := 1
  tick_le := by decide
  roundTrips us _ := by
    change -1 < us - us ∧ us - us < 1
    omega

/-- One second with a drift of 40 parts per million, on a platform with a `long` of 32 bits. -/
theorem compensateInternal_overflows :
    ∃ t, Run (StepOf (next microseconds)) init [⟨1000000#32, 10240#32⟩] t ∧
      t.overflowed = true :=
  exists_run (by decide +kernel)

end Call

end Compensation

end ContikiMaster.Tsch
