import ContikiMaster.Lib.Run
import Mathlib

/-!
# The intervals of the DIO timer

`rpl_timers_dio_reset`, `handle_dio_timer` and `new_dio_interval` of `rpl-timers.c`, with a clock of
32 bits. Whether the node is ready to advertise is part of the input; what is sent is left out.
-/

namespace ContikiMaster.Rpl

open Lib

/-- The ticks of a second, and what `init_dag_from_dio` takes from a DIO. -/
structure TrickleConf where
  clockSecond : ℕ
  dioIntmin : UInt8
  dioIntdoubl : UInt8

/-- The fields of the timer. `timer` is the time for which it is set, `begun` the length of time
from the start of the interval to the transmission, `doublings` how many intervals were begun since
the last reset. -/
structure Trickle where
  dioIntcurrent : ℕ
  dioNextDelay : ℕ
  dioSend : Bool
  timer : Option ℕ
  begun : Option ℕ
  doublings : ℕ
  overflowed : Bool

/-- The calls, with whether the node is ready to advertise, and what `random_rand` returns. -/
inductive TrickleEvent
  | reset (ready : Bool) (random : UInt16)
  | handleDioTimer (ready : Bool) (random : UInt16)

def randomRandMax : ℕ := 65535

namespace Trickle

/-- The product that scales the random number. -/
def scaled (clockSecond exponent : ℕ) (random : UInt16) : ℕ :=
  2 ^ exponent * clockSecond / 1000 / 2 * random.toNat

def Fits (clockSecond exponent : ℕ) (random : UInt16) : Prop :=
  exponent < 32 ∧ 2 ^ exponent * clockSecond < 2 ^ 32 ∧
    scaled clockSecond exponent random < 2 ^ 32

instance (clockSecond exponent : ℕ) (random : UInt16) :
    Decidable (Fits clockSecond exponent random) := inferInstanceAs (Decidable (_ ∧ _))

/-- `new_dio_interval`, after the exponent was set. -/
def newDioInterval (conf : TrickleConf) (s : Trickle) (exponent doublings : ℕ) (random : UInt16) :
    Trickle :=
  let time := 2 ^ (exponent % 2 ^ 8) % 2 ^ 32
  let ticks := time * conf.clockSecond % 2 ^ 32 / 1000
  let sent := ticks / 2 + ticks / 2 * random.toNat % 2 ^ 32 / randomRandMax
  { dioIntcurrent := exponent % 2 ^ 8
    dioNextDelay := (ticks + 2 ^ 32 - sent) % 2 ^ 32
    dioSend := true
    timer := some sent
    begun := some sent
    doublings := doublings
    overflowed := s.overflowed || !decide (Fits conf.clockSecond exponent random) }

/-- The exponent of the interval after this one. -/
def nextExponent (conf : TrickleConf) (s : Trickle) : ℕ :=
  if s.dioIntcurrent < conf.dioIntmin.toNat + conf.dioIntdoubl.toNat then s.dioIntcurrent + 1
  else s.dioIntcurrent

def init (conf : TrickleConf) : Trickle := ⟨conf.dioIntmin.toNat, 0, false, none, none, 0, false⟩

def next (conf : TrickleConf) (s : Trickle) : TrickleEvent → Option Trickle
  | .reset false _ => some s
  | .reset true random => some (newDioInterval conf s conf.dioIntmin.toNat 0 random)
  | .handleDioTimer ready random =>
    if s.timer = none then none
    else if !ready then some { s with timer := none }
    else if s.dioSend then some { s with dioSend := false, timer := some s.dioNextDelay }
    else some (newDioInterval conf s (nextExponent conf s) (s.doublings + 1) random)

/-- The interval is as long as its exponent says, which has grown by one from the least one with
every interval, up to the largest one; the transmission is in the second half. -/
structure Follows (conf : TrickleConf) (s : Trickle) : Prop where
  exponent : s.dioIntcurrent = min (conf.dioIntmin.toNat + s.doublings)
    (conf.dioIntmin.toNat + conf.dioIntdoubl.toNat)
  interval : ∀ sent ∈ s.begun, sent + s.dioNextDelay = 2 ^ s.dioIntcurrent * conf.clockSecond / 1000
  half : ∀ sent ∈ s.begun, 2 ^ s.dioIntcurrent * conf.clockSecond / 1000 / 2 ≤ sent
  timer : s.timer ≠ none → s.timer = if s.dioSend then s.begun else some s.dioNextDelay
  fits : s.overflowed = false

def IntervalFits (conf : TrickleConf) (s : Trickle) : TrickleEvent → Prop
  | .reset ready random => ready = true → Fits conf.clockSecond conf.dioIntmin.toNat random
  | .handleDioTimer ready random => ready = true → s.dioSend = false →
      Fits conf.clockSecond (nextExponent conf s) random

variable {conf : TrickleConf} {s t : Trickle} {exponent doublings : ℕ} {random : UInt16}

theorem sent_add_nextDelay {interval q : ℕ} (hq : q ≤ interval / 2) (hinterval : interval < 2 ^ 32) :
    interval / 2 + q + (interval + 2 ^ 32 - (interval / 2 + q)) % 2 ^ 32 = interval := by
  omega

theorem newDioInterval_follows (hs : s.overflowed = false)
    (hfits : Fits conf.clockSecond exponent random)
    (hexponent : exponent = min (conf.dioIntmin.toNat + doublings)
      (conf.dioIntmin.toNat + conf.dioIntdoubl.toNat)) :
    (newDioInterval conf s exponent doublings random).Follows conf := by
  have hdecide := decide_eq_true hfits
  obtain ⟨hshift, hticks, hscaled⟩ := hfits
  have hmod : exponent % 2 ^ 8 = exponent := by omega
  have htime : 2 ^ exponent % 2 ^ 32 = 2 ^ exponent :=
    Nat.mod_eq_of_lt (Nat.pow_lt_pow_right (by decide) hshift)
  have hnew : newDioInterval conf s exponent doublings random =
      let ticks := 2 ^ exponent * conf.clockSecond / 1000
      let sent := ticks / 2 + scaled conf.clockSecond exponent random / randomRandMax
      ⟨exponent, (ticks + 2 ^ 32 - sent) % 2 ^ 32, true, some sent, some sent, doublings, false⟩ := by
    unfold newDioInterval
    rw [hmod, htime, hs, hdecide]
    unfold scaled at hscaled ⊢
    dsimp only
    rw [Nat.mod_eq_of_lt hticks, Nat.mod_eq_of_lt hscaled]
    rfl
  have hrandom : scaled conf.clockSecond exponent random / randomRandMax ≤
      2 ^ exponent * conf.clockSecond / 1000 / 2 := by
    apply Nat.div_le_of_le_mul
    rw [Nat.mul_comm]
    exact Nat.mul_le_mul_left _ (Nat.le_of_lt_succ random.toNat_lt)
  have hinterval : 2 ^ exponent * conf.clockSecond / 1000 < 2 ^ 32 :=
    Nat.lt_of_le_of_lt (Nat.div_le_self _ _) hticks
  rw [hnew]
  constructor
  · exact hexponent
  · intro sent hsent
    cases hsent
    exact sent_add_nextDelay hrandom hinterval
  · intro sent hsent
    cases hsent
    exact Nat.le_add_right _ _
  · intro _
    rfl
  · rfl

theorem nextExponent_eq (hs : s.Follows conf) : nextExponent conf s =
    min (conf.dioIntmin.toNat + (s.doublings + 1))
      (conf.dioIntmin.toNat + conf.dioIntdoubl.toNat) := by
  have hexponent := hs.exponent
  unfold nextExponent
  split <;> omega

theorem follows_step (s : Trickle) (event : TrickleEvent) (t : Trickle) (hs : s.Follows conf)
    (hstep : GuardedStepOf (next conf) (IntervalFits conf) s event t) : t.Follows conf := by
  obtain ⟨hfits, hstep⟩ := hstep
  cases event with
  | reset ready random =>
    cases ready with
    | false =>
      cases hstep
      exact hs
    | true =>
      cases hstep
      apply newDioInterval_follows hs.fits (hfits rfl)
      omega
  | handleDioTimer ready random =>
    cases ready with
    | false =>
      change (if s.timer = none then none else some _) = some t at hstep
      split_ifs at hstep
      cases hstep
      exact ⟨hs.exponent, hs.interval, hs.half, fun hset ↦ absurd rfl hset, hs.fits⟩
    | true =>
      change (if s.timer = none then none else if s.dioSend then some _ else some _) = some t at hstep
      split_ifs at hstep with hnone hsend
      · cases hstep
        exact ⟨hs.exponent, hs.interval, hs.half, fun _ ↦ rfl, hs.fits⟩
      · cases hstep
        apply newDioInterval_follows hs.fits (hfits rfl (by simpa using hsend))
        exact nextExponent_eq hs

theorem overflowed_of_not_fits (hfits : ¬ Fits conf.clockSecond exponent random) :
    ¬ (newDioInterval conf s exponent doublings random).Follows conf := by
  intro hfollows
  have hoverflowed := hfollows.fits
  change (s.overflowed || !decide (Fits conf.clockSecond exponent random)) = false at hoverflowed
  rw [decide_eq_false hfits] at hoverflowed
  simp at hoverflowed

theorem not_follows_step (s : Trickle) (event : TrickleEvent) (t : Trickle)
    (hfits : ¬ IntervalFits conf s event) (hstep : StepOf (next conf) s event t) :
    ¬ t.Follows conf := by
  cases event with
  | reset ready random =>
    unfold IntervalFits at hfits
    push Not at hfits
    obtain ⟨rfl, hfits⟩ := hfits
    cases hstep
    exact overflowed_of_not_fits hfits
  | handleDioTimer ready random =>
    unfold IntervalFits at hfits
    push Not at hfits
    obtain ⟨rfl, hsend, hfits⟩ := hfits
    change (if s.timer = none then none else if s.dioSend then some _ else some _) = some t at hstep
    split_ifs at hstep with hnone hsent
    · exact absurd (hsend.symm.trans hsent) Bool.false_ne_true
    · cases hstep
      exact overflowed_of_not_fits hfits

/-- The intervals follow the exponents, all along a run, exactly if each one that is begun can be
computed in 32 bits. -/
theorem follows_iff_intervalFits (conf : TrickleConf) (events : List TrickleEvent) (s : Trickle) :
    Run (KeepingStepOf (next conf) (Follows conf)) (init conf) events s ↔
      Run (GuardedStepOf (next conf) (IntervalFits conf)) (init conf) events s := by
  have hinit : (init conf).Follows conf := by
    refine ⟨?_, nofun, nofun, fun hset ↦ absurd rfl hset, rfl⟩
    change conf.dioIntmin.toNat = min (conf.dioIntmin.toNat + 0) _
    omega
  exact Run.keeping_iff_guarded (fun _ hs ↦ hs) follows_step
    (fun s event t _ hnot hstep ↦ not_follows_step s event t hnot hstep) hinit

def defaultEvents : List TrickleEvent :=
  .reset true 0 :: List.replicate 16 (.handleDioTimer true 65535)

/-- With 128 ticks a second the last default interval overflows, and one of 2 ^ 25 ms is empty. -/
theorem not_follows :
    (∃ s, Run (StepOf (next ⟨128, 12, 8⟩)) (init ⟨128, 12, 8⟩) defaultEvents s ∧
      s.dioIntcurrent = 20 ∧ s.timer = some 68678 ∧ s.overflowed = true ∧
        ¬ s.Follows ⟨128, 12, 8⟩) ∧
    ∃ s, Run (StepOf (next ⟨128, 25, 0⟩)) (init ⟨128, 25, 0⟩) [.reset true 7] s ∧
      s.timer = some 0 ∧ s.dioNextDelay = 0 ∧ ¬ s.Follows ⟨128, 25, 0⟩ := by
  constructor
  · obtain ⟨s, hrun, hs⟩ : ∃ s, Run (StepOf (next ⟨128, 12, 8⟩)) (init ⟨128, 12, 8⟩)
        defaultEvents s ∧ s.dioIntcurrent = 20 ∧ s.timer = some 68678 ∧ s.overflowed = true :=
      exists_run (by decide +kernel)
    refine ⟨s, hrun, hs.1, hs.2.1, hs.2.2, fun hfollows ↦ ?_⟩
    rw [hfollows.fits] at hs
    exact Bool.false_ne_true hs.2.2
  · obtain ⟨s, hrun, hs⟩ : ∃ s, Run (StepOf (next ⟨128, 25, 0⟩)) (init ⟨128, 25, 0⟩)
        [.reset true 7] s ∧ s.timer = some 0 ∧ s.dioNextDelay = 0 ∧ s.overflowed = true :=
      exists_run (by decide +kernel)
    refine ⟨s, hrun, hs.1, hs.2.1, fun hfollows ↦ ?_⟩
    rw [hfollows.fits] at hs
    exact Bool.false_ne_true hs.2.2

end Trickle

end ContikiMaster.Rpl
