import ContikiMaster.Sixtop.TransactionRuns

/-!
# Transmission callbacks and their transactions

A frame carries a raw pointer to the block of its transaction. The number of the
transaction tells it from all others that ever use the block, so a report reaches its
own transaction exactly as long as that transaction has not ended.
-/

namespace ContikiMaster.Sixtop

open Lib Sys List Option

def Event.trans? : Event → Option ℕ
  | .transit ident _ => some ident
  | .callback ident _ _ => some ident
  | .input .. => none
  | .timeout .. => none

namespace Sixp

variable {s t u : Sixp} {p : ℕ}

/-- Only one block of the table, and events of its transaction, are added. -/
structure Touches (s t : Sixp) (p : ℕ) : Prop where
  list : t.transList = s.transList
  count : t.transMemb.count = s.transMemb.count
  other : ∀ q, q ≠ p → t.trans q = s.trans q ∧ t.timer q = s.timer q
  ident : (t.trans p).ident = (s.trans p).ident
  log : ∃ events, t.log = s.log ++ events ∧
    ∀ event ∈ events, event.trans? = some (s.trans p).ident

theorem Touches.refl (s : Sixp) (p : ℕ) : Touches s s p where
  list := rfl
  count := rfl
  other := fun _ _ ↦ ⟨rfl, rfl⟩
  ident := rfl
  log := ⟨[], (append_nil _).symm, fun _ h ↦ absurd h not_mem_nil⟩

theorem Touches.trans (hleft : Touches s t p) (hright : Touches t u p) : Touches s u p where
  list := hright.list.trans hleft.list
  count := hright.count.trans hleft.count
  other := fun q hq ↦
    ⟨(hright.other q hq).1.trans (hleft.other q hq).1,
      (hright.other q hq).2.trans (hleft.other q hq).2⟩
  ident := hright.ident.trans hleft.ident
  log := by
    obtain ⟨first, hfirst, hfirst'⟩ := hleft.log
    obtain ⟨second, hsecond, hsecond'⟩ := hright.log
    refine ⟨first ++ second, by rw [hsecond, hfirst, append_assoc], fun event hevent ↦ ?_⟩
    rcases mem_append.mp hevent with hevent | hevent
    · exact hfirst' event hevent
    · exact (hsecond' event hevent).trans (congrArg some hleft.ident)

theorem touches_enter (s : Sixp) (p : ℕ) (newState : TransState) :
    Touches s (s.enter p newState) p where
  list := rfl
  count := rfl
  other := fun _ hq ↦ ⟨enter_trans_of_ne hq, enter_timer_of_ne hq⟩
  ident := (enter_peerAddr p).2
  log := ⟨[Event.transit (s.trans p).ident newState], rfl, fun event hevent ↦ by
    rw [mem_singleton.mp hevent]
    rfl⟩

theorem touches_callBack (s : Sixp) (p : ℕ) (ok : Bool) : Touches s (s.callBack p ok) p where
  list := rfl
  count := rfl
  other := fun _ _ ↦ ⟨rfl, rfl⟩
  ident := rfl
  log := ⟨_, rfl, fun event hevent ↦ by
    obtain ⟨callback, -, rfl⟩ := mem_map.mp hevent
    rfl⟩

theorem touches_macCallback (s : Sixp) (p : ℕ) (ok : Bool) : Touches s (s.macCallback p ok) p := by
  rcases macCallback_cases s p ok with heq | heq | ⟨-, -, heq | ⟨newState, heq⟩⟩ <;> rw [heq]
  · exact .refl s p
  · exact touches_callBack s p ok
  · exact touches_enter s p .terminating
  · exact (touches_enter s p newState).trans (touches_callBack _ p ok)

theorem touches_setCallback (s : Sixp) (p : ℕ) (callback : Option ℕ) :
    Touches s (s.sixpTransSetCallback p callback) p where
  list := rfl
  count := rfl
  other := fun _ hq ↦ ⟨Memb.store_mem_of_ne hq, rfl⟩
  ident := (setCallback_peerAddr callback p).2.1
  log := ⟨[], (append_nil _).symm, fun _ h ↦ absurd h not_mem_nil⟩

/-- A step that may change the transaction `ident` and no other one, and nothing at all when that
transaction has ended. -/
structure OwnOnly (s t : Sixp) (ident : ℕ) : Prop where
  list : t.transList = s.transList
  count : t.transMemb.count = s.transMemb.count
  changed : ∀ p, t.trans p ≠ s.trans p ∨ t.timer p ≠ s.timer p → s.Live p ident
  log : ∃ events, t.log = s.log ++ events ∧ ∀ event ∈ events, event.trans? = some ident
  ended : (∀ p, ¬ s.Live p ident) → t.transMemb = s.transMemb ∧ t.timer = s.timer ∧ t.log = s.log

theorem Touches.ownOnly (htouches : Touches s t p) {ident : ℕ} (hlive : s.Live p ident) :
    OwnOnly s t ident where
  list := htouches.list
  count := htouches.count
  changed := by
    intro q hchanged
    by_cases hq : q = p
    · exact hq ▸ hlive
    · obtain ⟨htrans, htimer⟩ := htouches.other q hq
      exact absurd hchanged (by simp [htrans, htimer])
  log := hlive.2 ▸ htouches.log
  ended := fun hnone ↦ absurd hlive (hnone p)

theorem OwnOnly.of_with {frames : List SentFrame} {pending : List Pending} {ident : ℕ}
    (hown : OwnOnly { s with frames, pending } t ident) : OwnOnly s t ident :=
  ⟨hown.list, hown.count, hown.changed, hown.log, hown.ended⟩

/-- What a transmission callback promises: the report of a frame, and what is left of it when the
caller's callback returns, only affect the transaction for which the frame was sent. Different
transactions have different numbers. -/
structure ReportsOwn (s : Sixp) : Prop where
  report : ∀ i ok frame t, s.frames[i]? = some frame → s.next (.macCallback i ok) = some t →
    OwnOnly s t frame.ident
  returned : ∀ p ident pending t, s.pending = .clearCallback p ident :: pending →
    s.next .resume = some t → OwnOnly s t ident
  unique : ∀ p q ident, s.Live p ident → s.Live q ident → p = q

theorem Held.reportsOwn (hheld : s.Held) (hsound : s.Sound) : s.ReportsOwn where
  report := by
    intro i ok frame t hframe hnext
    obtain ⟨frame', hframe', rfl⟩ := map_eq_some_iff.mp hnext
    obtain rfl := some.inj (hframe'.symm.trans hframe)
    have hlive := hheld.frames frame' (mem_of_getElem? hframe)
    have htouches := touches_macCallback { s with frames := s.frames.eraseIdx i } frame'.trans ok
    exact (htouches.ownOnly hlive).of_with
  returned := by
    intro p ident pending t hpending hnext
    have hlive := hheld.calls p ident (hpending ▸ mem_cons_self)
    have htouches := touches_setCallback { s with pending } p none
    unfold Sixp.next at hnext
    obtain rfl : ({ s with pending } : Sixp).sixpTransSetCallback p none = t := by
      simpa only [hpending, some.injEq, Sixp.resume] using hnext
    exact (htouches.ownOnly hlive).of_with
  unique := by
    intro p q ident hp hq
    exact inj_on_of_nodup_map (pairwise_map.mpr hsound.idents) hp.1 hq.1
      (hp.2.trans hq.2.symm)

/-- A transmission callback only affects its own transaction in every run in which no transaction is
freed while the MAC holds one of its frames. -/
theorem reportsOwn_of_run {nodeAddr : Framer.Addr8} {withTermination : Bool}
    {schedulingFunctions : List SchedulingFunction} {num numNbrs : ℕ} {labels : List Label}
    (hrun : Run (GuardedStepOf next FreesReported)
      (init nodeAddr withTermination schedulingFunctions num numNbrs) labels s) :
    s.ReportsOwn := by
  obtain ⟨hsound, hheld⟩ := held_of_run hrun
  exact hheld.reportsOwn hsound

theorem reportsOwn_waiting :
    ∃ s : Sixp, s.ReportsOwn ∧ s.frames ≠ [] ∧ s.Live 0 0 := by
  obtain ⟨s, hrun, hlive⟩ : ∃ s, Run (GuardedStepOf next FreesReported) (node true) [requestTo 2] s ∧
      s.frames ≠ [] ∧ s.Live 0 0 := exists_guardedRun (by decide +kernel)
  exact ⟨s, reportsOwn_of_run hrun, hlive⟩

/-- A request times out before the MAC reports it, and its block is taken for a request to another
neighbour; the report of the first request makes the second one a request that was sent. -/
theorem not_reportsOwn :
    ¬ ∀ labels s, Run (StepOf next) (node true) labels s → s.ReportsOwn := by
  intro hall
  obtain ⟨s, hrun, hframe, hident, hreport⟩ : ∃ s, Run (StepOf next) (node true)
      ([requestTo 2] ++ timeoutOf 0 ++ [requestTo 3]) s ∧
        (s.frames[0]?).map SentFrame.ident = some 0 ∧ (s.trans 0).ident = 1 ∧
          (s.next (.macCallback 0 true)).any fun t ↦ decide (t.trans 0 ≠ s.trans 0) :=
    exists_run (by decide +kernel)
  obtain ⟨frame, hframe, hzero⟩ := map_eq_some_iff.mp hframe
  obtain ⟨t, hnext, hchanged⟩ := (any_eq_true _ _).mp hreport
  have hown := (hall _ s hrun).report 0 true frame t hframe hnext
  have hlive := hown.changed 0 (Or.inl (of_decide_eq_true hchanged))
  have hfirst := hlive.2
  rw [hident, hzero] at hfirst
  exact absurd hfirst (by decide)

end Sixp

end ContikiMaster.Sixtop
