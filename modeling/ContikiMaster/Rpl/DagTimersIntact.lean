import ContikiMaster.Rpl.DagTimers

/-!
# When a join or a global repair keeps the timer lists

After the instance was cleared the lists end at the first timer of the DAG. The calls that follow
keep what is left, as long as the first timer of the DAG on the list of event timers is stopped
before it is set. If it is set first, `update_time` does not come back.
-/

namespace ContikiMaster.Rpl

open Lib Sys Function List Option

variable {M F : Type} [DecidableEq M] {handle : DagTimer → F} {s s' : LinkedTimers (RplTimer M) F}
  {E C E' C' E₀ C₀ : List (RplTimer M)} {other : M → Ctimer F} {stale : Option DagTimer}
  {timer : DagTimer} {draw : Draw} {draws : ℕ → Draw} {calls : List TimerCall} {call : TimerCall}
  {event : DioEvent} {fuel : ℕ}

/-- The lists while the calls are made: the timers of other modules are those that the lists had
and are as they were, and the running timers of the DAG are on both lists. At most one timer of
the DAG is on the list of event timers without running. -/
structure Progress (other : M → Ctimer F) (E₀ C₀ : List (RplTimer M)) (stale : Option DagTimer)
    (s : LinkedTimers (RplTimer M) F) (E C : List (RplTimer M)) : Prop where
  holds : s.Holds E C
  others : ∀ m, s.ctimer (.other m) = other m
  events : ∀ m, .other m ∈ E ↔ .other m ∈ E₀
  callbacks : ∀ m, .other m ∈ C ↔ .other m ∈ C₀
  running : ∀ timer, (s.ctimer (.dag timer)).p = true → .dag timer ∈ E ∧ .dag timer ∈ C
  listed : ∀ timer, .dag timer ∈ E → (s.ctimer (.dag timer)).p = true ∨ stale = some timer
  stopped : ∀ timer, stale = some timer → .dag timer ∈ E ∧ (s.ctimer (.dag timer)).p = false

omit [DecidableEq M] in
theorem other_ne_dag {m : M} : (RplTimer.other m : RplTimer M) ≠ .dag timer := nofun

namespace Progress

/-- What a call that returns leads to. -/
def Continues (other : M → Ctimer F) (E₀ C₀ : List (RplTimer M)) (stale : Option DagTimer)
    (call : ℕ → Option (LinkedTimers (RplTimer M) F)) : Prop :=
  ∃ s' E' C', Returns call s' ∧ Progress other E₀ C₀ stale s' E' C'

theorem set (hs : Progress other E₀ C₀ stale s E C) (hne : stale ≠ some timer) (f : Option F) :
    Continues other E₀ C₀ stale (s.ctimerSet (.dag timer) draw.clockTime draw.delay f) := by
  have hc : (s.ctimer (.dag timer)).p = true ∨ .dag timer ∉ E := by
    by_cases hmem : .dag timer ∈ E
    · exact Or.inl ((hs.listed timer hmem).resolve_right hne)
    · exact Or.inr hmem
  obtain ⟨s', hreturns, hholds, hctimer⟩ :=
    LinkedTimers.ctimerSet_leaves draw.clockTime draw.delay f hs.holds hc
  have hmemE : ∀ t, t ∈ (if .dag timer ∈ E then E else .dag timer :: E) ↔ t = .dag timer ∨ t ∈ E := by
    intro t
    by_cases hmem : .dag timer ∈ E
    · rw [if_pos hmem]
      exact ⟨Or.inr, fun hor ↦ hor.elim (fun heq ↦ heq ▸ hmem) id⟩
    · rw [if_neg hmem, mem_cons]
  have hmemC : ∀ t, t ∈ C.erase (.dag timer) ++ [.dag timer] ↔ t = .dag timer ∨ t ∈ C := by
    intro t
    rw [mem_append, mem_singleton, hs.holds.callbacks.nodup.mem_erase_iff]
    tauto
  refine ⟨s', _, _, hreturns, hholds, fun m ↦ ?_, fun m ↦ ?_, fun m ↦ ?_, fun t ht ↦ ?_,
    fun t ht ↦ ?_, fun t ht ↦ ?_⟩
  · rw [hctimer, update_of_ne other_ne_dag, hs.others m]
  · rw [hmemE, ← hs.events m, or_iff_right other_ne_dag]
  · rw [hmemC, ← hs.callbacks m, or_iff_right other_ne_dag]
  · rw [hmemE, hmemC]
    by_cases heq : t = timer
    · rw [heq]
      exact ⟨Or.inl rfl, Or.inl rfl⟩
    · rw [hctimer, update_of_ne fun hdag ↦ heq (RplTimer.dag.inj hdag)] at ht
      exact ⟨Or.inr (hs.running t ht).1, Or.inr (hs.running t ht).2⟩
  · by_cases heq : t = timer
    · rw [heq, hctimer, update_self]
      exact Or.inl rfl
    · rw [hmemE, or_iff_right fun hdag ↦ heq (RplTimer.dag.inj hdag)] at ht
      rw [hctimer, update_of_ne fun hdag ↦ heq (RplTimer.dag.inj hdag)]
      exact hs.listed t ht
  · have hnet : t ≠ timer := fun heq ↦ hne (heq ▸ ht)
    rw [hmemE, hctimer, update_of_ne fun hdag ↦ hnet (RplTimer.dag.inj hdag)]
    exact ⟨Or.inr (hs.stopped t ht).1, (hs.stopped t ht).2⟩

variable (timer) in
/-- A timer is stopped. -/
theorem stop (hs : Progress other E₀ C₀ stale s E C) :
    Continues other E₀ C₀ (if stale = some timer then none else stale)
      (s.ctimerStop (.dag timer)) := by
  obtain ⟨s', hreturns, hholds, hctimer⟩ := LinkedTimers.ctimerStop_leaves (c := .dag timer) hs.holds
  have hne : ∀ t, t ≠ timer → RplTimer.dag t ≠ (.dag timer : RplTimer M) := fun t hnet hdag ↦
    hnet (RplTimer.dag.inj hdag)
  refine ⟨s', _, _, hreturns, hholds, fun m ↦ ?_, fun m ↦ ?_, fun m ↦ ?_, fun t ht ↦ ?_,
    fun t ht ↦ ?_, fun t ht ↦ ?_⟩
  · rw [hctimer, update_of_ne other_ne_dag, hs.others m]
  · rw [mem_erase_of_ne other_ne_dag, hs.events m]
  · rw [mem_erase_of_ne other_ne_dag, hs.callbacks m]
  · by_cases heq : t = timer
    · rw [heq, hctimer, update_self] at ht
      cases ht
    · rw [hctimer, update_of_ne (hne t heq)] at ht
      rw [mem_erase_of_ne (hne t heq), mem_erase_of_ne (hne t heq)]
      exact hs.running t ht
  · rw [hs.holds.events.nodup.mem_erase_iff] at ht
    have hnet : t ≠ timer := fun heq ↦ ht.1 (congrArg RplTimer.dag heq)
    rw [hctimer, update_of_ne ht.1]
    refine (hs.listed t ht.2).imp_right fun hstale ↦ ?_
    rw [if_neg, hstale]
    rw [hstale]
    exact fun heq ↦ hnet (some.inj heq)
  · by_cases hstale : stale = some timer
    · rw [if_pos hstale] at ht
      cases ht
    · rw [if_neg hstale] at ht
      have hnet : t ≠ timer := fun heq ↦ hstale (heq ▸ ht)
      rw [mem_erase_of_ne (hne t hnet), hctimer, update_of_ne (hne t hnet)]
      exact hs.stopped t ht

end Progress

/-- What a call does to the stale timer first. -/
def touchStale (stale : Option DagTimer) (call : TimerCall) : Option Bool :=
  stale.bind fun timer ↦ call.touch timer

theorem touchStale_of_touch {b : Bool}
    (hcall : ∀ t, call.touch t = if timer = t then some b else none) :
    touchStale stale call = if stale = some timer then some b else none := by
  cases stale with
  | none => rfl
  | some t => simp [touchStale, hcall, eq_comm]

theorem touchStale_stopUnlessExpired : touchStale stale (.stopUnlessExpired timer) = none := by
  cases stale with
  | none => rfl
  | some t => rfl

theorem setsFirst_cons : setsFirst (call :: calls) timer ↔
      call.touch timer = some true ∨ call.touch timer = none ∧ setsFirst calls timer := by
  rw [setsFirst, findSome?_cons]
  cases htouch : call.touch timer with
  | none => simp [setsFirst]
  | some sets => simp

namespace Progress

variable (handle draw) in
/-- A call that does not set the stale timer is made; the one that stops it leaves none. -/
theorem perform (hs : Progress other E₀ C₀ stale s E C) (htouch : touchStale stale call ≠ some true) :
    Continues other E₀ C₀ (if touchStale stale call = some false then none else stale)
      (fun fuel ↦ call.perform handle draw s fuel) := by
  cases call with
  | set timer =>
    rw [touchStale_of_touch fun _ ↦ rfl] at htouch ⊢
    have hne : stale ≠ some timer := fun heq ↦ htouch (if_pos heq)
    rw [if_neg hne, if_neg nofun]
    exact hs.set hne _
  | setIfExpired timer =>
    rw [touchStale_of_touch fun _ ↦ rfl] at htouch ⊢
    have hne : stale ≠ some timer := fun heq ↦ htouch (if_pos heq)
    rw [if_neg hne, if_neg nofun]
    simp only [TimerCall.perform]
    by_cases hexpired : s.ctimerExpired (.dag timer) = true
    · simp only [if_pos hexpired]
      exact hs.set hne _
    · simp only [if_neg hexpired]
      exact ⟨s, E, C, returns_some s, hs⟩
  | stop timer =>
    have hstop := hs.stop timer
    rw [touchStale_of_touch fun _ ↦ rfl]
    by_cases hstale : stale = some timer
    · rw [if_pos hstale] at hstop
      rw [if_pos hstale, if_pos rfl]
      exact hstop
    · rw [if_neg hstale] at hstop
      rw [if_neg hstale, if_neg nofun]
      exact hstop
  | stopUnlessExpired timer =>
    rw [touchStale_stopUnlessExpired, if_neg nofun]
    simp only [TimerCall.perform]
    by_cases hexpired : s.ctimerExpired (.dag timer) = true
    · simp only [if_pos hexpired]
      exact ⟨s, E, C, returns_some s, hs⟩
    · simp only [if_neg hexpired]
      have hne : stale ≠ some timer := by
        intro hstale
        rw [LinkedTimers.ctimerExpired, (hs.stopped timer hstale).2] at hexpired
        exact hexpired rfl
      have hstop := hs.stop timer
      rwa [if_neg hne] at hstop

theorem perform_eq_none (hs : Progress other E₀ C₀ stale s E C)
    (htouch : touchStale stale call = some true) (fuel : ℕ) :
    call.perform handle draw s fuel = none := by
  have hset : ∀ timer, stale = some timer → ∀ f : Option F,
      s.ctimerSet (.dag timer) draw.clockTime draw.delay f fuel = none := fun timer hstale f ↦
    LinkedTimers.ctimerSet_eq_none hs.holds (hs.stopped timer hstale).2 (hs.stopped timer hstale).1
      fuel
  cases call with
  | set timer =>
    rw [touchStale_of_touch fun _ ↦ rfl] at htouch
    exact hset timer (by_contra fun hne ↦ by simp [hne] at htouch) _
  | setIfExpired timer =>
    rw [touchStale_of_touch fun _ ↦ rfl] at htouch
    have hstale : stale = some timer := by_contra fun hne ↦ by simp [hne] at htouch
    have hexpired : s.ctimerExpired (.dag timer) = true := by
      rw [LinkedTimers.ctimerExpired, (hs.stopped timer hstale).2]
      rfl
    rw [TimerCall.perform, if_pos hexpired]
    exact hset timer hstale _
  | stop timer =>
    rw [touchStale_of_touch fun _ ↦ rfl] at htouch
    split at htouch <;> cases htouch
  | stopUnlessExpired timer =>
    rw [touchStale_stopUnlessExpired] at htouch
    cases htouch

variable (handle draws) in
/-- Calls that do not set the stale timer first are made. -/
theorem performAll (hs : Progress other E₀ C₀ stale s E C)
    (htouch : ∀ timer, stale = some timer → ¬ setsFirst calls timer) :
    ∃ stale', Continues other E₀ C₀ stale' (Rpl.performAll handle calls draws s) := by
  induction calls generalizing s E C stale draws with
  | nil => exact ⟨stale, s, E, C, returns_some s, hs⟩
  | cons call calls ih =>
    have hfirst : touchStale stale call ≠ some true := by
      intro hset
      obtain ⟨timer, hstale, htimer⟩ := bind_eq_some_iff.mp hset
      exact htouch timer hstale (setsFirst_cons.mpr (Or.inl htimer))
    obtain ⟨s', E', C', hreturns, hs'⟩ := hs.perform handle (draws 0) hfirst
    have hrest : ∀ timer, (if touchStale stale call = some false then none else stale) = some timer →
        ¬ setsFirst calls timer := by
      intro timer hstale hcalls
      by_cases hstop : touchStale stale call = some false
      · rw [if_pos hstop] at hstale
        cases hstale
      · rw [if_neg hstop] at hstale
        refine htouch timer hstale (setsFirst_cons.mpr (Or.inr ⟨?_, hcalls⟩))
        rw [hstale] at hfirst hstop
        cases hcall : call.touch timer with
        | none => rfl
        | some sets =>
          cases sets with
          | true => exact absurd hcall hfirst
          | false => exact absurd hcall hstop
    obtain ⟨stale', s'', E'', C'', hreturns', hs''⟩ := ih (fun i ↦ draws (i + 1)) hs' hrest
    exact ⟨stale', s'', E'', C'', hreturns.bind hreturns', hs''⟩

variable (draws) in
/-- Calls that set the stale timer first do not end. -/
theorem not_returns_performAll (hs : Progress other E₀ C₀ (some timer) s E C)
    (hsets : setsFirst calls timer) : ¬ Returns (Rpl.performAll handle calls draws s) s' := by
  induction calls generalizing s E C draws with
  | nil => cases hsets
  | cons call calls ih =>
    rcases setsFirst_cons.mp hsets with hset | ⟨hnone, hrest⟩
    · exact not_returns_bind fun fuel ↦ hs.perform_eq_none hset fuel
    · have hcall : touchStale (some timer) call = none := hnone
      obtain ⟨t, E', C', hreturns, ht⟩ := hs.perform handle (draws 0)
        (hcall.trans_ne nofun)
      rw [hcall, if_neg nofun] at ht
      intro hall
      exact ih (fun i ↦ draws (i + 1)) ht hrest (hreturns.bind_iff.mp hall)

end Progress

/-- The lists are as the claim of `init_dag`'s callers has it: they end, the timers of other modules
are on the lists they were on and as they were, and a pending timer of the DAG is on both lists
once. -/
structure Intact (s s' : LinkedTimers (RplTimer M) F) (E C E' C' : List (RplTimer M)) : Prop where
  holds : s'.Holds E' C'
  same : ∀ m, s'.ctimer (.other m) = s.ctimer (.other m)
  events : ∀ m, .other m ∈ E → .other m ∈ E'
  callbacks : ∀ m, .other m ∈ C → .other m ∈ C'
  pending : ∀ timer, (s'.ctimer (.dag timer)).p = true →
    E'.count (.dag timer) = 1 ∧ C'.count (.dag timer) = 1

/-- The processing of the DIO comes to its end and leaves the lists intact. -/
def KeepsLists (handle : DagTimer → F) (event : DioEvent) (draws : ℕ → Draw)
    (s : LinkedTimers (RplTimer M) F) (E C : List (RplTimer M)) : Prop :=
  ∃ s' E' C', Returns (rplProcessDio handle event draws s) s' ∧ Intact s s' E C E' C'

/-- From the first timer of the DAG on, a list has only timers of the DAG. -/
def NoneBehind (l : List (RplTimer M)) : Prop :=
  ∀ timer ∈ l.dropWhile fun timer ↦ !timer.isDag, timer.isDag = true

instance (l : List (RplTimer M)) : Decidable (NoneBehind l) :=
  inferInstanceAs (Decidable (∀ timer ∈ l.dropWhile fun timer ↦ !timer.isDag, timer.isDag = true))

/-- The timer of the DAG at which a list is cut. -/
def staleTimer (l : List (RplTimer M)) : Option DagTimer :=
  (l.find? RplTimer.isDag).bind fun timer ↦
    match timer with
    | .dag timer => some timer
    | .other _ => none

omit [DecidableEq M] in
theorem staleTimer_eq_some_iff {l : List (RplTimer M)} :
    staleTimer l = some timer ↔ .dag timer ∈ upTo RplTimer.isDag l := by
  rw [mem_upTo_iff_find rfl, staleTimer]
  cases hfind : l.find? RplTimer.isDag with
  | none => simp
  | some t =>
    cases t with
    | dag t => simp
    | other m => simp

omit [DecidableEq M] in
/-- After the `memset` of `init_dag` the lists are cut, and the timers of the DAG do not run. -/
theorem initDagTimers_progress (hs : s.Holds E C) :
    Progress (fun m ↦ s.ctimer (.other m)) (upTo RplTimer.isDag E) (upTo RplTimer.isDag C)
      (staleTimer E) (initDagTimers s) (upTo RplTimer.isDag E) (upTo RplTimer.isDag C) where
  holds :=
    { events := Rest.upTo hs.events (fun _ hdag ↦ if_pos hdag) fun _ hother ↦
        if_neg (Bool.eq_false_iff.mp hother)
      callbacks := Rest.upTo hs.callbacks (fun _ hdag ↦ if_pos hdag) fun _ hother ↦
        if_neg (Bool.eq_false_iff.mp hother) }
  others _ := rfl
  events _ := Iff.rfl
  callbacks _ := Iff.rfl
  running _ hp := by cases hp
  listed _ hmem := Or.inr (staleTimer_eq_some_iff.mpr hmem)
  stopped _ hstale := ⟨staleTimer_eq_some_iff.mp hstale, rfl⟩

omit [DecidableEq M] in
theorem staleTimer_eq_some_iff_find :
    staleTimer E = some timer ↔ E.find? RplTimer.isDag = some (.dag timer) :=
  staleTimer_eq_some_iff.trans (mem_upTo_iff_find rfl)

/-- The first timer of the DAG on the list of event timers is not set before it was stopped. -/
def StaleStopped (event : DioEvent) (E : List (RplTimer M)) : Prop :=
  ∀ timer, E.find? RplTimer.isDag = some (.dag timer) → ¬ event.Rearms timer

theorem KeepsLists.conditions (hs : s.Holds E C) (hkeeps : KeepsLists handle event draws s E C) :
    NoneBehind E ∧ NoneBehind C ∧ StaleStopped event E := by
  obtain ⟨s', E', C', hreturns, hintact⟩ := hkeeps
  have hstart := initDagTimers_progress hs
  have hrearms : ∀ timer, staleTimer E = some timer → ¬ setsFirst event.calls timer := by
    intro timer htimer hsets
    rw [htimer] at hstart
    exact hstart.not_returns_performAll draws hsets hreturns
  obtain ⟨_, s'', E'', C'', hreturns', hend⟩ := hstart.performAll handle draws hrearms
  obtain rfl := hreturns.unique hreturns'
  obtain rfl := hintact.holds.events.unique hend.holds.events
  obtain rfl := hintact.holds.callbacks.unique hend.holds.callbacks
  refine ⟨(forall_mem_upTo_iff hs.events.nodup).mp fun t ht hother ↦ ?_,
    (forall_mem_upTo_iff hs.callbacks.nodup).mp fun t ht hother ↦ ?_, fun timer htimer hrearm ↦ ?_⟩
  · cases t with
    | dag t => cases hother
    | other m => exact (hend.events m).mp (hintact.events m ht)
  · cases t with
    | dag t => cases hother
    | other m => exact (hend.callbacks m).mp (hintact.callbacks m ht)
  · exact hrearms timer (staleTimer_eq_some_iff_find.mpr htimer)
      ((setsFirst_iff event timer).mpr hrearm)

theorem keepsLists_of_noneBehind (hs : s.Holds E C) (hE : NoneBehind E) (hC : NoneBehind C)
    (hstopped : StaleStopped event E) : KeepsLists handle event draws s E C := by
  obtain ⟨_, s', E', C', hreturns, hend⟩ :=
    (initDagTimers_progress hs).performAll handle draws
      fun timer htimer hsets ↦ hstopped timer (staleTimer_eq_some_iff_find.mp htimer)
        ((setsFirst_iff event timer).mp hsets)
  refine ⟨s', E', C', hreturns, hend.holds, hend.others, fun m hm ↦ ?_, fun m hm ↦ ?_,
    fun timer hp ↦ ?_⟩
  · exact (hend.events m).mpr ((forall_mem_upTo_iff hs.events.nodup).mpr hE _ hm rfl)
  · exact (hend.callbacks m).mpr ((forall_mem_upTo_iff hs.callbacks.nodup).mpr hC _ hm rfl)
  · exact ⟨count_eq_one_of_mem hend.holds.events.nodup (hend.running timer hp).1,
      count_eq_one_of_mem hend.holds.callbacks.nodup (hend.running timer hp).2⟩

/-- The lists stay intact exactly when no timer of another module is behind the first timer of the
DAG on a list, and the first one of the event timers is not set before it was stopped. -/
theorem keepsLists_iff (handle : DagTimer → F) (event : DioEvent) (draws : ℕ → Draw)
    (s : LinkedTimers (RplTimer M) F) (E C : List (RplTimer M)) (hs : s.Holds E C) :
    KeepsLists handle event draws s E C ↔ NoneBehind E ∧ NoneBehind C ∧ StaleStopped event E :=
  ⟨KeepsLists.conditions hs, fun ⟨hE, hC, hstopped⟩ ↦ keepsLists_of_noneBehind hs hE hC hstopped⟩

/-- An event timer of another module, set after the callback timer for a DAO. -/
def behindEventTimer : LinkedTimers (RplTimer Unit) Unit where
  ctimer := fun _ ↦ ⟨0, 1, true, some ()⟩
  timerlist := ⟨some (.other ()), fun t ↦ if t = .other () then some (.dag .daoTimer) else none⟩
  ctimerList := ⟨some (.dag .daoTimer), fun _ ↦ none⟩

theorem behindEventTimer_holds :
    behindEventTimer.Holds [.other (), .dag .daoTimer] [.dag .daoTimer] where
  events := by
    unfold LinkChain.Lists
    exact ⟨rfl, rfl, rfl⟩
  callbacks := by
    unfold LinkChain.Lists
    exact ⟨rfl, rfl⟩

theorem keepsLists_behindEventTimer :
    KeepsLists (fun _ ↦ ()) (.globalRepair true 1 2 ⟨none, false⟩) (fun _ ↦ ⟨0, 0⟩)
      behindEventTimer [.other (), .dag .daoTimer] [.dag .daoTimer] :=
  (keepsLists_iff _ _ _ _ _ _ behindEventTimer_holds).mpr ⟨by decide, by decide, by
    intro timer hfind
    obtain rfl := RplTimer.dag.inj (some.inj hfind)
    simp [DioEvent.Rearms, Candidates.selected, Candidates.probed]⟩

/-- The probing timer was set after the timer of another module, so it is in front of it. -/
def probingInFront : LinkedTimers (RplTimer Unit) Unit where
  ctimer := fun _ ↦ ⟨0, 1, true, some ()⟩
  timerlist :=
    ⟨some (.dag .probingTimer), fun t ↦ if t = .dag .probingTimer then some (.other ()) else none⟩
  ctimerList :=
    ⟨some (.other ()), fun t ↦ if t = .other () then some (.dag .probingTimer) else none⟩

theorem probingInFront_holds :
    probingInFront.Holds [.dag .probingTimer, .other ()] [.other (), .dag .probingTimer] where
  events := by
    unfold LinkChain.Lists
    exact ⟨rfl, rfl, rfl⟩
  callbacks := by
    unfold LinkChain.Lists
    exact ⟨rfl, rfl, rfl⟩

/-- A global repair then takes the timer of the other module off the list of event timers. -/
theorem not_keepsLists_probingInFront :
    ¬ KeepsLists (fun _ ↦ ()) (.globalRepair true 1 1 ⟨none, false⟩) (fun _ ↦ ⟨0, 0⟩)
      probingInFront [.dag .probingTimer, .other ()] [.other (), .dag .probingTimer] := by
  intro hkeeps
  have hbehind := (hkeeps.conditions probingInFront_holds).1
  exact absurd (hbehind (.other ()) (by decide)) (by decide)

end ContikiMaster.Rpl
