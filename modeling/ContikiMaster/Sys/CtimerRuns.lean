import ContikiMaster.Sys.Ctimer
import Mathlib

/-!
# Runs of the callback timers

In every run in which no timer is armed while its event is in the queue, a reset follows an
expiry, and the clock does not lap a timer before the event timer process looks at it,
every arming that is not stopped or replaced leads to one call of its callback, and never
too early.
-/

namespace ContikiMaster.Sys

open Lib Function List Option

variable {T F : Type} {modulus numEvents : ℕ}

/-- The callback of an arming is to be called. -/
def Arming.Open (a : Arming T F) : Prop :=
  a.f.isSome = true ∧ a.cancelled = false ∧ a.invocations = []

/-- Every call of a callback belongs to the last arming of its timer and does not come before its
expiry; an arming that was cancelled has none, and one that was not has exactly one once the event
timer process could post all events and they are delivered. -/
structure FiresOnce (s : Timers T F) : Prop where
  once : ∀ a ∈ s.history.armings, a.invocations.length ≤ 1
  notEarly : ∀ a ∈ s.history.armings, ∀ call ∈ a.invocations,
    a.expiry ≤ call.1 ∧ a.f = some call.2
  cancelled : ∀ a ∈ s.history.armings, a.cancelled = true → a.invocations = []
  armed : s.history.stray = []
  fires : ∀ (i : ℕ) (a : Arming T F), s.history.armings[i]? = some a → i < s.history.checked →
    a.expiry ≤ s.history.checkedAt → some a.timer ∉ s.queue → ¬ a.Open

namespace TimerHistory

variable {h : TimerHistory T F} {c : T}

theorem length_cancel (h : TimerHistory T F) (c : T) :
    (h.cancel c).armings.length = h.armings.length := by
  unfold TimerHistory.cancel
  split
  · rfl
  · exact length_modify _ _ _

theorem cancel_frame (h : TimerHistory T F) (c : T) : (h.cancel c).armedAt = h.armedAt ∧
    (h.cancel c).latest = h.latest ∧ (h.cancel c).stray = h.stray ∧
      (h.cancel c).checked = h.checked ∧ (h.cancel c).checkedAt = h.checkedAt := by
  unfold TimerHistory.cancel
  split <;> exact ⟨rfl, rfl, rfl, rfl, rfl⟩

variable {i : ℕ} {a' : Arming T F}

theorem getElem?_cancel (ha' : (h.cancel c).armings[i]? = some a') :
    ∃ a, h.armings[i]? = some a ∧ (h.latest c ≠ some i ∧ a' = a ∨ h.latest c = some i ∧
      a' = { a with cancelled := a.cancelled || a.invocations.isEmpty }) := by
  unfold TimerHistory.cancel at ha'
  split at ha'
  · rename_i hnone
    exact ⟨a', ha', Or.inl ⟨by rw [hnone]; simp, rfl⟩⟩
  · rename_i j hj
    rw [getElem?_modify] at ha'
    obtain ⟨a, ha, hsame⟩ := map_eq_some_iff.mp ha'
    refine ⟨a, ha, ?_⟩
    by_cases hji : j = i
    · rw [if_pos hji] at hsame
      exact Or.inr ⟨by rw [hj, hji], hsame.symm⟩
    · rw [if_neg hji] at hsame
      refine Or.inl ⟨?_, hsame.symm⟩
      rw [hj]
      simpa using hji

theorem getElem?_cancel_of_ne (hne : h.latest c ≠ some i) :
    (h.cancel c).armings[i]? = h.armings[i]? := by
  unfold TimerHistory.cancel
  split
  · rfl
  · rename_i j hj
    have hji : j ≠ i := fun heq ↦ hne (by rw [hj, heq])
    rw [getElem?_modify_ne _ _ hji]

theorem exists_cancel {a : Arming T F} (ha : h.armings[i]? = some a) :
    ∃ a', (h.cancel c).armings[i]? = some a' ∧ a'.timer = a.timer := by
  have hlt : i < (h.cancel c).armings.length := by
    rw [length_cancel]
    exact (List.getElem?_eq_some_iff.mp ha).1
  have ha' := getElem?_eq_getElem hlt
  obtain ⟨b, hb, hcases⟩ := getElem?_cancel ha'
  obtain rfl := some.inj (ha.symm.trans hb)
  refine ⟨_, ha', ?_⟩
  rcases hcases with ⟨-, heq⟩ | ⟨-, heq⟩ <;> rw [heq]

theorem open_of_cancel (hopened : ∀ (i : ℕ) (a : Arming T F), h.armings[i]? = some a → a.Open →
      h.latest a.timer = some i) (ha' : (h.cancel c).armings[i]? = some a') (hopen : a'.Open) :
    h.armings[i]? = some a' ∧ a'.timer ≠ c := by
  obtain ⟨a, ha, ⟨hother, rfl⟩ | ⟨hlast, rfl⟩⟩ := getElem?_cancel ha'
  · refine ⟨ha, ?_⟩
    rintro rfl
    exact hother (hopened i a' ha hopen)
  · obtain ⟨-, hcancelled, hinvocations⟩ := hopen
    change a.invocations = [] at hinvocations
    change (a.cancelled || a.invocations.isEmpty) = false at hcancelled
    rw [hinvocations] at hcancelled
    simp at hcancelled

theorem each_cancel (heach : ∀ a ∈ h.armings, a.invocations.length ≤ 1 ∧
      (∀ call ∈ a.invocations, a.expiry ≤ call.1 ∧ a.f = some call.2) ∧
      (a.cancelled = true → a.invocations = [])) :
    ∀ a ∈ (h.cancel c).armings, a.invocations.length ≤ 1 ∧
      (∀ call ∈ a.invocations, a.expiry ≤ call.1 ∧ a.f = some call.2) ∧
      (a.cancelled = true → a.invocations = []) := by
  intro a' ha'
  obtain ⟨i, hi⟩ := mem_iff_getElem?.mp ha'
  obtain ⟨a, ha, ⟨-, rfl⟩ | ⟨-, rfl⟩⟩ := getElem?_cancel hi
  · exact heach a' (mem_of_getElem? ha)
  · obtain ⟨honce, hcalls, hcancelled⟩ := heach a (mem_of_getElem? ha)
    refine ⟨honce, hcalls, fun hflag ↦ ?_⟩
    change (a.cancelled || a.invocations.isEmpty) = true at hflag
    rcases Bool.or_eq_true_iff.mp hflag with hold | hempty
    · exact hcancelled hold
    · exact isEmpty_iff.mp hempty

end TimerHistory

variable {s t : Timers T F} {c : T}

/-- What the walk of the process leaves as it is, and that it does not take a request back. -/
structure Walked (s t : Timers T F) : Prop where
  now : t.now = s.now
  history : t.history = s.history
  timer : ∀ c, (t.ctimer c).start = (s.ctimer c).start ∧
    (t.ctimer c).interval = (s.ctimer c).interval
  timerlist : t.timerlist ⊆ s.timerlist
  requested : s.pollRequested = true → t.pollRequested = true

theorem Walked.refl (s : Timers T F) : Walked s s :=
  ⟨rfl, rfl, fun _ ↦ ⟨rfl, rfl⟩, List.Subset.refl _, id⟩

theorem Walked.trans {u : Timers T F} (hfirst : Walked s t) (hsecond : Walked t u) : Walked s u where
  now := hsecond.now.trans hfirst.now
  history := hsecond.history.trans hfirst.history
  timer c := ⟨(hsecond.timer c).1.trans (hfirst.timer c).1,
    (hsecond.timer c).2.trans (hfirst.timer c).2⟩
  timerlist := List.Subset.trans hsecond.timerlist hfirst.timerlist
  requested hs := hsecond.requested (hfirst.requested hs)

theorem Walked.timerExpired (hwalked : Walked s t) :
    t.timerExpired modulus c = s.timerExpired modulus c := by
  unfold Timers.timerExpired Timers.clockTime
  rw [hwalked.now, (hwalked.timer c).1, (hwalked.timer c).2]

/-! ### The invariant -/

variable [DecidableEq T]

/-- A timer is armed only when its event is not in the queue, and reset only when it has expired.
When the event timer process is run, no timer that is on its list was armed a whole round of the
clock before. -/
def Timely (modulus : ℕ) (s : Timers T F) : TimerAct T F → Prop
  | .set c _ _ => some c ∉ s.queue
  | .restart c => some c ∉ s.queue
  | .reset c => some c ∉ s.queue ∧ s.history.armedAt c + (s.ctimer c).interval ≤ s.now
  | .poll => ∀ c ∈ s.timerlist, s.now + 1 < s.history.armedAt c + modulus
  | _ => True

/-- What holds in every state that such steps lead to. -/
structure TimersSound (modulus : ℕ) (s : Timers T F) : Prop where
  nodup : s.timerlist.Nodup ∧ s.ctimerList.Nodup
  process : ∀ c, (s.ctimer c).p = true ↔ c ∈ s.timerlist
  sub : ∀ c ∈ s.timerlist, c ∈ s.ctimerList
  queued : ∀ c, some c ∈ s.queue → c ∉ s.timerlist
  single : ∀ c, s.queue.count (some c) ≤ 1
  waits : ∀ c ∈ s.ctimerList, c ∈ s.timerlist ∨ some c ∈ s.queue
  due : ∀ c ∈ s.ctimerList, some c ∈ s.queue →
    s.history.armedAt c + (s.ctimer c).interval ≤ s.now
  start : ∀ c, (s.ctimer c).start = s.history.armedAt c % modulus ∧
    s.history.armedAt c ≤ s.now ∧ (s.ctimer c).interval < modulus
  last : ∀ c i, s.history.latest c = some i →
    ∃ a, s.history.armings[i]? = some a ∧ a.timer = c
  armed : ∀ c ∈ s.ctimerList, ∃ i, s.history.latest c = some i ∧ s.history.armings[i]? =
    some ⟨c, (s.ctimer c).f, s.history.armedAt c + (s.ctimer c).interval, false, []⟩
  opened : ∀ (i : ℕ) (a : Arming T F), s.history.armings[i]? = some a → a.Open →
    s.history.latest a.timer = some i ∧ a.timer ∈ s.ctimerList
  each : ∀ a ∈ s.history.armings, a.invocations.length ≤ 1 ∧
    (∀ call ∈ a.invocations, a.expiry ≤ call.1 ∧ a.f = some call.2) ∧
    (a.cancelled = true → a.invocations = [])
  stray : s.history.stray = []
  checked : s.history.checked ≤ s.history.armings.length ∧
    ∀ (i : ℕ) (a : Arming T F), s.history.armings[i]? = some a → i < s.history.checked → a.Open →
      s.history.checkedAt < a.expiry ∨ some a.timer ∈ s.queue

namespace TimersSound

theorem init (hmodulus : 0 < modulus) : TimersSound modulus (Timers.init : Timers T F) := by
  constructor <;> simp [Timers.init, hmodulus]

theorem firesOnce (h : TimersSound modulus s) : FiresOnce s where
  once a ha := (h.each a ha).1
  notEarly a ha := (h.each a ha).2.1
  cancelled a ha := (h.each a ha).2.2
  armed := h.stray
  fires i a ha hi hexpiry hqueue hopen :=
    (h.checked.2 i a ha hi hopen).elim (fun hlt ↦ absurd hexpiry (Nat.not_le.mpr hlt)) hqueue

variable {timer : Ctimer F} {armedAt : ℕ} {rest : List (Option T)}

theorem arm_eq (s : Timers T F) (hp : timer.p = true ↔ c ∈ s.timerlist) :
    s.arm c timer armedAt = { s with
      ctimer := update s.ctimer c { timer with p := true }
      timerlist := if c ∈ s.timerlist then s.timerlist else c :: s.timerlist
      ctimerList := s.ctimerList.erase c ++ [c]
      pollRequested := true
      history := s.history.arm c timer.f armedAt (armedAt + timer.interval) } := by
  have hcond : (timer.p && decide (c ∈ s.timerlist)) = decide (c ∈ s.timerlist) := by
    by_cases hmem : c ∈ s.timerlist
    · rw [hp.mpr hmem, Bool.true_and]
    · rw [decide_eq_false hmem, Bool.and_false]
  unfold Timers.arm Timers.addTimer Timers.listAdd
  dsimp only
  simp only [update_self, update_idem, hcond, decide_eq_true_eq]

theorem arm (h : TimersSound modulus s) (hqueue : some c ∉ s.queue)
    (hp : timer.p = (s.ctimer c).p) (hstart : timer.start = armedAt % modulus)
    (hpast : armedAt ≤ s.now) (hinterval : timer.interval < modulus) :
    TimersSound modulus (s.arm c timer armedAt) := by
  rw [arm_eq s (by rw [hp]; exact h.process c)]
  have hlist : ∀ x, x ∈ (if c ∈ s.timerlist then s.timerlist else c :: s.timerlist) ↔
      x = c ∨ x ∈ s.timerlist := by
    intro x
    split
    · rename_i hmem
      exact ⟨Or.inr, fun hx ↦ hx.elim (fun heq ↦ heq ▸ hmem) id⟩
    · exact mem_cons
  have hcallbacks : ∀ x, x ∈ s.ctimerList.erase c ++ [c] ↔ x = c ∨ x ∈ s.ctimerList := by
    intro x
    rw [mem_append, mem_singleton, h.nodup.2.mem_erase_iff]
    tauto
  obtain ⟨harmedAt, hlatest, hstray, hchecked, hcheckedAt⟩ := TimerHistory.cancel_frame s.history c
  have hlength := TimerHistory.length_cancel s.history c
  have hnew : ∀ (i : ℕ) (a : Arming T F), (s.history.arm c timer.f armedAt
      (armedAt + timer.interval)).armings[i]? = some a → a.Open →
        i = s.history.armings.length ∧ a.timer = c ∨
          s.history.armings[i]? = some a ∧ a.timer ≠ c ∧ i < s.history.armings.length := by
    intro i a ha hopen
    change ((s.history.cancel c).armings ++ [_])[i]? = some a at ha
    rw [getElem?_append] at ha
    split at ha
    · rename_i hi
      obtain ⟨hold, hne⟩ := TimerHistory.open_of_cancel (fun i a ha hopen ↦ (h.opened i a ha hopen).1)
        ha hopen
      exact Or.inr ⟨hold, hne, by rw [← hlength]; exact hi⟩
    · rename_i hi
      have hlt := (List.getElem?_eq_some_iff.mp ha).1
      rw [length_singleton] at hlt
      have hzero : i - (s.history.cancel c).armings.length = 0 := by omega
      rw [hzero] at ha
      obtain rfl := some.inj ha
      exact Or.inl ⟨by omega, rfl⟩
  constructor
  · refine ⟨?_, ?_⟩
    · dsimp only
      split
      · exact h.nodup.1
      · rename_i hmem
        exact nodup_cons.mpr ⟨hmem, h.nodup.1⟩
    · refine nodup_append'.mpr ⟨h.nodup.2.erase c, nodup_singleton c, ?_⟩
      rintro x hx hxc
      rw [mem_singleton.mp hxc] at hx
      exact (h.nodup.2.mem_erase_iff.mp hx).1 rfl
  · intro x
    dsimp only
    rw [hlist]
    by_cases hxc : x = c
    · subst hxc
      simp
    · rw [update_of_ne hxc]
      simpa [hxc] using h.process x
  · intro x hx
    rw [hcallbacks]
    exact ((hlist x).mp hx).imp_right (h.sub x)
  · intro x hx hmem
    rcases (hlist x).mp hmem with rfl | hold
    · exact hqueue hx
    · exact h.queued x hx hold
  · exact h.single
  · intro x hx
    rw [hlist]
    rcases (hcallbacks x).mp hx with rfl | hold
    · exact Or.inl (Or.inl rfl)
    · exact (h.waits x hold).imp_left Or.inr
  · intro x hx hq
    have hxc : x ≠ c := by
      rintro rfl
      exact hqueue hq
    change update s.history.armedAt c armedAt x + (update s.ctimer c _ x).interval ≤ s.now
    rw [update_of_ne hxc, update_of_ne hxc]
    exact h.due x (((hcallbacks x).mp hx).resolve_left hxc) hq
  · intro x
    change (update s.ctimer c _ x).start =
      update s.history.armedAt c armedAt x % modulus ∧
        update s.history.armedAt c armedAt x ≤ s.now ∧ (update s.ctimer c _ x).interval < modulus
    by_cases hxc : x = c
    · subst hxc
      rw [update_self, update_self]
      exact ⟨hstart, hpast, hinterval⟩
    · rw [update_of_ne hxc, update_of_ne hxc]
      exact h.start x
  · intro x i hi
    change update s.history.latest c (some s.history.armings.length) x = some i at hi
    change ∃ a, ((s.history.cancel c).armings ++ [_])[i]? = some a ∧ a.timer = x
    by_cases hxc : x = c
    · subst hxc
      rw [update_self] at hi
      obtain rfl := some.inj hi
      refine ⟨⟨x, timer.f, armedAt + timer.interval, false, []⟩, ?_, rfl⟩
      rw [← hlength, getElem?_concat_length]
    · rw [update_of_ne hxc] at hi
      obtain ⟨a, ha, rfl⟩ := h.last x i hi
      obtain ⟨a', ha', htimer⟩ := TimerHistory.exists_cancel ha
      refine ⟨a', ?_, htimer⟩
      rw [List.getElem?_append_left (List.getElem?_eq_some_iff.mp ha').1]
      exact ha'
  · intro x hx
    dsimp only [TimerHistory.arm]
    by_cases hxc : x = c
    · subst hxc
      refine ⟨s.history.armings.length, update_self _ _ _, ?_⟩
      rw [← hlength, getElem?_concat_length, update_self, update_self]
    · obtain ⟨i, hi, ha⟩ := h.armed x (((hcallbacks x).mp hx).resolve_left hxc)
      refine ⟨i, by rw [update_of_ne hxc]; exact hi, ?_⟩
      have hother : s.history.latest c ≠ some i := by
        intro hlast
        obtain ⟨a, ha', htimer⟩ := h.last c i hlast
        obtain rfl := some.inj (ha.symm.trans ha')
        exact hxc htimer
      have hlt := (List.getElem?_eq_some_iff.mp ha).1
      rw [update_of_ne hxc, update_of_ne hxc,
        getElem?_append_left (by rw [hlength]; exact hlt),
        TimerHistory.getElem?_cancel_of_ne hother]
      exact ha
  · intro i a ha hopen
    change update s.history.latest c (some s.history.armings.length) a.timer = some i ∧ _
    rw [hcallbacks]
    rcases hnew i a ha hopen with ⟨rfl, heq⟩ | ⟨hold, hne, -⟩
    · rw [heq, update_self]
      exact ⟨rfl, Or.inl rfl⟩
    · rw [update_of_ne hne]
      exact (h.opened i a hold hopen).imp id Or.inr
  · intro a ha
    change a ∈ (s.history.cancel c).armings ++ [_] at ha
    rcases mem_append.mp ha with hold | hlast
    · exact TimerHistory.each_cancel h.each a hold
    · rw [mem_singleton.mp hlast]
      exact ⟨Nat.zero_le _, by simp, fun hflag ↦ rfl⟩
  · exact hstray.trans h.stray
  · change (s.history.cancel c).checked ≤ ((s.history.cancel c).armings ++ [_]).length ∧
      ∀ (i : ℕ) (a : Arming T F), _ → i < (s.history.cancel c).checked → a.Open →
        (s.history.cancel c).checkedAt < a.expiry ∨ _
    rw [hchecked, hcheckedAt, length_append, length_singleton, hlength]
    refine ⟨Nat.le_succ_of_le h.checked.1, fun i a ha hi hopen ↦ ?_⟩
    rcases hnew i a ha hopen with ⟨rfl, -⟩ | ⟨hold, -, -⟩
    · exact absurd hi (Nat.not_lt.mpr h.checked.1)
    · exact h.checked.2 i a hold hi hopen

/-- A timer that is taken off the list keeps all but the process. -/
theorem off_frame (s : Timers T F) (c x : T) :
    let ctimer := update s.ctimer c { s.ctimer c with p := false }
    (ctimer x).start = (s.ctimer x).start ∧ (ctimer x).interval = (s.ctimer x).interval ∧
      (ctimer x).f = (s.ctimer x).f := by
  by_cases hxc : x = c
  · subst hxc
    simp
  · simp [hxc]

theorem process_off (h : TimersSound modulus s) (c x : T) :
    (update s.ctimer c { s.ctimer c with p := false } x).p = true ↔ x ∈ s.timerlist.erase c := by
  rw [h.nodup.1.mem_erase_iff]
  by_cases hxc : x = c
  · subst hxc
    simp
  · rw [update_of_ne hxc]
    simpa [hxc] using h.process x

theorem stop (h : TimersSound modulus s) (c : T) : TimersSound modulus (s.ctimerStop c) := by
  obtain ⟨harmedAt, hlatest, hstray, hchecked, hcheckedAt⟩ := TimerHistory.cancel_frame s.history c
  have hlength := TimerHistory.length_cancel s.history c
  have hlist : ∀ x, x ∈ s.timerlist.erase c ↔ x ≠ c ∧ x ∈ s.timerlist := fun x ↦
    h.nodup.1.mem_erase_iff
  have hcallbacks : ∀ x, x ∈ s.ctimerList.erase c ↔ x ≠ c ∧ x ∈ s.ctimerList := fun x ↦
    h.nodup.2.mem_erase_iff
  have htimer := off_frame s c
  have hopened : ∀ (i : ℕ) (a : Arming T F), (s.history.cancel c).armings[i]? = some a → a.Open →
      s.history.armings[i]? = some a ∧ a.timer ≠ c := fun i a ha hopen ↦
    TimerHistory.open_of_cancel (fun i a ha hopen ↦ (h.opened i a ha hopen).1) ha hopen
  unfold Timers.ctimerStop Timers.etimerStop
  constructor
  · exact ⟨h.nodup.1.erase c, h.nodup.2.erase c⟩
  · exact h.process_off c
  · intro x hx
    obtain ⟨hne, hmem⟩ := (hlist x).mp hx
    exact (hcallbacks x).mpr ⟨hne, h.sub x hmem⟩
  · exact fun x hx hmem ↦ h.queued x hx ((hlist x).mp hmem).2
  · exact h.single
  · intro x hx
    obtain ⟨hne, hmem⟩ := (hcallbacks x).mp hx
    exact (h.waits x hmem).imp_left fun hold ↦ (hlist x).mpr ⟨hne, hold⟩
  · intro x hx hq
    dsimp only
    rw [harmedAt, (htimer x).2.1]
    exact h.due x ((hcallbacks x).mp hx).2 hq
  · intro x
    dsimp only
    rw [harmedAt, (htimer x).1, (htimer x).2.1]
    exact h.start x
  · intro x i hi
    dsimp only at hi ⊢
    rw [hlatest] at hi
    obtain ⟨a, ha, rfl⟩ := h.last x i hi
    exact TimerHistory.exists_cancel ha
  · intro x hx
    obtain ⟨hne, hmem⟩ := (hcallbacks x).mp hx
    obtain ⟨i, hi, ha⟩ := h.armed x hmem
    have hother : s.history.latest c ≠ some i := by
      intro hlast
      obtain ⟨a, ha', htimer⟩ := h.last c i hlast
      obtain rfl := some.inj (ha.symm.trans ha')
      exact hne htimer
    dsimp only
    rw [hlatest, harmedAt, (htimer x).2.1, (htimer x).2.2]
    exact ⟨i, hi, by rw [TimerHistory.getElem?_cancel_of_ne hother]; exact ha⟩
  · intro i a ha hopen
    obtain ⟨hold, hne⟩ := hopened i a ha hopen
    dsimp only
    rw [hlatest, hcallbacks]
    exact (h.opened i a hold hopen).imp id fun hmem ↦ ⟨hne, hmem⟩
  · exact TimerHistory.each_cancel h.each
  · exact hstray.trans h.stray
  · dsimp only
    rw [hchecked, hcheckedAt, hlength]
    exact ⟨h.checked.1, fun i a ha hi hopen ↦ h.checked.2 i a (hopened i a ha hopen).1 hi hopen⟩

/-! ### The event timer process -/

theorem elapsed {start now : ℕ} (hle : start ≤ now) :
    (now % modulus + modulus - start % modulus) % modulus = (now - start) % modulus := by
  rcases Nat.eq_zero_or_pos modulus with rfl | hpos
  · simp
  · obtain ⟨d, rfl⟩ := Nat.exists_eq_add_of_le hle
    rw [Nat.add_sub_cancel_left]
    have hlt := Nat.mod_lt start hpos
    have hadd : (start + d) % modulus = (start % modulus + d % modulus) % modulus := Nat.add_mod _ _ _
    have hd := Nat.mod_lt d hpos
    rw [hadd]
    by_cases hwraps : start % modulus + d % modulus < modulus
    · rw [Nat.mod_eq_of_lt hwraps]
      have heq : start % modulus + d % modulus + modulus - start % modulus =
          d % modulus + modulus := by omega
      rw [heq, Nat.add_mod_right, Nat.mod_mod]
    · have hsum : (start % modulus + d % modulus) % modulus =
          start % modulus + d % modulus - modulus := by
        rw [Nat.mod_eq_sub_mod (by omega), Nat.mod_eq_of_lt (by omega)]
      rw [hsum]
      have heq : start % modulus + d % modulus - modulus + modulus - start % modulus =
          d % modulus := by omega
      rw [heq, Nat.mod_mod]

theorem expiry_le (h : TimersSound modulus s) (hexpired : s.timerExpired modulus c = true) :
    s.history.armedAt c + (s.ctimer c).interval ≤ s.now := by
  obtain ⟨hstart, hpast, -⟩ := h.start c
  have hlt := of_decide_eq_true hexpired
  rw [Timers.clockTime, hstart, elapsed hpast] at hlt
  have hmod := Nat.mod_le ((s.now - s.history.armedAt c) % modulus + 1) modulus
  have hmod' := Nat.mod_le (s.now - s.history.armedAt c) modulus
  omega

theorem timerExpired_of_le (h : TimersSound modulus s)
    (hlap : s.now + 1 < s.history.armedAt c + modulus)
    (hexpiry : s.history.armedAt c + (s.ctimer c).interval ≤ s.now) :
    s.timerExpired modulus c = true := by
  obtain ⟨hstart, hpast, -⟩ := h.start c
  apply decide_eq_true
  rw [Timers.clockTime, hstart, elapsed hpast, Nat.mod_eq_of_lt (a := s.now - s.history.armedAt c)
    (by omega), Nat.mod_eq_of_lt (by omega)]
  omega

theorem visit (h : TimersSound modulus s) (hc : c ∈ s.timerlist) :
    TimersSound modulus (s.visitTimer modulus numEvents c) := by
  unfold Timers.visitTimer
  split
  · rename_i hexpired
    have hexpiry := h.expiry_le hexpired
    split
    · exact { h with }
    · have hfree : some c ∉ s.queue := fun hq ↦ h.queued c hq hc
      have hlist : ∀ x, x ∈ s.timerlist.erase c ↔ x ≠ c ∧ x ∈ s.timerlist := fun x ↦
        h.nodup.1.mem_erase_iff
      have hqueue : ∀ x, some x ∈ s.queue ++ [some c] ↔ some x ∈ s.queue ∨ x = c := by
        intro x
        simp
      have htimer := off_frame s c
      refine { h with
        nodup := ⟨h.nodup.1.erase c, h.nodup.2⟩, process := ?_, sub := ?_, queued := ?_
        single := ?_, waits := ?_, due := ?_, start := ?_, armed := ?_, checked := ?_ }
      · exact h.process_off c
      · exact fun x hx ↦ h.sub x ((hlist x).mp hx).2
      · intro x hx hmem
        obtain ⟨hne, hold⟩ := (hlist x).mp hmem
        exact h.queued x (((hqueue x).mp hx).resolve_right hne) hold
      · intro x
        dsimp only
        rw [count_append, count_singleton]
        by_cases hxc : x = c
        · subst hxc
          rw [count_eq_zero.mpr hfree]
          simp
        · simpa [Ne.symm hxc] using h.single x
      · intro x hx
        dsimp only
        rw [hlist, hqueue]
        by_cases hxc : x = c
        · exact Or.inr (Or.inr hxc)
        · exact (h.waits x hx).imp (fun hold ↦ ⟨hxc, hold⟩) Or.inl
      · intro x hx hq
        dsimp only
        rw [(htimer x).2.1]
        rcases (hqueue x).mp hq with hold | rfl
        · exact h.due x hx hold
        · exact hexpiry
      · intro x
        dsimp only
        rw [(htimer x).1, (htimer x).2.1]
        exact h.start x
      · intro x hx
        dsimp only
        rw [(htimer x).2.1, (htimer x).2.2]
        exact h.armed x hx
      · exact h.checked.imp id fun hchecked i a ha hi hopen ↦
          (hchecked i a ha hi hopen).imp_right fun hq ↦ (hqueue a.timer).mpr (Or.inl hq)
  · exact h

theorem visit_walked (s : Timers T F) (c : T) : Walked s (s.visitTimer modulus numEvents c) := by
  unfold Timers.visitTimer
  split
  · split
    · exact ⟨rfl, rfl, fun _ ↦ ⟨rfl, rfl⟩, List.Subset.refl _, fun _ ↦ rfl⟩
    · exact ⟨rfl, rfl, fun x ↦ ⟨(off_frame s c x).1, (off_frame s c x).2.1⟩, erase_subset, id⟩
  · exact Walked.refl s

theorem walk (numEvents : ℕ) {l : List T} (h : TimersSound modulus s) (hl : l.Nodup) (hsub : l ⊆ s.timerlist) :
    TimersSound modulus (l.foldl (Timers.visitTimer modulus numEvents) s) ∧
      Walked s (l.foldl (Timers.visitTimer modulus numEvents) s) ∧
      ((l.foldl (Timers.visitTimer modulus numEvents) s).pollRequested = false →
        ∀ c ∈ l, c ∈ (l.foldl (Timers.visitTimer modulus numEvents) s).timerlist →
          s.timerExpired modulus c = false) := by
  induction l generalizing s with
  | nil => exact ⟨h, Walked.refl s, fun _ c hc ↦ by cases hc⟩
  | cons c l ih =>
    obtain ⟨hc, hl'⟩ := nodup_cons.mp hl
    have hmem := hsub mem_cons_self
    have hvisit : TimersSound modulus (s.visitTimer modulus numEvents c) := h.visit hmem
    have hfirst : Walked s (s.visitTimer modulus numEvents c) := visit_walked s c
    have hsub' : l ⊆ (s.visitTimer modulus numEvents c).timerlist := by
      intro x hx
      have hxc : x ≠ c := ne_of_mem_of_not_mem hx hc
      have hold := hsub (mem_cons_of_mem c hx)
      unfold Timers.visitTimer
      split
      · split
        · exact hold
        · exact (mem_erase_of_ne hxc).mpr hold
      · exact hold
    obtain ⟨hsound, hwalked, hleft⟩ := ih hvisit hl' hsub'
    refine ⟨hsound, hfirst.trans hwalked, fun hrequested x hx hstays ↦ ?_⟩
    rcases mem_cons.mp hx with rfl | hx
    · by_contra hexpired
      rw [Bool.not_eq_false] at hexpired
      by_cases hfull : s.queue.length = numEvents
      · have heq : s.visitTimer modulus numEvents x = { s with pollRequested := true } := by
          unfold Timers.visitTimer
          rw [if_pos hexpired, if_pos hfull]
        have htrue := hwalked.requested (by rw [heq])
        exact absurd (htrue.symm.trans hrequested) (by decide)
      · have hgone : x ∉ (s.visitTimer modulus numEvents x).timerlist := by
          unfold Timers.visitTimer
          rw [if_pos hexpired, if_neg hfull]
          exact fun hmem ↦ (h.nodup.1.mem_erase_iff.mp hmem).1 rfl
        exact hgone (hwalked.timerlist hstays)
    · rw [← hfirst.timerExpired]
      exact hleft hrequested x hx hstays

theorem poll (h : TimersSound modulus s)
    (hlap : ∀ c ∈ s.timerlist, s.now + 1 < s.history.armedAt c + modulus) :
    TimersSound modulus (s.poll modulus numEvents) := by
  have hstart : TimersSound modulus { s with pollRequested := false } := { h with }
  obtain ⟨hsound, hwalked, hleft⟩ := hstart.walk numEvents h.nodup.1 (List.Subset.refl _)
  unfold Timers.poll Timers.walkTimers
  generalize s.timerlist.foldl (Timers.visitTimer modulus numEvents)
    { s with pollRequested := false } = t at *
  dsimp only
  split
  · exact hsound
  · rename_i hcomplete
    refine { hsound with checked := ⟨Nat.le_refl _, fun i a ha _ hopen ↦ ?_⟩ }
    dsimp only at ha ⊢
    obtain ⟨hlast, hmem⟩ := hsound.opened i a ha hopen
    refine (hsound.waits a.timer hmem).imp_left fun hstays ↦ ?_
    have hold := hwalked.timerlist hstays
    have hnot := hleft (by simpa using hcomplete) a.timer hold hstays
    obtain ⟨j, hj, ha'⟩ := hsound.armed a.timer hmem
    obtain rfl := some.inj (hlast.symm.trans hj)
    have hexpiry : a.expiry = t.history.armedAt a.timer + (t.ctimer a.timer).interval := by
      rw [some.inj (ha.symm.trans ha')]
    rw [hexpiry, hwalked.now, hwalked.history, (hwalked.timer a.timer).2]
    by_contra hle
    have hexpired := hstart.timerExpired_of_le (hlap a.timer hold) (Nat.not_lt.mp hle)
    rw [hnot] at hexpired
    cases hexpired

theorem dequeue {e : Option T} (h : TimersSound modulus s) (hqueue : s.queue = e :: rest)
    (hlist : ∀ c, e = some c → c ∉ s.ctimerList) :
    TimersSound modulus { s with queue := rest } := by
  have hmem : ∀ x, some x ∈ rest → some x ∈ s.queue := by
    intro x hx
    rw [hqueue]
    exact mem_cons_of_mem e hx
  have hkept : ∀ x ∈ s.ctimerList, some x ∈ s.queue → some x ∈ rest := by
    intro x hx hq
    rw [hqueue] at hq
    exact (mem_cons.mp hq).resolve_left fun heq ↦ hlist x heq.symm hx
  exact { h with
    queued := fun x hx ↦ h.queued x (hmem x hx)
    single := fun x ↦ by
      have hsingle := h.single x
      rw [hqueue] at hsingle
      exact Nat.le_trans count_le_count_cons hsingle
    waits := fun x hx ↦ (h.waits x hx).imp_right (hkept x hx)
    due := fun x hx hq ↦ h.due x hx (hmem x hq)
    checked := h.checked.imp id fun hchecked i a ha hi hopen ↦
      (hchecked i a ha hi hopen).imp_right (hkept a.timer (h.opened i a ha hopen).2) }

theorem expire (h : TimersSound modulus s) (hqueue : s.queue = some c :: rest)
    (hmem : c ∈ s.ctimerList) :
    TimersSound modulus { s with
      queue := rest
      ctimerList := s.ctimerList.erase c
      history := match (s.ctimer c).f with
        | none => s.history
        | some f => s.history.invoke c s.now f } := by
  obtain ⟨i, hlast, harming⟩ := h.armed c hmem
  have hin : some c ∈ s.queue := by
    rw [hqueue]
    exact mem_cons_self
  have hexpiry := h.due c hmem hin
  have hnot := h.queued c hin
  have hrest : ∀ x, x ≠ c → (some x ∈ rest ↔ some x ∈ s.queue) := by
    intro x hxc
    rw [hqueue, mem_cons]
    simp [hxc]
  have hsub : ∀ x, some x ∈ rest → some x ∈ s.queue := by
    intro x hx
    rw [hqueue]
    exact mem_cons_of_mem _ hx
  have hsingle : ∀ x, rest.count (some x) ≤ 1 := by
    intro x
    have hone := h.single x
    rw [hqueue] at hone
    exact Nat.le_trans count_le_count_cons hone
  have hlist : ∀ x, x ∈ s.ctimerList.erase c ↔ x ≠ c ∧ x ∈ s.ctimerList := fun x ↦
    h.nodup.2.mem_erase_iff
  have hindex : ∀ (x : T) (j : ℕ) (a : Arming T F), s.history.latest x = some j →
      s.history.armings[j]? = some a → a.timer = x → x ≠ c → j ≠ i := by
    rintro x j a - ha htimer hxc rfl
    obtain rfl := some.inj (ha.symm.trans harming)
    exact hxc htimer.symm
  -- the history without the callback, and with it
  have hframe : ∀ history : TimerHistory T F, history.armedAt = s.history.armedAt →
      history.latest = s.history.latest → history.stray = s.history.stray →
      history.checked = s.history.checked → history.checkedAt = s.history.checkedAt →
      history.armings.length = s.history.armings.length →
      (∀ j, j ≠ i → history.armings[j]? = s.history.armings[j]?) →
      (∃ a, history.armings[i]? = some a ∧ a.timer = c ∧ ¬ a.Open ∧ a.invocations.length ≤ 1 ∧
        (∀ call ∈ a.invocations, a.expiry ≤ call.1 ∧ a.f = some call.2) ∧
        (a.cancelled = true → a.invocations = [])) →
      TimersSound modulus { s with
        queue := rest, ctimerList := s.ctimerList.erase c, history := history } := by
    intro history harmedAt hlatest hstray hchecked hcheckedAt hlength hothers hchanged
    obtain ⟨b, hb, htimer, hclosed, hb'⟩ := hchanged
    have hopened : ∀ (j : ℕ) (a : Arming T F), history.armings[j]? = some a → a.Open →
        s.history.armings[j]? = some a ∧ a.timer ≠ c := by
      intro j a ha hopen
      have hji : j ≠ i := by
        rintro rfl
        obtain rfl := some.inj (ha.symm.trans hb)
        exact hclosed hopen
      rw [hothers j hji] at ha
      refine ⟨ha, ?_⟩
      rintro rfl
      exact hji (some.inj ((h.opened j a ha hopen).1.symm.trans hlast))
    constructor
    · exact ⟨h.nodup.1, h.nodup.2.erase c⟩
    · exact h.process
    · intro x hx
      refine (hlist x).mpr ⟨?_, h.sub x hx⟩
      rintro rfl
      exact hnot hx
    · exact fun x hx ↦ h.queued x (hsub x hx)
    · exact hsingle
    · intro x hx
      obtain ⟨hxc, hold⟩ := (hlist x).mp hx
      exact (h.waits x hold).imp_right (hrest x hxc).mpr
    · intro x hx hq
      dsimp only
      rw [harmedAt]
      exact h.due x ((hlist x).mp hx).2 (hsub x hq)
    · intro x
      dsimp only
      rw [harmedAt]
      exact h.start x
    · intro x j hj
      dsimp only at hj ⊢
      rw [hlatest] at hj
      by_cases hji : j = i
      · subst hji
        obtain ⟨a, ha, rfl⟩ := h.last x j hj
        obtain rfl := some.inj (ha.symm.trans harming)
        exact ⟨b, hb, htimer⟩
      · rw [hothers j hji]
        exact h.last x j hj
    · intro x hx
      obtain ⟨hxc, hold⟩ := (hlist x).mp hx
      obtain ⟨j, hj, ha⟩ := h.armed x hold
      dsimp only
      rw [hlatest, harmedAt]
      refine ⟨j, hj, ?_⟩
      rw [hothers j (hindex x j _ hj ha rfl hxc)]
      exact ha
    · intro j a ha hopen
      obtain ⟨hold, hne⟩ := hopened j a ha hopen
      dsimp only
      rw [hlatest, hlist]
      exact (h.opened j a hold hopen).imp id fun hin ↦ ⟨hne, hin⟩
    · intro a ha
      obtain ⟨j, hj⟩ := mem_iff_getElem?.mp ha
      by_cases hji : j = i
      · subst hji
        obtain rfl := some.inj (hb.symm.trans hj)
        exact hb'
      · rw [hothers j hji] at hj
        exact h.each a (mem_of_getElem? hj)
    · exact hstray.trans h.stray
    · dsimp only
      rw [hchecked, hcheckedAt, hlength]
      refine h.checked.imp id fun hall j a ha hj hopen ↦ ?_
      obtain ⟨hold, hne⟩ := hopened j a ha hopen
      exact (hall j a hold hj hopen).imp_right (hrest a.timer hne).mpr
  split
  · rename_i hf
    rw [hf] at harming
    exact hframe s.history rfl rfl rfl rfl rfl rfl (fun _ _ ↦ rfl) ⟨_, harming, rfl,
      fun hopen ↦ Bool.false_ne_true hopen.1, Nat.zero_le _, by simp, fun _ ↦ rfl⟩
  · rename_i f hf
    rw [hf] at harming
    have hinvoke : s.history.invoke c s.now f = { s.history with
        armings := s.history.armings.modify i fun a ↦
          { a with invocations := a.invocations ++ [(s.now, f)] } } := by
      unfold TimerHistory.invoke
      rw [hlast]
    rw [hinvoke]
    refine hframe _ rfl rfl rfl rfl rfl (length_modify _ _ _)
      (fun j hji ↦ getElem?_modify_ne _ _ (Ne.symm hji))
      ⟨⟨c, some f, s.history.armedAt c + (s.ctimer c).interval, false, [(s.now, f)]⟩, ?_, rfl, ?_⟩
    · rw [getElem?_modify, harming]
      simp
    · refine ⟨fun hopen ↦ absurd hopen.2.2 (by simp), Nat.le_refl _, ?_, fun hflag ↦ ?_⟩
      · intro call hcall
        rw [mem_singleton.mp hcall]
        exact ⟨hexpiry, rfl⟩
      · cases hflag

theorem deliver (h : TimersSound modulus s) (hstep : s.deliver = some t) :
    TimersSound modulus t := by
  unfold Timers.deliver at hstep
  split at hstep
  · cases hstep
  · rename_i rest hqueue
    obtain rfl := some.inj hstep
    exact h.dequeue hqueue fun c hc ↦ by cases hc
  · rename_i c rest hqueue
    obtain rfl := some.inj hstep
    unfold Timers.ctimerProcess
    split
    · rename_i hmem
      exact h.expire hqueue hmem
    · rename_i hmem
      exact h.dequeue hqueue fun x hx ↦ by
        rw [← some.inj hx]
        exact hmem

theorem step {a : TimerAct T F} (h : TimersSound modulus s)
    (hstep : GuardedStepOf (Timers.step modulus numEvents) (Timely modulus) s a t) :
    TimersSound modulus t := by
  obtain ⟨htimely, hnext⟩ := hstep
  cases a with
  | set c interval f =>
    change (if interval < modulus then _ else none) = some t at hnext
    split at hnext
    · obtain rfl := some.inj hnext
      exact h.arm htimely rfl rfl (Nat.le_refl _) (by assumption)
    · cases hnext
  | reset c =>
    obtain rfl := some.inj hnext
    obtain ⟨hstart, hpast, hinterval⟩ := h.start c
    refine h.arm htimely.1 rfl ?_ htimely.2 hinterval
    dsimp only
    rw [hstart, Nat.mod_add_mod]
  | restart c =>
    obtain rfl := some.inj hnext
    exact h.arm htimely rfl rfl (Nat.le_refl _) (h.start c).2.2
  | stop c =>
    obtain rfl := some.inj hnext
    exact h.stop c
  | tick =>
    obtain rfl := some.inj hnext
    exact { h with
      due := fun c hc hq ↦ Nat.le_succ_of_le (h.due c hc hq)
      start := fun c ↦ (h.start c).imp id fun hrest ↦ hrest.imp_left Nat.le_succ_of_le }
  | post =>
    obtain rfl := some.inj hnext
    split
    · exact h
    · have hqueue : ∀ c, some c ∈ s.queue ++ [none] ↔ some c ∈ s.queue := by
        intro c
        simp
      exact { h with
        queued := fun c hc ↦ h.queued c ((hqueue c).mp hc)
        single := fun c ↦ by
          dsimp only
          rw [count_append]
          simpa using h.single c
        waits := fun c hc ↦ (h.waits c hc).imp_right (hqueue c).mpr
        due := fun c hc hq ↦ h.due c hc ((hqueue c).mp hq)
        checked := h.checked.imp id fun hchecked i a ha hi hopen ↦
          (hchecked i a ha hi hopen).imp_right (hqueue a.timer).mpr }
  | poll =>
    obtain rfl := some.inj hnext
    exact h.poll htimely
  | deliver => exact h.deliver hnext

end TimersSound

instance (modulus : ℕ) (s : Timers T F) : (a : TimerAct T F) → Decidable (Timely modulus s a)
  | .set c _ _ => inferInstanceAs (Decidable (some c ∉ s.queue))
  | .restart c => inferInstanceAs (Decidable (some c ∉ s.queue))
  | .reset c => inferInstanceAs
      (Decidable (some c ∉ s.queue ∧ s.history.armedAt c + (s.ctimer c).interval ≤ s.now))
  | .poll => inferInstanceAs
      (Decidable (∀ c ∈ s.timerlist, s.now + 1 < s.history.armedAt c + modulus))
  | .stop _ | .tick | .post | .deliver => isTrue trivial

/-- In every run of such steps each arming that is not cancelled leads to one call of its callback,
and not before its expiry. -/
theorem firesOnce_of_timelyRun {labels : List (TimerAct T F)} {s : Timers T F}
    (hmodulus : 0 < modulus) (hrun : Run (GuardedStepOf (Timers.step modulus numEvents)
      (Timely modulus)) Timers.init labels s) : FiresOnce s :=
  (hrun.invariant (fun _ _ _ h ↦ h.step) (TimersSound.init hmodulus)).firesOnce

def twoTicks : List (TimerAct Unit Unit) := [.set () 2 (some ()), .tick, .tick, .poll, .deliver]

theorem firesOnce_twoTicks : ∃ s : Timers Unit Unit, FiresOnce s ∧ s.queue = [] ∧
    s.history.armings.map Arming.invocations = [[(2, ())]] := by
  obtain ⟨s, hrun, hs⟩ : ∃ s : Timers Unit Unit,
      Run (GuardedStepOf (Timers.step (2 ^ 32) 32) (Timely (2 ^ 32))) Timers.init twoTicks s ∧
        s.queue = [] ∧ s.history.armings.map Arming.invocations = [[(2, ())]] :=
    exists_guardedRun (by decide +kernel)
  exact ⟨s, firesOnce_of_timelyRun (by decide) hrun, hs⟩

/-- A timer of 2 ticks is set, and set again to 10 ticks while its event is in the queue. -/
def setAgain : List (TimerAct Unit Unit) :=
  [.set () 2 (some ()), .tick, .tick, .poll, .set () 10 (some ()), .deliver]

/-- The event of the first arming lets the second one expire at once. -/
theorem not_firesOnce_setAgain : ∃ s : Timers Unit Unit,
    Run (StepOf (Timers.step (2 ^ 32) 32)) Timers.init setAgain s ∧ ¬ FiresOnce s := by
  obtain ⟨s, hrun, a, ha, call, hcall, hlt⟩ : ∃ s : Timers Unit Unit,
      Run (StepOf (Timers.step (2 ^ 32) 32)) Timers.init setAgain s ∧
        ∃ a ∈ s.history.armings, ∃ call ∈ a.invocations, call.1 < a.expiry :=
    exists_run (by decide +kernel)
  exact ⟨s, hrun, fun hfires ↦
    absurd (hfires.notEarly a ha call hcall).1 (Nat.not_le.mpr hlt)⟩

end ContikiMaster.Sys
