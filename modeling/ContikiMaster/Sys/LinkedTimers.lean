import ContikiMaster.Lib.Links
import ContikiMaster.Sys.Ctimer

/-!
# The pointers of the callback timers

`ctimer.c` and `etimer.c` over `list.c`, once `ctimer_init` has run, with the pointers the timers
are linked by. On lists that end the calls return, and do what the timers without pointers do,
unless a timer that is on the list of event timers is set whose process is `PROCESS_NONE`.
-/

namespace ContikiMaster.Sys

open Lib Function List Option

/-- The static variables of both modules and the timers; `timerlist` has the pointers `next` of the
event timers and `ctimerList` those of the callback timers. -/
structure LinkedTimers (T F : Type) where
  ctimer : T → Ctimer F
  timerlist : LinkChain T
  ctimerList : LinkChain T

variable {T F : Type} [DecidableEq T]

def linksRemove (list : LinkChain T) (item : T) (fuel : ℕ) : Option (LinkChain T) :=
  (list.locate item fuel).map fun place ↦
    match place with
    | none => list
    | some r => (list.bypass r item).clear item

def linksAdd (list : LinkChain T) (item : T) (fuel : ℕ) : Option (LinkChain T) :=
  (linksRemove list item fuel).bind fun list ↦
    ((list.clear item).tail fuel).map fun l ↦ (list.clear item).link l item

namespace LinkedTimers

variable (s : LinkedTimers T F) (c : T)

/-- `update_time`, which goes down the list for the time of the next expiration. -/
def updateTime (fuel : ℕ) : Option (LinkedTimers T F) := (s.timerlist.walk fuel).map fun _ ↦ s

/-- The process of an event timer is the callback timer process. -/
def run : LinkedTimers T F :=
  { s with ctimer := update s.ctimer c { s.ctimer c with p := true } }

def push : LinkedTimers T F := { s.run c with timerlist := s.timerlist.push c }

/-- The rest of `add_timer` when the search for the timer has ended. -/
def addFound (found : Bool) (fuel : ℕ) : Option (LinkedTimers T F) :=
  if found then (s.run c).updateTime fuel else (s.push c).updateTime fuel

def addTimer (fuel : ℕ) : Option (LinkedTimers T F) :=
  if (s.ctimer c).p then
    (s.timerlist.search c fuel).bind fun found ↦ s.addFound c found fuel
  else (s.push c).updateTime fuel

/-- `timer_set`, at a time of the clock. -/
def timerSet (clockTime interval : ℕ) : LinkedTimers T F :=
  { s with
    ctimer := update s.ctimer c { s.ctimer c with start := clockTime, interval := interval } }

def etimerSet (clockTime interval fuel : ℕ) : Option (LinkedTimers T F) :=
  (s.timerSet c clockTime interval).addTimer c fuel

/-- The end of `etimer_stop`. -/
def expire : LinkedTimers T F :=
  { s with
    timerlist := s.timerlist.clear c
    ctimer := update s.ctimer c { s.ctimer c with p := false } }

/-- The event timer is taken off the list, behind another one or from the front. -/
def takeOff (t : Option T) (fuel : ℕ) : Option (LinkedTimers T F) :=
  (({ s with timerlist := s.timerlist.bypass t c } : LinkedTimers T F).updateTime fuel).map fun s ↦
    s.expire c

/-- The rest of `etimer_stop` when the search for the item before the timer has ended. -/
def stopBehind (t : Option T) (fuel : ℕ) : Option (LinkedTimers T F) :=
  match t with
  | none => some (s.expire c)
  | some t => s.takeOff c (some t) fuel

def etimerStop (fuel : ℕ) : Option (LinkedTimers T F) :=
  if s.timerlist.head = some c then s.takeOff c none fuel
  else (s.timerlist.before c fuel).bind fun t ↦ s.stopBehind c t fuel

def call (f : Option F) : LinkedTimers T F :=
  { s with ctimer := update s.ctimer c { s.ctimer c with f := f } }

def ctimerSet (clockTime t : ℕ) (f : Option F) (fuel : ℕ) : Option (LinkedTimers T F) :=
  ((s.call c f).etimerSet c clockTime t fuel).bind fun s ↦
    (linksAdd s.ctimerList c fuel).map fun list ↦ { s with ctimerList := list }

def ctimerStop (fuel : ℕ) : Option (LinkedTimers T F) :=
  (s.etimerStop c fuel).bind fun s ↦
    (linksRemove s.ctimerList c fuel).map fun list ↦ { s with ctimerList := list }

def ctimerExpired : Bool := !(s.ctimer c).p

end LinkedTimers

variable {list : LinkChain T} {items : List T} {item : T}

variable (item) in
theorem linksRemove_returns (hlists : list.Lists items) :
    ∃ list', Returns (linksRemove list item) list' ∧ list'.Lists (items.erase item) := by
  by_cases hitem : item ∈ items
  · obtain ⟨first, last, rfl, hfirst⟩ := eq_append_cons_of_mem hitem
    refine ⟨_, hlists.locate.map _, ?_⟩
    have hnodup := hlists.nodup
    rw [erase_append_right _ hfirst, erase_cons_head]
    apply hlists.bypass.clear
    rw [nodup_append, nodup_cons] at hnodup
    exact fun hmem ↦ (mem_append.mp hmem).elim hfirst hnodup.2.1.1
  · refine ⟨_, (hlists.locate_of_notMem hitem).map _, ?_⟩
    rw [erase_of_not_mem hitem]
    exact hlists

variable (item) in
theorem linksAdd_returns (hlists : list.Lists items) :
    ∃ list', Returns (linksAdd list item) list' ∧ list'.Lists (items.erase item ++ [item]) := by
  obtain ⟨removed, hremoved, hrest⟩ := linksRemove_returns item hlists
  have hitem : item ∉ items.erase item := hlists.nodup.not_mem_erase
  have hclear := hrest.clear hitem
  refine ⟨_, hremoved.bind (hclear.tail.map _), hclear.link hitem ?_⟩
  exact update_self item none removed.next

namespace LinkedTimers

variable {s : LinkedTimers T F} {c : T} {E C : List T} {now t : ℕ} {f : Option F}

/-- The timers on the two lists. -/
structure Holds (s : LinkedTimers T F) (E C : List T) : Prop where
  events : s.timerlist.Lists E
  callbacks : s.ctimerList.Lists C

omit [DecidableEq T] in
theorem updateTime_returns (hevents : s.timerlist.Lists E) : Returns s.updateTime s :=
  hevents.walk.map fun _ ↦ s

/-- What is known of the outcome of a call. -/
def Leaves (call : ℕ → Option (LinkedTimers T F)) (E C : List T) (ctimer : T → Ctimer F) : Prop :=
  ∃ s', Returns call s' ∧ s'.Holds E C ∧ s'.ctimer = ctimer

theorem addTimer_of_process (hp : (s.ctimer c).p = true) :
    s.addTimer c = fun fuel ↦ (s.timerlist.search c fuel).bind fun found ↦ s.addFound c found fuel :=
  funext fun _ ↦ if_pos hp

theorem addTimer_of_none (hp : (s.ctimer c).p = false) : s.addTimer c = (s.push c).updateTime :=
  funext fun _ ↦ if_neg (Bool.eq_false_iff.mp hp)

theorem addTimer_leaves (hs : s.Holds E C) (hc : (s.ctimer c).p = true ∨ c ∉ E) :
    Leaves (s.addTimer c) (if c ∈ E then E else c :: E) C
      (update s.ctimer c { s.ctimer c with p := true }) := by
  by_cases hmem : c ∈ E
  · have hp := hc.resolve_right fun hnot ↦ hnot hmem
    rw [if_pos hmem, addTimer_of_process hp]
    have hsearch := hs.events.search c
    rw [decide_eq_true hmem] at hsearch
    exact ⟨s.run c, hsearch.bind (updateTime_returns (s := s.run c) hs.events),
      ⟨hs.events, hs.callbacks⟩, rfl⟩
  · rw [if_neg hmem]
    have hpushed := hs.events.push hmem
    refine ⟨s.push c, ?_, ⟨hpushed, hs.callbacks⟩, rfl⟩
    cases hp : (s.ctimer c).p with
    | true =>
      rw [addTimer_of_process hp]
      have hsearch := hs.events.search c
      rw [decide_eq_false hmem] at hsearch
      exact hsearch.bind (updateTime_returns hpushed)
    | false =>
      rw [addTimer_of_none hp]
      exact updateTime_returns hpushed

theorem addTimer_eq_none (hs : s.Holds E C) (hp : (s.ctimer c).p = false) (hmem : c ∈ E)
    (fuel : ℕ) : s.addTimer c fuel = none := by
  rw [addTimer_of_none hp, updateTime, map_eq_none_iff]
  by_contra hends
  obtain ⟨_, hwalk⟩ := ne_none_iff_exists'.mp hends
  obtain ⟨items, hlists⟩ := LinkChain.lists_of_walk hwalk
  exact hs.events.not_lists_push hmem hlists

theorem takeOff_leaves {first last : List T} (hs : s.Holds (first ++ c :: last) C) :
    Leaves (s.takeOff c first.getLast?) ((first ++ c :: last).erase c) C
      (update s.ctimer c { s.ctimer c with p := false }) := by
  have hnodup := hs.events.nodup
  have hfirst : c ∉ first := fun hmem ↦ by
    rw [nodup_append] at hnodup
    exact hnodup.2.2 c hmem c mem_cons_self rfl
  have hbypass := hs.events.bypass
  rw [erase_append_right _ hfirst, erase_cons_head]
  refine ⟨_, (updateTime_returns (s := { s with timerlist := _ }) hbypass).map _,
    ⟨hbypass.clear ?_, hs.callbacks⟩, rfl⟩
  rw [nodup_append, nodup_cons] at hnodup
  exact fun hmem ↦ (mem_append.mp hmem).elim hfirst hnodup.2.1.1

theorem etimerStop_leaves (hs : s.Holds E C) : Leaves (s.etimerStop c) (E.erase c) C
      (update s.ctimer c { s.ctimer c with p := false }) := by
  by_cases hmem : c ∈ E
  · obtain ⟨first, last, rfl, hfirst⟩ := eq_append_cons_of_mem hmem
    have htake := takeOff_leaves hs
    rcases eq_nil_or_concat first with rfl | ⟨front, i, rfl⟩
    · have hcall : s.etimerStop c = s.takeOff c none := funext fun _ ↦ if_pos hs.events.1
      rw [hcall]
      exact htake
    · rw [concat_eq_append] at *
      have hevents := hs.events
      rw [append_assoc, singleton_append] at hevents
      have hhead : s.timerlist.head ≠ some c := by
        intro hhead
        rw [hevents.head] at hhead
        rw [mem_append] at hfirst
        cases front with
        | nil => exact hfirst (Or.inr (mem_singleton.mpr (some.inj hhead).symm))
        | cons j front =>
          exact hfirst (Or.inl (mem_cons.mpr (Or.inl (some.inj hhead).symm)))
      have hcall : s.etimerStop c = fun fuel ↦ (s.timerlist.before c fuel).bind fun t ↦
          s.stopBehind c t fuel := funext fun _ ↦ if_neg hhead
      obtain ⟨s', hreturns, hafter⟩ := htake
      rw [getLast?_concat] at hreturns
      rw [hcall]
      exact ⟨s', hevents.before.bind hreturns, hafter⟩
  · have hhead : s.timerlist.head ≠ some c := by
      intro hhead
      rw [hs.events.head] at hhead
      exact hmem (mem_of_mem_head? hhead)
    have hcall : s.etimerStop c = fun fuel ↦ (s.timerlist.before c fuel).bind fun t ↦
        s.stopBehind c t fuel := funext fun _ ↦ if_neg hhead
    rw [hcall, erase_of_not_mem hmem]
    exact ⟨s.expire c, (hs.events.before_of_notMem hmem).bind (returns_some _),
      ⟨hs.events.clear hmem, hs.callbacks⟩, rfl⟩

theorem timerSet_ctimer :
    (s.timerSet c now t).ctimer c = { s.ctimer c with start := now, interval := t } :=
  update_self c _ s.ctimer

theorem call_ctimer : (s.call c f).ctimer c = { s.ctimer c with f := f } := update_self c _ s.ctimer

variable (now t) in
theorem etimerSet_leaves (hs : s.Holds E C) (hc : (s.ctimer c).p = true ∨ c ∉ E) :
    Leaves (s.etimerSet c now t) (if c ∈ E then E else c :: E) C
      (update s.ctimer c ⟨now, t, true, (s.ctimer c).f⟩) := by
  have hadd := addTimer_leaves (s := s.timerSet c now t) (c := c) ⟨hs.events, hs.callbacks⟩
    (by rwa [timerSet_ctimer])
  rwa [timerSet_ctimer, timerSet, update_idem] at hadd

variable (now t) in
theorem etimerSet_eq_none (hs : s.Holds E C) (hp : (s.ctimer c).p = false) (hmem : c ∈ E)
    (fuel : ℕ) : s.etimerSet c now t fuel = none := by
  refine addTimer_eq_none (s := s.timerSet c now t) (C := C) ⟨hs.events, hs.callbacks⟩ ?_ hmem fuel
  rwa [timerSet_ctimer]

variable (now t f) in
theorem ctimerSet_leaves (hs : s.Holds E C) (hc : (s.ctimer c).p = true ∨ c ∉ E) :
    Leaves (s.ctimerSet c now t f) (if c ∈ E then E else c :: E) (C.erase c ++ [c])
      (update s.ctimer c ⟨now, t, true, f⟩) := by
  obtain ⟨armed, hset, hholds, hctimer⟩ :=
    etimerSet_leaves (s := s.call c f) (c := c) now t ⟨hs.events, hs.callbacks⟩
      (by rwa [call_ctimer])
  rw [call_ctimer, call, update_idem] at hctimer
  obtain ⟨list, hadd, hlists⟩ := linksAdd_returns c hholds.callbacks
  exact ⟨_, hset.bind (hadd.map _), ⟨hholds.events, hlists⟩, hctimer⟩

theorem ctimerSet_eq_none (hs : s.Holds E C) (hp : (s.ctimer c).p = false) (hmem : c ∈ E)
    (fuel : ℕ) : s.ctimerSet c now t f fuel = none := by
  have hset := etimerSet_eq_none (s := s.call c f) (C := C) now t
    ⟨hs.events, hs.callbacks⟩ (by rwa [call_ctimer]) hmem fuel
  rw [ctimerSet, hset, bind_none]

theorem ctimerStop_leaves (hs : s.Holds E C) : Leaves (s.ctimerStop c) (E.erase c) (C.erase c)
      (update s.ctimer c { s.ctimer c with p := false }) := by
  obtain ⟨stopped, hstop, hholds, hctimer⟩ := etimerStop_leaves (c := c) hs
  obtain ⟨list, hremove, hlists⟩ := linksRemove_returns c hholds.callbacks
  exact ⟨_, hstop.bind (hremove.map _), ⟨hholds.events, hlists⟩, hctimer⟩

/-- The timers without pointers have the same timers on the same lists. -/
def Represents (s : LinkedTimers T F) (a : Timers T F) : Prop :=
  s.Holds a.timerlist a.ctimerList ∧ s.ctimer = a.ctimer

variable {a : Timers T F} (modulus : ℕ)

theorem ctimerSet_represents (hs : s.Represents a) (hc : (s.ctimer c).p = true ∨ c ∉ a.timerlist) :
    ∃ s', Returns (s.ctimerSet c (a.clockTime modulus) t f) s' ∧
      s'.Represents (a.ctimerSet modulus c t f) := by
  obtain ⟨hholds, hctimer⟩ := hs
  obtain ⟨s', hreturns, hholds', hctimer'⟩ := ctimerSet_leaves (a.clockTime modulus) t f hholds hc
  have hlist : (a.ctimerSet modulus c t f).timerlist =
      if c ∈ a.timerlist then a.timerlist else c :: a.timerlist := by
    rw [hctimer] at hc
    by_cases hmem : c ∈ a.timerlist
    · have hp := hc.resolve_right fun hnot ↦ hnot hmem
      simp [Timers.ctimerSet, Timers.arm, Timers.addTimer, Timers.listAdd, hmem, hp]
    · simp [Timers.ctimerSet, Timers.arm, Timers.addTimer, Timers.listAdd, hmem]
  refine ⟨s', hreturns, ?_, ?_⟩
  · rw [hlist]
    exact hholds'
  · rw [hctimer', hctimer]
    simp [Timers.ctimerSet, Timers.arm, Timers.addTimer, Timers.listAdd]

theorem ctimerStop_represents (hs : s.Represents a) :
    ∃ s', Returns (s.ctimerStop c) s' ∧ s'.Represents (a.ctimerStop c) := by
  obtain ⟨hholds, hctimer⟩ := hs
  obtain ⟨s', hreturns, hholds', hctimer'⟩ := ctimerStop_leaves (c := c) hholds
  rw [hctimer] at hctimer'
  exact ⟨s', hreturns, hholds', hctimer'⟩

/-- Calls at some times: a timer is set, with an interval and a callback, or stopped. -/
def performAll (modulus fuel : ℕ) : List (ℕ × T × Option (ℕ × Option F)) → LinkedTimers T F →
    Option (LinkedTimers T F)
  | [], s => some s
  | (now, c, some (t, f)) :: calls, s =>
    (s.ctimerSet c (now % modulus) t f fuel).bind (performAll modulus fuel calls)
  | (_, c, none) :: calls, s => (s.ctimerStop c fuel).bind (performAll modulus fuel calls)

def plainAll (modulus : ℕ) : List (ℕ × T × Option (ℕ × Option F)) → Timers T F → Timers T F
  | [], a => a
  | (now, c, some (t, f)) :: calls, a =>
    plainAll modulus calls (({ a with now := now } : Timers T F).ctimerSet modulus c t f)
  | (_, c, none) :: calls, a => plainAll modulus calls (a.ctimerStop c)

/-- All calls return, and the pointers follow the lists. -/
theorem performAll_represents (calls : List (ℕ × T × Option (ℕ × Option F)))
    (hs : s.Represents a) (hp : ∀ c ∈ a.timerlist, (a.ctimer c).p = true) :
    ∃ s', Returns (fun fuel ↦ performAll modulus fuel calls s) s' ∧
      s'.Represents (plainAll modulus calls a) := by
  induction calls generalizing s a with
  | nil => exact ⟨s, returns_some s, hs⟩
  | cons call calls ih =>
    obtain ⟨now, c, _ | ⟨t, f⟩⟩ := call
    · obtain ⟨u, hreturns, hu⟩ := ctimerStop_represents (c := c) hs
      obtain ⟨s', hrest, hs'⟩ := ih hu fun i hi ↦ by
        obtain ⟨hne, hmem⟩ := hs.1.events.nodup.mem_erase_iff.mp hi
        exact (congrArg Ctimer.p (update_of_ne hne _ _)).trans (hp i hmem)
      exact ⟨s', hreturns.bind hrest, hs'⟩
    · have hnow : s.Represents { a with now := now } := hs
      obtain ⟨u, hreturns, hu⟩ := ctimerSet_represents (c := c) (t := t) (f := f) modulus
        hnow (or_not_of_imp fun hmem ↦ hs.2 ▸ hp c hmem)
      obtain ⟨s', hrest, hs'⟩ := ih hu fun i hi ↦ by
        by_cases hi' : i = c
        · simp [hi', Timers.ctimerSet, Timers.arm, Timers.addTimer, Timers.listAdd]
        · have hmem : i ∈ a.timerlist := by
            simp only [Timers.ctimerSet, Timers.arm, Timers.addTimer, Timers.listAdd] at hi
            split at hi
            · exact hi
            · exact (mem_cons.mp hi).resolve_left hi'
          simpa [hi', Timers.ctimerSet, Timers.arm, Timers.addTimer, Timers.listAdd] using hp i hmem
      exact ⟨s', hreturns.bind hrest, hs'⟩

theorem performAll_setStop : ∃ s' : LinkedTimers ℕ Unit, s'.Holds [2] [2] := by
  obtain ⟨s', -, hs', -⟩ := performAll_represents 16
    (s := ⟨fun _ ↦ ⟨0, 0, false, none⟩, ⟨none, fun _ ↦ none⟩, ⟨none, fun _ ↦ none⟩⟩) (a := .init)
    [(0, 1, some (5, none)), (3, 2, some (4, some ())), (6, 1, none)]
    ⟨⟨rfl, rfl⟩, rfl⟩ fun _ h ↦ absurd h not_mem_nil
  exact ⟨s', hs'⟩

end LinkedTimers

end ContikiMaster.Sys
