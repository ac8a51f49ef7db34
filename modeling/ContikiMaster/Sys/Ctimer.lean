import ContikiMaster.Lib.Run

/-!
# Callback timers

`ctimer.c` over `etimer.c`, once `ctimer_init` has run: the lists of event timers and of
callback timers and the queue with their events and those of others. The clock is counted
without an end, `clock_time` is its remainder; it does not advance while the event timer
process walks its list.
-/

namespace ContikiMaster.Sys

open Function

/-- `struct ctimer`, with the `struct timer` of its event timer, and whether the process of this is
`ctimer_process` rather than `PROCESS_NONE`. -/
structure Ctimer (F : Type) where
  start : ℕ
  interval : ℕ
  p : Bool
  f : Option F

/-- An arming of a timer: the callback, the time from which on it may be called, whether the timer
was stopped or armed again before the callback was called, and the calls. -/
structure Arming (T F : Type) where
  timer : T
  f : Option F
  expiry : ℕ
  cancelled : Bool
  invocations : List (ℕ × F)

/-- What happened so far. The event timer process was run at `checkedAt`, when there had been
`checked` armings, and could post all events. -/
structure TimerHistory (T F : Type) where
  armedAt : T → ℕ
  latest : T → Option ℕ
  armings : List (Arming T F)
  /-- Callbacks of timers that were never armed. -/
  stray : List T
  checked : ℕ
  checkedAt : ℕ

structure Timers (T F : Type) where
  now : ℕ
  ctimer : T → Ctimer F
  timerlist : List T
  ctimerList : List T
  /-- The timers of the events for `ctimer_process`; other events are `none`. -/
  queue : List (Option T)
  pollRequested : Bool
  history : TimerHistory T F

inductive TimerAct (T F : Type) where
  | set (c : T) (t : ℕ) (f : Option F)
  | reset (c : T)
  | restart (c : T)
  | stop (c : T)
  /-- The clock advances. -/
  | tick
  /-- Another event is posted. -/
  | post
  /-- `etimer_process` gets a poll event. -/
  | poll
  /-- The first event of the queue is delivered. -/
  | deliver

variable {T F : Type} [DecidableEq T]

namespace TimerHistory

variable (h : TimerHistory T F)

/-- The arming of a timer is over before its callback was called. -/
def cancel (c : T) : TimerHistory T F :=
  match h.latest c with
  | none => h
  | some i =>
    { h with armings := h.armings.modify i fun a ↦
        { a with cancelled := a.cancelled || a.invocations.isEmpty } }

def arm (c : T) (f : Option F) (armedAt expiry : ℕ) : TimerHistory T F :=
  { h.cancel c with
    armedAt := update h.armedAt c armedAt
    latest := update h.latest c (some h.armings.length)
    armings := (h.cancel c).armings ++ [⟨c, f, expiry, false, []⟩] }

/-- The callback of a timer is called. -/
def invoke (c : T) (now : ℕ) (f : F) : TimerHistory T F :=
  match h.latest c with
  | none => { h with stray := h.stray ++ [c] }
  | some i =>
    { h with armings := h.armings.modify i fun a ↦
        { a with invocations := a.invocations ++ [(now, f)] } }

end TimerHistory

namespace Timers

variable (modulus numEvents : ℕ) (s : Timers T F)

def clockTime : ℕ := s.now % modulus

def timerExpired (c : T) : Bool :=
  decide ((s.ctimer c).interval <
    ((s.clockTime modulus + modulus - (s.ctimer c).start) % modulus + 1) % modulus)

/-- `add_timer`; the expiration time that is updated here is not used by the process. -/
def addTimer (c : T) : Timers T F :=
  { s with
    ctimer := update s.ctimer c { s.ctimer c with p := true }
    timerlist := if (s.ctimer c).p && decide (c ∈ s.timerlist) then s.timerlist
      else c :: s.timerlist
    pollRequested := true }

/-- `list_add` of the callback timer list. -/
def listAdd (c : T) : Timers T F := { s with ctimerList := s.ctimerList.erase c ++ [c] }

/-- The timer of a callback timer is written, and put on both lists. -/
def arm (c : T) (timer : Ctimer F) (armedAt : ℕ) : Timers T F :=
  (({ s with
    ctimer := update s.ctimer c timer
    history := s.history.arm c timer.f armedAt (armedAt + timer.interval) } : Timers T F).addTimer
      c).listAdd c

def ctimerSet (c : T) (t : ℕ) (f : Option F) : Timers T F :=
  s.arm c { s.ctimer c with f := f, interval := t, start := s.clockTime modulus } s.now

def ctimerReset (c : T) : Timers T F :=
  let timer := s.ctimer c
  s.arm c { timer with start := (timer.start + timer.interval) % modulus }
    (s.history.armedAt c + timer.interval)

def ctimerRestart (c : T) : Timers T F :=
  s.arm c { s.ctimer c with start := s.clockTime modulus } s.now

def etimerStop (c : T) : Timers T F :=
  { s with
    timerlist := s.timerlist.erase c
    ctimer := update s.ctimer c { s.ctimer c with p := false } }

def ctimerStop (c : T) : Timers T F :=
  let s := s.etimerStop c
  { s with ctimerList := s.ctimerList.erase c, history := s.history.cancel c }

/-- The process looks at a timer: it posts an event for one that has expired, or asks for another
poll. -/
def visitTimer (s : Timers T F) (c : T) : Timers T F :=
  if s.timerExpired modulus c then
    if s.queue.length = numEvents then { s with pollRequested := true }
    else
      { s with
        queue := s.queue ++ [some c]
        ctimer := update s.ctimer c { s.ctimer c with p := false }
        timerlist := s.timerlist.erase c }
  else s

/-- The walk of `etimer_process`. After an event was posted it begins again; those it has passed
have not expired, or found the queue full. -/
def walkTimers : Timers T F :=
  s.timerlist.foldl (visitTimer modulus numEvents) { s with pollRequested := false }

/-- A poll event for `etimer_process`. -/
def poll : Timers T F :=
  let s := s.walkTimers modulus numEvents
  if s.pollRequested then s
  else { s with history := { s.history with checked := s.history.armings.length, checkedAt := s.now } }

/-- `ctimer_process`, for the event of a timer. -/
def ctimerProcess (c : T) : Timers T F :=
  if c ∈ s.ctimerList then
    { s with
      ctimerList := s.ctimerList.erase c
      history := match (s.ctimer c).f with
        | none => s.history
        | some f => s.history.invoke c s.now f }
  else s

def deliver : Option (Timers T F) :=
  match s.queue with
  | [] => none
  | none :: rest => some { s with queue := rest }
  | some c :: rest => some (({ s with queue := rest } : Timers T F).ctimerProcess c)

/-- An interval is a value of `clock_time_t`. -/
def step (s : Timers T F) : TimerAct T F → Option (Timers T F)
  | .set c t f => if t < modulus then some (s.ctimerSet modulus c t f) else none
  | .reset c => some (s.ctimerReset modulus c)
  | .restart c => some (s.ctimerRestart modulus c)
  | .stop c => some (s.ctimerStop c)
  | .tick => some { s with now := s.now + 1 }
  | .post => some (if s.queue.length = numEvents then s else { s with queue := s.queue ++ [none] })
  | .poll => some (s.poll modulus numEvents)
  | .deliver => s.deliver

def init : Timers T F where
  now := 0
  ctimer := fun _ ↦ ⟨0, 0, false, none⟩
  timerlist := []
  ctimerList := []
  queue := []
  pollRequested := false
  history := ⟨fun _ ↦ 0, fun _ ↦ none, [], [], 0, 0⟩

end Timers

end ContikiMaster.Sys
