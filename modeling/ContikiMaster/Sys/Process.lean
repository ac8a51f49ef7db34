import ContikiMaster.Lib.Run
import ContikiMaster.Lib.Walk

/-!
# The process scheduler

`process.c`, with the process bodies as an environment: an active body may call any function of
the scheduler, and may return. The calls under way are a stack of frames, so that every point
between two calls is a state. Each process has a thread. The pointer of a process that was taken
from the list is kept, since the loops over the list go on from it.
-/

namespace ContikiMaster.Sys

open Lib Function

def processEventInit : UInt8 := 0x81

def processEventPoll : UInt8 := 0x82

def processEventExit : UInt8 := 0x83

def processEventExited : UInt8 := 0x87

inductive ProcessState where
  | none
  | running
  | called
deriving DecidableEq

/-- The pointer that comes with an event. -/
inductive ProcessData (P : Type) where
  | null
  | process (p : P)
  | other (address : ℕ)

/-- `struct event_data`; a broadcast has no receiver. -/
structure EventData (P : Type) where
  ev : UInt8
  data : ProcessData P
  receiver : Option P

/-- What is under way; the walks carry the process they are at. -/
inductive Frame (P : Type) where
  /-- A body that `call_process` entered. -/
  | thread (p : P) (ev : UInt8) (data : ProcessData P)
  /-- A body that `exit_process` entered. -/
  | lastThread (p : P)
  | exitWalk (p : P) (fromprocess old q : Option P)
  | exitNext (p : P) (fromprocess old : Option P) (q : P)
  | exitEnd (p : P) (old : Option P)
  | pollWalk (q : Option P) (requests : ℕ)
  | pollNext (q : P) (requests : ℕ)
  | doEvent
  /-- A broadcast that was taken as the event of this number. -/
  | eventWalk (number : ℕ) (e : EventData P) (q : Option P)
  | eventCall (number : ℕ) (e : EventData P) (q : P)
  | eventNext (number : ℕ) (e : EventData P) (q : P)
  | postSynchEnd (caller : Option P)
  | runEnd (requests : ℕ)

/-- An event that was taken from the queue: which processes were running at that time, which were
handed the event, and which exited before all were. -/
structure Delivery (P : Type) where
  event : EventData P
  running : P → Bool
  handed : List P
  exited : List P
  closed : Bool

/-- A request to poll a running process, and whether this got a poll event or exited since. -/
structure Request (P : Type) where
  process : P
  served : Bool
  exited : Bool

/-- A call of `process_post`: whether it failed, and how many events were accepted and not yet taken
before it. -/
structure Post where
  refused : Bool
  waiting : ℕ

/-- What happened so far; `settled` is the number of requests before the last call of `process_run`
that returned. -/
structure History (P : Type) where
  accepted : List (EventData P)
  deliveries : List (Delivery P)
  posts : List Post
  requests : List (Request P)
  settled : ℕ

structure Kernel (P : Type) where
  processList : List P
  stale : P → Option P
  state : P → ProcessState
  needspoll : P → Bool
  current : Option P
  nevents : ℕ
  fevent : ℕ
  events : ℕ → EventData P
  pollRequested : Bool
  stack : List (Frame P)
  /-- What the last call of `process_run` returned. -/
  returned : ℕ
  history : History P

inductive Call (P : Type) where
  | post (e : EventData P)
  | postSynch (p : P) (ev : UInt8) (data : ProcessData P)
  | poll (p : Option P)
  | start (p : P) (data : ProcessData P)
  | exit (p : P)
  | run

/-- A step: the main loop or the active body calls a function, the active body returns, or the
scheduler goes on. -/
inductive Act (P : Type) where
  | call (c : Call P)
  | returns (exits : Bool)
  | goesOn

variable {P : Type} [DecidableEq P]

namespace History

variable (h : History P)

def take (d : Delivery P) : History P := { h with deliveries := h.deliveries ++ [d] }

def handed (number : ℕ) (p : P) : History P :=
  { h with deliveries := h.deliveries.modify number fun d ↦ { d with handed := d.handed ++ [p] } }

def finish (number : ℕ) : History P :=
  { h with deliveries := h.deliveries.modify number fun d ↦ { d with closed := true } }

def exited (p : P) : History P :=
  { h with
    deliveries := h.deliveries.map fun d ↦ if d.closed then d else { d with exited := d.exited ++ [p] }
    requests := h.requests.map fun r ↦ if r.process = p then { r with exited := true } else r }

def served (p : P) : History P :=
  { h with requests := h.requests.map fun r ↦ if r.process = p then { r with served := true } else r }

end History

namespace Kernel

variable (s : Kernel P)

def next (q : P) : Option P :=
  if q ∈ s.processList then successor q s.processList else s.stale q

def push (frame : Frame P) : Kernel P := { s with stack := frame :: s.stack }

def setState (p : P) (state : ProcessState) : Kernel P :=
  { s with state := update s.state p state }

/-- A process is taken from the list. -/
def unlink (p : P) : Kernel P :=
  if p ∈ s.processList then
    { s with stale := update s.stale p (s.next p), processList := s.processList.erase p }
  else s

/-- `call_process`, until the body is active. -/
def callProcess (p : P) (ev : UInt8) (data : ProcessData P) : Kernel P :=
  if s.state p = .running then
    { s with
      current := some p
      state := update s.state p .called
      stack := .thread p ev data :: s.stack
      history := if ev = processEventPoll then s.history.served p else s.history }
  else s

/-- `exit_process`, until the first other process is called. -/
def exitProcess (p : P) (fromprocess : Option P) : Kernel P :=
  if p ∉ s.processList then s
  else if s.state p ≠ .none then
    { s.setState p .none with
      stack := .exitWalk p fromprocess s.current s.processList.head? :: s.stack
      history := s.history.exited p }
  else s.unlink p

/-- `do_poll`, until the first process is looked at. -/
def doPoll : Kernel P :=
  { s with
    pollRequested := false
    stack := .pollWalk s.processList.head? s.history.requests.length :: s.stack }

def waiting : ℕ := s.history.accepted.length - s.history.deliveries.length

variable (numEvents : ℕ)

/-- `process_post`, with a sum of 8 bits. -/
def processPost (e : EventData P) : Kernel P :=
  if s.nevents = numEvents then
    { s with history := { s.history with posts := s.history.posts ++ [⟨true, s.waiting⟩] } }
  else
    { s with
      events := update s.events ((s.fevent + s.nevents) % 256 % numEvents) e
      nevents := s.nevents + 1
      history := { s.history with
        accepted := s.history.accepted ++ [e]
        posts := s.history.posts ++ [⟨false, s.waiting⟩] } }

def processPostSynch (p : P) (ev : UInt8) (data : ProcessData P) : Kernel P :=
  (s.push (.postSynchEnd s.current)).callProcess p ev data

def processPoll : Option P → Kernel P
  | none => s
  | some p =>
    if s.state p ≠ .none then
      { s with
        needspoll := update s.needspoll p true
        pollRequested := true
        history := { s.history with requests := s.history.requests ++ [⟨p, false, false⟩] } }
    else s

def processStart (p : P) (data : ProcessData P) : Kernel P :=
  if p ∈ s.processList then s
  else
    { s.setState p .running with processList := p :: s.processList }.processPostSynch p
      processEventInit data

def processExit (p : P) : Kernel P := s.exitProcess p s.current

/-- `process_run`, until the first process is looked at or an event is taken. -/
def processRun : Kernel P :=
  let s' := { s with stack := .doEvent :: .runEnd s.history.requests.length :: s.stack }
  if s.pollRequested then s'.doPoll else s'

def call : Call P → Kernel P
  | .post e => s.processPost numEvents e
  | .postSynch p ev data => s.processPostSynch p ev data
  | .poll p => s.processPoll p
  | .start p data => s.processStart p data
  | .exit p => s.processExit p
  | .run => s.processRun

/-- The main loop is at work, or a body. -/
def mayCall : Bool :=
  match s.stack with
  | [] | .thread .. :: _ | .lastThread _ :: _ => true
  | _ => false

/-- A body returns, to `call_process` or to `exit_process`. -/
def returns (exits : Bool) : Option (Kernel P) :=
  match s.stack with
  | .thread p ev _ :: rest =>
    let s' := { s with stack := rest }
    some (if exits ∨ ev = processEventExit then s'.exitProcess p (some p)
      else s'.setState p .running)
  | .lastThread _ :: rest => some { s with stack := rest }
  | _ => none

def firstEvent : EventData P := s.events s.fevent

def dequeue : Kernel P :=
  { s with fevent := (s.fevent + 1) % numEvents, nevents := s.nevents - 1 }

def running (p : P) : Bool := decide (s.state p ≠ .none)

/-- `do_event` for an event with a receiver, until this is called. -/
def deliver (e : EventData P) (p : P) : Kernel P :=
  let s' := if e.ev = processEventInit then s.setState p .running else s
  let handed := if s'.state p = .running then [p] else []
  { s' with history := s.history.take ⟨e, s.running, handed, [], true⟩ }.callProcess p e.ev e.data

/-- `do_event` for a broadcast, until the first process is looked at. -/
def broadcast (e : EventData P) : Kernel P :=
  { s with
    history := s.history.take ⟨e, s.running, [], [], false⟩
    stack := .eventWalk s.history.deliveries.length e s.processList.head? :: s.stack }

def takeEvent : Kernel P :=
  if s.nevents = 0 then s
  else
    match s.firstEvent.receiver with
    | none => (s.dequeue numEvents).broadcast s.firstEvent
    | some p => (s.dequeue numEvents).deliver s.firstEvent p

/-- The scheduler goes on with the last call that is under way. -/
def goesOn : Option (Kernel P) :=
  match s.stack with
  | .exitWalk p fromprocess old none :: rest =>
    if some p ≠ fromprocess then
      some { s with current := some p, stack := .lastThread p :: .exitEnd p old :: rest }
    else some { s with stack := .exitEnd p old :: rest }
  | .exitWalk p fromprocess old (some q) :: rest =>
    let s' := { s with stack := .exitNext p fromprocess old q :: rest }
    some (if p ≠ q then s'.callProcess q processEventExited (.process p) else s')
  | .exitNext p fromprocess old q :: rest =>
    some { s with stack := .exitWalk p fromprocess old (s.next q) :: rest }
  | .exitEnd p old :: rest => some { s.unlink p with current := old, stack := rest }
  | .pollWalk none _ :: rest => some { s with stack := rest }
  | .pollWalk (some q) k :: rest =>
    let s' := { s with stack := .pollNext q k :: rest }
    some (if s.needspoll q then
      { s'.setState q .running with needspoll := update s.needspoll q false }.callProcess q
        processEventPoll .null
    else s')
  | .pollNext q k :: rest => some { s with stack := .pollWalk (s.next q) k :: rest }
  | .doEvent :: rest => some ({ s with stack := rest }.takeEvent numEvents)
  | .eventWalk i _ none :: rest => some { s with stack := rest, history := s.history.finish i }
  | .eventWalk i e (some q) :: rest =>
    let s' := { s with stack := .eventCall i e q :: rest }
    some (if s.pollRequested then s'.doPoll else s')
  | .eventCall i e q :: rest =>
    let history := if s.state q = .running then s.history.handed i q else s.history
    some ({ s with stack := .eventNext i e q :: rest, history := history }.callProcess q e.ev e.data)
  | .eventNext i e q :: rest => some { s with stack := .eventWalk i e (s.next q) :: rest }
  | .postSynchEnd caller :: rest => some { s with current := caller, stack := rest }
  | .runEnd k :: rest =>
    some { s with
      stack := rest
      returned := s.nevents + s.pollRequested.toNat
      history := { s.history with settled := k } }
  | _ => none

/-- The steps of the scheduler and of the bodies. -/
def step (s : Kernel P) : Act P → Option (Kernel P)
  | .call c => if s.mayCall then some (s.call numEvents c) else none
  | .returns exits => s.returns exits
  | .goesOn => s.goesOn numEvents

/-- `process_init`; the bytes of the static variables are 0. -/
def init : Kernel P where
  processList := []
  stale := fun _ ↦ none
  state := fun _ ↦ .none
  needspoll := fun _ ↦ false
  current := none
  nevents := 0
  fevent := 0
  events := fun _ ↦ ⟨0, .null, none⟩
  pollRequested := false
  stack := []
  returned := 0
  history := ⟨[], [], [], [], 0⟩

end Kernel

end ContikiMaster.Sys
