import ContikiMaster.Rpl.Neighbor
import ContikiMaster.Sys.LinkedTimers

/-!
# The timers of the DAG at a join and a global repair

`rpl-dag.c` and `rpl-timers.c`, with probing, as far as they set and stop callback timers from the
moment a DIO makes the node join, or take part in a global repair. `init_dag` clears the timers of
the DAG, also those that are on the lists. One that is set while the list of event timers still
has it closes that list to a circle; a timer of another module behind a cleared one is off it.
-/

namespace ContikiMaster.Rpl

open Lib Sys List

/-- The callback timers in `rpl_dag_t`. -/
inductive DagTimer
  | stateUpdate
  | leave
  | dioTimer
  | unicastDioTimer
  | daoTimer
  | probingTimer
  | daoAckTimer
  deriving DecidableEq

/-- A timer of the DAG, or one of another module. -/
inductive RplTimer (M : Type)
  | dag (timer : DagTimer)
  | other (m : M)
  deriving DecidableEq

/-- The instance holds the timer. -/
def RplTimer.isDag {M : Type} : RplTimer M → Bool
  | .dag _ => true
  | .other _ => false

/-- What RPL does with a timer of the DAG, unconditionally or by what `ctimer_expired` says. -/
inductive TimerCall
  | set (timer : DagTimer)
  | setIfExpired (timer : DagTimer)
  | stop (timer : DagTimer)
  | stopUnlessExpired (timer : DagTimer)

/-- The clock, and the delay that is drawn, when a timer is set. -/
structure Draw where
  clockTime : ℕ
  delay : ℕ

/-- What `best_parent` gives: whether the best acceptable parent is fresh, if there is one, and
whether one of the acceptable parents is. -/
structure Candidates where
  best : Option Bool
  bestFresh : Bool

def mopNoDownwardRoutes : ℕ := 0

/-- What the processing of a DIO does after `init_dag` has cleared the instance. In a join, RPL
neighbours may be evicted to store the sender; a global repair that was accepted removes them all.
It is not accepted when the objective function is not supported or the prefix cannot be set. -/
inductive DioEvent
  | join (mop evicted : ℕ) (candidates : Candidates)
  | globalRepair (accepted : Bool) (mop neighbors : ℕ) (candidates : Candidates)

/-- `rpl_dag_ready_to_advertise`, of a used instance. -/
def rplDagReadyToAdvertise (mop : ℕ) (state : DagState) : Bool :=
  decide (mop = mopNoDownwardRoutes ∨ state = .reachable ∨ state = .poisoning)

def rplTimersDioReset (mop : ℕ) (state : DagState) : List TimerCall :=
  if rplDagReadyToAdvertise mop state then [.set .dioTimer] else []

def rplTimersScheduleDao (mop : ℕ) : List TimerCall :=
  if mop ≠ mopNoDownwardRoutes then [.set .daoTimer] else []

/-- `rpl_neighbor_select_best` asks for an urgent probing. The instance was cleared, so there is no
urgent target and no preferred parent yet. -/
def Candidates.probed (candidates : Candidates) : Bool := candidates.best == some false

/-- `rpl_neighbor_select_best` gives a parent. -/
def Candidates.selected (candidates : Candidates) : Bool :=
  candidates.best == some true || candidates.probed && candidates.bestFresh

/-- `rpl_dag_update_state`, without a preferred parent before. -/
def rplDagUpdateState (mop : ℕ) (candidates : Candidates) : List TimerCall :=
  [.stop .stateUpdate] ++ (if candidates.probed then [.set .probingTimer] else []) ++
    if candidates.selected then
      rplTimersDioReset mop .joined ++ [.stopUnlessExpired .leave] ++ rplTimersScheduleDao mop
    else []

/-- The calls of `remove_neighbor`, once for each neighbour. -/
def removeNeighbors (count : ℕ) : List TimerCall := replicate count (.set .stateUpdate)

/-- `rpl_local_repair`, with this number of neighbours; none is left to select a parent from. -/
def rplLocalRepair (mop neighbors : ℕ) : List TimerCall :=
  removeNeighbors neighbors ++ rplDagUpdateState mop ⟨none, false⟩ ++
    rplTimersDioReset mop .initialized ++ [.set .stateUpdate]

/-- The end of `process_dio_init_dag`. -/
def processDioInitDag (mop : ℕ) : List TimerCall :=
  rplTimersDioReset mop .initialized ++ [.set .probingTimer, .setIfExpired .leave]

/-- `rpl_process_dio` from `init_dag` on. -/
def DioEvent.calls : DioEvent → List TimerCall
  | .join mop evicted candidates =>
    processDioInitDag mop ++ removeNeighbors evicted ++ rplDagUpdateState mop candidates
  | .globalRepair false _ _ _ => []
  | .globalRepair true mop neighbors candidates =>
    rplLocalRepair mop neighbors ++ rplDagUpdateState mop candidates

variable {M F : Type} [DecidableEq M]

/-- One call; `handle` are the callbacks of the timers. -/
def TimerCall.perform (handle : DagTimer → F) (draw : Draw) (s : LinkedTimers (RplTimer M) F)
    (fuel : ℕ) : TimerCall → Option (LinkedTimers (RplTimer M) F)
  | .set timer => s.ctimerSet (.dag timer) draw.clockTime draw.delay (some (handle timer)) fuel
  | .setIfExpired timer =>
    if s.ctimerExpired (.dag timer) then
      s.ctimerSet (.dag timer) draw.clockTime draw.delay (some (handle timer)) fuel
    else some s
  | .stop timer => s.ctimerStop (.dag timer) fuel
  | .stopUnlessExpired timer =>
    if s.ctimerExpired (.dag timer) then some s else s.ctimerStop (.dag timer) fuel

def performAll (handle : DagTimer → F) :
    List TimerCall → (ℕ → Draw) → LinkedTimers (RplTimer M) F → ℕ →
      Option (LinkedTimers (RplTimer M) F)
  | [], _, s, _ => some s
  | call :: calls, draws, s, fuel =>
    (call.perform handle (draws 0) s fuel).bind fun s ↦
      performAll handle calls (fun i ↦ draws (i + 1)) s fuel

/-- The `memset` of `init_dag`. -/
def initDagTimers (s : LinkedTimers (RplTimer M) F) : LinkedTimers (RplTimer M) F where
  ctimer timer := if timer.isDag then ⟨0, 0, false, none⟩ else s.ctimer timer
  timerlist := ⟨s.timerlist.head, fun timer ↦ if timer.isDag then none else s.timerlist.next timer⟩
  ctimerList :=
    ⟨s.ctimerList.head, fun timer ↦ if timer.isDag then none else s.ctimerList.next timer⟩

/-- `rpl_process_dio` from `init_dag` on, with its effect on the timers. -/
def rplProcessDio (handle : DagTimer → F) (event : DioEvent) (draws : ℕ → Draw)
    (s : LinkedTimers (RplTimer M) F) (fuel : ℕ) : Option (LinkedTimers (RplTimer M) F) :=
  performAll handle event.calls draws (initDagTimers s) fuel

/-- Whether a call sets a timer that was cleared, or stops it; nothing when it leaves it alone. -/
def TimerCall.touch (timer : DagTimer) : TimerCall → Option Bool
  | .set t => if t = timer then some true else none
  | .setIfExpired t => if t = timer then some true else none
  | .stop t => if t = timer then some false else none
  | .stopUnlessExpired _ => none

/-- The first call that does not leave a cleared timer alone sets it. -/
def setsFirst (calls : List TimerCall) (timer : DagTimer) : Prop :=
  calls.findSome? (TimerCall.touch timer) = some true

/-- The timers that the processing of a DIO sets, without having stopped them before. -/
def DioEvent.Rearms : DioEvent → DagTimer → Prop
  | .join mop evicted candidates, timer =>
    match timer with
    | .leave => True
    | .probingTimer => True
    | .dioTimer => mop = mopNoDownwardRoutes
    | .daoTimer => mop ≠ mopNoDownwardRoutes ∧ candidates.selected
    | .stateUpdate => evicted ≠ 0
    | .unicastDioTimer => False
    | .daoAckTimer => False
  | .globalRepair accepted mop neighbors candidates, timer =>
    accepted ∧
      match timer with
      | .leave => False
      | .probingTimer => candidates.probed
      | .dioTimer => mop = mopNoDownwardRoutes
      | .daoTimer => mop ≠ mopNoDownwardRoutes ∧ candidates.selected
      | .stateUpdate => neighbors ≠ 0
      | .unicastDioTimer => False
      | .daoAckTimer => False

theorem findSome_removeNeighbors (timer : DagTimer) (count : ℕ) :
    (removeNeighbors count).findSome? (TimerCall.touch timer) =
      if timer = .stateUpdate ∧ count ≠ 0 then some true else none := by
  induction count with
  | zero => simp [removeNeighbors]
  | succ count ih =>
    by_cases htimer : timer = .stateUpdate
    · simp [removeNeighbors, replicate_succ, TimerCall.touch, htimer]
    · rw [removeNeighbors] at ih
      simp [removeNeighbors, replicate_succ, TimerCall.touch, htimer, Ne.symm htimer, ih]

theorem findSome_rplDagUpdateState (timer : DagTimer) (mop : ℕ) (candidates : Candidates) :
    (rplDagUpdateState mop candidates).findSome? (TimerCall.touch timer) =
      match timer with
      | .stateUpdate => some false
      | .probingTimer => if candidates.probed then some true else none
      | .dioTimer =>
        if candidates.selected ∧ mop = mopNoDownwardRoutes then some true else none
      | .daoTimer =>
        if candidates.selected ∧ mop ≠ mopNoDownwardRoutes then some true else none
      | _ => none := by
  rw [rplDagUpdateState]
  cases candidates.probed <;> cases candidates.selected <;>
    by_cases hmop : mop = mopNoDownwardRoutes <;> cases timer <;>
    simp [TimerCall.touch, rplTimersDioReset, rplTimersScheduleDao, rplDagReadyToAdvertise, hmop,
      findSome?_cons]

theorem setsFirst_iff (event : DioEvent) (timer : DagTimer) :
    setsFirst event.calls timer ↔ event.Rearms timer := by
  cases event with
  | join mop evicted candidates =>
    rw [setsFirst, DioEvent.calls, processDioInitDag, findSome?_append, findSome?_append,
      findSome_removeNeighbors, findSome_rplDagUpdateState]
    by_cases hmop : mop = mopNoDownwardRoutes <;> cases timer <;> cases evicted <;>
      simp [DioEvent.Rearms, TimerCall.touch, rplTimersDioReset, rplDagReadyToAdvertise, hmop]
  | globalRepair accepted mop neighbors candidates =>
    cases accepted with
    | false => simp [setsFirst, DioEvent.calls, DioEvent.Rearms]
    | true =>
      rw [setsFirst, DioEvent.calls, rplLocalRepair, findSome?_append, findSome?_append,
        findSome?_append, findSome?_append, findSome_removeNeighbors,
        findSome_rplDagUpdateState, findSome_rplDagUpdateState]
      have hprobed : (⟨none, false⟩ : Candidates).probed = false := rfl
      have hselected : (⟨none, false⟩ : Candidates).selected = false := rfl
      by_cases hmop : mop = mopNoDownwardRoutes <;> cases timer <;> cases neighbors <;>
        simp [DioEvent.Rearms, TimerCall.touch, rplTimersDioReset, rplDagReadyToAdvertise, hprobed,
          hselected, hmop]

end ContikiMaster.Rpl
