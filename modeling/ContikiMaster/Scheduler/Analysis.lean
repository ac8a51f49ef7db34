import ContikiMaster.Scheduler.Create

/-!
# The schedulability analysis

`schedulability_analysis.py` repeats the four placement loops of the scheduler, without modes: a
cell that misses its deadline ends the call with the character 0 in the log, and a call that
places every cell writes 1.
-/

namespace ContikiMaster.Scheduler

open Lib

namespace Analysis

/-- How a scheduler of the tool ends before its last cell. -/
inductive Stop
  /-- It writes 0 and returns. -/
  | logged
  | raised (error : SchedulerError)
  deriving DecidableEq

/-- The character written to the log, whether it is 1, or the exception. -/
def verdict {σ : Type} : Except Stop σ → Except SchedulerError Bool
  | .ok _ => .ok true
  | .error .logged => .ok false
  | .error (.raised error) => .error error

/-- A `schedule` of the tool, with its dimensions. -/
structure Table where
  numChannels : ℕ
  length : ℕ
  cells : Grid Cell

def Table.write (schedule : Table) (channel slot : ℕ) (cell : Cell) : Table :=
  { schedule with cells := schedule.cells.write channel slot cell }

/-- What `create_schedule` does to one flow. -/
def prepareFlow (cells : Flow → Except SchedulerError (List (List ℕ)))
    (shortestRepeatingCycle : ℕ) (flow : Flow) (id : ℕ) : Except SchedulerError Flow := do
  let participants ← cells flow
  if (1 < shortestRepeatingCycle ∧ shortestRepeatingCycle < flow.releaseTime) ∨
      (shortestRepeatingCycle ≠ 1 ∧ shortestRepeatingCycle ≤ flow.releaseTime) then
    if shortestRepeatingCycle = 0 then .error .zeroDivision
    else return { flow with
      id := id
      cells := participants.zipIdx.map fun cell ↦ ⟨id, cell.2, flow.flowNumber, cell.1⟩
      releaseTime := flow.releaseTime % shortestRepeatingCycle }
  else return { flow with
    id := id
    cells := participants.zipIdx.map fun cell ↦ ⟨id, cell.2, flow.flowNumber, cell.1⟩ }

/-- `create_schedule`, where the cells of a flow are made by `cells`. -/
def createScheduleOf (cells : Flow → Except SchedulerError (List (List ℕ))) (flows : List Flow)
    (shortestRepeatingCycle : ℕ) : Except SchedulerError (List Flow × Table) := do
  let scheduleFlows ← flows.zipIdx.mapM fun flow ↦
    prepareFlow cells shortestRepeatingCycle flow.1 flow.2
  let maxScheduleLength := (flows.map fun flow ↦ flow.path.length).sum
  let maxTimeSlot := (flows.map Flow.releaseTime).foldl max 0
  return (scheduleFlows,
    ⟨4, maxScheduleLength * shortestRepeatingCycle + maxTimeSlot, fun _ _ ↦ none⟩)

def findSchedulableSlot (schedule : Table) (cell : Cell) (releaseTimeIdx : ℕ) : Option (ℕ × ℕ) :=
  Scheduler.findSchedulableSlot schedule.length schedule.numChannels schedule.cells cell
    releaseTimeIdx

/-- The test at which the tool gives up. -/
def misses (shortestRepeatingCycle : ℕ) (flow : Flow) (slot : ℕ) : Prop :=
  flow.releaseTime + flow.dueTime ≤ slot ∨
    (shortestRepeatingCycle ≠ 1 ∧ shortestRepeatingCycle < slot + 1)

instance (shortestRepeatingCycle : ℕ) (flow : Flow) (slot : ℕ) :
    Decidable (misses shortestRepeatingCycle flow slot) :=
  inferInstanceAs (Decidable (_ ∨ _))

/-- One cell of `scheduler_EDF` and `scheduler_RMS`. -/
def inOrderCell (shortestRepeatingCycle : ℕ) (flow : Flow) (x : ℕ × Table) (cell : Cell) :
    Except Stop (ℕ × Table) :=
  match findSchedulableSlot x.2 cell x.1 with
  | none => .error (.raised .faultyFlow)
  | some (channel, slot) =>
    if misses shortestRepeatingCycle flow slot then .error .logged
    else .ok (slot + 1, x.2.write channel slot cell)

def inOrderFlow (shortestRepeatingCycle : ℕ) (schedule : Table) (flow : Flow) :
    Except Stop Table := do
  let (_, schedule) ← flow.cells.foldlM (inOrderCell shortestRepeatingCycle flow)
    (flow.releaseTime, schedule)
  return schedule

def schedulerEdf (scheduleFlows : List Flow) (shortestRepeatingCycle : ℕ) (schedule : Table) :
    Except SchedulerError Bool :=
  verdict ((orderByDeadline scheduleFlows).foldlM (inOrderFlow shortestRepeatingCycle) schedule)

def schedulerRms (scheduleFlows : List Flow) (shortestRepeatingCycle : ℕ) (schedule : Table) :
    Except SchedulerError Bool :=
  verdict ((orderByPeriod scheduleFlows).foldlM (inOrderFlow shortestRepeatingCycle) schedule)

/-- `release_time`, `transmissions_flows` and `schedule`. -/
structure CLlfState where
  releaseTime : ℕ
  transmissionsFlows : List CellCLlf
  schedule : Table

def cLlfCell (shortestRepeatingCycle : ℕ) (transmission : CellCLlf) (x : CLlfState) (cell : Cell) :
    Except Stop CLlfState :=
  match findSchedulableSlot x.schedule cell x.releaseTime with
  | none => .ok x
  | some (channel, slot) =>
    if misses shortestRepeatingCycle transmission.flow slot then .error .logged
    else .ok ⟨slot + 1, x.transmissionsFlows.filter fun z ↦
      !(z.cell == cell && transmission.flow.subFlowNumber == z.flow.subFlowNumber),
      x.schedule.write channel slot cell⟩

/-- The inner loop of `scheduler_C_LLF`, with the number of channels left. -/
def cLlfChannels (shortestRepeatingCycle : ℕ) :
    ℕ → List CellCLlf → List CellCLlf × Table → Except Stop (List CellCLlf × Table)
  | 0, _, x => .ok x
  | channels + 1, toRelease, x =>
    match chooseTransmission toRelease with
    | none => .ok x
    | some transmission => do
      let y ← transmission.flow.cells.foldlM (cLlfCell shortestRepeatingCycle transmission)
        ⟨transmission.flow.releaseTime, x.1, x.2⟩
      -- as in the scheduler, a set of nodes is compared with a set of tuples
      let toRelease := toRelease.filter fun z ↦
        z.cell.participants.isEmpty && transmission.flow.cells.isEmpty
      cLlfChannels shortestRepeatingCycle channels toRelease (y.transmissionsFlows, y.schedule)

def cLlfLoop (shortestRepeatingCycle : ℕ) :
    ℕ → ℕ → List CellCLlf × Table → Except Stop Table
  | _, _, ([], schedule) => .ok schedule
  | 0, _, _ => .error (.raised .outOfFuel)
  | fuel + 1, timeslotIdx, (transmissionsFlows, schedule) => do
    let released := transmissionsFlows.filter fun z ↦ decide (z.flow.releaseTime ≤ timeslotIdx)
    let transmissionsFlows := transmissionsFlows.map fun z ↦
      { z with laxity := computeLaxity z released timeslotIdx }
    let toRelease := transmissionsFlows.filter fun z ↦ decide (z.flow.releaseTime ≤ timeslotIdx)
    let y ← cLlfChannels shortestRepeatingCycle schedule.numChannels toRelease
      (transmissionsFlows, schedule)
    cLlfLoop shortestRepeatingCycle fuel (timeslotIdx + 1) y

def schedulerCLlf (fuel : ℕ) (scheduleFlows : List Flow) (shortestRepeatingCycle : ℕ)
    (schedule : Table) : Except SchedulerError Bool :=
  verdict (cLlfLoop shortestRepeatingCycle fuel 0 (allTransmissions scheduleFlows, schedule))

def schedulableInSlot (schedule : Table) (usedNodesInTimeslot : ℕ → List ℕ) (slot : ℕ)
    (participants : List ℕ) : Bool :=
  if (List.range schedule.numChannels).any fun channel ↦ (schedule.cells channel slot).isNone then
    if (usedNodesInTimeslot slot).isEmpty then true
    else participants.all fun participant ↦ decide (participant ∉ usedNodesInTimeslot slot)
  else false

def availableChannelInSlot (schedule : Table) (slot : ℕ) : ℕ :=
  Scheduler.availableChannelInSlot schedule.numChannels schedule.cells slot

/-- The slot at which the loop over `insert_at_index` stops, if it does not leave the schedule. -/
def insertIndex (schedule : Table) (usedNodesInTimeslot : ℕ → List ℕ)
    (currentIdx insertAtIndex : ℕ) (participants : List ℕ) : Option ℕ :=
  (List.range schedule.length).find? fun slot ↦ decide (insertAtIndex ≤ slot) &&
    schedulableInSlot schedule usedNodesInTimeslot slot participants && decide (currentIdx ≤ slot)

/-- `insert_at_index`, `used_nodes_in_timeslot` and `schedule`. -/
structure RLpfCellState where
  insertAtIndex : ℕ
  usedNodesInTimeslot : ℕ → List ℕ
  schedule : Table

def rLpfCell (shortestRepeatingCycle currentIdx : ℕ) (flow : Flow) (x : RLpfCellState)
    (cell : Cell) : Except Stop RLpfCellState :=
  match insertIndex x.schedule x.usedNodesInTimeslot currentIdx x.insertAtIndex
    cell.participants with
  | none => .error (.raised .indexError)
  | some slot =>
    if misses shortestRepeatingCycle flow slot then .error .logged
    else .ok ⟨slot, Function.update x.usedNodesInTimeslot slot
        (x.usedNodesInTimeslot slot ++ cell.participants),
      x.schedule.write (availableChannelInSlot x.schedule slot) slot cell⟩

/-- `current_flow_number` and `current_idx`, beside what the cells change. -/
structure RLpfState where
  currentFlowNumber : Option ℕ
  currentIdx : ℕ
  usedNodesInTimeslot : ℕ → List ℕ
  schedule : Table

def rLpfFlow (shortestRepeatingCycle : ℕ) (x : RLpfState) (flow : Flow) :
    Except Stop RLpfState := do
  let currentIdx := if x.currentFlowNumber = some flow.flowNumber then x.currentIdx else 0
  let y ← flow.cells.reverse.foldlM (rLpfCell shortestRepeatingCycle currentIdx flow)
    ⟨0, x.usedNodesInTimeslot, x.schedule⟩
  return ⟨some flow.flowNumber, currentIdx + flow.period, y.usedNodesInTimeslot, y.schedule⟩

def schedulerRLpf (scheduleFlows : List Flow) (shortestRepeatingCycle : ℕ) (schedule : Table)
    (usedNodesInTimeslot : ℕ → List ℕ) : Except SchedulerError Bool :=
  verdict ((orderFlowsDecreasing scheduleFlows).foldlM (rLpfFlow shortestRepeatingCycle)
    ⟨none, 0, usedNodesInTimeslot, schedule⟩)

/-- A scheduler of the tool on the schedule that `createScheduleOf` made. -/
def analyse (algorithm : SchedulingAlgorithm) (fuel : ℕ) (shortestRepeatingCycle : ℕ)
    (fresh : List Flow × Table) : Except SchedulerError Bool :=
  match algorithm with
  | .rLpf => schedulerRLpf fresh.1 shortestRepeatingCycle fresh.2 fun _ ↦ []
  | .edf => schedulerEdf fresh.1 shortestRepeatingCycle fresh.2
  | .rms => schedulerRms fresh.1 shortestRepeatingCycle fresh.2
  | .cLlf => schedulerCLlf fuel fresh.1 shortestRepeatingCycle fresh.2

/-- One round of the tool for one algorithm: `create_schedule` and the scheduler. -/
def run (cells : Flow → Except SchedulerError (List (List ℕ))) (algorithm : SchedulingAlgorithm)
    (fuel : ℕ) (flows : List Flow) (shortestRepeatingCycle : ℕ) : Except SchedulerError Bool := do
  let fresh ← createScheduleOf cells flows shortestRepeatingCycle
  analyse algorithm fuel shortestRepeatingCycle fresh

end Analysis

end ContikiMaster.Scheduler
