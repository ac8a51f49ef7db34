import ContikiMaster.Lib.SlotTable
import ContikiMaster.Scheduler.Flow

/-!
# The scheduler

`Schedule.create` of the Master tool: the flows are ordered, their cells are put into a
grid by one of four algorithms, the grid is cut to its final length, and the timeslots
without a cell are handed out to the nodes. The loop of C-LLF has fuel.
-/

namespace ContikiMaster.Scheduler

open Lib Function List

inductive SchedulingAlgorithm
  | rLpf
  | edf
  | rms
  | cLlf
  deriving DecidableEq

/-- The values of `ignore_NSF`. -/
inductive IgnoreNsf
  | enabled
  | disabled
  | infeasible
  deriving DecidableEq

/-- The arguments of `Schedule.create`, and the link costs of the flows' graph. -/
structure CreateArgs where
  etx : ℕ → ℕ → ℚ
  numChannels : ℕ
  shortestRepeatingCycle : ℕ
  algorithm : SchedulingAlgorithm
  ignoreNsf : IgnoreNsf
  strategy : SchedulingStrategy
  numCoojaNodes : ℕ
  windowSizeAlgorithm : WindowSizeAlgorithm
  /-- Zero when none is given. -/
  fixedWindowSize : ℕ

structure Placement where
  schedule : Grid Cell
  usedNodesInTimeslot : ℕ → List ℕ
  cnmid : ℕ → Bool
  lastTimeslot : ℕ
  infeasibleFlows : List (Flow × List ℕ)

def Placement.empty : Placement := ⟨fun _ _ ↦ none, fun _ ↦ [], fun _ ↦ false, 0, []⟩

def adjustReleaseTime (shortestRepeatingCycle releaseTime : ℕ) : ℕ :=
  if (1 < shortestRepeatingCycle ∧ shortestRepeatingCycle < releaseTime) ∨
      (shortestRepeatingCycle ≠ 1 ∧ shortestRepeatingCycle ≤ releaseTime) then
    releaseTime % shortestRepeatingCycle
  else releaseTime

def initFlow (args : CreateArgs) (flow : Flow) (id : ℕ) : Except SchedulerError Flow := do
  let participants ← createCells args.etx args.strategy args.windowSizeAlgorithm
    args.fixedWindowSize flow
  if args.shortestRepeatingCycle = 0 then .error .zeroDivision
  else return { flow with
    id := id
    cells := participants.zipIdx.map fun cell ↦ ⟨id, cell.2, flow.flowNumber, cell.1⟩
    releaseTime := adjustReleaseTime args.shortestRepeatingCycle flow.releaseTime }

def initFlows (args : CreateArgs) (flows : List Flow) : Except SchedulerError (List Flow) :=
  flows.zipIdx.mapM fun flow ↦ initFlow args flow.1 flow.2

/-- The number of timeslots the grid is made with. -/
def gridLength (args : CreateArgs) (flows : List Flow) : ℕ :=
  (flows.map fun flow ↦ flow.path.length).sum * args.shortestRepeatingCycle +
    (flows.map Flow.releaseTime).foldl max 0

def allDeadlines (flows : List Flow) : Bool := flows.all fun flow ↦ flow.deadline.isSome

/-- The schedulability analysis: a slot after the deadline or after the hyper-period. -/
def missesDeadline (args : CreateArgs) (flow : Flow) (slot : ℕ) : Bool :=
  flow.deadline.any (fun deadline ↦ decide (flow.releaseTime + deadline ≤ slot)) ||
    (decide (args.shortestRepeatingCycle ≠ 1) && decide (args.shortestRepeatingCycle < slot + 1))

/-- The analysis of a cell and its placement, and whether it was placed; `participants` are noted
for a flow that is infeasible. -/
def settleCell (args : CreateArgs) (checked : Bool) (flow : Flow) (participants : List ℕ)
    (cell : Cell) (channel slot : ℕ) (x : Placement) : Except SchedulerError (Bool × Placement) :=
  let missed := checked && missesDeadline args flow slot
  if missed && args.ignoreNsf == .infeasible then .error .infeasibleScheduler
  else
    let cnmid := if missed then update x.cnmid flow.id true else x.cnmid
    if checked && args.ignoreNsf == .enabled && cnmid flow.id then
      .ok (false, { x with
        cnmid := cnmid, infeasibleFlows := x.infeasibleFlows ++ [(flow, participants)] })
    else .ok (true, { x with cnmid := cnmid, schedule := x.schedule.write channel slot cell })

/-- `available_channel_in_slot`; `False` is channel 0. -/
def availableChannelInSlot (numChannels : ℕ) (schedule : Grid Cell) (slot : ℕ) : ℕ :=
  ((range numChannels).find? fun channel ↦ (schedule channel slot).isNone).getD 0

def schedulableInSlot (numChannels : ℕ) (x : Placement) (slot : ℕ) (participants : List ℕ) : Bool :=
  (range numChannels).any (fun channel ↦ (x.schedule channel slot).isNone) &&
    ((x.usedNodesInTimeslot slot).isEmpty ||
      participants.all fun participant ↦ decide (participant ∉ x.usedNodesInTimeslot slot))

/-- The channels of one timeslot in `find_schedulable_slot`. -/
def findChannel (schedule : Grid Cell) (cell : Cell) (releaseTimeIdx timeslot : ℕ) :
    List ℕ → Option (ℕ × ℕ)
  | [] => none
  | channel :: channels =>
    match schedule channel timeslot with
    | some other =>
      if cell.participants.any fun participant ↦ decide (participant ∈ other.participants) then none
      else findChannel schedule cell releaseTimeIdx timeslot channels
    | none =>
      if releaseTimeIdx ≤ timeslot then some (channel, timeslot)
      else findChannel schedule cell releaseTimeIdx timeslot channels

/-- `find_schedulable_slot`, for a grid with that many timeslots and channels. -/
def findSchedulableSlot (length numChannels : ℕ) (schedule : Grid Cell) (cell : Cell)
    (releaseTimeIdx : ℕ) : Option (ℕ × ℕ) :=
  (range length).findSome? fun timeslot ↦
    findChannel schedule cell releaseTimeIdx timeslot (range numChannels)

def orderFlowsDecreasing (flows : List Flow) : List Flow :=
  flows.insertionSort fun f g ↦ g.cells.length ≤ f.cells.length

/-- The timeslot at which the search of R-LPF stops. -/
def nextInsertIndex (length numChannels currentIdx : ℕ) (x : Placement) (insertAtIndex : ℕ)
    (participants : List ℕ) : Option ℕ :=
  (range length).find? fun slot ↦ decide (insertAtIndex ≤ slot) &&
    schedulableInSlot numChannels x slot participants && decide (currentIdx ≤ slot)

def rLpfCell (args : CreateArgs) (length : ℕ) (checked : Bool) (currentIdx : ℕ) (flow : Flow)
    (x : ℕ × Placement) (cell : Cell) : Except SchedulerError (ℕ × Placement) :=
  match nextInsertIndex length args.numChannels currentIdx x.2 x.1 cell.participants with
  | none => .error .indexError
  | some slot => do
    let (placed, y) ← settleCell args checked flow cell.participants cell
      (availableChannelInSlot args.numChannels x.2.schedule slot) slot x.2
    return (slot, if placed then { y with
      usedNodesInTimeslot := update y.usedNodesInTimeslot slot
        (y.usedNodesInTimeslot slot ++ cell.participants)
      lastTimeslot := max y.lastTimeslot slot } else y)

/-- `current_flow_number` and `current_idx`, beside the placement. -/
structure RLpfState where
  currentFlowNumber : Option ℕ
  currentIdx : ℕ
  placement : Placement

def rLpfFlow (args : CreateArgs) (length : ℕ) (checked : Bool) (x : RLpfState) (flow : Flow) :
    Except SchedulerError RLpfState := do
  let currentIdx := if x.currentFlowNumber = some flow.flowNumber then x.currentIdx else 0
  let (_, placement) ← flow.cells.reverse.foldlM (rLpfCell args length checked currentIdx flow)
    (0, x.placement)
  return ⟨some flow.flowNumber, currentIdx + flow.period, placement⟩

def placeRLpf (args : CreateArgs) (length : ℕ) (flows : List Flow) :
    Except SchedulerError Placement := do
  let x ← flows.foldlM (rLpfFlow args length (allDeadlines flows)) ⟨none, 0, Placement.empty⟩
  return x.placement

/-- The deadline, where every flow has one. -/
def Flow.dueTime (flow : Flow) : ℕ := flow.deadline.getD 0

def orderByDeadline (flows : List Flow) : List Flow :=
  flows.insertionSort fun f g ↦ f.dueTime ≤ g.dueTime

def orderByPeriod (flows : List Flow) : List Flow :=
  flows.insertionSort fun f g ↦
    f.period < g.period ∨ (f.period = g.period ∧ f.dueTime ≤ g.dueTime)

/-- One cell in EDF and RMS, from the current release time. -/
def inOrderCell (args : CreateArgs) (length : ℕ) (flow : Flow) (x : ℕ × Placement) (cell : Cell) :
    Except SchedulerError (ℕ × Placement) :=
  match findSchedulableSlot length args.numChannels x.2.schedule cell x.1 with
  | none => .error .faultyFlow
  | some (channel, slot) => do
    let (placed, y) ← settleCell args true flow cell.participants cell channel slot x.2
    return if placed then (slot + 1, { y with lastTimeslot := max y.lastTimeslot slot })
      else (x.1, y)

def inOrderFlow (args : CreateArgs) (length : ℕ) (x : Placement) (flow : Flow) :
    Except SchedulerError Placement := do
  let (_, y) ← flow.cells.foldlM (inOrderCell args length flow) (flow.releaseTime, x)
  return y

def placeInOrder (args : CreateArgs) (length : ℕ) (flows : List Flow) :
    Except SchedulerError Placement :=
  flows.foldlM (inOrderFlow args length) Placement.empty

structure CellCLlf where
  flow : Flow
  cell : Cell
  laxity : ℤ

def computeLaxity (cellCLlf : CellCLlf) (toRelease : List CellCLlf) (timeslotIdx : ℕ) : ℤ :=
  let intersectionFlows := toRelease.filter fun x ↦
    decide (cellCLlf.flow.releaseTime ≤ x.flow.releaseTime) &&
      decide (x.flow.releaseTime ≤ cellCLlf.flow.dueTime) &&
      decide (cellCLlf.flow.source ∈ x.cell.participants)
  let criticalWindow := intersectionFlows.map fun y ↦
    (y.flow.dueTime : ℤ) - timeslotIdx + 1 -
      (intersectionFlows.filter fun x ↦ decide (timeslotIdx ≤ x.flow.releaseTime) &&
        decide (x.flow.dueTime ≤ y.flow.dueTime)).length
  criticalWindow.min?.getD cellCLlf.laxity

/-- `transmissions[0]`: of the smallest laxity, and of these of the smallest deadline. -/
def chooseTransmission (toRelease : List CellCLlf) : Option CellCLlf :=
  match toRelease.insertionSort fun x y ↦ x.laxity ≤ y.laxity with
  | [] => none
  | first :: rest =>
    (((first :: rest).filter fun x ↦ x.laxity == first.laxity).insertionSort fun x y ↦
      x.flow.dueTime ≤ y.flow.dueTime).head?

/-- What a round of C-LLF changes. -/
structure CLlfState where
  releaseTime : ℕ
  transmissionsFlows : List CellCLlf
  placement : Placement

/-- One cell of the flow that is chosen in C-LLF. -/
def cLlfCell (args : CreateArgs) (length : ℕ) (chosen : CellCLlf) (x : CLlfState) (cell : Cell) :
    Except SchedulerError CLlfState :=
  match findSchedulableSlot length args.numChannels x.placement.schedule cell x.releaseTime with
  | none => .ok x
  | some (channel, slot) => do
    let (placed, y) ← settleCell args true chosen.flow chosen.cell.participants cell channel slot
      x.placement
    return if placed then
        ⟨slot + 1, x.transmissionsFlows.filter fun z ↦
          !(z.cell == cell && chosen.flow.subFlowNumber == z.flow.subFlowNumber), y⟩
      else { x with placement := y }

/-- The loop over the channels in one timeslot of C-LLF, with the number of channels left. -/
def cLlfChannels (args : CreateArgs) (length : ℕ) :
    ℕ → List CellCLlf → List CellCLlf × Placement → Except SchedulerError (List CellCLlf × Placement)
  | 0, _, x => .ok x
  | channels + 1, toRelease, x =>
    match chooseTransmission toRelease with
    | none => .ok x
    | some chosen => do
      let y ← chosen.flow.cells.foldlM (cLlfCell args length chosen)
        ⟨chosen.flow.releaseTime, x.1, x.2⟩
      -- a set of nodes is compared with a set of tuples, equal only when both are empty
      let remaining := toRelease.filter fun z ↦
        z.cell.participants.isEmpty && chosen.flow.cells.isEmpty
      cLlfChannels args length channels remaining (y.transmissionsFlows, y.placement)

def cLlfLoop (args : CreateArgs) (length : ℕ) :
    ℕ → ℕ → List CellCLlf × Placement → Except SchedulerError Placement
  | _, _, ([], x) => .ok x
  | 0, _, _ => .error .outOfFuel
  | fuel + 1, timeslotIdx, (transmissionsFlows, x) => do
    let released := transmissionsFlows.filter fun z ↦ decide (z.flow.releaseTime ≤ timeslotIdx)
    let transmissionsFlows := transmissionsFlows.map fun z ↦
      { z with laxity := computeLaxity z released timeslotIdx }
    let toRelease := transmissionsFlows.filter fun z ↦ decide (z.flow.releaseTime ≤ timeslotIdx)
    let y ← cLlfChannels args length args.numChannels toRelease (transmissionsFlows, x)
    cLlfLoop args length fuel (timeslotIdx + 1) y

def allTransmissions (flows : List Flow) : List CellCLlf :=
  flows.flatMap fun flow ↦ flow.cells.map fun cell ↦ ⟨flow, cell, -1⟩

def placeCLlf (args : CreateArgs) (length fuel : ℕ) (flows : List Flow) :
    Except SchedulerError Placement :=
  cLlfLoop args length fuel 0 (allTransmissions flows, Placement.empty)

def orderFlows (algorithm : SchedulingAlgorithm) (flows : List Flow) : List Flow :=
  match algorithm with
  | .rLpf => orderFlowsDecreasing flows
  | .edf => orderByDeadline flows
  | .rms => orderByPeriod flows
  | .cLlf => flows

def placeOrdered (args : CreateArgs) (length fuel : ℕ) (flows : List Flow) :
    Except SchedulerError Placement :=
  match args.algorithm with
  | .rLpf => placeRLpf args length flows
  | .edf | .rms => if allDeadlines flows then placeInOrder args length flows
    else .error .deadlinesNeeded
  | .cLlf => if allDeadlines flows then placeCLlf args length fuel flows
    else .error .deadlinesNeeded

/-- The state before the schedule is finalised. -/
structure Placed where
  flows : List Flow
  length : ℕ
  placement : Placement

/-- `Schedule.create` up to the placement of all cells. -/
def placeCells (args : CreateArgs) (fuel : ℕ) (flows : List Flow) :
    Except SchedulerError Placed := do
  let ready ← initFlows args flows
  if args.numChannels = 0 then .error .indexError
  else
    let ordered := orderFlows args.algorithm ready
    let placement ← placeOrdered args (gridLength args flows) fuel ordered
    return ⟨ordered, gridLength args flows, placement⟩

def swapSlots (row : ℕ → Option Cell) (s t : ℕ) : ℕ → Option Cell :=
  update (update row s (row t)) t (row s)

def mirrorRow (lastTimeslot : ℕ) (row : ℕ → Option Cell) : ℕ → Option Cell :=
  (range ((lastTimeslot + 1) / 2)).foldl (fun row t ↦ swapSlots row t (lastTimeslot - t)) row

def keptLastTimeslot (args : CreateArgs) (x : Placement) : ℕ :=
  if 1 < args.shortestRepeatingCycle then args.shortestRepeatingCycle - 1 else x.lastTimeslot

/-- The grid cut to its final length, mirrored for R-LPF. -/
def cutSchedule (args : CreateArgs) (lastTimeslot : ℕ) (schedule : Grid Cell) : Grid Cell :=
  fun channel slot ↦
    if slot ≤ lastTimeslot then
      match args.algorithm with
      | .rLpf => mirrorRow lastTimeslot (schedule channel) slot
      | _ => schedule channel slot
    else none

/-- `set_schedule_attributes` for every cell, channel by channel: timeslot and channel. -/
def setScheduleAttributes (numChannels length : ℕ) (schedule : Grid Cell) :
    Cell → Option (ℕ × ℕ) :=
  (range numChannels).foldl (fun attributes channel ↦
    (range length).foldl (fun attributes slot ↦
      match schedule channel slot with
      | some cell => update attributes cell (some (slot, channel))
      | none => attributes) attributes) fun _ ↦ none

def slotUsed (numChannels : ℕ) (schedule : Grid Cell) (slot : ℕ) : Bool :=
  (range numChannels).any fun channel ↦ (schedule channel slot).isSome

/-- The first timeslot of a list that is free on channel 0 takes two more entries of a row. -/
def takeSlot (slots : List ℕ) (x : (ℕ → Bool) × List ℕ) (pre : List ℕ) : (ℕ → Bool) × List ℕ :=
  match slots.find? fun slot ↦ !x.1 slot with
  | none => x
  | some slot => (update x.1 slot true, x.2 ++ pre ++ [slot, 0])

def availableRow (length : ℕ) (used : ℕ → Bool) (node : ℕ) : (ℕ → Bool) × List ℕ :=
  let slots := range' 1 (length - 1)
  takeSlot slots.reverse (takeSlot slots (used, []) [node]) []

def availableSlotMatrix (numCoojaNodes length : ℕ) (schedule : Grid Cell) : List (List ℕ) :=
  ((range' 1 numCoojaNodes).foldl (fun x node ↦
    let row := availableRow length x.1 node
    (row.1, x.2 ++ [row.2]))
    ((fun slot ↦ (schedule 0 slot).isSome), [[0, 0, 0, 0, 0]])).2

/-- The schedule that `Schedule.create` leaves behind. -/
structure Schedule where
  flows : List Flow
  schedule : Grid Cell
  numChannels : ℕ
  length : ℕ
  attributes : Cell → Option (ℕ × ℕ)
  availableSlots : ℕ
  availableSlotMatrix : List (List ℕ)
  cnmid : ℕ → Bool

/-- The rest of `Schedule.create`. -/
def finalise (args : CreateArgs) (x : Placed) : Except SchedulerError Schedule :=
  let lastTimeslot := keptLastTimeslot args x.placement
  -- the loops run to the last timeslot, rows that are shorter end before
  if x.length < lastTimeslot + 1 then .error .indexError
  -- the message about infeasible flows formats strings as numbers
  else if x.placement.infeasibleFlows ≠ [] then .error .formatError
  else
    let length := lastTimeslot + 1
    let schedule := cutSchedule args lastTimeslot x.placement.schedule
    .ok {
      flows := x.flows
      schedule := schedule
      numChannels := args.numChannels
      length := length
      attributes := setScheduleAttributes args.numChannels length schedule
      availableSlots := ((range length).filter fun slot ↦
        !slotUsed args.numChannels schedule slot).length
      availableSlotMatrix := availableSlotMatrix args.numCoojaNodes length schedule
      cnmid := x.placement.cnmid }

def create (args : CreateArgs) (fuel : ℕ) (flows : List Flow) : Except SchedulerError Schedule := do
  let x ← placeCells args fuel flows
  finalise args x

end ContikiMaster.Scheduler
