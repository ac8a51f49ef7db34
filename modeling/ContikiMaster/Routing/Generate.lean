import ContikiMaster.Routing.Install
import ContikiMaster.Scheduler.DiscoverySlotframe

/-!
# The schedule file

`Contiki_schedule.generate` of the Master tool, which writes the schedule file that is
compiled into the firmware. The time sources, which come from the shortest paths of the
graph, are a parameter.
-/

namespace ContikiMaster.Routing

open Scheduler List

/-- The arguments of `Contiki_schedule`, and the time sources it computes. -/
structure GenerateArgs where
  nodeIds : List ℕ
  /-- `None` for all nodes without `with_timesource`. -/
  timesource : ℕ → Option ℕ
  /-- `minimal_schedule_length`, which the tool's main program does not let fall below 21. -/
  minimalScheduleLength : ℕ

structure GeneratedMacros where
  /-- `MAX_TX_SIZE`. -/
  maxTxSize : ℕ
  /-- `TSCH_SCHEDULE_CONF_MAX_LINKS`. -/
  maxLinks : ℕ

/-- The flows by their numbers, flows of one number in their order. -/
def sortByFlowNumber (flows : List Flow) : List Flow :=
  flows.insertionSort fun f g ↦ f.flowNumber ≤ g.flowNumber

/-- The loops that keep the first flow of every number. -/
def firstOfEachNumber (flows : List Flow) : List Flow :=
  (sortByFlowNumber flows).foldl (fun kept flow ↦
    if kept.any fun other ↦ other.flowNumber == flow.flowNumber then kept else kept ++ [flow]) []

/-- The attribute `timeslot` of a cell, -1 before it is set. -/
def cellTimeslot (s : Schedule) (cell : Cell) : ℤ := (s.attributes cell).elim (-1) fun place ↦ place.1

def cellChannel (s : Schedule) (cell : Cell) : ℤ := (s.attributes cell).elim (-1) fun place ↦ place.2

/-- The sub-flows of a number, by the timeslots of their first cells. -/
def subFlowsOf (s : Schedule) (flowNumber : ℕ) : List Flow :=
  ((sortByFlowNumber s.flows).filter fun flow ↦ flow.flowNumber == flowNumber).insertionSort
    fun f g ↦ (f.cells.head?.elim (-1) (cellTimeslot s)) ≤ (g.cells.head?.elim (-1) (cellTimeslot s))

/-- The value of a 16-bit variable that a number is assigned to. -/
def asUint16 (value : ℤ) : ℕ := (value % 65536).toNat

def txWindowsOf (s : Schedule) (flow : Flow) : List TxWindow :=
  (subFlowsOf s flow.flowNumber).zipIdx.map fun subFlow ↦
    ⟨flow.flowNumber - 1, subFlow.2, asUint16 (subFlow.1.cells.head?.elim (-1) (cellTimeslot s)),
      asUint16 (subFlow.1.cells.getLast?.elim (-1) (cellTimeslot s))⟩

def getFlowFromSender (s : Schedule) (nodeId : ℕ) : Option Flow :=
  s.flows.find? fun flow ↦ flow.source == nodeId

def getFlowFromId (s : Schedule) (id : ℕ) : Option Flow :=
  s.flows.find? fun flow ↦ id == flow.flowNumber

def slotframeLength (args : GenerateArgs) (s : Schedule) : ℕ :=
  if s.length < args.minimalScheduleLength then args.minimalScheduleLength else s.length

/-- `get_node_schedule`, for one node: its cells, slot by slot. -/
def getNodeSchedule (args : GenerateArgs) (s : Schedule) (nodeId : ℕ) : List Cell :=
  (range s.length).flatMap fun timeslot ↦ (range s.numChannels).flatMap fun channel ↦
    match s.schedule channel timeslot with
    | none => []
    | some cell => (cell.participants.filter fun participant ↦
        participant == nodeId && decide (nodeId ∈ args.nodeIds)).map fun _ ↦ cell

/-- The link of a node for one of its cells, and the neighbor. -/
def linkOf (s : Schedule) (nodeId : ℕ) (cell : Cell) :
    Except SchedulerError (ScheduledLink × ℕ) :=
  let cellNodeIndex := cell.participants.idxOf nodeId
  let link := fun options ↦ (⟨cell.flowNumber, options, asUint16 (cellTimeslot s cell),
    asUint16 (cellChannel s cell)⟩ : ScheduledLink)
  if cell.participants.length < 2 then .error .indexError
  else if cellNodeIndex = 0 then .ok (link 1, cell.participants.getD 1 0)
  else if cellNodeIndex = cell.participants.length - 1 then
    .ok (link 2, cell.participants.getD (cell.participants.length - 2) 0)
  else .ok (link 3, cell.participants.getD (cellNodeIndex + 1) 0)

def sortedListOfLinks (s : Schedule) (nodeId : ℕ) (cells : List Cell) :
    Except SchedulerError (List (ScheduledLink × ℕ)) := do
  let links ← cells.mapM (linkOf s nodeId)
  return links.insertionSort fun k l ↦
    k.2 < l.2 ∨ (k.2 = l.2 ∧ k.1.timeslot ≤ l.1.timeslot)

/-- `change_neighbor_on_link_index`, from a link index on. -/
def neighborChanges : ℕ → Option ℕ → List (ScheduledLink × ℕ) → List (ℕ × ℕ)
  | _, _, [] => []
  | linkIndex, lastNeighbor, link :: links =>
    (if some link.2 = lastNeighbor then [] else [(linkIndex, link.2)]) ++
      neighborChanges (linkIndex + 1) (some link.2) links

/-- `forward_to`: the links that are not receive-only, each entry once. -/
def forwardEntries (links : List (ScheduledLink × ℕ)) : List (ℕ × ℕ) :=
  ((links.filter fun link ↦ link.1.sendReceive != 2).map fun link ↦
    (link.1.slotframeHandle, link.2)).eraseDups

/-- The nodes with an entry in `max_transmissions` of a flow: all but the last of every sub-flow. -/
def sendersOf (flow : Flow) : List ℕ := (subFlowPaths flow).flatMap dropLast

/-- The flows whose entry of `max_transmissions` the block of a node sets. -/
def maxTransmissionsOf (s : Schedule) (nodeId : ℕ) (links : List (ScheduledLink × ℕ)) : List ℕ :=
  (((links.filter fun link ↦ link.1.sendReceive != 2).map fun link ↦
    link.1.slotframeHandle).eraseDups).filter fun flowNumber ↦
      (getFlowFromId s flowNumber).any fun flow ↦ decide (nodeId ∈ sendersOf flow)

/-- `own_transmission_flow`, `own_receiver` and `schedule_length` of a sender. -/
def ownPart (s : Schedule) (nodeId : ℕ) : Option (ℕ × ℕ × ℕ) :=
  (getFlowFromSender s nodeId).map fun flow ↦
    (flow.flowNumber, flow.destination, ((getFlowFromId s flow.flowNumber).getD flow).period)

/-- The block `if (node_id == ..)`; a node without a cell has none but for its time source. -/
def generateNodePart (args : GenerateArgs) (s : Schedule) (nodeId : ℕ) :
    Except SchedulerError (NodePart × List ℕ) := do
  let cells := getNodeSchedule args s nodeId
  if cells = [] then return (⟨none, [], [], [], args.timesource nodeId⟩, [])
  else
    let links ← sortedListOfLinks s nodeId cells
    return (⟨ownPart s nodeId, links.map Prod.fst, forwardEntries links,
      neighborChanges 0 none links, args.timesource nodeId⟩, maxTransmissionsOf s nodeId links)

/-- A schedule file, with the entries of `max_transmissions` it sets on each node, and the headers
it comes with. -/
structure GeneratedFile where
  schedule : GeneratedSchedule
  maxTransmissions : ℕ → List ℕ
  macros : GeneratedMacros

/-- The block of a node, empty where it could not be written. -/
def nodePartOf (args : GenerateArgs) (s : Schedule) (nodeId : ℕ) : NodePart × List ℕ :=
  (generateNodePart args s nodeId).toOption.getD (⟨none, [], [], [], none⟩, [])

/-- `Contiki_schedule.generate`. -/
def generate (args : GenerateArgs) (s : Schedule) : Except SchedulerError GeneratedFile := do
  -- the first cell of a flow without cells, and the columns of an incomplete row
  if s.flows.any fun flow ↦ flow.cells.isEmpty then .error .indexError
  else if s.availableSlotMatrix.any fun row ↦ decide (row.length < 5) then .error .indexError
  else
    let _ ← args.nodeIds.mapM (generateNodePart args s)
    let flows := firstOfEachNumber s.flows
    let linkCounts := args.nodeIds.map fun nodeId ↦ (nodePartOf args s nodeId).1.links.length
    return {
      schedule := {
        scheduleLength := slotframeLength args s
        flows := flows.map fun flow ↦ ⟨flow.flowNumber, flow.source, flow.destination⟩
        txWindows := flows.flatMap (txWindowsOf s)
        nodePart := fun nodeId ↦ (nodePartOf args s nodeId).1
        beaconSlot := if s.length < args.minimalScheduleLength then
          some (slotframeLength args s - 1) else none
        maxSlotFrameUsed := maxSlotUsed s.flows
        availableSlotMatrix := s.availableSlotMatrix.flatMap fun row ↦ row.take 5 }
      maxTransmissions := fun nodeId ↦ (nodePartOf args s nodeId).2
      macros := {
        maxTxSize := (flows.map fun flow ↦ (subFlowsOf s flow.flowNumber).length).foldl max 0
        maxLinks := linkCounts.foldl max 0 + 2 } }

end ContikiMaster.Routing
