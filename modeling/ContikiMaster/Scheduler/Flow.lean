import ContikiMaster.Lib.Call
import Mathlib.Data.Rat.Floor

/-!
# Flows and their cells

`flow.py` and `cell.py` of the Master tool: a flow with its shortest path is split into
sub-flows, and a retransmission strategy turns each of them into cells. Link costs are
rationals.
-/

namespace ContikiMaster.Scheduler

open List

/-- The ways `Schedule.create` raises, and running out of fuel. -/
inductive SchedulerError
  | infeasibleScheduler
  | deadlinesNeeded
  | faultyFlow
  | unsupportedWindowSize
  | keyError
  | indexError
  | zeroDivision
  | formatError
  | outOfFuel
  deriving DecidableEq, Repr

inductive SchedulingStrategy
  | noRetransmissions
  | upperEtxTxPerLink
  | slidingWindow
  deriving DecidableEq

/-- `Scheduling_window_size_algorithm`. -/
inductive WindowSizeAlgorithm
  | etxBased
  | etxBasedDoubled
  | etxBasedTrippled
  | etxLinkBased
  | etxLinkBasedDoubled
  | etxLinkBasedTrippled
  | fixed
  deriving DecidableEq

/-- `Cell`, identified by its flow and its index there. -/
structure Cell where
  flowId : ℕ
  index : ℕ
  flowNumber : ℕ
  participants : List ℕ
  deriving DecidableEq

/-- `Flow`, with the path that Dijkstra's algorithm found; `id` tells the objects of a list
apart. -/
structure Flow where
  id : ℕ
  flowNumber : ℕ
  subFlowNumber : ℕ
  source : ℕ
  destination : ℕ
  period : ℕ
  releaseTime : ℕ
  deadline : Option ℕ
  maxSubFlowLength : ℕ
  path : List ℕ
  path_ne_nil : path ≠ []
  cells : List Cell

/-- `math.ceil` of a quotient. -/
def ceilDiv (a b : ℕ) : ℕ := (a + b - 1) / b

/-- The number of sub-flows `compute_path` splits a path into. -/
def numSubFlows (length maxSubFlowLength : ℕ) : ℕ :=
  if maxSubFlowLength < length then
    -- the last node of the previous sub-flow is included
    ((range' 2 length).find? fun k ↦ ceilDiv length k ≤ maxSubFlowLength - 1).getD 0
  else 1

def subFlowPaths (flow : Flow) : List (List ℕ) :=
  let length := flow.path.length
  let num := numSubFlows length flow.maxSubFlowLength
  let subFlowLength := if flow.maxSubFlowLength < length then ceilDiv length num else length
  (range num).map fun idx ↦
    if idx = 0 then flow.path.take subFlowLength
    else (flow.path.take (idx * subFlowLength + subFlowLength)).drop (idx * subFlowLength - 1)

def hops (subPath : List ℕ) : List (ℕ × ℕ) := subPath.zip subPath.tail

def calculateWindowSize (etx : ℕ → ℕ → ℚ) (windowSizeAlgorithm : WindowSizeAlgorithm)
    (fixedWindowSize : ℕ) (subPath : List ℕ) : Except SchedulerError ℤ :=
  if fixedWindowSize ≠ 0 then
    if fixedWindowSize < 2 then .error .unsupportedWindowSize else .ok fixedWindowSize
  else
    let hopCount : ℤ := (subPath.length : ℤ) - 1
    let subPathCost := ((hops subPath).map fun hop ↦ etx hop.1 hop.2).sum
    let linkCost := ((hops subPath).map fun hop ↦ ⌈etx hop.1 hop.2⌉).sum
    match windowSizeAlgorithm with
    | .etxBased => .ok (⌈subPathCost⌉ - hopCount + 2)
    | .etxBasedDoubled => .ok (⌈2 * subPathCost⌉ - hopCount + 2)
    | .etxBasedTrippled => .ok (⌈3 * subPathCost⌉ - hopCount + 2)
    | .etxLinkBased => .ok (linkCost - hopCount + 2)
    | .etxLinkBasedDoubled => .ok (2 * linkCost - hopCount + 2)
    | .etxLinkBasedTrippled => .ok (3 * linkCost - hopCount + 2)
    | .fixed => .error .keyError

/-- The cells of a sub-flow in which the node at a position of its path takes part, as the bounds
of a range. -/
def insertionIndices (length : ℕ) (windowSize : ℤ) (pathIdx : ℕ) : ℤ × ℤ :=
  if pathIdx = 0 then (0, windowSize - 1)
  else if pathIdx = length - 1 then ((pathIdx : ℤ) - 1, pathIdx + windowSize - 2)
  else ((pathIdx : ℤ) - 1, pathIdx + windowSize - 1)

/-- The participants of the cells of a sub-flow with sliding windows. -/
def slidingWindowCells (windowSize : ℤ) (subPath : List ℕ) :
    Except SchedulerError (List (List ℕ)) :=
  let numSlots := (subPath.length : ℤ) - 1 + windowSize - 2
  -- a path of one node has a range that leaves the list
  if subPath.length = 1 ∧ 1 < windowSize then .error .indexError
  else .ok ((range numSlots.toNat).map fun slot ↦
    (subPath.zipIdx.filter fun node ↦
      let indices := insertionIndices subPath.length windowSize node.2
      decide (indices.1 ≤ slot) && decide ((slot : ℤ) < indices.2)).map Prod.fst)

/-- The participants of the cells `create_cells` makes for one sub-flow path. -/
def subPathCells (etx : ℕ → ℕ → ℚ) (strategy : SchedulingStrategy)
    (windowSizeAlgorithm : WindowSizeAlgorithm) (fixedWindowSize : ℕ) (subPath : List ℕ) :
    Except SchedulerError (List (List ℕ)) :=
  match strategy with
  | .noRetransmissions => .ok ((hops subPath).map fun hop ↦ [hop.1, hop.2])
  | .upperEtxTxPerLink => .ok ((hops subPath).flatMap fun hop ↦
      replicate ⌈etx hop.1 hop.2⌉.toNat [hop.1, hop.2])
  | .slidingWindow => do
    let windowSize ← calculateWindowSize etx windowSizeAlgorithm fixedWindowSize subPath
    slidingWindowCells windowSize subPath

/-- `create_cells`: the participants of the cells of a flow, in order. -/
def createCells (etx : ℕ → ℕ → ℚ) (strategy : SchedulingStrategy)
    (windowSizeAlgorithm : WindowSizeAlgorithm) (fixedWindowSize : ℕ) (flow : Flow) :
    Except SchedulerError (List (List ℕ)) :=
  (subFlowPaths flow).foldlM (fun cells subPath ↦ do
    let more ← subPathCells etx strategy windowSizeAlgorithm fixedWindowSize subPath
    return cells ++ more) []

/-- A path of eleven nodes is split into two sub-flows that share a node. -/
example : subFlowPaths ⟨0, 1, 1, 1, 11, 1, 0, none, 10, range' 1 11, by decide, []⟩ =
    [[1, 2, 3, 4, 5, 6], [6, 7, 8, 9, 10, 11]] := by decide

example : slidingWindowCells 3 [1, 2, 3] = .ok [[1, 2], [1, 2, 3], [2, 3]] := by decide +kernel

end ContikiMaster.Scheduler
