import ContikiMaster.Lib.Segments
import ContikiMaster.Scheduler.HopCells

/-!
# Splitting a flow

`compute_path` splits a path that is too long into sub-flows. From two nodes on, and
with room for three nodes in a sub-flow, every sub-flow has a hop, the sub-flows make
up the path hop by hop, and their costs add up to its cost.
-/

namespace ContikiMaster.Scheduler

open Lib List

/-- The cost of a path, as `compute_path` adds it up. -/
def pathCost (etx : ℕ → ℕ → ℚ) (subPath : List ℕ) : ℚ :=
  ((hops subPath).map fun hop ↦ etx hop.1 hop.2).sum

variable {length maxSubFlowLength : ℕ} {flow : Flow}

theorem SplitSizes.two_le {num subFlowLength : ℕ}
    (hsizes : SplitSizes length maxSubFlowLength num subFlowLength) (hlength : 2 ≤ length)
    (hmax : 3 ≤ maxSubFlowLength) (hone : length ≤ maxSubFlowLength → num = 1) :
    2 ≤ subFlowLength := by
  by_contra hlt
  have hsub : subFlowLength = 1 := by
    have hpos := hsizes.pos
    omega
  have hcovered := hsizes.covered
  have hused := hsizes.used
  rw [hsub, Nat.mul_one] at hcovered hused
  have hlong : maxSubFlowLength < length := by
    by_contra hle
    have hnum := hone (not_lt.mp hle)
    omega
  -- one sub-flow less would advance by two nodes
  have hfewest := hsizes.fewest (num - 1) (by omega) (by omega)
  have htwo : ceilDiv length (num - 1) < 3 := by
    change (length + (num - 1) - 1) / (num - 1) < 3
    rw [Nat.div_lt_iff_lt_mul (by omega)]
    omega
  omega

theorem subFlowPath_eq_sliceOf (path : List ℕ) (subFlowLength idx : ℕ) :
    subFlowPath path subFlowLength idx =
      sliceOf path (idx * subFlowLength - 1) ((idx + 1) * subFlowLength) := by
  have hsucc : (idx + 1) * subFlowLength = idx * subFlowLength + subFlowLength := by ring
  unfold subFlowPath sliceOf
  split
  · rename_i hzero
    rw [hsucc, hzero, Nat.zero_mul, Nat.zero_add]
    rfl
  · rw [hsucc]

theorem flatMap_hops_subFlowPaths (hpos : 0 < numSubFlows flow.path.length flow.maxSubFlowLength) :
    (subFlowPaths flow).flatMap hops = hops flow.path := by
  have hsizes := flow.splitSizes hpos
  have hmono : Monotone fun idx ↦ idx * flow.subFlowLength - 1 := fun a b hab ↦
    Nat.sub_le_sub_right (Nat.mul_le_mul_right _ hab) 1
  have hlength : (hops flow.path).length ≤
      numSubFlows flow.path.length flow.maxSubFlowLength * flow.subFlowLength - 1 := by
    rw [length_hops]
    exact Nat.sub_le_sub_right hsizes.covered 1
  calc
    _ = (range (numSubFlows flow.path.length flow.maxSubFlowLength)).flatMap fun idx ↦
        sliceOf (hops flow.path) (idx * flow.subFlowLength - 1)
          ((idx + 1) * flow.subFlowLength - 1) := by
      rw [subFlowPaths_eq, flatMap_map]
      congr 1
      funext idx
      rw [subFlowPath_eq_sliceOf]
      exact zip_tail_sliceOf _ _ _
    _ = sliceOf (hops flow.path) (0 * flow.subFlowLength - 1)
        (numSubFlows flow.path.length flow.maxSubFlowLength * flow.subFlowLength - 1) :=
      flatMap_sliceOf _ _ hmono _
    _ = hops flow.path := by
      unfold sliceOf
      rw [take_of_length_le hlength, Nat.zero_mul]
      exact drop_zero

def lineFlow (hopCount : ℕ) : Flow :=
  ⟨0, 1, 1, 1, hopCount + 1, 30, 0, none, 10, range' 1 (hopCount + 1), by simp, []⟩

end ContikiMaster.Scheduler
