import ContikiMaster.Scheduler.SubFlows

/-!
# The cells of sliding windows

With windows of `w` cells every hop of a sub-flow gets the `w - 1` cells from its own
index on, the participants of a cell are a segment of the path, and the dictionary of
transmissions says `w - 1` for every node that sends.
-/

namespace ContikiMaster.Scheduler

open Lib Function List

/-- The entries of `max_transmissions` that `create_cells` writes for a sub-flow with sliding
windows. -/
def windowMaxTransmissions (windowSize : ℤ) (subPath : List ℕ) : List (ℕ × ℤ) :=
  subPath.zipIdx.filterMap fun node ↦
    let indices := insertionIndices subPath.length windowSize node.2
    let count := max (indices.2 - indices.1) 0
    if node.2 = 0 then some (node.1, count)
    else if node.2 = subPath.length - 1 then none
    -- in the first of its cells the node only listens
    else some (node.1, count - 1)

/-- The entries of `max_transmissions` for one sub-flow path. -/
def subPathMaxTransmissions (etx : ℕ → ℕ → ℚ) (strategy : SchedulingStrategy)
    (windowSizeAlgorithm : WindowSizeAlgorithm) (fixedWindowSize : ℕ) (subPath : List ℕ) :
    Except SchedulerError (List (ℕ × ℤ)) :=
  match strategy with
  | .noRetransmissions => .ok ((hops subPath).map fun hop ↦ (hop.1, 1))
  | .upperEtxTxPerLink => .ok ((hops subPath).map fun hop ↦ (hop.1, ⌈etx hop.1 hop.2⌉))
  | .slidingWindow => do
    let windowSize ← calculateWindowSize etx windowSizeAlgorithm fixedWindowSize subPath
    return windowMaxTransmissions windowSize subPath

def writeEntries (dict : ℕ → Option ℤ) (entries : List (ℕ × ℤ)) : ℕ → Option ℤ :=
  entries.foldl (fun dict entry ↦ update dict entry.1 (some entry.2)) dict

/-- `max_transmissions` after `create_cells`. -/
def maxTransmissions (etx : ℕ → ℕ → ℚ) (strategy : SchedulingStrategy)
    (windowSizeAlgorithm : WindowSizeAlgorithm) (fixedWindowSize : ℕ) (flow : Flow) :
    Except SchedulerError (ℕ → Option ℤ) :=
  (subFlowPaths flow).foldlM (fun dict subPath ↦ do
    let entries ← subPathMaxTransmissions etx strategy windowSizeAlgorithm fixedWindowSize subPath
    return writeEntries dict entries) fun _ ↦ none

variable {dict : ℕ → Option ℤ} {entries : List (ℕ × ℤ)}

theorem writeEntries_of_notMem {node : ℕ} (hnode : node ∉ entries.map Prod.fst) :
    writeEntries dict entries node = dict node := by
  induction entries generalizing dict with
  | nil => rfl
  | cons entry entries ih =>
    rw [map_cons, mem_cons, not_or] at hnode
    calc writeEntries dict (entry :: entries) node
        = update dict entry.1 (some entry.2) node := ih hnode.2
      _ = dict node := update_of_ne hnode.1 _ _

theorem writeEntries_of_mem (hkeys : (entries.map Prod.fst).Nodup) {entry : ℕ × ℤ}
    (hmem : entry ∈ entries) : writeEntries dict entries entry.1 = some entry.2 := by
  induction entries generalizing dict with
  | nil => cases hmem
  | cons first entries ih =>
    rw [map_cons, nodup_cons] at hkeys
    rcases mem_cons.mp hmem with rfl | hmem
    · calc
        _ = update dict entry.1 (some entry.2) entry.1 := writeEntries_of_notMem hkeys.1
        _ = _ := update_self _ _ _
    · exact ih hkeys.2 hmem

theorem map_fst_hops (subPath : List ℕ) : (hops subPath).map Prod.fst = subPath.dropLast := by
  induction subPath with
  | nil => rfl
  | cons node subPath ih =>
    cases subPath with
    | nil => rfl
    | cons next subPath =>
      rw [dropLast_cons_cons, ← ih]
      rfl

section SlidingWindow

variable {windowSize : ℤ} {subPath : List ℕ}

theorem windowMaxTransmissions_eq (hlength : 2 ≤ subPath.length) (hwindow : 2 ≤ windowSize) :
    windowMaxTransmissions windowSize subPath =
      (hops subPath).map fun hop ↦ (hop.1, windowSize - 1) := by
  have hnil : subPath ≠ [] := by
    intro hnil
    rw [hnil] at hlength
    exact absurd hlength (by decide)
  have hsenders : ((hops subPath).map fun hop ↦ (hop.1, windowSize - 1)) =
      subPath.dropLast.map fun node ↦ (node, windowSize - 1) := by
    rw [← map_fst_hops, map_map]
    rfl
  have hsplit : subPath.zipIdx =
      subPath.dropLast.zipIdx ++ [(subPath.getLast hnil, subPath.length - 1)] := by
    conv_lhs => rw [← dropLast_append_getLast hnil]
    rw [zipIdx_append, zipIdx_singleton, Nat.zero_add, length_dropLast]
  have hlast : ¬ subPath.length - 1 = 0 := by omega
  have hentry : ∀ node ∈ subPath.dropLast.zipIdx,
      (let indices := insertionIndices subPath.length windowSize node.2
        let count := max (indices.2 - indices.1) 0
        if node.2 = 0 then some (node.1, count)
        else if node.2 = subPath.length - 1 then none else some (node.1, count - 1)) =
        some (node.1, windowSize - 1) := by
    intro node hmem
    have hidx := (mem_zipIdx' hmem).1
    rw [length_dropLast] at hidx
    have hnotLast : ¬ node.2 = subPath.length - 1 := by omega
    unfold insertionIndices
    dsimp only
    rw [if_neg hnotLast, if_neg hnotLast]
    split
    · congr 2
      dsimp only
      omega
    · congr 2
      dsimp only
      omega
  unfold windowMaxTransmissions
  rw [hsplit, hsenders, filterMap_append, filterMap_congr hentry, filterMap_eq_map']
  simp only [filterMap_cons, filterMap_nil, if_neg hlast, if_true, append_nil]
  calc
    _ = (subPath.dropLast.zipIdx.map Prod.fst).map fun node ↦ (node, windowSize - 1) := by
      rw [map_map]
      rfl
    _ = _ := by rw [zipIdx_map_fst]

theorem windowCell_eq_sliceOf {slot : ℕ} (hslot : (slot : ℤ) < subPath.length - 1 + windowSize - 2)
    (hlength : 2 ≤ subPath.length) : windowCell windowSize subPath slot =
      sliceOf subPath ((slot : ℤ) + 2 - windowSize).toNat (slot + 2) := by
  have hslice := filter_zipIdx_eq_sliceOf subPath ((slot : ℤ) + 2 - windowSize).toNat (slot + 2) 0
  rw [Nat.sub_zero, Nat.sub_zero] at hslice
  rw [← hslice]
  unfold windowCell
  congr 1
  apply filter_congr
  intro node hmem
  have hidx := (mem_zipIdx' hmem).1
  rw [Bool.eq_iff_iff, Bool.and_eq_true, Bool.and_eq_true, decide_eq_true_eq, decide_eq_true_eq,
    decide_eq_true_eq, decide_eq_true_eq]
  unfold insertionIndices
  split
  · dsimp only
    omega
  · split
    · dsimp only
      omega
    · dsimp only
      omega

/-- The cells of a sub-flow path with windows of a size. -/
structure SlidesOver (windowSize : ℤ) (subPath : List ℕ) (cells : List (List ℕ)) : Prop where
  length : (cells.length : ℤ) = (subPath.length - 1) + windowSize - 2
  segment : ∀ cell ∈ cells, cell <:+: subPath ∧ 2 ≤ cell.length
  /-- The cells that the sender and the receiver of a hop have in common. -/
  hop : ∀ idx sender receiver, subPath[idx]? = some sender → subPath[idx + 1]? = some receiver →
    ((range cells.length).filter fun slot ↦
      decide (sender ∈ cells.getD slot []) && decide (receiver ∈ cells.getD slot [])) =
      range' idx (windowSize - 1).toNat

/-- The cells that `create_cells` makes for a sub-flow path. -/
def windowCells (windowSize : ℤ) (subPath : List ℕ) : List (List ℕ) :=
  (range ((subPath.length : ℤ) - 1 + windowSize - 2).toNat).map fun slot : ℕ ↦
    windowCell windowSize subPath slot

theorem slidingWindowCells_eq_ok (hlength : 2 ≤ subPath.length) :
    slidingWindowCells windowSize subPath = .ok (windowCells windowSize subPath) := by
  cases hcells : slidingWindowCells windowSize subPath with
  | error fault =>
    unfold slidingWindowCells at hcells
    dsimp only at hcells
    rw [if_neg (by omega)] at hcells
    cases hcells
  | ok cells => exact congrArg Except.ok (slidingWindowCells_eq hcells).2

theorem windowCells_slidesOver (hnodup : subPath.Nodup) (hlength : 2 ≤ subPath.length)
    (hwindow : 2 ≤ windowSize) :
    SlidesOver windowSize subPath (windowCells windowSize subPath) := by
  set slots := ((subPath.length : ℤ) - 1 + windowSize - 2).toNat with hslots
  have hcount : (windowCells windowSize subPath).length = slots := by
    unfold windowCells
    rw [List.length_map, List.length_range]
  have hcell : ∀ slot < slots, (windowCells windowSize subPath).getD slot [] =
      sliceOf subPath ((slot : ℤ) + 2 - windowSize).toNat (slot + 2) := by
    intro slot hslot
    rw [← windowCell_eq_sliceOf (by omega) hlength]
    unfold windowCells
    rw [List.getD_eq_getElem?_getD, List.getElem?_map, List.getElem?_range (by omega)]
    rfl
  constructor
  · omega
  · intro cell hmem
    obtain ⟨slot, hslot, rfl⟩ := List.mem_map.mp hmem
    rw [List.mem_range] at hslot
    rw [windowCell_eq_sliceOf (by omega) hlength]
    refine ⟨sliceOf_isInfix _ _ _, ?_⟩
    rw [length_sliceOf]
    omega
  · intro idx sender receiver hsender hreceiver
    obtain ⟨hidx, rfl⟩ := List.getElem?_eq_some_iff.mp hsender
    obtain ⟨hnext, rfl⟩ := List.getElem?_eq_some_iff.mp hreceiver
    have hlast : idx + (windowSize - 1).toNat ≤ slots := by omega
    have hwidth : idx + (windowSize - 1).toNat - idx = (windowSize - 1).toNat := by omega
    rw [hcount]
    calc
      _ = (List.range slots).filter fun slot ↦
          decide (idx ≤ slot) && decide (slot < idx + (windowSize - 1).toNat) := by
        apply List.filter_congr
        intro slot hslot
        rw [List.mem_range] at hslot
        rw [hcell slot hslot, Bool.eq_iff_iff, Bool.and_eq_true, Bool.and_eq_true,
          decide_eq_true_eq, decide_eq_true_eq, decide_eq_true_eq, decide_eq_true_eq,
          getElem_mem_sliceOf hnodup hidx, getElem_mem_sliceOf hnodup hnext]
        omega
      _ = _ := by rw [filter_range_eq_range' hlast, hwidth]

end SlidingWindow

theorem nodup_of_mem_subFlowPaths {flow : Flow} {subPath : List ℕ} (hnodup : flow.path.Nodup)
    (hmem : subPath ∈ subFlowPaths flow) : subPath.Nodup := by
  rw [subFlowPaths_eq] at hmem
  obtain ⟨idx, -, rfl⟩ := mem_map.mp hmem
  rw [subFlowPath_eq_sliceOf]
  exact hnodup.sublist (sliceOf_isInfix _ _ _).sublist

section Flow

variable {etx : ℕ → ℕ → ℚ} {windowSizeAlgorithm : WindowSizeAlgorithm} {fixedWindowSize : ℕ}
  {flow : Flow} {windowSize : List ℕ → ℤ}

/-- Every sub-flow path of a flow has a hop, and `windowSize` is what its window comes to. -/
structure WindowSizes (etx : ℕ → ℕ → ℚ) (windowSizeAlgorithm : WindowSizeAlgorithm)
    (fixedWindowSize : ℕ) (flow : Flow) (windowSize : List ℕ → ℤ) : Prop where
  hop : ∀ subPath ∈ subFlowPaths flow, 2 ≤ subPath.length
  window : ∀ subPath ∈ subFlowPaths flow,
    calculateWindowSize etx windowSizeAlgorithm fixedWindowSize subPath = .ok (windowSize subPath)
  two_le : ∀ subPath ∈ subFlowPaths flow, 2 ≤ windowSize subPath

theorem createCells_eq_ok
    (hsizes : WindowSizes etx windowSizeAlgorithm fixedWindowSize flow windowSize) :
    createCells etx .slidingWindow windowSizeAlgorithm fixedWindowSize flow =
      .ok ((subFlowPaths flow).flatMap fun subPath ↦ windowCells (windowSize subPath) subPath) := by
  have hbody : ∀ subPath ∈ subFlowPaths flow, ∀ cells : List (List ℕ), (do
      let more ← subPathCells etx .slidingWindow windowSizeAlgorithm fixedWindowSize subPath
      return cells ++ more) =
      (.ok (cells ++ windowCells (windowSize subPath) subPath) : Except SchedulerError _) := by
    intro subPath hmem cells
    unfold subPathCells
    dsimp only
    rw [hsizes.window subPath hmem, ok_bind, slidingWindowCells_eq_ok (hsizes.hop subPath hmem)]
    rfl
  calc
    _ = .ok ((subFlowPaths flow).foldl
        (fun cells subPath ↦ cells ++ windowCells (windowSize subPath) subPath) []) :=
      foldlM_eq_ok hbody []
    _ = _ := by rw [← flatMap_eq_foldl]

theorem maxTransmissions_eq_ok
    (hsizes : WindowSizes etx windowSizeAlgorithm fixedWindowSize flow windowSize) :
    maxTransmissions etx .slidingWindow windowSizeAlgorithm fixedWindowSize flow =
      .ok (writeEntries (fun _ ↦ none) ((subFlowPaths flow).flatMap fun subPath ↦
        (hops subPath).map fun hop ↦ (hop.1, windowSize subPath - 1))) := by
  have hbody : ∀ subPath ∈ subFlowPaths flow, ∀ dict : ℕ → Option ℤ, (do
      let entries ← subPathMaxTransmissions etx .slidingWindow windowSizeAlgorithm fixedWindowSize
        subPath
      return writeEntries dict entries) =
      (.ok (writeEntries dict ((hops subPath).map fun hop ↦ (hop.1, windowSize subPath - 1))) :
        Except SchedulerError _) := by
    intro subPath hmem dict
    unfold subPathMaxTransmissions
    dsimp only
    rw [hsizes.window subPath hmem, ok_bind,
      windowMaxTransmissions_eq (hsizes.hop subPath hmem) (hsizes.two_le subPath hmem)]
    rfl
  calc
    _ = .ok ((subFlowPaths flow).foldl (fun dict subPath ↦ writeEntries dict
        ((hops subPath).map fun hop ↦ (hop.1, windowSize subPath - 1))) fun _ ↦ none) :=
      foldlM_eq_ok hbody _
    _ = _ := by
      unfold writeEntries
      rw [foldl_flatMap]

theorem nodup_senders (hnodup : flow.path.Nodup) :
    (((subFlowPaths flow).flatMap fun subPath ↦
      (hops subPath).map fun hop ↦ (hop.1, windowSize subPath - 1)).map Prod.fst).Nodup := by
  rw [map_flatMap]
  have hfst : (fun subPath ↦ ((hops subPath).map fun hop ↦
      (hop.1, windowSize subPath - 1)).map Prod.fst) = fun subPath ↦ (hops subPath).map Prod.fst := by
    funext subPath
    rw [map_map]
    rfl
  rw [hfst, ← map_flatMap]
  rcases Nat.eq_zero_or_pos (numSubFlows flow.path.length flow.maxSubFlowLength) with hzero | hpos
  · rw [subFlowPaths_eq, hzero]
    exact nodup_nil
  · rw [flatMap_hops_subFlowPaths hpos, map_fst_hops]
    exact hnodup.sublist (dropLast_sublist _)

/-- Sliding windows give every hop of every sub-flow its cells, and every sending node the number
of its transmissions. -/
theorem createCells_slidesOver (hnodup : flow.path.Nodup)
    (hsizes : WindowSizes etx windowSizeAlgorithm fixedWindowSize flow windowSize) :
    ∃ (cells : List ℕ → List (List ℕ)) (dict : ℕ → Option ℤ),
      createCells etx .slidingWindow windowSizeAlgorithm fixedWindowSize flow =
        .ok ((subFlowPaths flow).flatMap cells) ∧
      maxTransmissions etx .slidingWindow windowSizeAlgorithm fixedWindowSize flow = .ok dict ∧
      ∀ subPath ∈ subFlowPaths flow,
        SlidesOver (windowSize subPath) subPath (cells subPath) ∧
          ∀ hop ∈ hops subPath, dict hop.1 = some (windowSize subPath - 1) := by
  refine ⟨fun subPath ↦ windowCells (windowSize subPath) subPath, _, createCells_eq_ok hsizes,
    maxTransmissions_eq_ok hsizes, fun subPath hmem ↦ ⟨?_, fun hop hhop ↦ ?_⟩⟩
  · exact windowCells_slidesOver (nodup_of_mem_subFlowPaths hnodup hmem) (hsizes.hop subPath hmem)
      (hsizes.two_le subPath hmem)
  · have hentry : (hop.1, windowSize subPath - 1) ∈ (subFlowPaths flow).flatMap fun subPath ↦
        (hops subPath).map fun hop ↦ (hop.1, windowSize subPath - 1) :=
      mem_flatMap.mpr ⟨subPath, hmem, mem_map.mpr ⟨hop, hhop, rfl⟩⟩
    exact writeEntries_of_mem (nodup_senders hnodup) hentry

theorem lineFlow_slidesOver : (lineFlow 20).path.Nodup ∧
    ∃ (cells : List ℕ → List (List ℕ)) (dict : ℕ → Option ℤ),
      createCells (fun _ _ ↦ 2) .slidingWindow .etxLinkBased 0 (lineFlow 20) =
        .ok ((subFlowPaths (lineFlow 20)).flatMap cells) ∧
      maxTransmissions (fun _ _ ↦ 2) .slidingWindow .etxLinkBased 0 (lineFlow 20) = .ok dict ∧
      ∀ subPath ∈ subFlowPaths (lineFlow 20),
        SlidesOver (subPath.length + 1) subPath (cells subPath) ∧
          ∀ hop ∈ hops subPath, dict hop.1 = some ((subPath.length : ℤ) + 1 - 1) :=
  ⟨by decide, createCells_slidesOver (by decide)
    ⟨by decide, by decide +kernel, by decide⟩⟩

end Flow

end ContikiMaster.Scheduler
