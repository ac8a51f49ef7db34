import ContikiMaster.Scheduler.Flow
import Mathlib.Data.List.Chain

/-!
# Consecutive cells of a flow

The sub-flows of a path overlap in one node. As long as every hop costs something and
every sliding window spans at least two cells, the cells of a flow hand the packet on:
any two consecutive ones have a node in common, across the sub-flows too.
-/

namespace ContikiMaster.Scheduler

open Lib List Option

def Shares (a b : List ℕ) : Prop := ∃ node ∈ a, node ∈ b

/-- Cells that hand a packet on from one node to another. -/
structure HandsOn (start last : ℕ) (cells : List (List ℕ)) : Prop where
  chain : cells.IsChain Shares
  first_mem : ∀ cell ∈ cells.head?, start ∈ cell
  last_mem : ∀ cell ∈ cells.getLast?, last ∈ cell
  nil : cells = [] → start = last

namespace HandsOn

variable {a b c : ℕ} {cells cells' : List (List ℕ)}

theorem empty : HandsOn a a [] := by
  refine ⟨isChain_nil, fun cell hcell ↦ ?_, fun cell hcell ↦ ?_, fun _ ↦ rfl⟩
  · cases hcell
  · cases hcell

theorem append (hcells : HandsOn a b cells) (hcells' : HandsOn b c cells') :
    HandsOn a c (cells ++ cells') := by
  by_cases hnil : cells = []
  · rw [hnil, nil_append, hcells.nil hnil]
    exact hcells'
  by_cases hnil' : cells' = []
  · rw [hnil', append_nil, ← hcells'.nil hnil']
    exact hcells
  refine ⟨hcells.chain.append hcells'.chain fun x hx y hy ↦ ?_, fun cell hcell ↦ ?_,
    fun cell hcell ↦ ?_, fun happend ↦ ?_⟩
  · exact ⟨b, hcells.last_mem x hx, hcells'.first_mem y hy⟩
  · rw [head?_append_of_ne_nil _ hnil] at hcell
    exact hcells.first_mem cell hcell
  · rw [getLast?_append_of_ne_nil _ hnil'] at hcell
    exact hcells'.last_mem cell hcell
  · exact absurd (append_eq_nil_iff.mp happend).1 hnil

theorem replicate {n : ℕ} (hn : n ≠ 0) : HandsOn a b (replicate n [a, b]) := by
  refine ⟨isChain_replicate_of_rel n ⟨a, by simp, by simp⟩, fun cell hcell ↦ ?_,
    fun cell hcell ↦ ?_, fun hnil ↦ ?_⟩
  · rw [head?_replicate, if_neg hn] at hcell
    rw [← some.inj hcell]
    simp
  · rw [getLast?_replicate, if_neg hn] at hcell
    rw [← some.inj hcell]
    simp
  · rw [replicate_eq_nil_iff] at hnil
    exact absurd hnil hn

theorem flatMap_hops {p : ℕ × ℕ → List (List ℕ)} {start last : ℕ} {path : List ℕ}
    (hhop : ∀ hop ∈ hops path, HandsOn hop.1 hop.2 (p hop)) (hstart : path.head? = some start)
    (hlast : path.getLast? = some last) : HandsOn start last ((hops path).flatMap p) := by
  induction path generalizing start with
  | nil => cases hstart
  | cons x path ih =>
    obtain rfl := some.inj hstart
    cases path with
    | nil =>
      obtain rfl := some.inj hlast
      exact empty
    | cons y path =>
      have hhops : hops (x :: y :: path) = (x, y) :: hops (y :: path) := rfl
      rw [hhops] at hhop ⊢
      rw [flatMap_cons]
      rw [getLast?_cons_cons] at hlast
      refine (hhop (x, y) mem_cons_self).append (ih (fun hop hmem ↦ ?_) rfl hlast)
      exact hhop hop (mem_cons_of_mem _ hmem)

end HandsOn

section SlidingWindow

variable {windowSize : ℤ} {subPath : List ℕ} {start last : ℕ} {cells : List (List ℕ)}

/-- The participants of one cell of a sub-flow with sliding windows. -/
def windowCell (windowSize : ℤ) (subPath : List ℕ) (slot : ℤ) : List ℕ :=
  (subPath.zipIdx.filter fun node ↦
    let indices := insertionIndices subPath.length windowSize node.2
    decide (indices.1 ≤ slot) && decide (slot < indices.2)).map Prod.fst

theorem mem_windowCell {slot : ℤ} {pathIdx node : ℕ} (hnode : subPath[pathIdx]? = some node)
    (hfirst : (insertionIndices subPath.length windowSize pathIdx).1 ≤ slot)
    (hlast : slot < (insertionIndices subPath.length windowSize pathIdx).2) :
    node ∈ windowCell windowSize subPath slot := by
  refine mem_map.mpr ⟨(node, pathIdx), mem_filter.mpr ⟨?_, ?_⟩, rfl⟩
  · exact mk_mem_zipIdx_iff_getElem?.mpr hnode
  · simp [hfirst, hlast]

theorem slidingWindowCells_eq (hcells : slidingWindowCells windowSize subPath = .ok cells) :
    ¬ (subPath.length = 1 ∧ 1 < windowSize) ∧
      cells = (range ((subPath.length : ℤ) - 1 + windowSize - 2).toNat).map
        fun slot : ℕ ↦ windowCell windowSize subPath slot := by
  unfold slidingWindowCells at hcells
  dsimp only at hcells
  split at hcells
  · cases hcells
  · rename_i hlong
    refine ⟨hlong, ?_⟩
    rw [← Except.ok.inj hcells]
    change ((range _).flatMap fun slot : ℕ ↦ [(slot : ℤ)]).map
      (windowCell windowSize subPath) = _
    rw [← List.map_eq_flatMap, List.map_map]
    rfl

theorem slidingWindowCells_handsOn (hwindow : 2 ≤ windowSize) (hstart : subPath.head? = some start)
    (hlast : subPath.getLast? = some last)
    (hcells : slidingWindowCells windowSize subPath = .ok cells) : HandsOn start last cells := by
  obtain ⟨hlong, hdone⟩ := slidingWindowCells_eq hcells
  have hpos : 0 < subPath.length := by
    cases subPath with
    | nil => cases hstart
    | cons => exact Nat.succ_pos _
  have hlength : 2 ≤ subPath.length := by omega
  rw [head?_eq_getElem?] at hstart
  rw [getLast?_eq_getElem?] at hlast
  set slots := ((subPath.length : ℤ) - 1 + windowSize - 2).toNat with hslots
  have hslotsPos : 0 < slots := by omega
  subst hdone
  refine ⟨isChain_iff_getElem.mpr fun slot hslot ↦ ?_, fun cell hcell ↦ ?_,
    fun cell hcell ↦ ?_, fun hnil ↦ ?_⟩
  · rw [length_map, length_range] at hslot
    rw [getElem_map, getElem_map, getElem_range, getElem_range]
    by_cases hinner : slot + 1 < subPath.length - 1
    · -- the node that starts to listen in the one cell sends in the other
      refine ⟨subPath[slot + 1], mem_windowCell (getElem?_eq_getElem _) ?_ ?_,
        mem_windowCell (getElem?_eq_getElem _) ?_ ?_⟩
      all_goals
        unfold insertionIndices
        rw [if_neg (by omega), if_neg (by omega)]
        push_cast
        omega
    · refine ⟨last, mem_windowCell hlast ?_ ?_, mem_windowCell hlast ?_ ?_⟩
      all_goals
        unfold insertionIndices
        rw [if_neg (by omega), if_pos rfl]
        push_cast
        omega
  · rw [head?_eq_getElem?, getElem?_map, getElem?_range hslotsPos] at hcell
    rw [← some.inj hcell]
    refine mem_windowCell hstart ?_ ?_
    · rfl
    · change (0 : ℤ) < windowSize - 1
      omega
  · rw [getLast?_eq_getElem?, length_map, length_range, getElem?_map,
      getElem?_range (by omega)] at hcell
    rw [← some.inj hcell]
    refine mem_windowCell hlast ?_ ?_
    all_goals
      unfold insertionIndices
      rw [if_neg (by omega), if_pos rfl]
      push_cast
      omega
  · rw [map_eq_nil_iff, range_eq_nil] at hnil
    omega

end SlidingWindow

section Strategies

variable {etx : ℕ → ℕ → ℚ} {strategy : SchedulingStrategy}
  {windowSizeAlgorithm : WindowSizeAlgorithm} {fixedWindowSize : ℕ} {subPath : List ℕ}

/-- Every hop has a transmission and every window is one the code supports when it is given. -/
def SubPathSupported (etx : ℕ → ℕ → ℚ) (strategy : SchedulingStrategy)
    (windowSizeAlgorithm : WindowSizeAlgorithm) (fixedWindowSize : ℕ) (subPath : List ℕ) : Prop :=
  match strategy with
  | .noRetransmissions => True
  | .upperEtxTxPerLink => ∀ hop ∈ hops subPath, 0 < etx hop.1 hop.2
  | .slidingWindow => ∀ windowSize,
      calculateWindowSize etx windowSizeAlgorithm fixedWindowSize subPath = .ok windowSize →
        2 ≤ windowSize

theorem subPathCells_handsOn {start last : ℕ} {cells : List (List ℕ)}
    (hsupported : SubPathSupported etx strategy windowSizeAlgorithm fixedWindowSize subPath)
    (hstart : subPath.head? = some start) (hlast : subPath.getLast? = some last)
    (hcells : subPathCells etx strategy windowSizeAlgorithm fixedWindowSize subPath = .ok cells) :
    HandsOn start last cells := by
  cases strategy with
  | noRetransmissions =>
    have hmap : HandsOn start last ((hops subPath).flatMap fun hop ↦ [[hop.1, hop.2]]) :=
      HandsOn.flatMap_hops (fun hop _ ↦ HandsOn.replicate one_ne_zero) hstart hlast
    rw [← map_eq_flatMap] at hmap
    rwa [← Except.ok.inj hcells]
  | upperEtxTxPerLink =>
    rw [← Except.ok.inj hcells]
    refine HandsOn.flatMap_hops (fun hop hmem ↦ HandsOn.replicate ?_) hstart hlast
    have hceil := Int.ceil_pos.mpr (hsupported hop hmem)
    omega
  | slidingWindow =>
    obtain ⟨windowSize, hwindow, hslots⟩ := bind_eq_ok hcells
    exact slidingWindowCells_handsOn (hsupported windowSize hwindow) hstart hlast hslots

theorem length_hops (subPath : List ℕ) : (hops subPath).length = subPath.length - 1 := by
  unfold hops
  rw [length_zip, length_tail]
  exact min_eq_right (Nat.sub_le _ _)

end Strategies

section SubFlows

def subFlowPath (path : List ℕ) (subFlowLength idx : ℕ) : List ℕ :=
  if idx = 0 then path.take subFlowLength
  else (path.take (idx * subFlowLength + subFlowLength)).drop (idx * subFlowLength - 1)

section SubFlowPath

variable {path : List ℕ} {subFlowLength idx : ℕ}

theorem head?_subFlowPath (hpos : 0 < subFlowLength) :
    (subFlowPath path subFlowLength idx).head? = path[idx * subFlowLength - 1]? := by
  unfold subFlowPath
  split
  · rename_i hzero
    rw [head?_take, if_neg (by omega), hzero, Nat.zero_mul, head?_eq_getElem?]
  · rw [head?_drop, getElem?_take, if_pos (by omega)]

theorem getLast?_subFlowPath (hpos : 0 < subFlowLength)
    (hlength : (idx + 1) * subFlowLength ≤ path.length) :
    (subFlowPath path subFlowLength idx).getLast? = path[(idx + 1) * subFlowLength - 1]? := by
  have hsucc : (idx + 1) * subFlowLength = idx * subFlowLength + subFlowLength := by ring
  have htake : (path.take (idx * subFlowLength + subFlowLength)).getLast? =
      path[(idx + 1) * subFlowLength - 1]? := by
    rw [getLast?_take, if_neg (by omega), hsucc, getElem?_eq_getElem (by omega)]
    rfl
  unfold subFlowPath
  split
  · rename_i hzero
    rw [hzero, Nat.zero_mul, Nat.zero_add] at htake
    rw [htake, hzero]
  · rw [getLast?_drop, length_take, if_neg (by omega), htake]

end SubFlowPath

/-- What the smallest number of sub-flows that are short enough comes to, for sub-flows of a
length. -/
structure SplitSizes (length maxSubFlowLength num subFlowLength : ℕ) : Prop where
  pos : 0 < subFlowLength
  used : (num - 1) * subFlowLength < length
  covered : length ≤ num * subFlowLength
  short : maxSubFlowLength < length → subFlowLength ≤ maxSubFlowLength - 1
  fewest : ∀ k, 2 ≤ k → k < num → maxSubFlowLength - 1 < ceilDiv length k

theorem le_mul_ceilDiv {length num : ℕ} (hpos : 0 < num) : length ≤ num * ceilDiv length num := by
  have hmod := Nat.div_add_mod (length + num - 1) num
  have hlt := Nat.mod_lt (length + num - 1) hpos
  change length ≤ num * ((length + num - 1) / num)
  omega

theorem numSubFlows_spec {length maxSubFlowLength num : ℕ} (hlength : 0 < length)
    (hnum : numSubFlows length maxSubFlowLength = num) (hpos : 0 < num) :
    SplitSizes length maxSubFlowLength num
      (if maxSubFlowLength < length then ceilDiv length num else length) := by
  unfold numSubFlows at hnum
  by_cases hmax : maxSubFlowLength < length
  · rw [if_pos hmax] at hnum ⊢
    cases hfind : (range' 2 length).find? fun k ↦
        decide (ceilDiv length k ≤ maxSubFlowLength - 1) with
    | none =>
      rw [hfind] at hnum
      exact absurd hnum hpos.ne
    | some k =>
      rw [hfind] at hnum
      change k = num at hnum
      rw [hnum, find?_range'_eq_some] at hfind
      obtain ⟨hshort, hmem, hfewer⟩ := hfind
      rw [decide_eq_true_eq] at hshort
      have htwo : 2 ≤ num := (mem_range'_1.mp hmem).1
      have hfewest : ∀ k, 2 ≤ k → k < num → maxSubFlowLength - 1 < ceilDiv length k := by
        intro k hk hlt
        have hlong := hfewer k hk hlt
        rwa [Bool.not_eq_true', decide_eq_false_iff_not, not_le] at hlong
      have hceil : 0 < ceilDiv length num := by
        change 0 < (length + num - 1) / num
        exact Nat.div_pos (by omega) hpos
      refine ⟨hceil, ?_, le_mul_ceilDiv hpos, fun _ ↦ hshort, hfewest⟩
      by_cases heq : num = 2
      · rw [heq] at hceil hshort ⊢
        change (2 - 1) * ((length + 2 - 1) / 2) < length
        change (length + 2 - 1) / 2 ≤ maxSubFlowLength - 1 at hshort
        omega
      · -- one sub-flow less would be too long, so that the path fills all but the last
        have hgt : maxSubFlowLength - 1 + 1 ≤ (length + (num - 1) - 1) / (num - 1) :=
          hfewest (num - 1) (by omega) (by omega)
        have hfull : (maxSubFlowLength - 1 + 1) * (num - 1) ≤ length + (num - 1) - 1 :=
          (Nat.le_div_iff_mul_le (by omega)).mp hgt
        have hall : (num - 1) * ceilDiv length num ≤ (num - 1) * (maxSubFlowLength - 1) :=
          Nat.mul_le_mul_left _ hshort
        have hexpand : (maxSubFlowLength - 1 + 1) * (num - 1) =
            (num - 1) * (maxSubFlowLength - 1) + (num - 1) := by ring
        omega
  · rw [if_neg hmax] at hnum ⊢
    rw [← hnum]
    refine ⟨hlength, by omega, by omega, fun h ↦ absurd h hmax, fun k hk hlt ↦ ?_⟩
    omega

def Flow.subFlowLength (flow : Flow) : ℕ :=
  if flow.maxSubFlowLength < flow.path.length then
    ceilDiv flow.path.length (numSubFlows flow.path.length flow.maxSubFlowLength)
  else flow.path.length

theorem subFlowPaths_eq (flow : Flow) :
    subFlowPaths flow = (range (numSubFlows flow.path.length flow.maxSubFlowLength)).map
      (subFlowPath flow.path flow.subFlowLength) := rfl

variable {flow : Flow} {participants : List (List ℕ)}

theorem Flow.splitSizes (hpos : 0 < numSubFlows flow.path.length flow.maxSubFlowLength) :
    SplitSizes flow.path.length flow.maxSubFlowLength
      (numSubFlows flow.path.length flow.maxSubFlowLength) flow.subFlowLength :=
  numSubFlows_spec (length_pos_iff.mpr flow.path_ne_nil) rfl hpos

theorem subFlowPaths_overlap (flow : Flow) :
    (subFlowPaths flow).IsChain fun p q ↦ p.getLast? = q.head? := by
  rw [subFlowPaths_eq, isChain_iff_getElem]
  intro idx hidx
  rw [length_map, length_range] at hidx
  rw [getElem_map, getElem_map, getElem_range, getElem_range]
  have hsizes := flow.splitSizes (Nat.zero_lt_of_lt hidx)
  have hlength : (idx + 1) * flow.subFlowLength ≤ flow.path.length :=
    (Nat.mul_le_mul_right _ (by omega)).trans hsizes.used.le
  rw [getLast?_subFlowPath hsizes.pos hlength, head?_subFlowPath hsizes.pos]

theorem ne_nil_of_mem_subFlowPaths {subPath : List ℕ} (hmem : subPath ∈ subFlowPaths flow) :
    subPath ≠ [] := by
  rw [subFlowPaths_eq] at hmem
  obtain ⟨idx, hidx, rfl⟩ := mem_map.mp hmem
  rw [mem_range] at hidx
  have hsizes := flow.splitSizes (Nat.zero_lt_of_lt hidx)
  have hlength : idx * flow.subFlowLength ≤ flow.path.length :=
    (Nat.mul_le_mul_right _ (by omega)).trans hsizes.used.le
  have hpath := length_pos_iff.mpr flow.path_ne_nil
  intro hnil
  have hhead : (subFlowPath flow.path flow.subFlowLength idx).head? =
      flow.path[idx * flow.subFlowLength - 1]? := head?_subFlowPath hsizes.pos
  rw [hnil, getElem?_eq_getElem (by omega)] at hhead
  cases hhead

theorem isChain_of_foldlM_subPathCells {etx : ℕ → ℕ → ℚ} {strategy : SchedulingStrategy}
    {windowSizeAlgorithm : WindowSizeAlgorithm} {fixedWindowSize : ℕ} {subPaths : List (List ℕ)}
    {start last : ℕ} {cells : List (List ℕ)} (hsub : ∀ subPath ∈ subPaths, subPath ≠ [] ∧
      SubPathSupported etx strategy windowSizeAlgorithm fixedWindowSize subPath)
    (hoverlap : subPaths.IsChain fun p q ↦ p.getLast? = q.head?)
    (hhead : ∀ subPath ∈ subPaths.head?, subPath.head? = some last)
    (hcells : HandsOn start last cells) (hloop : subPaths.foldlM (fun cells subPath ↦ do
      let more ← subPathCells etx strategy windowSizeAlgorithm fixedWindowSize subPath
      return cells ++ more) cells = .ok participants) : participants.IsChain Shares := by
  induction subPaths generalizing last cells with
  | nil =>
    rw [← Except.ok.inj hloop]
    exact hcells.chain
  | cons subPath subPaths ih =>
    obtain ⟨cells', hstep, hrest⟩ := bind_eq_ok hloop
    obtain ⟨more, hmore, hdone⟩ := bind_eq_ok hstep
    obtain ⟨hnil, hsupported⟩ := hsub subPath mem_cons_self
    have hlast := getLast?_eq_some_getLast hnil
    have hnext := hcells.append (subPathCells_handsOn hsupported (hhead subPath rfl) hlast hmore)
    rw [Except.ok.inj hdone] at hnext
    rw [isChain_cons] at hoverlap
    refine ih (fun other hother ↦ hsub other (mem_cons_of_mem _ hother)) hoverlap.2
      (fun other hother ↦ ?_) hnext hrest
    rw [← hoverlap.1 other hother, hlast]

theorem createCells_isChain {etx : ℕ → ℕ → ℚ} {strategy : SchedulingStrategy}
    {windowSizeAlgorithm : WindowSizeAlgorithm} {fixedWindowSize : ℕ}
    (hsupported : ∀ subPath ∈ subFlowPaths flow,
      SubPathSupported etx strategy windowSizeAlgorithm fixedWindowSize subPath)
    (hcells : createCells etx strategy windowSizeAlgorithm fixedWindowSize flow = .ok participants) :
    participants.IsChain Shares := by
  have hoverlap := subFlowPaths_overlap flow
  have hsub : ∀ subPath ∈ subFlowPaths flow, subPath ≠ [] ∧
      SubPathSupported etx strategy windowSizeAlgorithm fixedWindowSize subPath :=
    fun subPath hmem ↦ ⟨ne_nil_of_mem_subFlowPaths hmem, hsupported subPath hmem⟩
  unfold createCells at hcells
  cases hpaths : subFlowPaths flow with
  | nil =>
    rw [hpaths] at hcells
    rw [← Except.ok.inj hcells]
    exact isChain_nil
  | cons subPath subPaths =>
    rw [hpaths] at hcells hoverlap hsub
    have hhead := head?_eq_some_head (hsub subPath mem_cons_self).1
    have hstart : ∀ other ∈ (subPath :: subPaths).head?,
        other.head? = some (subPath.head (hsub subPath mem_cons_self).1) := by
      intro other hother
      rw [← some.inj hother, hhead]
    exact isChain_of_foldlM_subPathCells hsub hoverlap hstart HandsOn.empty hcells

end SubFlows

end ContikiMaster.Scheduler
