import ContikiMaster.Scheduler.ConflictFree
import ContikiMaster.Scheduler.Cells

/-!
# The removal of infeasible flows

Where flows are infeasible `Schedule.create` prints a message, and a loop over the noted
entries removes the flows of each entry's number and moves the larger numbers down. The
message formats strings as numbers, so that the loop is never reached. The loop is right
where each entry has a smaller number than the one before it, and wrong where a flow is
noted twice. It never looks at the schedule.
-/

namespace ContikiMaster.Scheduler

open Lib Function List

/-- `self.flows`, and the numbers that flow and cell objects carry. -/
structure Numbering where
  flows : List Flow
  flowNumber : ℕ → ℕ
  cellFlowNumber : Cell → ℕ

def numbersOf (flows : List Flow) : Numbering where
  flows := flows
  flowNumber := fun id ↦ ((flows.find? fun flow ↦ flow.id == id).map Flow.flowNumber).getD 0
  cellFlowNumber := Cell.flowNumber

/-- One flow of the loop that moves the numbers down. -/
def renumberFlow (infeasible : Flow) (x : Numbering) (flow : Flow) : Numbering :=
  if x.flowNumber infeasible.id < x.flowNumber flow.id then
    let number := x.flowNumber flow.id - 1
    { x with
      flowNumber := update x.flowNumber flow.id number
      cellFlowNumber := fun cell ↦ if cell ∈ flow.cells then number else x.cellFlowNumber cell }
  else x

/-- One entry of the loop that moves the numbers of entries down. -/
def renumberEntry (first : Flow) (x : Numbering) (entry : Flow × List ℕ) : Numbering :=
  if x.flowNumber first.id < x.flowNumber entry.1.id then
    { x with flowNumber :=
        update x.flowNumber entry.1.id (x.flowNumber entry.1.id - 1) }
  else x

/-- The flows of the first entry's number leave, and those with larger numbers move down. -/
def removeFlow (infeasible : Flow) (x : Numbering) : Numbering :=
  let flows := x.flows.filter fun flow ↦
    !(x.flowNumber flow.id == x.flowNumber infeasible.id)
  flows.foldl (renumberFlow infeasible) { x with flows := flows }

/-- The entries that are left, against the first of them. -/
def renumberEntries (infeasibleFlows : List (Flow × List ℕ)) (x : Numbering) : Numbering :=
  match infeasibleFlows with
  | [] => x
  | first :: _ => infeasibleFlows.foldl (renumberEntry first.1) x

def removeInfeasible : List (Flow × List ℕ) → Numbering → Numbering
  | [], x => x
  | infeasible :: infeasibleFlows, x =>
    removeInfeasible infeasibleFlows (renumberEntries infeasibleFlows (removeFlow infeasible.1 x))

/-- The message: the format code `d` does not take the strings it is given. -/
def printInfeasible (infeasibleFlows : List (Flow × List ℕ)) : Except SchedulerError Unit :=
  if infeasibleFlows = [] then .ok () else .error .formatError

/-- The adjustment of the flow set: the message, then the loop. -/
def adjustFlows (x : Placed) : Except SchedulerError Numbering := do
  printInfeasible x.placement.infeasibleFlows
  return removeInfeasible x.placement.infeasibleFlows (numbersOf x.flows)

def infeasibleNumbers (infeasibleFlows : List (Flow × List ℕ)) : List ℕ :=
  infeasibleFlows.map fun entry ↦ entry.1.flowNumber

def Consecutive (numbers : List ℕ) : Prop := ∃ count, ∀ n, n ∈ numbers ↔ 1 ≤ n ∧ n ≤ count

/-- Exactly the infeasible flows are removed: the others stay in their order, with consecutive
numbers in the order of the old ones, and the schedule holds no cell of a removed flow. -/
structure RemovedExactly (flows : List Flow) (infeasibleFlows : List (Flow × List ℕ))
    (schedule : Grid Cell) (y : Numbering) : Prop where
  remaining : y.flows =
    flows.filter fun flow ↦ decide (flow.flowNumber ∉ infeasibleNumbers infeasibleFlows)
  consecutive : Consecutive (flows.map Flow.flowNumber) →
    Consecutive (y.flows.map fun flow ↦ y.flowNumber flow.id)
  order : ∀ f ∈ y.flows, ∀ g ∈ y.flows,
    y.flowNumber f.id < y.flowNumber g.id ↔ f.flowNumber < g.flowNumber
  cells : ∀ flow ∈ y.flows, ∀ cell ∈ flow.cells, y.cellFlowNumber cell = y.flowNumber flow.id
  vacated : ∀ channel slot cell, schedule channel slot = some cell →
    ∀ flow ∈ flows, cell ∈ flow.cells → flow ∈ y.flows

/-- `self.schedule` where the loop is reached: cut to its final length. -/
def Placed.cut (args : CreateArgs) (x : Placed) : Grid Cell :=
  cutSchedule args (keptLastTimeslot args x.placement) x.placement.schedule

section Pass

variable {infeasible flow : Flow} {flows : List Flow} {x y : Numbering}

theorem renumberFlow_flows : (renumberFlow infeasible x flow).flows = x.flows := by
  unfold renumberFlow
  split_ifs <;> rfl

theorem renumberFlow_flowNumber (id : ℕ) : (renumberFlow infeasible x flow).flowNumber id =
      if id = flow.id ∧ x.flowNumber infeasible.id < x.flowNumber id then x.flowNumber id - 1
      else x.flowNumber id := by
  unfold renumberFlow
  by_cases hlt : x.flowNumber infeasible.id < x.flowNumber flow.id
  · rw [if_pos hlt]
    change update x.flowNumber flow.id _ id = _
    by_cases hid : id = flow.id
    · subst hid
      rw [update_self, if_pos ⟨rfl, hlt⟩]
    · rw [update_of_ne hid, if_neg fun hboth ↦ hid hboth.1]
  · rw [if_neg hlt, if_neg]
    rintro ⟨rfl, hlt'⟩
    exact hlt hlt'

theorem foldl_renumberFlow_flows : (flows.foldl (renumberFlow infeasible) x).flows = x.flows := by
  induction flows generalizing x with
  | nil => rfl
  | cons flow flows ih => rw [foldl_cons, ih, renumberFlow_flows]

theorem foldl_renumberFlow_flowNumber (hids : (flows.map Flow.id).Nodup)
    (hout : infeasible.id ∉ flows.map Flow.id) (id : ℕ) :
    (flows.foldl (renumberFlow infeasible) x).flowNumber id =
      if id ∈ flows.map Flow.id ∧ x.flowNumber infeasible.id < x.flowNumber id then
        x.flowNumber id - 1
      else x.flowNumber id := by
  induction flows generalizing x with
  | nil => simp
  | cons flow flows ih =>
    rw [map_cons, nodup_cons] at hids
    rw [map_cons, mem_cons, not_or] at hout
    rw [foldl_cons, ih hids.2 hout.2]
    have hsame : (renumberFlow infeasible x flow).flowNumber infeasible.id =
        x.flowNumber infeasible.id := by
      rw [renumberFlow_flowNumber, if_neg fun hboth ↦ hout.1 hboth.1]
    rw [hsame, renumberFlow_flowNumber]
    by_cases hid : id = flow.id
    · subst hid
      simp [hids.1]
    · simp [hid]

def CarryNumbers (flows : List Flow) (x : Numbering) : Prop :=
  ∀ flow ∈ flows, ∀ cell ∈ flow.cells, x.cellFlowNumber cell = x.flowNumber flow.id

theorem CarryNumbers.renumberFlow (hcarry : CarryNumbers flows x) (hown : OwnCells flows)
    (hflow : flow ∈ flows) : CarryNumbers flows (renumberFlow infeasible x flow) := by
  intro g hg cell hcell
  unfold Scheduler.renumberFlow
  by_cases hlt : x.flowNumber infeasible.id < x.flowNumber flow.id
  · rw [if_pos hlt]
    change (if cell ∈ flow.cells then _ else _) = update x.flowNumber flow.id _ g.id
    by_cases hmem : cell ∈ flow.cells
    · rw [if_pos hmem, hown.eq_of_mem_cells hg hflow hcell hmem, update_self]
    · have hid : g.id ≠ flow.id := by
        intro hid
        rw [inj_on_of_nodup_map hown.ids hg hflow hid] at hcell
        exact hmem hcell
      rw [if_neg hmem, update_of_ne hid]
      exact hcarry g hg cell hcell
  · rw [if_neg hlt]
    exact hcarry g hg cell hcell

theorem CarryNumbers.foldl (hcarry : CarryNumbers flows x) (hown : OwnCells flows)
    {some : List Flow} (hsome : ∀ flow ∈ some, flow ∈ flows) :
    CarryNumbers flows (some.foldl (Scheduler.renumberFlow infeasible) x) := by
  induction some generalizing x with
  | nil => exact hcarry
  | cons flow rest ih =>
    rw [foldl_cons]
    apply ih (hcarry.renumberFlow hown (hsome flow mem_cons_self))
    exact fun g hg ↦ hsome g (mem_cons_of_mem flow hg)

theorem OwnCells.filter (hown : OwnCells flows) (p : Flow → Bool) : OwnCells (flows.filter p) :=
  ⟨hown.ids.sublist (filter_sublist.map _),
    fun flow hflow ↦ hown.owned flow (mem_filter.mp hflow).1,
    fun flow hflow ↦ hown.nodup flow (mem_filter.mp hflow).1⟩

theorem CarryNumbers.removeFlow (hcarry : CarryNumbers x.flows x) (hown : OwnCells x.flows) :
    CarryNumbers (Scheduler.removeFlow infeasible x).flows (Scheduler.removeFlow infeasible x) := by
  set rest := x.flows.filter fun flow ↦
    !(x.flowNumber flow.id == x.flowNumber infeasible.id) with hrest
  have hcarry' : CarryNumbers rest { x with flows := rest } :=
    fun flow hflow ↦ hcarry flow (mem_filter.mp hflow).1
  have hflows : (Scheduler.removeFlow infeasible x).flows = rest := foldl_renumberFlow_flows
  rw [hflows]
  exact hcarry'.foldl (hown.filter _) fun _ hflow ↦ hflow

theorem removeFlow_spec (hown : OwnCells x.flows) : (removeFlow infeasible x).flows =
        x.flows.filter (fun flow ↦ !(x.flowNumber flow.id == x.flowNumber infeasible.id)) ∧
      (∀ flow ∈ x.flows, x.flowNumber flow.id ≠ x.flowNumber infeasible.id →
        (removeFlow infeasible x).flowNumber flow.id =
          if x.flowNumber infeasible.id < x.flowNumber flow.id then x.flowNumber flow.id - 1
          else x.flowNumber flow.id) ∧
      ∀ id, x.flowNumber id ≤ x.flowNumber infeasible.id →
        (removeFlow infeasible x).flowNumber id = x.flowNumber id := by
  set rest := x.flows.filter fun flow ↦
    !(x.flowNumber flow.id == x.flowNumber infeasible.id) with hrest
  have hids : (rest.map Flow.id).Nodup := hown.ids.sublist (filter_sublist.map _)
  have hout : infeasible.id ∉ rest.map Flow.id := by
    intro hmem
    obtain ⟨flow, hflow, hid⟩ := mem_map.mp hmem
    rw [hrest, mem_filter, hid] at hflow
    simp at hflow
  have hnumber := foldl_renumberFlow_flowNumber (x := { x with flows := rest }) hids hout
  refine ⟨foldl_renumberFlow_flows, fun flow hflow hne ↦ ?_, fun id hle ↦ ?_⟩
  · have hmem : flow.id ∈ rest.map Flow.id := by
      apply mem_map_of_mem
      rw [hrest, mem_filter]
      exact ⟨hflow, by simp [hne]⟩
    change Numbering.flowNumber (rest.foldl _ _) flow.id = _
    rw [hnumber]
    by_cases hlt : x.flowNumber infeasible.id < x.flowNumber flow.id
    · rw [if_pos hlt, if_pos ⟨hmem, hlt⟩]
    · rw [if_neg hlt, if_neg fun hboth ↦ hlt hboth.2]
  · change Numbering.flowNumber (rest.foldl _ _) id = _
    rw [hnumber, if_neg fun hboth ↦ absurd hboth.2 (not_lt.mpr hle)]

end Pass

/-! ## Entries with falling numbers -/

/-- What is left after passes for flows of the numbers `done`. -/
structure Removing (flows : List Flow) (done : List ℕ) (y : Numbering) : Prop where
  remaining : y.flows = flows.filter fun flow ↦ decide (flow.flowNumber ∉ done)
  consecutive : Consecutive (flows.map Flow.flowNumber) →
    Consecutive (y.flows.map fun flow ↦ y.flowNumber flow.id)
  order : ∀ f ∈ y.flows, ∀ g ∈ y.flows,
    y.flowNumber f.id < y.flowNumber g.id ↔ f.flowNumber < g.flowNumber
  cells : CarryNumbers y.flows y
  below : ∀ flow ∈ flows, (∀ n ∈ done, flow.flowNumber < n) →
    y.flowNumber flow.id = flow.flowNumber

section Falling

variable {infeasible : Flow} {flows : List Flow} {done : List ℕ} {y : Numbering}

theorem Consecutive.remove {α : Type} {items : List α} {number number' : α → ℕ} {n : ℕ}
    (hconsecutive : Consecutive (items.map number)) (hn : n ∈ items.map number)
    (hnumber' : ∀ a ∈ items, number a ≠ n →
      number' a = if n < number a then number a - 1 else number a) :
    Consecutive ((items.filter fun a ↦ !(number a == n)).map number') := by
  obtain ⟨count, hcount⟩ := hconsecutive
  have hbounds := (hcount n).mp hn
  refine ⟨count - 1, fun m ↦ ?_⟩
  rw [mem_map]
  constructor
  · rintro ⟨a, ha, rfl⟩
    rw [mem_filter] at ha
    have hne : number a ≠ n := by simpa using ha.2
    have ha' := (hcount (number a)).mp (mem_map_of_mem ha.1)
    rw [hnumber' a ha.1 hne]
    split_ifs <;> omega
  · intro hm
    by_cases hlt : m < n
    · obtain ⟨a, ha, rfl⟩ := mem_map.mp ((hcount m).mpr (by omega))
      refine ⟨a, mem_filter.mpr ⟨ha, by simp; omega⟩, ?_⟩
      rw [hnumber' a ha (by omega), if_neg (by omega)]
    · obtain ⟨a, ha, hsucc⟩ := mem_map.mp ((hcount (m + 1)).mpr (by omega))
      refine ⟨a, mem_filter.mpr ⟨ha, by simp; omega⟩, ?_⟩
      rw [hnumber' a ha (by omega), if_pos (by omega)]
      omega

theorem Removing.mem (hy : Removing flows done y) {flow : Flow} :
    flow ∈ y.flows ↔ flow ∈ flows ∧ flow.flowNumber ∉ done := by
  rw [hy.remaining, mem_filter, decide_eq_true_eq]

theorem Removing.removeFlow (hy : Removing flows done y) (hown : OwnCells flows)
    (hmem : infeasible ∈ flows) (hbelow : ∀ n ∈ done, infeasible.flowNumber < n) :
    Removing flows (done ++ [infeasible.flowNumber]) (removeFlow infeasible y) := by
  have hhead : y.flowNumber infeasible.id = infeasible.flowNumber := hy.below infeasible hmem hbelow
  have hin : infeasible ∈ y.flows := hy.mem.mpr ⟨hmem, fun hdone ↦ (hbelow _ hdone).false⟩
  have hown' : OwnCells y.flows := by
    rw [hy.remaining]
    exact hown.filter _
  -- on the flows that are left the numbers compare with the infeasible one as at the start
  have heq : ∀ flow ∈ y.flows,
      y.flowNumber flow.id = y.flowNumber infeasible.id ↔
        flow.flowNumber = infeasible.flowNumber := by
    intro flow hflow
    have hlt := hy.order flow hflow infeasible hin
    have hgt := hy.order infeasible hin flow hflow
    omega
  obtain ⟨hflows, hnumber, hlow⟩ := @removeFlow_spec infeasible y hown'
  have hleft : ∀ flow, flow ∈ (Scheduler.removeFlow infeasible y).flows ↔
      flow ∈ y.flows ∧ y.flowNumber flow.id ≠ y.flowNumber infeasible.id := by
    intro flow
    rw [hflows, mem_filter]
    simp
  refine ⟨?_, fun hconsecutive ↦ ?_, fun f hf g hg ↦ ?_, ?_, fun flow hflow hlower ↦ ?_⟩
  · rw [hflows, hy.remaining, filter_filter]
    apply filter_congr
    intro flow hflow
    by_cases hdone : flow.flowNumber ∈ done
    · simp [hdone]
    · have hiff := heq flow (hy.mem.mpr ⟨hflow, hdone⟩)
      by_cases hsame : flow.flowNumber = infeasible.flowNumber
      · simp [hiff.mpr hsame, hsame]
      · simp [mt hiff.mp hsame, hsame, hdone]
  · rw [hflows]
    exact (hy.consecutive hconsecutive).remove
      (mem_map_of_mem (f := fun flow ↦ y.flowNumber flow.id) hin) hnumber
  · obtain ⟨hf, hfne⟩ := (hleft f).mp hf
    obtain ⟨hg, hgne⟩ := (hleft g).mp hg
    rw [hnumber f hf hfne, hnumber g hg hgne, ← hy.order f hf g hg]
    split_ifs <;> omega
  · exact hy.cells.removeFlow hown'
  · have hinfeasible := hlower infeasible.flowNumber (mem_append_right _ mem_cons_self)
    have hsame := hy.below flow hflow fun n hn ↦ hlower n (mem_append_left _ hn)
    rw [hlow flow.id (by omega), hsame]

variable {infeasibleFlows : List (Flow × List ℕ)}

theorem renumberEntries_eq
    (hfalling : infeasibleFlows.Pairwise fun a b ↦ y.flowNumber b.1.id < y.flowNumber a.1.id) :
    renumberEntries infeasibleFlows y = y := by
  cases infeasibleFlows with
  | nil => rfl
  | cons first rest =>
    have hnone : ∀ entry ∈ first :: rest, renumberEntry first.1 y entry = y := by
      intro entry hentry
      apply if_neg
      rcases mem_cons.mp hentry with rfl | hrest
      · exact lt_irrefl _
      · exact (rel_of_pairwise_cons hfalling hrest).not_gt
    change (first :: rest).foldl (renumberEntry first.1) y = y
    generalize first :: rest = entries at hnone
    induction entries with
    | nil => rfl
    | cons entry entries ih =>
      rw [foldl_cons, hnone entry mem_cons_self]
      exact ih fun other hother ↦ hnone other (mem_cons_of_mem entry hother)

theorem Removing.removeInfeasible {infeasibleFlows : List (Flow × List ℕ)}
    (hy : Removing flows done y) (hown : OwnCells flows)
    (hmem : ∀ entry ∈ infeasibleFlows, entry.1 ∈ flows)
    (hfalling : infeasibleFlows.Pairwise fun a b ↦ b.1.flowNumber < a.1.flowNumber)
    (hbelow : ∀ entry ∈ infeasibleFlows, ∀ n ∈ done, entry.1.flowNumber < n) :
    Removing flows (done ++ infeasibleFlows.map fun entry ↦ entry.1.flowNumber)
      (removeInfeasible infeasibleFlows y) := by
  induction infeasibleFlows generalizing done y with
  | nil =>
    rw [map_nil, append_nil]
    exact hy
  | cons first rest ih =>
    have hpass := hy.removeFlow hown (hmem first mem_cons_self)
      (hbelow first mem_cons_self)
    have hrest : ∀ entry ∈ rest, ∀ n ∈ done ++ [first.1.flowNumber], entry.1.flowNumber < n := by
      intro entry hentry n hn
      rcases mem_append.mp hn with hdone | hfirst
      · exact hbelow entry (mem_cons_of_mem first hentry) n hdone
      · rw [mem_singleton.mp hfirst]
        exact rel_of_pairwise_cons hfalling hentry
    have hsame : ∀ entry ∈ rest,
        (Scheduler.removeFlow first.1 y).flowNumber entry.1.id = entry.1.flowNumber :=
      fun entry hentry ↦ hpass.below entry.1 (hmem entry (mem_cons_of_mem first hentry))
        (hrest entry hentry)
    have hfalling' : rest.Pairwise fun a b ↦
        (Scheduler.removeFlow first.1 y).flowNumber b.1.id <
          (Scheduler.removeFlow first.1 y).flowNumber a.1.id := by
      apply hfalling.of_cons.imp_of_mem
      intro a b ha hb hlt
      rw [hsame a ha, hsame b hb]
      exact hlt
    unfold Scheduler.removeInfeasible
    rw [renumberEntries_eq hfalling', map_cons, append_cons]
    exact ih hpass (fun entry hentry ↦ hmem entry (mem_cons_of_mem first hentry))
      hfalling.of_cons hrest

theorem flowNumber_numbersOf (hids : (flows.map Flow.id).Nodup) {flow : Flow}
    (hflow : flow ∈ flows) : (numbersOf flows).flowNumber flow.id = flow.flowNumber := by
  change ((flows.find? fun other ↦ other.id == flow.id).map Flow.flowNumber).getD 0 = _
  cases hfind : flows.find? fun other ↦ other.id == flow.id with
  | none =>
    have hother := find?_eq_none.mp hfind flow hflow
    simp at hother
  | some other =>
    have hid : other.id = flow.id := by simpa using find?_some hfind
    rw [inj_on_of_nodup_map hids (mem_of_find?_eq_some hfind) hflow hid]
    rfl

theorem removing_numbersOf (hown : OwnCells flows)
    (hnumbers : ∀ flow ∈ flows, ∀ cell ∈ flow.cells, cell.flowNumber = flow.flowNumber) :
    Removing flows [] (numbersOf flows) := by
  have hnumber : ∀ flow ∈ flows, (numbersOf flows).flowNumber flow.id = flow.flowNumber :=
    fun flow hflow ↦ flowNumber_numbersOf hown.ids hflow
  refine ⟨?_, fun hconsecutive ↦ ?_, fun f hf g hg ↦ ?_, fun flow hflow cell hcell ↦ ?_,
    fun flow hflow _ ↦ hnumber flow hflow⟩
  · rw [filter_eq_self.mpr fun flow _ ↦ decide_eq_true not_mem_nil]
    rfl
  · change Consecutive (flows.map _)
    rw [map_congr_left hnumber]
    exact hconsecutive
  · rw [hnumber f hf, hnumber g hg]
  · rw [hnumber flow hflow]
    exact hnumbers flow hflow cell hcell

theorem Removing.removedExactly_iff (hy : Removing flows (infeasibleNumbers infeasibleFlows) y)
    (schedule : Grid Cell) : RemovedExactly flows infeasibleFlows schedule y ↔
      ∀ channel slot cell, schedule channel slot = some cell → ∀ flow ∈ flows, cell ∈ flow.cells →
          flow.flowNumber ∉ infeasibleNumbers infeasibleFlows := by
  constructor
  · intro hexact channel slot cell hplaced flow hflow hcell
    exact (hy.mem.mp (hexact.vacated channel slot cell hplaced flow hflow hcell)).2
  · intro hvacated
    refine ⟨hy.remaining, hy.consecutive, hy.order, hy.cells, ?_⟩
    intro channel slot cell hplaced flow hflow hcell
    exact hy.mem.mpr ⟨hflow, hvacated channel slot cell hplaced flow hflow hcell⟩

end Falling

section Adjusted

variable {args : CreateArgs} {fuel : ℕ} {flows : List Flow} {x : Placed}

theorem removing_of_placeCells (hplaced : placeCells args fuel flows = .ok x) :
    OwnCells x.flows ∧ Removing x.flows [] (numbersOf x.flows) := by
  obtain ⟨ready, hready, hflows, -⟩ := placeCells_spec hplaced
  have hperm := orderFlows_perm args.algorithm ready
  rw [hflows]
  have hown := (ownCells_initFlows hready).perm hperm
  refine ⟨hown, removing_numbersOf hown fun flow hflow cell hcell ↦ ?_⟩
  obtain ⟨given, -, id, hinit⟩ := exists_initialised_of_mem hready (hperm.mem_iff.mp hflow)
  obtain ⟨participants, -, hcells⟩ := hinit.cells
  rw [hcells] at hcell
  obtain ⟨entry, -, rfl⟩ := mem_map.mp hcell
  exact hinit.flowNumber.symm

/-- The adjustment removes exactly the infeasible flows only where there are none: with an entry
the message raises. The loop alone, run on entries with falling numbers, removes exactly the
flows of these numbers, if and only if no cell of them was placed. -/
theorem adjustFlows_removedExactly_iff (hplaced : placeCells args fuel flows = .ok x) :
    ((∃ y, adjustFlows x = .ok y ∧
        RemovedExactly x.flows x.placement.infeasibleFlows (x.cut args) y) ↔
      x.placement.infeasibleFlows = []) ∧
    ∀ infeasibleFlows : List (Flow × List ℕ),
      (∀ entry ∈ infeasibleFlows, entry.1 ∈ x.flows) →
      (infeasibleFlows.Pairwise fun a b ↦ b.1.flowNumber < a.1.flowNumber) →
      (RemovedExactly x.flows infeasibleFlows (x.cut args)
          (removeInfeasible infeasibleFlows (numbersOf x.flows)) ↔
        ∀ channel slot cell, x.cut args channel slot = some cell →
          ∀ flow ∈ x.flows, cell ∈ flow.cells →
            flow.flowNumber ∉ infeasibleNumbers infeasibleFlows) := by
  obtain ⟨hown, hstart⟩ := removing_of_placeCells hplaced
  constructor
  · constructor
    · rintro ⟨y, hcall, -⟩
      obtain ⟨_, hprint, -⟩ := bind_eq_ok hcall
      by_contra hsome
      have hraised : printInfeasible x.placement.infeasibleFlows = .error .formatError :=
        if_neg hsome
      rw [hraised] at hprint
      exact nomatch hprint
    · intro hnone
      refine ⟨numbersOf x.flows, ?_, ?_⟩
      · unfold adjustFlows
        rw [hnone]
        rfl
      · rw [hnone]
        have hnoted : Removing x.flows (infeasibleNumbers []) (numbersOf x.flows) := hstart
        exact (hnoted.removedExactly_iff _).mpr
          fun _ _ _ _ _ _ _ ↦ not_mem_nil
  · intro infeasibleFlows hmem hfalling
    have hdone := hstart.removeInfeasible hown hmem hfalling
      fun _ _ _ hnil ↦ absurd hnil not_mem_nil
    exact hdone.removedExactly_iff _

def adjustArgs : CreateArgs := { plainArgs .edf with ignoreNsf := .enabled }

theorem adjustFlows_removedExactly_iff_feasible :
    ∃ x, placeCells adjustArgs 0 [pathFlow 1 1 4 [2, 3], pathFlow 2 5 6 []] = .ok x ∧
      (∃ y, adjustFlows x = .ok y ∧
        RemovedExactly x.flows x.placement.infeasibleFlows (x.cut adjustArgs) y) ∧
      ∃ flow ∈ x.flows,
        RemovedExactly x.flows [(flow, [])] (x.cut adjustArgs)
            (removeInfeasible [(flow, [])] (numbersOf x.flows)) ↔
          ∀ channel slot cell, x.cut adjustArgs channel slot = some cell →
            ∀ other ∈ x.flows, cell ∈ other.cells →
              other.flowNumber ∉ infeasibleNumbers [(flow, [])] := by
  obtain ⟨x, hplaced, hfeasible, flow, hflow, -⟩ : ∃ x,
      placeCells adjustArgs 0 [pathFlow 1 1 4 [2, 3], pathFlow 2 5 6 []] = .ok x ∧
        x.placement.infeasibleFlows.isEmpty ∧ ∃ flow ∈ x.flows, True :=
    exists_ok (by decide +kernel)
  have hexact := adjustFlows_removedExactly_iff hplaced
  refine ⟨x, hplaced, hexact.1.mpr (isEmpty_iff.mp hfeasible), flow, hflow, ?_⟩
  refine hexact.2 [(flow, [])] (fun entry hentry ↦ ?_) (pairwise_singleton _ _)
  rw [mem_singleton.mp hentry]
  exact hflow

/-- The flow 1 → 2 → 3 → 4 with deadline 1 has its first cell placed and is noted twice, for the
other two. The message raises. The loop removes flow 1, then flow 2, which has become the first. -/
theorem adjustFlows_not_removedExactly :
    ∃ x, placeCells adjustArgs 0
        [{ pathFlow 1 1 4 [2, 3] with deadline := some 1 }, pathFlow 2 5 6 []] = .ok x ∧
      (¬ ∃ y, adjustFlows x = .ok y) ∧
      ¬ RemovedExactly x.flows x.placement.infeasibleFlows (x.cut adjustArgs)
        (removeInfeasible x.placement.infeasibleFlows (numbersOf x.flows)) := by
  obtain ⟨x, hx, hraised, hempty, flow, hflow, hout⟩ : ∃ x, placeCells adjustArgs 0
      [{ pathFlow 1 1 4 [2, 3] with deadline := some 1 }, pathFlow 2 5 6 []] = .ok x ∧
        (adjustFlows x).toOption.isNone ∧
        (removeInfeasible x.placement.infeasibleFlows (numbersOf x.flows)).flows.isEmpty ∧
        ∃ flow ∈ x.flows, flow.flowNumber ∉ infeasibleNumbers x.placement.infeasibleFlows :=
    exists_ok (by decide +kernel)
  refine ⟨x, hx, ?_, fun hexact ↦ ?_⟩
  · rintro ⟨y, hy⟩
    rw [hy] at hraised
    exact nomatch hraised
  · have hremaining := hexact.remaining
    rw [isEmpty_iff.mp hempty] at hremaining
    have hmem : flow ∈ x.flows.filter fun flow ↦
        decide (flow.flowNumber ∉ infeasibleNumbers x.placement.infeasibleFlows) :=
      mem_filter.mpr ⟨hflow, decide_eq_true hout⟩
    rw [← hremaining] at hmem
    exact absurd hmem not_mem_nil

end Adjusted

end ContikiMaster.Scheduler
