import ContikiMaster.Scheduler.ConflictFree
import ContikiMaster.Scheduler.PlacedOnce

/-!
# The order in which cells are placed

EDF and RMS search for the place of a cell behind that of the cell before. R-LPF takes the
cells from the last to the first and searches from the slot of the cell after on, that slot
included: the two get different slots where they share a node or there is one channel.
-/

namespace ContikiMaster.Scheduler

open Lib List Option

/-- Of the cells of a list, those that have a place lie in ascending slots. -/
def Ascending (schedule : Grid Cell) (cells : List Cell) : Prop :=
  cells.Pairwise fun a b ↦ ∀ c d t u, schedule c t = some a → schedule d u = some b → t < u

section Grids

variable {schedule : Grid Cell} {cells : List Cell} {cell other : Cell} {channel slot : ℕ}

variable {c t : ℕ}

theorem entry_of_write (hne : other ≠ cell)
    (hentry : schedule.write channel slot cell c t = some other) : schedule c t = some other := by
  rw [Grid.write_apply] at hentry
  split at hentry
  · exact absurd (some.inj hentry).symm hne
  · exact hentry

theorem slot_of_write (hnone : ∀ c t, schedule c t ≠ some cell)
    (hentry : schedule.write channel slot cell c t = some cell) : t = slot := by
  rw [Grid.write_apply] at hentry
  split at hentry
  · rename_i hhere
    exact hhere.2
  · exact absurd hentry (hnone c t)

theorem ascending_of_forall_ne (hnone : ∀ cell ∈ cells, ∀ c t, schedule c t ≠ some cell) :
    Ascending schedule cells := by
  apply pairwise_of_forall_mem_list
  intro a ha b _ c d t u hentry
  exact absurd hentry (hnone a ha c t)

theorem Ascending.write (hcells : Ascending schedule cells) (hnew : cell ∉ cells) :
    Ascending (schedule.write channel slot cell) cells := by
  refine List.Pairwise.imp_of_mem (fun ha hb hlt c d t u hentry hentry' ↦ ?_) hcells
  have hne : ∀ {a}, a ∈ cells → a ≠ cell := fun hmem heq ↦ hnew (heq ▸ hmem)
  exact hlt c d t u (entry_of_write (hne ha) hentry) (entry_of_write (hne hb) hentry')

theorem Ascending.append (hcells : Ascending schedule cells)
    (hlt : ∀ a ∈ cells, ∀ c d t u, schedule c t = some a → schedule d u = some cell → t < u) :
    Ascending schedule (cells ++ [cell]) := by
  refine pairwise_append.mpr ⟨hcells, pairwise_singleton _ _, fun a ha b hb ↦ ?_⟩
  rw [mem_singleton.mp hb]
  exact hlt a ha

theorem ascending_of_loop {σ : Type} {g : σ → Grid Cell}
    {body : σ → Cell → Except SchedulerError σ} {Q : List Cell → σ → Prop} {s t : σ}
    (hbody : ∀ prior cell todo, cells = prior ++ cell :: todo → ∀ s t, Q prior s →
      (∀ c u, g s c u ≠ some cell) → body s cell = .ok t → Q (prior ++ [cell]) t ∧
        (g t = g s ∨ ∃ channel slot, g t = (g s).write channel slot cell ∧
          ∀ a ∈ prior, ∀ c u, g s c u = some a → u < slot))
    (hnodup : cells.Nodup) (hnone : ∀ cell ∈ cells, ∀ c u, g s c u ≠ some cell)
    (hloop : cells.foldlM body s = .ok t) (hs : Q [] s) :
    Ascending (g t) cells ∧ ∀ others : List Cell, (∀ cell ∈ cells, cell ∉ others) →
      Ascending (g s) others → Ascending (g t) others := by
  have hdone := foldlM_invariant_done
    (P := fun prior r ↦ Q prior r ∧ Ascending (g r) prior ∧
      (∀ cell ∈ cells, cell ∉ prior → ∀ c u, g r c u ≠ some cell) ∧
      ∀ others : List Cell, (∀ cell ∈ cells, cell ∉ others) →
        Ascending (g s) others → Ascending (g r) others)
    (fun prior cell todo hsplit r r' hr hcall ↦ ?_) hloop
    ⟨hs, List.Pairwise.nil, fun cell hcell _ ↦ hnone cell hcell, fun _ _ hothers ↦ hothers⟩
  · exact ⟨hdone.2.1, hdone.2.2.2⟩
  · obtain ⟨hQ, hprior, hunplaced, hothers⟩ := hr
    have hmem : cell ∈ cells := by
      rw [hsplit]
      exact mem_append_right _ mem_cons_self
    have hfresh : cell ∉ prior := by
      rw [hsplit] at hnodup
      intro hin
      exact disjoint_of_nodup_append hnodup hin mem_cons_self
    have hcell := hunplaced cell hmem hfresh
    obtain ⟨hQ', hgrid⟩ := hbody prior cell todo hsplit r r' hQ hcell hcall
    rcases hgrid with hsame | ⟨channel, slot, hwrite, hbefore⟩
    · rw [hsame]
      refine ⟨hQ', hprior.append fun a ha c d t u _ hentry ↦ absurd hentry (hcell d u),
        fun other hother hout ↦ ?_, hothers⟩
      exact hunplaced other hother fun hin ↦ hout (mem_append_left _ hin)
    · rw [hwrite]
      refine ⟨hQ', (hprior.write hfresh).append fun a ha c d t u hentry hentry' ↦ ?_,
        fun other hother hout c u hentry ↦ ?_, fun others hdisjoint hbase ↦ ?_⟩
      · rw [slot_of_write hcell hentry']
        exact hbefore a ha c t (entry_of_write (fun heq : a = cell ↦ hfresh (heq ▸ ha)) hentry)
      · have hne : other ≠ cell := by
          intro heq
          rw [heq] at hout
          exact hout (mem_append_right _ (mem_singleton_self cell))
        exact hunplaced other hother (fun hin ↦ hout (mem_append_left _ hin)) c u
          (entry_of_write hne hentry)
      · exact (hothers others hdisjoint hbase).write (hdisjoint cell hmem)

end Grids

section Orders

variable {args : CreateArgs} {length : ℕ} {flows : List Flow} {flow : Flow}

/-- The order in which the cells of a flow are placed. -/
def placementOrder (args : CreateArgs) (cells : List Cell) : List Cell :=
  match args.algorithm with
  | .rLpf => cells.reverse
  | _ => cells

theorem placementOrder_perm (args : CreateArgs) (cells : List Cell) :
    (placementOrder args cells).Perm cells := by
  unfold placementOrder
  split
  · exact reverse_perm cells
  · exact List.Perm.refl cells

/-- The cells of all flows lie in the order in which they are placed. -/
def AllAscending (args : CreateArgs) (flows : List Flow) (schedule : Grid Cell) : Prop :=
  ∀ flow ∈ flows, Ascending schedule (placementOrder args flow.cells)

theorem allAscending_empty : AllAscending args flows Placement.empty.schedule := by
  intro flow _
  apply ascending_of_forall_ne
  intro cell _ c t hentry
  cases hentry

theorem AllAscending.placeFlow {schedule schedule' : Grid Cell} (hown : OwnCells flows)
    (hflow : flow ∈ flows) (hall : AllAscending args flows schedule)
    (hloop : Ascending schedule' (placementOrder args flow.cells) ∧ ∀ others : List Cell,
      (∀ cell ∈ placementOrder args flow.cells, cell ∉ others) →
        Ascending schedule others → Ascending schedule' others) :
    AllAscending args flows schedule' := by
  intro other hother
  by_cases hsame : other = flow
  · rw [hsame]
    exact hloop.1
  · refine hloop.2 _ (fun cell hcell hin ↦ hsame ?_) (hall other hother)
    rw [(placementOrder_perm args _).mem_iff] at hcell hin
    exact hown.eq_of_mem_cells hother hflow hin hcell

variable {checked : Bool} {x y : Placement} {participants : List ℕ} {a b : ℕ × Placement}
  {currentIdx channel slot : ℕ} {todo : List Flow} {cell : Cell} {cells : List Cell}

theorem PlacedExactly.ne_of_not {done : Cell → Prop}
    (hx : PlacedExactly args checked done x) (hcell : ¬ done cell) (c t : ℕ) :
    x.schedule c t ≠ some cell :=
  fun hentry ↦ hcell (hx.within c t cell hentry)

theorem settled_of_infeasible {placed : Bool} (hmode : args.ignoreNsf = .infeasible)
    (hcall : settleCell args checked flow participants cell channel slot x = .ok (placed, y)) :
    placed = true ∧ y.schedule = x.schedule.write channel slot cell ∧
      y.infeasibleFlows = x.infeasibleFlows ∧ y.lastTimeslot = x.lastTimeslot := by
  unfold settleCell at hcall
  extract_lets missed cnmid at hcall
  split at hcall
  · cases hcall
  · split at hcall
    · rename_i hrefused
      simp [hmode] at hrefused
    · cases hcall
      exact ⟨rfl, rfl, rfl, rfl⟩

theorem inOrderCell_written (hmode : args.ignoreNsf = .infeasible)
    (hcall : inOrderCell args length flow a cell = .ok b) :
    ∃ channel slot, a.1 ≤ slot ∧ b.1 = slot + 1 ∧
      b.2.schedule = a.2.schedule.write channel slot cell := by
  unfold inOrderCell at hcall
  split at hcall
  · cases hcall
  · rename_i channel slot hfind
    obtain ⟨⟨placed, z⟩, hsettle, hdone⟩ := bind_eq_ok hcall
    obtain ⟨hlater, -⟩ := findSchedulableSlot_spec hfind
    obtain ⟨rfl, hwrite, -⟩ := settled_of_infeasible hmode hsettle
    cases hdone
    exact ⟨channel, slot, hlater, rfl, hwrite⟩

theorem cursor_step {schedule : Grid Cell} {prior : List Cell}
    {cursor : ℕ} (channel : ℕ) (hcursor : cursor ≤ slot) (hcell : ∀ c t, schedule c t ≠ some cell)
    (hprior : ∀ a ∈ prior, ∀ c t, schedule c t = some a → t < cursor) :
    (∀ a ∈ prior ++ [cell], ∀ c t, schedule.write channel slot cell c t = some a → t < slot + 1) ∧
    ∀ a ∈ prior, ∀ c t, schedule c t = some a → t < slot := by
  refine ⟨fun a ha c t hentry ↦ ?_, fun a ha c t hentry ↦ (hprior a ha c t hentry).trans_le hcursor⟩
  by_cases heq : a = cell
  · rw [heq] at hentry
    rw [slot_of_write hcell hentry]
    exact Nat.lt_succ_self slot
  · have hin : a ∈ prior := by
      rcases mem_append.mp ha with hin | hin
      · exact hin
      · exact absurd (mem_singleton.mp hin) heq
    have hlt := hprior a hin c t (entry_of_write heq hentry)
    omega

theorem placementOrder_of_ne (halgorithm : args.algorithm ≠ .rLpf) :
    placementOrder args cells = cells := by
  unfold placementOrder
  split
  · exact absurd ‹_› halgorithm
  · rfl

theorem placeInOrder_allAscending (hmode : args.ignoreNsf = .infeasible)
    (halgorithm : args.algorithm = .edf ∨ args.algorithm = .rms) (hown : OwnCells flows)
    (hcall : placeInOrder args length flows = .ok x) : AllAscending args flows x.schedule := by
  have hneCLlf : args.algorithm ≠ .cLlf := by rcases halgorithm with h | h <;> simp [h]
  have hneRLpf : args.algorithm ≠ .rLpf := by rcases halgorithm with h | h <;> simp [h]
  have hdone := foldlM_invariant_done
    (P := fun done x ↦ PlacedExactly args true (IsCellOf done) x ∧
      AllAscending args flows x.schedule)
    (fun done flow todo hflows x y hx hflow ↦ ?_) hcall
    ⟨placedExactly_empty.congr fun cell ↦ by simp [IsCellOf], allAscending_empty⟩
  · exact hdone.2
  · obtain ⟨⟨r, z⟩, hcells, hdone⟩ := bind_eq_ok hflow
    cases hdone
    have hmem : flow ∈ flows := by
      rw [hflows]
      exact mem_append_right _ mem_cons_self
    have hown' : OwnCells (done ++ flow :: todo) := hflows ▸ hown
    refine ⟨PlacedExactly.placeFlow (p := Prod.snd) hown'
      (fun _ _ _ hcell ↦ inOrderCell_cellStep hneCLlf hcell) (.refl _) hcells hx.1,
      hx.2.placeFlow hown hmem ?_⟩
    rw [placementOrder_of_ne hneRLpf]
    refine ascending_of_loop (g := fun a : ℕ × Placement ↦ a.2.schedule)
      (Q := fun prior a ↦ ∀ b ∈ prior, ∀ c t, a.2.schedule c t = some b → t < a.1)
      (fun prior cell _ _ a b ha hcell hstep ↦ ?_) (hown.nodup flow hmem) (fun cell hcell ↦ ?_)
      hcells fun b hb ↦ absurd hb not_mem_nil
    · obtain ⟨channel, slot, hcursor, hnext, hwrite⟩ := inOrderCell_written hmode hstep
      obtain ⟨hpassed, hbefore⟩ := cursor_step channel hcursor hcell ha
      rw [hwrite, hnext]
      exact ⟨hpassed, .inr ⟨channel, slot, rfl, hbefore⟩⟩
    · apply hx.1.ne_of_not
      rintro ⟨other, hother, hin⟩
      exact hown'.notMem_cells_of_append hother hcell hin

/-! ## R-LPF -/

theorem nextInsertIndex_spec {numChannels insertAtIndex : ℕ}
    (hnext : nextInsertIndex length numChannels currentIdx x insertAtIndex participants =
      some slot) : slot < length ∧ insertAtIndex ≤ slot ∧ currentIdx ≤ slot ∧
      schedulableInSlot numChannels x slot participants = true := by
  have hmem := mem_of_find?_eq_some hnext
  have hfound := find?_some hnext
  simp only [Bool.and_eq_true, decide_eq_true_eq] at hfound
  exact ⟨mem_range.mp hmem, hfound.1.1, hfound.2, hfound.1.2⟩

theorem rLpfCell_written (hmode : args.ignoreNsf = .infeasible)
    (hcall : rLpfCell args length checked currentIdx flow a cell = .ok b) :
    nextInsertIndex length args.numChannels currentIdx a.2 a.1 cell.participants = some b.1 ∧
      ∃ channel, a.2.schedule channel b.1 = none ∧
        b.2.schedule = a.2.schedule.write channel b.1 cell := by
  unfold rLpfCell at hcall
  split at hcall
  · cases hcall
  · rename_i slot hnext
    obtain ⟨⟨placed, z⟩, hsettle, hdone⟩ := bind_eq_ok hcall
    obtain ⟨rfl, hwrite, -⟩ := settled_of_infeasible hmode hsettle
    cases hdone
    obtain ⟨-, -, -, hschedulable⟩ := nextInsertIndex_spec hnext
    have hroom := (Bool.and_eq_true_iff.mp hschedulable).1
    exact ⟨hnext, _, (availableChannelInSlot_spec hroom).2.1, hwrite⟩

/-- The cells of a flow from a state on: when one has been placed, its slot has no room for the
next one. -/
def CellsApart (args : CreateArgs) (length : ℕ) (checked : Bool) (currentIdx : ℕ) (flow : Flow) :
    List Cell → ℕ × Placement → Prop
  | cell :: next :: cells, a => ∀ b, rLpfCell args length checked currentIdx flow a cell = .ok b →
      schedulableInSlot args.numChannels b.2 b.1 next.participants = false ∧
        CellsApart args length checked currentIdx flow (next :: cells) b
  | _, _ => True

/-- Where R-LPF starts with the sub-flow of a flow. -/
def RLpfState.startIdx (x : RLpfState) (flow : Flow) : ℕ :=
  if x.currentFlowNumber = some flow.flowNumber then x.currentIdx else 0

/-- The flows from a state on, with cells that are kept apart. -/
def FlowsApart (args : CreateArgs) (length : ℕ) (checked : Bool) : List Flow → RLpfState → Prop
  | [], _ => True
  | flow :: flows, x =>
    CellsApart args length checked (x.startIdx flow) flow flow.cells.reverse (0, x.placement) ∧
    ∀ y, rLpfFlow args length checked x flow = .ok y → FlowsApart args length checked flows y

/-- The cells of a flow so far, with what is left of them. -/
structure RLpfOrder (args : CreateArgs) (length : ℕ) (checked : Bool) (currentIdx : ℕ) (flow : Flow)
    (prior : List Cell) (a : ℕ × Placement) : Prop where
  le : ∀ b ∈ prior, ∀ c t, a.2.schedule c t = some b → t ≤ a.1
  apart : ∀ cell todo, flow.cells.reverse = prior ++ cell :: todo →
    CellsApart args length checked currentIdx flow (cell :: todo) a ∧
      (prior ≠ [] → schedulableInSlot args.numChannels a.2 a.1 cell.participants = false)

theorem RLpfOrder.step {prior todo : List Cell} (hmode : args.ignoreNsf = .infeasible)
    (hprior : RLpfOrder args length checked currentIdx flow prior a)
    (hsplit : flow.cells.reverse = prior ++ cell :: todo)
    (hcell : ∀ c t, a.2.schedule c t ≠ some cell)
    (hcall : rLpfCell args length checked currentIdx flow a cell = .ok b) :
    RLpfOrder args length checked currentIdx flow (prior ++ [cell]) b ∧
      ∃ channel slot, b.2.schedule = a.2.schedule.write channel slot cell ∧
        ∀ other ∈ prior, ∀ c t, a.2.schedule c t = some other → t < slot := by
  obtain ⟨hnext, channel, -, hwrite⟩ := rLpfCell_written hmode hcall
  obtain ⟨-, hle, -, hschedulable⟩ := nextInsertIndex_spec hnext
  obtain ⟨hapart, hfull⟩ := hprior.apart cell todo hsplit
  have hlt : ∀ other ∈ prior, ∀ c t, a.2.schedule c t = some other → t < b.1 := by
    intro other hother c t hentry
    refine (hprior.le other hother c t hentry).trans_lt (lt_of_le_of_ne hle fun heq ↦ ?_)
    -- the slot of the cell before is not schedulable
    have hroom := hfull (ne_nil_of_mem hother)
    rw [heq, hschedulable] at hroom
    cases hroom
  refine ⟨⟨fun other hother c t hentry ↦ ?_, fun next todo' hsplit' ↦ ?_⟩, channel, b.1, hwrite, hlt⟩
  · rw [hwrite] at hentry
    by_cases heq : other = cell
    · rw [heq] at hentry
      exact (slot_of_write hcell hentry).le
    · have hin : other ∈ prior := by
        rcases mem_append.mp hother with hin | hin
        · exact hin
        · exact absurd (mem_singleton.mp hin) heq
      exact (hlt other hin c t (entry_of_write heq hentry)).le
  · rw [hsplit, append_assoc, singleton_append, append_cancel_left_eq,
      cons.injEq] at hsplit'
    rw [hsplit'.2] at hapart
    obtain ⟨hroom, hrest⟩ := hapart b hcall
    exact ⟨hrest, fun _ ↦ hroom⟩

theorem placementOrder_of_rLpf (halgorithm : args.algorithm = .rLpf) :
    placementOrder args cells = cells.reverse := by
  unfold placementOrder
  rw [halgorithm]

theorem placeRLpf_allAscending (hmode : args.ignoreNsf = .infeasible)
    (halgorithm : args.algorithm = .rLpf) (hown : OwnCells flows)
    (hapart : FlowsApart args length (allDeadlines flows) flows ⟨none, 0, Placement.empty⟩)
    (hcall : placeRLpf args length flows = .ok x) : AllAscending args flows x.schedule := by
  have hneCLlf : args.algorithm ≠ .cLlf := by simp [halgorithm]
  obtain ⟨y, hloop, hdone⟩ := bind_eq_ok hcall
  cases hdone
  have hfinal := foldlM_invariant_done
    (P := fun done (x : RLpfState) ↦
      PlacedExactly args (allDeadlines flows) (IsCellOf done) x.placement ∧
      (∀ todo, flows = done ++ todo → FlowsApart args length (allDeadlines flows) todo x) ∧
      AllAscending args flows x.placement.schedule)
    (fun done flow todo hflows x y hx hflow ↦ ?_) hloop
    ⟨placedExactly_empty.congr fun cell ↦ by simp [IsCellOf],
      fun todo hflows ↦ by rwa [← nil_append todo, ← hflows], allAscending_empty⟩
  · exact hfinal.2.2
  · obtain ⟨hexact, hleft, hall⟩ := hx
    obtain ⟨hcellsApart, hflowsApart⟩ := hleft _ hflows
    have hnext := hflowsApart y hflow
    obtain ⟨⟨r, z⟩, hcells, hdone⟩ := bind_eq_ok hflow
    cases hdone
    have hmem : flow ∈ flows := by
      rw [hflows]
      exact mem_append_right _ mem_cons_self
    have hown' : OwnCells (done ++ flow :: todo) := hflows ▸ hown
    refine ⟨PlacedExactly.placeFlow (p := Prod.snd) hown'
      (fun _ _ _ hcell ↦ rLpfCell_cellStep hneCLlf hcell) (reverse_perm _) hcells hexact,
      fun todo' hflows' ↦ ?_, hall.placeFlow hown hmem ?_⟩
    · rw [hflows, append_assoc, singleton_append, append_cancel_left_eq,
        cons.injEq] at hflows'
      rw [← hflows'.2]
      exact hnext
    rw [placementOrder_of_rLpf halgorithm]
    refine ascending_of_loop (g := fun a : ℕ × Placement ↦ a.2.schedule)
      (Q := RLpfOrder args length (allDeadlines flows) (x.startIdx flow) flow)
      (fun prior cell todo hsplit a b ha hcell hstep ↦ ?_)
      (nodup_reverse.mpr (hown.nodup flow hmem)) (fun cell hcell ↦ ?_) hcells
      ⟨fun b hb ↦ absurd hb not_mem_nil, fun cell todo hsplit ↦ ?_⟩
    · obtain ⟨hnext, hwrite⟩ := ha.step hmode hsplit hcell hstep
      exact ⟨hnext, .inr hwrite⟩
    · apply hexact.ne_of_not
      rintro ⟨other, hother, hin⟩
      exact hown'.notMem_cells_of_append hother (mem_reverse.mp hcell) hin
    · rw [hsplit, nil_append] at hcellsApart
      exact ⟨hcellsApart, fun hne ↦ absurd rfl hne⟩

def Placement.Extends (x y : Placement) : Prop :=
  ∀ c t cell, x.schedule c t = some cell → y.schedule c t = some cell

theorem extends_of_write (hfree : x.schedule channel slot = none)
    (hwrite : y.schedule = x.schedule.write channel slot cell) : x.Extends y := by
  intro c t other hother
  rw [hwrite, Grid.write_apply]
  split
  · rename_i hhere
    rw [hhere.1, hhere.2, hfree] at hother
    cases hother
  · exact hother

theorem rLpfCells_extends (hmode : args.ignoreNsf = .infeasible)
    (hcells : cells.foldlM (rLpfCell args length checked currentIdx flow) a = .ok b) :
    a.2.Extends b.2 := by
  refine foldlM_invariant (P := fun b : ℕ × Placement ↦ a.2.Extends b.2)
    (fun cell _ r r' hr hstep ↦ ?_) hcells fun _ _ _ hother ↦ hother
  obtain ⟨-, channel, hfree, hwrite⟩ := rLpfCell_written hmode hstep
  exact fun c t other hother ↦ extends_of_write hfree hwrite c t other (hr c t other hother)

theorem rLpfFlows_extends {x y : RLpfState} (hmode : args.ignoreNsf = .infeasible)
    (hflows : todo.foldlM (rLpfFlow args length checked) x = .ok y) :
    x.placement.Extends y.placement := by
  refine foldlM_invariant (P := fun y : RLpfState ↦ x.placement.Extends y.placement)
    (fun flow _ r r' hr hstep ↦ ?_) hflows fun _ _ _ hother ↦ hother
  obtain ⟨⟨i, z⟩, hcells, hdone⟩ := bind_eq_ok hstep
  cases hdone
  exact fun c t other hother ↦ rLpfCells_extends hmode hcells c t other (hr c t other hother)

theorem cellsApart_of_ascending (hmode : args.ignoreNsf = .infeasible)
    (hcells : cells.foldlM (rLpfCell args length checked currentIdx flow) a = .ok b)
    (hextends : b.2.Extends y) (hascending : Ascending y.schedule cells) :
    CellsApart args length checked currentIdx flow cells a := by
  induction cells generalizing a with
  | nil => exact trivial
  | cons cell cells ih =>
    cases cells with
    | nil => exact trivial
    | cons next cells =>
      intro a' hstep
      rw [foldlM_cons, hstep, ok_bind] at hcells
      refine ⟨Bool.eq_false_iff.mpr fun hroom ↦ ?_, ih hcells (pairwise_cons.mp hascending).2⟩
      obtain ⟨hfound, channel, -, hwrite⟩ := rLpfCell_written hmode hstep
      obtain ⟨hlength, -, hstart, -⟩ := nextInsertIndex_spec hfound
      rw [foldlM_cons] at hcells
      obtain ⟨a'', hstep', hrest'⟩ := bind_eq_ok hcells
      obtain ⟨hfound', channel', hfree', hwrite'⟩ := rLpfCell_written hmode hstep'
      have hsame : nextInsertIndex length args.numChannels currentIdx a'.2 a'.1
          next.participants = some a'.1 := by
        refine find?_range_eq_some.mpr ⟨by simp [hroom, hstart], mem_range.mpr hlength,
          fun j hj ↦ ?_⟩
        simp [not_le.mpr hj]
      rw [hsame] at hfound'
      have hcell : a'.2.schedule channel a'.1 = some cell := by
        rw [hwrite, Grid.write_apply, if_pos ⟨rfl, rfl⟩]
      have hnext : a''.2.schedule channel' a''.1 = some next := by
        rw [hwrite', Grid.write_apply, if_pos ⟨rfl, rfl⟩]
      have hlater := rLpfCells_extends hmode hrest'
      have hlt := (pairwise_cons.mp hascending).1 next mem_cons_self _ _ _ _
        (hextends _ _ _ (hlater _ _ _ (extends_of_write hfree' hwrite' _ _ _ hcell)))
        (hextends _ _ _ (hlater _ _ _ hnext))
      exact absurd (some.inj hfound') hlt.ne

theorem flowsApart_of_allAscending {x y : RLpfState} (hmode : args.ignoreNsf = .infeasible)
    (hloop : todo.foldlM (rLpfFlow args length checked) x = .ok y)
    (hascending : ∀ flow ∈ todo, Ascending y.placement.schedule flow.cells.reverse) :
    FlowsApart args length checked todo x := by
  induction todo generalizing x with
  | nil => exact trivial
  | cons flow todo ih =>
    rw [foldlM_cons] at hloop
    obtain ⟨x', hflow, hrest⟩ := bind_eq_ok hloop
    refine ⟨?_, fun x'' hflow' ↦ ?_⟩
    · obtain ⟨⟨i, z⟩, hcells, hdone⟩ := bind_eq_ok hflow
      cases hdone
      exact cellsApart_of_ascending hmode hcells (rLpfFlows_extends hmode hrest)
        (hascending flow mem_cons_self)
    · rw [hflow] at hflow'
      rw [← Except.ok.inj hflow']
      exact ih hrest fun other hother ↦ hascending other (mem_cons_of_mem flow hother)

theorem not_schedulable_of_entry (hfree : ConflictFree args.numChannels x.schedule ∧ NodesNoted x)
    {next : Cell} (hentry : x.schedule channel slot = some cell)
    (hshares : 1 < args.numChannels → next.Conflicts cell) :
    schedulableInSlot args.numChannels x slot next.participants = false := by
  refine Bool.eq_false_iff.mpr fun hroom ↦ ?_
  by_cases hmany : 1 < args.numChannels
  · exact hfree.2.compatible hroom hentry (hshares hmany)
  · -- the only channel of the slot is taken
    obtain ⟨T, hT⟩ := hfree.1
    have hlt : channel < args.numChannels := by
      refine hT.row_lt (t := slot) ?_
      rw [hentry]
      exact some_ne_none cell
    obtain ⟨c, hc, hnone⟩ := any_eq_true.mp (Bool.and_eq_true_iff.mp hroom).1
    have hsame : c = channel := by
      have hclt := mem_range.mp hc
      omega
    rw [hsame, hentry] at hnone
    cases hnone

theorem cellsApart_of_conflicts (hmode : args.ignoreNsf = .infeasible)
    (hfree : ConflictFree args.numChannels a.2.schedule ∧ NodesNoted a.2)
    (hshares : 1 < args.numChannels → cells.IsChain fun cell next ↦ next.Conflicts cell) :
    CellsApart args length checked currentIdx flow cells a := by
  induction cells generalizing a with
  | nil => exact trivial
  | cons cell cells ih =>
    cases cells with
    | nil => exact trivial
    | cons next cells =>
      intro b hstep
      have hfree' := rLpfCell_conflictFree hfree hstep
      obtain ⟨-, channel, -, hwrite⟩ := rLpfCell_written hmode hstep
      have hentry : b.2.schedule channel b.1 = some cell := by
        rw [hwrite, Grid.write_apply, if_pos ⟨rfl, rfl⟩]
      exact ⟨not_schedulable_of_entry hfree' hentry fun hmany ↦
          (isChain_cons_cons.mp (hshares hmany)).1,
        ih hfree' fun hmany ↦ (isChain_cons_cons.mp (hshares hmany)).2⟩

theorem flowsApart_of_conflicts {x : RLpfState} (hmode : args.ignoreNsf = .infeasible)
    (hfree : ConflictFree args.numChannels x.placement.schedule ∧ NodesNoted x.placement)
    (hshares : 1 < args.numChannels → ∀ flow ∈ todo, flow.cells.IsChain Cell.Conflicts) :
    FlowsApart args length checked todo x := by
  induction todo generalizing x with
  | nil => exact trivial
  | cons flow todo ih =>
    refine ⟨cellsApart_of_conflicts hmode hfree fun hmany ↦ ?_, fun y hflow ↦ ?_⟩
    · exact isChain_reverse.mpr (hshares hmany flow mem_cons_self)
    · obtain ⟨⟨i, z⟩, hcells, hdone⟩ := bind_eq_ok hflow
      cases hdone
      refine ih ?_ fun hmany other hother ↦ hshares hmany other (mem_cons_of_mem flow hother)
      exact foldlM_invariant
        (P := fun x : ℕ × Placement ↦ ConflictFree args.numChannels x.2.schedule ∧ NodesNoted x.2)
        (fun cell _ x y hx hcell ↦ rLpfCell_conflictFree hx hcell) hcells hfree

end Orders

end ContikiMaster.Scheduler
