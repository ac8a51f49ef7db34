import ContikiMaster.Scheduler.Cells

/-!
# Every cell is placed once

While no flow has been found infeasible, each algorithm puts each cell of the flows
it has dealt with at one place of the grid. R-LPF, EDF and RMS keep track of the
last slot in use; where the bound is checked, no slot after the hyper-period is.
-/

namespace ContikiMaster.Scheduler

open Lib List

/-- What happens to one cell: it goes to a free place, or its flow is noted as infeasible. -/
inductive CellStep (args : CreateArgs) (checked : Bool) (cell : Cell) (x : Placement) :
    Placement → Prop
  | placed {y : Placement} (channel slot : ℕ) (hfree : x.schedule channel slot = none)
      (hschedule : y.schedule = x.schedule.write channel slot cell)
      (hfeasible : y.infeasibleFlows = x.infeasibleFlows)
      (hlast : args.algorithm ≠ .cLlf → y.lastTimeslot = max x.lastTimeslot slot)
      (hbound : checked = true → args.ignoreNsf ≠ .disabled → args.shortestRepeatingCycle ≠ 1 →
        slot < args.shortestRepeatingCycle) :
      CellStep args checked cell x y
  | refused {y : Placement} (hschedule : y.schedule = x.schedule)
      (hlast : y.lastTimeslot = x.lastTimeslot) (hinfeasible : y.infeasibleFlows ≠ []) :
      CellStep args checked cell x y

/-- The cells dealt with have one place each and no others have any, as long as no flow is
infeasible; the slots in use respect the bounds. -/
structure PlacedExactly (args : CreateArgs) (checked : Bool) (done : Cell → Prop) (x : Placement) :
    Prop where
  within : ∀ c t cell, x.schedule c t = some cell → done cell
  once : x.infeasibleFlows = [] → ∀ cell, done cell →
    ∃ channel slot, ∀ c t, x.schedule c t = some cell ↔ c = channel ∧ t = slot
  last : args.algorithm ≠ .cLlf → ∀ c t, x.schedule c t ≠ none → t ≤ x.lastTimeslot
  lastUsed : args.algorithm ≠ .cLlf →
    x.lastTimeslot = 0 ∨ ∃ c, x.schedule c x.lastTimeslot ≠ none
  bound : checked = true → args.ignoreNsf ≠ .disabled → args.shortestRepeatingCycle ≠ 1 →
    ∀ c t, x.schedule c t ≠ none → t < args.shortestRepeatingCycle

section Steps

variable {args : CreateArgs} {checked : Bool} {done done' : Cell → Prop} {cell : Cell}
  {x y : Placement}

theorem placedExactly_empty : PlacedExactly args checked (fun _ ↦ False) Placement.empty := by
  refine ⟨fun c t cell hcell ↦ ?_, fun _ cell hdone ↦ hdone.elim, fun _ c t hused ↦ ?_,
    fun _ ↦ .inl rfl, fun _ _ _ c t hused ↦ ?_⟩
  · cases hcell
  · exact absurd rfl hused
  · exact absurd rfl hused

theorem PlacedExactly.congr (hx : PlacedExactly args checked done x)
    (hiff : ∀ cell, done cell ↔ done' cell) : PlacedExactly args checked done' x :=
  ⟨fun c t cell hcell ↦ (hiff cell).mp (hx.within c t cell hcell),
    fun hfeasible cell hcell ↦ hx.once hfeasible cell ((hiff cell).mpr hcell), hx.last, hx.lastUsed,
    hx.bound⟩

theorem PlacedExactly.step (hx : PlacedExactly args checked done x) (hnew : ¬ done cell)
    (hstep : CellStep args checked cell x y) :
    PlacedExactly args checked (fun c ↦ done c ∨ c = cell) y := by
  cases hstep with
  | refused hschedule hlast hinfeasible =>
    refine ⟨fun c t other hother ↦ ?_, fun hfeasible ↦ absurd hfeasible hinfeasible, ?_, ?_, ?_⟩
    · rw [hschedule] at hother
      exact .inl (hx.within c t other hother)
    · rw [hschedule, hlast]
      exact hx.last
    · rw [hschedule, hlast]
      exact hx.lastUsed
    · rw [hschedule]
      exact hx.bound
  | placed channel slot hfree hschedule hfeasible hlast hbound =>
    have hentry : ∀ c t, y.schedule c t =
        if c = channel ∧ t = slot then some cell else x.schedule c t := by
      intro c t
      rw [hschedule, Grid.write_apply]
    refine ⟨fun c t other hother ↦ ?_, fun hnone other hdone ↦ ?_, fun halgorithm c t hused ↦ ?_,
      fun halgorithm ↦ ?_, fun hchecked hmode hcycle c t hused ↦ ?_⟩
    · rw [hentry] at hother
      split at hother
      · exact .inr (Option.some.inj hother).symm
      · exact .inl (hx.within c t other hother)
    · rw [hfeasible] at hnone
      rcases hdone with hold | rfl
      · -- an older cell stays where it is
        have hne : cell ≠ other := fun heq ↦ hnew (heq ▸ hold)
        obtain ⟨channel', slot', honce⟩ := hx.once hnone other hold
        refine ⟨channel', slot', fun c t ↦ ?_⟩
        rw [hentry, ← honce c t]
        split
        · rename_i hhere
          rw [hhere.1, hhere.2, hfree]
          exact iff_of_false (fun heq ↦ hne (Option.some.inj heq)) fun heq ↦ by cases heq
        · exact Iff.rfl
      · refine ⟨channel, slot, fun c t ↦ ?_⟩
        rw [hentry]
        split
        · rename_i hhere
          exact iff_of_true rfl hhere
        · rename_i hhere
          exact iff_of_false (fun heq ↦ hnew (hx.within c t _ heq)) hhere
    · rw [hentry] at hused
      rw [hlast halgorithm]
      split at hused
      · rename_i hhere
        rw [hhere.2]
        exact le_max_right _ _
      · exact (hx.last halgorithm c t hused).trans (le_max_left _ _)
    · rw [hlast halgorithm]
      rcases le_total x.lastTimeslot slot with hle | hle
      · rw [max_eq_right hle]
        refine .inr ⟨channel, ?_⟩
        rw [hentry, if_pos ⟨rfl, rfl⟩]
        exact Option.some_ne_none cell
      · rw [max_eq_left hle]
        rcases hx.lastUsed halgorithm with hzero | ⟨c, hused⟩
        · exact .inl hzero
        · refine .inr ⟨c, ?_⟩
          rw [hentry]
          split
          · exact Option.some_ne_none cell
          · exact hused
    · rw [hentry] at hused
      split at hused
      · rename_i hhere
        rw [hhere.2]
        exact hbound hchecked hmode hcycle
      · exact hx.bound hchecked hmode hcycle c t hused

theorem lt_cycle_of_meets {flow : Flow} {slot : ℕ}
    (hmeets : missesDeadline args flow slot = false) (hcycle : args.shortestRepeatingCycle ≠ 1) :
    slot < args.shortestRepeatingCycle := by
  unfold missesDeadline at hmeets
  rw [Bool.or_eq_false_iff] at hmeets
  have hlt : slot + 1 ≤ args.shortestRepeatingCycle := by simpa [hcycle] using hmeets.2
  exact Nat.lt_of_succ_le hlt

theorem PlacedExactly.loop {σ : Type} {p : σ → Placement}
    {body : σ → Cell → Except SchedulerError σ} {cells : List Cell} {s t : σ}
    (hbody : ∀ s cell t, body s cell = .ok t → CellStep args checked cell (p s) (p t))
    (hnodup : cells.Nodup) (hnew : ∀ cell ∈ cells, ¬ done cell)
    (hloop : cells.foldlM body s = .ok t) (hs : PlacedExactly args checked done (p s)) :
    PlacedExactly args checked (fun c ↦ done c ∨ c ∈ cells) (p t) := by
  refine foldlM_invariant_done
    (P := fun prior s ↦ PlacedExactly args checked (fun c ↦ done c ∨ c ∈ prior) (p s))
    (fun prior cell todo hcells s t hs hcall ↦ ?_) hloop ?_
  · have hmem : cell ∈ cells := by
      rw [hcells]
      exact mem_append_right _ mem_cons_self
    have hfresh : cell ∉ prior := by
      rw [hcells] at hnodup
      intro hprior
      exact disjoint_of_nodup_append hnodup hprior mem_cons_self
    have hstep := hs.step (fun hdone ↦ hdone.elim (hnew cell hmem) hfresh) (hbody s cell t hcall)
    refine hstep.congr fun c ↦ ?_
    rw [mem_append, mem_singleton, or_assoc]
  · exact hs.congr fun c ↦ by simp

end Steps

section Loops

variable {args : CreateArgs} {checked : Bool} {length : ℕ} {flow : Flow} {flows : List Flow}
  {x : Placement} {cell : Cell}

def IsCellOf (flows : List Flow) (cell : Cell) : Prop := ∃ flow ∈ flows, cell ∈ flow.cells

theorem isCellOf_append_singleton :
    IsCellOf (flows ++ [flow]) cell ↔ IsCellOf flows cell ∨ cell ∈ flow.cells := by
  unfold IsCellOf
  simp only [mem_append, mem_singleton, or_and_right, exists_or, exists_eq_left]

theorem Settled.cellStep {placed : Bool} {channel slot : ℕ}
    {y z : Placement} (hsettled : Settled args checked flow cell channel slot x placed y)
    (hfree : x.schedule channel slot = none) (hschedule : z.schedule = y.schedule)
    (hfeasible : z.infeasibleFlows = y.infeasibleFlows)
    (hlast : z.lastTimeslot = if placed ∧ args.algorithm ≠ .cLlf then max y.lastTimeslot slot
      else y.lastTimeslot) : CellStep args checked cell x z := by
  cases hsettled with
  | placed cnmid hmeets =>
    refine .placed channel slot hfree hschedule hfeasible (fun halgorithm ↦ ?_)
      fun hchecked hmode hcycle ↦ lt_cycle_of_meets (hmeets hchecked hmode) hcycle
    rw [hlast, if_pos ⟨rfl, halgorithm⟩]
  | refused cnmid entry =>
    refine .refused hschedule ?_ ?_
    · rw [hlast, if_neg fun hboth ↦ by cases hboth.1]
    · rw [hfeasible]
      exact append_ne_nil_of_right_ne_nil _ (cons_ne_nil _ _)

theorem inOrderCell_cellStep {a b : ℕ × Placement}
    (halgorithm : args.algorithm ≠ .cLlf) (hcall : inOrderCell args length flow a cell = .ok b) :
    CellStep args true cell a.2 b.2 := by
  unfold inOrderCell at hcall
  split at hcall
  · cases hcall
  · rename_i channel slot hfind
    obtain ⟨⟨placed, z⟩, hsettle, hdone⟩ := bind_eq_ok hcall
    obtain ⟨-, -, -, hfree, -⟩ := findSchedulableSlot_spec hfind
    have hsettled := settleCell_spec hsettle
    cases placed with
    | false =>
      cases hdone
      exact hsettled.cellStep hfree rfl rfl (if_neg fun hboth ↦ by cases hboth.1).symm
    | true =>
      cases hdone
      exact hsettled.cellStep hfree rfl rfl (if_pos ⟨rfl, halgorithm⟩).symm

theorem rLpfCell_cellStep {currentIdx : ℕ} {a b : ℕ × Placement}
    (halgorithm : args.algorithm ≠ .cLlf)
    (hcall : rLpfCell args length checked currentIdx flow a cell = .ok b) :
    CellStep args checked cell a.2 b.2 := by
  unfold rLpfCell at hcall
  split at hcall
  · cases hcall
  · rename_i slot hnext
    obtain ⟨⟨placed, z⟩, hsettle, hdone⟩ := bind_eq_ok hcall
    have hfound := find?_some hnext
    simp only [Bool.and_eq_true] at hfound
    have hroom := (Bool.and_eq_true_iff.mp hfound.1.2).1
    obtain ⟨-, hfree, -⟩ := availableChannelInSlot_spec hroom
    have hsettled := settleCell_spec hsettle
    cases placed with
    | false =>
      cases hdone
      exact hsettled.cellStep hfree rfl rfl (if_neg fun hboth ↦ by cases hboth.1).symm
    | true =>
      cases hdone
      exact hsettled.cellStep hfree rfl rfl (if_pos ⟨rfl, halgorithm⟩).symm

theorem PlacedExactly.placeFlow {done todo : List Flow}
    (hown : OwnCells (done ++ flow :: todo)) {σ : Type} {p : σ → Placement}
    {body : σ → Cell → Except SchedulerError σ} {cells : List Cell} {s t : σ}
    (hbody : ∀ s cell t, body s cell = .ok t → CellStep args checked cell (p s) (p t))
    (hperm : cells.Perm flow.cells) (hloop : cells.foldlM body s = .ok t)
    (hs : PlacedExactly args checked (IsCellOf done) (p s)) :
    PlacedExactly args checked (IsCellOf (done ++ [flow])) (p t) := by
  have hmem : flow ∈ done ++ flow :: todo := mem_append_right _ mem_cons_self
  refine (PlacedExactly.loop hbody (hperm.nodup_iff.mpr (hown.nodup flow hmem))
    (fun cell hcell hdone ↦ ?_) hloop hs).congr fun c ↦ ?_
  · obtain ⟨f, hf, hcellF⟩ := hdone
    exact hown.notMem_cells_of_append hf (hperm.mem_iff.mp hcell) hcellF
  · rw [isCellOf_append_singleton, hperm.mem_iff]

theorem placeInOrder_placedExactly (halgorithm : args.algorithm ≠ .cLlf) (hown : OwnCells flows)
    (hcall : placeInOrder args length flows = .ok x) :
    PlacedExactly args true (IsCellOf flows) x := by
  refine foldlM_invariant_done (P := fun done x ↦ PlacedExactly args true (IsCellOf done) x)
    (fun done flow todo hflows x y hx hflow ↦ ?_) hcall ?_
  · obtain ⟨⟨r, z⟩, hcells, hdone⟩ := bind_eq_ok hflow
    cases hdone
    rw [hflows] at hown
    exact PlacedExactly.placeFlow (p := Prod.snd) hown
      (fun _ _ _ hcell ↦ inOrderCell_cellStep halgorithm hcell) (.refl _) hcells hx
  · exact placedExactly_empty.congr fun cell ↦ by simp [IsCellOf]

theorem placeRLpf_placedExactly (halgorithm : args.algorithm ≠ .cLlf) (hown : OwnCells flows)
    (hcall : placeRLpf args length flows = .ok x) :
    PlacedExactly args (allDeadlines flows) (IsCellOf flows) x := by
  obtain ⟨y, hloop, hdone⟩ := bind_eq_ok hcall
  cases hdone
  refine foldlM_invariant_done
    (P := fun done x ↦ PlacedExactly args (allDeadlines flows) (IsCellOf done) x.placement)
    (fun done flow todo hflows x y hx hflow ↦ ?_) hloop ?_
  · obtain ⟨⟨r, z⟩, hcells, hdone⟩ := bind_eq_ok hflow
    cases hdone
    have hown' : OwnCells (done ++ flow :: todo) := hflows ▸ hown
    exact PlacedExactly.placeFlow (p := Prod.snd) hown'
      (fun _ _ _ hcell ↦ rLpfCell_cellStep halgorithm hcell) (reverse_perm _) hcells hx
  · exact placedExactly_empty.congr fun cell ↦ by simp [IsCellOf]

end Loops

end ContikiMaster.Scheduler
