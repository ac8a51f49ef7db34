import ContikiMaster.Scheduler.Finalisation
import ContikiMaster.Scheduler.WindowCells

/-!
# The cells of a created schedule

Whatever the algorithm, the grid of a schedule holds cells of its flows and nothing else, and
the place that a cell is told in the end is one of its places. Along a path that visits no node
twice, the participants of a cell are distinct.
-/

namespace ContikiMaster.Scheduler

open Lib Function List Option

section Participants

variable {subPath : List ℕ}

variable {etx : ℕ → ℕ → ℚ} {strategy : SchedulingStrategy}
  {windowSizeAlgorithm : WindowSizeAlgorithm} {fixedWindowSize : ℕ} {cells : List (List ℕ)}

end Participants

/-- Every entry of a grid is one of some cells. -/
def Within (P : Cell → Prop) (schedule : Grid Cell) : Prop :=
  ∀ channel slot cell, schedule channel slot = some cell → P cell

section Grid

variable {P : Cell → Prop} {args : CreateArgs} {length : ℕ} {cell : Cell} {x y : Placement}

theorem Within.settled {checked placed : Bool} {flow : Flow} {channel slot : ℕ}
    (hx : Within P x.schedule) (hcell : P cell)
    (hsettled : Settled args checked flow cell channel slot x placed y) : Within P y.schedule := by
  cases hsettled with
  | placed =>
    intro c t other hother
    change x.schedule.write channel slot cell c t = some other at hother
    rw [Grid.write_apply] at hother
    split at hother
    · rw [← some.inj hother]
      exact hcell
    · exact hx c t other hother
  | refused => exact hx

theorem cLlfCell_within {chosen : CellCLlf} {x y : CLlfState} (hcell : P cell)
    (hx : Within P x.placement.schedule ∧ ∀ z ∈ x.transmissionsFlows, ∀ c ∈ z.flow.cells, P c)
    (hcall : cLlfCell args length chosen x cell = .ok y) :
    Within P y.placement.schedule ∧ ∀ z ∈ y.transmissionsFlows, ∀ c ∈ z.flow.cells, P c := by
  unfold cLlfCell at hcall
  split at hcall
  · cases hcall
    exact hx
  · obtain ⟨⟨placed, z⟩, hsettle, hdone⟩ := bind_eq_ok hcall
    have hz := hx.1.settled hcell (settleCell_spec hsettle)
    cases placed with
    | false =>
      cases hdone
      exact ⟨hz, hx.2⟩
    | true =>
      cases hdone
      exact ⟨hz, fun z hz ↦ hx.2 z (mem_filter.mp hz).1⟩

theorem cLlfChannels_within {channels : ℕ} {toRelease : List CellCLlf}
    {x y : List CellCLlf × Placement} (hrelease : ∀ z ∈ toRelease, ∀ cell ∈ z.flow.cells, P cell)
    (hx : Within P x.2.schedule ∧ ∀ z ∈ x.1, ∀ cell ∈ z.flow.cells, P cell)
    (hcall : cLlfChannels args length channels toRelease x = .ok y) :
    Within P y.2.schedule ∧ ∀ z ∈ y.1, ∀ cell ∈ z.flow.cells, P cell := by
  induction channels generalizing toRelease x with
  | zero =>
    cases hcall
    exact hx
  | succ channels ih =>
    unfold cLlfChannels at hcall
    split at hcall
    · cases hcall
      exact hx
    · rename_i chosen hchosen
      obtain ⟨z, hcells, hrest⟩ := bind_eq_ok hcall
      refine ih (fun w hw ↦ hrelease w (mem_filter.mp hw).1) ?_ hrest
      refine foldlM_invariant (P := fun s : CLlfState ↦ Within P s.placement.schedule ∧
        ∀ z ∈ s.transmissionsFlows, ∀ cell ∈ z.flow.cells, P cell)
        (fun cell hcell s t hs hstep ↦ cLlfCell_within ?_ hs hstep) hcells hx
      exact hrelease chosen (chooseTransmission_mem hchosen) cell hcell

theorem cLlfLoop_within {fuel timeslotIdx : ℕ} {x : List CellCLlf × Placement}
    (hx : Within P x.2.schedule ∧ ∀ z ∈ x.1, ∀ cell ∈ z.flow.cells, P cell)
    (hcall : cLlfLoop args length fuel timeslotIdx x = .ok y) : Within P y.schedule := by
  induction fuel generalizing timeslotIdx x with
  | zero =>
    obtain ⟨_ | ⟨first, rest⟩, placement⟩ := x
    · cases hcall
      exact hx.1
    · cases hcall
  | succ fuel ih =>
    obtain ⟨_ | ⟨first, rest⟩, placement⟩ := x
    · cases hcall
      exact hx.1
    · obtain ⟨z, hchannels, hrest⟩ := bind_eq_ok hcall
      have hall : ∀ w ∈ (first :: rest).map fun w ↦ { w with
          laxity := computeLaxity w ((first :: rest).filter fun z ↦
            decide (z.flow.releaseTime ≤ timeslotIdx)) timeslotIdx },
          ∀ cell ∈ w.flow.cells, P cell := by
        intro w hw
        obtain ⟨v, hv, rfl⟩ := mem_map.mp hw
        exact hx.2 v hv
      refine ih (cLlfChannels_within ?_ ?_ hchannels) hrest
      · exact fun w hw ↦ hall w (mem_filter.mp hw).1
      · exact ⟨hx.1, hall⟩

end Grid

section Created

variable {args : CreateArgs} {fuel channel slot : ℕ} {flows : List Flow} {s : Schedule} {cell : Cell}

theorem placement_within {x : Placed} (hplaced : placeCells args fuel flows = .ok x) :
    Within (IsCellOf x.flows) x.placement.schedule := by
  by_cases halgorithm : args.algorithm = .cLlf
  · refine cLlfLoop_within ?_ (placeCLlf_of_placeCells halgorithm hplaced)
    refine ⟨fun c t cell (hnone : none = some cell) ↦ (nomatch hnone), fun z hz cell hcell ↦ ?_⟩
    exact ⟨z.flow, (mem_allTransmissions.mp hz).1, hcell⟩
  · obtain ⟨checked, -, hx⟩ := placeCells_placedExactly halgorithm hplaced
    exact hx.within

section

variable (hcreate : create args fuel flows = .ok s)

include hcreate

section

variable (hcell : s.schedule channel slot = some cell)

include hcell

theorem entry_of_create : channel < s.numChannels ∧ slot < s.length ∧ IsCellOf s.flows cell := by
  obtain ⟨T, hT⟩ := conflictFree_of_create hcreate
  obtain ⟨x, hplaced, hfinal⟩ := placeCells_of_create hcreate
  obtain ⟨-, -, hflows, hchannels, hlength, hschedule, -⟩ := finalise_spec hfinal
  have hused : s.schedule channel slot ≠ none := by
    rw [hcell]
    exact some_ne_none cell
  refine ⟨hchannels ▸ hT.row_lt hused, ?_, ?_⟩
  · by_contra hlate
    apply hused
    rw [hschedule]
    exact cutSchedule_of_lt args _ (by omega) channel
  · have hslot : slot ≤ keptLastTimeslot args x.placement := by
      by_contra hlate
      apply hused
      rw [hschedule]
      exact cutSchedule_of_lt args _ (not_le.mp hlate) channel
    rw [hschedule, cutSchedule_apply args _ hslot] at hcell
    rw [hflows]
    exact placement_within hplaced channel _ cell hcell

theorem initialised_of_create :
    ∃ given ∈ flows, ∃ id, ∃ flow ∈ s.flows, Initialised args given id flow ∧ cell ∈ flow.cells := by
  obtain ⟨x, hplaced, hfinal⟩ := placeCells_of_create hcreate
  obtain ⟨-, -, hflows, -⟩ := finalise_spec hfinal
  obtain ⟨ready, hready, hordered, -⟩ := placeCells_spec hplaced
  obtain ⟨-, -, flow, hflow, hmem⟩ := entry_of_create hcreate hcell
  have hflow' := hflow
  rw [hflows, hordered, (orderFlows_perm _ _).mem_iff] at hflow'
  obtain ⟨given, hgiven, id, hinit⟩ := exists_initialised_of_mem hready hflow'
  exact ⟨given, hgiven, id, flow, hflow, hinit, hmem⟩

end

theorem flowNumber_of_create (hcell : s.schedule channel slot = some cell) :
    ∃ flow ∈ s.flows, flow.flowNumber = cell.flowNumber := by
  obtain ⟨given, -, id, flow, hflow, hinit, hmem⟩ := initialised_of_create hcreate hcell
  obtain ⟨participants, -, heq⟩ := hinit.cells
  rw [heq] at hmem
  obtain ⟨entry, -, rfl⟩ := mem_map.mp hmem
  exact ⟨flow, hflow, hinit.flowNumber⟩

end

/-- What is noted for a cell is a place of the cell, and something is. -/
structure Noted (schedule : Grid Cell) (cell : Cell) (seen : Prop) (noted : Option (ℕ × ℕ)) : Prop where
  place : ∀ place, noted = some place → schedule place.2 place.1 = some cell
  some : seen → noted ≠ none

variable {schedule : Grid Cell}

theorem noted_of_mono {seen seen' : Prop} {noted : Option (ℕ × ℕ)}
    (hnoted : Noted schedule cell seen noted) (himp : seen' → seen) :
    Noted schedule cell seen' noted :=
  ⟨hnoted.place, fun hseen ↦ hnoted.some (himp hseen)⟩

theorem noteCell_noted {seen : Prop}
    {attributes : Cell → Option (ℕ × ℕ)} (hnoted : Noted schedule cell seen (attributes cell)) :
    Noted schedule cell (seen ∨ schedule channel slot = some cell)
      (noteCell schedule channel attributes slot cell) := by
  unfold noteCell
  cases hentry : schedule channel slot with
  | none => exact noted_of_mono hnoted fun hseen ↦ hseen.resolve_right nofun
  | some other =>
    by_cases hsame : cell = other
    · subst hsame
      dsimp only
      rw [update_self]
      refine ⟨fun place hplace ↦ ?_, fun _ ↦ some_ne_none _⟩
      rw [← some.inj hplace]
      exact hentry
    · dsimp only
      rw [update_of_ne hsame]
      refine noted_of_mono hnoted fun hseen ↦ hseen.resolve_right fun heq ↦ ?_
      exact hsame (some.inj heq).symm

theorem foldl_noted {β : Type} (schedule : Grid Cell) (cell : Cell) {P : β → Prop}
    {p : (Cell → Option (ℕ × ℕ)) → β → Cell → Option (ℕ × ℕ)}
    (hstep : ∀ attributes x seen, Noted schedule cell seen (attributes cell) →
      Noted schedule cell (seen ∨ P x) (p attributes x cell)) (items : List β) :
    ∀ (attributes : Cell → Option (ℕ × ℕ)) (seen : Prop),
      Noted schedule cell seen (attributes cell) →
        Noted schedule cell (seen ∨ ∃ x ∈ items, P x) (items.foldl p attributes cell) := by
  induction items with
  | nil =>
    intro attributes seen hnoted
    exact noted_of_mono hnoted fun hseen ↦ hseen.resolve_right (by simp)
  | cons x items ih =>
    intro attributes seen hnoted
    refine noted_of_mono (ih _ _ (hstep attributes x seen hnoted)) ?_
    rintro (hseen | ⟨y, hy, hPy⟩)
    · exact .inl (.inl hseen)
    · rcases mem_cons.mp hy with rfl | hy
      · exact .inl (.inr hPy)
      · exact .inr ⟨y, hy, hPy⟩

theorem attributes_of_create (hcreate : create args fuel flows = .ok s)
    (hcell : s.schedule channel slot = some cell) :
    ∃ timeslot row, s.attributes cell = some (timeslot, row) ∧
      s.schedule row timeslot = some cell := by
  obtain ⟨hchannel, hslot, -⟩ := entry_of_create hcreate hcell
  obtain ⟨x, hplaced, hfinal⟩ := placeCells_of_create hcreate
  obtain ⟨-, -, -, hchannels, -, -, hattributes, -⟩ := finalise_spec hfinal
  have hnoted := foldl_noted s.schedule cell
    (P := fun row ↦ ∃ t ∈ range s.length, s.schedule row t = some cell)
    (fun attributes row seen hseen ↦ foldl_noted s.schedule cell
      (fun attributes t seen hseen ↦ noteCell_noted hseen) (range s.length) attributes seen hseen)
    (range args.numChannels) (fun _ ↦ none) False ⟨nofun, False.elim⟩
  rw [← setScheduleAttributes_eq_foldl, ← hattributes] at hnoted
  have hsome := hnoted.some (.inr ⟨channel, mem_range.mpr (hchannels ▸ hchannel), slot,
    mem_range.mpr hslot, hcell⟩)
  obtain ⟨⟨timeslot, row⟩, hplace⟩ := ne_none_iff_exists'.mp hsome
  exact ⟨timeslot, row, hplace, hnoted.place _ hplace⟩

end Created

end ContikiMaster.Scheduler
