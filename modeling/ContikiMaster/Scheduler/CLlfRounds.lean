import ContikiMaster.Scheduler.CLlf

/-!
# Rounds of C-LLF

A round of C-LLF takes one flow and tries to place all of its cells. Cells that find no
slot, and in mode enabled those of a flow that misses its deadline, stay in the list that
the loop runs on. As long as no round meets either, the list gets shorter in every round
in which all flows are released.
-/

namespace ContikiMaster.Scheduler

open Lib List

def withLaxities (timeslotIdx : ℕ) (transmissions : List CellCLlf) : List CellCLlf :=
  let released := transmissions.filter fun z ↦ decide (z.flow.releaseTime ≤ timeslotIdx)
  transmissions.map fun z ↦ { z with laxity := computeLaxity z released timeslotIdx }

/-- The transmissions that a round chooses from. -/
def releasedAt (timeslotIdx : ℕ) (transmissions : List CellCLlf) : List CellCLlf :=
  (withLaxities timeslotIdx transmissions).filter fun z ↦
    decide (z.flow.releaseTime ≤ timeslotIdx)

/-- The body of the main loop. -/
def cLlfRound (args : CreateArgs) (length timeslotIdx : ℕ) (x : List CellCLlf × Placement) :
    Except SchedulerError (List CellCLlf × Placement) :=
  cLlfChannels args length args.numChannels (releasedAt timeslotIdx x.1)
    (withLaxities timeslotIdx x.1, x.2)

variable {x : List CellCLlf × Placement} {cell : Cell}

theorem cLlfLoop_succ (args : CreateArgs) (length fuel timeslotIdx : ℕ) (hleft : x.1 ≠ []) :
    cLlfLoop args length (fuel + 1) timeslotIdx x =
      cLlfRound args length timeslotIdx x >>= cLlfLoop args length fuel (timeslotIdx + 1) := by
  obtain ⟨_ | ⟨first, rest⟩, placement⟩ := x
  · exact absurd rfl hleft
  · rfl

theorem cLlfLoop_nil (args : CreateArgs) (length fuel timeslotIdx : ℕ) (x : Placement) :
    cLlfLoop args length fuel timeslotIdx ([], x) = .ok x := by
  cases fuel with
  | zero => rfl
  | succ fuel => rfl

theorem cLlfLoop_zero (args : CreateArgs) (length timeslotIdx : ℕ) (hleft : x.1 ≠ []) :
    cLlfLoop args length 0 timeslotIdx x = .error .outOfFuel := by
  obtain ⟨_ | ⟨first, rest⟩, placement⟩ := x
  · exact absurd rfl hleft
  · rfl

/-- A cell finds a slot, and in mode enabled its flow has not missed its deadline and does not miss
it there. -/
def cellClean (args : CreateArgs) (length : ℕ) (chosen : CellCLlf) (x : CLlfState) (cell : Cell) :
    Bool :=
  match findSchedulableSlot length args.numChannels x.placement.schedule cell x.releaseTime with
  | none => false
  | some place => args.ignoreNsf != .enabled ||
    !(x.placement.cnmid chosen.flow.id || missesDeadline args chosen.flow place.2)

def cellsClean (args : CreateArgs) (length : ℕ) (chosen : CellCLlf) : CLlfState → List Cell → Bool
  | _, [] => true
  | x, cell :: cells => cellClean args length chosen x cell &&
    match cLlfCell args length chosen x cell with
    | .error _ => true
    | .ok y => cellsClean args length chosen y cells

def roundClean (args : CreateArgs) (length timeslotIdx : ℕ) (x : List CellCLlf × Placement) :
    Bool :=
  match chooseTransmission (releasedAt timeslotIdx x.1) with
  | none => true
  | some chosen => cellsClean args length chosen
    ⟨chosen.flow.releaseTime, withLaxities timeslotIdx x.1, x.2⟩ chosen.flow.cells

/-- A number of rounds are clean, as far as the loop goes on. -/
def roundsClean (args : CreateArgs) (length : ℕ) : ℕ → ℕ → List CellCLlf × Placement → Bool
  | 0, _, _ => true
  | rounds + 1, timeslotIdx, x => x.1.isEmpty || (roundClean args length timeslotIdx x &&
    match cLlfRound args length timeslotIdx x with
    | .error _ => true
    | .ok y => roundsClean args length rounds (timeslotIdx + 1) y)

def CleanRun (args : CreateArgs) (length : ℕ) (flows : List Flow) : Prop :=
  ∀ rounds, roundsClean args length rounds 0 (allTransmissions flows, Placement.empty) = true

/-- The loop of C-LLF raises, or it ends with every cell scheduled or its flow noted as
infeasible. -/
def TerminatesCLlf (args : CreateArgs) (length : ℕ) (flows : List Flow) : Prop :=
  ∃ fuel, placeCLlf args length fuel flows ≠ .error .outOfFuel ∧
    ∀ x, placeCLlf args length fuel flows = .ok x → ∀ flow ∈ flows, ∀ cell ∈ flow.cells,
      (∃ channel slot, x.schedule channel slot = some cell) ∨
        ∃ entry ∈ x.infeasibleFlows, entry.1 = flow

/-! ## What a round does -/

theorem settleCell_refused {args : CreateArgs} {flow : Flow} {participants : List ℕ}
    {channel slot : ℕ} {x y : Placement}
    (hcall : settleCell args true flow participants cell channel slot x = .ok (false, y)) :
    args.ignoreNsf = .enabled ∧ (x.cnmid flow.id || missesDeadline args flow slot) = true ∧
      y.cnmid flow.id = true ∧ y.schedule = x.schedule := by
  unfold settleCell at hcall
  extract_lets missed cnmid at hcall
  split at hcall
  · cases hcall
  · split at hcall
    · rename_i hrefused
      cases hcall
      simp only [Bool.true_and, Bool.and_eq_true, beq_iff_eq] at hrefused
      refine ⟨hrefused.1, ?_, hrefused.2, rfl⟩
      by_cases hmissed : missesDeadline args flow slot = true
      · rw [hmissed, Bool.or_true]
      · have hkept : cnmid = x.cnmid := if_neg (by simpa [missed] using hmissed)
        rw [← hkept, hrefused.2, Bool.true_or]
    · cases hcall

section Round

variable {args : CreateArgs} {length timeslotIdx : ℕ} {chosen : CellCLlf}

/-- A transmission of a cell of the chosen flow, as the code finds it. -/
def isTransmissionOf (chosen : CellCLlf) (cell : Cell) (z : CellCLlf) : Bool :=
  z.cell == cell && chosen.flow.subFlowNumber == z.flow.subFlowNumber

theorem cLlfCell_of_clean {x y : CLlfState} (hclean : cellClean args length chosen x cell = true)
    (hcall : cLlfCell args length chosen x cell = .ok y) :
    ∃ channel slot cnmid, x.placement.schedule channel slot = none ∧
      y.placement = { x.placement with
        cnmid := cnmid, schedule := x.placement.schedule.write channel slot cell } ∧
      y.transmissionsFlows = x.transmissionsFlows.filter (fun z ↦ !isTransmissionOf chosen cell z) ∧
      y.releaseTime = slot + 1 ∧
      (args.ignoreNsf ≠ .disabled → missesDeadline args chosen.flow slot = false) := by
  unfold cellClean at hclean
  unfold cLlfCell at hcall
  cases hfind : findSchedulableSlot length args.numChannels x.placement.schedule cell
      x.releaseTime with
  | none =>
    rw [hfind] at hclean
    cases hclean
  | some place =>
    obtain ⟨channel, slot⟩ := place
    rw [hfind] at hclean hcall
    dsimp only at hclean hcall
    obtain ⟨⟨placed, z⟩, hsettle, hdone⟩ := bind_eq_ok hcall
    have hnone := (findSchedulableSlot_spec hfind).2.2.2.1
    cases settleCell_spec hsettle with
    | placed cnmid hmeets =>
      cases hdone
      exact ⟨channel, slot, cnmid, hnone, rfl, rfl, rfl, hmeets rfl⟩
    | refused cnmid entry =>
      obtain ⟨hmode, hmissed, -, -⟩ := settleCell_refused hsettle
      rw [hmode, hmissed] at hclean
      cases hclean

theorem cLlfCells_of_clean {cells : List Cell} {x y : CLlfState}
    (hclean : cellsClean args length chosen x cells = true)
    (hcall : cells.foldlM (cLlfCell args length chosen) x = .ok y) : y.transmissionsFlows =
        x.transmissionsFlows.filter (fun z ↦ !cells.any fun cell ↦ isTransmissionOf chosen cell z) ∧
      y.placement.infeasibleFlows = x.placement.infeasibleFlows := by
  induction cells generalizing x with
  | nil =>
    cases hcall
    simp
  | cons cell cells ih =>
    rw [foldlM_cons] at hcall
    obtain ⟨u, hfirst, hrest⟩ := bind_eq_ok hcall
    unfold cellsClean at hclean
    rw [Bool.and_eq_true, hfirst] at hclean
    obtain ⟨channel, slot, cnmid, -, hplacement, hfilter, -⟩ := cLlfCell_of_clean hclean.1 hfirst
    obtain ⟨hdone, hinfeasible⟩ := ih hclean.2 hrest
    rw [hplacement] at hinfeasible
    refine ⟨?_, hinfeasible⟩
    rw [hdone, hfilter, filter_filter]
    apply filter_congr
    intro z _
    rw [any_cons, Bool.not_or, Bool.and_comm]

/-- Every cell of a transmission belongs to the flow of the transmission. -/
def CellsOwn (transmissions : List CellCLlf) : Prop :=
  ∀ z ∈ transmissions, z.cell ∈ z.flow.cells

theorem CellsOwn.withLaxities {transmissions : List CellCLlf} (hown : CellsOwn transmissions)
    (timeslotIdx : ℕ) : CellsOwn (withLaxities timeslotIdx transmissions) := by
  intro z hz
  obtain ⟨w, hw, rfl⟩ := mem_map.mp hz
  exact hown w hw

theorem length_withLaxities (timeslotIdx : ℕ) (transmissions : List CellCLlf) :
    (withLaxities timeslotIdx transmissions).length = transmissions.length := length_map _

theorem cLlfRound_of_choose (hchannels : 0 < args.numChannels) {y : List CellCLlf × Placement}
    (hown : CellsOwn x.1) (hchoose : chooseTransmission (releasedAt timeslotIdx x.1) = some chosen)
    (hcall : cLlfRound args length timeslotIdx x = .ok y) :
    ∃ z, chosen.flow.cells.foldlM (cLlfCell args length chosen)
        ⟨chosen.flow.releaseTime, withLaxities timeslotIdx x.1, x.2⟩ = .ok z ∧
      y = (z.transmissionsFlows, z.placement) := by
  have hmem := (mem_filter.mp (chooseTransmission_mem hchoose)).1
  have hcell := hown.withLaxities timeslotIdx chosen hmem
  obtain ⟨n, hn⟩ := Nat.exists_eq_succ_of_ne_zero hchannels.ne'
  unfold cLlfRound at hcall
  rw [hn] at hcall
  unfold cLlfChannels at hcall
  rw [hchoose] at hcall
  obtain ⟨z, hcells, hrest⟩ := bind_eq_ok hcall
  have hempty : ((releasedAt timeslotIdx x.1).filter fun w ↦
      w.cell.participants.isEmpty && chosen.flow.cells.isEmpty) = [] := by
    rw [filter_eq_nil_iff]
    intro w _
    simp [ne_nil_of_mem hcell]
  rw [hempty, cLlfChannels_nil] at hrest
  exact ⟨z, hcells, (Except.ok.inj hrest).symm⟩

theorem cLlfRound_of_none (hchoose : chooseTransmission (releasedAt timeslotIdx x.1) = none) :
    cLlfRound args length timeslotIdx x = .ok (withLaxities timeslotIdx x.1, x.2) := by
  unfold cLlfRound
  cases args.numChannels with
  | zero => rfl
  | succ n =>
    unfold cLlfChannels
    rw [hchoose]

theorem chooseTransmission_eq_none {toRelease : List CellCLlf}
    (hchoose : chooseTransmission toRelease = none) : toRelease = [] := by
  unfold chooseTransmission at hchoose
  split at hchoose
  · rename_i hsorted
    have hlength := length_insertionSort (fun x y : CellCLlf ↦ x.laxity ≤ y.laxity) toRelease
    rw [hsorted] at hlength
    exact eq_nil_of_length_eq_zero hlength.symm
  · rename_i first rest hsorted
    rw [head?_eq_none_iff] at hchoose
    have hfirst : first ∈ ((first :: rest).filter fun x ↦ x.laxity == first.laxity).insertionSort
        fun x y ↦ x.flow.dueTime ≤ y.flow.dueTime := by
      rw [mem_insertionSort, mem_filter]
      exact ⟨mem_cons_self, beq_self_eq_true _⟩
    rw [hchoose] at hfirst
    cases hfirst

theorem cLlfRound_ne_error {fault : SchedulerError}
    (hfault : fault ≠ .infeasibleScheduler ∨ args.ignoreNsf ≠ .infeasible)
    (x : List CellCLlf × Placement) : cLlfRound args length timeslotIdx x ≠ .error fault := by
  have hcell : ∀ (chosen : CellCLlf) (cell : Cell) (s : CLlfState),
      cLlfCell args length chosen s cell ≠ .error fault := by
    intro chosen cell s
    unfold cLlfCell
    split
    · exact fun heq ↦ nomatch heq
    · apply bind_ne_error
      · intro hsettle
        obtain ⟨hraised, hmode⟩ := settleCell_error hsettle
        rcases hfault with hother | hother
        · exact hother hraised
        · exact hother hmode
      · exact fun _ _ heq ↦ nomatch heq
  have hchannels : ∀ (channels : ℕ) (toRelease : List CellCLlf) (x : List CellCLlf × Placement),
      cLlfChannels args length channels toRelease x ≠ .error fault := by
    intro channels
    induction channels with
    | zero => exact fun _ _ heq ↦ nomatch heq
    | succ channels ih =>
      intro toRelease x
      unfold cLlfChannels
      split
      · exact fun heq ↦ nomatch heq
      · apply bind_ne_error (foldlM_ne_error (fun cell _ s ↦ hcell _ cell s) _)
        exact fun y _ ↦ ih _ _
  exact hchannels _ _ _

/-- The transmissions of a loop whose flows are all released at some time. -/
structure Bounded (maxRelease : ℕ) (transmissions : List CellCLlf) : Prop where
  own : CellsOwn transmissions
  release : ∀ z ∈ transmissions, z.flow.releaseTime ≤ maxRelease

variable {maxRelease fuel : ℕ}

theorem cLlfRound_of_clean (hchannels : 0 < args.numChannels) {y : List CellCLlf × Placement}
    (hbounded : Bounded maxRelease x.1) (hleft : x.1 ≠ [])
    (hclean : roundClean args length timeslotIdx x = true)
    (hcall : cLlfRound args length timeslotIdx x = .ok y) : Bounded maxRelease y.1 ∧
      y.1.length + (maxRelease - (timeslotIdx + 1)) < x.1.length + (maxRelease - timeslotIdx) := by
  have hsame : Bounded maxRelease (withLaxities timeslotIdx x.1) := by
    refine ⟨hbounded.own.withLaxities timeslotIdx, fun z hz ↦ ?_⟩
    obtain ⟨w, hw, rfl⟩ := mem_map.mp hz
    exact hbounded.release w hw
  unfold roundClean at hclean
  cases hchoose : chooseTransmission (releasedAt timeslotIdx x.1) with
  | none =>
    -- a flow is not released yet
    rw [cLlfRound_of_none hchoose] at hcall
    cases hcall
    have hnone := chooseTransmission_eq_none hchoose
    obtain ⟨z, hz⟩ := exists_mem_of_ne_nil _ hleft
    have hlater : timeslotIdx < z.flow.releaseTime := by
      by_contra hearly
      have hmem : ∃ w ∈ withLaxities timeslotIdx x.1, w.flow = z.flow := ⟨_, mem_map_of_mem hz, rfl⟩
      obtain ⟨w, hw, hflow⟩ := hmem
      have hreleased : w ∈ releasedAt timeslotIdx x.1 := by
        refine mem_filter.mpr ⟨hw, decide_eq_true ?_⟩
        rw [hflow]
        exact not_lt.mp hearly
      rw [hnone] at hreleased
      cases hreleased
    have hrelease := hbounded.release z hz
    refine ⟨hsame, ?_⟩
    rw [length_withLaxities]
    omega
  | some chosen =>
    rw [hchoose] at hclean
    obtain ⟨z, hcells, rfl⟩ := cLlfRound_of_choose hchannels hbounded.own hchoose hcall
    obtain ⟨hfilter, -⟩ := cLlfCells_of_clean hclean hcells
    have hmem := (mem_filter.mp (chooseTransmission_mem hchoose)).1
    dsimp only at hfilter ⊢
    rw [hfilter]
    refine ⟨⟨fun w hw ↦ hsame.own w (mem_filter.mp hw).1,
      fun w hw ↦ hsame.release w (mem_filter.mp hw).1⟩, ?_⟩
    have hshorter : ((withLaxities timeslotIdx x.1).filter fun w ↦
        !chosen.flow.cells.any fun cell ↦ isTransmissionOf chosen cell w).length <
        (withLaxities timeslotIdx x.1).length := by
      rw [length_filter_lt_length_iff_exists]
      refine ⟨chosen, hmem, ?_⟩
      have hany : (chosen.flow.cells.any fun cell ↦ isTransmissionOf chosen cell chosen) = true :=
        any_eq_true.mpr ⟨chosen.cell, hsame.own chosen hmem, by simp [isTransmissionOf]⟩
      rw [hany]
      exact fun heq ↦ nomatch heq
    rw [length_withLaxities] at hshorter
    omega

theorem cLlfLoop_of_clean (hchannels : 0 < args.numChannels) (hbounded : Bounded maxRelease x.1)
    (hclean : ∀ rounds, roundsClean args length rounds timeslotIdx x = true)
    (hfuel : x.1.length + (maxRelease - timeslotIdx) ≤ fuel) :
    cLlfLoop args length fuel timeslotIdx x ≠ .error .outOfFuel := by
  induction fuel generalizing timeslotIdx x with
  | zero =>
    obtain ⟨_ | ⟨first, rest⟩, placement⟩ := x
    · exact fun heq ↦ nomatch heq
    · rw [length_cons] at hfuel
      omega
  | succ fuel ih =>
    by_cases hleft : x.1 = []
    · obtain ⟨transmissions, placement⟩ := x
      dsimp only at hleft
      rw [hleft, cLlfLoop_nil]
      exact fun heq ↦ nomatch heq
    · rw [cLlfLoop_succ args length fuel timeslotIdx hleft]
      have hother : SchedulerError.outOfFuel ≠ .infeasibleScheduler := fun heq ↦ nomatch heq
      apply bind_ne_error (cLlfRound_ne_error (.inl hother) x)
      intro y hy
      have hstep : ∀ rounds, roundClean args length timeslotIdx x = true ∧
          roundsClean args length rounds (timeslotIdx + 1) y = true := by
        intro rounds
        have hmore := hclean (rounds + 1)
        unfold roundsClean at hmore
        rw [Bool.or_eq_true, Bool.and_eq_true, hy] at hmore
        rcases hmore with hempty | hboth
        · exact absurd (isEmpty_iff.mp hempty) hleft
        · exact hboth
      obtain ⟨hbounded', hlower⟩ := cLlfRound_of_clean hchannels hbounded hleft (hstep 0).1 hy
      exact ih hbounded' (fun rounds ↦ (hstep rounds).2) (by omega)

/-- Every cell is still to be transmitted, or has a place. -/
def Accounted (flows : List Flow) (transmissions : List CellCLlf) (schedule : Grid Cell) : Prop :=
  ∀ flow ∈ flows, ∀ cell ∈ flow.cells,
    (∃ z ∈ transmissions, z.cell = cell) ∨ ∃ channel slot, schedule channel slot = some cell

variable {flows : List Flow}

theorem cLlfCell_accounted {x y : CLlfState} (hcall : cLlfCell args length chosen x cell = .ok y)
    (hx : Accounted flows x.transmissionsFlows x.placement.schedule) :
    Accounted flows y.transmissionsFlows y.placement.schedule := by
  unfold cLlfCell at hcall
  split at hcall
  · cases hcall
    exact hx
  · rename_i channel slot hfind
    obtain ⟨⟨placed, z⟩, hsettle, hdone⟩ := bind_eq_ok hcall
    have hnone := (findSchedulableSlot_spec hfind).2.2.2.1
    cases settleCell_spec hsettle with
    | refused cnmid entry =>
      cases hdone
      exact hx
    | placed cnmid =>
      cases hdone
      intro flow hflow other hother
      change (∃ z ∈ x.transmissionsFlows.filter _, z.cell = other) ∨
        ∃ c s, x.placement.schedule.write channel slot cell c s = some other
      by_cases heq : other = cell
      · refine .inr ⟨channel, slot, ?_⟩
        rw [Grid.write_apply, if_pos ⟨rfl, rfl⟩, heq]
      · rcases hx flow hflow other hother with ⟨w, hw, hcell⟩ | ⟨c, s, hplaced⟩
        · refine .inl ⟨w, mem_filter.mpr ⟨hw, ?_⟩, hcell⟩
          have hne : ¬ w.cell = cell := by
            rw [hcell]
            exact heq
          simp [hne]
        · refine .inr ⟨c, s, ?_⟩
          rw [Grid.write_apply, if_neg]
          · exact hplaced
          · rintro ⟨rfl, rfl⟩
            rw [hnone] at hplaced
            cases hplaced

theorem cLlfRound_accounted {y : List CellCLlf × Placement}
    (hcall : cLlfRound args length timeslotIdx x = .ok y) (hx : Accounted flows x.1 x.2.schedule) :
    Accounted flows y.1 y.2.schedule := by
  have hlaxities : Accounted flows (withLaxities timeslotIdx x.1) x.2.schedule := by
    intro flow hflow cell hcell
    rcases hx flow hflow cell hcell with ⟨z, hz, heq⟩ | hplaced
    · exact .inl ⟨_, mem_map_of_mem hz, heq⟩
    · exact .inr hplaced
  rcases cLlfChannels_cases hcall with rfl | ⟨chosen, -, z, hcells, rfl⟩
  · exact hlaxities
  · exact foldlM_invariant
      (P := fun s : CLlfState ↦ Accounted flows s.transmissionsFlows s.placement.schedule)
      (fun cell _ s t hs hstep ↦ cLlfCell_accounted hstep hs) hcells hlaxities

theorem cLlfLoop_accounted {y : Placement} (hcall : cLlfLoop args length fuel timeslotIdx x = .ok y)
    (hx : Accounted flows x.1 x.2.schedule) : Accounted flows [] y.schedule := by
  induction fuel generalizing timeslotIdx x with
  | zero =>
    by_cases hleft : x.1 = []
    · obtain ⟨transmissions, placement⟩ := x
      dsimp only at hleft
      rw [hleft, cLlfLoop_nil] at hcall
      cases hcall
      rwa [hleft] at hx
    · rw [cLlfLoop_zero args length timeslotIdx hleft] at hcall
      cases hcall
  | succ fuel ih =>
    by_cases hleft : x.1 = []
    · obtain ⟨transmissions, placement⟩ := x
      dsimp only at hleft
      rw [hleft, cLlfLoop_nil] at hcall
      cases hcall
      rwa [hleft] at hx
    · rw [cLlfLoop_succ args length fuel timeslotIdx hleft] at hcall
      obtain ⟨z, hround, hrest⟩ := bind_eq_ok hcall
      exact ih hrest (cLlfRound_accounted hround hx)

theorem accounted_allTransmissions :
    Accounted flows (allTransmissions flows) Placement.empty.schedule := by
  intro flow hflow cell hcell
  exact .inl ⟨⟨flow, cell, -1⟩, mem_allTransmissions.mpr ⟨hflow, hcell, rfl⟩, rfl⟩

theorem terminates_of_cleanRun (hchannels : 0 < args.numChannels)
    (hclean : CleanRun args length flows) : TerminatesCLlf args length flows := by
  have hbounded : Bounded ((flows.map Flow.releaseTime).foldl max 0) (allTransmissions flows) := by
    refine ⟨fun z hz ↦ (mem_allTransmissions.mp hz).2.1, fun z hz ↦ ?_⟩
    exact (max?_eq_some_iff.mp max?_cons').2 _
      (mem_cons_of_mem 0 (mem_map_of_mem (mem_allTransmissions.mp hz).1))
  refine ⟨_, cLlfLoop_of_clean hchannels hbounded hclean le_rfl, fun x hcall flow hflow cell hcell ↦ ?_⟩
  rcases cLlfLoop_accounted hcall accounted_allTransmissions flow hflow cell hcell with
    ⟨z, hz, -⟩ | hplaced
  · cases hz
  · exact .inl hplaced

end Round

end ContikiMaster.Scheduler
