import ContikiMaster.Scheduler.ConflictFree
import ContikiMaster.Scheduler.SlotMatrix

/-!
# The slots of the neighbour data collection

Every node needs a timeslot to send its neighbour data in and one to receive in. The check
of the number of available timeslots counts timeslot 0, which is never handed out, and one
timeslot too few. The nodes get their slots exactly when there are two free ones for each
of them after timeslot 0.
-/

namespace ContikiMaster.Scheduler

open Lib Function List

section Rows

variable {length node : ℕ} {used : ℕ → Bool}

/-- The timeslots after the first that are not marked as used. -/
def freeFrom (length : ℕ) (used : ℕ → Bool) : List ℕ :=
  (range' 1 (length - 1)).filter fun slot ↦ !used slot

theorem nodup_freeFrom (length : ℕ) (used : ℕ → Bool) : (freeFrom length used).Nodup :=
  List.Nodup.filter _ (nodup_range' 1)

variable {slot : ℕ} {nodes : List ℕ}

theorem mem_freeFrom :
    slot ∈ freeFrom length used ↔ (1 ≤ slot ∧ slot < length) ∧ used slot = false := by
  unfold freeFrom
  rw [mem_filter, mem_range'_1, Bool.not_eq_true']
  have hbounds : (1 ≤ slot ∧ slot < 1 + (length - 1)) ↔ (1 ≤ slot ∧ slot < length) := by omega
  rw [hbounds]

theorem length_freeFrom_update (hmem : slot ∈ freeFrom length used) :
    (freeFrom length (update used slot true)).length = (freeFrom length used).length - 1 := by
  have herase : freeFrom length (update used slot true) =
      (freeFrom length used).erase slot := by
    rw [(nodup_freeFrom length used).erase_eq_filter]
    unfold freeFrom
    rw [filter_filter]
    apply filter_congr
    intro other _
    by_cases heq : other = slot
    · simp [heq]
    · simp [heq]
  rw [herase, length_erase_of_mem hmem]

theorem takeSlot_of_free {slots : List ℕ} (hslots : ∀ slot ∈ freeFrom length used, slot ∈ slots)
    (hrange : ∀ slot ∈ slots, 1 ≤ slot ∧ slot < length) (hfree : freeFrom length used ≠ [])
    (entries pre : List ℕ) : ∃ slot ∈ freeFrom length used, takeSlot slots (used, entries) pre =
      (update used slot true, entries ++ pre ++ [slot, 0]) := by
  unfold takeSlot
  cases hfind : slots.find? fun slot ↦ !used slot with
  | none =>
    obtain ⟨slot, hslot⟩ := exists_mem_of_ne_nil _ hfree
    have hused := find?_eq_none.mp hfind slot (hslots slot hslot)
    rw [(mem_freeFrom.mp hslot).2] at hused
    exact absurd rfl hused
  | some slot =>
    refine ⟨slot, ?_, rfl⟩
    rw [mem_freeFrom]
    exact ⟨hrange slot (mem_of_find?_eq_some hfind), by simpa using find?_some hfind⟩

theorem availableRow_of_free (node : ℕ) (hfree : 2 ≤ (freeFrom length used).length) :
    (availableRow length used node).2.length = 5 ∧
      (freeFrom length (availableRow length used node).1).length =
        (freeFrom length used).length - 2 := by
  have hrange : ∀ slot ∈ range' 1 (length - 1), 1 ≤ slot ∧ slot < length := by
    intro slot hslot
    rw [mem_range'_1] at hslot
    omega
  have hall : ∀ (used : ℕ → Bool), ∀ slot ∈ freeFrom length used,
      slot ∈ range' 1 (length - 1) := fun used slot hslot ↦ mem_of_mem_filter hslot
  obtain ⟨tx, htx, hsend⟩ := takeSlot_of_free (hall used) hrange
    (ne_nil_of_length_pos (by omega)) [] [node]
  have hleft := length_freeFrom_update htx
  obtain ⟨rx, hrx, hreceive⟩ := takeSlot_of_free
    (fun slot hslot ↦ mem_reverse.mpr (hall (update used tx true) slot hslot))
    (fun slot hslot ↦ hrange slot (mem_reverse.mp hslot))
    (ne_nil_of_length_pos (by omega)) ([] ++ [node] ++ [tx, 0]) []
  have hrow : availableRow length used node =
      (update (update used tx true) rx true, [] ++ [node] ++ [tx, 0] ++ [] ++ [rx, 0]) := by
    unfold availableRow
    dsimp only
    rw [hsend, hreceive]
  have hrest := length_freeFrom_update hrx
  rw [hrow]
  refine ⟨rfl, ?_⟩
  dsimp only
  omega

theorem rowsFrom_complete (hfree : 2 * nodes.length ≤ (freeFrom length used).length) :
    ∀ row ∈ rowsFrom length used nodes, row.length = 5 := by
  induction nodes generalizing used with
  | nil => exact fun row hrow ↦ nomatch hrow
  | cons node nodes ih =>
    rw [length_cons] at hfree
    have htwo : 2 ≤ (freeFrom length used).length := by omega
    obtain ⟨hfirst, hleft⟩ := availableRow_of_free node htwo
    intro row hrow
    rcases mem_cons.mp hrow with rfl | hrow
    · exact hfirst
    · exact ih (by omega) row hrow

theorem length_rowsFrom (nodes : List ℕ) : (rowsFrom length used nodes).length = nodes.length := by
  induction nodes generalizing used with
  | nil => rfl
  | cons node nodes ih => exact congrArg Nat.succ ih

/-- The slots of rows: of each the one to send in and the one to receive in. -/
def rowSlots (rows : List (List ℕ)) : List ℕ :=
  rows.flatMap fun row ↦ [row.getD 1 0, row.getD 3 0]

theorem rowsFrom_slots (hcomplete : ∀ row ∈ rowsFrom length used nodes, row.length = 5) :
    (rowSlots (rowsFrom length used nodes)).Nodup ∧
      ∀ slot ∈ rowSlots (rowsFrom length used nodes), slot ∈ freeFrom length used := by
  induction nodes generalizing used with
  | nil => exact ⟨nodup_nil, fun slot hslot ↦ nomatch hslot⟩
  | cons node nodes ih =>
    obtain ⟨tx, rx, hfirst, hused⟩ := availableRow_spec (hcomplete _ mem_cons_self)
    obtain ⟨hnodup, hfree⟩ := ih fun row hrow ↦ hcomplete row (mem_cons_of_mem _ hrow)
    have hslots : rowSlots (rowsFrom length used (node :: nodes)) =
        tx :: rx :: rowSlots (rowsFrom length (availableRow length used node).1 nodes) := by
      have hrows : rowsFrom length used (node :: nodes) = (availableRow length used node).2 ::
          rowsFrom length (availableRow length used node).1 nodes := rfl
      rw [hrows]
      unfold rowSlots
      rw [flatMap_cons, hfirst.row]
      rfl
    -- a slot of a later row is free after this one
    have hlater : ∀ slot ∈ rowSlots (rowsFrom length (availableRow length used node).1 nodes),
        slot ∈ freeFrom length used ∧ slot ≠ tx ∧ slot ≠ rx := by
      intro slot hslot
      obtain ⟨hbounds, hnone⟩ := mem_freeFrom.mp (hfree slot hslot)
      rw [hused] at hnone
      by_cases hrx : slot = rx
      · rw [hrx, update_self] at hnone
        cases hnone
      rw [update_of_ne hrx] at hnone
      by_cases htx : slot = tx
      · rw [htx, update_self] at hnone
        cases hnone
      rw [update_of_ne htx] at hnone
      exact ⟨mem_freeFrom.mpr ⟨hbounds, hnone⟩, htx, hrx⟩
    rw [hslots]
    constructor
    · rw [nodup_cons, nodup_cons, mem_cons, not_or]
      exact ⟨⟨hfirst.ne, fun hmem ↦ (hlater tx hmem).2.1 rfl⟩,
        fun hmem ↦ (hlater rx hmem).2.2 rfl, hnodup⟩
    · intro slot hslot
      rcases mem_cons.mp hslot with rfl | hslot
      · exact mem_freeFrom.mpr ⟨hfirst.txRange, hfirst.txFree⟩
      rcases mem_cons.mp hslot with rfl | hslot
      · exact mem_freeFrom.mpr ⟨hfirst.rxRange, hfirst.rxFree⟩
      · exact (hlater slot hslot).1

end Rows

/-- Every node from 1 on has a row, the slots of the rows differ, and no cell is in any of them. -/
structure CollectionSlots (numCoojaNodes : ℕ) (s : Schedule) : Prop where
  row : ∀ node, 1 ≤ node ∧ node ≤ numCoojaNodes →
    ∃ tx rx, s.availableSlotMatrix.getD node [] = [node, tx, 0, rx, 0]
  distinct : (rowSlots s.availableSlotMatrix.tail).Nodup
  range : ∀ slot ∈ rowSlots s.availableSlotMatrix.tail, 1 ≤ slot ∧ slot < s.length
  free : ∀ slot ∈ rowSlots s.availableSlotMatrix.tail, ∀ channel, s.schedule channel slot = none

/-- The check in `main` that a schedule leaves enough slots. -/
def EnoughSlots (numCoojaNodes : ℕ) (s : Schedule) : Prop :=
  (numCoojaNodes : ℤ) * 2 - 1 ≤ s.availableSlots

instance (numCoojaNodes : ℕ) (s : Schedule) : Decidable (EnoughSlots numCoojaNodes s) :=
  inferInstanceAs (Decidable (_ ≤ _))

/-- The timeslots after the first in which no channel holds a cell. -/
def freeTimeslots (s : Schedule) : List ℕ :=
  (range' 1 (s.length - 1)).filter fun slot ↦ !slotUsed s.numChannels s.schedule slot

section Check

variable {args : CreateArgs} {fuel : ℕ} {flows : List Flow} {s : Schedule}

section

variable (hcreate : create args fuel flows = .ok s)

include hcreate

theorem slotUsed_eq_isSome_zero (slot : ℕ) :
    slotUsed s.numChannels s.schedule slot = (s.schedule 0 slot).isSome ∧
      ((s.schedule 0 slot).isSome = false → ∀ channel, s.schedule channel slot = none) := by
  obtain ⟨m, hm, hfilled⟩ := (conflictFree_of_create hcreate).exists_isSome_iff slot
  obtain ⟨x, -, hfinal⟩ := placeCells_of_create hcreate
  obtain ⟨-, -, -, hchannels, -⟩ := finalise_spec hfinal
  have hnone : (s.schedule 0 slot).isSome = false → ∀ channel, s.schedule channel slot = none := by
    intro hzero channel
    by_contra hsome
    have hlt := (hfilled channel).mp (Option.isSome_iff_ne_none.mpr hsome)
    have hfirst := (hfilled 0).mpr (Nat.zero_lt_of_lt hlt)
    rw [hzero] at hfirst
    cases hfirst
  refine ⟨?_, hnone⟩
  unfold slotUsed
  rw [hchannels]
  cases hzero : (s.schedule 0 slot).isSome with
  | true =>
    have hpos : 0 < args.numChannels := ((hfilled 0).mp hzero).trans_le hm
    exact any_eq_true.mpr ⟨0, mem_range.mpr hpos, hzero⟩
  | false =>
    rw [any_eq_false]
    intro channel _
    rw [hnone hzero channel]
    exact Bool.false_ne_true

theorem freeTimeslots_eq :
    freeTimeslots s = freeFrom s.length fun slot ↦ (s.schedule 0 slot).isSome := by
  unfold freeTimeslots freeFrom
  apply filter_congr
  intro slot _
  rw [(slotUsed_eq_isSome_zero hcreate slot).1]

theorem availableSlotMatrix_tail : s.availableSlotMatrix = [0, 0, 0, 0, 0] :: rowsFrom s.length
      (fun slot ↦ (s.schedule 0 slot).isSome) (range' 1 args.numCoojaNodes) := by
  obtain ⟨x, -, hfinal⟩ := placeCells_of_create hcreate
  obtain ⟨-, -, -, -, -, -, -, hmatrix⟩ := finalise_spec hfinal
  rw [hmatrix, availableSlotMatrix_eq]

theorem rows_complete (hfree : 2 * args.numCoojaNodes ≤ (freeTimeslots s).length) :
    ∀ row ∈ s.availableSlotMatrix, row.length = 5 := by
  rw [availableSlotMatrix_tail hcreate]
  rw [freeTimeslots_eq hcreate] at hfree
  exact forall_mem_cons.mpr ⟨rfl, rowsFrom_complete (by rwa [length_range'])⟩

theorem collectionSlots_of_free (hfree : 2 * args.numCoojaNodes ≤ (freeTimeslots s).length) :
    CollectionSlots args.numCoojaNodes s := by
  have hall := rows_complete hcreate hfree
  have hrows := hall
  rw [availableSlotMatrix_tail hcreate] at hrows
  obtain ⟨hnodup, hslots⟩ := rowsFrom_slots (forall_mem_cons.mp hrows).2
  have hmatrix := availableSlotMatrix_tail hcreate
  have htail : s.availableSlotMatrix.tail = rowsFrom s.length
      (fun slot ↦ (s.schedule 0 slot).isSome) (range' 1 args.numCoojaNodes) := by
    rw [hmatrix]
    rfl
  rw [← htail] at hnodup hslots
  constructor
  · intro node hnode
    obtain ⟨x, -, hfinal⟩ := placeCells_of_create hcreate
    obtain ⟨-, -, -, -, -, -, -, hmade⟩ := finalise_spec hfinal
    rw [hmade] at hall ⊢
    obtain ⟨tx, rx, hrow, -⟩ := availableSlotMatrix_row hall hnode
    exact ⟨tx, rx, hrow⟩
  · exact hnodup
  · exact fun slot hslot ↦ (mem_freeFrom.mp (hslots slot hslot)).1
  · exact fun slot hslot ↦
      (slotUsed_eq_isSome_zero hcreate slot).2 (mem_freeFrom.mp (hslots slot hslot)).2

end

theorem length_rowSlots (rows : List (List ℕ)) : (rowSlots rows).length = 2 * rows.length := by
  induction rows with
  | nil => rfl
  | cons row rows ih =>
    have hcons : rowSlots (row :: rows) = row.getD 1 0 :: row.getD 3 0 :: rowSlots rows := rfl
    rw [hcons, length_cons, length_cons, length_cons, ih]
    ring

/-- A schedule gives every node its slots exactly when two timeslots after the first are free for
each of them. -/
theorem collectionSlots_iff (hcreate : create args fuel flows = .ok s) :
    CollectionSlots args.numCoojaNodes s ↔
      2 * args.numCoojaNodes ≤ (freeTimeslots s).length := by
  refine ⟨fun hslots ↦ ?_, collectionSlots_of_free hcreate⟩
  have hcount : (rowSlots s.availableSlotMatrix.tail).length = 2 * args.numCoojaNodes := by
    rw [length_rowSlots, availableSlotMatrix_tail hcreate, tail_cons, length_rowsFrom,
      length_range']
  have hsubset : ∀ slot ∈ rowSlots s.availableSlotMatrix.tail, slot ∈ freeTimeslots s := by
    intro slot hslot
    rw [freeTimeslots_eq hcreate, mem_freeFrom, hslots.free slot hslot 0]
    exact ⟨hslots.range slot hslot, rfl⟩
  rw [← hcount]
  exact (subperm_of_subset hslots.distinct hsubset).length_le

end Check

def twoNodeArgs (shortestRepeatingCycle : ℕ) : CreateArgs :=
  { plainArgs .edf with
    numChannels := 1
    shortestRepeatingCycle := shortestRepeatingCycle
    numCoojaNodes := 2 }

def twoNodeFlow (period : ℕ) : Flow := { pathFlow 1 1 2 [] with period := period }

theorem collectionSlots_of_five : ∃ s, create (twoNodeArgs 5) 0 [twoNodeFlow 5] = .ok s ∧
    (CollectionSlots 2 s ↔ 2 * 2 ≤ (freeTimeslots s).length) := by
  obtain ⟨s, hs⟩ := exists_eq_ok
    (show (create (twoNodeArgs 5) 0 [twoNodeFlow 5]).toOption.isSome = true by decide +kernel)
  exact ⟨s, hs, collectionSlots_iff hs⟩

/-- Of four timeslots one is used: the check passes, and the second node gets no slot to receive
in. -/
theorem not_collectionSlots_of_four : ∃ s, create (twoNodeArgs 4) 0 [twoNodeFlow 4] = .ok s ∧
    EnoughSlots 2 s ∧ s.availableSlotMatrix = [[0, 0, 0, 0, 0], [1, 1, 0, 3, 0], [2, 2, 0]] ∧
    ¬ CollectionSlots 2 s := by
  obtain ⟨s, hs, hmatrix⟩ : ∃ s, create (twoNodeArgs 4) 0 [twoNodeFlow 4] = .ok s ∧
      EnoughSlots 2 s ∧ s.availableSlotMatrix = [[0, 0, 0, 0, 0], [1, 1, 0, 3, 0], [2, 2, 0]] :=
    exists_ok (by decide +kernel)
  refine ⟨s, hs, hmatrix.1, hmatrix.2, fun hslots ↦ ?_⟩
  obtain ⟨tx, rx, hrow⟩ := hslots.row 2 ⟨by decide, le_rfl⟩
  rw [hmatrix.2] at hrow
  cases hrow

end ContikiMaster.Scheduler
