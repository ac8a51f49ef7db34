import ContikiMaster.Scheduler.Create

/-!
# The matrix of available slots

`Schedule.create` hands every node one timeslot to send in and one to receive in.
No timeslot is handed out twice. A row that is complete has five entries; the
generator of the schedule file raises on any other.
-/

namespace ContikiMaster.Scheduler

open Function List

def slotEntry (matrix : List (List ℕ)) (row col : ℕ) : ℕ := (matrix.getD row []).getD col 0

/-- The rows of the nodes, one after the other. -/
def rowsFrom (length : ℕ) : (ℕ → Bool) → List ℕ → List (List ℕ)
  | _, [] => []
  | used, node :: nodes =>
    (availableRow length used node).2 :: rowsFrom length (availableRow length used node).1 nodes

theorem availableSlotMatrix_eq (numCoojaNodes length : ℕ) (schedule : Lib.Grid Cell) :
    availableSlotMatrix numCoojaNodes length schedule =
      [0, 0, 0, 0, 0] :: rowsFrom length (fun slot ↦ (schedule 0 slot).isSome)
        (range' 1 numCoojaNodes) := by
  have hloop : ∀ (nodes : List ℕ) (used : ℕ → Bool) (rows : List (List ℕ)),
      (nodes.foldl (fun x node ↦
        let row := availableRow length x.1 node
        (row.1, x.2 ++ [row.2])) (used, rows)).2 = rows ++ rowsFrom length used nodes := by
    intro nodes
    induction nodes with
    | nil => exact fun used rows ↦ (append_nil rows).symm
    | cons node nodes ih =>
      intro used rows
      rw [foldl_cons]
      exact (ih _ _).trans (append_assoc rows _ _)
  exact hloop _ _ _

/-- A complete row has a slot to send in and another one to receive in, both free before. -/
structure CompleteRow (length : ℕ) (used : ℕ → Bool) (node : ℕ) (row : List ℕ) (tx rx : ℕ) :
    Prop where
  row : row = [node, tx, 0, rx, 0]
  ne : tx ≠ rx
  txFree : used tx = false
  rxFree : used rx = false
  txRange : 1 ≤ tx ∧ tx < length
  rxRange : 1 ≤ rx ∧ rx < length

section Rows

variable {length node : ℕ} {used : ℕ → Bool}

theorem takeSlot_spec (used : ℕ → Bool) (slots entries pre : List ℕ) :
    (∃ slot ∈ slots, used slot = false ∧ takeSlot slots (used, entries) pre =
        (update used slot true, entries ++ pre ++ [slot, 0])) ∨
      takeSlot slots (used, entries) pre = (used, entries) := by
  unfold takeSlot
  cases hfind : slots.find? fun slot ↦ !used slot with
  | none => exact .inr rfl
  | some slot =>
    refine .inl ⟨slot, mem_of_find?_eq_some hfind, ?_, rfl⟩
    simpa using find?_some hfind

theorem availableRow_spec (hcomplete : (availableRow length used node).2.length = 5) :
    ∃ tx rx, CompleteRow length used node (availableRow length used node).2 tx rx ∧
      (availableRow length used node).1 = update (update used tx true) rx true := by
  have hrange : ∀ {slot : ℕ}, slot ∈ range' 1 (length - 1) → 1 ≤ slot ∧ slot < length := by
    intro slot hslot
    rw [mem_range'_1] at hslot
    omega
  unfold availableRow at hcomplete ⊢
  dsimp only at hcomplete ⊢
  rcases takeSlot_spec used (range' 1 (length - 1)) [] [node] with ⟨tx, htx, htxFree, heq⟩ | heq
  · rw [heq] at hcomplete ⊢
    rcases takeSlot_spec (update used tx true) (range' 1 (length - 1)).reverse
      ([] ++ [node] ++ [tx, 0]) [] with ⟨rx, hrx, hrxFree, heq⟩ | heq
    · rw [heq]
      have hne : rx ≠ tx := by
        rintro rfl
        rw [update_self] at hrxFree
        cases hrxFree
      rw [update_of_ne hne] at hrxFree
      exact ⟨tx, rx, ⟨rfl, hne.symm, htxFree, hrxFree, hrange htx,
        hrange (mem_reverse.mp hrx)⟩, rfl⟩
    · rw [heq] at hcomplete
      cases hcomplete
  · rw [heq] at hcomplete
    rcases takeSlot_spec used (range' 1 (length - 1)).reverse [] [] with ⟨rx, -, -, heq⟩ | heq
    · rw [heq] at hcomplete
      cases hcomplete
    · rw [heq] at hcomplete
      cases hcomplete

/-- The rows are complete, and a slot of one is none of another. -/
structure DistinctRows (length : ℕ) (used : ℕ → Bool) (nodes : List ℕ) (rows : List (List ℕ)) :
    Prop where
  complete : ∀ (k : ℕ) (hk : k < nodes.length), ∃ tx rx,
    CompleteRow length used nodes[k] (rows.getD k []) tx rx
  distinct : ∀ k j, k < nodes.length → j < nodes.length →
    slotEntry rows k 1 ≠ slotEntry rows j 3

theorem CompleteRow.of_update {row : List ℕ} {tx rx slot : ℕ}
    (hrow : CompleteRow length (update used slot true) node row tx rx) :
    CompleteRow length used node row tx rx ∧ tx ≠ slot ∧ rx ≠ slot := by
  have htx : tx ≠ slot := by
    rintro rfl
    have hfree := hrow.txFree
    rw [update_self] at hfree
    cases hfree
  have hrx : rx ≠ slot := by
    rintro rfl
    have hfree := hrow.rxFree
    rw [update_self] at hfree
    cases hfree
  refine ⟨⟨hrow.row, hrow.ne, ?_, ?_, hrow.txRange, hrow.rxRange⟩, htx, hrx⟩
  · rw [← hrow.txFree, update_of_ne htx]
  · rw [← hrow.rxFree, update_of_ne hrx]

theorem rowsFrom_distinct {nodes : List ℕ}
    (hcomplete : ∀ row ∈ rowsFrom length used nodes, row.length = 5) :
    DistinctRows length used nodes (rowsFrom length used nodes) := by
  induction nodes generalizing used with
  | nil => exact ⟨fun k hk ↦ absurd hk (Nat.not_lt_zero k), fun k j hk ↦ absurd hk (Nat.not_lt_zero k)⟩
  | cons node nodes ih =>
    obtain ⟨tx, rx, hfirst, hused⟩ := availableRow_spec (hcomplete _ mem_cons_self)
    have hrest := ih fun row hrow ↦ hcomplete row (mem_cons_of_mem _ hrow)
    rw [hused] at hrest
    -- the slots of the later rows are none of the first row's
    have hlater : ∀ (k : ℕ) (hk : k < nodes.length), ∃ tx' rx',
        CompleteRow length used nodes[k] ((rowsFrom length
          (availableRow length used node).1 nodes).getD k []) tx' rx' ∧ tx' ≠ rx ∧ rx' ≠ tx := by
      intro k hk
      obtain ⟨tx', rx', hrow⟩ := hrest.complete k hk
      obtain ⟨hrow, htx, -⟩ := hrow.of_update
      obtain ⟨hrow, -, hrx⟩ := hrow.of_update
      rw [hused]
      exact ⟨tx', rx', hrow, htx, hrx⟩
    have hentry : ∀ k, slotEntry (rowsFrom length used (node :: nodes)) (k + 1) =
        slotEntry (rowsFrom length (availableRow length used node).1 nodes) k := fun k ↦ rfl
    have htx : slotEntry (rowsFrom length used (node :: nodes)) 0 1 = tx := by
      change (availableRow length used node).2.getD 1 0 = tx
      rw [hfirst.row]
      rfl
    have hrx : slotEntry (rowsFrom length used (node :: nodes)) 0 3 = rx := by
      change (availableRow length used node).2.getD 3 0 = rx
      rw [hfirst.row]
      rfl
    refine ⟨fun k hk ↦ ?_, fun k j hk hj ↦ ?_⟩
    · cases k with
      | zero => exact ⟨tx, rx, hfirst⟩
      | succ k =>
        obtain ⟨tx', rx', hrow, -⟩ := hlater k (Nat.lt_of_succ_lt_succ hk)
        exact ⟨tx', rx', hrow⟩
    · cases k with
      | zero =>
        rw [htx]
        cases j with
        | zero =>
          rw [hrx]
          exact hfirst.ne
        | succ j =>
          obtain ⟨tx', rx', hrow, -, hne⟩ := hlater j (Nat.lt_of_succ_lt_succ hj)
          rw [hentry, slotEntry, hrow.row]
          exact hne.symm
      | succ k =>
        cases j with
        | zero =>
          obtain ⟨tx', rx', hrow, hne, -⟩ := hlater k (Nat.lt_of_succ_lt_succ hk)
          rw [hentry, hrx, slotEntry, hrow.row]
          exact hne
        | succ j =>
          rw [hentry, hentry, hused]
          exact hrest.distinct k j (Nat.lt_of_succ_lt_succ hk) (Nat.lt_of_succ_lt_succ hj)

end Rows

section

variable {numCoojaNodes length : ℕ} {schedule : Lib.Grid Cell}
  (hcomplete : ∀ row ∈ availableSlotMatrix numCoojaNodes length schedule, row.length = 5)

include hcomplete

theorem availableSlotMatrix_row {node : ℕ} (hnode : 1 ≤ node ∧ node ≤ numCoojaNodes) :
    ∃ tx rx, (availableSlotMatrix numCoojaNodes length schedule).getD node [] =
      [node, tx, 0, rx, 0] ∧ tx < length ∧ rx < length ∧ 1 ≤ tx ∧ 1 ≤ rx := by
  rw [availableSlotMatrix_eq] at hcomplete ⊢
  have hrows := rowsFrom_distinct fun row hrow ↦ hcomplete row (mem_cons_of_mem _ hrow)
  obtain ⟨k, rfl⟩ := Nat.exists_eq_add_of_le' hnode.1
  have hk : k < (range' 1 numCoojaNodes).length := by
    rw [length_range']
    omega
  obtain ⟨tx, rx, hrow⟩ := hrows.complete k hk
  rw [getElem_range', one_mul, Nat.add_comm 1 k] at hrow
  exact ⟨tx, rx, hrow.row, hrow.txRange.2, hrow.rxRange.2, hrow.txRange.1, hrow.rxRange.1⟩

theorem availableSlotMatrix_distinct
    {a b : ℕ} (ha : 1 ≤ a ∧ a ≤ numCoojaNodes) (hb : 1 ≤ b ∧ b ≤ numCoojaNodes) :
    slotEntry (availableSlotMatrix numCoojaNodes length schedule) a 1 ≠
      slotEntry (availableSlotMatrix numCoojaNodes length schedule) b 3 := by
  rw [availableSlotMatrix_eq] at hcomplete ⊢
  have hrows := rowsFrom_distinct fun row hrow ↦ hcomplete row (mem_cons_of_mem _ hrow)
  obtain ⟨k, rfl⟩ := Nat.exists_eq_add_of_le' ha.1
  obtain ⟨j, rfl⟩ := Nat.exists_eq_add_of_le' hb.1
  refine hrows.distinct k j ?_ ?_
  · rw [length_range']
    omega
  · rw [length_range']
    omega

end

end ContikiMaster.Scheduler
