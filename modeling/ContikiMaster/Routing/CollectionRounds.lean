import ContikiMaster.Routing.Bounds

/-!
# Rounds of collected data

The coordinator marks the nodes that have reported and counts them. A round ends with
the report that completes the nodes from 2 on, and the next one starts with no mark.
-/

namespace ContikiMaster.Routing

open Function List

/-- Runs the coordinator over reports, with those since the last announcement. -/
def collectReports (config : ReceiverConfig) (reports : List ActualData) (s : Receiver) :
    Receiver × List ActualData :=
  reports.foldl (fun (s, since) rcvdAcdt ↦ (trackReport config s rcvdAcdt,
    if completes config s rcvdAcdt then [] else since ++ [rcvdAcdt])) (s, [])

def reporters (reports : List ActualData) : Finset ℕ := (reports.map reportedBy).toFinset

/-- The static variables of the collection before the first report. -/
def Receiver.startCollection (s : Receiver) : Receiver :=
  { s with nodeRcvdTracker := fun _ ↦ 0, rcvdActualDataCounter := 0 }

/-- The marks are those of the nodes that have reported in the round, which is not complete. -/
structure Receiver.Collecting (n : ℕ) (s : Receiver) (since : List ActualData) : Prop where
  marks : ∀ i, s.nodeRcvdTracker i = if i ∈ reporters since then 1 else 0
  counter : s.rcvdActualDataCounter = (reporters since).card
  known : reporters since ⊆ Finset.Icc 2 n
  incomplete : reporters since = Finset.Icc 2 n → reporters since = ∅

section Rounds

variable {config : ReceiverConfig} {n : ℕ} {s : Receiver} {since : List ActualData}
  {rcvdAcdt : ActualData}

theorem reporters_snoc :
    reporters (since ++ [rcvdAcdt]) = insert (reportedBy rcvdAcdt) (reporters since) := by
  ext i
  simp [reporters]

theorem Receiver.Collecting.start (n : ℕ) (s : Receiver) : s.startCollection.Collecting n [] where
  marks _ := rfl
  counter := rfl
  known := Finset.empty_subset _
  incomplete _ := rfl

namespace Receiver.Collecting

theorem mark_eq_zero_iff (hs : s.Collecting n since) (i : ℕ) :
    s.nodeRcvdTracker i = 0 ↔ i ∉ reporters since := by
  rw [hs.marks]
  by_cases hmem : i ∈ reporters since
  · rw [if_pos hmem]
    exact iff_of_false one_ne_zero (not_not_intro hmem)
  · rw [if_neg hmem]
    exact iff_of_true rfl hmem

/-- The counter reaches the number of nodes with the report that completes them. -/
theorem completes_iff (hs : s.Collecting n since) (hn : n < 256) (hconfig : config.numCoojaNodes = n)
    (hreport : reportedBy rcvdAcdt ∈ Finset.Icc 2 n) : completes config s rcvdAcdt = true ↔
      reporters (since ++ [rcvdAcdt]) = Finset.Icc 2 n ∧ reporters since ≠ Finset.Icc 2 n := by
  have hcard : (Finset.Icc 2 n).card = n - 1 := Nat.card_Icc 2 n
  have hle := Finset.card_le_card hs.known
  have hbounds := Finset.mem_Icc.mp hreport
  have hcounter : (s.rcvdActualDataCounter + 1) % 256 = (reporters since).card + 1 := by
    rw [hs.counter]
    exact Nat.mod_eq_of_lt (by omega)
  unfold completes
  rw [Bool.and_eq_true, beq_iff_eq, beq_iff_eq, hs.mark_eq_zero_iff, hcounter, hconfig, reporters_snoc]
  constructor
  · rintro ⟨hnew, hcount⟩
    have hinsert : (insert (reportedBy rcvdAcdt) (reporters since)).card = (Finset.Icc 2 n).card := by
      rw [Finset.card_insert_of_notMem hnew]
      omega
    refine ⟨Finset.eq_of_subset_of_card_le (Finset.insert_subset hreport hs.known) hinsert.ge, ?_⟩
    intro hall
    exact hnew (hall ▸ hreport)
  · rintro ⟨hall, hopen⟩
    have hnew : reportedBy rcvdAcdt ∉ reporters since := fun hmem ↦
      hopen ((Finset.insert_eq_self.mpr hmem).symm.trans hall)
    have hinsert := Finset.card_insert_of_notMem hnew
    rw [hall, hcard] at hinsert
    exact ⟨hnew, by omega⟩

/-- An announcement clears the marks and the counter. -/
theorem cleared (hs : s.Collecting n since) (hconfig : config.numCoojaNodes = n)
    (hreport : reportedBy rcvdAcdt ∈ Finset.Icc 2 n) (hcompletes : completes config s rcvdAcdt = true) :
    (trackReport config s rcvdAcdt).Collecting n [] := by
  unfold trackReport
  rw [if_pos hcompletes]
  refine ⟨fun i ↦ ?_, rfl, Finset.empty_subset _, fun _ ↦ rfl⟩
  change (if i < config.numCoojaNodes + 1 then 0 else _) = 0
  split_ifs with hi
  · rfl
  · have hbound := (Finset.mem_Icc.mp hreport).2
    have hknown : i ∉ reporters since := fun hmem ↦ by
      have := (Finset.mem_Icc.mp (hs.known hmem)).2
      omega
    rw [update_of_ne (by omega), hs.marks, if_neg hknown]

section

variable (hs : s.Collecting n since) (hn : n < 256) (hconfig : config.numCoojaNodes = n)
  (hreport : reportedBy rcvdAcdt ∈ Finset.Icc 2 n)

include hs hn hconfig hreport

/-- Any other report is marked. -/
theorem marked (hcompletes : ¬ completes config s rcvdAcdt = true) :
    (trackReport config s rcvdAcdt).Collecting n (since ++ [rcvdAcdt]) := by
  have hopen : reporters (since ++ [rcvdAcdt]) ≠ Finset.Icc 2 n := by
    intro hall
    refine hcompletes ((hs.completes_iff hn hconfig hreport).mpr ⟨hall, fun hbefore ↦ ?_⟩)
    have hempty := hbefore.symm.trans (hs.incomplete hbefore)
    exact Finset.notMem_empty _ (hempty ▸ hreport)
  have hknown : reporters (since ++ [rcvdAcdt]) ⊆ Finset.Icc 2 n := by
    rw [reporters_snoc]
    exact Finset.insert_subset hreport hs.known
  unfold trackReport
  rw [if_neg hcompletes]
  by_cases hmem : reportedBy rcvdAcdt ∈ reporters since
  · rw [if_neg ((hs.mark_eq_zero_iff _).not.mpr (not_not_intro hmem))]
    have hsame : reporters (since ++ [rcvdAcdt]) = reporters since := by
      rw [reporters_snoc, Finset.insert_eq_self.mpr hmem]
    refine ⟨?_, ?_, hknown, fun hall ↦ absurd hall hopen⟩
    · rw [hsame]
      exact hs.marks
    · rw [hsame]
      exact hs.counter
  · rw [if_pos ((hs.mark_eq_zero_iff _).mpr hmem)]
    refine ⟨fun i ↦ ?_, ?_, hknown, fun hall ↦ absurd hall hopen⟩
    · change update s.nodeRcvdTracker (reportedBy rcvdAcdt) 1 i = _
      rw [reporters_snoc, update_apply, hs.marks]
      by_cases hi : i = reportedBy rcvdAcdt
      · rw [if_pos hi, if_pos (Finset.mem_insert.mpr (.inl hi))]
      · rw [if_neg hi]
        exact if_congr (by rw [Finset.mem_insert, or_iff_right hi]) rfl rfl
    · change (s.rcvdActualDataCounter + 1) % 256 = _
      have hle := Finset.card_le_card hknown
      rw [Nat.card_Icc, reporters_snoc, Finset.card_insert_of_notMem hmem] at hle
      rw [reporters_snoc, Finset.card_insert_of_notMem hmem, hs.counter]
      exact Nat.mod_eq_of_lt (by omega)

theorem step : (trackReport config s rcvdAcdt).Collecting n
      (if completes config s rcvdAcdt then [] else since ++ [rcvdAcdt]) := by
  split_ifs with hcompletes
  · exact hs.cleared hconfig hreport hcompletes
  · exact hs.marked hn hconfig hreport hcompletes

end

end Receiver.Collecting

theorem collecting_collectReports (hn : n < 256) (hconfig : config.numCoojaNodes = n)
    (s : Receiver) {reports : List ActualData}
    (hreports : ∀ rcvdAcdt ∈ reports, reportedBy rcvdAcdt ∈ Finset.Icc 2 n) :
    (collectReports config reports s.startCollection).1.Collecting n
      (collectReports config reports s.startCollection).2 := by
  induction reports using reverseRecOn with
  | nil => exact .start n s
  | append_singleton reports rcvdAcdt ih =>
    have hlast := hreports rcvdAcdt (mem_append_right _ mem_cons_self)
    unfold collectReports
    rw [foldl_append]
    exact (ih fun r hr ↦ hreports r (mem_append_left _ hr)).step hn hconfig hlast

end Rounds

/-- The coordinator of `n` nodes announces that all data is collected exactly at the reports that
complete the nodes from 2 to `n` since the last announcement, and an announcement clears all marks
and the counter. -/
theorem announces_iff (config : ReceiverConfig) (n : UInt8) (s : Receiver)
    (before : List ActualData) (rcvdAcdt : ActualData)
    (hreports : ∀ report ∈ before ++ [rcvdAcdt], reportedBy report ∈ Finset.Icc 2 n.toNat) :
    let config := { config with numCoojaNodes := n.toNat }
    let (s, since) := collectReports config before s.startCollection
    (completes config s rcvdAcdt = true ↔
      reporters (since ++ [rcvdAcdt]) = Finset.Icc 2 n.toNat ∧
        reporters since ≠ Finset.Icc 2 n.toNat) ∧
      (completes config s rcvdAcdt = true →
        (∀ i < Buffer.nodeRcvdTracker.size config, (trackReport config s rcvdAcdt).nodeRcvdTracker i = 0) ∧
          (trackReport config s rcvdAcdt).rcvdActualDataCounter = 0) := by
  have hlast := hreports rcvdAcdt (mem_append_right _ mem_cons_self)
  have hconfig : ({ config with numCoojaNodes := n.toNat } : ReceiverConfig).numCoojaNodes =
      n.toNat := rfl
  have hs := collecting_collectReports n.toNat_lt hconfig s fun report hr ↦
    hreports report (mem_append_left _ hr)
  refine ⟨hs.completes_iff n.toNat_lt rfl hlast, fun hcompletes ↦ ?_⟩
  have hcleared := hs.cleared rfl hlast hcompletes
  exact ⟨fun i _ ↦ hcleared.marks i, hcleared.counter⟩

/-- A report without strengths, with a route of one node. -/
def emptyReport (nodeId : ℕ) : ActualData :=
  ⟨nodeId, 3, ((Vector.replicate _ 0).set 1 1).set 2 nodeId⟩

theorem announces_second :
    let config := { fiveNodes with numCoojaNodes := (3 : UInt8).toNat }
    let reports := [emptyReport 3, emptyReport 3]
    completes config (collectReports config reports secondNode.startCollection).1 (emptyReport 2) =
      true :=
  (announces_iff fiveNodes 3 secondNode [emptyReport 3, emptyReport 3] (emptyReport 2)
    (by decide)).1.mpr (by decide)

end ContikiMaster.Routing
