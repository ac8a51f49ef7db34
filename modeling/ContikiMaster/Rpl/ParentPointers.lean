import ContikiMaster.Rpl.RankDiscipline

/-!
# The pointers to RPL neighbours

The preferred parent and the two targets are `NULL` or entries of the table, and RPL locks the
preferred parent only. Two calls go behind the back of the lock: the update of an address removes
the old entry even if locked, and a failing global repair forgets the parent and leaves its lock.
-/

namespace ContikiMaster.Rpl.RplNode

open Lib Net Tsch List Option

variable {conf : ClockConf} {s t : RplNode} {nbr : ℕ}

/-- The pointers are right as far as an update of the state needs it: what is locked is the preferred
parent, which is locked if it is still an entry. -/
structure Loose (s : RplNode) : Prop where
  urgentProbingTarget : ∀ nbr, s.inst.urgentProbingTarget = some nbr →
    s.tables.uses rplNeighbors nbr = true
  unicastDioTarget : ∀ nbr, s.inst.unicastDioTarget = some nbr →
    s.tables.uses rplNeighbors nbr = true
  locked : ∀ nbr, s.tables.locks rplNeighbors nbr = true → s.inst.preferredParent = some nbr
  kept : ∀ nbr, s.inst.preferredParent = some nbr → s.tables.uses rplNeighbors nbr = true →
    s.tables.locks rplNeighbors nbr = true

/-- The pointers are right as far as a removal of all neighbours needs it: the targets and what is
locked are entries. -/
structure Current (s : RplNode) : Prop where
  urgentProbingTarget : ∀ nbr, s.inst.urgentProbingTarget = some nbr →
    s.tables.uses rplNeighbors nbr = true
  unicastDioTarget : ∀ nbr, s.inst.unicastDioTarget = some nbr →
    s.tables.uses rplNeighbors nbr = true
  locked : ∀ nbr, s.tables.locks rplNeighbors nbr = true → s.tables.uses rplNeighbors nbr = true

theorem Refers.loose (hs : s.Refers) : s.Loose :=
  ⟨hs.urgentProbingTarget, hs.unicastDioTarget, fun nbr ↦ (hs.locked nbr).mp,
    fun nbr hnbr _ ↦ (hs.locked nbr).mpr hnbr⟩

theorem Refers.current (hs : s.Refers) : s.Current :=
  ⟨hs.urgentProbingTarget, hs.unicastDioTarget,
    fun nbr hlocks ↦ hs.preferredParent nbr ((hs.locked nbr).mp hlocks)⟩

theorem Loose.refers (hs : s.Loose) (hnone : s.inst.preferredParent = none) : s.Refers where
  preferredParent nbr hnbr := by
    rw [hnone] at hnbr
    cases hnbr
  urgentProbingTarget := hs.urgentProbingTarget
  unicastDioTarget := hs.unicastDioTarget
  locked nbr := by
    refine ⟨hs.locked nbr, fun hnbr ↦ ?_⟩
    rw [hnone] at hnbr
    cases hnbr

theorem Refers.reset (hs : s.Refers) (hnone : s.inst.preferredParent = none) {inst : DagInstance}
    (hpointers : inst.untargeted = inst ∧ inst.preferredParent = none) :
    ({ s with inst := inst } : RplNode).Refers := by
  obtain ⟨htargets, hparent⟩ := hpointers
  have hurgent : inst.urgentProbingTarget = none := by
    rw [← htargets]
    rfl
  have hunicast : inst.unicastDioTarget = none := by
    rw [← htargets]
    rfl
  refine Loose.refers ⟨fun nbr hnbr ↦ ?_, fun nbr hnbr ↦ ?_, fun nbr hlocks ↦ ?_,
    fun nbr hnbr ↦ ?_⟩ hparent
  · cases hurgent.symm.trans hnbr
  · cases hunicast.symm.trans hnbr
  · cases hnone.symm.trans ((hs.locked nbr).mp hlocks)
  · cases hparent.symm.trans hnbr

theorem locks_setPreferredParent {parent : Option ℕ}
    (hindex : (s.tables.table rplNeighbors).index < 8)
    (hlocked : ∀ nbr, s.tables.locks rplNeighbors nbr = true → s.inst.preferredParent = some nbr)
    (hkept : ∀ nbr, s.inst.preferredParent = some nbr → parent = some nbr →
      s.tables.locks rplNeighbors nbr = true) (nbr : ℕ) :
    (s.rplNeighborSetPreferredParent parent).tables.locks rplNeighbors nbr = true ↔
      parent = some nbr := by
  have hunlocked : (s.tables.nbrTableUnlock rplNeighbors s.inst.preferredParent).2.locks
      rplNeighbors nbr = false := by
    cases hpreferred : s.inst.preferredParent with
    | none =>
      rw [Bool.eq_false_iff]
      intro hlocks
      cases hpreferred.symm.trans (hlocked nbr hlocks)
    | some old =>
      have hbit : (s.tables.nbrTableUnlock rplNeighbors (some old)).2.locks rplNeighbors nbr =
          if nbr = old ∧ (s.tables.table rplNeighbors).index = (s.tables.table rplNeighbors).index
          then false else s.tables.locks rplNeighbors nbr := nbrGetBit_nbrSetBit hindex hindex
      rw [hbit]
      split
      · rfl
      · rename_i hother
        rw [Bool.eq_false_iff]
        intro hlocks
        have hsame := hpreferred.symm.trans (hlocked nbr hlocks)
        exact hother ⟨(some.inj hsame).symm, rfl⟩
  unfold rplNeighborSetPreferredParent
  split
  · cases parent with
    | none =>
      change (s.tables.nbrTableUnlock rplNeighbors s.inst.preferredParent).2.locks
        rplNeighbors nbr = true ↔ none = some nbr
      rw [hunlocked]
      simp
    | some new =>
      have hbit : ((s.tables.nbrTableUnlock rplNeighbors s.inst.preferredParent).2.nbrTableLock
          rplNeighbors (some new)).2.locks rplNeighbors nbr =
            if nbr = new ∧ (s.tables.table rplNeighbors).index = (s.tables.table rplNeighbors).index
            then true else (s.tables.nbrTableUnlock rplNeighbors s.inst.preferredParent).2.locks
              rplNeighbors nbr := nbrGetBit_nbrSetBit hindex hindex
      change ((s.tables.nbrTableUnlock rplNeighbors s.inst.preferredParent).2.nbrTableLock
        rplNeighbors (some new)).2.locks rplNeighbors nbr = true ↔ some new = some nbr
      rw [hbit, hunlocked]
      simp [eq_comm]
  · rename_i hsame
    rw [not_ne_iff] at hsame
    constructor
    · intro hlocks
      exact hsame.symm.trans (hlocked nbr hlocks)
    · intro hnbr
      exact hkept nbr (hsame.trans hnbr) hnbr

theorem updateParent_refers (hindex : (s.tables.table rplNeighbors).index < 8) (hloose : s.Loose) :
    (s.updateParent conf).Refers := by
  have hspec : UpdatesParent conf s _ := updateParent_spec s
  obtain ⟨hbest, htarget⟩ := @rplNeighborSelectBest_spec conf s
  have hlocks : ∀ nbr, (s.withParent conf).tables.locks rplNeighbors nbr = true ↔
      (s.rplNeighborSelectBest conf).1 = some nbr := by
    refine locks_setPreferredParent hindex hloose.locked fun nbr hnbr hselected ↦ ?_
    exact hloose.kept nbr hnbr (uses_of_mem_neighbors (hbest nbr hselected).1)
  constructor
  · intro nbr hnbr
    rw [hspec.preferredParent] at hnbr
    rw [updateParent_uses]
    exact uses_of_mem_neighbors (hbest nbr hnbr).1
  · intro nbr hnbr
    rw [hspec.urgentProbingTarget] at hnbr
    rw [updateParent_uses]
    exact (htarget nbr hnbr).elim (hloose.urgentProbingTarget nbr) uses_of_mem_neighbors
  · intro nbr hnbr
    rw [hspec.unicastDioTarget] at hnbr
    rw [updateParent_uses]
    exact hloose.unicastDioTarget nbr hnbr
  · intro nbr
    rw [hspec.preferredParent, ← hlocks, NbrTables.locks, NbrTables.locks, hspec.locked,
      hspec.index, withParent_table]

theorem rplDagUpdateState_refers (hs : s.Steady) (hloose : s.Loose) :
    (s.rplDagUpdateState conf).Refers := by
  unfold rplDagUpdateState
  split
  · rename_i hunused
    exact hloose.refers (hs.unused (by simpa using hunused))
  · split
    · have hlocks := @locks_setPreferredParent s none hs.separate.linkStats.1
        hloose.locked (fun _ _ ↦ nofun)
      rw [rplNeighborSetPreferredParent_eq] at hlocks ⊢
      exact ⟨fun _ ↦ nofun, hloose.urgentProbingTarget, hloose.unicastDioTarget, hlocks⟩
    · split
      · rename_i hroot
        exact hloose.refers (hs.root hroot)
      · have hrefers : (s.updateParent conf).Refers :=
          updateParent_refers hs.separate.linkStats.1 hloose
        exact ⟨hrefers.preferredParent, hrefers.urgentProbingTarget, hrefers.unicastDioTarget,
          hrefers.locked⟩

theorem output_refers (hs : s.Steady) (hrefers : s.Refers) (next : Autofill) :
    (s.output conf next).Refers := by
  have hupdated : (s.rplDagUpdateState conf).Steady := rplDagUpdateState_steady hs
  exact (autofill_keepsDag hupdated.separate next).refers
    (rplDagUpdateState_refers hs hrefers.loose)

/-! ### Repairs -/

theorem removeNeighbor_locks {i : ℕ} (hindex : (s.tables.table rplNeighbors).index < 8)
    (hlocks : (s.removeNeighbor nbr).tables.locks rplNeighbors i = true) :
    i ≠ nbr ∧ s.tables.locks rplNeighbors i = true := by
  have hbit : (s.removeNeighbor nbr).tables.locks rplNeighbors i =
      if i = nbr ∧ (s.tables.table rplNeighbors).index = (s.tables.table rplNeighbors).index
      then false else s.tables.locks rplNeighbors i := nbrGetBit_nbrSetBit hindex hindex
  rw [hbit] at hlocks
  split at hlocks
  · cases hlocks
  · rename_i hother
    exact ⟨fun heq ↦ hother ⟨heq, rfl⟩, hlocks⟩

theorem foldl_removeNeighbor_left {nbrs : List ℕ} {i : ℕ}
    (hindex : (s.tables.table rplNeighbors).index < 8)
    (hleft : (nbrs.foldl removeNeighbor s).inst.urgentProbingTarget = some i ∨
      (nbrs.foldl removeNeighbor s).inst.unicastDioTarget = some i ∨
        (nbrs.foldl removeNeighbor s).tables.locks rplNeighbors i = true) :
    i ∉ nbrs ∧ (s.inst.urgentProbingTarget = some i ∨ s.inst.unicastDioTarget = some i ∨
      s.tables.locks rplNeighbors i = true) := by
  induction nbrs generalizing s with
  | nil => exact ⟨not_mem_nil, hleft⟩
  | cons nbr nbrs ih =>
    obtain ⟨hrest, hbefore⟩ := ih (s := s.removeNeighbor nbr) hindex hleft
    have hstep : i ≠ nbr ∧ (s.inst.urgentProbingTarget = some i ∨
        s.inst.unicastDioTarget = some i ∨ s.tables.locks rplNeighbors i = true) := by
      rcases hbefore with hurgent | hunicast | hlocks
      · obtain ⟨hi, hne⟩ := filter_eq_some_iff.mp hurgent
        exact ⟨by simpa using hne, Or.inl hi⟩
      · obtain ⟨hi, hne⟩ := filter_eq_some_iff.mp hunicast
        exact ⟨by simpa using hne, Or.inr (Or.inl hi)⟩
      · obtain ⟨hne, hi⟩ := removeNeighbor_locks hindex hlocks
        exact ⟨hne, Or.inr (Or.inr hi)⟩
    exact ⟨fun hmem ↦ (mem_cons.mp hmem).elim hstep.1 hrest, hstep.2⟩

theorem rplNeighborRemoveAll_refers (hs : s.Steady) (hcurrent : s.Current) :
    (s.rplNeighborRemoveAll conf).Refers := by
  have hindex := hs.separate.linkStats.1
  have hlisted : ∀ i, s.tables.uses rplNeighbors i = true → i ∈ s.neighbors := fun i huses ↦
    mem_filter.mpr ⟨NbrTables.mem_of_uses hs.sound huses, huses⟩
  -- whatever the pointers and locks concerned was removed
  have hnothing : ∀ i, ¬ ((s.neighbors.foldl removeNeighbor s).inst.urgentProbingTarget = some i ∨
      (s.neighbors.foldl removeNeighbor s).inst.unicastDioTarget = some i ∨
        (s.neighbors.foldl removeNeighbor s).tables.locks rplNeighbors i = true) := by
    intro i hleft
    obtain ⟨hremoved, hbefore⟩ := foldl_removeNeighbor_left hindex hleft
    rcases hbefore with hurgent | hunicast | hlocks
    · exact hremoved (hlisted i (hcurrent.urgentProbingTarget i hurgent))
    · exact hremoved (hlisted i (hcurrent.unicastDioTarget i hunicast))
    · exact hremoved (hlisted i (hcurrent.locked i hlocks))
  have hloose : (s.neighbors.foldl removeNeighbor s).Loose := by
    constructor
    · exact fun i hi ↦ absurd (Or.inl hi) (hnothing i)
    · exact fun i hi ↦ absurd (Or.inr (Or.inl hi)) (hnothing i)
    · exact fun i hi ↦ absurd (Or.inr (Or.inr hi)) (hnothing i)
    · intro i _ huses
      obtain ⟨hremoved, hused⟩ := foldl_removeNeighbor_uses hindex huses
      exact absurd (hlisted i hused) hremoved
  exact rplDagUpdateState_refers ((foldl_removeNeighbor_keepsRank s.neighbors s).steady hs) hloose

theorem Current.linkStatsReset (hs : s.Separate) (hcurrent : s.Current) :
    s.linkStatsReset.Current := by
  obtain ⟨-, hkeeps, hinst⟩ := linkStatsReset_keeps hs
  constructor
  · intro nbr hnbr
    rw [hinst] at hnbr
    exact hkeeps.uses nbr nofun (hcurrent.urgentProbingTarget nbr hnbr)
  · intro nbr hnbr
    rw [hinst] at hnbr
    exact hkeeps.uses nbr nofun (hcurrent.unicastDioTarget nbr hnbr)
  · intro nbr hlocks
    exact hkeeps.uses nbr nofun (hcurrent.locked nbr (hkeeps.unlocked nbr hlocks))

theorem rplLocalRepair_refers (hs : s.Steady) (hcurrent : s.Current)
    (hrefers : s.inst.used = false → s.Refers) : (s.rplLocalRepair conf).Refers := by
  have hrepair : ∀ {t : RplNode}, t.Steady → t.Current →
      (t.linkStatsReset.rplNeighborRemoveAll conf).Refers := by
    intro t ht htcurrent
    exact rplNeighborRemoveAll_refers ((linkStatsReset_keeps ht.separate).1.toKeepsRank.steady ht)
      (htcurrent.linkStatsReset ht.separate)
  unfold rplLocalRepair
  split
  · apply hrepair
    · split
      · exact hs
      · exact hs.withInst rfl rfl rfl rfl rfl
    · split
      · exact hcurrent
      · exact ⟨hcurrent.urgentProbingTarget, hcurrent.unicastDioTarget, hcurrent.locked⟩
  · rename_i hunused
    exact hrefers (by simpa using hunused)

theorem rplGlobalRepair_refers (hs : s.Steady) (hrefers : s.Refers) :
    (s.rplGlobalRepair conf).Refers := by
  unfold rplGlobalRepair
  split
  · have hversion : ({ s with inst := { s.inst with
        version := rplLollipopIncrement s.inst.version } } : RplNode).Refers :=
      ⟨hrefers.preferredParent, hrefers.urgentProbingTarget, hrefers.unicastDioTarget,
        hrefers.locked⟩
    exact rplLocalRepair_refers (hs.withInst rfl rfl rfl rfl rfl) hversion.current fun _ ↦ hversion
  · exact hrefers

theorem initDagFromDio_used (dio : RplDio) :
    (initDagFromDio dio).2.used = (initDagFromDio dio).1 := by
  unfold initDagFromDio initDag
  split
  · rename_i hinit
    split at hinit
    · cases hinit
      rfl
    · split at hinit
      · cases hinit
        rfl
      · cases hinit
  · rename_i hinit
    split at hinit
    · cases hinit
    · split at hinit
      · cases hinit
      · cases hinit
        rfl

variable {dio : RplDio}

theorem globalRepairNonRoot_refers (hs : s.Steady) (hrefers : s.Refers)
    (hfails : (initDagFromDio dio).1 = false → s.inst.preferredParent = none) :
    (s.globalRepairNonRoot conf dio).Refers := by
  have hpointers := initDagFromDio_pointers dio
  unfold globalRepairNonRoot
  split
  · exact hrefers
  · refine rplLocalRepair_refers (hs.withoutParent hpointers.2) ?_ fun hunused ↦ ?_
    · have hurgent : (initDagFromDio dio).2.urgentProbingTarget = none := by
        rw [← hpointers.1]
        rfl
      have hunicast : (initDagFromDio dio).2.unicastDioTarget = none := by
        rw [← hpointers.1]
        rfl
      refine ⟨fun nbr hnbr ↦ ?_, fun nbr hnbr ↦ ?_, hrefers.current.locked⟩
      · cases hurgent.symm.trans hnbr
      · cases hunicast.symm.trans hnbr
    · exact hrefers.reset (hfails ((initDagFromDio_used dio).symm.trans hunused)) hpointers

/-- The DIO makes a node repair the DAG that then cannot take its configuration. -/
def FailsRepair (s : RplNode) (dio : RplDio) : Prop :=
  s.inst.used = true ∧ s.inst.instanceId = dio.instanceId ∧ s.inst.dagId = dio.dagId ∧
    s.inst.minHoprankinc ≤ dio.rank.toNat ∧
      rplLollipopGreaterThan s.inst.version dio.version = false ∧
        rplLollipopGreaterThan dio.version s.inst.version = true ∧ (initDagFromDio dio).1 = false

theorem repairForDio_refers (hs : s.Steady) (hrefers : s.Refers)
    (hfails : rplLollipopGreaterThan dio.version s.inst.version = true →
      (initDagFromDio dio).1 = false → s.inst.preferredParent = none) :
    (s.repairForDio conf dio).Refers := by
  unfold repairForDio
  split
  · rename_i hnewer
    split
    · apply rplGlobalRepair_refers
      · exact hs.withInst rfl rfl rfl rfl rfl
      · exact ⟨hrefers.preferredParent, hrefers.urgentProbingTarget, hrefers.unicastDioTarget,
          hrefers.locked⟩
    · exact globalRepairNonRoot_refers hs hrefers (hfails hnewer)
  · exact hrefers

theorem rplDagLeave_refers (hs : s.Steady) (hrefers : s.Refers) (next : Autofill) :
    (s.rplDagLeave conf next).Refers := by
  have hleaving : (if s.isRoot then s else s.output conf next).Refers := by
    split
    · exact hrefers
    · exact output_refers hs hrefers next
  have hsteady : (if s.isRoot then s else s.output conf next).Steady := leaving_steady hs next
  obtain ⟨hreset, -⟩ := linkStatsReset_keeps hsteady.separate
  unfold rplDagLeave
  have hremoved := @rplNeighborRemoveAll_refers conf _ (hreset.toKeepsRank.steady hsteady)
    (hreset.refers hleaving).current
  exact ⟨hremoved.preferredParent, hremoved.urgentProbingTarget, hremoved.unicastDioTarget,
    hremoved.locked⟩

theorem rplDagLeave_parent (hs : s.Steady) (next : Autofill) :
    (s.rplDagLeave conf next).inst.preferredParent = none :=
  (rplDagLeave_steady hs next).unused rfl

section

variable (hs : s.Steady) (hrefers : s.Refers)

include hs hrefers

theorem rplDagRootInitDagImmediately_refers
    (dioConf : DioConf) (dagId : AddressBytes) (hasPrefix : Bool) (next : Autofill) :
    (s.rplDagRootInitDagImmediately conf dioConf dagId hasPrefix next).Refers := by
  obtain ⟨htargets, hparent⟩ := initDag_preferredParent 0 dagId dioConf.ofOcp hasPrefix 64
    uipNd6RaFlagAutonomous
  have hleft : (if s.inst.used then s.rplDagLeave conf next else s).Steady ∧
      (if s.inst.used then s.rplDagLeave conf next else s).Refers ∧
        (if s.inst.used then s.rplDagLeave conf next else s).inst.preferredParent = none := by
    split
    · exact ⟨rplDagLeave_steady hs next, rplDagLeave_refers hs hrefers next,
        rplDagLeave_parent hs next⟩
    · rename_i hunused
      exact ⟨hs, hrefers, hs.unused (by simpa using hunused)⟩
  obtain ⟨hsteady, hbefore, hnone⟩ := hleft
  unfold rplDagRootInitDagImmediately
  refine rplDagUpdateState_refers (hsteady.withoutParent hparent) (Refers.loose ?_)
  refine hbefore.reset hnone ⟨?_, hparent⟩
  rw [← htargets]
  rfl

theorem processDioFromCurrentDag_refers (sender : Linkaddr) (ipaddr : AddressBytes)
    (hfails : s.inst.minHoprankinc ≤ dio.rank.toNat →
      rplLollipopGreaterThan s.inst.version dio.version = false →
        rplLollipopGreaterThan dio.version s.inst.version = true →
          (initDagFromDio dio).1 = false → s.inst.preferredParent = none) :
    (s.processDioFromCurrentDag conf sender ipaddr dio).Refers := by
  unfold processDioFromCurrentDag
  split
  · exact hrefers
  · rename_i hrank
    split
    · exact hrefers
    · rename_i holder
      have hsteady : (s.repairForDio conf dio).Steady := repairForDio_steady hs dio
      have hrepaired : (s.repairForDio conf dio).Refers := repairForDio_refers hs hrefers
        (hfails (not_lt.mp hrank) (by simpa using holder))
      have hcached := rplIcmp6UpdateNbrTable_keepsDag hsteady.separate sender ipaddr (.rplDio dio)
      rcases hupdated : (s.repairForDio conf dio).rplIcmp6UpdateNbrTable sender ipaddr (.rplDio dio)
        with ⟨_ | nbr, t⟩
      · rw [hupdated] at hcached
        exact hcached.refers hrepaired
      · rw [hupdated] at hcached
        have hseparate : t.Separate := hcached.separate hsteady.separate
        exact (updateNbrFromDio_keepsDag hseparate ipaddr dio).refers (hcached.refers hrepaired)

theorem processDioOfInstance_refers (sender : Linkaddr) (ipaddr : AddressBytes)
    (hfails : s.FailsRepair dio → s.inst.preferredParent = none) :
    (s.processDioOfInstance conf sender ipaddr dio).Refers := by
  unfold processDioOfInstance
  split
  · rename_i hmine
    have hprocessed : (s.processDioFromCurrentDag conf sender ipaddr dio).Refers :=
      processDioFromCurrentDag_refers hs hrefers sender ipaddr
        fun hrank holder hnewer hfailed ↦
          hfails ⟨hmine.1, hmine.2.1, hmine.2.2, hrank, holder, hnewer, hfailed⟩
    exact rplDagUpdateState_refers (processDioFromCurrentDag_steady hs sender ipaddr dio)
      hprocessed.loose
  · exact hrefers

theorem processDioInitDag_refers (hunused : s.inst.used = false) (dio : RplDio) :
    (s.processDioInitDag dio).2.Refers ∧
      (s.processDioInitDag dio).2.inst.preferredParent = none := by
  have hnone := hs.unused hunused
  have hpointers := initDagFromDio_pointers dio
  unfold processDioInitDag
  split
  · exact ⟨hrefers, hnone⟩
  · exact ⟨hrefers.reset hnone hpointers, hpointers.2⟩

theorem rplProcessDio_refers (sender : Linkaddr) (ipaddr : AddressBytes)
    (hfails : s.FailsRepair dio → s.inst.preferredParent = none) :
    (s.rplProcessDio conf sender ipaddr dio).Refers := by
  unfold rplProcessDio
  split
  · rename_i hunused
    have hunused' : s.inst.used = false := by
      rw [Bool.and_eq_true, Bool.not_eq_true'] at hunused
      exact hunused.1
    have hsteady := processDioInitDag_steady hs dio
    obtain ⟨hjoined, hnone⟩ := processDioInitDag_refers hs hrefers hunused' dio
    rcases hinit : s.processDioInitDag dio with ⟨_ | _, t⟩
    · rw [hinit] at hjoined
      exact hjoined
    · rw [hinit] at hsteady hjoined hnone
      exact processDioOfInstance_refers hsteady hjoined sender ipaddr fun _ ↦ hnone
  · exact processDioOfInstance_refers hs hrefers sender ipaddr hfails

theorem rplProcessDis_refers (sender : Linkaddr)
    (ipaddr : AddressBytes) (isMulticast : Bool) (next : Autofill) :
    (s.rplProcessDis conf sender ipaddr isMulticast next).Refers := by
  have hcached := rplIcmp6UpdateNbrTable_keepsDag hs.separate sender ipaddr .rplDis
  unfold rplProcessDis
  split
  · exact hrefers
  · rcases hupdated : s.rplIcmp6UpdateNbrTable sender ipaddr .rplDis with ⟨_ | nbr, t⟩
    · rw [hupdated] at hcached
      exact hcached.refers hrefers
    · rw [hupdated] at hcached
      exact output_refers (hcached.toKeepsRank.steady hs) (hcached.refers hrefers) next

theorem rplProcessHbh_refers (sender : Linkaddr)
    (instanceId : UInt8) (senderRank : ℕ) (down fwdErr rankErrorSignaled : Bool) :
    (s.rplProcessHbh conf sender instanceId senderRank down fwdErr rankErrorSignaled).Refers := by
  have hpointed : ({ s with inst := { s.inst with
      unicastDioTarget := s.rplNeighborGetFromLladdr (some sender) } } : RplNode).Refers :=
    ⟨hrefers.preferredParent, hrefers.urgentProbingTarget,
      fun nbr hnbr ↦ (filter_eq_some_iff.mp hnbr).2, hrefers.locked⟩
  have hsteady : ({ s with inst := { s.inst with
      unicastDioTarget := s.rplNeighborGetFromLladdr (some sender) } } : RplNode).Steady :=
    hs.withInst rfl rfl rfl rfl rfl
  have hupdate : ∀ {t : RplNode} (nbr : ℕ), t.Steady → t.Refers →
      ((t.modifyItem rplNeighbors nbr ({ · with rank := senderRank })).rplDagUpdateState conf).Refers := by
    intro t nbr ht htrefers
    have hset := modifyRplNbr_keepsDag (s := t) nbr ({ · with rank := senderRank })
    exact rplDagUpdateState_refers (hset.toKeepsRank.steady ht) (hset.refers htrefers).loose
  unfold rplProcessHbh
  split
  · exact hrefers
  · dsimp only
    split
    · split
      · exact hpointed
      · exact hrefers
    · split
      · split
        · exact hupdate _ hsteady hpointed
        · exact hupdate _ hs hrefers
      · split
        · exact hpointed
        · exact hrefers

theorem handleProbingTimer_refers (lookForBest : Bool)
    (next : Autofill) : (s.handleProbingTimer conf lookForBest next).Refers := by
  have houtput : (s.output conf next).Refers := output_refers hs hrefers next
  unfold handleProbingTimer
  split
  · exact ⟨houtput.preferredParent, fun _ ↦ nofun, houtput.unicastDioTarget, houtput.locked⟩
  · exact hrefers

/-! ### Runs -/

end

/-- The two calls that do not respect the lock are not made: a global repair that fails, and the
update of an address for which the entry of the preferred parent is removed. -/
def RespectsLock (s : RplNode) : RplEvent → Prop
  | .dio _ _ dio => s.FailsRepair dio → s.inst.preferredParent = none
  | .updateLladdr oldAddr newAddr removeIfDuplicate => ∀ nbr,
      s.tables.duplicateKey oldAddr newAddr removeIfDuplicate = some nbr →
        s.inst.preferredParent ≠ some nbr
  | _ => True

/-- The pointers of the node are `NULL` or current entries of `rpl_neighbors`, and of these the
preferred parent is locked and no other. -/
structure PointersCurrent (s : RplNode) : Prop where
  preferredParent : ∀ nbr, s.inst.preferredParent = some nbr → nbr ∈ s.neighbors
  urgentProbingTarget : ∀ nbr, s.inst.urgentProbingTarget = some nbr → nbr ∈ s.neighbors
  unicastDioTarget : ∀ nbr, s.inst.unicastDioTarget = some nbr → nbr ∈ s.neighbors
  locked : ∀ nbr ∈ s.neighbors, s.tables.locks rplNeighbors nbr = true ↔
    s.inst.preferredParent = some nbr

theorem Refers.pointersCurrent (hrefers : s.Refers) (hsound : s.tables.Sound) :
    s.PointersCurrent := by
  have hlisted : ∀ nbr, s.tables.uses rplNeighbors nbr = true → nbr ∈ s.neighbors := fun nbr huses ↦
    mem_filter.mpr ⟨NbrTables.mem_of_uses hsound huses, huses⟩
  exact ⟨fun nbr hnbr ↦ hlisted nbr (hrefers.preferredParent nbr hnbr),
    fun nbr hnbr ↦ hlisted nbr (hrefers.urgentProbingTarget nbr hnbr),
    fun nbr hnbr ↦ hlisted nbr (hrefers.unicastDioTarget nbr hnbr), fun nbr _ ↦ hrefers.locked nbr⟩

theorem Refers.next {event : RplEvent} (hs : s.Steady) (hrefers : s.Refers)
    (hrespects : s.RespectsLock event) (hnext : s.next conf event = some t) : t.Refers := by
  have hsame : ∀ {inst : DagInstance}, inst.preferredParent = s.inst.preferredParent →
      inst.urgentProbingTarget = s.inst.urgentProbingTarget →
        inst.unicastDioTarget = s.inst.unicastDioTarget →
          ({ s with inst := inst } : RplNode).Refers := by
    intro inst hparent hurgent hunicast
    refine ⟨fun nbr hnbr ↦ hrefers.preferredParent nbr (hparent.symm.trans hnbr),
      fun nbr hnbr ↦ hrefers.urgentProbingTarget nbr (hurgent.symm.trans hnbr),
      fun nbr hnbr ↦ hrefers.unicastDioTarget nbr (hunicast.symm.trans hnbr), fun nbr ↦ ?_⟩
    exact (hrefers.locked nbr).trans (by rw [hparent])
  cases event with
  | dio sender ipaddr dio =>
    obtain rfl := some.inj hnext
    exact rplProcessDio_refers hs hrefers sender ipaddr hrespects
  | dis sender ipaddr isMulticast autofill =>
    obtain rfl := some.inj hnext
    exact rplProcessDis_refers hs hrefers sender ipaddr isMulticast autofill
  | hbh sender instanceId senderRank down fwdErr rankErrorSignaled =>
    obtain rfl := some.inj hnext
    exact rplProcessHbh_refers hs hrefers ..
  | output autofill =>
    obtain rfl := some.inj hnext
    exact output_refers hs hrefers autofill
  | stateUpdate =>
    obtain rfl := some.inj hnext
    exact rplDagUpdateState_refers hs hrefers.loose
  | probing lookForBest autofill =>
    obtain rfl := some.inj hnext
    exact handleProbingTimer_refers hs hrefers lookForBest autofill
  | leave autofill =>
    obtain ⟨-, ⟨⟩⟩ := ite_none_right_eq_some.mp hnext
    exact rplDagLeave_refers hs hrefers autofill
  | localRepair =>
    obtain rfl := some.inj hnext
    exact rplLocalRepair_refers hs hrefers.current fun _ ↦ hrefers
  | globalRepair =>
    obtain rfl := some.inj hnext
    exact rplGlobalRepair_refers hs hrefers
  | poison =>
    obtain rfl := some.inj hnext
    exact hsame rfl rfl rfl
  | reachable =>
    obtain ⟨-, ⟨⟩⟩ := ite_none_right_eq_some.mp hnext
    exact hsame rfl rfl rfl
  | initRoot dioConf dagId hasPrefix autofill =>
    obtain rfl := some.inj hnext
    exact rplDagRootInitDagImmediately_refers hs hrefers dioConf dagId hasPrefix autofill
  | tick ticks =>
    obtain rfl := some.inj hnext
    exact ⟨hrefers.preferredParent, hrefers.urgentProbingTarget, hrefers.unicastDioTarget,
      hrefers.locked⟩
  | updateLladdr oldAddr newAddr removeIfDuplicate =>
    obtain rfl := some.inj hnext
    exact refers_of_keeps (NbrTables.nbrTableUpdateLladdr_keeps ..) rfl hrespects hrefers
  | packetSent | packetInput | linkStatsPeriodic | nbrAdd | nbrRm | add | remove | lock | unlock =>
    exact (next_keepsDag hs.separate rfl hnext).refers hrefers

theorem Started.refers (hstart : s.Started) : s.Refers := by
  have hinst := hstart.inst
  refine Loose.refers ⟨?_, ?_, fun nbr hlocks ↦ ?_, ?_⟩ ?_
  · rw [hinst]
    intro nbr hnone
    cases hnone
  · rw [hinst]
    intro nbr hnone
    cases hnone
  · simp [NbrTables.locks, nbrGetBit, hstart.lockedMap] at hlocks
  · rw [hinst]
    intro nbr hnone
    cases hnone
  · rw [hinst]
    rfl

/-- In every run whose calls respect the lock of the preferred parent the pointers are right. -/
theorem pointersCurrent_of_run {events : List RplEvent} (hstart : s.Started)
    (hrun : Run (GuardedStepOf (next conf) RespectsLock) s events t) : t.PointersCurrent := by
  have hkept : t.Steady ∧ t.Refers := by
    refine hrun.invariant (P := fun s ↦ s.Steady ∧ s.Refers) (fun s event t hs hstep ↦ ?_)
      ⟨hstart.steady, hstart.refers⟩
    exact ⟨hs.1.next hstep.2, hs.2.next hs.1 hstep.1 hstep.2⟩
  exact hkept.2.pointersCurrent hkept.1.sound

instance (s : RplNode) (dio : RplDio) : Decidable (s.FailsRepair dio) := instDecidableAnd

instance (s : RplNode) (event : RplEvent) : Decidable (s.RespectsLock event) :=
  match event with
  | .dio _ _ dio => inferInstanceAs (Decidable (s.FailsRepair dio → s.inst.preferredParent = none))
  | .updateLladdr oldAddr newAddr removeIfDuplicate => decidable_of_iff
      ((s.tables.duplicateKey oldAddr newAddr removeIfDuplicate).all
        fun nbr ↦ decide (s.inst.preferredParent ≠ some nbr)) (by
          simp [RespectsLock, Option.all_eq_true])
  | .dis .. | .hbh .. | .output .. | .stateUpdate | .probing .. | .leave .. | .localRepair
  | .globalRepair | .poison | .reachable | .initRoot .. | .tick .. | .packetSent ..
  | .packetInput .. | .linkStatsPeriodic | .nbrAdd .. | .nbrRm .. | .add .. | .remove ..
  | .lock .. | .unlock .. => instDecidableTrue

theorem pointersCurrent_join :
    ∃ t, Run (GuardedStepOf (next clockConf) RespectsLock) bootNode joinEvents t ∧
      t.inst.preferredParent = some 0 ∧ t.PointersCurrent := by
  obtain ⟨t, hrun, hparent⟩ : ∃ t, Run (GuardedStepOf (next clockConf) RespectsLock) bootNode
      joinEvents t ∧ t.inst.preferredParent = some 0 := exists_guardedRun (by decide +kernel)
  exact ⟨t, hrun, hparent, pointersCurrent_of_run started_bootNode hrun⟩

/-- The root starts a new version with an objective function that the node does not know. -/
def failedRepairEvents : List RplEvent :=
  joinEvents ++ [.dio (fun _ ↦ 1) (fun _ ↦ 0xfe) { rootDio with version := 241, ocp := 0 }]

/-- The lock of the preferred parent stays when a global repair fails. -/
theorem not_pointersCurrent_failedRepair :
    ¬ ∀ (conf : ClockConf) (s t : RplNode) (events : List RplEvent), s.Started →
      Run (StepOf (next conf)) s events t → t.PointersCurrent := by
  intro hall
  obtain ⟨t, hrun, hnone, hlisted, hlocks⟩ : ∃ t, Run (StepOf (next clockConf)) bootNode
      failedRepairEvents t ∧ t.inst.preferredParent = none ∧ 0 ∈ t.neighbors ∧
        t.tables.locks rplNeighbors 0 := exists_run (by decide +kernel)
  have hcurrent := hall _ _ _ _ started_bootNode hrun
  cases hnone.symm.trans ((hcurrent.locked 0 hlisted).mp hlocks)

end ContikiMaster.Rpl.RplNode
