import ContikiMaster.Rpl.ParentChoice

/-!
# Rank discipline

After every update of a node that is not a root the node has no parent and an infinite rank, or an
acceptable parent and a rank above its rank by `min_hoprankinc` at least. The bound `max_rankinc`
is checked for the rank of the parent, so it is kept as far as every neighbour that passes the
check leads to a rank within the bound.
-/

namespace ContikiMaster.Rpl

open Lib Net Tsch List Option

/-- What an update of the node has to leave. -/
def Update.Disciplined (u : Update) : Prop :=
  (u.parent = none ∧ u.rank = rplInfiniteRank) ∨
    (u.parent ≠ none ∧ u.acceptable = true ∧ u.parentRank + u.minHoprankinc ≤ u.rank ∧
      u.parentRank < u.rank ∧ (u.maxRankinc ≠ 0 → u.rank ≤ u.lowest + u.maxRankinc))

/-- What every update leaves, whatever the bound is. -/
def Update.FollowsParent (u : Update) : Prop :=
  (u.parent = none ∧ u.rank = rplInfiniteRank) ∨
    (u.parent ≠ none ∧ u.acceptable = true ∧ u.parentRank + u.minHoprankinc ≤ u.rank ∧
      u.parentRank < u.rank)

/-- There is no bound or no parent yet, or the neighbours that pass the check of their own rank lead
to ranks that pass it, too. -/
def Update.AdmitsWithinBound (u : Update) : Prop :=
  u.maxRankinc = 0 ∨ u.parentBefore = none ∨ u.admitsOnly = true

instance (u : Update) : Decidable u.Disciplined := instDecidableOr

instance (u : Update) : Decidable u.AdmitsWithinBound := instDecidableOr

namespace RplNode

variable {conf : ClockConf} {s t : RplNode} {nbr : ℕ}

/-- What holds between two events: without an instance or as a root the node has no parent, and the
two records of the lowest rank agree. -/
structure Steady (s : RplNode) : Prop where
  separate : s.Separate
  sound : s.tables.Sound
  etxFloor : s.EtxFloor
  unused : s.inst.used = false → s.inst.preferredParent = none
  rank : s.inst.preferredParent ≠ none → s.inst.rank ≠ s.inst.minHoprankinc
  lowest : s.inst.preferredParent ≠ none → s.inst.lowestRank = s.lowest
  updates : ∀ u ∈ s.updates, u.FollowsParent ∧ (u.AdmitsWithinBound → u.Disciplined)

theorem KeepsRank.steady (hkeeps : KeepsRank s t) (hs : s.Steady) : t.Steady := by
  have hpart {β : Type} (part : DagInstance → β) := congrArg part hkeeps.inst
  have hparent : t.inst.preferredParent = s.inst.preferredParent :=
    hpart DagInstance.preferredParent
  have hused : t.inst.used = s.inst.used := hpart DagInstance.used
  have hrank : t.inst.rank = s.inst.rank := hpart DagInstance.rank
  have hmin : t.inst.minHoprankinc = s.inst.minHoprankinc := hpart DagInstance.minHoprankinc
  have hlowest : t.inst.lowestRank = s.inst.lowestRank := hpart DagInstance.lowestRank
  constructor
  · exact hkeeps.separate hs.separate
  · exact hkeeps.sound hs.sound
  · exact hkeeps.etxFloor hs.etxFloor
  · rw [hused, hparent]
    exact hs.unused
  · rw [hparent, hrank, hmin]
    exact hs.rank
  · rw [hparent, hlowest, hkeeps.lowest]
    exact hs.lowest
  · rw [hkeeps.updates]
    exact hs.updates

theorem Steady.root (hs : s.Steady) (hroot : s.isRoot = true) : s.inst.preferredParent = none := by
  by_contra hparent
  unfold isRoot at hroot
  rw [Bool.and_eq_true, beq_iff_eq] at hroot
  exact hs.rank hparent hroot.2

/-! ### One update -/

theorem updateParent_separate (hs : s.Separate) : (s.updateParent conf).Separate := by
  have hspec : UpdatesParent conf s _ := updateParent_spec s
  have hindex := hspec.index
  obtain ⟨hstats, hds6, hothers⟩ := hs
  constructor
  · simpa only [NbrTables.Distinct, hindex] using hstats
  · simpa only [NbrTables.Distinct, hindex] using hds6
  · simpa only [NbrTables.Distinct, hindex] using hothers

theorem updateParent_uses (table nbr : ℕ) :
    (s.updateParent conf).tables.uses table nbr = s.tables.uses table nbr := by
  have hspec : UpdatesParent conf s _ := updateParent_spec s
  rw [NbrTables.uses, NbrTables.uses, hspec.index, hspec.used_map]

theorem updateParent_etxFloor (hs : s.EtxFloor) : (s.updateParent conf).EtxFloor := by
  intro nbr huses
  rw [updateParent_uses] at huses
  rw [(updateParent_spec s).stats]
  exact hs nbr huses

theorem updateParent_sound (hs : s.tables.Sound) : (s.updateParent conf).tables.Sound := by
  have hchosen : (s.withParent conf).tables.Sound := by
    unfold withParent
    refine rplNeighborSetPreferredParent_sound hs fun nbr hnbr ↦ ?_
    exact uses_of_mem_neighbors (rplNeighborSelectBest_spec.1 nbr hnbr).1
  have hdata : NbrTables.Releases (s.withParent conf).tables (s.updateParent conf).tables :=
    ⟨rfl, rfl, fun _ ↦ id, fun _ ↦ id⟩
  exact hdata.sound hchosen

variable {best : ℕ} {inst : DagInstance}

theorem updateParent_parent (hs : s.EtxFloor)
    (hbest : (s.rplNeighborSelectBest conf).1 = some best) :
    (s.updateParent conf).admits best = true ∧
      ((s.updateParent conf).rplNbr best).rank + (s.updateParent conf).inst.minHoprankinc ≤
        (s.updateParent conf).inst.rank ∧
      ((s.updateParent conf).rplNbr best).rank < (s.updateParent conf).inst.rank ∧
        (s.updateParent conf).inst.minHoprankinc < (s.updateParent conf).inst.rank := by
  have hspec : UpdatesParent conf s _ := updateParent_spec s
  have hadmits := (rplNeighborSelectBest_spec.1 best hbest).2
  obtain ⟨hbelow, hless, hmin⟩ := admits_rankViaNbr hs hadmits
  have hrank : (s.updateParent conf).inst.rank = s.rankViaNbr (some best) := by
    rw [hspec.rank, hbest]
  refine ⟨?_, ?_, ?_, ?_⟩
  · unfold admits at hadmits ⊢
    rw [Bool.and_eq_true] at hadmits ⊢
    obtain ⟨haccepts, hparent⟩ := hadmits
    obtain ⟨hfinite, hatLeast, hbound⟩ := of_decide_eq_true haccepts
    refine ⟨decide_eq_true ?_, (hspec.acceptable best).trans hparent⟩
    rw [hspec.nbrRank, hspec.minHoprankinc, hspec.maxRankinc, hspec.lowestRank]
    refine ⟨hfinite, hatLeast, hbound.imp_right fun hle ↦ ?_⟩
    split
    · omega
    · exact hle
  · rw [hspec.nbrRank, hspec.minHoprankinc, hrank]
    exact hbelow
  · rw [hspec.nbrRank, hrank]
    exact hless
  · rw [hspec.minHoprankinc, hrank]
    exact hmin

theorem updateParent_lowest (hs : s.Steady)
    (hparent : (s.updateParent conf).inst.preferredParent ≠ none) :
    (s.updateParent conf).inst.lowestRank = ((s.updateParent conf).noteUpdate s).lowest := by
  have hspec : UpdatesParent conf s _ := updateParent_spec s
  unfold noteUpdate
  dsimp only
  rw [if_neg hparent, hspec.lowestRank]
  by_cases hbefore : s.inst.preferredParent = none
  · rw [if_pos (Or.inl hbefore), if_pos hbefore]
  · rw [if_neg hbefore, ← hs.lowest hbefore]
    by_cases hlower : (s.updateParent conf).inst.rank < s.inst.lowestRank
    · rw [if_pos (Or.inr hlower), min_eq_right hlower.le]
    · rw [if_neg (not_or.mpr ⟨hbefore, hlower⟩), min_eq_left (not_lt.mp hlower)]

theorem updateParent_bound (hbest : (s.rplNeighborSelectBest conf).1 = some best)
    (hadmits : s.inst.preferredParent = none ∨
      ((s.neighbors.filter s.admits).all fun nbr ↦
        s.acceptableRank (s.rankViaNbr (some nbr))) = true)
    (hmax : (s.updateParent conf).inst.maxRankinc ≠ 0) : (s.updateParent conf).inst.rank ≤
      (s.updateParent conf).inst.lowestRank + (s.updateParent conf).inst.maxRankinc := by
  have hspec : UpdatesParent conf s _ := updateParent_spec s
  rw [hspec.lowestRank]
  rw [hspec.maxRankinc] at hmax ⊢
  split
  · exact Nat.le_add_right _ _
  · rename_i hkept
    rw [not_or] at hkept
    have hall := hadmits.resolve_left hkept.1
    rw [List.all_eq_true] at hall
    have haccepts := hall best (mem_filter.mpr (rplNeighborSelectBest_spec.1 best hbest))
    have hbound := (of_decide_eq_true haccepts).2.2.resolve_left hmax
    rw [hspec.rank, hbest]
    exact hbound

theorem updateParent_updates (hs : s.Steady) :
    ∀ u ∈ ((s.updateParent conf).noteUpdate s).updates,
      u.FollowsParent ∧ (u.AdmitsWithinBound → u.Disciplined) := by
  have hspec : UpdatesParent conf s _ := updateParent_spec s
  intro u hu
  unfold noteUpdate at hu
  rw [hspec.history.2] at hu
  rcases mem_append.mp hu with hbefore | hnew
  · exact hs.updates u hbefore
  · rw [mem_singleton] at hnew
    subst hnew
    cases hbest : (s.rplNeighborSelectBest conf).1 with
    | none =>
      have hparent : (s.updateParent conf).inst.preferredParent = none :=
        hspec.preferredParent.trans hbest
      have hrank : (s.updateParent conf).inst.rank = rplInfiniteRank := by
        rw [hspec.rank, hbest]
        rfl
      exact ⟨Or.inl ⟨hparent, hrank⟩, fun _ ↦ Or.inl ⟨hparent, hrank⟩⟩
    | some best =>
      have hparent : (s.updateParent conf).inst.preferredParent = some best :=
        hspec.preferredParent.trans hbest
      have hsome : (s.updateParent conf).inst.preferredParent ≠ none := by
        rw [hparent]
        exact nofun
      obtain ⟨hacceptable, hbelow, hless, -⟩ := updateParent_parent hs.etxFloor hbest
      have hparts : ((s.updateParent conf).inst.preferredParent.any
            (s.updateParent conf).admits = true) ∧
          (s.updateParent conf).inst.preferredParent.elim 0
              (fun nbr ↦ ((s.updateParent conf).rplNbr nbr).rank) +
            (s.updateParent conf).inst.minHoprankinc ≤ (s.updateParent conf).inst.rank ∧
          (s.updateParent conf).inst.preferredParent.elim 0
              (fun nbr ↦ ((s.updateParent conf).rplNbr nbr).rank) <
            (s.updateParent conf).inst.rank := by
        rw [hparent]
        exact ⟨hacceptable, hbelow, hless⟩
      refine ⟨Or.inr ⟨hsome, hparts⟩,
        fun hadmits ↦ Or.inr ⟨hsome, hparts.1, hparts.2.1, hparts.2.2, fun hmax ↦ ?_⟩⟩
      change _ ≤ ((s.updateParent conf).noteUpdate s).lowest + _
      rw [← updateParent_lowest hs hsome]
      exact updateParent_bound hbest (hadmits.resolve_left hmax) hmax

theorem updateParent_steady (hs : s.Steady) (hused : s.inst.used = true) :
    ((s.updateParent conf).noteUpdate s).Steady := by
  have hspec : UpdatesParent conf s _ := updateParent_spec s
  constructor
  · have hseparate : (s.updateParent conf).Separate := updateParent_separate hs.separate
    exact ⟨hseparate.linkStats, hseparate.ds6Neighbors, hseparate.others⟩
  · exact updateParent_sound hs.sound
  · exact updateParent_etxFloor hs.etxFloor
  · intro hunused
    have hsame : (s.updateParent conf).inst.used = s.inst.used := hspec.used
    rw [hused] at hsame
    exact absurd (hsame.symm.trans hunused) Bool.noConfusion
  · intro hparent
    have hparent' : (s.updateParent conf).inst.preferredParent ≠ none := hparent
    rw [hspec.preferredParent] at hparent'
    obtain ⟨best, hbest⟩ := ne_none_iff_exists'.mp hparent'
    exact (updateParent_parent hs.etxFloor hbest).2.2.2.ne'
  · exact fun hparent ↦ updateParent_lowest hs hparent
  · exact updateParent_updates hs

theorem poison_steady (hs : s.Steady) :
    (({ s.rplNeighborSetPreferredParent none with
      inst := { (s.rplNeighborSetPreferredParent none).inst with
        rank := rplInfiniteRank } } : RplNode).noteUpdate s).Steady := by
  have hsound : (s.rplNeighborSetPreferredParent none).tables.Sound :=
    rplNeighborSetPreferredParent_sound hs.sound fun _ ↦ nofun
  rw [rplNeighborSetPreferredParent_eq] at hsound ⊢
  constructor
  · exact ⟨hs.separate.linkStats, hs.separate.ds6Neighbors, hs.separate.others⟩
  · exact hsound
  · exact hs.etxFloor
  · exact fun _ ↦ rfl
  · exact fun hparent ↦ absurd rfl hparent
  · exact fun hparent ↦ absurd rfl hparent
  · intro u hu
    rcases mem_append.mp hu with hbefore | hnew
    · exact hs.updates u hbefore
    · rw [mem_singleton] at hnew
      subst hnew
      exact ⟨Or.inl ⟨rfl, rfl⟩, fun _ ↦ Or.inl ⟨rfl, rfl⟩⟩

theorem rplDagUpdateState_steady (hs : s.Steady) : (s.rplDagUpdateState conf).Steady := by
  unfold rplDagUpdateState
  split
  · exact hs
  · rename_i hused
    split
    · exact poison_steady hs
    · split
      · exact hs
      · exact updateParent_steady hs (by simpa using hused)

theorem output_steady (hs : s.Steady) (next : Autofill) : (s.output conf next).Steady := by
  have hupdated : (s.rplDagUpdateState conf).Steady := rplDagUpdateState_steady hs
  exact (autofill_keepsDag hupdated.separate next).toKeepsRank.steady hupdated

/-! ### Repairs -/

theorem removeNeighbor_keepsRank (s : RplNode) (nbr : ℕ) : KeepsRank s (s.removeNeighbor nbr) := by
  have hshrinks : NbrTables.Shrinks linkStats s.tables (s.removeNeighbor nbr).tables :=
    NbrTables.nbrTableRemove_shrinks (some nbr)
  exact ⟨rfl, rfl, rfl, hshrinks.index, etxFloor_of_shrinks hshrinks,
    (NbrTables.nbrTableRemove_releases rplNeighbors (some nbr)).sound⟩

theorem foldl_removeNeighbor_keepsRank (nbrs : List ℕ) (s : RplNode) :
    KeepsRank s (nbrs.foldl removeNeighbor s) := by
  induction nbrs generalizing s with
  | nil => exact KeepsRank.refl s
  | cons nbr nbrs ih => exact (removeNeighbor_keepsRank s nbr).trans (ih _)

theorem rplNeighborRemoveAll_steady (hs : s.Steady) : (s.rplNeighborRemoveAll conf).Steady :=
  rplDagUpdateState_steady ((foldl_removeNeighbor_keepsRank s.neighbors s).steady hs)

theorem Steady.withInst (hs : s.Steady) (hused : inst.used = s.inst.used)
    (hparent : inst.preferredParent = s.inst.preferredParent) (hrank : inst.rank = s.inst.rank)
    (hmin : inst.minHoprankinc = s.inst.minHoprankinc)
    (hlowest : inst.lowestRank = s.inst.lowestRank) :
    ({ s with inst := inst } : RplNode).Steady := by
  constructor
  · exact ⟨hs.separate.linkStats, hs.separate.ds6Neighbors, hs.separate.others⟩
  · exact hs.sound
  · exact hs.etxFloor
  · change inst.used = false → inst.preferredParent = none
    rw [hused, hparent]
    exact hs.unused
  · change inst.preferredParent ≠ none → inst.rank ≠ inst.minHoprankinc
    rw [hparent, hrank, hmin]
    exact hs.rank
  · change inst.preferredParent ≠ none → inst.lowestRank = s.lowest
    rw [hparent, hlowest]
    exact hs.lowest
  · exact hs.updates

theorem Steady.withoutParent (hs : s.Steady) (hparent : inst.preferredParent = none) :
    ({ s with inst := inst } : RplNode).Steady := by
  constructor
  · exact ⟨hs.separate.linkStats, hs.separate.ds6Neighbors, hs.separate.others⟩
  · exact hs.sound
  · exact hs.etxFloor
  · exact fun _ ↦ hparent
  · exact fun hne ↦ absurd hparent hne
  · exact fun hne ↦ absurd hparent hne
  · exact hs.updates

theorem rplLocalRepair_steady (hs : s.Steady) : (s.rplLocalRepair conf).Steady := by
  have hrepair : ∀ {t : RplNode}, t.Steady → (t.linkStatsReset.rplNeighborRemoveAll conf).Steady := by
    intro t ht
    exact rplNeighborRemoveAll_steady ((linkStatsReset_keeps ht.separate).1.toKeepsRank.steady ht)
  unfold rplLocalRepair
  split
  · apply hrepair
    split
    · exact hs
    · exact hs.withInst rfl rfl rfl rfl rfl
  · exact hs

theorem rplGlobalRepair_steady (hs : s.Steady) : (s.rplGlobalRepair conf).Steady := by
  unfold rplGlobalRepair
  split
  · apply rplLocalRepair_steady
    exact hs.withInst rfl rfl rfl rfl rfl
  · exact hs

theorem initDag_preferredParent (instanceId : UInt8) (dagId : AddressBytes) (ocp : UInt16)
    (hasPrefix : Bool) (prefixLen : ℕ) (prefixFlags : UInt8) :
    (initDag instanceId dagId ocp hasPrefix prefixLen prefixFlags).2.untargeted =
      (initDag instanceId dagId ocp hasPrefix prefixLen prefixFlags).2 ∧
    (initDag instanceId dagId ocp hasPrefix prefixLen prefixFlags).2.preferredParent = none := by
  unfold initDag
  split
  · exact ⟨rfl, rfl⟩
  · split
    · exact ⟨rfl, rfl⟩
    · exact ⟨rfl, rfl⟩

theorem initDagFromDio_pointers (dio : RplDio) :
    (initDagFromDio dio).2.untargeted = (initDagFromDio dio).2 ∧
      (initDagFromDio dio).2.preferredParent = none := by
  have hinit := initDag_preferredParent dio.instanceId dio.dagId dio.ocp true
    dio.prefixInfo.length.toNat dio.prefixInfo.flags
  unfold initDagFromDio
  rcases hinst : initDag dio.instanceId dio.dagId dio.ocp true dio.prefixInfo.length.toNat
    dio.prefixInfo.flags with ⟨_ | _, inst⟩
  · rw [hinst] at hinit
    exact hinit
  · rw [hinst] at hinit
    refine ⟨?_, hinit.2⟩
    dsimp only at hinit ⊢
    rw [← hinit.1]
    rfl

theorem globalRepairNonRoot_steady (hs : s.Steady) (dio : RplDio) :
    (s.globalRepairNonRoot conf dio).Steady := by
  unfold globalRepairNonRoot
  split
  · exact hs
  · apply rplLocalRepair_steady
    exact hs.withoutParent (initDagFromDio_pointers dio).2

theorem repairForDio_steady (hs : s.Steady) (dio : RplDio) : (s.repairForDio conf dio).Steady := by
  unfold repairForDio
  split
  · split
    · apply rplGlobalRepair_steady
      exact hs.withInst rfl rfl rfl rfl rfl
    · exact globalRepairNonRoot_steady hs dio
  · exact hs

theorem removeNeighbor_uses (hindex : (s.tables.table rplNeighbors).index < 8) (nbr i : ℕ) :
    (s.removeNeighbor nbr).tables.uses rplNeighbors i =
      (decide (i ≠ nbr) && s.tables.uses rplNeighbors i) := by
  have hbit : (s.removeNeighbor nbr).tables.uses rplNeighbors i =
      if i = nbr ∧ (s.tables.table rplNeighbors).index = (s.tables.table rplNeighbors).index
      then false else s.tables.uses rplNeighbors i := nbrGetBit_nbrSetBit hindex hindex
  rw [hbit]
  by_cases hi : i = nbr
  · simp [hi]
  · simp [hi]

theorem foldl_removeNeighbor_uses {nbrs : List ℕ} {i : ℕ}
    (hindex : (s.tables.table rplNeighbors).index < 8)
    (huses : (nbrs.foldl removeNeighbor s).tables.uses rplNeighbors i = true) :
    i ∉ nbrs ∧ s.tables.uses rplNeighbors i = true := by
  induction nbrs generalizing s with
  | nil => exact ⟨not_mem_nil, huses⟩
  | cons nbr nbrs ih =>
    obtain ⟨hrest, hi⟩ := ih (s := s.removeNeighbor nbr) hindex huses
    rw [removeNeighbor_uses hindex, Bool.and_eq_true, decide_eq_true_eq] at hi
    exact ⟨fun hmem ↦ (mem_cons.mp hmem).elim hi.1 hrest, hi.2⟩

theorem foldl_removeNeighbor_keys (nbrs : List ℕ) (s : RplNode) :
    (nbrs.foldl removeNeighbor s).tables.nbrTableKeys = s.tables.nbrTableKeys := by
  induction nbrs generalizing s with
  | nil => rfl
  | cons nbr nbrs ih => exact ih (s.removeNeighbor nbr)

theorem neighbors_removed (hindex : (s.tables.table rplNeighbors).index < 8) :
    (s.neighbors.foldl removeNeighbor s).neighbors = [] := by
  unfold neighbors
  rw [foldl_removeNeighbor_keys, filter_eq_nil_iff]
  intro nbr hkey huses
  obtain ⟨hremoved, hused⟩ := foldl_removeNeighbor_uses hindex huses
  exact hremoved (mem_filter.mpr ⟨hkey, hused⟩)

section

variable (hs : s.Steady)

include hs

theorem rplDagUpdateState_alone (hnone : s.neighbors = []) :
    (s.rplDagUpdateState conf).inst.preferredParent = none := by
  unfold rplDagUpdateState
  split
  · rename_i hunused
    exact hs.unused (by simpa using hunused)
  · split
    · change (s.rplNeighborSetPreferredParent none).inst.preferredParent = none
      rw [rplNeighborSetPreferredParent_eq]
    · split
      · rename_i hroot
        exact hs.root hroot
      · change (s.updateParent conf).inst.preferredParent = none
        rw [(updateParent_spec s).preferredParent]
        by_contra hne
        obtain ⟨best, hbest⟩ := ne_none_iff_exists'.mp hne
        have hmem := (rplNeighborSelectBest_spec.1 best hbest).1
        rw [hnone] at hmem
        cases hmem

theorem rplNeighborRemoveAll_parent : (s.rplNeighborRemoveAll conf).inst.preferredParent = none :=
  rplDagUpdateState_alone ((foldl_removeNeighbor_keepsRank s.neighbors s).steady hs)
    (neighbors_removed hs.separate.linkStats.1)

theorem leaving_steady (next : Autofill) :
    (if s.isRoot then s else s.output conf next).Steady := by
  split
  · exact hs
  · exact output_steady hs next

theorem rplDagLeave_steady (next : Autofill) : (s.rplDagLeave conf next).Steady := by
  have hleaving : (if s.isRoot then s else s.output conf next).Steady := leaving_steady hs next
  have hreset := (linkStatsReset_keeps hleaving.separate).1.toKeepsRank.steady hleaving
  unfold rplDagLeave
  exact (rplNeighborRemoveAll_steady hreset).withoutParent (rplNeighborRemoveAll_parent hreset)

theorem rplDagRootInitDagImmediately_steady (dioConf : DioConf)
    (dagId : AddressBytes) (hasPrefix : Bool) (next : Autofill) :
    (s.rplDagRootInitDagImmediately conf dioConf dagId hasPrefix next).Steady := by
  have hinit := (initDag_preferredParent 0 dagId dioConf.ofOcp hasPrefix 64
    uipNd6RaFlagAutonomous).2
  have hleft : (if s.inst.used then s.rplDagLeave conf next else s).Steady := by
    split
    · exact rplDagLeave_steady hs next
    · exact hs
  unfold rplDagRootInitDagImmediately
  exact rplDagUpdateState_steady (hleft.withoutParent hinit)

theorem processDioFromCurrentDag_steady (sender : Linkaddr) (ipaddr : AddressBytes) (dio : RplDio) :
    (s.processDioFromCurrentDag conf sender ipaddr dio).Steady := by
  have hrepaired : (s.repairForDio conf dio).Steady := repairForDio_steady hs dio
  have hcached := rplIcmp6UpdateNbrTable_keepsDag hrepaired.separate sender ipaddr (.rplDio dio)
  unfold processDioFromCurrentDag
  split
  · exact hs
  · split
    · exact hs
    · rcases hupdated : (s.repairForDio conf dio).rplIcmp6UpdateNbrTable sender ipaddr (.rplDio dio)
        with ⟨_ | nbr, t⟩
      · rw [hupdated] at hcached
        exact hcached.toKeepsRank.steady hrepaired
      · rw [hupdated] at hcached
        have ht : t.Steady := hcached.toKeepsRank.steady hrepaired
        exact (updateNbrFromDio_keepsDag ht.separate ipaddr dio).toKeepsRank.steady ht

theorem processDioOfInstance_steady (sender : Linkaddr) (ipaddr : AddressBytes)
    (dio : RplDio) : (s.processDioOfInstance conf sender ipaddr dio).Steady := by
  unfold processDioOfInstance
  split
  · exact rplDagUpdateState_steady (processDioFromCurrentDag_steady hs sender ipaddr dio)
  · exact hs

theorem processDioInitDag_steady (dio : RplDio) : (s.processDioInitDag dio).2.Steady := by
  unfold processDioInitDag
  split
  · exact hs
  · exact hs.withoutParent (initDagFromDio_pointers dio).2

theorem rplProcessDio_steady (sender : Linkaddr) (ipaddr : AddressBytes)
    (dio : RplDio) : (s.rplProcessDio conf sender ipaddr dio).Steady := by
  have hjoined := processDioInitDag_steady hs dio
  unfold rplProcessDio
  split
  · rcases hinit : s.processDioInitDag dio with ⟨_ | _, t⟩
    · rw [hinit] at hjoined
      exact hjoined
    · rw [hinit] at hjoined
      exact processDioOfInstance_steady hjoined sender ipaddr dio
  · exact processDioOfInstance_steady hs sender ipaddr dio

theorem rplProcessDis_steady (sender : Linkaddr) (ipaddr : AddressBytes)
    (isMulticast : Bool) (next : Autofill) :
    (s.rplProcessDis conf sender ipaddr isMulticast next).Steady := by
  have hcached := rplIcmp6UpdateNbrTable_keepsDag hs.separate sender ipaddr .rplDis
  unfold rplProcessDis
  split
  · exact hs
  · rcases hupdated : s.rplIcmp6UpdateNbrTable sender ipaddr .rplDis with ⟨_ | nbr, t⟩
    · rw [hupdated] at hcached
      exact hcached.toKeepsRank.steady hs
    · rw [hupdated] at hcached
      exact output_steady (hcached.toKeepsRank.steady hs) next

theorem rplProcessHbh_steady (sender : Linkaddr) (instanceId : UInt8)
    (senderRank : ℕ) (down fwdErr rankErrorSignaled : Bool) :
    (s.rplProcessHbh conf sender instanceId senderRank down fwdErr rankErrorSignaled).Steady := by
  have hpointed : ∀ nbr : Option ℕ,
      ({ s with inst := { s.inst with unicastDioTarget := nbr } } : RplNode).Steady :=
    fun nbr ↦ hs.withInst rfl rfl rfl rfl rfl
  have hset : ∀ {t : RplNode} (nbr : ℕ), t.Steady →
      (t.modifyItem rplNeighbors nbr ({ · with rank := senderRank })).Steady :=
    fun nbr ht ↦ (modifyRplNbr_keepsDag nbr _).toKeepsRank.steady ht
  unfold rplProcessHbh
  split
  · exact hs
  · dsimp only
    split
    · split
      · exact hpointed _
      · exact hs
    · split
      · apply rplDagUpdateState_steady
        apply hset
        split
        · exact hpointed _
        · exact hs
      · split
        · exact hpointed _
        · exact hs

theorem handleProbingTimer_steady (lookForBest : Bool) (next : Autofill) :
    (s.handleProbingTimer conf lookForBest next).Steady := by
  unfold handleProbingTimer
  split
  · exact (output_steady hs next).withInst rfl rfl rfl rfl rfl
  · exact hs

/-! ### Runs -/

end

theorem Steady.next {event : RplEvent} (hs : s.Steady) (hnext : s.next conf event = some t) :
    t.Steady := by
  cases event with
  | dio sender ipaddr dio =>
    obtain rfl := some.inj hnext
    exact rplProcessDio_steady hs sender ipaddr dio
  | dis sender ipaddr isMulticast autofill =>
    obtain rfl := some.inj hnext
    exact rplProcessDis_steady hs sender ipaddr isMulticast autofill
  | hbh sender instanceId senderRank down fwdErr rankErrorSignaled =>
    obtain rfl := some.inj hnext
    exact rplProcessHbh_steady hs ..
  | output autofill =>
    obtain rfl := some.inj hnext
    exact output_steady hs autofill
  | stateUpdate =>
    obtain rfl := some.inj hnext
    exact rplDagUpdateState_steady hs
  | probing lookForBest autofill =>
    obtain rfl := some.inj hnext
    exact handleProbingTimer_steady hs lookForBest autofill
  | leave autofill =>
    obtain ⟨-, ⟨⟩⟩ := ite_none_right_eq_some.mp hnext
    exact rplDagLeave_steady hs autofill
  | localRepair =>
    obtain rfl := some.inj hnext
    exact rplLocalRepair_steady hs
  | globalRepair =>
    obtain rfl := some.inj hnext
    exact rplGlobalRepair_steady hs
  | poison =>
    obtain rfl := some.inj hnext
    exact hs.withInst rfl rfl rfl rfl rfl
  | reachable =>
    obtain ⟨-, ⟨⟩⟩ := ite_none_right_eq_some.mp hnext
    exact hs.withInst rfl rfl rfl rfl rfl
  | initRoot dioConf dagId hasPrefix autofill =>
    obtain rfl := some.inj hnext
    exact rplDagRootInitDagImmediately_steady hs dioConf dagId hasPrefix autofill
  | tick ticks =>
    obtain rfl := some.inj hnext
    exact ⟨⟨hs.separate.linkStats, hs.separate.ds6Neighbors, hs.separate.others⟩, hs.sound,
      hs.etxFloor, hs.unused, hs.rank, hs.lowest, hs.updates⟩
  | updateLladdr oldAddr newAddr removeIfDuplicate =>
    obtain rfl := some.inj hnext
    exact (updateLladdr_keepsRank oldAddr newAddr removeIfDuplicate).steady hs
  | packetSent | packetInput | linkStatsPeriodic | nbrAdd | nbrRm | add | remove | lock | unlock =>
    exact (next_keepsDag hs.separate rfl hnext).toKeepsRank.steady hs

theorem Started.uses (hstart : s.Started) (table nbr : ℕ) : s.tables.uses table nbr = false := by
  simp [NbrTables.uses, nbrGetBit, hstart.usedMap]

theorem Started.sound (hstart : s.Started) : s.tables.Sound := by
  constructor
  · rw [hstart.keys]
    exact nodup_nil
  · rw [hstart.keys]
    exact fun _ ↦ nofun
  · rw [hstart.keys]
    exact List.Pairwise.nil
  · rw [hstart.usedMap]
    exact fun _ hne ↦ absurd rfl hne
  · rw [hstart.lockedMap]
    exact fun _ hne ↦ absurd rfl hne

theorem Started.steady (hstart : s.Started) : s.Steady := by
  constructor
  · exact ⟨hstart.linkStats, hstart.ds6Neighbors, hstart.others⟩
  · exact hstart.sound
  · intro nbr huses
    rw [hstart.uses] at huses
    cases huses
  · rw [hstart.inst]
    exact fun _ ↦ rfl
  · rw [hstart.inst]
    exact fun hne ↦ absurd rfl hne
  · rw [hstart.inst]
    exact fun hne ↦ absurd rfl hne
  · rw [hstart.updates]
    exact fun _ ↦ nofun

theorem steady_of_run {events : List RplEvent} (hstart : s.Started)
    (hrun : Run (StepOf (next conf)) s events t) : t.Steady :=
  hrun.invariant (fun _ _ _ hs hstep ↦ hs.next hstep) hstart.steady

/-- In every run each update leaves no parent, or an acceptable one and a rank above its rank; and
each update whose candidates lead to ranks within the bound is disciplined. -/
theorem disciplined_of_run {events : List RplEvent} (hstart : s.Started)
    (hrun : Run (StepOf (next conf)) s events t) :
    ∀ u ∈ t.updates, u.FollowsParent ∧ (u.AdmitsWithinBound → u.Disciplined) :=
  (steady_of_run hstart hrun).updates

def clockConf : ClockConf := ⟨2 ^ 32, 128⟩

/-- A node with four blocks for neighbours after its start. -/
def bootNode : RplNode where
  clock := 0
  inst := .cleared
  tables := (((NbrTables.init 4).nbrTableRegister rplNeighbors true).2.nbrTableRegister
    linkStats false).2.nbrTableRegister ds6Neighbors true |>.2
  lowest := 0
  updates := []

theorem started_bootNode : bootNode.Started where
  tables := ⟨4, rfl⟩
  keys := rfl
  usedMap := rfl
  lockedMap := rfl
  linkStats := by unfold NbrTables.Distinct; decide
  ds6Neighbors := by unfold NbrTables.Distinct; decide
  others := by unfold NbrTables.Distinct; decide
  inst := rfl
  updates := rfl

/-- The DIO of a root with `max_rankinc` 256. -/
def rootDio : RplDio :=
  let dagPrefix : RplPrefix := ⟨fun _ ↦ 0xfd, 0, 64, uipNd6RaFlagAutonomous⟩
  { dagId := fun _ ↦ 0xfd, ocp := rplOcpMrhof, rank := 128, grounded := 0, mop := 1,
    preference := 0, version := 240, instanceId := 30, dtsn := 240, dagIntdoubl := 8,
    dagIntmin := 12, dagRedund := 0, defaultLifetime := 30, lifetimeUnit := 60,
    dagMaxRankinc := 256, dagMinHoprankinc := 128, destinationPrefix := dagPrefix,
    prefixInfo := dagPrefix, mc := ⟨0, 0, 0, 0, 0, .zero⟩ }

def joinEvents : List RplEvent :=
  [.packetInput (fun _ ↦ 1) (-60), .packetSent (fun _ ↦ 1) .ok 4,
    .dio (fun _ ↦ 1) (fun _ ↦ 0xfe) rootDio]

/-- After the join a packet to the root is not acknowledged. -/
def degradedEvents : List RplEvent :=
  joinEvents ++ [.packetSent (fun _ ↦ 1) .noack 1, .stateUpdate]

theorem disciplined_join :
    ∃ t, Run (StepOf (next clockConf)) bootNode joinEvents t ∧
      t.updates.length = 1 ∧
        ∀ u ∈ t.updates, u.FollowsParent ∧ (u.AdmitsWithinBound → u.Disciplined) := by
  obtain ⟨t, hrun, hlength⟩ : ∃ t, Run (StepOf (next clockConf)) bootNode joinEvents t ∧
      t.updates.length = 1 := exists_run (by decide +kernel)
  exact ⟨t, hrun, hlength, disciplined_of_run started_bootNode hrun⟩

/-- The rank grows by more than `max_rankinc` when the link to the parent gets worse. -/
theorem not_disciplined_degraded :
    ¬ ∀ (conf : ClockConf) (s t : RplNode) (events : List RplEvent), s.Started →
      Run (StepOf (next conf)) s events t → ∀ u ∈ t.updates, u.Disciplined := by
  intro hall
  obtain ⟨t, hrun, u, hu, hundisciplined⟩ : ∃ t, Run (StepOf (next clockConf)) bootNode
      degradedEvents t ∧ ∃ u ∈ t.updates, ¬ u.Disciplined := exists_run (by decide +kernel)
  exact hundisciplined (hall _ _ _ _ started_bootNode hrun u hu)

end RplNode

end ContikiMaster.Rpl
