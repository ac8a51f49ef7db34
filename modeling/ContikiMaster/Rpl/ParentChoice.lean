import ContikiMaster.Rpl.DagCalls
import Mathlib.Data.List.MinMax

/-!
# The choice of the parent

What `rpl_neighbor_select_best` gives and what `rpl_dag_update_state` makes of it: the parent is a
neighbour that `best_parent` does not exclude, and the rank of the node is the rank via it, which is
above the rank of the parent by at least `min_hoprankinc`.
-/

namespace ContikiMaster.Rpl.RplNode

open Net Tsch List NbrTables

variable {conf : ClockConf} {s t : RplNode} {nbr best : ℕ} {freshOnly : Bool}

theorem mrhofBestParent_spec {nbr1 : Option ℕ}
    (hbest : s.mrhofBestParent conf nbr1 nbr = some best) : nbr1 = some best ∨ nbr = best := by
  unfold mrhofBestParent at hbest
  cases hfilter : nbr1.filter s.nbrIsAcceptableParent with
  | none =>
    rw [hfilter] at hbest
    dsimp only at hbest
    split at hbest
    · exact Or.inr (Option.some.inj hbest)
    · cases hbest
  | some other =>
    have hother : nbr1 = some other := (Option.filter_eq_some_iff.mp hfilter).1
    rw [hfilter] at hbest
    dsimp only at hbest
    rw [hother]
    split at hbest
    · exact Or.inl hbest
    · split at hbest
      · exact Or.inl hbest
      · split at hbest
        · exact Or.inr (Option.some.inj hbest)
        · split at hbest
          · exact Or.inl hbest
          · exact Or.inr (Option.some.inj hbest)

/-- The fold of the objective function's `best_parent` over neighbours. -/
def bestOf (conf : ClockConf) (s : RplNode) (nbrs : List ℕ) : Option ℕ :=
  nbrs.foldl (s.mrhofBestParent conf) none

theorem bestParent_eq_bestOf (hused : s.inst.used = true) :
    s.bestParent conf freshOnly = s.bestOf conf (s.neighbors.filter fun nbr ↦
      s.admits nbr && !(freshOnly && !s.rplNeighborIsFresh conf nbr)) := by
  unfold bestParent bestOf
  rw [if_pos hused, foldl_filter]
  congr
  funext best nbr
  cases s.admits nbr <;> cases freshOnly && !s.rplNeighborIsFresh conf nbr <;> rfl

variable {nbrs : List ℕ}

theorem bestOf_concat :
    s.bestOf conf (nbrs ++ [nbr]) = s.mrhofBestParent conf (s.bestOf conf nbrs) nbr :=
  foldl_append

theorem bestOf_mem (hbest : s.bestOf conf nbrs = some best) : best ∈ nbrs := by
  induction nbrs using List.reverseRecOn generalizing best with
  | nil => cases hbest
  | append_singleton nbrs nbr ih =>
    rw [bestOf_concat] at hbest
    rcases mrhofBestParent_spec hbest with hbefore | rfl
    · exact mem_append_left _ (ih hbefore)
    · exact mem_append_right _ (mem_singleton_self _)

theorem bestParent_spec (hbest : s.bestParent conf freshOnly = some best) :
    best ∈ s.neighbors ∧ s.admits best = true := by
  by_cases hused : s.inst.used = true
  · rw [bestParent_eq_bestOf hused] at hbest
    have hmem := mem_filter.mp (bestOf_mem hbest)
    exact ⟨hmem.1, (Bool.and_eq_true _ _ ▸ hmem.2).1⟩
  · rw [bestParent, if_neg hused] at hbest
    cases hbest

theorem rplNeighborSelectBest_spec : (∀ best, (s.rplNeighborSelectBest conf).1 = some best →
      best ∈ s.neighbors ∧ s.admits best = true) ∧
    ∀ target, (s.rplNeighborSelectBest conf).2 = some target →
      s.inst.urgentProbingTarget = some target ∨ target ∈ s.neighbors := by
  unfold rplNeighborSelectBest
  split
  · exact ⟨fun _ ↦ nofun, fun _ ↦ Or.inl⟩
  · cases hbest : s.bestParent conf false with
    | none => exact ⟨fun _ ↦ nofun, fun _ ↦ Or.inl⟩
    | some best =>
      have hspec := bestParent_spec hbest
      have hself : ∀ other, some best = some other → other ∈ s.neighbors ∧ s.admits other = true := by
        rintro other ⟨⟩
        exact hspec
      have htarget : ∀ target, s.inst.urgentProbingTarget.or (some best) = some target →
          s.inst.urgentProbingTarget = some target ∨ target ∈ s.neighbors := by
        intro target htarget
        rcases Option.or_eq_some_iff.mp htarget with hbefore | ⟨-, hnew⟩
        · exact Or.inl hbefore
        · exact Or.inr (hself target hnew).1
      dsimp only
      split
      · exact ⟨hself, fun _ ↦ Or.inl⟩
      · split
        · exact ⟨hself, htarget⟩
        · cases hfresh : s.bestParent conf true with
          | some fresh =>
            refine ⟨?_, htarget⟩
            rintro other ⟨⟩
            exact bestParent_spec hfresh
          | none =>
            refine ⟨?_, htarget⟩
            intro other hother
            dsimp only at hother
            split at hother
            · cases hother
            · exact hself other hother

theorem uses_of_mem_neighbors (hnbr : nbr ∈ s.neighbors) : s.tables.uses rplNeighbors nbr = true :=
  (mem_filter.mp hnbr).2

theorem nbrLinkMetric_floor (hetx : s.EtxFloor) (nbr : ℕ) :
    linkStatsEtxDivisor ≤ s.nbrLinkMetric nbr := by
  unfold nbrLinkMetric rplNeighborGetLinkStats linkStatsFromLladdr
  cases hstats : s.tables.nbrTableGetFromLladdr linkStats (some (s.tables.lladdr nbr)) with
  | none =>
    change linkStatsEtxDivisor ≤ 0xffff
    decide
  | some stats => exact hetx stats (Option.filter_eq_some_iff.mp hstats).2

theorem linkMetricToRank_floor {etx : ℕ} (hetx : linkStatsEtxDivisor ≤ etx) :
    linkStatsEtxDivisor ≤ linkMetricToRank etx := by
  apply le_min
  · rw [Nat.le_div_iff_mul_le (by decide)]
    exact Nat.mul_le_mul hetx hetx
  · decide

theorem admits_rankViaNbr (hetx : s.EtxFloor) (hadmits : s.admits nbr = true) :
    (s.rplNbr nbr).rank + s.inst.minHoprankinc ≤ s.rankViaNbr (some nbr) ∧
      (s.rplNbr nbr).rank < s.rankViaNbr (some nbr) ∧
        s.inst.minHoprankinc < s.rankViaNbr (some nbr) := by
  unfold admits at hadmits
  rw [Bool.and_eq_true] at hadmits
  obtain ⟨hrank, hparent⟩ := hadmits
  have hmin : s.inst.minHoprankinc ≤ (s.rplNbr nbr).rank := (of_decide_eq_true hrank).2.1
  have hcost : s.nbrPathCost (some nbr) ≤ maxPathCost := by
    unfold nbrIsAcceptableParent at hparent
    rw [Bool.and_eq_true] at hparent
    exact of_decide_eq_true hparent.2
  have hmetric := linkMetricToRank_floor (nbrLinkMetric_floor hetx nbr)
  unfold nbrPathCost maxPathCost at hcost
  unfold linkStatsEtxDivisor at hmetric
  unfold rankViaNbr nbrPathCost rplInfiniteRank
  dsimp only at hcost ⊢
  refine ⟨?_, ?_, ?_⟩
  · omega
  · omega
  · omega

theorem rplNeighborSetPreferredParent_eq (parent : Option ℕ) :
    s.rplNeighborSetPreferredParent parent =
      { s with
        tables := { s.tables with
          lockedMap := (s.rplNeighborSetPreferredParent parent).tables.lockedMap }
        inst := { s.inst with preferredParent := parent } } := by
  unfold rplNeighborSetPreferredParent
  split
  · cases parent with
    | none => cases s.inst.preferredParent <;> rfl
    | some nbr => cases s.inst.preferredParent <;> rfl
  · rename_i hsame
    rw [← not_ne_iff.mp hsame]

theorem rplNeighborSetPreferredParent_sound {parent : Option ℕ} (hs : s.tables.Sound)
    (hparent : ∀ nbr, parent = some nbr → s.tables.uses rplNeighbors nbr = true) :
    (s.rplNeighborSetPreferredParent parent).tables.Sound := by
  unfold rplNeighborSetPreferredParent
  split
  · have hunlocked : (s.tables.nbrTableUnlock rplNeighbors s.inst.preferredParent).2.Sound :=
      (nbrTableUnlock_releases rplNeighbors s.inst.preferredParent).sound hs
    apply hunlocked.nbrTableLock
    intro nbr hnbr
    exact hs.allocated nbr (mem_of_uses hs (hparent nbr hnbr))
  · exact hs

/-- The node with the parent that was selected, before its rank is computed. -/
def withParent (conf : ClockConf) (s : RplNode) : RplNode :=
  { s with inst := { s.inst with urgentProbingTarget := (s.rplNeighborSelectBest conf).2 } }
    |>.rplNeighborSetPreferredParent (s.rplNeighborSelectBest conf).1

theorem withParent_table : (s.withParent conf).tables.table = s.tables.table := by
  unfold withParent rplNeighborSetPreferredParent
  split
  · rfl
  · rfl

/-- What the part of `rpl_dag_update_state` for a node that is not a root does. -/
structure UpdatesParent (conf : ClockConf) (s t : RplNode) : Prop where
  preferredParent : t.inst.preferredParent = (s.rplNeighborSelectBest conf).1
  urgentProbingTarget : t.inst.urgentProbingTarget = (s.rplNeighborSelectBest conf).2
  unicastDioTarget : t.inst.unicastDioTarget = s.inst.unicastDioTarget
  used : t.inst.used = s.inst.used
  minHoprankinc : t.inst.minHoprankinc = s.inst.minHoprankinc
  maxRankinc : t.inst.maxRankinc = s.inst.maxRankinc
  rank : t.inst.rank = s.rankViaNbr (s.rplNeighborSelectBest conf).1
  lowestRank : t.inst.lowestRank =
    if s.inst.preferredParent = none ∨ t.inst.rank < s.inst.lowestRank then t.inst.rank
    else s.inst.lowestRank
  history : t.lowest = s.lowest ∧ t.updates = s.updates
  index : ∀ table, (t.tables.table table).index = (s.tables.table table).index
  used_map : t.tables.usedMap = s.tables.usedMap
  keys : t.tables.nbrTableKeys = s.tables.nbrTableKeys
  locked : t.tables.lockedMap = (s.withParent conf).tables.lockedMap
  nbrRank : ∀ nbr, (t.rplNbr nbr).rank = (s.rplNbr nbr).rank
  stats : t.tables.table linkStats = s.tables.table linkStats
  acceptable : ∀ nbr, t.nbrIsAcceptableParent nbr = s.nbrIsAcceptableParent nbr

theorem updateBetterParentSince_index (table : ℕ) :
    ((s.updateBetterParentSince conf).tables.table table).index = (s.tables.table table).index := by
  unfold updateBetterParentSince
  by_cases htable : table = rplNeighbors
  · simp [htable]
  · simp [htable]

theorem updateBetterParentSince_rank (nbr : ℕ) :
    ((s.updateBetterParentSince conf).rplNbr nbr).rank = (s.rplNbr nbr).rank := by
  unfold updateBetterParentSince rplNbr
  dsimp only
  rw [Function.update_self]
  dsimp only
  split <;> rfl

theorem updateBetterParentSince_stats :
    (s.updateBetterParentSince conf).tables.table linkStats = s.tables.table linkStats := by
  have hne : linkStats ≠ rplNeighbors := by decide
  simp [updateBetterParentSince, hne]

theorem nbrIsAcceptableParent_congr (hmem : t.tables.neighborAddrMem = s.tables.neighborAddrMem)
    (hkeys : t.tables.nbrTableKeys = s.tables.nbrTableKeys)
    (husedMap : t.tables.usedMap = s.tables.usedMap)
    (hstats : t.tables.table linkStats = s.tables.table linkStats)
    (hrank : (t.rplNbr nbr).rank = (s.rplNbr nbr).rank) :
    t.nbrIsAcceptableParent nbr = s.nbrIsAcceptableParent nbr := by
  have huses : t.tables.uses linkStats = s.tables.uses linkStats := by
    funext item
    rw [uses, uses, husedMap, hstats]
  have hlladdr : t.tables.lladdr = s.tables.lladdr := by
    funext key
    rw [lladdr, lladdr, hmem]
  have hindex : t.tables.indexFromLladdr = s.tables.indexFromLladdr := by
    funext lladdr
    rw [indexFromLladdr, indexFromLladdr, hkeys, hlladdr]
  have hmetric : t.nbrLinkMetric nbr = s.nbrLinkMetric nbr := by
    rw [nbrLinkMetric, nbrLinkMetric, rplNeighborGetLinkStats, rplNeighborGetLinkStats,
      linkStatsFromLladdr, linkStatsFromLladdr, nbrTableGetFromLladdr,
      nbrTableGetFromLladdr, huses, hindex, hlladdr, hstats]
  have hcost : t.nbrPathCost (some nbr) = s.nbrPathCost (some nbr) := by
    rw [nbrPathCost, nbrPathCost, hmetric, hrank]
  rw [nbrIsAcceptableParent, nbrIsAcceptableParent, nbrHasUsableLink, nbrHasUsableLink, hmetric,
    hcost]

theorem updateParent_spec (s : RplNode) : UpdatesParent conf s (s.updateParent conf) := by
  have hchosen : s.withParent conf = _ := rplNeighborSetPreferredParent_eq _
  have hkept {β : Type} (part : RplNode → β) := congrArg part hchosen
  have hlowest : (s.withParent conf).inst.lowestRank = s.inst.lowestRank :=
    hkept fun u ↦ u.inst.lowestRank
  constructor
  case preferredParent => exact hkept fun u ↦ u.inst.preferredParent
  case urgentProbingTarget => exact hkept fun u ↦ u.inst.urgentProbingTarget
  case unicastDioTarget => exact hkept fun u ↦ u.inst.unicastDioTarget
  case used => exact hkept fun u ↦ u.inst.used
  case minHoprankinc => exact hkept fun u ↦ u.inst.minHoprankinc
  case maxRankinc => exact hkept fun u ↦ u.inst.maxRankinc
  case rank => exact hkept fun u ↦ u.rankViaNbr u.inst.preferredParent
  case lowestRank =>
    rw [← hlowest]
    rfl
  case history =>
    exact ⟨hkept fun u ↦ u.lowest, hkept fun u ↦ u.updates⟩
  case index =>
    intro table
    have hindex : ((s.withParent conf).tables.table table).index = (s.tables.table table).index :=
      hkept fun u ↦ (u.tables.table table).index
    exact (updateBetterParentSince_index table).trans hindex
  case used_map => exact hkept fun u ↦ u.tables.usedMap
  case keys => exact hkept fun u ↦ u.tables.nbrTableKeys
  case locked => rfl
  case nbrRank =>
    intro nbr
    have hrank : ((s.withParent conf).rplNbr nbr).rank = (s.rplNbr nbr).rank :=
      hkept fun u ↦ (u.rplNbr nbr).rank
    exact (updateBetterParentSince_rank nbr).trans hrank
  case stats =>
    exact updateBetterParentSince_stats.trans (hkept fun u ↦ u.tables.table linkStats)
  case acceptable =>
    intro nbr
    apply nbrIsAcceptableParent_congr
    · exact hkept fun u ↦ u.tables.neighborAddrMem
    · exact hkept fun u ↦ u.tables.nbrTableKeys
    · exact hkept fun u ↦ u.tables.usedMap
    · exact updateBetterParentSince_stats.trans (hkept fun u ↦ u.tables.table linkStats)
    · exact (updateBetterParentSince_rank nbr).trans (hkept fun u ↦ (u.rplNbr nbr).rank)

/-- The preferred parent and the acceptable neighbours outside hysteresis. -/
def contenders (conf : ClockConf) (s : RplNode) (nbrs : List ℕ) : List ℕ :=
  nbrs.filter fun nbr ↦ s.nbrIsAcceptableParent nbr &&
    (decide (some nbr = s.inst.preferredParent) || !s.withinHysteresis conf nbr)

/-- What `best_parent` makes of two neighbours in both orders, one of them a contender. -/
theorem mrhofBestParent_wins (hbest : best ∈ s.contenders conf nbrs)
    (hbeats : s.nbrIsAcceptableParent nbr = true → nbr ≠ best →
      s.nbrPathCost (some best) < s.nbrPathCost (some nbr) ∨
        some best = s.inst.preferredParent ∧ s.withinHysteresis conf nbr = true) :
    s.mrhofBestParent conf (some best) nbr = some best ∧
      s.mrhofBestParent conf (some nbr) best = some best := by
  obtain ⟨-, hcontends⟩ := mem_filter.mp hbest
  simp only [Bool.and_eq_true, Bool.or_eq_true, decide_eq_true_eq, Bool.not_eq_true'] at hcontends
  obtain ⟨hacceptable, hparent⟩ := hcontends
  unfold mrhofBestParent
  by_cases hnbr : s.nbrIsAcceptableParent nbr = true
  · by_cases hsame : nbr = best
    · subst hsame
      simp [Option.filter_some, hacceptable]
    · have hother : ¬ (some nbr = s.inst.preferredParent ∧ s.withinHysteresis conf best = true) := by
        rintro ⟨hpreferred, hwithin⟩
        rcases hparent with hbestParent | houtside
        · exact hsame (Option.some.inj (hpreferred.trans hbestParent.symm))
        · rw [hwithin] at houtside
          cases houtside
      rcases hbeats hnbr hsame with hlt | ⟨hself, hwithin⟩
      · simp [Option.filter_some, hacceptable, hnbr, hother, hlt, hlt.not_gt]
      · simp [Option.filter_some, hacceptable, hnbr, ← hself, hwithin, hsame]
  · simp [Option.filter_some, hacceptable, hnbr]

theorem bestOf_eq_of_wins (hmem : best ∈ nbrs) (hacceptable : s.nbrIsAcceptableParent best = true)
    (hwins : ∀ nbr ∈ nbrs, s.mrhofBestParent conf (some best) nbr = some best ∧
      s.mrhofBestParent conf (some nbr) best = some best) : s.bestOf conf nbrs = some best := by
  induction nbrs using List.reverseRecOn with
  | nil => cases hmem
  | append_singleton nbrs nbr ih =>
    rw [bestOf_concat]
    by_cases hbefore : best ∈ nbrs
    · rw [ih hbefore fun x hx ↦ hwins x (mem_append_left _ hx)]
      exact (hwins nbr (mem_append_right _ (mem_singleton_self _))).1
    · obtain rfl : best = nbr := by simpa [hbefore] using hmem
      cases hother : s.bestOf conf nbrs with
      | none => exact if_pos hacceptable
      | some x => exact (hwins x (mem_append_left _ (bestOf_mem hother))).2

/-- The order of the table does not matter, and the best of the contenders is chosen, exactly if
that is the preferred parent or no acceptable neighbour is better than all contenders. -/
theorem bestOf_iff {nbrs : List ℕ} {parent : ℕ}
    (hcosts : ∀ x ∈ nbrs, ∀ y ∈ nbrs, x ≠ y → s.nbrPathCost (some x) ≠ s.nbrPathCost (some y))
    (hparent : s.inst.preferredParent = some parent) (hmem : parent ∈ nbrs)
    (hacceptable : s.nbrIsAcceptableParent parent = true) :
    (∃ best ∈ s.contenders conf nbrs,
      (∀ other ∈ s.contenders conf nbrs,
        s.nbrPathCost (some best) ≤ s.nbrPathCost (some other)) ∧
      ∀ order : List ℕ, order.Perm nbrs → s.bestOf conf order = some best) ↔
    (∀ other ∈ s.contenders conf nbrs,
      s.nbrPathCost (some parent) ≤ s.nbrPathCost (some other)) ∨
    ∀ nbr ∈ nbrs, s.nbrIsAcceptableParent nbr = true →
      ∃ other ∈ s.contenders conf nbrs,
        s.nbrPathCost (some other) ≤ s.nbrPathCost (some nbr) := by
  have hcontends : parent ∈ s.contenders conf nbrs := by
    simp [contenders, hmem, hacceptable, hparent]
  constructor
  · rintro ⟨best, hbest, hleast, hall⟩
    by_contra hnot
    push Not at hnot
    obtain ⟨⟨cheaper, hcheaper, hlt⟩, nbr, hnbr, hnbrAcceptable, hbelow⟩ := hnot
    -- the neighbour that is better than all contenders comes last
    have horder := hall (nbrs.erase nbr ++ [nbr])
      (perm_append_comm.trans (perm_cons_erase hnbr).symm)
    have hbetter := hbelow best hbest
    rw [bestOf_concat] at horder
    rcases mrhofBestParent_spec horder with hbefore | rfl
    · have hswitch : best ≠ parent := by
        rintro rfl
        exact lt_irrefl _ (hlt.trans_le (hleast cheaper hcheaper))
      have hother : nbr ≠ parent := by
        rintro rfl
        exact lt_irrefl _ (hbelow nbr hcontends)
      have hcan := (Bool.and_eq_true _ _ ▸ (mem_filter.mp hbest).2).1
      rw [hbefore] at horder
      have hsame : nbr = best := by
        simpa [mrhofBestParent, Option.filter_some, hcan, hnbrAcceptable, hparent, hswitch, hother,
          hbetter.not_gt] using horder
      rw [hsame] at hbetter
      exact lt_irrefl _ hbetter
    · exact lt_irrefl _ hbetter
  · intro hcondition
    obtain ⟨best, hbest, hleast, hbeats⟩ : ∃ best ∈ s.contenders conf nbrs,
        (∀ other ∈ s.contenders conf nbrs,
          s.nbrPathCost (some best) ≤ s.nbrPathCost (some other)) ∧
        ∀ nbr ∈ nbrs, s.nbrIsAcceptableParent nbr = true → nbr ≠ best →
          s.nbrPathCost (some best) < s.nbrPathCost (some nbr) ∨
            some best = s.inst.preferredParent ∧ s.withinHysteresis conf nbr = true := by
      rcases hcondition with hleast | hbeaten
      · refine ⟨parent, hcontends, hleast, fun nbr hnbr hnbrAcceptable hne ↦ ?_⟩
        by_cases hwithin : s.withinHysteresis conf nbr = true
        · exact Or.inr ⟨hparent.symm, hwithin⟩
        · have hle := hleast nbr (mem_filter.mpr ⟨hnbr, by simp [hnbrAcceptable, hwithin]⟩)
          exact Or.inl (lt_of_le_of_ne hle (hcosts _ hmem _ hnbr hne.symm))
      · cases hbest : (s.contenders conf nbrs).argmin fun nbr ↦ s.nbrPathCost (some nbr) with
        | none =>
          rw [argmin_eq_none.mp hbest] at hcontends
          cases hcontends
        | some best =>
          have hin := argmin_mem hbest
          have hleast := fun other (hother : other ∈ s.contenders conf nbrs) ↦
            le_of_mem_argmin hother hbest
          refine ⟨best, hin, hleast, fun nbr hnbr hnbrAcceptable hne ↦ Or.inl ?_⟩
          obtain ⟨other, hother, hle⟩ := hbeaten nbr hnbr hnbrAcceptable
          exact lt_of_le_of_ne ((hleast other hother).trans hle)
            (hcosts _ (mem_filter.mp hin).1 _ hnbr hne.symm)
    obtain ⟨hin, hcan⟩ := mem_filter.mp hbest
    refine ⟨best, hbest, hleast, fun order hperm ↦ ?_⟩
    apply bestOf_eq_of_wins (hperm.mem_iff.mpr hin) (Bool.and_eq_true _ _ ▸ hcan).1
    intro nbr hnbr
    exact mrhofBestParent_wins hbest (hbeats nbr (hperm.mem_iff.mp hnbr))

/-- Of three neighbours the first is the parent, the second has been slightly better for long and
the third has just become the best. -/
def hysteresisNode : RplNode where
  clock := 1000
  inst := ⟨true, 0, 128, 0, fun _ ↦ 0, 0, 600, 600, .joined, some 0, none, none⟩
  tables :=
    { neighborAddrMem := ⟨3, fun _ ↦ 1, fun nbr _ ↦ nbr⟩
      nbrTableKeys := [0, 1, 2]
      usedMap := fun _ ↦ 3
      lockedMap := fun _ ↦ 0
      allTables := [rplNeighbors, linkStats]
      table := fun index ↦ ⟨index, false, fun nbr ↦
        ⟨472 - 10 * nbr, 0, if nbr = 1 then 1 else 0, 0, 128, 0, 0, fun _ ↦ 0⟩⟩ }
  lowest := 600
  updates := []

theorem bestOf_iff_pair :
    ∃ best ∈ hysteresisNode.contenders ⟨2 ^ 32, 1⟩ [0, 1],
      (∀ other ∈ hysteresisNode.contenders ⟨2 ^ 32, 1⟩ [0, 1],
        hysteresisNode.nbrPathCost (some best) ≤ hysteresisNode.nbrPathCost (some other)) ∧
      ∀ order : List ℕ, order.Perm [0, 1] →
        hysteresisNode.bestOf ⟨2 ^ 32, 1⟩ order = some best :=
  (@bestOf_iff _ _ [0, 1] 0 (by decide +kernel) rfl (by decide) (by decide +kernel)).mpr
    (Or.inr (by decide +kernel))

theorem bestOf_order_matters :
    [0, 1, 2].map (fun nbr ↦ (hysteresisNode.nbrPathCost (some nbr),
        hysteresisNode.nbrIsAcceptableParent nbr, hysteresisNode.withinHysteresis ⟨2 ^ 32, 1⟩ nbr)) =
      [(600, true, true), (590, true, false), (580, true, true)] ∧
    hysteresisNode.bestOf ⟨2 ^ 32, 1⟩ [0, 1, 2] = some 2 ∧
      hysteresisNode.bestOf ⟨2 ^ 32, 1⟩ [1, 2, 0] = some 0 := by
  decide +kernel

end ContikiMaster.Rpl.RplNode
