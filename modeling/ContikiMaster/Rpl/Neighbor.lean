import ContikiMaster.Net.NbrTable
import ContikiMaster.Rpl.Icmp6

/-!
# RPL neighbours and the choice of the parent

`rpl-neighbor.c` with the objective function `rpl-mrhof.c`, over the neighbour tables, and what
they read of `link-stats.c`. The build is the default one: the squared ETX, no metric container,
with probing and without neighbour solicitations. An `int` has at least 32 bits.
-/

namespace ContikiMaster.Rpl

open Net Tsch

/-- The items of the tables for a neighbour, `rpl_nbr_t`, `struct link_stats` and `uip_ds6_nbr_t`, as
one type; a table uses its own fields. -/
structure NbrItem where
  rank : ℕ
  dtsn : ℕ
  betterParentSince : ℕ
  lastTxTime : ℕ
  etx : ℕ
  rssi : ℤ
  freshness : ℕ
  ipaddr : AddressBytes

/-- A cleared item. -/
instance : Zero NbrItem := ⟨⟨0, 0, 0, 0, 0, 0, 0, fun _ ↦ 0⟩⟩

def rplNeighbors : ℕ := 0

def linkStats : ℕ := 1

/-- The table `ds6_neighbors`. -/
def ds6Neighbors : ℕ := 2

inductive DagState
  | initialized
  | joined
  | reachable
  | poisoning
  deriving DecidableEq

/-- `curr_instance`, the part that decides on parents. -/
structure DagInstance where
  used : Bool
  instanceId : UInt8
  minHoprankinc : ℕ
  maxRankinc : ℕ
  dagId : AddressBytes
  version : UInt8
  rank : ℕ
  lowestRank : ℕ
  state : DagState
  preferredParent : Option ℕ
  urgentProbingTarget : Option ℕ
  unicastDioTarget : Option ℕ

/-- What a call of `rpl_dag_update_state` by a node that is not a root found and left: the parent
before, whether every neighbour that may become the parent leads to an acceptable rank, and after
it the parent, whether it is acceptable, its rank, the rank of the node and the lowest rank that
the node had since it last had no parent. -/
structure Update where
  parentBefore : Option ℕ
  admitsOnly : Bool
  parent : Option ℕ
  acceptable : Bool
  parentRank : ℕ
  rank : ℕ
  lowest : ℕ
  minHoprankinc : ℕ
  maxRankinc : ℕ

/-- A node. The clock is counted without an end. The last two fields are history: the lowest rank
since the node last had no parent, and the updates of its state. -/
structure RplNode where
  clock : ℕ
  inst : DagInstance
  tables : NbrTables NbrItem
  lowest : ℕ
  updates : List Update

/-- The values of `clock_time_t` and the ticks of a second. -/
structure ClockConf where
  modulus : ℕ
  second : ℕ

def rplInfiniteRank : ℕ := 0xffff

def linkStatsEtxDivisor : ℕ := 128

def freshnessTarget : ℕ := 4

def maxLinkMetric : ℕ := 512

def maxPathCost : ℕ := 32768

def rankThreshold : ℕ := 384

namespace RplNode

variable (conf : ClockConf) (s : RplNode)

def clockTime : ℕ := s.clock % conf.modulus

/-- The time since a value of the clock. -/
def since (time : ℕ) : ℕ := (s.clockTime conf + conf.modulus - time) % conf.modulus

/-- `rpl_dag_root_is_root`; `ROOT_RANK` is the `min_hoprankinc` of the instance. -/
def isRoot : Bool := s.inst.used && s.inst.rank == s.inst.minHoprankinc

def neighbors : List ℕ := s.tables.nbrTableKeys.filter (s.tables.uses rplNeighbors)

def rplNbr (nbr : ℕ) : NbrItem := (s.tables.table rplNeighbors).data nbr

def linkStatsFromLladdr (lladdr : Option Linkaddr) : Option NbrItem :=
  (s.tables.nbrTableGetFromLladdr linkStats lladdr).map (s.tables.table linkStats).data

/-- `link_stats_is_fresh`, with `FRESHNESS_EXPIRATION_TIME`. -/
def linkStatsIsFresh (stats : Option NbrItem) : Bool :=
  stats.any fun stats ↦
    decide (s.since conf stats.lastTxTime < 10 * 60 * conf.second ∧ freshnessTarget ≤ stats.freshness)

def rplNeighborGetLinkStats (nbr : ℕ) : Option NbrItem :=
  s.linkStatsFromLladdr (some (s.tables.lladdr nbr))

def rplNeighborIsFresh (nbr : ℕ) : Bool := s.linkStatsIsFresh conf (s.rplNeighborGetLinkStats nbr)

def nbrLinkMetric (nbr : ℕ) : ℕ := (s.rplNeighborGetLinkStats nbr).elim 0xffff NbrItem.etx

end RplNode

def linkMetricToRank (etx : ℕ) : ℕ := min (etx * etx / linkStatsEtxDivisor) 0xffff

namespace RplNode

variable (conf : ClockConf) (s : RplNode)

def nbrPathCost : Option ℕ → ℕ
  | none => 0xffff
  | some nbr => min ((s.rplNbr nbr).rank + linkMetricToRank (s.nbrLinkMetric nbr)) 0xffff

def rankViaNbr : Option ℕ → ℕ
  | none => rplInfiniteRank
  | some nbr =>
    max (min ((s.rplNbr nbr).rank + s.inst.minHoprankinc) rplInfiniteRank) (s.nbrPathCost (some nbr))

def nbrHasUsableLink (nbr : ℕ) : Bool := decide (s.nbrLinkMetric nbr ≤ maxLinkMetric)

def nbrIsAcceptableParent (nbr : ℕ) : Bool :=
  s.nbrHasUsableLink nbr && decide (s.nbrPathCost (some nbr) ≤ maxPathCost)

/-- `within_hysteresis`, with `TIME_THRESHOLD`. -/
def withinHysteresis (nbr : ℕ) : Bool :=
  decide (s.nbrPathCost s.inst.preferredParent < s.nbrPathCost (some nbr) + rankThreshold) &&
    decide ((s.rplNbr nbr).betterParentSince = 0 ∨
      s.since conf (s.rplNbr nbr).betterParentSince ≤ 10 * 60 * conf.second)

/-- `best_parent` of the objective function. -/
def mrhofBestParent (nbr1 : Option ℕ) (nbr2 : ℕ) : Option ℕ :=
  match nbr1.filter s.nbrIsAcceptableParent with
  | none => if s.nbrIsAcceptableParent nbr2 then some nbr2 else none
  | some nbr1 =>
    if !s.nbrIsAcceptableParent nbr2 then some nbr1
    else if some nbr1 = s.inst.preferredParent ∧ s.withinHysteresis conf nbr2 then some nbr1
    else if some nbr2 = s.inst.preferredParent ∧ s.withinHysteresis conf nbr1 then some nbr2
    else if s.nbrPathCost (some nbr1) < s.nbrPathCost (some nbr2) then some nbr1 else some nbr2

def acceptableRank (rank : ℕ) : Bool :=
  decide (rank ≠ rplInfiniteRank ∧ s.inst.minHoprankinc ≤ rank ∧
    (s.inst.maxRankinc = 0 ∨ rank ≤ s.inst.lowestRank + s.inst.maxRankinc))

/-- The neighbour may become the parent: `best_parent` does not exclude it. -/
def admits (nbr : ℕ) : Bool := s.acceptableRank (s.rplNbr nbr).rank && s.nbrIsAcceptableParent nbr

def bestParent (freshOnly : Bool) : Option ℕ :=
  if s.inst.used then
    s.neighbors.foldl (fun best nbr ↦
      if !s.admits nbr then best
      else if freshOnly && !s.rplNeighborIsFresh conf nbr then best
      else s.mrhofBestParent conf best nbr) none
  else none

/-- `rpl_neighbor_select_best`: the best parent, and `urgent_probing_target`. -/
def rplNeighborSelectBest : Option ℕ × Option ℕ :=
  if s.isRoot then (none, s.inst.urgentProbingTarget)
  else
    match s.bestParent conf false with
    | none => (none, s.inst.urgentProbingTarget)
    | some best =>
      if s.rplNeighborIsFresh conf best then (some best, s.inst.urgentProbingTarget)
      else
        let urgent := s.inst.urgentProbingTarget.or (some best)
        if some best = s.inst.preferredParent then (some best, urgent)
        else
          match s.bestParent conf true with
          | none => (if s.inst.preferredParent = none then none else some best, urgent)
          | some fresh => (some fresh, urgent)

def rplNeighborSetPreferredParent (nbr : Option ℕ) : RplNode :=
  if s.inst.preferredParent ≠ nbr then
    { s with
      tables := ((s.tables.nbrTableUnlock rplNeighbors s.inst.preferredParent).2.nbrTableLock
        rplNeighbors nbr).2
      inst := { s.inst with preferredParent := nbr } }
  else s

end RplNode

end ContikiMaster.Rpl
