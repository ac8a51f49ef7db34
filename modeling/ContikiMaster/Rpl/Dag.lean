import ContikiMaster.Csma.Output
import ContikiMaster.Net.NbrTableBits
import ContikiMaster.Rpl.Neighbor

/-!
# The DAG and the tables it refers to

`rpl-dag.c` with what it calls: `rpl-nbr-policy.c`, the parts of `rpl-icmp6.c`, `rpl-timers.c` and
`rpl-ext-header.c` that change neighbours or parents, `link-stats.c` and the neighbour cache of
`uip-ds6-nbr.c`. The timers, the downward routes and the default route are left out. MRHOF is the
only objective function.
-/

namespace ContikiMaster.Rpl

open Net Tsch Function

/-- `nbr_table_reason_t`; the reasons that the removal policy does not know are one. -/
inductive NbrTableReason
  | rplDio (dio : RplDio)
  | rplDis
  | ipv6NdAutofill
  | other

/-- The next hop that the IPv6 layer puts into the neighbour cache by itself to send a packet. -/
abbrev Autofill := Option (AddressBytes × Linkaddr)

def rplOcpMrhof : UInt16 := 1

def uipNd6RaFlagAutonomous : UInt8 := 0x40

def rplLollipopInit : UInt8 := 240

def rplLollipopIncrement (counter : UInt8) : UInt8 :=
  if 127 < counter then counter + 1 else (counter + 1) &&& 127

def rplLollipopGreaterThan (a b : UInt8) : Bool :=
  let a := a.toNat
  let b := b.toNat
  if 127 < a ∧ b ≤ 127 then decide (16 < 255 + 1 + b - a)
  else decide ((b < a ∧ a - b < 16) ∨ (a < b ∧ 127 + 1 - 16 < b - a))

/-- The part of `remove_neighbor` that drops the pointers to the neighbour. -/
def DagInstance.withoutTargets (inst : DagInstance) (nbr : ℕ) : DagInstance :=
  { inst with
    urgentProbingTarget := inst.urgentProbingTarget.filter (· ≠ nbr)
    unicastDioTarget := inst.unicastDioTarget.filter (· ≠ nbr) }

def DagInstance.cleared : DagInstance where
  used := false
  instanceId := 0
  minHoprankinc := 0
  maxRankinc := 0
  dagId := fun _ ↦ 0
  version := 0
  rank := 0
  lowestRank := 0
  state := .initialized
  preferredParent := none
  urgentProbingTarget := none
  unicastDioTarget := none

/-- The checks of `rpl_set_prefix_from_addr`. -/
def rplSetPrefixFromAddr (hasAddr : Bool) (len : ℕ) (flags : UInt8) : Bool :=
  hasAddr && decide (len ≠ 0 ∧ len ≤ 128 ∧ flags &&& uipNd6RaFlagAutonomous ≠ 0)

/-- `init_dag`: whether it succeeds, and the instance it leaves. -/
def initDag (instanceId : UInt8) (dagId : AddressBytes) (ocp : UInt16) (hasPrefix : Bool)
    (prefixLen : ℕ) (prefixFlags : UInt8) : Bool × DagInstance :=
  if ocp ≠ rplOcpMrhof then (false, .cleared)
  else if !rplSetPrefixFromAddr hasPrefix prefixLen prefixFlags then (false, .cleared)
  else
    (true, { DagInstance.cleared with
      instanceId := instanceId
      used := true
      rank := rplInfiniteRank
      lowestRank := rplInfiniteRank
      dagId := dagId })

def initDagFromDio (dio : RplDio) : Bool × DagInstance :=
  match initDag dio.instanceId dio.dagId dio.ocp true dio.prefixInfo.length.toNat
      dio.prefixInfo.flags with
  | (false, inst) => (false, inst)
  | (true, inst) =>
    (true, { inst with
      maxRankinc := dio.dagMaxRankinc.toNat
      minHoprankinc := dio.dagMinHoprankinc.toNat
      version := dio.version })

def guessEtxFromRssi (rssi : ℤ) : ℕ :=
  if rssi = 0 then 2 * linkStatsEtxDivisor
  else
    let bounded := max (min rssi (-60)) (-90 + 1)
    min (30 * linkStatsEtxDivisor / (bounded + 90).toNat) (3 * linkStatsEtxDivisor)

namespace RplNode

variable (conf : ClockConf) (s : RplNode)

def modifyItem (table nbr : ℕ) (f : NbrItem → NbrItem) : RplNode :=
  let changed := update (s.tables.table table).data nbr (f ((s.tables.table table).data nbr))
  { s with tables := { s.tables with
      table := update s.tables.table table { s.tables.table table with data := changed } } }

def removeNeighbor (nbr : ℕ) : RplNode :=
  { s with
    inst := s.inst.withoutTargets nbr
    tables := (s.tables.nbrTableRemove rplNeighbors (some nbr)).2 }

/-- The items of the neighbour cache. -/
def ds6Nbrs : List ℕ := s.tables.nbrTableKeys.filter (s.tables.uses ds6Neighbors)

def rplNeighborGetFromLladdr (lladdr : Option Linkaddr) : Option ℕ :=
  s.tables.nbrTableGetFromLladdr rplNeighbors lladdr

/-- `update_state` of the policy: `worst_rank` and `worst_rank_nbr_lladdr`. -/
def worstRankNbr : ℕ × Option Linkaddr :=
  s.ds6Nbrs.foldl (fun worst ds6Nbr ↦
    let lladdr := s.tables.lladdr ds6Nbr
    let rplNbr := s.rplNeighborGetFromLladdr (some lladdr)
    let rank := s.rankViaNbr rplNbr
    if rplNbr ≠ s.inst.preferredParent ∧ worst.1 < rank then (rank, some lladdr) else worst) (0, none)

def rplNbrPolicyFindRemovable : NbrTableReason → Option Linkaddr
  | .rplDio dio =>
    let worst := s.worstRankNbr
    if s.inst.used ∧ s.inst.instanceId = dio.instanceId ∧
        dio.rank.toNat + s.inst.minHoprankinc + s.inst.minHoprankinc / 2 < worst.1 then worst.2
    else none
  | .rplDis => s.worstRankNbr.2
  | .ipv6NdAutofill => s.worstRankNbr.2
  | .other => none

/-- What the removal of a key does to the instance: RPL is told when it has an item of it. -/
def instWithout (key : Option ℕ) : DagInstance :=
  match key with
  | none => s.inst
  | some key => if s.tables.uses rplNeighbors key then s.inst.withoutTargets key else s.inst

/-- `nbr_table_add_lladdr`, with the removal policy. -/
def addLladdr (table : ℕ) (lladdr : Option Linkaddr) (reason : NbrTableReason) :
    Option ℕ × RplNode :=
  let removable := some (s.rplNbrPolicyFindRemovable reason)
  let added := s.tables.nbrTableAddLladdr table lladdr removable removesItem
  (added.1, { s with
    inst := s.instWithout (s.tables.evictedKey lladdr removable removesItem)
    tables := added.2 })

/-- `nbr_table_update_lladdr`. -/
def updateLladdr (oldAddr : Option Linkaddr) (newAddr : Linkaddr) (removeIfDuplicate : Bool) :
    RplNode :=
  { s with
    inst := s.instWithout (s.tables.duplicateKey oldAddr newAddr removeIfDuplicate)
    tables := (s.tables.nbrTableUpdateLladdr oldAddr newAddr removeIfDuplicate removesItem).2 }

def uipDs6NbrAdd (ipaddr : AddressBytes) (lladdr : Option Linkaddr) (reason : NbrTableReason) :
    Option ℕ × RplNode :=
  match s.addLladdr ds6Neighbors lladdr reason with
  | (none, s) => (none, s)
  | (some nbr, s) => (some nbr, s.modifyItem ds6Neighbors nbr ({ · with ipaddr := ipaddr }))

def uipDs6NbrLookup (ipaddr : AddressBytes) : Option ℕ :=
  s.ds6Nbrs.find? fun nbr ↦ ((s.tables.table ds6Neighbors).data nbr).ipaddr = ipaddr

def uipDs6NbrLladdrFromIpaddr (ipaddr : AddressBytes) : Option Linkaddr :=
  (s.uipDs6NbrLookup ipaddr).map s.tables.lladdr

def rplNeighborGetFromIpaddr (ipaddr : AddressBytes) : Option ℕ :=
  s.rplNeighborGetFromLladdr (s.uipDs6NbrLladdrFromIpaddr ipaddr)

def autofill : Autofill → RplNode
  | none => s
  | some (ipaddr, lladdr) => (s.uipDs6NbrAdd ipaddr (some lladdr) .ipv6NdAutofill).2

def linkStatsPacketSent (lladdr : Linkaddr) (status : Csma.MacStatus) (numtx : ℕ) : RplNode :=
  if status ≠ .ok ∧ status ≠ .noack then s
  else
    let found : Option ℕ × RplNode :=
      match s.tables.nbrTableGetFromLladdr linkStats (some lladdr) with
      | some stats => (some stats, s)
      | none =>
        match s.addLladdr linkStats (some lladdr) .other with
        | (none, s) => (none, s)
        | (some stats, s) => (some stats,
            s.modifyItem linkStats stats fun item ↦ { item with etx := guessEtxFromRssi item.rssi })
    match found with
    | (none, s) => s
    | (some stats, s) => s.modifyItem linkStats stats fun item ↦
      let item :=
        { item with lastTxTime := s.clockTime conf, freshness := min (item.freshness + numtx) 16 }
      let packetEtx := (if status = .noack then 16 else numtx) * linkStatsEtxDivisor % 2 ^ 16
      let ewmaAlpha := if s.linkStatsIsFresh conf (some item) then 10 else 25
      { item with etx := (item.etx * (100 - ewmaAlpha) + packetEtx * ewmaAlpha) / 100 }

def linkStatsInputCallback (lladdr : Linkaddr) (packetRssi : ℤ) : RplNode :=
  match s.tables.nbrTableGetFromLladdr linkStats (some lladdr) with
  | none =>
    match s.addLladdr linkStats (some lladdr) .other with
    | (none, s) => s
    | (some stats, s) => s.modifyItem linkStats stats fun item ↦
      { item with rssi := packetRssi, etx := guessEtxFromRssi packetRssi }
  | some stats => s.modifyItem linkStats stats fun item ↦
    { item with rssi := (item.rssi * (100 - 10) + packetRssi * 10).tdiv 100 }

def statsItems : List ℕ := s.tables.nbrTableKeys.filter (s.tables.uses linkStats)

/-- `periodic` of `link-stats.c`. -/
def linkStatsPeriodic : RplNode :=
  s.statsItems.foldl (fun s stats ↦
    s.modifyItem linkStats stats fun item ↦ { item with freshness := item.freshness / 2 }) s

def linkStatsReset : RplNode :=
  s.statsItems.foldl (fun s stats ↦
    { s with tables := (s.tables.nbrTableRemove linkStats (some stats)).2 }) s

/-- The loop of `rpl_dag_update_state` over the neighbours. -/
def updateBetterParentSince : RplNode :=
  let data := (s.tables.table rplNeighbors).data
  let since (nbr : ℕ) : ℕ :=
    if s.rankViaNbr (some nbr) < s.inst.rank then
      if (data nbr).betterParentSince = 0 then s.clockTime conf else (data nbr).betterParentSince
    else 0
  { s with tables := { s.tables with
      table := update s.tables.table rplNeighbors { s.tables.table rplNeighbors with
        data := fun nbr ↦
          if nbr ∈ s.neighbors then { data nbr with betterParentSince := since nbr } else data nbr } } }

/-- The part of `rpl_dag_update_state` for a node that is not a root. -/
def updateParent : RplNode :=
  let oldParent := s.inst.preferredParent
  let best := s.rplNeighborSelectBest conf
  let s := { s with inst := { s.inst with urgentProbingTarget := best.2 } }
  let s := s.rplNeighborSetPreferredParent best.1
  let s := { s with inst := { s.inst with rank := s.rankViaNbr s.inst.preferredParent } }
  let s := s.updateBetterParentSince conf
  let lowestRank :=
    if oldParent = none ∨ s.inst.rank < s.inst.lowestRank then s.inst.rank else s.inst.lowestRank
  let state :=
    if s.inst.preferredParent = oldParent then s.inst.state
    else if s.inst.preferredParent = none then .initialized
    else if oldParent = none then .joined else s.inst.state
  { s with inst := { s.inst with lowestRank := lowestRank, state := state } }

/-- The record of an update, from the node before it. -/
def noteUpdate (before : RplNode) : RplNode :=
  let lowest :=
    if s.inst.preferredParent = none then rplInfiniteRank
    else if before.inst.preferredParent = none then s.inst.rank else min before.lowest s.inst.rank
  let update : Update := {
    parentBefore := before.inst.preferredParent
    admitsOnly := (before.neighbors.filter before.admits).all fun nbr ↦
      before.acceptableRank (before.rankViaNbr (some nbr))
    parent := s.inst.preferredParent
    acceptable := s.inst.preferredParent.any s.admits
    parentRank := s.inst.preferredParent.elim 0 fun nbr ↦ (s.rplNbr nbr).rank
    rank := s.inst.rank
    lowest := lowest
    minHoprankinc := s.inst.minHoprankinc
    maxRankinc := s.inst.maxRankinc }
  { s with lowest := lowest, updates := s.updates ++ [update] }

def rplDagUpdateState : RplNode :=
  if !s.inst.used then s
  else if s.inst.state = .poisoning then
    let poisoned := s.rplNeighborSetPreferredParent none
    { poisoned with inst := { poisoned.inst with rank := rplInfiniteRank } }.noteUpdate s
  else if s.isRoot then s
  else (s.updateParent conf).noteUpdate s

/-- `rpl_icmp6_dis_output`, `rpl_icmp6_dio_output` and `rpl_icmp6_dao_output`. -/
def output (next : Autofill) : RplNode := (s.rplDagUpdateState conf).autofill next

def rplNeighborRemoveAll : RplNode :=
  (s.neighbors.foldl removeNeighbor s).rplDagUpdateState conf

def rplLocalRepair : RplNode :=
  if s.inst.used then
    let s := if s.isRoot then s else { s with inst := { s.inst with state := .initialized } }
    s.linkStatsReset.rplNeighborRemoveAll conf
  else s

def rplGlobalRepair : RplNode :=
  if s.isRoot then
    { s with inst := { s.inst with version := rplLollipopIncrement s.inst.version } }.rplLocalRepair
      conf
  else s

def globalRepairNonRoot (dio : RplDio) : RplNode :=
  if s.isRoot then s else { s with inst := (initDagFromDio dio).2 }.rplLocalRepair conf

/-- `rpl_dag_leave`, with the no-path DAO. -/
def rplDagLeave (next : Autofill) : RplNode :=
  let s := if s.isRoot then s else s.output conf next
  let s := s.linkStatsReset.rplNeighborRemoveAll conf
  { s with inst := { s.inst with used := false } }

def rplIcmp6UpdateNbrTable (sender : Linkaddr) (ipaddr : AddressBytes) (reason : NbrTableReason) :
    Option ℕ × RplNode :=
  match s.uipDs6NbrLookup ipaddr with
  | some nbr => (some nbr, s)
  | none => s.uipDs6NbrAdd ipaddr (some sender) reason

def updateNbrFromDio (ipaddr : AddressBytes) (dio : RplDio) : RplNode :=
  let found : Option ℕ × RplNode :=
    match s.rplNeighborGetFromIpaddr ipaddr with
    | some nbr => (some nbr, s)
    | none =>
      match s.uipDs6NbrLladdrFromIpaddr ipaddr with
      | none => (none, s)
      | some lladdr => s.addLladdr rplNeighbors (some lladdr) (.rplDio dio)
  match found with
  | (none, s) => s
  | (some nbr, s) => s.modifyItem rplNeighbors nbr
      ({ · with rank := dio.rank.toNat, dtsn := dio.dtsn.toNat })

/-- The DIO is newer than the version of the node: the global repair. -/
def repairForDio (dio : RplDio) : RplNode :=
  if rplLollipopGreaterThan dio.version s.inst.version then
    if s.inst.rank = s.inst.minHoprankinc then
      { s with inst := { s.inst with version := dio.version } }.rplGlobalRepair conf
    else s.globalRepairNonRoot conf dio
  else s

def processDioFromCurrentDag (sender : Linkaddr) (ipaddr : AddressBytes) (dio : RplDio) : RplNode :=
  if dio.rank.toNat < s.inst.minHoprankinc then s
  else if rplLollipopGreaterThan s.inst.version dio.version then s
  else
    match (s.repairForDio conf dio).rplIcmp6UpdateNbrTable sender ipaddr (.rplDio dio) with
    | (none, s) => s
    | (some _, s) => s.updateNbrFromDio ipaddr dio

/-- `process_dio_init_dag`; the modes of operation are `RPL_MOP_NO_DOWNWARD_ROUTES` and
`RPL_MOP_NON_STORING`. -/
def processDioInitDag (dio : RplDio) : Bool × RplNode :=
  if dio.mop ≠ 0 ∧ dio.mop ≠ 1 then (false, s)
  else ((initDagFromDio dio).1, { s with inst := (initDagFromDio dio).2 })

/-- The second part of `rpl_process_dio`. -/
def processDioOfInstance (sender : Linkaddr) (ipaddr : AddressBytes) (dio : RplDio) : RplNode :=
  if s.inst.used ∧ s.inst.instanceId = dio.instanceId ∧ s.inst.dagId = dio.dagId then
    (s.processDioFromCurrentDag conf sender ipaddr dio).rplDagUpdateState conf
  else s

def rplProcessDio (sender : Linkaddr) (ipaddr : AddressBytes) (dio : RplDio) : RplNode :=
  if !s.inst.used && !s.isRoot then
    match s.processDioInitDag dio with
    | (false, s) => s
    | (true, s) => s.processDioOfInstance conf sender ipaddr dio
  else s.processDioOfInstance conf sender ipaddr dio

/-- `dis_input` and `rpl_process_dis`. -/
def rplProcessDis (sender : Linkaddr) (ipaddr : AddressBytes) (isMulticast : Bool)
    (next : Autofill) : RplNode :=
  if !s.inst.used || isMulticast then s
  else
    match s.rplIcmp6UpdateNbrTable sender ipaddr .rplDis with
    | (none, s) => s
    | (some _, s) => s.output conf next

/-- `rpl_ext_header_hbh_update` of a well-formed option, and `rpl_process_hbh`. -/
def rplProcessHbh (sender : Linkaddr) (instanceId : UInt8) (senderRank : ℕ)
    (down fwdErr rankErrorSignaled : Bool) : RplNode :=
  if !s.inst.used || s.inst.instanceId ≠ instanceId || fwdErr then s
  else
    let nbr := s.rplNeighborGetFromLladdr (some sender)
    let senderCloser := decide (senderRank < s.inst.rank)
    let loopDetected := (down && !senderCloser) || (!down && senderCloser)
    let s := if loopDetected then { s with inst := { s.inst with unicastDioTarget := nbr } } else s
    match nbr with
    | none => s
    | some nbr =>
      if rankErrorSignaled then
        (s.modifyItem rplNeighbors nbr ({ · with rank := senderRank })).rplDagUpdateState conf
      else s

/-- `get_probing_target`; the random draw decides between the best neighbour and the one that was
updated least recently, of those without fresh link statistics. -/
def getProbingTarget (lookForBest : Bool) : Option ℕ :=
  if !s.inst.used then none
  else if s.inst.urgentProbingTarget ≠ none then s.inst.urgentProbingTarget
  else if s.inst.preferredParent.any fun nbr ↦ !s.rplNeighborIsFresh conf nbr then
    s.inst.preferredParent
  else
    let stale := s.neighbors.filter fun nbr ↦ !s.rplNeighborIsFresh conf nbr
    if lookForBest then
      stale.foldl (fun target nbr ↦
        if target.all fun target ↦ s.rankViaNbr (some nbr) < s.rankViaNbr (some target) then some nbr
        else target) none
    else
      (stale.foldl (fun (target : Option (ℕ × ℕ)) nbr ↦
        match s.rplNeighborGetLinkStats nbr with
        | none => target
        | some stats =>
          if target.all fun target ↦ target.2 < s.since conf stats.lastTxTime then
            some (nbr, s.since conf stats.lastTxTime)
          else target) none).map Prod.fst

/-- `rpl_neighbor_get_ipaddr` finds an address. -/
def hasIpaddr (nbr : Option ℕ) : Bool :=
  (s.tables.nbrTableGetFromLladdr ds6Neighbors (nbr.map s.tables.lladdr)).isSome

def handleProbingTimer (lookForBest : Bool) (next : Autofill) : RplNode :=
  if s.hasIpaddr (s.getProbingTarget conf lookForBest) then
    let s := s.output conf next
    { s with inst := { s.inst with urgentProbingTarget := none } }
  else s

/-- `rpl_dag_root_init_dag_immediately`, with `rpl_dag_init_root`. -/
def rplDagRootInitDagImmediately (dioConf : DioConf) (dagId : AddressBytes) (hasPrefix : Bool)
    (next : Autofill) : RplNode :=
  let version := if s.inst.used ∧ s.inst.dagId = dagId then rplLollipopIncrement s.inst.version
    else rplLollipopInit
  let s := if s.inst.used then s.rplDagLeave conf next else s
  let inst := (initDag 0 dagId dioConf.ofOcp hasPrefix 64 uipNd6RaFlagAutonomous).2
  { s with inst := { inst with
      maxRankinc := dioConf.maxRankinc.toNat
      minHoprankinc := dioConf.minHoprankinc.toNat
      version := version
      rank := dioConf.minHoprankinc.toNat
      state := .reachable } }.rplDagUpdateState conf

end RplNode

/-- What happens to a node. Other modules have tables of their own. -/
inductive RplEvent
  | dio (sender : Linkaddr) (ipaddr : AddressBytes) (dio : RplDio)
  | dis (sender : Linkaddr) (ipaddr : AddressBytes) (isMulticast : Bool) (next : Autofill)
  | hbh (sender : Linkaddr) (instanceId : UInt8) (senderRank : UInt16)
      (down fwdErr rankErrorSignaled : Bool)
  | output (next : Autofill)
  | stateUpdate
  | probing (lookForBest : Bool) (next : Autofill)
  | leave (next : Autofill)
  | localRepair
  | globalRepair
  | poison
  | reachable
  | initRoot (dioConf : DioConf) (dagId : AddressBytes) (hasPrefix : Bool) (next : Autofill)
  | tick (ticks : ℕ)
  | packetSent (lladdr : Linkaddr) (status : Csma.MacStatus) (numtx : ℕ)
  | packetInput (lladdr : Linkaddr) (rssi : ℤ)
  | linkStatsPeriodic
  | nbrAdd (ipaddr : AddressBytes) (lladdr : Option Linkaddr) (reason : NbrTableReason)
  | nbrRm (nbr : ℕ)
  | updateLladdr (oldAddr : Option Linkaddr) (newAddr : Linkaddr) (removeIfDuplicate : Bool)
  | add (table : ℕ) (lladdr : Option Linkaddr)
  | remove (table item : ℕ)
  | lock (table item : ℕ)
  | unlock (table item : ℕ)

namespace RplNode

variable (conf : ClockConf) (s : RplNode)

/-- The tables of other modules have bits of their own. -/
def OthersTable (table : ℕ) : Prop :=
  (s.tables.table table).index < 8 ∧
    (s.tables.table table).index ≠ (s.tables.table rplNeighbors).index ∧
      (s.tables.table table).index ≠ (s.tables.table linkStats).index

instance (table : ℕ) : Decidable (s.OthersTable table) := instDecidableAnd

/-- One step. A packet that was sent was transmitted at least once, and fewer than 512 times; what
other modules lock, unlock and remove are items of taken blocks. -/
def next (s : RplNode) : RplEvent → Option RplNode
  | .dio sender ipaddr dio => some (s.rplProcessDio conf sender ipaddr dio)
  | .dis sender ipaddr isMulticast next => some (s.rplProcessDis conf sender ipaddr isMulticast next)
  | .hbh sender instanceId senderRank down fwdErr rankErrorSignaled =>
    some (s.rplProcessHbh conf sender instanceId senderRank.toNat down fwdErr rankErrorSignaled)
  | .output next => some (s.output conf next)
  | .stateUpdate => some (s.rplDagUpdateState conf)
  | .probing lookForBest next => some (s.handleProbingTimer conf lookForBest next)
  | .leave next => if s.inst.used then some (s.rplDagLeave conf next) else none
  | .localRepair => some (s.rplLocalRepair conf)
  | .globalRepair => some (s.rplGlobalRepair conf)
  | .poison => some { s with inst := { s.inst with state := .poisoning } }
  | .reachable =>
    if s.inst.state = .joined then some { s with inst := { s.inst with state := .reachable } }
    else none
  | .initRoot dioConf dagId hasPrefix next =>
    some (s.rplDagRootInitDagImmediately conf dioConf dagId hasPrefix next)
  | .tick ticks => some { s with clock := s.clock + ticks }
  | .packetSent lladdr status numtx =>
    if 1 ≤ numtx ∧ numtx < 512 then some (s.linkStatsPacketSent conf lladdr status numtx) else none
  | .packetInput lladdr rssi => some (s.linkStatsInputCallback lladdr rssi)
  | .linkStatsPeriodic => some s.linkStatsPeriodic
  | .nbrAdd ipaddr lladdr reason => some (s.uipDs6NbrAdd ipaddr lladdr reason).2
  | .nbrRm nbr => some { s with tables := (s.tables.nbrTableRemove ds6Neighbors (some nbr)).2 }
  | .updateLladdr oldAddr newAddr removeIfDuplicate =>
    some (s.updateLladdr oldAddr newAddr removeIfDuplicate)
  | .add table lladdr =>
    if s.OthersTable table then some (s.addLladdr table lladdr .other).2 else none
  | .remove table item =>
    if s.OthersTable table then
      some { s with tables := (s.tables.nbrTableRemove table (some item)).2 }
    else none
  | .lock table item =>
    if s.OthersTable table ∧ s.tables.Allocated item then
      some { s with tables := (s.tables.nbrTableLock table (some item)).2 }
    else none
  | .unlock table item =>
    if s.OthersTable table then
      some { s with tables := (s.tables.nbrTableUnlock table (some item)).2 }
    else none

/-- The node after its start: the tables are registered and empty. -/
structure Started (s : RplNode) : Prop where
  tables : ∃ num, s.tables.neighborAddrMem = (NbrTables.init num : NbrTables NbrItem).neighborAddrMem
  keys : s.tables.nbrTableKeys = []
  usedMap : s.tables.usedMap = fun _ ↦ 0
  lockedMap : s.tables.lockedMap = fun _ ↦ 0
  linkStats : s.tables.Distinct rplNeighbors linkStats
  ds6Neighbors : s.tables.Distinct rplNeighbors ds6Neighbors
  others : s.tables.Distinct Rpl.linkStats Rpl.ds6Neighbors
  inst : s.inst = .cleared
  updates : s.updates = []

end RplNode

end ContikiMaster.Rpl
