import ContikiMaster.Rpl.Dag

/-!
# Table calls and the DAG

The calls that choose no parent and compute no rank may drop the two targets of the instance, when
the neighbour is removed, and nothing else of it. The preferred parent is never evicted, and an
ETX in use is at least that of one transmission.
-/

namespace ContikiMaster.Rpl

open Net Tsch NbrTables

def DagInstance.untargeted (inst : DagInstance) : DagInstance :=
  { inst with urgentProbingTarget := none, unicastDioTarget := none }

/-- RPL has no part in what the event does to the tables. -/
def RplEvent.isTableCall : RplEvent → Bool
  | .packetSent .. | .packetInput .. | .linkStatsPeriodic | .nbrAdd .. | .nbrRm .. | .add ..
  | .remove .. | .lock .. | .unlock .. => true
  | _ => false

namespace RplNode

variable {conf : ClockConf} {s t r : RplNode} {table nbr : ℕ} {gone : Option ℕ}
  {lladdr : Option Linkaddr} {reason : NbrTableReason} {f : NbrItem → NbrItem}

/-- The pointers of the instance are `NULL` or entries of the table, and RPL locks the preferred
parent and nothing else. -/
structure Refers (s : RplNode) : Prop where
  preferredParent : ∀ nbr, s.inst.preferredParent = some nbr →
    s.tables.uses rplNeighbors nbr = true
  urgentProbingTarget : ∀ nbr, s.inst.urgentProbingTarget = some nbr →
    s.tables.uses rplNeighbors nbr = true
  unicastDioTarget : ∀ nbr, s.inst.unicastDioTarget = some nbr →
    s.tables.uses rplNeighbors nbr = true
  locked : ∀ nbr, s.tables.locks rplNeighbors nbr = true ↔ s.inst.preferredParent = some nbr

/-- The link statistics that are in use are those of at least one transmission. -/
def EtxFloor (s : RplNode) : Prop :=
  ∀ nbr, s.tables.uses linkStats nbr = true →
    linkStatsEtxDivisor ≤ ((s.tables.table linkStats).data nbr).etx

/-- The three tables have bits of their own. -/
structure Separate (s : RplNode) : Prop where
  linkStats : s.tables.Distinct rplNeighbors linkStats
  ds6Neighbors : s.tables.Distinct rplNeighbors ds6Neighbors
  others : s.tables.Distinct Rpl.linkStats Rpl.ds6Neighbors

/-- What a call keeps of the choices of the node: it changes at most the two targets of the
instance, the link statistics keep to the floor and the tables are sound. -/
structure KeepsRank (s t : RplNode) : Prop where
  inst : t.inst.untargeted = s.inst.untargeted
  lowest : t.lowest = s.lowest
  updates : t.updates = s.updates
  index : ∀ table, (t.tables.table table).index = (s.tables.table table).index
  etxFloor : s.EtxFloor → t.EtxFloor
  sound : s.tables.Sound → t.tables.Sound

/-- The call keeps the pointers right, too. -/
structure KeepsDag (s t : RplNode) : Prop extends KeepsRank s t where
  refers : s.Refers → t.Refers

theorem KeepsRank.refl (s : RplNode) : KeepsRank s s := ⟨rfl, rfl, rfl, fun _ ↦ rfl, id, id⟩

theorem KeepsRank.trans (hst : KeepsRank s t) (htr : KeepsRank t r) : KeepsRank s r where
  inst := htr.inst.trans hst.inst
  lowest := htr.lowest.trans hst.lowest
  updates := htr.updates.trans hst.updates
  index table := (htr.index table).trans (hst.index table)
  etxFloor h := htr.etxFloor (hst.etxFloor h)
  sound h := htr.sound (hst.sound h)

theorem KeepsDag.refl (s : RplNode) : KeepsDag s s := ⟨KeepsRank.refl s, id⟩

theorem KeepsDag.trans (hst : KeepsDag s t) (htr : KeepsDag t r) : KeepsDag s r :=
  ⟨hst.toKeepsRank.trans htr.toKeepsRank, fun h ↦ htr.refers (hst.refers h)⟩

theorem KeepsRank.separate (hst : KeepsRank s t) (hs : s.Separate) : t.Separate := by
  obtain ⟨hstats, hds6, hothers⟩ := hs
  constructor
  · simpa only [NbrTables.Distinct, hst.index] using hstats
  · simpa only [NbrTables.Distinct, hst.index] using hds6
  · simpa only [NbrTables.Distinct, hst.index] using hothers

theorem instWithout_untargeted (gone : Option ℕ) :
    (s.instWithout gone).untargeted = s.inst.untargeted := by
  unfold instWithout
  split
  · rfl
  · split <;> rfl

theorem instWithout_preferredParent (gone : Option ℕ) :
    (s.instWithout gone).preferredParent = s.inst.preferredParent := by
  have huntargeted := congrArg DagInstance.preferredParent (instWithout_untargeted (s := s) gone)
  exact huntargeted

theorem instWithout_target (target : DagInstance → Option ℕ)
    (hkept : ∀ inst nbr, target (inst.withoutTargets nbr) = (target inst).filter (· ≠ nbr))
    (htarget : target (s.instWithout gone) = some nbr) :
    target s.inst = some nbr ∧ (s.tables.uses rplNeighbors nbr = true → gone ≠ some nbr) := by
  unfold instWithout at htarget
  cases gone with
  | none => exact ⟨htarget, fun _ ↦ nofun⟩
  | some key =>
    dsimp only at htarget
    split at htarget
    · rw [hkept, Option.filter_eq_some_iff] at htarget
      refine ⟨htarget.1, fun _ heq ↦ ?_⟩
      have hne : nbr ≠ key := by simpa using htarget.2
      exact hne (Option.some.inj heq).symm
    · rename_i hunused
      refine ⟨htarget, fun huses heq ↦ hunused ?_⟩
      rw [Option.some.inj heq]
      exact huses

theorem refers_of_keeps (hkeeps : NbrTables.Keeps rplNeighbors gone s.tables t.tables)
    (hinst : t.inst = s.instWithout gone)
    (hgone : ∀ key, gone = some key → s.inst.preferredParent ≠ some key) (hs : s.Refers) :
    t.Refers := by
  have hpreferred : t.inst.preferredParent = s.inst.preferredParent := by
    rw [hinst, instWithout_preferredParent]
  have hstays : ∀ nbr, s.inst.preferredParent = some nbr → gone ≠ some nbr :=
    fun nbr hnbr heq ↦ hgone nbr heq hnbr
  constructor
  · intro nbr hnbr
    rw [hpreferred] at hnbr
    exact hkeeps.uses nbr (hstays nbr hnbr) (hs.preferredParent nbr hnbr)
  · intro nbr hnbr
    rw [hinst] at hnbr
    obtain ⟨hbefore, hleft⟩ :=
      instWithout_target DagInstance.urgentProbingTarget (fun _ _ ↦ rfl) hnbr
    have huses := hs.urgentProbingTarget nbr hbefore
    exact hkeeps.uses nbr (hleft huses) huses
  · intro nbr hnbr
    rw [hinst] at hnbr
    obtain ⟨hbefore, hleft⟩ := instWithout_target DagInstance.unicastDioTarget (fun _ _ ↦ rfl) hnbr
    have huses := hs.unicastDioTarget nbr hbefore
    exact hkeeps.uses nbr (hleft huses) huses
  · intro nbr
    rw [hpreferred]
    constructor
    · intro hlocks
      exact (hs.locked nbr).mp (hkeeps.unlocked nbr hlocks)
    · intro hnbr
      rw [hkeeps.locks nbr (hstays nbr hnbr)]
      exact (hs.locked nbr).mpr hnbr

theorem etxFloor_of_shrinks (hshrinks : NbrTables.Shrinks linkStats s.tables t.tables)
    (hs : s.EtxFloor) : t.EtxFloor := by
  intro nbr huses
  rw [hshrinks.data]
  exact hs nbr (hshrinks.uses nbr huses)

theorem worstRankNbr_spec {worst : Linkaddr} (hworst : s.worstRankNbr.2 = some worst) :
    s.rplNeighborGetFromLladdr (some worst) ≠ s.inst.preferredParent := by
  have hfold : ∀ (nbrs : List ℕ) (w : ℕ × Option Linkaddr),
      (∀ worst, w.2 = some worst →
        s.rplNeighborGetFromLladdr (some worst) ≠ s.inst.preferredParent) →
      ∀ worst, (nbrs.foldl (fun worst ds6Nbr ↦
        let lladdr := s.tables.lladdr ds6Nbr
        let rplNbr := s.rplNeighborGetFromLladdr (some lladdr)
        let rank := s.rankViaNbr rplNbr
        if rplNbr ≠ s.inst.preferredParent ∧ worst.1 < rank then (rank, some lladdr)
        else worst) w).2 = some worst →
          s.rplNeighborGetFromLladdr (some worst) ≠ s.inst.preferredParent := by
    intro nbrs
    induction nbrs with
    | nil => exact fun w hw ↦ hw
    | cons ds6Nbr nbrs ih =>
      intro w hw
      rw [List.foldl_cons]
      apply ih
      intro worst hworst
      dsimp only at hworst
      split at hworst
      · rename_i hother
        rw [← Option.some.inj hworst]
        exact hother.1
      · exact hw worst hworst
  exact hfold s.ds6Nbrs (0, none) (fun _ ↦ nofun) worst hworst

theorem rplNbrPolicyFindRemovable_spec {named : Linkaddr}
    (hnamed : s.rplNbrPolicyFindRemovable reason = some named) :
    s.rplNeighborGetFromLladdr (some named) ≠ s.inst.preferredParent := by
  cases reason with
  | rplDio dio =>
    unfold rplNbrPolicyFindRemovable at hnamed
    dsimp only at hnamed
    split at hnamed
    · exact worstRankNbr_spec hnamed
    · cases hnamed
  | rplDis => exact worstRankNbr_spec hnamed
  | ipv6NdAutofill => exact worstRankNbr_spec hnamed
  | other => cases hnamed

theorem evictedKey_ne_preferredParent {key : ℕ} (hs : s.Refers)
    (hevicted : s.tables.evictedKey lladdr (some (s.rplNbrPolicyFindRemovable reason)) removesItem =
      some key) : s.inst.preferredParent ≠ some key := by
  intro hpreferred
  rcases evictedKey_spec hevicted with hunlocked | ⟨named, hnamed, hindex⟩
  · have hlocks := (hs.locked key).mpr hpreferred
    simp [locks, nbrGetBit, hunlocked] at hlocks
  · apply rplNbrPolicyFindRemovable_spec (Option.some.inj hnamed)
    unfold rplNeighborGetFromLladdr nbrTableGetFromLladdr
    rw [hindex, hpreferred, Option.filter_eq_some_iff]
    exact ⟨rfl, hs.preferredParent key hpreferred⟩

theorem addLladdr_refers (table : ℕ) (lladdr : Option Linkaddr) (reason : NbrTableReason)
    (hs : s.Refers) : (s.addLladdr table lladdr reason).2.Refers :=
  refers_of_keeps (nbrTableAddLladdr_keeps ..) rfl
    (fun _ hevicted ↦ evictedKey_ne_preferredParent hs hevicted) hs

theorem addLladdr_keepsDag (hdistinct : s.tables.Distinct linkStats table)
    (lladdr : Option Linkaddr) (reason : NbrTableReason) :
    KeepsDag s (s.addLladdr table lladdr reason).2 := by
  have hshrinks : NbrTables.Shrinks linkStats s.tables (s.addLladdr table lladdr reason).2.tables :=
    nbrTableAddLladdr_shrinks lladdr _ hdistinct
  exact ⟨⟨instWithout_untargeted _, rfl, rfl, hshrinks.index, etxFloor_of_shrinks hshrinks,
    fun hsound ↦ hsound.nbrTableAddLladdr⟩, addLladdr_refers table lladdr reason⟩

theorem updateLladdr_keepsRank (oldAddr : Option Linkaddr) (newAddr : Linkaddr)
    (removeIfDuplicate : Bool) : KeepsRank s (s.updateLladdr oldAddr newAddr removeIfDuplicate) := by
  have hshrinks : NbrTables.Shrinks linkStats s.tables
      (s.updateLladdr oldAddr newAddr removeIfDuplicate).tables :=
    nbrTableUpdateLladdr_shrinks oldAddr newAddr removeIfDuplicate
  exact ⟨instWithout_untargeted _, rfl, rfl, hshrinks.index, etxFloor_of_shrinks hshrinks,
    fun hsound ↦ hsound.nbrTableUpdateLladdr⟩

theorem keepsDag_of_keeps {tables : NbrTables NbrItem}
    (hkeeps : NbrTables.Keeps rplNeighbors none s.tables tables)
    (hshrinks : NbrTables.Shrinks linkStats s.tables tables)
    (hsound : s.tables.Sound → tables.Sound) : KeepsDag s { s with tables := tables } :=
  ⟨⟨rfl, rfl, rfl, hshrinks.index, etxFloor_of_shrinks hshrinks, hsound⟩,
    refers_of_keeps hkeeps rfl (fun _ ↦ nofun)⟩

theorem modifyItem_index (table nbr : ℕ) (f : NbrItem → NbrItem) (other : ℕ) :
    ((s.modifyItem table nbr f).tables.table other).index = (s.tables.table other).index := by
  by_cases hother : other = table
  · simp [modifyItem, hother]
  · simp [modifyItem, hother]

theorem modifyItem_keeps (other table nbr : ℕ) (f : NbrItem → NbrItem) :
    NbrTables.Keeps other none s.tables (s.modifyItem table nbr f).tables := by
  have huses : ∀ i, (s.modifyItem table nbr f).tables.uses other i = s.tables.uses other i := by
    intro i
    rw [uses, modifyItem_index]
    rfl
  have hlocks : ∀ i, (s.modifyItem table nbr f).tables.locks other i = s.tables.locks other i := by
    intro i
    rw [locks, modifyItem_index]
    rfl
  exact ⟨modifyItem_index table nbr f, fun i _ hi ↦ (huses i).trans hi, fun i _ ↦ hlocks i,
    fun i hi ↦ (hlocks i).symm.trans hi⟩

theorem modifyItem_uses (other table nbr : ℕ) (f : NbrItem → NbrItem) (i : ℕ) :
    (s.modifyItem table nbr f).tables.uses other i = s.tables.uses other i := by
  rw [uses, modifyItem_index]
  rfl

theorem modifyItem_sound (hsound : s.tables.Sound) : (s.modifyItem table nbr f).tables.Sound := by
  have hreleases : NbrTables.Releases s.tables (s.modifyItem table nbr f).tables :=
    ⟨rfl, rfl, fun _ ↦ id, fun _ ↦ id⟩
  exact hreleases.sound hsound

theorem modifyItem_keepsDag
    (hetx : table = linkStats → linkStatsEtxDivisor ≤ ((s.tables.table table).data nbr).etx →
      linkStatsEtxDivisor ≤ (f ((s.tables.table table).data nbr)).etx) :
    KeepsDag s (s.modifyItem table nbr f) := by
  refine ⟨⟨rfl, rfl, rfl, modifyItem_index table nbr f, fun hs i hi ↦ ?_, modifyItem_sound⟩,
    refers_of_keeps (modifyItem_keeps ..) rfl (fun _ ↦ nofun)⟩
  rw [modifyItem_uses] at hi
  by_cases htable : table = linkStats
  · subst htable
    by_cases hnbr : i = nbr
    · subst hnbr
      simpa [modifyItem] using hetx rfl (hs i hi)
    · simpa [modifyItem, hnbr] using hs i hi
  · simpa [modifyItem, Ne.symm htable] using hs i hi

theorem uipDs6NbrAdd_keepsDag (hs : s.Separate) (ipaddr : AddressBytes)
    (lladdr : Option Linkaddr) (reason : NbrTableReason) :
    KeepsDag s (s.uipDs6NbrAdd ipaddr lladdr reason).2 := by
  have hadd := addLladdr_keepsDag hs.others lladdr reason
  unfold uipDs6NbrAdd
  rcases hadded : s.addLladdr ds6Neighbors lladdr reason with ⟨_ | nbr, t⟩
  · rw [hadded] at hadd
    exact hadd
  · rw [hadded] at hadd
    have hitem : KeepsDag t (t.modifyItem ds6Neighbors nbr ({ · with ipaddr := ipaddr })) :=
      modifyItem_keepsDag fun _ ↦ id
    exact hadd.trans hitem

theorem autofill_keepsDag (hs : s.Separate) (next : Autofill) : KeepsDag s (s.autofill next) := by
  cases next with
  | none => exact KeepsDag.refl s
  | some next => exact uipDs6NbrAdd_keepsDag hs next.1 (some next.2) .ipv6NdAutofill

theorem rplIcmp6UpdateNbrTable_keepsDag (hs : s.Separate) (sender : Linkaddr)
    (ipaddr : AddressBytes) (reason : NbrTableReason) :
    KeepsDag s (s.rplIcmp6UpdateNbrTable sender ipaddr reason).2 := by
  unfold rplIcmp6UpdateNbrTable
  split
  · exact KeepsDag.refl s
  · exact uipDs6NbrAdd_keepsDag hs ipaddr (some sender) reason

/-! ### Link statistics -/

theorem guessEtxFromRssi_floor (rssi : ℤ) : linkStatsEtxDivisor ≤ guessEtxFromRssi rssi := by
  unfold guessEtxFromRssi linkStatsEtxDivisor
  split
  · decide
  · dsimp only
    have hpos : 0 < (max (min rssi (-60)) (-90 + 1) + 90).toNat := by omega
    have hle : (max (min rssi (-60)) (-90 + 1) + 90).toNat ≤ 30 := by omega
    apply le_min
    · rw [Nat.le_div_iff_mul_le hpos]
      omega
    · decide

theorem etxMean_floor {etx packetEtx ewmaAlpha : ℕ} (hetx : linkStatsEtxDivisor ≤ etx)
    (hpacket : linkStatsEtxDivisor ≤ packetEtx) (halpha : ewmaAlpha ≤ 100) :
    linkStatsEtxDivisor ≤ (etx * (100 - ewmaAlpha) + packetEtx * ewmaAlpha) / 100 := by
  rw [Nat.le_div_iff_mul_le (by decide)]
  calc linkStatsEtxDivisor * 100
      = linkStatsEtxDivisor * (100 - ewmaAlpha) + linkStatsEtxDivisor * ewmaAlpha := by
        rw [← Nat.mul_add, Nat.sub_add_cancel halpha]
    _ ≤ etx * (100 - ewmaAlpha) + packetEtx * ewmaAlpha :=
        Nat.add_le_add (Nat.mul_le_mul_right _ hetx) (Nat.mul_le_mul_right _ hpacket)

theorem addStats_spec {added : Option ℕ} (hindex : (s.tables.table linkStats).index < 8)
    (hadded : s.addLladdr linkStats lladdr reason = (added, t)) :
    t.inst.untargeted = s.inst.untargeted ∧ t.lowest = s.lowest ∧ t.updates = s.updates ∧
      (∀ other, (t.tables.table other).index = (s.tables.table other).index) ∧
        NbrTables.AppearsOnly linkStats added s.tables t.tables ∧
          (s.tables.Sound → t.tables.Sound) ∧ (s.Refers → t.Refers) := by
  have hkeeps : NbrTables.Keeps linkStats _ s.tables (s.addLladdr linkStats lladdr reason).2.tables :=
    nbrTableAddLladdr_keeps ..
  have happears : NbrTables.AppearsOnly linkStats (s.addLladdr linkStats lladdr reason).1 s.tables
      (s.addLladdr linkStats lladdr reason).2.tables :=
    nbrTableAddLladdr_appearsOnly s.tables lladdr _ hindex
  have hrefers := addLladdr_refers (s := s) linkStats lladdr reason
  have huntargeted : (s.addLladdr linkStats lladdr reason).2.inst.untargeted = s.inst.untargeted :=
    instWithout_untargeted _
  obtain rfl : (s.addLladdr linkStats lladdr reason).2 = t := congrArg Prod.snd hadded
  obtain rfl : (s.addLladdr linkStats lladdr reason).1 = added := congrArg Prod.fst hadded
  exact ⟨huntargeted, rfl, rfl, hkeeps.index, happears, fun hsound ↦ hsound.nbrTableAddLladdr,
    hrefers⟩

theorem addStats_none (hs : s.Separate)
    (hadded : s.addLladdr linkStats lladdr reason = (none, t)) : KeepsDag s t := by
  obtain ⟨hinst, hlowest, hupdates, hindex, happears, hsound, hrefers⟩ :=
    addStats_spec hs.linkStats.2.1 hadded
  refine ⟨⟨hinst, hlowest, hupdates, hindex, fun hs i hi ↦ ?_, hsound⟩, hrefers⟩
  obtain ⟨huses, hdata⟩ := (happears i hi).resolve_left nofun
  exact (hs i huses).trans_eq (congrArg NbrItem.etx hdata.symm)

theorem addStats_some {stats : ℕ} (hs : s.Separate)
    (hadded : s.addLladdr linkStats lladdr reason = (some stats, t))
    (hf : ∀ item, linkStatsEtxDivisor ≤ (f item).etx) :
    KeepsDag s (t.modifyItem linkStats stats f) := by
  obtain ⟨hinst, hlowest, hupdates, hindex, happears, hsound, hrefers⟩ :=
    addStats_spec hs.linkStats.2.1 hadded
  refine ⟨⟨hinst, hlowest, hupdates, fun other ↦ ?_, fun hs i hi ↦ ?_,
    fun hs ↦ modifyItem_sound (hsound hs)⟩, fun hs ↦ ?_⟩
  · exact (modifyItem_index ..).trans (hindex other)
  · rw [modifyItem_uses] at hi
    by_cases hnew : i = stats
    · subst hnew
      simpa [modifyItem] using hf _
    · obtain ⟨huses, hdata⟩ := (happears i hi).resolve_left fun heq ↦
        hnew (Option.some.inj heq).symm
      have hetx := (hs i huses).trans_eq (congrArg NbrItem.etx hdata.symm)
      simpa [modifyItem, hnew] using hetx
  · exact refers_of_keeps (modifyItem_keeps ..) rfl (fun _ ↦ nofun) (hrefers hs)

theorem modifyStats_keepsDag (hf : ∀ item : NbrItem, linkStatsEtxDivisor ≤ item.etx →
      linkStatsEtxDivisor ≤ (f item).etx) (stats : ℕ) :
    KeepsDag s (s.modifyItem linkStats stats f) :=
  modifyItem_keepsDag fun _ ↦ hf _

theorem linkStatsInputCallback_keepsDag (hs : s.Separate) (lladdr : Linkaddr) (packetRssi : ℤ) :
    KeepsDag s (s.linkStatsInputCallback lladdr packetRssi) := by
  unfold linkStatsInputCallback
  split
  · rcases hadded : s.addLladdr linkStats (some lladdr) .other with ⟨_ | stats, t⟩
    · exact addStats_none hs hadded
    · exact addStats_some hs hadded fun _ ↦ guessEtxFromRssi_floor packetRssi
  · apply modifyStats_keepsDag
    exact fun _ ↦ id

theorem linkStatsPacketSent_keepsDag (hs : s.Separate) (lladdr : Linkaddr)
    (status : Csma.MacStatus) {numtx : ℕ} (hnumtx : 1 ≤ numtx ∧ numtx < 512) :
    KeepsDag s (s.linkStatsPacketSent conf lladdr status numtx) := by
  have hpacket : linkStatsEtxDivisor ≤
      (if status = .noack then 16 else numtx) * linkStatsEtxDivisor % 2 ^ 16 := by
    unfold linkStatsEtxDivisor
    split
    · decide
    · rw [Nat.mod_eq_of_lt (by omega)]
      omega
  have halpha : ∀ fresh : Bool, (if fresh then 10 else 25) ≤ 100 := by decide
  unfold linkStatsPacketSent
  split
  · exact KeepsDag.refl s
  · dsimp only
    split
    · rename_i s' hfound
      split at hfound
      · cases hfound
      · rcases hadded : s.addLladdr linkStats (some lladdr) .other with ⟨_ | stats, t⟩
        · rw [hadded] at hfound
          cases hfound
          exact addStats_none hs hadded
        · rw [hadded] at hfound
          cases hfound
    · rename_i stats s' hfound
      refine KeepsDag.trans ?_ (modifyStats_keepsDag (fun item hetx ↦ ?_) stats)
      · split at hfound
        · cases hfound
          exact KeepsDag.refl s
        · rcases hadded : s.addLladdr linkStats (some lladdr) .other with ⟨_ | stats', t⟩
          · rw [hadded] at hfound
            cases hfound
          · rw [hadded] at hfound
            cases hfound
            exact addStats_some hs hadded fun item ↦ guessEtxFromRssi_floor item.rssi
      · exact etxMean_floor hetx hpacket (halpha _)

theorem linkStatsPeriodic_keepsDag : KeepsDag s s.linkStatsPeriodic := by
  have hfold : ∀ (items : List ℕ) (s : RplNode), KeepsDag s (items.foldl (fun s stats ↦
      s.modifyItem linkStats stats fun item ↦ { item with freshness := item.freshness / 2 }) s) := by
    intro items
    induction items with
    | nil => exact KeepsDag.refl
    | cons stats items ih =>
      intro s
      refine KeepsDag.trans ?_ (ih _)
      apply modifyStats_keepsDag
      exact fun _ ↦ id
  exact hfold s.statsItems s

theorem linkStatsReset_keeps (hs : s.Separate) : KeepsDag s s.linkStatsReset ∧
      NbrTables.Keeps rplNeighbors none s.tables s.linkStatsReset.tables ∧
        s.linkStatsReset.inst = s.inst := by
  have hfold : ∀ (items : List ℕ) (s : RplNode), s.Separate →
      KeepsDag s (items.foldl (fun s stats ↦
        { s with tables := (s.tables.nbrTableRemove linkStats (some stats)).2 }) s) ∧
      NbrTables.Keeps rplNeighbors none s.tables (items.foldl (fun s stats ↦
        { s with tables := (s.tables.nbrTableRemove linkStats (some stats)).2 }) s).tables ∧
      (items.foldl (fun s stats ↦
        { s with tables := (s.tables.nbrTableRemove linkStats (some stats)).2 }) s).inst =
          s.inst := by
    intro items
    induction items with
    | nil => exact fun s _ ↦ ⟨KeepsDag.refl s, NbrTables.Keeps.refl _, rfl⟩
    | cons stats items ih =>
      intro s hs
      have hkeeps := nbrTableRemove_keeps hs.linkStats (some stats)
      have hdag := keepsDag_of_keeps hkeeps (nbrTableRemove_shrinks (some stats))
        (nbrTableRemove_releases linkStats (some stats)).sound
      obtain ⟨hrest, hrestKeeps, hinst⟩ := ih _ (hdag.separate hs)
      exact ⟨hdag.trans hrest, hkeeps.trans hrestKeeps, hinst⟩
  exact hfold s.statsItems s hs

theorem addRplNbr_keepsDag (hs : s.Separate) (lladdr : Option Linkaddr)
    (reason : NbrTableReason) : KeepsDag s (s.addLladdr rplNeighbors lladdr reason).2 := by
  obtain ⟨hrpl, hstats, hne⟩ := hs.linkStats
  exact addLladdr_keepsDag ⟨hstats, hrpl, hne.symm⟩ lladdr reason

theorem modifyRplNbr_keepsDag (nbr : ℕ) (f : NbrItem → NbrItem) :
    KeepsDag s (s.modifyItem rplNeighbors nbr f) :=
  modifyItem_keepsDag fun htable ↦ absurd htable (by decide)

theorem updateNbrFromDio_keepsDag (hs : s.Separate) (ipaddr : AddressBytes) (dio : RplDio) :
    KeepsDag s (s.updateNbrFromDio ipaddr dio) := by
  have hset : ∀ (t : RplNode) (nbr : ℕ), KeepsDag t (t.modifyItem rplNeighbors nbr
      ({ · with rank := dio.rank.toNat, dtsn := dio.dtsn.toNat })) :=
    fun t nbr ↦ modifyRplNbr_keepsDag nbr _
  unfold updateNbrFromDio
  cases s.rplNeighborGetFromIpaddr ipaddr with
  | some nbr => exact hset s nbr
  | none =>
    cases s.uipDs6NbrLladdrFromIpaddr ipaddr with
    | none => exact KeepsDag.refl s
    | some lladdr =>
      have hadd := addRplNbr_keepsDag hs (some lladdr) (.rplDio dio)
      dsimp only
      rcases hadded : s.addLladdr rplNeighbors (some lladdr) (.rplDio dio) with ⟨_ | nbr, t⟩
      · rw [hadded] at hadd
        exact hadd
      · rw [hadded] at hadd
        exact hadd.trans (hset t nbr)

theorem OthersTable.distinct (htable : s.OthersTable table) (hs : s.Separate) :
    s.tables.Distinct rplNeighbors table ∧ s.tables.Distinct linkStats table :=
  ⟨⟨hs.linkStats.1, htable.1, htable.2.1.symm⟩, ⟨hs.linkStats.2.1, htable.1, htable.2.2.symm⟩⟩

theorem next_keepsDag {event : RplEvent} (hs : s.Separate) (hcall : event.isTableCall = true)
    (hnext : s.next conf event = some t) : KeepsDag s t := by
  cases event with
  | packetSent lladdr status numtx =>
    obtain ⟨hnumtx, ⟨⟩⟩ := Option.ite_none_right_eq_some.mp hnext
    exact linkStatsPacketSent_keepsDag hs lladdr status hnumtx
  | packetInput lladdr rssi =>
    obtain rfl := Option.some.inj hnext
    exact linkStatsInputCallback_keepsDag hs lladdr rssi
  | linkStatsPeriodic =>
    obtain rfl := Option.some.inj hnext
    exact linkStatsPeriodic_keepsDag
  | nbrAdd ipaddr lladdr reason =>
    obtain rfl := Option.some.inj hnext
    exact uipDs6NbrAdd_keepsDag hs ipaddr lladdr reason
  | nbrRm nbr =>
    obtain rfl := Option.some.inj hnext
    have hkeeps := nbrTableRemove_keeps hs.ds6Neighbors (some nbr)
    exact keepsDag_of_keeps hkeeps (nbrTableRemove_shrinks (some nbr))
      (nbrTableRemove_releases ds6Neighbors (some nbr)).sound
  | add table lladdr =>
    obtain ⟨htable, ⟨⟩⟩ := Option.ite_none_right_eq_some.mp hnext
    exact addLladdr_keepsDag (htable.distinct hs).2 lladdr .other
  | remove table item =>
    obtain ⟨htable, ⟨⟩⟩ := Option.ite_none_right_eq_some.mp hnext
    have hkeeps := nbrTableRemove_keeps (htable.distinct hs).1 (some item)
    exact keepsDag_of_keeps hkeeps (nbrTableRemove_shrinks (some item))
      (nbrTableRemove_releases table (some item)).sound
  | lock table item =>
    obtain ⟨htable, ⟨⟩⟩ := Option.ite_none_right_eq_some.mp hnext
    have hkeeps := nbrTableLock_keeps (htable.1.distinct hs).1 (some item)
    refine keepsDag_of_keeps hkeeps (nbrTableLock_shrinks (some item)) fun hsound ↦ ?_
    apply hsound.nbrTableLock
    rintro i ⟨⟩
    exact htable.2
  | unlock table item =>
    obtain ⟨htable, ⟨⟩⟩ := Option.ite_none_right_eq_some.mp hnext
    have hkeeps := nbrTableUnlock_keeps (htable.distinct hs).1 (some item)
    exact keepsDag_of_keeps hkeeps (nbrTableUnlock_shrinks (some item))
      (nbrTableUnlock_releases table (some item)).sound
  | _ => cases hcall

end RplNode

end ContikiMaster.Rpl
