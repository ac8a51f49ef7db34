import ContikiMaster.Routing.Network
import ContikiMaster.Lib.Pointer
import Mathlib.Tactic.NormNum

/-!
# Routes without loops

Following the best nodes leads to the coordinator as long as no advertisement refreshes a
route with a weaker strength: every node is then at most as strong as its best node. The
last section runs a network in which a weakening refresh closes a loop.
-/

namespace ContikiMaster.Routing

open Sys Tsch Lib Function Option

namespace Network

/-- A delivery that refreshes the route of its receiver with a weaker strength. -/
def weakens (net : Network) : NetworkOp → Bool
  | .deliver receiver adv _ =>
    let n := net.node receiver
    decide (adv.bestNode ≠ n.nodeId ∧ n.maxAdvertisementSeq < adv.seq ∧
      n.bestNode = adv.nodeId ∧ offeredStrength n adv < n.maxMasterStrength)
  | _ => false

/-- A step that weakens no route. -/
def nextSteady (config : NetworkConfig) (net : Network) (op : NetworkOp) : Option Network :=
  if net.weakens op then none else net.next config op

/-- The routes of a network: the nodes and the advertisements on the air. -/
structure RouteInv (config : NetworkConfig) (net : Network) : Prop where
  nodeId : ∀ i, IsNode config i → (net.node i).nodeId = i
  issued : (net.bestNode coordinator = coordinator ∧ net.strength coordinator = 100) ∨
    (net.sent = [] ∧ ∀ i, IsNode config i → net.bestNode i = 0 ∧ net.strength i = 0)
  bounds : ∀ i, IsNode config i → 0 ≤ net.strength i ∧ net.strength i ≤ 100
  chosen : ∀ i, IsNode config i → 0 < net.strength i → net.bestNode i ≠ 0
  rising : ∀ i, IsNode config i → net.bestNode i ≠ 0 →
    IsNode config (net.bestNode i) ∧ net.strength i ≤ net.strength (net.bestNode i)
  leads : ∀ i, IsNode config i → net.bestNode i ≠ 0 → LeadsTo net.bestNode coordinator i
  sent : ∀ adv ∈ net.sent, IsNode config adv.nodeId ∧
    adv.strengthToMaster ≤ net.strength adv.nodeId ∧
    (adv.nodeId = coordinator → adv.bestNode = coordinator)

section Store

variable {config : NetworkConfig} {net : Network} {i j : ℕ} {n : Node} {out : Option NetworkOutput}

theorem isNode_coordinator (config : NetworkConfig) : IsNode config coordinator :=
  ⟨le_rfl, config.nodeCount_pos⟩

theorem isNode_mod (hi : IsNode config i) : i % 256 = i := by
  have hle := config.nodeCount_le
  have hi' : i ≤ config.nodeCount := hi.2
  exact Nat.mod_eq_of_lt (by omega)

theorem bestNode_store : (net.store i n out).bestNode = update net.bestNode i n.bestNode := by
  funext j
  unfold bestNode
  by_cases hj : j = i
  · rw [hj, store_node_self, update_self]
  · rw [store_node_of_ne hj, update_of_ne hj]

theorem strength_store :
    (net.store i n out).strength = update net.strength i n.maxMasterStrength := by
  funext j
  unfold strength
  by_cases hj : j = i
  · rw [hj, store_node_self, update_self]
  · rw [store_node_of_ne hj, update_of_ne hj]

section

variable (hinv : RouteInv config net)

include hinv

theorem RouteInv.rising_along (hi : IsNode config i) (hpos : 0 < net.strength i) (k : ℕ) :
    IsNode config (net.bestNode^[k] i) ∧ 0 < net.strength (net.bestNode^[k] i) ∧
      net.strength (net.bestNode^[k] i) ≤ net.strength (net.bestNode^[k + 1] i) := by
  have hstep : ∀ j, IsNode config j → 0 < net.strength j →
      IsNode config (net.bestNode j) ∧ net.strength j ≤ net.strength (net.bestNode j) :=
    fun j hj hjpos ↦ hinv.rising j hj (hinv.chosen j hj hjpos)
  have hreached : IsNode config (net.bestNode^[k] i) ∧ 0 < net.strength (net.bestNode^[k] i) := by
    induction k with
    | zero => exact ⟨hi, hpos⟩
    | succ k ih =>
      obtain ⟨hnode, hle⟩ := hstep _ ih.1 ih.2
      rw [iterate_succ_apply']
      exact ⟨hnode, ih.2.trans_le hle⟩
  refine ⟨hreached.1, hreached.2, ?_⟩
  rw [iterate_succ_apply']
  exact (hstep _ hreached.1 hreached.2).2

theorem RouteInv.avoids (hj : IsNode config j)
    (hpos : 0 < net.strength j) (hlt : net.strength i < net.strength j) :
    AvoidsTo net.bestNode coordinator i j := by
  obtain ⟨k, hk⟩ := hinv.leads j hj (hinv.chosen j hj hpos)
  exact avoidsTo_of_lt hk (fun m _ ↦ (hinv.rising_along hj hpos m).2.2) hlt

theorem RouteInv.store_same (hi : IsNode config i)
    (hid : n.nodeId = (net.node i).nodeId) (hbest : n.bestNode = net.bestNode i)
    (hstrength : n.maxMasterStrength = net.strength i)
    (hsent : ∀ adv o, out = some o → o.mrp.data = .advertisement adv → adv.nodeId = i ∧
      adv.strengthToMaster = net.strength i ∧ (i = coordinator → adv.bestNode = coordinator))
    (hquiet : net.sent = [] → out = none) : RouteInv config (net.store i n out) := by
  have hbestNode : (net.store i n out).bestNode = net.bestNode := by
    rw [bestNode_store, hbest, update_eq_self]
  have hstrengths : (net.store i n out).strength = net.strength := by
    rw [strength_store, hstrength, update_eq_self]
  refine ⟨fun j hj ↦ ?_, ?_, ?_, ?_, ?_, ?_, ?_⟩
  · by_cases hji : j = i
    · rw [hji, store_node_self, hid, hinv.nodeId i hi]
    · rw [store_node_of_ne hji, hinv.nodeId j hj]
  · rw [hbestNode, hstrengths]
    rcases hinv.issued with hissued | ⟨hnone, hrest⟩
    · exact .inl hissued
    · refine .inr ⟨?_, hrest⟩
      rw [hquiet hnone]
      exact hnone
  · rw [hstrengths]
    exact hinv.bounds
  · rw [hbestNode, hstrengths]
    exact hinv.chosen
  · rw [hbestNode, hstrengths]
    exact hinv.rising
  · rw [hbestNode]
    exact hinv.leads
  · intro adv hadv
    rw [hstrengths]
    rcases mem_sent_store.mp hadv with hold | ⟨o, ho, hdata⟩
    · exact hinv.sent adv hold
    · obtain ⟨hid', hstrength', hroot⟩ := hsent adv o ho hdata
      rw [hid']
      exact ⟨hi, hstrength'.le, hroot⟩

theorem RouteInv.store_raised (hi : IsNode config i)
    (hnotRoot : i ≠ coordinator) (hid : n.nodeId = (net.node i).nodeId)
    (hnode : IsNode config n.bestNode) (hle : net.strength i ≤ n.maxMasterStrength)
    (hbound : n.maxMasterStrength ≤ net.strength n.bestNode) (hne : n.bestNode ≠ i)
    (hroute : n.bestNode = net.bestNode i ∨ net.strength i < n.maxMasterStrength)
    (hissued : net.bestNode coordinator = coordinator ∧ net.strength coordinator = 100)
    (hsent : ∀ adv o, out = some o → o.mrp.data = .advertisement adv → adv.nodeId = i ∧
      adv.strengthToMaster = n.maxMasterStrength) : RouteInv config (net.store i n out) := by
  have hpositive : n.bestNode ≠ 0 := Nat.one_le_iff_ne_zero.mp hnode.1
  have hmono : ∀ j, net.strength j ≤ (net.store i n out).strength j := by
    intro j
    rw [strength_store]
    by_cases hj : j = i
    · rw [hj, update_self]
      exact hle
    · rw [update_of_ne hj]
  have hself : (net.store i n out).strength i = n.maxMasterStrength := by
    rw [strength_store, update_self]
  have hother : ∀ j, j ≠ i → (net.store i n out).strength j = net.strength j := by
    intro j hj
    rw [strength_store, update_of_ne hj]
  have hbestSelf : (net.store i n out).bestNode i = n.bestNode := by
    rw [bestNode_store, update_self]
  have hbestOther : ∀ j, j ≠ i → (net.store i n out).bestNode j = net.bestNode j := by
    intro j hj
    rw [bestNode_store, update_of_ne hj]
  refine ⟨fun j hj ↦ ?_, .inl ⟨?_, ?_⟩, fun j hj ↦ ?_, fun j hj hpos ↦ ?_, fun j hj hbest ↦ ?_,
    fun j hj hbest ↦ ?_, fun adv hadv ↦ ?_⟩
  · by_cases hji : j = i
    · rw [hji, store_node_self, hid, hinv.nodeId i hi]
    · rw [store_node_of_ne hji, hinv.nodeId j hj]
  · rw [hbestOther _ hnotRoot.symm]
    exact hissued.1
  · rw [hother _ hnotRoot.symm]
    exact hissued.2
  · by_cases hji : j = i
    · rw [hji, hself]
      exact ⟨(hinv.bounds i hi).1.trans hle, hbound.trans (hinv.bounds _ hnode).2⟩
    · rw [hother j hji]
      exact hinv.bounds j hj
  · by_cases hji : j = i
    · rw [hji, hbestSelf]
      exact hpositive
    · rw [hbestOther j hji]
      rw [hother j hji] at hpos
      exact hinv.chosen j hj hpos
  · by_cases hji : j = i
    · rw [hji, hbestSelf, hself, hother _ hne]
      exact ⟨hnode, hbound⟩
    · rw [hbestOther j hji] at hbest ⊢
      obtain ⟨hnext, hup⟩ := hinv.rising j hj hbest
      rw [hother j hji]
      exact ⟨hnext, hup.trans (hmono _)⟩
  · rw [bestNode_store]
    rcases hroute with hsame | hstronger
    · -- the pointer stays
      rw [hsame, update_eq_self]
      by_cases hji : j = i
      · rw [hji]
        exact hinv.leads i hi (hsame ▸ hpositive)
      · rw [hbestOther j hji] at hbest
        exact hinv.leads j hj hbest
    · -- the pointer moves to a node that leads to the coordinator without the one that moved
      have hlt : net.strength i < net.strength n.bestNode := hstronger.trans_le hbound
      have havoids : AvoidsTo net.bestNode coordinator i n.bestNode :=
        hinv.avoids hnode ((hinv.bounds i hi).1.trans_lt hlt) hlt
      apply leadsTo_update havoids
      by_cases hji : j = i
      · exact .inl hji
      · rw [hbestOther j hji] at hbest
        exact .inr (hinv.leads j hj hbest)
  · rcases mem_sent_store.mp hadv with hold | ⟨o, ho, hdata⟩
    · obtain ⟨horigin, hweaker, hroot⟩ := hinv.sent adv hold
      exact ⟨horigin, hweaker.trans (hmono _), hroot⟩
    · obtain ⟨hid', hstrength'⟩ := hsent adv o ho hdata
      rw [hid', hself, hstrength']
      exact ⟨hi, le_rfl, fun hroot ↦ absurd hroot hnotRoot⟩

end

end Store

section Step

variable {config : NetworkConfig} {net net' : Network}

theorem routeInv_initial (config : NetworkConfig) : RouteInv config (initial config) := by
  refine ⟨fun _ _ ↦ rfl, .inr ⟨rfl, fun _ _ ↦ ⟨rfl, rfl⟩⟩, fun _ _ ↦ ⟨le_rfl, ?_⟩,
    fun i _ hpos ↦ ?_, fun i _ hbest ↦ ?_, fun i _ hbest ↦ ?_, fun adv hadv ↦ ?_⟩
  · change (0 : ℚ) ≤ 100
    norm_num
  · exact absurd hpos (lt_irrefl _)
  · exact absurd rfl hbest
  · exact absurd rfl hbest
  · cases hadv

theorem routeInv_issue {n : Node} {o : NetworkOutput} {env : OutputEnv} (hinv : RouteInv config net)
    (hcall : issueAdvertisement (net.node coordinator) env = .ok (o, n)) :
    RouteInv config (net.store coordinator n (some o)) := by
  obtain ⟨hid, hbest, hstrength, -, hdata⟩ := issueAdvertisement_spec hcall
  have hroot := isNode_coordinator config
  rw [hinv.nodeId _ hroot] at hid hbest hdata
  have hnew : ∀ adv, o.mrp.data = .advertisement adv →
      adv.nodeId = coordinator ∧ adv.strengthToMaster = 100 ∧ adv.bestNode = coordinator := by
    intro adv hadv
    rw [hdata] at hadv
    cases hadv
    exact ⟨rfl, rfl, rfl⟩
  rcases hinv.issued with ⟨hbest', hstrength'⟩ | ⟨hquiet, hzero⟩
  · have hbests : (net.store coordinator n (some o)).bestNode = net.bestNode := by
      rw [bestNode_store, hbest, show coordinator % 256 = net.bestNode coordinator from hbest'.symm,
        update_eq_self]
    have hstrengths : (net.store coordinator n (some o)).strength = net.strength := by
      rw [strength_store, hstrength, ← hstrength', update_eq_self]
    refine ⟨fun j hj ↦ ?_, ?_, ?_, ?_, ?_, ?_, fun adv hadv ↦ ?_⟩
    · by_cases hj1 : j = coordinator
      · rw [hj1, store_node_self, hid]
      · rw [store_node_of_ne hj1, hinv.nodeId j hj]
    · rw [hbests, hstrengths]
      exact .inl ⟨hbest', hstrength'⟩
    · rw [hstrengths]
      exact hinv.bounds
    · rw [hbests, hstrengths]
      exact hinv.chosen
    · rw [hbests, hstrengths]
      exact hinv.rising
    · rw [hbests]
      exact hinv.leads
    · rw [hstrengths]
      rcases mem_sent_store.mp hadv with hold | ⟨o', ho', hadv'⟩
      · exact hinv.sent adv hold
      · cases ho'
        obtain ⟨hid', hstrength'', hbest''⟩ := hnew adv hadv'
        rw [hid', hstrength'', hstrength']
        exact ⟨hroot, le_rfl, fun _ ↦ hbest''⟩
  · -- the first advertisement: no other node has a route yet
    have hbestSelf : (net.store coordinator n (some o)).bestNode coordinator = coordinator := by
      rw [bestNode_store, update_self, hbest]
      rfl
    have hstrengthSelf : (net.store coordinator n (some o)).strength coordinator = 100 := by
      rw [strength_store, update_self, hstrength]
    have hothers : ∀ j, IsNode config j → j ≠ coordinator →
        (net.store coordinator n (some o)).bestNode j = 0 ∧
          (net.store coordinator n (some o)).strength j = 0 := by
      intro j hj hne
      rw [bestNode_store, strength_store, update_of_ne hne, update_of_ne hne]
      exact hzero j hj
    refine ⟨fun j hj ↦ ?_, .inl ⟨hbestSelf, hstrengthSelf⟩, fun j hj ↦ ?_, fun j hj hpos ↦ ?_,
      fun j hj hbestj ↦ ?_, fun j hj hbestj ↦ ?_, fun adv hadv ↦ ?_⟩
    · by_cases hj1 : j = coordinator
      · rw [hj1, store_node_self, hid]
      · rw [store_node_of_ne hj1, hinv.nodeId j hj]
    · by_cases hj1 : j = coordinator
      · rw [hj1, hstrengthSelf]
        norm_num
      · rw [(hothers j hj hj1).2]
        norm_num
    · by_cases hj1 : j = coordinator
      · rw [hj1, hbestSelf]
        exact one_ne_zero
      · rw [(hothers j hj hj1).2] at hpos
        exact absurd hpos (lt_irrefl _)
    · by_cases hj1 : j = coordinator
      · rw [hj1, hbestSelf]
        exact ⟨hroot, le_rfl⟩
      · exact absurd (hothers j hj hj1).1 hbestj
    · by_cases hj1 : j = coordinator
      · rw [hj1]
        exact leadsTo_root
      · exact absurd (hothers j hj hj1).1 hbestj
    · rcases mem_sent_store.mp hadv with hold | ⟨o', ho', hadv'⟩
      · rw [hquiet] at hold
        cases hold
      · cases ho'
        obtain ⟨hid', hstrength'', hbest''⟩ := hnew adv hadv'
        rw [hid', hstrength'', hstrengthSelf]
        exact ⟨hroot, le_rfl, fun _ ↦ hbest''⟩

theorem routeInv_deliver {i : ℕ} {adv : Advertisement} {env : OutputEnv} {n : Node}
    {out : Option NetworkOutput} (hinv : RouteInv config net) (hi : IsNode config i)
    (hadv : adv ∈ net.sent) (hsteady : net.weakens (.deliver i adv env) = false)
    (hcall : onReceivedAdvertisement (net.node i) adv env = .ok (out, n)) :
    RouteInv config (net.store i n out) := by
  have hhandled := onReceivedAdvertisement_spec hcall
  obtain ⟨horigin, hweaker, hrootAdv⟩ := hinv.sent adv hadv
  have hid := hhandled.same.nodeId
  have hissued : net.bestNode coordinator = coordinator ∧ net.strength coordinator = 100 := by
    rcases hinv.issued with hissued | ⟨hquiet, -⟩
    · exact hissued
    · rw [hquiet] at hadv
      cases hadv
  have hsent : ∀ adv' o, out = some o → o.mrp.data = .advertisement adv' → adv'.nodeId = i ∧
      adv'.strengthToMaster = n.maxMasterStrength ∧ i ≠ coordinator := by
    intro adv' o ho hdata
    obtain ⟨hnotOne, -, -, -, hdata'⟩ := hhandled.sent o ho
    rw [hdata'] at hdata
    cases hdata
    rw [hinv.nodeId i hi] at hnotOne ⊢
    exact ⟨isNode_mod hi, rfl, hnotOne⟩
  have hoffered : offeredStrength (net.node i) adv ≤ net.strength adv.nodeId :=
    (min_le_left _ _).trans hweaker
  cases hhandled.route with
  | kept hbest hstrength =>
    refine hinv.store_same hi hid hbest hstrength (fun adv' o ho hdata ↦ ?_) fun hquiet ↦ ?_
    · obtain ⟨hid', hstrength', hnotRoot⟩ := hsent adv' o ho hdata
      exact ⟨hid', hstrength'.trans hstrength, fun hroot ↦ absurd hroot hnotRoot⟩
    · rw [hquiet] at hadv
      cases hadv
  | refreshed hsender hbest hother hstrength hreason =>
    have hnotRoot : i ≠ coordinator := by
      intro hroot
      have hfrom : adv.nodeId = coordinator := by
        rw [← hsender, hroot]
        exact hissued.1
      apply hother
      rw [hrootAdv hfrom, hinv.nodeId i hi, hroot]
    have hbestNe : (net.node i).bestNode ≠ 0 := by
      rw [hsender]
      exact Nat.one_le_iff_ne_zero.mp horigin.1
    have hnotSelf : n.bestNode ≠ i := by
      intro hself
      have hfixed : net.bestNode i = i := hbest.symm.trans hself
      exact not_leadsTo_of_fixed hfixed hnotRoot (hinv.leads i hi hbestNe)
    have hle : net.strength i ≤ n.maxMasterStrength := by
      rw [hstrength]
      rcases hreason with hnewer | hstronger
      · by_contra hlt
        have hweakens : net.weakens (.deliver i adv env) = true :=
          decide_eq_true ⟨hother, hnewer, hsender, not_le.mp hlt⟩
        rw [hsteady] at hweakens
        cases hweakens
      · exact hstronger.le
    refine hinv.store_raised hi hnotRoot hid ?_ hle ?_ hnotSelf (.inl hbest) hissued
      fun adv' o ho hdata ↦ ⟨(hsent adv' o ho hdata).1, (hsent adv' o ho hdata).2.1⟩
    · rw [hbest, hsender]
      exact horigin
    · rw [hbest, hsender, hstrength]
      exact hoffered
  | switched hsender hbest hother hstrength hstronger =>
    have hlt : net.strength i < net.strength adv.nodeId := hstronger.trans_le hoffered
    have hnotRoot : i ≠ coordinator := by
      intro hroot
      rw [hroot, hissued.2] at hlt
      exact absurd (hinv.bounds _ horigin).2 (not_le.mpr hlt)
    have hnotSelf : n.bestNode ≠ i := by
      intro hself
      rw [← hbest, hself] at hlt
      exact absurd hlt (lt_irrefl _)
    refine hinv.store_raised hi hnotRoot hid ?_ ?_ ?_ hnotSelf (.inr ?_) hissued
      fun adv' o ho hdata ↦ ⟨(hsent adv' o ho hdata).1, (hsent adv' o ho hdata).2.1⟩
    · rw [hbest]
      exact horigin
    · rw [hstrength]
      exact hstronger.le
    · rw [hbest, hstrength]
      exact hoffered
    · rw [hstrength]
      exact hstronger

theorem routeInv_step (net : Network) (op : NetworkOp) (net' : Network)
    (hinv : RouteInv config net) (hstep : StepOf (nextSteady config) net op net') :
    RouteInv config net' := by
  unfold StepOf nextSteady at hstep
  split at hstep
  · cases hstep
  rename_i hsteady
  cases op with
  | issue env =>
    obtain ⟨⟨o, n⟩, hcall, rfl⟩ := map_eq_some_iff.mp hstep
    exact routeInv_issue hinv (toOption_eq_some hcall)
  | deliver i adv env =>
    unfold next at hstep
    simp only at hstep
    split at hstep
    · rename_i hguard
      obtain ⟨⟨o, n⟩, hcall, rfl⟩ := map_eq_some_iff.mp hstep
      exact routeInv_deliver hinv hguard.1 hguard.2 (by simpa using hsteady)
        (toOption_eq_some hcall)
    · cases hstep
  | beacon i beacon =>
    unfold next at hstep
    simp only at hstep
    split at hstep
    · rename_i hguard
      cases hstep
      exact hinv.store_same hguard.1 rfl rfl rfl (fun _ _ ho ↦ by cases ho) fun _ ↦ rfl
    · cases hstep
  | macCall i op =>
    unfold next at hstep
    simp only at hstep
    split at hstep
    · rename_i hi
      obtain ⟨mac, -, rfl⟩ := map_eq_some_iff.mp hstep
      exact hinv.store_same hi rfl rfl rfl (fun _ _ ho ↦ by cases ho) fun _ ↦ rfl
    · cases hstep

end Step

/-- In every run in which no delivery weakens a route, following the best nodes from any node that
has one reaches the coordinator and visits no node twice. -/
theorem reaches_coordinator_of_steadyRun {config : NetworkConfig} {ops : List NetworkOp}
    {net : Network} (hrun : NetworkRun nextSteady config ops net) :
    ∀ i, IsNode config i → net.bestNode i ≠ 0 →
      ReachesWithoutRepeat net.bestNode coordinator i := by
  have hinv : RouteInv config net := Run.invariant routeInv_step hrun (routeInv_initial config)
  intro i hi hbest
  exact (hinv.leads i hi hbest).withoutRepeat

def fourNodes : NetworkConfig where
  nodeCount := 4
  nodeCount_pos := by decide
  nodeCount_le := by decide
  hashMapSize := 3
  quotient := fun received highest ↦ received / highest
  initialMac := fun _ ↦ (tschInit smallConfig).toOption.getD (Mac.zero smallConfig)

def sendingEnv : OutputEnv := ⟨some 9, some ⟨[2], 9⟩, true⟩

/-- All nodes join; each hears one beacon of the next one, node 2 also one of node 4; the first
advertisement builds the routes 4, 3, 2, 1. -/
def chainOps : List NetworkOp :=
  [.macCall 1 (.synchronize ⟨100, 0⟩ 0 true), .macCall 2 (.synchronize ⟨100, 0⟩ 1 true),
    .macCall 3 (.synchronize ⟨100, 0⟩ 2 true), .macCall 4 (.synchronize ⟨100, 0⟩ 3 true),
    .beacon 2 ⟨1, 1⟩, .beacon 2 ⟨4, 1⟩, .beacon 3 ⟨2, 1⟩, .beacon 4 ⟨3, 1⟩,
    .issue sendingEnv, .deliver 2 ⟨1, 1, 1, 100⟩ sendingEnv,
    .deliver 3 ⟨2, 1, 1, 1⟩ sendingEnv, .deliver 4 ⟨3, 1, 2, 1⟩ sendingEnv]

/-- Node 2 misses a beacon of node 1, the second advertisement halves its strength, and the copy
that node 4 passes on, with its old strength, looks better. -/
def loopOps : List NetworkOp := chainOps ++
  [.beacon 2 ⟨4, 2⟩, .issue sendingEnv, .deliver 2 ⟨1, 2, 1, 100⟩ sendingEnv,
    .deliver 4 ⟨1, 2, 1, 100⟩ sendingEnv, .deliver 2 ⟨4, 2, 3, 1⟩ sendingEnv]

theorem reaches_coordinator_chain :
    ∃ net, NetworkRun nextSteady fourNodes chainOps net ∧
      ReachesWithoutRepeat net.bestNode coordinator 4 := by
  obtain ⟨net, hrun, hbest⟩ : ∃ net, NetworkRun nextSteady fourNodes chainOps net ∧
      net.bestNode 4 ≠ 0 := exists_run (by decide +kernel)
  exact ⟨net, hrun, reaches_coordinator_of_steadyRun hrun 4 (by decide) hbest⟩

/-- The best nodes of 2, 4 and 3 are 4, 3 and 2. -/
theorem bestNodes_close_loop :
    ∃ net, NetworkRun next fourNodes loopOps net ∧ net.bestNode 2 ≠ 0 ∧
      ¬ ReachesWithoutRepeat net.bestNode coordinator 2 := by
  obtain ⟨net, hrun, htwo, hfour, hthree⟩ : ∃ net, NetworkRun next fourNodes loopOps net ∧
      net.bestNode 2 = 4 ∧ net.bestNode 4 = 3 ∧ net.bestNode 3 = 2 :=
    exists_run (by decide +kernel)
  refine ⟨net, hrun, by omega, fun hreaches ↦ ?_⟩
  refine not_leadsTo_of_closed (P := fun i ↦ i = 2 ∨ i = 4 ∨ i = 3) ?_ (by decide) (.inl rfl)
    hreaches.leadsTo
  rintro i (rfl | rfl | rfl)
  · exact .inr (.inl htwo)
  · exact .inr (.inr hfour)
  · exact .inl hthree

end Network

end ContikiMaster.Routing
