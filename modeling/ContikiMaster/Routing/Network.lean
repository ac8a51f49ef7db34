import ContikiMaster.Routing.Node

/-!
# The network of routing nodes

Nodes 1 to `nodeCount`, node 1 being the coordinator, and the advertisements broadcast so
far. An advertisement may reach any node at any later time, any number of times, or never.
Calls of the TSCH layer may happen at any node between two steps.
-/

namespace ContikiMaster.Routing

open Sys Tsch Lib Function

/-- What is fixed for a network; node numbers are bytes. -/
structure NetworkConfig where
  nodeCount : ℕ
  nodeCount_pos : 1 ≤ nodeCount
  nodeCount_le : nodeCount ≤ 255
  hashMapSize : ℕ
  quotient : ℕ → ℕ → ℚ
  initialMac : ℕ → Mac

structure Network where
  node : ℕ → Node
  sent : List Advertisement

namespace Network

def coordinator : ℕ := 1

def IsNode (config : NetworkConfig) (i : ℕ) : Prop := 1 ≤ i ∧ i ≤ config.nodeCount

instance (config : NetworkConfig) (i : ℕ) : Decidable (IsNode config i) :=
  inferInstanceAs (Decidable (_ ∧ _))

def initial (config : NetworkConfig) : Network where
  node := fun i ↦ Node.zero i config.nodeCount config.hashMapSize (config.initialMac i)
  sent := []

def bestNode (net : Network) (i : ℕ) : ℕ := (net.node i).bestNode

def strength (net : Network) (i : ℕ) : ℚ := (net.node i).maxMasterStrength

/-- A node stores its new memory, and its output, if any, is on the air. -/
def store (net : Network) (i : ℕ) (n : Node) (out : Option NetworkOutput) : Network where
  node := update net.node i n
  sent := match out with
    | some ⟨⟨_, _, _, _, .advertisement adv⟩, _, _, _⟩ => adv :: net.sent
    | _ => net.sent

end Network

inductive NetworkOp
  | issue (env : OutputEnv)
  | deliver (receiver : ℕ) (adv : Advertisement) (env : OutputEnv)
  | beacon (receiver : ℕ) (beacon : Beacon)
  | macCall (node : ℕ) (op : MacOp)

/-- One step: the coordinator issues its next advertisement, an advertisement on the air or a
beacon is received, or the TSCH layer of a node does something. -/
def Network.next (config : NetworkConfig) (net : Network) : NetworkOp → Option Network
  | .issue env =>
    (issueAdvertisement (net.node coordinator) env).toOption.map fun (out, n) ↦
      net.store coordinator n (some out)
  | .deliver receiver adv env =>
    if IsNode config receiver ∧ adv ∈ net.sent then
      (onReceivedAdvertisement (net.node receiver) adv env).toOption.map fun (out, n) ↦
        net.store receiver n out
    else none
  | .beacon receiver beacon =>
    -- beacons are numbered from one, so the quotients are defined
    if IsNode config receiver ∧ IsNode config beacon.nodeID ∧
        0 < max (net.node receiver).highestSequence beacon.seq then
      some (net.store receiver (onReceivedNewBeacon config.quotient (net.node receiver) beacon) none)
    else none
  | .macCall i op =>
    if IsNode config i then
      ((net.node i).mac.next op).map fun mac ↦ net.store i { net.node i with mac := mac } none
    else none

/-- The runs of the network from power-up, for some choice of the operations that count as steps. -/
def NetworkRun (next : NetworkConfig → Network → NetworkOp → Option Network)
    (config : NetworkConfig) (ops : List NetworkOp) (net : Network) : Prop :=
  Run (StepOf (next config)) (Network.initial config) ops net

namespace Network

variable {net : Network} {i j : ℕ} {n : Node} {out : Option NetworkOutput}

theorem store_node_self : (net.store i n out).node i = n := update_self ..

theorem store_node_of_ne (hne : j ≠ i) : (net.store i n out).node j = net.node j :=
  update_of_ne hne ..

theorem mem_sent_store {adv : Advertisement} : adv ∈ (net.store i n out).sent ↔
    adv ∈ net.sent ∨ ∃ o, out = some o ∧ o.mrp.data = .advertisement adv := by
  obtain _ | ⟨⟨f, p, t, e, data⟩, len, c, d⟩ := out
  · simp [store]
  · cases data with
    | advertisement sent =>
      simp [store, or_comm, eq_comm]
    | _ => simp [store]

end Network

def offeredStrength (n : Node) (adv : Advertisement) : ℚ :=
  min adv.strengthToMaster (getStrengthByNodeID n adv.nodeId)

/-- How a received advertisement changes the route of a node. -/
inductive RouteChange (n : Node) (adv : Advertisement) (m : Node) : Prop
  | kept (hbest : m.bestNode = n.bestNode) (hstrength : m.maxMasterStrength = n.maxMasterStrength)
  | refreshed (hsender : n.bestNode = adv.nodeId) (hbest : m.bestNode = n.bestNode)
      (hother : adv.bestNode ≠ n.nodeId)
      (hstrength : m.maxMasterStrength = offeredStrength n adv)
      (hreason : n.maxAdvertisementSeq < adv.seq ∨ n.maxMasterStrength < offeredStrength n adv)
  | switched (hsender : n.bestNode ≠ adv.nodeId) (hbest : m.bestNode = adv.nodeId)
      (hother : adv.bestNode ≠ n.nodeId)
      (hstrength : m.maxMasterStrength = offeredStrength n adv)
      (hstronger : n.maxMasterStrength < offeredStrength n adv)

/-- The variables outside the route that a received advertisement leaves alone. -/
structure SameNode (n m : Node) : Prop where
  nodeId : m.nodeId = n.nodeId
  strengthVector : m.strengthVector = n.strengthVector
  advCounter : m.advCounter = n.advCounter

theorem SameNode.refl (n : Node) : SameNode n n := ⟨rfl, rfl, rfl⟩

section Receive

variable {n m : Node} {adv : Advertisement} {env : OutputEnv} {out : NetworkOutput}

theorem masterRoutingSendAdvertisement_spec {strength : ℚ} {advSeq best : ℕ}
    (hcall : masterRoutingSendAdvertisement n strength advSeq best env = .ok (out, m)) :
    out.mrp.data = .advertisement ⟨n.nodeId % 256, advSeq % 65536, best % 256, strength⟩ ∧
      m.historyAdSeqArray = update n.historyAdSeqArray (n.nodeId % 256) (advSeq % 65536 % 256) ∧
      m.bestNode = n.bestNode ∧ m.maxMasterStrength = n.maxMasterStrength ∧
      m.maxAdvertisementSeq = n.maxAdvertisementSeq ∧ SameNode n m := by
  unfold masterRoutingSendAdvertisement at hcall
  obtain ⟨rfl, mac, rfl⟩ := output_spec hcall
  exact ⟨rfl, rfl, rfl, rfl, rfl, rfl, rfl, rfl⟩

theorem resendAdvertisement_kept {out : Option NetworkOutput}
    (hcall : resendAdvertisement n adv env = .ok (out, m)) :
    m.maxAdvertisementSeq = n.maxAdvertisementSeq ∧ m.maxMasterStrength = n.maxMasterStrength := by
  unfold resendAdvertisement at hcall
  split at hcall
  · cases hcall
    exact ⟨rfl, rfl⟩
  split at hcall
  · cases hcall
    exact ⟨rfl, rfl⟩
  obtain ⟨⟨o, w⟩, hsend, hdone⟩ := bind_eq_ok hcall
  cases hdone
  obtain ⟨-, -, -, hstrength, hseq, -⟩ := masterRoutingSendAdvertisement_spec hsend
  exact ⟨hseq, hstrength⟩

theorem refreshStrength_same : SameNode n (refreshStrength n adv (offeredStrength n adv)) ∧
    (refreshStrength n adv (offeredStrength n adv)).historyAdSeqArray = n.historyAdSeqArray ∧
    (refreshStrength n adv (offeredStrength n adv)).maxAdvertisementSeq =
      max n.maxAdvertisementSeq adv.seq := by
  unfold refreshStrength
  split
  · rename_i hnewer
    exact ⟨⟨rfl, rfl, rfl⟩, rfl, (max_eq_right hnewer.le).symm⟩
  · rename_i hnewer
    exact ⟨.refl n, rfl, (max_eq_left (not_lt.mp hnewer)).symm⟩

theorem selectBestNode_same {strength : ℚ} (hcall : selectBestNode n adv strength = .ok m) :
    SameNode n m ∧ m.historyAdSeqArray = n.historyAdSeqArray ∧
      m.maxAdvertisementSeq = n.maxAdvertisementSeq := by
  unfold selectBestNode at hcall
  split at hcall
  · simp only at hcall
    split at hcall
    · cases hcall
      exact ⟨⟨rfl, rfl, rfl⟩, rfl, rfl⟩
    · obtain ⟨link, mac, rfl⟩ := addLinkToBestNode_frame hcall
      exact ⟨⟨rfl, rfl, rfl⟩, rfl, rfl⟩
  · cases hcall
    exact ⟨.refl _, rfl, rfl⟩

theorem selectBestNode_routeChange (hother : adv.bestNode ≠ n.nodeId)
    (hcall : selectBestNode (refreshStrength n adv (offeredStrength n adv)) adv
      (offeredStrength n adv) = .ok m) : RouteChange n adv m := by
  unfold selectBestNode refreshStrength at hcall
  by_cases hsender : n.bestNode = adv.nodeId
  · -- the best node speaks: its strength is taken, whether or not it is greater
    by_cases hnewer : n.maxAdvertisementSeq < adv.seq
    · simp only [if_pos hnewer, if_pos hsender, lt_irrefl, and_false, if_false] at hcall
      cases hcall
      exact .refreshed hsender rfl hother rfl (.inl hnewer)
    · simp only [if_neg hnewer] at hcall
      split at hcall
      · rename_i hstronger
        cases hcall
        exact .refreshed hsender rfl hother rfl (.inr hstronger.2)
      · cases hcall
        exact .kept rfl rfl
  · have hswitch : ∀ u : Node, u.bestNode = n.bestNode → u.maxMasterStrength = n.maxMasterStrength →
        (if u.maxAdvertisementSeq ≤ adv.seq ∧ u.maxMasterStrength < offeredStrength n adv then
          if u.bestNode = adv.nodeId then
            .ok { u with maxMasterStrength := offeredStrength n adv }
          else addLinkToBestNode { u with
            maxMasterStrength := offeredStrength n adv, bestNode := adv.nodeId }
        else .ok u : Except Fault Node) = .ok m → RouteChange n adv m := by
      intro u hbest hstrength hselect
      split at hselect
      · rename_i hstronger
        rw [if_neg (hbest ▸ hsender)] at hselect
        obtain ⟨link, mac, rfl⟩ := addLinkToBestNode_frame hselect
        exact .switched hsender rfl hother rfl (hstrength ▸ hstronger.2)
      · cases hselect
        exact .kept hbest hstrength
    by_cases hnewer : n.maxAdvertisementSeq < adv.seq
    · simp only [if_pos hnewer, if_neg hsender] at hcall
      refine hswitch { n with maxAdvertisementSeq := adv.seq } rfl rfl ?_
      simpa [hsender] using hcall
    · simp only [if_neg hnewer] at hcall
      exact hswitch n rfl rfl hcall

/-- What `on_received_advertisement` does: the route changes as described above, and what is sent,
if anything, is the new route. -/
structure Handled (n : Node) (adv : Advertisement) (out : Option NetworkOutput) (m : Node) :
    Prop where
  same : SameNode n m
  route : RouteChange n adv m
  seq : m.maxAdvertisementSeq ≤ max n.maxAdvertisementSeq adv.seq
  sent : ∀ o, out = some o → n.nodeId ≠ 1 ∧ n.historyAdSeqArray adv.nodeId ≠ adv.seq ∧
    m.maxAdvertisementSeq = max n.maxAdvertisementSeq adv.seq ∧
    m.historyAdSeqArray =
      update (update n.historyAdSeqArray adv.nodeId (adv.seq % 256))
        (n.nodeId % 256) (m.maxAdvertisementSeq % 65536 % 256) ∧
    o.mrp.data = .advertisement ⟨n.nodeId % 256, m.maxAdvertisementSeq % 65536,
      m.bestNode % 256, m.maxMasterStrength⟩
  silent : out = none → m.historyAdSeqArray = n.historyAdSeqArray ∧
    (n.nodeId = 1 ∨ adv.bestNode = n.nodeId ∨ n.historyAdSeqArray adv.nodeId = adv.seq)

theorem onReceivedAdvertisement_spec {out : Option NetworkOutput}
    (hcall : onReceivedAdvertisement n adv env = .ok (out, m)) : Handled n adv out m := by
  unfold onReceivedAdvertisement at hcall
  by_cases hother : adv.bestNode = n.nodeId
  · rw [if_pos hother] at hcall
    cases hcall
    exact ⟨.refl n, .kept rfl rfl, le_max_left _ _, (fun o ho ↦ by cases ho), fun _ ↦ ⟨rfl, .inr (.inl hother)⟩⟩
  · rw [if_neg hother] at hcall
    obtain ⟨u, hselect, hresend⟩ := bind_eq_ok hcall
    obtain ⟨hrefreshed, hhistory, hseq⟩ := @refreshStrength_same n adv
    obtain ⟨hselected, hhistory', hseq'⟩ := selectBestNode_same hselect
    have hsame : SameNode n u := ⟨hselected.nodeId.trans hrefreshed.nodeId,
      hselected.strengthVector.trans hrefreshed.strengthVector,
      hselected.advCounter.trans hrefreshed.advCounter⟩
    have hroute := selectBestNode_routeChange hother hselect
    have hhistoryU : u.historyAdSeqArray = n.historyAdSeqArray := hhistory'.trans hhistory
    have hseqU : u.maxAdvertisementSeq = max n.maxAdvertisementSeq adv.seq := hseq'.trans hseq
    unfold resendAdvertisement at hresend
    split at hresend
    · rename_i hmatched
      cases hresend
      rw [hhistoryU] at hmatched
      exact ⟨hsame, hroute, hseqU.le, (fun o ho ↦ by cases ho), fun _ ↦ ⟨hhistoryU, .inr (.inr hmatched)⟩⟩
    · rename_i hunmatched
      split at hresend
      · rename_i hone
        cases hresend
        exact ⟨hsame, hroute, hseqU.le, (fun o ho ↦ by cases ho),
          fun _ ↦ ⟨hhistoryU, .inl (hsame.nodeId ▸ hone)⟩⟩
      · rename_i hone
        obtain ⟨⟨o, w⟩, hsend, hdone⟩ := bind_eq_ok hresend
        cases hdone
        obtain ⟨hdata, hhistoryM, hbestM, hstrengthM, hseqM, hsameM⟩ :=
          masterRoutingSendAdvertisement_spec hsend
        have hnodeId : m.nodeId = n.nodeId := hsameM.nodeId.trans hsame.nodeId
        refine ⟨⟨hnodeId, hsameM.strengthVector.trans hsame.strengthVector,
          hsameM.advCounter.trans hsame.advCounter⟩, ?_, (hseqM.trans hseqU).le, ?_, fun hnone ↦ by cases hnone⟩
        · cases hroute with
          | kept hbest hstrength =>
            exact .kept (hbestM.trans hbest) (hstrengthM.trans hstrength)
          | refreshed hsender hbest hother hstrength hreason =>
            exact .refreshed hsender (hbestM.trans hbest) hother (hstrengthM.trans hstrength) hreason
          | switched hsender hbest hother hstrength hstronger =>
            exact .switched hsender (hbestM.trans hbest) hother (hstrengthM.trans hstrength) hstronger
        · rintro o' ho'
          cases ho'
          rw [hhistoryU] at hunmatched
          refine ⟨hsame.nodeId ▸ hone, hunmatched, ?_, ?_, ?_⟩
          · exact hseqM.trans hseqU
          · rw [hhistoryM, hseqM]
            change update (update u.historyAdSeqArray _ _) (u.nodeId % 256) _ = _
            rw [hhistoryU, hsame.nodeId]
          · rw [hdata, hseqM, hbestM, hstrengthM]
            change PacketData.advertisement ⟨u.nodeId % 256, _, _, _⟩ = _
            rw [hsame.nodeId]

theorem issueAdvertisement_spec (hcall : issueAdvertisement n env = .ok (out, m)) :
    m.nodeId = n.nodeId ∧ m.bestNode = n.nodeId % 256 ∧ m.maxMasterStrength = 100 ∧
      m.historyAdSeqArray = update n.historyAdSeqArray (n.nodeId % 256)
        ((n.advCounter + 1) % 65536 % 65536 % 256) ∧
      out.mrp.data = .advertisement ⟨n.nodeId % 256, (n.advCounter + 1) % 65536 % 65536,
        n.nodeId % 256 % 256, 100⟩ := by
  unfold issueAdvertisement masterRoutingSendAdvertisementSendto at hcall
  obtain ⟨hdata, hhistory, hbest, hstrength, -, hsame⟩ := masterRoutingSendAdvertisement_spec hcall
  exact ⟨hsame.nodeId, hbest, hstrength, hhistory, hdata⟩

end Receive

end ContikiMaster.Routing
