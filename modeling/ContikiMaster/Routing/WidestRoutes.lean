import ContikiMaster.Lib.ShortestPath
import ContikiMaster.Routing.Flood
import ContikiMaster.Routing.LoopFreedom

/-!
# One advertisement and the widest paths

The coordinator issues its first advertisement when the link strengths are known, and no
copy is lost. Once no copy is on its way, the strength of a node is that of the widest path
if no copy that a node had already noted raised its strength.
-/

namespace ContikiMaster.Routing

open Sys Tsch Lib Function List Option

variable {adv : Advertisement} {env : OutputEnv}

theorem onReceivedAdvertisement_offered {n m : Node} {out : Option NetworkOutput}
    (hcall : onReceivedAdvertisement n adv env = .ok (out, m)) :
    adv.bestNode = n.nodeId ∧ out = none ∧ m = n ∨ adv.bestNode ≠ n.nodeId ∧
        m.maxAdvertisementSeq = max n.maxAdvertisementSeq adv.seq ∧
        (n.maxAdvertisementSeq ≤ adv.seq → offeredStrength n adv ≤ m.maxMasterStrength) := by
  unfold onReceivedAdvertisement at hcall
  by_cases hother : adv.bestNode = n.nodeId
  · rw [if_pos hother] at hcall
    cases hcall
    exact Or.inl ⟨hother, rfl, rfl⟩
  · rw [if_neg hother] at hcall
    right
    obtain ⟨u, hselect, hresend⟩ := bind_eq_ok hcall
    obtain ⟨-, -, hseq⟩ := @refreshStrength_same n adv
    obtain ⟨-, -, hseq'⟩ := selectBestNode_same hselect
    have hsent := resendAdvertisement_kept hresend
    refine ⟨hother, hsent.1.trans (hseq'.trans hseq), fun hnewest ↦ ?_⟩
    rw [hsent.2]
    have hle : (refreshStrength n adv (offeredStrength n adv)).maxAdvertisementSeq ≤ adv.seq := by
      rw [hseq]
      exact max_le hnewest le_rfl
    unfold selectBestNode at hselect
    split at hselect
    · simp only at hselect
      split at hselect
      · cases hselect
        exact le_rfl
      · obtain ⟨link, mac, rfl⟩ := addLinkToBestNode_frame hselect
        exact le_rfl
    · rename_i hweak
      cases hselect
      exact not_lt.mp fun hstronger ↦ hweak ⟨hle, hstronger⟩

theorem issueAdvertisement_kept {n m : Node} {out : NetworkOutput}
    (hcall : issueAdvertisement n env = .ok (out, m)) :
    m.maxAdvertisementSeq = (n.advCounter + 1) % 65536 ∧ m.strengthVector = n.strengthVector := by
  unfold issueAdvertisement masterRoutingSendAdvertisementSendto at hcall
  obtain ⟨-, -, -, -, hseq, hsame⟩ := masterRoutingSendAdvertisement_spec hcall
  exact ⟨hseq, hsame.strengthVector⟩

namespace Network

def nextBeacon (config : NetworkConfig) (net : Network) : NetworkOp → Option Network
  | .beacon receiver beacon => Network.next config net (.beacon receiver beacon)
  | .macCall i op => Network.next config net (.macCall i op)
  | _ => none

/-- A node that has neither issued nor heard an advertisement. -/
structure Silent (i : ℕ) (n : Node) : Prop where
  nodeId : n.nodeId = i
  maxAdvertisementSeq : n.maxAdvertisementSeq = 0
  bestNode : n.bestNode = 0
  maxMasterStrength : n.maxMasterStrength = 0
  history : ∀ k, n.historyAdSeqArray k = 0
  advCounter : n.advCounter = 0

structure Quiet (config : NetworkConfig) (net : Network) : Prop where
  sent : net.sent = []
  silent : ∀ i, IsNode config i → Silent i (net.node i)

section Quiet

variable {config : NetworkConfig} {net : Network} {i : ℕ} {n : Node}

theorem quiet_initial (config : NetworkConfig) : Quiet config (initial config) :=
  ⟨rfl, fun _ _ ↦ ⟨rfl, rfl, rfl, rfl, fun _ ↦ rfl, rfl⟩⟩

theorem Quiet.store (hquiet : Quiet config net) (hn : Silent i n) :
    Quiet config (net.store i n none) := by
  refine ⟨hquiet.sent, fun j hj ↦ ?_⟩
  by_cases hji : j = i
  · rw [hji, store_node_self]
    exact hn
  · rw [store_node_of_ne hji]
    exact hquiet.silent j hj

theorem quiet_step (net : Network) (op : NetworkOp) (net' : Network) (hquiet : Quiet config net)
    (hstep : StepOf (nextBeacon config) net op net') : Quiet config net' := by
  cases op with
  | issue env => cases hstep
  | deliver receiver adv env => cases hstep
  | beacon receiver beacon =>
    change (if _ then some _ else none) = some net' at hstep
    split at hstep
    · rename_i hnodes
      cases hstep
      obtain ⟨hid, hseq, hbest, hstrength, hhistory, hcounter⟩ := hquiet.silent receiver hnodes.1
      exact hquiet.store ⟨hid, hseq, hbest, hstrength, hhistory, hcounter⟩
    · cases hstep
  | macCall i op =>
    change (if _ then _ else none) = some net' at hstep
    split at hstep
    · rename_i hi
      obtain ⟨mac, -, rfl⟩ := map_eq_some_iff.mp hstep
      obtain ⟨hid, hseq, hbest, hstrength, hhistory, hcounter⟩ := hquiet.silent i hi
      exact hquiet.store ⟨hid, hseq, hbest, hstrength, hhistory, hcounter⟩
    · cases hstep

end Quiet

/-- The links between the nodes, by the strengths the receivers know. -/
def links (config : NetworkConfig) (net : Network) : Links ℕ ℚ where
  source := coordinator
  top := 100
  bottom := 0
  hears := fun j i ↦ IsNode config j ∧ j ≠ i ∧ 0 < getStrengthByNodeID (net.node j) i
  link := fun j i ↦ getStrengthByNodeID (net.node j) i
  bottom_lt_top := by norm_num
  bottom_lt_link := fun _ _ hhears ↦ hhears.2.2

def hearers (config : NetworkConfig) (net : Network) (i : ℕ) : List ℕ :=
  (range (config.nodeCount + 1)).filter fun j ↦
    IsNode config j ∧ j ≠ i ∧ 0 < getStrengthByNodeID (net.node j) i

theorem mem_hearers {config : NetworkConfig} {net : Network} {i j : ℕ} :
    j ∈ hearers config net i ↔ (links config net).hears j i := by
  simp only [hearers, mem_filter, mem_range, decide_eq_true_eq]
  refine ⟨And.right, fun hhears ↦ ⟨?_, hhears⟩⟩
  have hle := hhears.1.2
  omega

/-- The copies of an advertisement that a node sends, one for each node that hears it. -/
def copies (config : NetworkConfig) (net : Network) (i : ℕ) :
    Option NetworkOutput → List (ℕ × Advertisement)
  | some ⟨⟨_, _, _, _, .advertisement adv⟩, _, _, _⟩ =>
    (hearers config net i).map fun j ↦ (j, adv)
  | _ => []

theorem mem_copies {config : NetworkConfig} {net : Network} {i : ℕ} {out : Option NetworkOutput}
    {p : ℕ × Advertisement} : p ∈ copies config net i out ↔
      (links config net).hears p.1 i ∧ ∃ o, out = some o ∧ o.mrp.data = .advertisement p.2 := by
  obtain ⟨j, adv⟩ := p
  obtain _ | ⟨⟨f, number, t, e, data⟩, len, c, d⟩ := out
  · simp [copies]
  · cases data with
    | advertisement sent =>
      simp [copies, mem_hearers, and_comm, eq_comm]
    | _ => simp [copies]

end Network

/-- A network and the copies of advertisements on their way, with the node each is for. -/
structure Round where
  net : Network
  inFlight : List (ℕ × Advertisement)

inductive RoundOp
  | issue (env : OutputEnv)
  | deliver (receiver : ℕ) (adv : Advertisement) (env : OutputEnv)
  | macCall (node : ℕ) (op : MacOp)

namespace Round

open Network

/-- A node stores its new memory, and what it sends is on its way to all that hear it. -/
def store (config : NetworkConfig) (x : Round) (i : ℕ) (n : Node) (out : Option NetworkOutput) :
    Round where
  net := x.net.store i n out
  inFlight := copies config x.net i out ++ x.inFlight

/-- One step: the coordinator issues the only advertisement of the round, a copy on its way is
received, or the TSCH layer of a node does something. -/
def next (config : NetworkConfig) (x : Round) : RoundOp → Option Round
  | .issue env =>
    if x.net.sent = [] then
      (issueAdvertisement (x.net.node coordinator) env).toOption.map fun (out, n) ↦
        x.store config coordinator n (some out)
    else none
  | .deliver receiver adv env =>
    if (receiver, adv) ∈ x.inFlight then
      (onReceivedAdvertisement (x.net.node receiver) adv env).toOption.map fun (out, n) ↦
        Round.store config ⟨x.net, x.inFlight.erase (receiver, adv)⟩ receiver n out
    else none
  | .macCall i op =>
    if IsNode config i then
      ((x.net.node i).mac.next op).map fun mac ↦
        x.store config i { x.net.node i with mac := mac } none
    else none

/-- A delivered copy is new to the node, or does not raise its strength. -/
def NewsOnly (x : Round) : RoundOp → Prop
  | .deliver receiver adv _ =>
    (x.net.node receiver).historyAdSeqArray adv.nodeId ≠ adv.seq ∨ adv.bestNode = receiver ∨
      offeredStrength (x.net.node receiver) adv ≤ x.net.strength receiver
  | _ => True

/-! ## What holds during a round -/

/-- What holds between strengths, best nodes, advertisements and copies during a round that started
in `net₀`. -/
structure Flooding (config : NetworkConfig) (net₀ : Network) (x : Round) : Prop where
  nodeId : ∀ i, IsNode config i → (x.net.node i).nodeId = i
  strengthVector : ∀ i, (x.net.node i).strengthVector = (net₀.node i).strengthVector
  seq : ∀ i, IsNode config i → (x.net.node i).maxAdvertisementSeq ≤ 1 ∧
    ((x.net.node i).maxAdvertisementSeq = 0 → x.net.bestNode i = 0)
  byte : ∀ i, IsNode config i → x.net.bestNode i ≤ 255
  unsent : x.net.sent = [] → Quiet config x.net ∧ x.inFlight = []
  issued : x.net.sent ≠ [] → x.net.strength coordinator = 100
  /-- The strength belongs to a path over the best node. -/
  route : ∀ i, IsNode config i → x.net.strength i = 0 ∨
    PathWidth (links config net₀) i (x.net.strength i) ∧
      x.net.strength i ≤ x.net.strength (x.net.bestNode i)
  sent : ∀ adv ∈ x.net.sent, IsNode config adv.nodeId ∧ adv.seq = 1 ∧
    PathWidth (links config net₀) adv.nodeId adv.strengthToMaster ∧
    adv.strengthToMaster ≤ x.net.strength adv.nodeId ∧
    adv.strengthToMaster ≤ x.net.strength adv.bestNode
  flight : ∀ p ∈ x.inFlight, p.2 ∈ x.net.sent ∧ (links config net₀).hears p.1 p.2.nodeId
  /-- Who hears an advertisement has it on its way or is as strong as it offers. -/
  served : ∀ adv ∈ x.net.sent, ∀ j, (links config net₀).hears j adv.nodeId →
    (j, adv) ∈ x.inFlight ∨
      min adv.strengthToMaster ((links config net₀).link j adv.nodeId) ≤ x.net.strength j
  /-- A strength was offered by an advertisement. -/
  heard : ∀ j, IsNode config j → x.net.strength j = 0 ∨ j = coordinator ∨
    ∃ adv ∈ x.net.sent, (links config net₀).hears j adv.nodeId ∧
      x.net.strength j = min adv.strengthToMaster ((links config net₀).link j adv.nodeId)
  /-- A node with a strength, or one that noted an advertisement, has sent one. -/
  spoken : ∀ j, IsNode config j →
    (x.net.strength j ≠ 0 ∨ ∃ k, (x.net.node j).historyAdSeqArray k ≠ 0) →
      ∃ adv ∈ x.net.sent, adv.nodeId = j

/-- Every node has advertised its strength. -/
def Current (config : NetworkConfig) (x : Round) : Prop :=
  ∀ j, IsNode config j → x.net.strength j ≠ 0 →
    ∃ adv ∈ x.net.sent, adv.nodeId = j ∧ adv.strengthToMaster = x.net.strength j

section Steps

variable {config : NetworkConfig} {net₀ net : Network} {x y : Round} {i : ℕ} {n : Node}
  {out : Option NetworkOutput} {rest : List (ℕ × Advertisement)}

theorem Flooding.of_quiet (hquiet : Quiet config net)
    (hvector : ∀ i, (net.node i).strengthVector = (net₀.node i).strengthVector) :
    Flooding config net₀ ⟨net, []⟩ := by
  have hstrength : ∀ i, IsNode config i → net.strength i = 0 := fun i hi ↦
    (hquiet.silent i hi).maxMasterStrength
  constructor
  case nodeId => exact fun i hi ↦ (hquiet.silent i hi).nodeId
  case strengthVector => exact hvector
  case seq =>
    intro i hi
    have hsilent := hquiet.silent i hi
    exact ⟨hsilent.maxAdvertisementSeq.le.trans zero_le_one, fun _ ↦ hsilent.bestNode⟩
  case byte =>
    intro i hi
    change (net.node i).bestNode ≤ 255
    rw [(hquiet.silent i hi).bestNode]
    exact Nat.zero_le 255
  case unsent => exact fun _ ↦ ⟨hquiet, rfl⟩
  case issued => exact fun hsent ↦ absurd hquiet.sent hsent
  case route => exact fun i hi ↦ Or.inl (hstrength i hi)
  case sent =>
    change ∀ adv ∈ net.sent, _
    rw [hquiet.sent]
    nofun
  case flight => nofun
  case served =>
    change ∀ adv ∈ net.sent, _
    rw [hquiet.sent]
    nofun
  case heard => exact fun j hj ↦ Or.inl (hstrength j hj)
  case spoken =>
    rintro j hj (hne | ⟨k, hne⟩)
    · exact absurd (hstrength j hj) hne
    · exact absurd ((hquiet.silent j hj).history k) hne

section

variable (hinv : Flooding config net₀ x)

include hinv

theorem Flooding.store (hi : IsNode config i) (hid : n.nodeId = i)
    (hvector : n.strengthVector = (net₀.node i).strengthVector)
    (hseq : n.maxAdvertisementSeq ≤ 1 ∧ (n.maxAdvertisementSeq = 0 → n.bestNode = 0))
    (hbyte : n.bestNode ≤ 255) (hsome : (x.net.store i n out).sent ≠ [])
    (hissued : update x.net.strength i n.maxMasterStrength coordinator = 100)
    (hle : x.net.strength i ≤ n.maxMasterStrength) (hroute : n.maxMasterStrength = 0 ∨
      PathWidth (links config net₀) i n.maxMasterStrength ∧ n.maxMasterStrength ≤
        update x.net.strength i n.maxMasterStrength n.bestNode)
    (hheard : n.maxMasterStrength = 0 ∨ i = coordinator ∨
      ∃ adv ∈ x.net.sent, (links config net₀).hears i adv.nodeId ∧
        n.maxMasterStrength = min adv.strengthToMaster ((links config net₀).link i adv.nodeId))
    (hspoken : (n.maxMasterStrength ≠ 0 ∨ ∃ k, n.historyAdSeqArray k ≠ 0) →
      ∃ adv ∈ (x.net.store i n out).sent, adv.nodeId = i)
    (hout : ∀ o adv, out = some o → o.mrp.data = .advertisement adv →
      adv = ⟨i, 1, n.bestNode, n.maxMasterStrength⟩ ∧ n.maxMasterStrength ≠ 0)
    (hrest : ∀ p ∈ rest, p ∈ x.inFlight) (hserved : ∀ p ∈ x.inFlight, p ∈ rest ∨ p.1 = i ∧
      min p.2.strengthToMaster ((links config net₀).link i p.2.nodeId) ≤ n.maxMasterStrength) :
    Flooding config net₀ (Round.store config ⟨x.net, rest⟩ i n out) := by
  have hself : (x.net.store i n out).strength i = n.maxMasterStrength := by
    rw [strength_store, update_self]
  have hother : ∀ j, j ≠ i → (x.net.store i n out).strength j = x.net.strength j := by
    intro j hj
    rw [strength_store, update_of_ne hj]
  have hmono : ∀ j, x.net.strength j ≤ (x.net.store i n out).strength j := by
    intro j
    by_cases hj : j = i
    · rw [hj, hself]
      exact hle
    · rw [hother j hj]
  have hbestSelf : (x.net.store i n out).bestNode i = n.bestNode := by
    rw [bestNode_store, update_self]
  have hbestOther : ∀ j, j ≠ i → (x.net.store i n out).bestNode j = x.net.bestNode j := by
    intro j hj
    rw [bestNode_store, update_of_ne hj]
  have hsentOld : ∀ adv ∈ x.net.sent, adv ∈ (x.net.store i n out).sent := fun adv hadv ↦
    mem_sent_store.mpr (Or.inl hadv)
  -- the strength vectors are the ones the round started with
  have hlinks : ∀ j k, (links config x.net).hears j k ↔ (links config net₀).hears j k := by
    intro j k
    change (_ ∧ _ ∧ 0 < (x.net.node j).strengthVector k) ↔
      (_ ∧ _ ∧ 0 < (net₀.node j).strengthVector k)
    rw [hinv.strengthVector j]
  constructor
  case nodeId =>
    intro j hj
    change ((x.net.store i n out).node j).nodeId = j
    by_cases hji : j = i
    · rw [hji, store_node_self, hid]
    · rw [store_node_of_ne hji, hinv.nodeId j hj]
  case strengthVector =>
    intro j
    change ((x.net.store i n out).node j).strengthVector = _
    by_cases hji : j = i
    · rw [hji, store_node_self, hvector]
    · rw [store_node_of_ne hji, hinv.strengthVector j]
  case seq =>
    intro j hj
    change ((x.net.store i n out).node j).maxAdvertisementSeq ≤ 1 ∧
      (((x.net.store i n out).node j).maxAdvertisementSeq = 0 →
        (x.net.store i n out).bestNode j = 0)
    by_cases hji : j = i
    · rw [hji, store_node_self, hbestSelf]
      exact hseq
    · rw [store_node_of_ne hji, hbestOther j hji]
      exact hinv.seq j hj
  case byte =>
    intro j hj
    change (x.net.store i n out).bestNode j ≤ 255
    by_cases hji : j = i
    · rw [hji, hbestSelf]
      exact hbyte
    · rw [hbestOther j hji]
      exact hinv.byte j hj
  case unsent => exact fun hnone ↦ absurd hnone hsome
  case issued =>
    intro _
    change (x.net.store i n out).strength coordinator = 100
    rw [strength_store]
    exact hissued
  case route =>
    intro j hj
    change (x.net.store i n out).strength j = 0 ∨ PathWidth _ j ((x.net.store i n out).strength j) ∧
      (x.net.store i n out).strength j ≤
        (x.net.store i n out).strength ((x.net.store i n out).bestNode j)
    by_cases hji : j = i
    · rw [hji, hself, hbestSelf, strength_store]
      exact hroute
    · rw [hother j hji, hbestOther j hji]
      exact (hinv.route j hj).imp_right fun ⟨hpath, hup⟩ ↦ ⟨hpath, hup.trans (hmono _)⟩
  case sent =>
    intro adv hadv
    rcases mem_sent_store.mp hadv with hold | ⟨o, ho, hdata⟩
    · obtain ⟨hnode, hone, hpath, hsender, hbest⟩ := hinv.sent adv hold
      exact ⟨hnode, hone, hpath, hsender.trans (hmono _), hbest.trans (hmono _)⟩
    · obtain ⟨rfl, hne⟩ := hout o adv ho hdata
      obtain ⟨hpath, hup⟩ := hroute.resolve_left hne
      refine ⟨hi, rfl, hpath, hself.ge, ?_⟩
      change n.maxMasterStrength ≤ (x.net.store i n out).strength n.bestNode
      rw [strength_store]
      exact hup
  case flight =>
    intro p hp
    rcases mem_append.mp hp with hnew | hold
    · obtain ⟨hhears, o, ho, hdata⟩ := mem_copies.mp hnew
      obtain ⟨hadv, -⟩ := hout o p.2 ho hdata
      refine ⟨mem_sent_store.mpr (Or.inr ⟨o, ho, hdata⟩), ?_⟩
      rw [hadv, ← hlinks]
      exact hhears
    · obtain ⟨hsent, hhears⟩ := hinv.flight p (hrest p hold)
      exact ⟨hsentOld _ hsent, hhears⟩
  case served =>
    intro adv hadv j hhears
    rcases mem_sent_store.mp hadv with hold | ⟨o, ho, hdata⟩
    · rcases hinv.served adv hold j hhears with hflight | hstrong
      · rcases hserved _ hflight with hleft | ⟨hji, hdone⟩
        · exact Or.inl (mem_append_right _ hleft)
        · right
          have hji : j = i := hji
          change _ ≤ (x.net.store i n out).strength j
          rw [hji, hself]
          exact hdone
      · exact Or.inr (hstrong.trans (hmono j))
    · left
      obtain ⟨hadv', -⟩ := hout o adv ho hdata
      refine mem_append_left _ (mem_copies.mpr ⟨?_, o, ho, hdata⟩)
      rw [hadv', ← hlinks] at hhears
      exact hhears
  case heard =>
    intro j hj
    change (x.net.store i n out).strength j = 0 ∨ _ ∨ ∃ adv ∈ (x.net.store i n out).sent, _ ∧
      (x.net.store i n out).strength j = _
    have hmore : ∀ k w, (∃ adv ∈ x.net.sent, (links config net₀).hears k adv.nodeId ∧
        w = min adv.strengthToMaster ((links config net₀).link k adv.nodeId)) →
        ∃ adv ∈ (x.net.store i n out).sent, (links config net₀).hears k adv.nodeId ∧
          w = min adv.strengthToMaster ((links config net₀).link k adv.nodeId) :=
      fun _ _ ⟨adv, hadv, hoffer⟩ ↦ ⟨adv, hsentOld adv hadv, hoffer⟩
    by_cases hji : j = i
    · rw [hji, hself]
      exact hheard.imp_right (Or.imp_right (hmore i _))
    · rw [hother j hji]
      exact (hinv.heard j hj).imp_right (Or.imp_right (hmore j _))
  case spoken =>
    intro j hj hsaid
    change (x.net.store i n out).strength j ≠ 0 ∨
      ∃ k, ((x.net.store i n out).node j).historyAdSeqArray k ≠ 0 at hsaid
    by_cases hji : j = i
    · rw [hji, hself, store_node_self] at hsaid
      rw [hji]
      exact hspoken hsaid
    · rw [hother j hji, store_node_of_ne hji] at hsaid
      obtain ⟨adv, hadv, hsender⟩ := hinv.spoken j hj hsaid
      exact ⟨adv, hsentOld adv hadv, hsender⟩

theorem flooding_issue {o : NetworkOutput} (hnone : x.net.sent = [])
    (hcall : issueAdvertisement (x.net.node coordinator) env = .ok (o, n)) :
    Flooding config net₀ (x.store config coordinator n (some o)) := by
  have hnode := isNode_coordinator config
  obtain ⟨hquiet, hempty⟩ := hinv.unsent hnone
  have hsilent := hquiet.silent coordinator hnode
  obtain ⟨hid, hbest, hstrength, -, hdata⟩ := issueAdvertisement_spec hcall
  obtain ⟨hseq, hvector⟩ := issueAdvertisement_kept hcall
  rw [hsilent.nodeId] at hid hbest hdata
  rw [hsilent.advCounter] at hseq hdata
  have hsent : (⟨1, 1, 1, 100⟩ : Advertisement) ∈ (x.net.store coordinator n (some o)).sent :=
    mem_sent_store.mpr (Or.inr ⟨o, rfl, hdata⟩)
  have hself : update x.net.strength coordinator n.maxMasterStrength coordinator =
      n.maxMasterStrength := update_self ..
  apply hinv.store hnode hid (hvector.trans (hinv.strengthVector coordinator))
  case hseq => exact ⟨hseq.le, fun hzero ↦ absurd (hseq.symm.trans hzero) (by decide)⟩
  case hbyte => exact hbest.le.trans (by decide)
  case hsome => exact ne_nil_of_mem hsent
  case hissued => rw [hself, hstrength]
  case hle =>
    rw [hstrength]
    exact hsilent.maxMasterStrength.le.trans (by norm_num)
  case hroute =>
    right
    rw [hbest]
    refine ⟨?_, hself.ge⟩
    rw [hstrength]
    exact PathWidth.source
  case hheard => exact Or.inr (Or.inl rfl)
  case hspoken => exact fun _ ↦ ⟨_, hsent, rfl⟩
  case hout =>
    rintro o' adv ⟨⟩ hdata'
    rw [hdata] at hdata'
    cases hdata'
    rw [hbest, hstrength]
    exact ⟨rfl, by norm_num⟩
  case hrest => exact fun p hp ↦ hp
  case hserved => exact fun p hp ↦ Or.inl hp

theorem Flooding.taken (hflight : (i, adv) ∈ x.inFlight)
    (hcall : onReceivedAdvertisement (x.net.node i) adv env = .ok (out, n)) :
    n.bestNode = x.net.bestNode i ∧ n.maxMasterStrength = x.net.strength i ∨
      adv.bestNode ≠ i ∧ n.bestNode = adv.nodeId ∧
        n.maxMasterStrength = offeredStrength (x.net.node i) adv ∧
        x.net.strength i < offeredStrength (x.net.node i) adv := by
  obtain ⟨hsent, hhears⟩ := hinv.flight _ hflight
  obtain ⟨hsender, hone, -⟩ := hinv.sent adv hsent
  have hid := hinv.nodeId i hhears.1
  have hhandled := onReceivedAdvertisement_spec hcall
  cases hhandled.route with
  | kept hbest hstrength => exact Or.inl ⟨hbest, hstrength⟩
  | refreshed hsame hbest hother hstrength hreason =>
    right
    refine ⟨hid ▸ hother, hbest.trans hsame, hstrength, hreason.resolve_left fun hnewer ↦ ?_⟩
    -- a node that has a best node has heard the number of the round
    have hzero : (x.net.node i).maxAdvertisementSeq = 0 := by omega
    have hnobest : (x.net.node i).bestNode = 0 := (hinv.seq i hhears.1).2 hzero
    have hpos := hsender.1
    omega
  | switched hsame hbest hother hstrength hstronger =>
    exact Or.inr ⟨hid ▸ hother, hbest, hstrength, hstronger⟩

theorem Flooding.offered_eq (adv : Advertisement) :
    offeredStrength (x.net.node i) adv =
      min adv.strengthToMaster ((links config net₀).link i adv.nodeId) := by
  unfold offeredStrength getStrengthByNodeID
  rw [hinv.strengthVector i]
  rfl

theorem Flooding.le_issued (hadv : adv ∈ x.net.sent) :
    adv.strengthToMaster ≤ x.net.strength coordinator := by
  obtain ⟨-, -, hpath, -⟩ := hinv.sent adv hadv
  rw [hinv.issued (ne_nil_of_mem hadv)]
  exact hpath.le_top

theorem flooding_deliver (hflight : (i, adv) ∈ x.inFlight)
    (hcall : onReceivedAdvertisement (x.net.node i) adv env = .ok (out, n)) : Flooding config net₀
      (Round.store config ⟨x.net, x.inFlight.erase (i, adv)⟩ i n out) := by
  obtain ⟨hsent, hhears⟩ := hinv.flight _ hflight
  obtain ⟨hsender, hone, hpath, hsenderStrength, hbestStrength⟩ := hinv.sent adv hsent
  have hi := hhears.1
  have hid := hinv.nodeId i hi
  have hhandled := onReceivedAdvertisement_spec hcall
  have htaken := hinv.taken hflight hcall
  have hoffer := @Flooding.offered_eq config net₀ x i hinv adv
  have hnonempty : x.net.sent ≠ [] := ne_nil_of_mem hsent
  have hofferPath : PathWidth (links config net₀) i (offeredStrength (x.net.node i) adv) := by
    rw [hoffer]
    exact hpath.hop hhears
  have hle : x.net.strength i ≤ n.maxMasterStrength := by
    rcases htaken with ⟨-, hsame⟩ | ⟨-, -, hraised, hstronger⟩
    · exact hsame.ge
    · rw [hraised]
      exact hstronger.le
  -- who ignores the advertisement is the best node of the sender, and as strong
  have hreached : offeredStrength (x.net.node i) adv ≤ n.maxMasterStrength := by
    rcases onReceivedAdvertisement_offered hcall with ⟨hignored, -, hsame⟩ | ⟨-, -, hreached⟩
    · rw [hid] at hignored
      rw [hignored] at hbestStrength
      exact (min_le_left _ _).trans (hbestStrength.trans hle)
    · apply hreached
      rw [hone]
      exact (hinv.seq i hi).1
  have hne : adv.nodeId ≠ i := fun heq ↦ hhears.2.1 heq.symm
  have hbyte : n.bestNode ≤ 255 := by
    rcases htaken with ⟨hbest, -⟩ | ⟨-, hbest, -⟩
    · rw [hbest]
      exact hinv.byte i hi
    · rw [hbest]
      exact hsender.2.trans config.nodeCount_le
  apply hinv.store hi (hhandled.same.nodeId.trans hid)
    (hhandled.same.strengthVector.trans (hinv.strengthVector i))
  case hseq =>
    have hold := hinv.seq i hi
    rcases onReceivedAdvertisement_offered hcall with ⟨-, -, rfl⟩ | ⟨-, hmax, -⟩
    · exact hold
    · rw [hmax, hone, max_eq_right hold.1]
      exact ⟨le_rfl, fun hzero ↦ absurd hzero one_ne_zero⟩
  case hbyte => exact hbyte
  case hsome => exact ne_nil_of_mem (mem_sent_store.mpr (Or.inl hsent))
  case hissued =>
    by_cases hic : coordinator = i
    · rw [← hic, update_self]
      rcases htaken with ⟨-, hsame⟩ | ⟨-, -, -, hstronger⟩
      · rw [hsame, ← hic]
        exact hinv.issued hnonempty
      · have hbound : offeredStrength (x.net.node i) adv ≤ x.net.strength coordinator :=
          (min_le_left _ _).trans (hinv.le_issued hsent)
        rw [hic] at hbound
        exact absurd hstronger (not_lt.mpr hbound)
    · rw [update_of_ne hic]
      exact hinv.issued hnonempty
  case hle => exact hle
  case hroute =>
    rcases htaken with ⟨hbest, hsame⟩ | ⟨-, hbest, hraised, -⟩
    · rw [hsame, hbest, update_eq_self]
      exact hinv.route i hi
    · right
      rw [hbest, update_of_ne hne, hraised]
      exact ⟨hofferPath, (min_le_left _ _).trans hsenderStrength⟩
  case hheard =>
    rcases htaken with ⟨-, hsame⟩ | ⟨-, -, hraised, -⟩
    · rw [hsame]
      exact hinv.heard i hi
    · exact Or.inr (Or.inr ⟨adv, hsent, hhears, hraised.trans hoffer⟩)
  case hspoken =>
    intro _
    cases out with
    | some o =>
      obtain ⟨-, -, -, -, hdata⟩ := hhandled.sent o rfl
      refine ⟨_, mem_sent_store.mpr (Or.inr ⟨o, rfl, hdata⟩), ?_⟩
      change (x.net.node i).nodeId % 256 = i
      rw [hid, isNode_mod hi]
    | none =>
      have hold : ∃ adv ∈ x.net.sent, adv.nodeId = i := by
        apply hinv.spoken i hi
        obtain ⟨hhistory, hroot | hignored | hnoted⟩ := hhandled.silent rfl
        · left
          rw [hid] at hroot
          rw [hroot]
          change x.net.strength coordinator ≠ 0
          rw [hinv.issued hnonempty]
          norm_num
        · left
          rw [hid] at hignored
          rw [hignored] at hbestStrength
          exact (hpath.bottom_lt.trans_le hbestStrength).ne'
        · right
          refine ⟨adv.nodeId, ?_⟩
          rw [hnoted, hone]
          exact one_ne_zero
      obtain ⟨adv', hadv', hsender'⟩ := hold
      exact ⟨adv', mem_sent_store.mpr (Or.inl hadv'), hsender'⟩
  case hout =>
    rintro o adv' rfl hdata'
    obtain ⟨-, -, hmax, -, hdata⟩ := hhandled.sent o rfl
    have hbestMod : n.bestNode % 256 = n.bestNode := Nat.mod_eq_of_lt (by omega)
    rw [hdata] at hdata'
    cases hdata'
    rw [hid, isNode_mod hi, hbestMod, hmax, hone, max_eq_right (hinv.seq i hi).1]
    refine ⟨rfl, ?_⟩
    exact (hofferPath.bottom_lt.trans_le hreached).ne'
  case hrest => exact fun p hp ↦ mem_of_mem_erase hp
  case hserved =>
    intro p hp
    by_cases hpe : p = (i, adv)
    · right
      rw [hpe]
      exact ⟨rfl, hoffer ▸ hreached⟩
    · exact Or.inl ((mem_erase_of_ne hpe).mpr hp)

theorem flooding_macCall (hi : IsNode config i) (mac : Mac) :
    Flooding config net₀ (x.store config i { x.net.node i with mac := mac } none) := by
  by_cases hnone : x.net.sent = []
  · obtain ⟨hquiet, hempty⟩ := hinv.unsent hnone
    obtain ⟨hid, hseq, hbest, hstrength, hhistory, hcounter⟩ := hquiet.silent i hi
    have hstored : Quiet config (x.net.store i { x.net.node i with mac := mac } none) :=
      hquiet.store ⟨hid, hseq, hbest, hstrength, hhistory, hcounter⟩
    have hvectors : ∀ j, ((x.net.store i { x.net.node i with mac := mac } none).node
        j).strengthVector = (net₀.node j).strengthVector := by
      intro j
      by_cases hji : j = i
      · rw [hji, store_node_self]
        exact hinv.strengthVector i
      · rw [store_node_of_ne hji]
        exact hinv.strengthVector j
    unfold Round.store
    rw [hempty]
    exact .of_quiet hstored hvectors
  · apply hinv.store hi
    case hid => exact hinv.nodeId i hi
    case hvector => exact hinv.strengthVector i
    case hseq => exact hinv.seq i hi
    case hbyte => exact hinv.byte i hi
    case hsome => exact hnone
    case hissued =>
      change update x.net.strength i (x.net.strength i) coordinator = 100
      rw [update_eq_self]
      exact hinv.issued hnone
    case hle => exact le_rfl
    case hroute =>
      change x.net.strength i = 0 ∨ PathWidth _ i (x.net.strength i) ∧ x.net.strength i ≤
        update x.net.strength i (x.net.strength i) (x.net.bestNode i)
      rw [update_eq_self]
      exact hinv.route i hi
    case hheard => exact hinv.heard i hi
    case hspoken => exact hinv.spoken i hi
    case hout => exact nofun
    case hrest => exact fun p hp ↦ hp
    case hserved => exact fun p hp ↦ Or.inl hp

end

theorem flooding_step (x : Round) (op : RoundOp) (y : Round) (hinv : Flooding config net₀ x)
    (hstep : StepOf (Round.next config) x op y) : Flooding config net₀ y := by
  cases op with
  | issue env =>
    change (if _ then _ else none) = some y at hstep
    split at hstep
    · rename_i hnone
      obtain ⟨⟨o, n⟩, hcall, rfl⟩ := map_eq_some_iff.mp hstep
      exact flooding_issue hinv hnone (toOption_eq_some hcall)
    · cases hstep
  | deliver receiver adv env =>
    change (if _ then _ else none) = some y at hstep
    split at hstep
    · rename_i hflight
      obtain ⟨⟨out, n⟩, hcall, rfl⟩ := map_eq_some_iff.mp hstep
      exact flooding_deliver hinv hflight (toOption_eq_some hcall)
    · cases hstep
  | macCall i op =>
    change (if _ then _ else none) = some y at hstep
    split at hstep
    · rename_i hi
      obtain ⟨mac, -, rfl⟩ := map_eq_some_iff.mp hstep
      exact flooding_macCall hinv hi mac
    · cases hstep

theorem Current.store (hcurrent : Current config x)
    (hspoken : n.maxMasterStrength = x.net.strength i ∨
      ∃ adv ∈ (x.net.store i n out).sent, adv.nodeId = i ∧
        adv.strengthToMaster = n.maxMasterStrength) :
    Current config (Round.store config ⟨x.net, rest⟩ i n out) := by
  intro j hj
  change (x.net.store i n out).strength j ≠ 0 → ∃ adv ∈ (x.net.store i n out).sent, adv.nodeId = j ∧
    adv.strengthToMaster = (x.net.store i n out).strength j
  have hold : x.net.strength j ≠ 0 → ∃ adv ∈ (x.net.store i n out).sent, adv.nodeId = j ∧
      adv.strengthToMaster = x.net.strength j := by
    intro hne
    obtain ⟨adv, hadv, hsaid⟩ := hcurrent j hj hne
    exact ⟨adv, mem_sent_store.mpr (Or.inl hadv), hsaid⟩
  rw [strength_store]
  by_cases hji : j = i
  · rw [hji, update_self]
    rw [hji] at hold
    rcases hspoken with hsame | hsaid
    · rw [hsame]
      exact hold
    · exact fun _ ↦ hsaid
  · rw [update_of_ne hji]
    exact hold

theorem current_step (x : Round) (op : RoundOp) (y : Round)
    (hboth : Flooding config net₀ x ∧ Current config x)
    (hstep : GuardedStepOf (Round.next config) NewsOnly x op y) :
    Flooding config net₀ y ∧ Current config y := by
  obtain ⟨hinv, hcurrent⟩ := hboth
  obtain ⟨hnews, hstep⟩ := hstep
  refine ⟨flooding_step x op y hinv hstep, ?_⟩
  cases op with
  | issue env =>
    change (if _ then _ else none) = some y at hstep
    split at hstep
    · obtain ⟨⟨o, n⟩, hcall, rfl⟩ := map_eq_some_iff.mp hstep
      obtain ⟨-, -, hstrength, -, hdata⟩ := issueAdvertisement_spec (toOption_eq_some hcall)
      apply hcurrent.store
      right
      refine ⟨_, mem_sent_store.mpr (Or.inr ⟨o, rfl, hdata⟩), ?_, hstrength.symm⟩
      change (x.net.node coordinator).nodeId % 256 = coordinator
      rw [hinv.nodeId coordinator (isNode_coordinator config)]
      rfl
    · cases hstep
  | deliver receiver adv env =>
    change (if _ then _ else none) = some y at hstep
    split at hstep
    · rename_i hflight
      obtain ⟨⟨out, n⟩, hcall, rfl⟩ := map_eq_some_iff.mp hstep
      have hcall := toOption_eq_some hcall
      obtain ⟨hsent, hhears⟩ := hinv.flight _ hflight
      have hid := hinv.nodeId receiver hhears.1
      have hhandled := onReceivedAdvertisement_spec hcall
      apply hcurrent.store
      cases out with
      | some o =>
        right
        obtain ⟨-, -, -, -, hdata⟩ := hhandled.sent o rfl
        refine ⟨_, mem_sent_store.mpr (Or.inr ⟨o, rfl, hdata⟩), ?_, rfl⟩
        change (x.net.node receiver).nodeId % 256 = receiver
        rw [hid, isNode_mod hhears.1]
      | none =>
        left
        rcases hinv.taken hflight hcall with ⟨-, hsame⟩ | ⟨hother, -, -, hstronger⟩
        · exact hsame
        · exfalso
          obtain ⟨-, hroot | hignored | hnoted⟩ := hhandled.silent rfl
          · -- nothing is stronger than the coordinator
            rw [hid] at hroot
            rw [hroot] at hstronger
            exact absurd (hstronger.trans_le (min_le_left _ _)) (not_lt.mpr (hinv.le_issued hsent))
          · rw [hid] at hignored
            exact hother hignored
          · rcases hnews with hnew | hignored | hweak
            · exact hnew hnoted
            · exact hother hignored
            · exact absurd hstronger (not_lt.mpr hweak)
    · cases hstep
  | macCall i op =>
    change (if _ then _ else none) = some y at hstep
    split at hstep
    · obtain ⟨mac, -, rfl⟩ := map_eq_some_iff.mp hstep
      exact hcurrent.store (Or.inl rfl)
    · cases hstep

end Steps

section Quiescence

variable {config : NetworkConfig} {net₀ : Network} {x : Round} {i j : ℕ} {w : ℚ}

section

variable (hinv : Flooding config net₀ x) (hsent : x.net.sent ≠ []) (hdone : x.inFlight = [])
  (hpath : PathWidth (links config net₀) j w)

include hinv hsent hdone hpath

theorem Flooding.strength_ne_zero : IsNode config j ∧ x.net.strength j ≠ 0 := by
  apply hpath.reaches (P := fun j ↦ IsNode config j ∧ x.net.strength j ≠ 0)
  · refine ⟨isNode_coordinator config, ?_⟩
    change x.net.strength coordinator ≠ 0
    rw [hinv.issued hsent]
    norm_num
  · rintro i j ⟨hi, hne⟩ hhears
    refine ⟨hhears.1, ?_⟩
    obtain ⟨adv, hadv, rfl⟩ := hinv.spoken i hi (Or.inl hne)
    obtain ⟨-, -, hadvPath, -⟩ := hinv.sent adv hadv
    have hserved := hinv.served adv hadv j hhears
    rw [hdone] at hserved
    have hstrong := hserved.resolve_left nofun
    exact ((hadvPath.hop hhears).bottom_lt.trans_le hstrong).ne'

theorem Flooding.path : PathWidth (links config net₀) j (x.net.strength j) := by
  obtain ⟨hj, hne⟩ := hinv.strength_ne_zero hsent hdone hpath
  exact ((hinv.route j hj).resolve_left hne).1

theorem Flooding.isGreatest_offers (hother : j ≠ coordinator) :
    IsGreatest {s | ∃ adv ∈ x.net.sent, (links config net₀).hears j adv.nodeId ∧
      s = min adv.strengthToMaster ((links config net₀).link j adv.nodeId)} (x.net.strength j) := by
  obtain ⟨hj, hne⟩ := hinv.strength_ne_zero hsent hdone hpath
  refine ⟨((hinv.heard j hj).resolve_left hne).resolve_left hother, ?_⟩
  rintro s ⟨adv, hadv, hhears, rfl⟩
  have hserved := hinv.served adv hadv j hhears
  rw [hdone] at hserved
  exact hserved.resolve_left nofun

end

theorem Flooding.isGreatest_paths (hinv : Flooding config net₀ x) (hcurrent : Current config x)
    (hsent : x.net.sent ≠ []) (hdone : x.inFlight = [])
    (hpath : PathWidth (links config net₀) j w) :
    IsGreatest {s | PathWidth (links config net₀) j s} (x.net.strength j) := by
  refine @PathWidth.isGreatest_of_closed ℕ ℚ _ (links config net₀) j x.net.strength ?_ ?_ ?_
  · exact (hinv.issued hsent).ge
  · intro i j w hi hhears
    obtain ⟨hnode, hne⟩ := hinv.strength_ne_zero hsent hdone hi
    obtain ⟨adv, hadv, rfl, hstrength⟩ := hcurrent i hnode hne
    have hserved := hinv.served adv hadv j hhears
    rw [hdone, hstrength] at hserved
    exact hserved.resolve_left nofun
  · exact hinv.path hsent hdone hpath

end Quiescence

/-- The rounds of a network: one advertisement is issued when beacons have told the strengths. -/
def Runs (config : NetworkConfig) (net₀ : Network) (ops : List RoundOp) (x : Round) : Prop :=
  Run (StepOf (Round.next config)) ⟨net₀, []⟩ ops x

/-- Once no copy is on its way, the strength of every node belongs to a path to the coordinator and
is the best that its neighbours advertised. When no copy that a node had noted before raised its
strength, it is that of the widest path. -/
theorem strength_atQuiescence {config : NetworkConfig} {beacons : List NetworkOp} {net₀ : Network}
    {ops : List RoundOp} {x : Round} (hstart : NetworkRun nextBeacon config beacons net₀)
    (hconnected : ∀ j, IsNode config j → ∃ w, PathWidth (links config net₀) j w)
    (hrun : Runs config net₀ ops x) (hsent : x.net.sent ≠ []) (hdone : x.inFlight = []) {j : ℕ}
    (hj : IsNode config j) :
    PathWidth (links config net₀) j (x.net.strength j) ∧
      (j ≠ coordinator → IsGreatest {s | ∃ adv ∈ x.net.sent,
        (links config net₀).hears j adv.nodeId ∧
          s = min adv.strengthToMaster ((links config net₀).link j adv.nodeId)}
        (x.net.strength j)) ∧
      (Run (GuardedStepOf (Round.next config) NewsOnly) ⟨net₀, []⟩ ops x →
        IsGreatest {s | PathWidth (links config net₀) j s} (x.net.strength j)) := by
  have hquiet : Quiet config net₀ := Run.invariant quiet_step hstart (quiet_initial config)
  have hfirst : Flooding config net₀ ⟨net₀, []⟩ := .of_quiet hquiet fun _ ↦ rfl
  have hinv : Flooding config net₀ x := Run.invariant flooding_step hrun hfirst
  obtain ⟨w, hpath⟩ := hconnected j hj
  refine ⟨hinv.path hsent hdone hpath, hinv.isGreatest_offers hsent hdone hpath, fun hnews ↦ ?_⟩
  have hsilent : Current config ⟨net₀, []⟩ := fun i hi hne ↦
    absurd (hquiet.silent i hi).maxMasterStrength hne
  have hboth := Run.invariant current_step hnews ⟨hfirst, hsilent⟩
  exact hinv.isGreatest_paths hboth.2 hsent hdone hpath

/-- At every moment of a round, connected or not, a strength is that of a path over the best node,
which is at least as strong, and no advertisement is lost: each is on its way to a node that hears
its sender, or the node is as strong as it offers. -/
theorem noneLost_of_runs {config : NetworkConfig} {beacons : List NetworkOp} {net₀ : Network}
    {ops : List RoundOp} {x : Round} (hstart : NetworkRun nextBeacon config beacons net₀)
    (hrun : Runs config net₀ ops x) : (∀ i, IsNode config i → x.net.strength i = 0 ∨
      PathWidth (links config net₀) i (x.net.strength i) ∧
        x.net.strength i ≤ x.net.strength (x.net.bestNode i)) ∧
      ∀ adv ∈ x.net.sent, ∀ j, (links config net₀).hears j adv.nodeId → (j, adv) ∈ x.inFlight ∨
          min adv.strengthToMaster ((links config net₀).link j adv.nodeId) ≤ x.net.strength j := by
  have hquiet : Quiet config net₀ := Run.invariant quiet_step hstart (quiet_initial config)
  have hinv : Flooding config net₀ x :=
    Run.invariant flooding_step hrun (.of_quiet hquiet fun _ ↦ rfl)
  exact ⟨hinv.route, hinv.served⟩

instance : (x : Round) → (op : RoundOp) → Decidable (NewsOnly x op)
  | _, .deliver .. => inferInstanceAs (Decidable (_ ∨ _ ∨ _))
  | _, .issue _ => .isTrue trivial
  | _, .macCall _ _ => .isTrue trivial

theorem exists_round (config : NetworkConfig) (beacons : List NetworkOp)
    (next : Round → RoundOp → Option Round) (ops : List RoundOp) (check : Network → Round → Bool)
    (hany : ((execute (nextBeacon config) (initial config) beacons).any fun net₀ ↦
      (execute next ⟨net₀, []⟩ ops).any (check net₀)) = true) :
    ∃ net₀ x, NetworkRun nextBeacon config beacons net₀ ∧
      execute next ⟨net₀, []⟩ ops = some x ∧ check net₀ x = true := by
  obtain ⟨net₀, hbeacons, hround⟩ := (any_eq_true _ _).mp hany
  obtain ⟨x, hops, hcheck⟩ := (any_eq_true _ _).mp hround
  exact ⟨net₀, x, run_of_execute hbeacons, hops, hcheck⟩

def fiveNodes : NetworkConfig where
  nodeCount := 5
  nodeCount_pos := by decide
  nodeCount_le := by decide
  hashMapSize := 3
  quotient := fun received highest ↦ received / highest
  initialMac := fun _ ↦ Mac.zero smallConfig

/-- The neighbours are 1 and 2, 2 and 3, 3 and 4, 4 and 5, with strength 1, and 1 and 3, with
strength 1/2. -/
def fiveBeacons : List NetworkOp :=
  [.beacon 1 ⟨2, 1⟩, .beacon 1 ⟨2, 2⟩, .beacon 1 ⟨3, 1⟩, .beacon 2 ⟨1, 1⟩, .beacon 2 ⟨3, 1⟩,
    .beacon 3 ⟨1, 1⟩, .beacon 3 ⟨2, 1⟩, .beacon 3 ⟨2, 2⟩, .beacon 3 ⟨4, 1⟩, .beacon 3 ⟨4, 2⟩,
    .beacon 4 ⟨3, 1⟩, .beacon 4 ⟨5, 1⟩, .beacon 5 ⟨4, 1⟩]

def receive (receiver : ℕ) (adv : Advertisement) : RoundOp := .deliver receiver adv failingEnv

def strongFirstOps : List RoundOp :=
  [.issue failingEnv, receive 2 ⟨1, 1, 1, 100⟩, receive 3 ⟨2, 1, 1, 1⟩, receive 3 ⟨1, 1, 1, 100⟩,
    receive 4 ⟨3, 1, 2, 1⟩, receive 5 ⟨4, 1, 3, 1⟩, receive 4 ⟨5, 1, 4, 1⟩,
    receive 4 ⟨3, 1, 2, 1⟩, receive 3 ⟨4, 1, 3, 1⟩, receive 1 ⟨2, 1, 1, 1⟩,
    receive 1 ⟨3, 1, 2, 1⟩, receive 1 ⟨3, 1, 2, 1⟩, receive 2 ⟨3, 1, 2, 1⟩,
    receive 2 ⟨3, 1, 2, 1⟩]

def weakFirstOps : List RoundOp :=
  [.issue failingEnv, receive 3 ⟨1, 1, 1, 100⟩, receive 4 ⟨3, 1, 1, 1 / 2⟩,
    receive 5 ⟨4, 1, 3, 1 / 2⟩, receive 2 ⟨1, 1, 1, 100⟩, receive 3 ⟨2, 1, 1, 1⟩,
    receive 4 ⟨3, 1, 2, 1⟩, receive 1 ⟨3, 1, 1, 1 / 2⟩, receive 2 ⟨3, 1, 1, 1 / 2⟩,
    receive 3 ⟨4, 1, 3, 1 / 2⟩, receive 4 ⟨5, 1, 4, 1 / 2⟩, receive 1 ⟨2, 1, 1, 1⟩,
    receive 1 ⟨2, 1, 1, 1⟩, receive 1 ⟨3, 1, 2, 1⟩, receive 2 ⟨3, 1, 2, 1⟩,
    receive 3 ⟨2, 1, 1, 1⟩]

/-- The links on the way 1, 2, 3, 4, 5 have strength 1. -/
def isStrongChain (net : Network) : Bool :=
  [1, 2, 3, 4].all fun i ↦ getStrengthByNodeID (net.node (i + 1)) i = 1

theorem pathWidth_chain {net₀ : Network} (hchain : isStrongChain net₀ = true) {j : ℕ}
    (hj : 2 ≤ j ∧ j ≤ 5) : PathWidth (links fiveNodes net₀) j 1 := by
  have hlink : ∀ i, 1 ≤ i ∧ i ≤ 4 → getStrengthByNodeID (net₀.node (i + 1)) i = 1 := by
    intro i hi
    have hall := all_eq_true.mp hchain i (by simp; omega)
    exact of_decide_eq_true hall
  have hhears : ∀ i, 1 ≤ i ∧ i ≤ 4 → (links fiveNodes net₀).hears (i + 1) i := by
    intro i hi
    refine ⟨⟨Nat.le_add_left 1 i, ?_⟩, Nat.succ_ne_self i, ?_⟩
    · change i + 1 ≤ 5
      omega
    · rw [hlink i hi]
      exact one_pos
  have hhop : ∀ i w, 1 ≤ i ∧ i ≤ 4 → PathWidth (links fiveNodes net₀) i w → 1 ≤ w →
      PathWidth (links fiveNodes net₀) (i + 1) 1 := by
    intro i w hi hpath hw
    have hnext := hpath.hop (hhears i hi)
    have hmin : min w ((links fiveNodes net₀).link (i + 1) i) = 1 := by
      change min w (getStrengthByNodeID (net₀.node (i + 1)) i) = 1
      rw [hlink i hi, min_eq_right hw]
    rwa [hmin] at hnext
  obtain ⟨k, rfl⟩ := Nat.exists_eq_add_of_le hj.1
  induction k with
  | zero => exact hhop 1 100 (by omega) PathWidth.source (by norm_num)
  | succ k ih => exact hhop (2 + k) 1 (by omega) (ih (by omega)) le_rfl

theorem fiveNodes_connected {net₀ : Network} (hchain : isStrongChain net₀ = true) (j : ℕ)
    (hj : IsNode fiveNodes j) : ∃ w, PathWidth (links fiveNodes net₀) j w := by
  by_cases hone : j = 1
  · rw [hone]
    exact ⟨100, PathWidth.source⟩
  · have hlow := hj.1
    have hhigh : j ≤ 5 := hj.2
    exact ⟨1, pathWidth_chain hchain ⟨by omega, hhigh⟩⟩

theorem strength_strongFirst : ∃ net₀ x,
    NetworkRun nextBeacon fiveNodes fiveBeacons net₀ ∧ Runs fiveNodes net₀ strongFirstOps x ∧
      IsGreatest {s | PathWidth (links fiveNodes net₀) 5 s} (x.net.strength 5) := by
  obtain ⟨net₀, x, hstart, hexecute, hcheck⟩ := exists_round fiveNodes fiveBeacons
    (guardedNext (Round.next fiveNodes) NewsOnly) strongFirstOps
    (fun net₀ x ↦ isStrongChain net₀ && x.inFlight.isEmpty && !x.net.sent.isEmpty)
    (by decide +kernel)
  simp only [Bool.and_eq_true, Bool.not_eq_true', List.isEmpty_iff] at hcheck
  obtain ⟨⟨hchain, hdone⟩, hsent⟩ := hcheck
  have hguarded := guardedRun_of_execute hexecute
  have hrun : Runs fiveNodes net₀ strongFirstOps x := hguarded.mono fun _ _ _ hstep ↦ hstep.2
  have hall := strength_atQuiescence hstart (fiveNodes_connected hchain) hrun
    (fun hnone ↦ by simp [hnone] at hsent) hdone (j := 5) (by decide)
  exact ⟨net₀, x, hstart, hrun, hall.2.2 hguarded⟩

theorem noneLost_strongFirst : ∃ net₀ x, NetworkRun nextBeacon fiveNodes fiveBeacons net₀ ∧
    Runs fiveNodes net₀ (strongFirstOps.take 4) x ∧ x.net.strength 3 = 1 ∧
      PathWidth (links fiveNodes net₀) 3 1 := by
  obtain ⟨net₀, x, hstart, hexecute, hcheck⟩ := exists_round fiveNodes fiveBeacons
    (Round.next fiveNodes) (strongFirstOps.take 4) (fun _ x ↦ x.net.strength 3 = 1)
    (by decide +kernel)
  have hrun : Runs fiveNodes net₀ (strongFirstOps.take 4) x := run_of_execute hexecute
  have hone : x.net.strength 3 = 1 := of_decide_eq_true hcheck
  have hroute := (noneLost_of_runs hstart hrun).1 3 (by decide)
  rw [hone] at hroute
  exact ⟨net₀, x, hstart, hrun, hone, (hroute.resolve_left one_ne_zero).1⟩

/-- The weak link first: node 4 learns of the strong ones from a second advertisement of node 3 and
does not pass it on. -/
theorem strength_weakFirst : ∃ net₀ x,
    NetworkRun nextBeacon fiveNodes fiveBeacons net₀ ∧
      (∀ j, IsNode fiveNodes j → ∃ w, PathWidth (links fiveNodes net₀) j w) ∧
      Runs fiveNodes net₀ weakFirstOps x ∧ x.net.sent ≠ [] ∧ x.inFlight = [] ∧
      x.net.strength 5 = 1 / 2 ∧ PathWidth (links fiveNodes net₀) 5 1 := by
  obtain ⟨net₀, x, hstart, hexecute, hcheck⟩ := exists_round fiveNodes fiveBeacons
    (Round.next fiveNodes) weakFirstOps
    (fun net₀ x ↦ isStrongChain net₀ && x.inFlight.isEmpty && !x.net.sent.isEmpty &&
      decide (x.net.strength 5 = 1 / 2)) (by decide +kernel)
  simp only [Bool.and_eq_true, Bool.not_eq_true', List.isEmpty_iff, decide_eq_true_eq] at hcheck
  obtain ⟨⟨⟨hchain, hdone⟩, hsent⟩, hstrength⟩ := hcheck
  exact ⟨net₀, x, hstart, fiveNodes_connected hchain, run_of_execute hexecute,
    fun hnone ↦ by simp [hnone] at hsent, hdone, hstrength, pathWidth_chain hchain (by decide)⟩

end Round

end ContikiMaster.Routing
