import ContikiMaster.Routing.Network
import Mathlib.Order.Interval.Finset.Nat
import Mathlib.Tactic.NormNum

/-!
# How often an advertisement is re-broadcast

The history keeps the last sequence number of every sender in eight bits and compares it
with the 16 bits of a received one. A number that fits is re-broadcast at most once for each
sender; a larger one never matches and is re-broadcast every time.
-/

namespace ContikiMaster.Routing

open Sys Tsch Lib Function List Option

namespace Network

/-- The re-broadcasts so far, each with the node that made it and the sender it heard. -/
abbrev ResendLog := List (ℕ × ℕ)

/-- Whether a node calls `master_routing_send_advertisement` for a received advertisement. -/
def resends (net : Network) (receiver : ℕ) (adv : Advertisement) (env : OutputEnv) : Bool :=
  (onReceivedAdvertisement (net.node receiver) adv env).toOption.any fun result ↦ result.1.isSome

/-- A step of a run whose delivered advertisements all carry one sequence number. -/
def nextFlood (seq : ℕ) (config : NetworkConfig) (x : Network × ResendLog) (op : NetworkOp) :
    Option (Network × ResendLog) :=
  match op with
  | .deliver receiver adv env =>
    if adv.seq = seq then
      (x.1.next config op).map fun net ↦
        (net, if x.1.resends receiver adv env then (receiver, adv.nodeId) :: x.2 else x.2)
    else none
  | op => (x.1.next config op).map fun net ↦ (net, x.2)

/-- A run from power-up whose delivered advertisements all carry one sequence number. -/
def FloodRun (seq : ℕ) (config : NetworkConfig) (ops : List NetworkOp)
    (x : Network × ResendLog) : Prop :=
  Run (StepOf (nextFlood seq config)) (initial config, []) ops x

/-- In every such run a node re-broadcasts at most once for each sender, so that the coordinator's
advertisement and its re-broadcasts are at most as many as pairs of nodes. -/
def FloodBound (seq : ℕ) : Prop :=
  ∀ config ops net log, FloodRun seq config ops (net, log) →
    log.Nodup ∧ log.length + 1 ≤ config.nodeCount * config.nodeCount

/-- What the history remembers in a run with a small sequence number. -/
structure FloodInv (seq : ℕ) (config : NetworkConfig) (x : Network × ResendLog) : Prop where
  nodeId : ∀ i, IsNode config i → (x.1.node i).nodeId = i
  sent : ∀ adv ∈ x.1.sent, IsNode config adv.nodeId
  newest : ∀ i, IsNode config i → i ≠ coordinator → (x.1.node i).maxAdvertisementSeq ≤ seq
  logged : ∀ i j, (i, j) ∈ x.2 → IsNode config i ∧ i ≠ coordinator ∧ IsNode config j ∧
    (x.1.node i).historyAdSeqArray j = seq
  nodup : x.2.Nodup

section Inv

variable {seq : ℕ} {config : NetworkConfig} {net : Network} {log : ResendLog}

theorem floodInv_initial (seq : ℕ) (config : NetworkConfig) :
    FloodInv seq config (initial config, []) := by
  refine ⟨fun _ _ ↦ rfl, fun adv hadv ↦ ?_, fun _ _ _ ↦ Nat.zero_le _, fun i j hij ↦ ?_, nodup_nil⟩
  · cases hadv
  · cases hij

variable {out : Option NetworkOutput}

theorem FloodInv.store_same (hinv : FloodInv seq config (net, log)) {i : ℕ} {n : Node}
    (hid : n.nodeId = (net.node i).nodeId) (hnewest : i ≠ coordinator →
      n.maxAdvertisementSeq = (net.node i).maxAdvertisementSeq ∧
        n.historyAdSeqArray = (net.node i).historyAdSeqArray)
    (hsent : ∀ adv o, out = some o → o.mrp.data = .advertisement adv → IsNode config adv.nodeId) :
    FloodInv seq config (net.store i n out, log) := by
  refine ⟨fun j hj ↦ ?_, fun adv hadv ↦ ?_, fun j hj hne ↦ ?_, fun j k hjk ↦ ?_, hinv.nodup⟩
  · by_cases hji : j = i
    · rw [hji, store_node_self, hid, ← hji, hinv.nodeId j hj]
    · rw [store_node_of_ne hji, hinv.nodeId j hj]
  · rcases mem_sent_store.mp hadv with hold | ⟨o, ho, hdata⟩
    · exact hinv.sent adv hold
    · exact hsent adv o ho hdata
  · by_cases hji : j = i
    · subst hji
      rw [store_node_self, (hnewest hne).1]
      exact hinv.newest j hj hne
    · rw [store_node_of_ne hji]
      exact hinv.newest j hj hne
  · obtain ⟨hj, hne, hk, hhistory⟩ := hinv.logged j k hjk
    refine ⟨hj, hne, hk, ?_⟩
    by_cases hji : j = i
    · subst hji
      rw [store_node_self, (hnewest hne).2]
      exact hhistory
    · rw [store_node_of_ne hji]
      exact hhistory

theorem FloodInv.deliver (hinv : FloodInv seq config (net, log)) (hseq : seq < 256) {i : ℕ}
    {adv : Advertisement} {env : OutputEnv} {n : Node} (hi : IsNode config i)
    (hadv : adv ∈ net.sent) (hcarries : adv.seq = seq)
    (hcall : onReceivedAdvertisement (net.node i) adv env = .ok (out, n)) :
    FloodInv seq config (net.store i n out, if out.isSome then (i, adv.nodeId) :: log else log) := by
  have hhandled := onReceivedAdvertisement_spec hcall
  have hid := hhandled.same.nodeId
  have hnodeId := hinv.nodeId i hi
  have hmod : i % 256 = i := by
    have hle := config.nodeCount_le
    have hi' := hi.2
    exact Nat.mod_eq_of_lt (by omega)
  have hnewestI : i ≠ coordinator → n.maxAdvertisementSeq ≤ seq := by
    intro hne
    have hle := hhandled.seq
    have hold := hinv.newest i hi hne
    simp only at hold
    omega
  have hnewest : ∀ j, IsNode config j → j ≠ coordinator →
      ((net.store i n out).node j).maxAdvertisementSeq ≤ seq := by
    intro j hj hne
    by_cases hji : j = i
    · subst hji
      rw [store_node_self]
      exact hnewestI hne
    · rw [store_node_of_ne hji]
      exact hinv.newest j hj hne
  have hids : ∀ j, IsNode config j → ((net.store i n out).node j).nodeId = j := by
    intro j hj
    by_cases hji : j = i
    · subst hji
      rw [store_node_self, hid, hnodeId]
    · rw [store_node_of_ne hji, hinv.nodeId j hj]
  cases out with
  | none =>
    have hhistory := (hhandled.silent rfl).1
    refine ⟨hids, hinv.sent, hnewest, fun j k hjk ↦ ?_, hinv.nodup⟩
    obtain ⟨hj, hne, hk, hcell⟩ := hinv.logged j k hjk
    refine ⟨hj, hne, hk, ?_⟩
    by_cases hji : j = i
    · subst hji
      rw [store_node_self, hhistory]
      exact hcell
    · rw [store_node_of_ne hji]
      exact hcell
  | some o =>
    obtain ⟨hnotOne, hfresh, hmax, hhistory, hdata⟩ := hhandled.sent o rfl
    rw [hnodeId] at hnotOne hdata
    have hnotRoot : i ≠ coordinator := hnotOne
    -- both cells written hold the sequence number of the run
    have hown : n.maxAdvertisementSeq % 65536 % 256 = seq := by
      have hle := hnewestI hnotRoot
      omega
    rw [hnodeId, hmod, hown, hcarries, Nat.mod_eq_of_lt hseq] at hhistory
    have hcell : ∀ k, (net.node i).historyAdSeqArray k = seq ∨ k = adv.nodeId →
        n.historyAdSeqArray k = seq := by
      intro k hk
      rw [hhistory]
      by_cases hki : k = i
      · rw [hki, update_self]
      · rw [update_of_ne hki]
        by_cases hka : k = adv.nodeId
        · rw [hka, update_self]
        · rw [update_of_ne hka]
          exact hk.resolve_right hka
    refine ⟨hids, fun adv' hadv' ↦ ?_, hnewest, fun j k hjk ↦ ?_, ?_⟩
    · rcases mem_sent_store.mp hadv' with hold | ⟨o', ho', hdata'⟩
      · exact hinv.sent adv' hold
      · cases ho'
        rw [hdata] at hdata'
        cases hdata'
        change IsNode config (i % 256)
        rw [hmod]
        exact hi
    · rcases mem_cons.mp hjk with heq | hold
      · obtain ⟨rfl, rfl⟩ := Prod.mk.inj heq
        refine ⟨hi, hnotRoot, hinv.sent adv hadv, ?_⟩
        rw [store_node_self]
        exact hcell _ (.inr rfl)
      · obtain ⟨hj, hne, hk, hold⟩ := hinv.logged j k hold
        refine ⟨hj, hne, hk, ?_⟩
        by_cases hji : j = i
        · subst hji
          rw [store_node_self]
          exact hcell k (.inl hold)
        · rw [store_node_of_ne hji]
          exact hold
    · refine nodup_cons.mpr ⟨fun hlogged ↦ ?_, hinv.nodup⟩
      apply hfresh
      rw [hcarries]
      exact (hinv.logged i adv.nodeId hlogged).2.2.2

theorem floodInv_step (hseq : seq < 256) (x : Network × ResendLog) (op : NetworkOp)
    (y : Network × ResendLog) (hinv : FloodInv seq config x)
    (hstep : StepOf (nextFlood seq config) x op y) : FloodInv seq config y := by
  obtain ⟨net, log⟩ := x
  unfold StepOf nextFlood at hstep
  cases op with
  | issue env =>
    obtain ⟨net', hnext, rfl⟩ := map_eq_some_iff.mp hstep
    obtain ⟨⟨o, n⟩, hcall, rfl⟩ := map_eq_some_iff.mp hnext
    obtain ⟨hid, -, -, -, hdata⟩ := issueAdvertisement_spec (toOption_eq_some hcall)
    refine hinv.store_same hid (fun hne ↦ absurd rfl hne) fun adv o' ho' hdata' ↦ ?_
    cases ho'
    rw [hdata] at hdata'
    cases hdata'
    have hroot : IsNode config coordinator := ⟨le_rfl, config.nodeCount_pos⟩
    have hone : (net.node coordinator).nodeId = coordinator := hinv.nodeId coordinator hroot
    change IsNode config ((net.node coordinator).nodeId % 256)
    rw [hone]
    exact hroot
  | deliver i adv env =>
    simp only at hstep
    split at hstep
    · rename_i hcarries
      obtain ⟨net', hnext, rfl⟩ := map_eq_some_iff.mp hstep
      unfold next at hnext
      simp only at hnext
      split at hnext
      · rename_i hguard
        obtain ⟨⟨out, n⟩, hcall, rfl⟩ := map_eq_some_iff.mp hnext
        have hresends : net.resends i adv env = out.isSome := by
          unfold resends
          rw [hcall]
          rfl
        rw [hresends]
        exact hinv.deliver hseq hguard.1 hguard.2 hcarries (toOption_eq_some hcall)
      · cases hnext
    · cases hstep
  | beacon i beacon =>
    obtain ⟨net', hnext, rfl⟩ := map_eq_some_iff.mp hstep
    unfold next at hnext
    simp only at hnext
    split at hnext
    · cases hnext
      exact hinv.store_same rfl (fun _ ↦ ⟨rfl, rfl⟩) fun _ _ ho ↦ by cases ho
    · cases hnext
  | macCall i op =>
    obtain ⟨net', hnext, rfl⟩ := map_eq_some_iff.mp hstep
    unfold next at hnext
    simp only at hnext
    split at hnext
    · obtain ⟨mac, -, rfl⟩ := map_eq_some_iff.mp hnext
      exact hinv.store_same rfl (fun _ ↦ ⟨rfl, rfl⟩) fun _ _ ho ↦ by cases ho
    · cases hnext

theorem FloodInv.length_le (hinv : FloodInv seq config (net, log)) :
    log.length + 1 ≤ config.nodeCount * config.nodeCount := by
  have hsubset : log.toFinset ⊆
      Finset.Icc 2 config.nodeCount ×ˢ Finset.Icc 1 config.nodeCount := by
    rintro ⟨i, j⟩ hij
    obtain ⟨hi, hne, hj, -⟩ := hinv.logged i j (mem_toFinset.mp hij)
    rw [Finset.mem_product, Finset.mem_Icc, Finset.mem_Icc]
    have hne' : i ≠ 1 := hne
    have hi' := hi.1
    exact ⟨⟨by omega, hi.2⟩, hj⟩
  have hcard := Finset.card_le_card hsubset
  rw [toFinset_card_of_nodup hinv.nodup, Finset.card_product, Nat.card_Icc, Nat.card_Icc] at hcard
  obtain ⟨k, hk⟩ : ∃ k, config.nodeCount = k + 1 :=
    ⟨config.nodeCount - 1, (Nat.sub_add_cancel config.nodeCount_pos).symm⟩
  rw [hk] at hcard ⊢
  calc log.length + 1 ≤ (k + 1 + 1 - 2) * (k + 1 + 1 - 1) + 1 := Nat.add_le_add_right hcard 1
    _ = k * (k + 1) + 1 := rfl
    _ ≤ (k + 1) * (k + 1) := by
      rw [Nat.succ_mul]
      omega

theorem floodBound_of_lt (hseq : seq < 256) : FloodBound seq := by
  intro config ops net log hrun
  have hinv : FloodInv seq config (net, log) :=
    Run.invariant (floodInv_step hseq) hrun (floodInv_initial seq config)
  exact ⟨hinv.nodup, hinv.length_le⟩

end Inv

section Wide

variable {seq : ℕ} {n : Node} {env : OutputEnv}

theorem output_unassociated {dest : Linkaddr} (hjoined : n.mac.tschIsAssociated = false) :
    output n dest env = .ok (⟨n.mrp, n.masternetLen, n.sentPacketConfiguration, dest⟩, n) := by
  have hsend : sendPacket n.mac (outputPacketbuf n.sentPacketConfiguration dest) env.framed
      env.queuebufAvailable = .ok (none, n.mac) := by
    unfold sendPacket
    rw [hjoined]
    rfl
  unfold output
  simp only [hsend]
  split <;> rfl

theorem masterRoutingSendAdvertisement_unassociated (n : Node) (strength : ℚ) (advSeq best : ℕ)
    (env : OutputEnv) (hjoined : n.mac.tschIsAssociated = false) :
    ∃ out m, masterRoutingSendAdvertisement n strength advSeq best env = .ok (out, m) ∧
      m.mac = n.mac :=
  ⟨_, _, output_unassociated hjoined, rfl⟩

theorem resendAdvertisement_unassociated (n : Node) (adv : Advertisement) (env : OutputEnv)
    (hjoined : n.mac.tschIsAssociated = false) :
    ∃ out m, resendAdvertisement n adv env = .ok (out, m) ∧ m.mac = n.mac := by
  unfold resendAdvertisement
  split
  · exact ⟨_, _, rfl, rfl⟩
  split
  · exact ⟨_, _, rfl, rfl⟩
  · obtain ⟨out, m, hsend, hmac⟩ := masterRoutingSendAdvertisement_unassociated
      { n with
        historyAdSeqArray := update n.historyAdSeqArray adv.nodeId (adv.seq % 256) }
      n.maxMasterStrength n.maxAdvertisementSeq n.bestNode env hjoined
    refine ⟨some out, m, ?_, hmac⟩
    simp only [hsend]
    rfl

/-- A node that has heard no beacon and chosen no route. -/
structure Ignorant (n : Node) : Prop where
  nodeId : n.nodeId = 2
  notJoined : n.mac.tschIsAssociated = false
  noLink : n.strengthVector coordinator = 0
  noRoute : n.maxMasterStrength = 0 ∧ n.bestNode = 0
  cell : n.historyAdSeqArray coordinator < 256

theorem Ignorant.resends (env : OutputEnv) (hn : Ignorant n) (hwide : 256 ≤ seq) :
    ∃ o m, onReceivedAdvertisement n ⟨coordinator, seq, coordinator, 100⟩ env = .ok (some o, m) ∧
      Ignorant m := by
  set adv : Advertisement := ⟨coordinator, seq, coordinator, 100⟩ with hadv
  have hoffered : offeredStrength n adv = 0 := by
    unfold offeredStrength getStrengthByNodeID
    rw [hadv, hn.noLink]
    norm_num
  have hother : adv.bestNode ≠ n.nodeId := by
    rw [hn.nodeId]
    change coordinator ≠ 2
    decide
  have hnotBest : n.bestNode ≠ adv.nodeId := by
    rw [hn.noRoute.2]
    change 0 ≠ coordinator
    decide
  -- an offer of no strength selects nothing
  have hselect : selectBestNode (refreshStrength n adv (offeredStrength n adv)) adv
      (offeredStrength n adv) = .ok (refreshStrength n adv (offeredStrength n adv)) := by
    have hstrength : (refreshStrength n adv (offeredStrength n adv)).maxMasterStrength = 0 := by
      unfold refreshStrength
      split <;> exact hn.noRoute.1
    unfold selectBestNode
    rw [hstrength, hoffered, if_neg fun hstronger ↦ lt_irrefl _ hstronger.2]
  have hmac : (refreshStrength n adv (offeredStrength n adv)).mac = n.mac := by
    unfold refreshStrength
    split <;> rfl
  obtain ⟨out, m, hresend, hmac'⟩ := resendAdvertisement_unassociated
    (refreshStrength n adv (offeredStrength n adv)) adv env (hmac ▸ hn.notJoined)
  have hcall : onReceivedAdvertisement n adv env = .ok (out, m) := by
    unfold onReceivedAdvertisement
    rw [if_neg hother]
    change (selectBestNode (refreshStrength n adv (offeredStrength n adv)) adv
      (offeredStrength n adv) >>= fun u ↦ resendAdvertisement u adv env) = _
    rw [hselect]
    exact hresend
  have hhandled := onReceivedAdvertisement_spec hcall
  have hunmatched : n.historyAdSeqArray adv.nodeId ≠ adv.seq := by
    have hcell : n.historyAdSeqArray adv.nodeId < 256 := hn.cell
    have hseq : 256 ≤ adv.seq := hwide
    omega
  cases out with
  | none =>
    rcases (hhandled.silent rfl).2 with hone | hback | hmatched
    · rw [hn.nodeId] at hone
      cases hone
    · exact absurd hback hother
    · exact absurd hmatched hunmatched
  | some o =>
    obtain ⟨-, -, -, hhistory, -⟩ := hhandled.sent o rfl
    refine ⟨o, m, hcall, hhandled.same.nodeId.trans hn.nodeId,
      (congrArg Mac.tschIsAssociated (hmac'.trans hmac)).trans hn.notJoined,
      (congrFun hhandled.same.strengthVector _).trans hn.noLink, ?_, ?_⟩
    · cases hhandled.route with
      | kept hbest hstrength => exact ⟨hstrength.trans hn.noRoute.1, hbest.trans hn.noRoute.2⟩
      | refreshed hsender => exact absurd hsender hnotBest
      | switched _ _ _ _ hstronger =>
        rw [hoffered, hn.noRoute.1] at hstronger
        exact absurd hstronger (lt_irrefl _)
    · rw [hhistory, hn.nodeId]
      have hne : coordinator ≠ 2 % 256 := by decide
      rw [update_of_ne hne]
      change update n.historyAdSeqArray coordinator (seq % 256) coordinator < 256
      rw [update_self]
      exact Nat.mod_lt _ (by decide)

def twoNodes : NetworkConfig where
  nodeCount := 2
  nodeCount_pos := by decide
  nodeCount_le := by decide
  hashMapSize := 3
  quotient := fun received highest ↦ received / highest
  initialMac := fun _ ↦ Mac.zero smallConfig

def failingEnv : OutputEnv := ⟨none, none, false⟩

theorem exists_issueRun (flood : ℕ) {k : ℕ} (hk : k < 65536) :
    ∃ net, FloodRun flood twoNodes (replicate k (.issue failingEnv)) (net, []) ∧
      net.node 2 = (initial twoNodes).node 2 ∧
      (net.node coordinator).nodeId = 1 ∧ (net.node coordinator).advCounter = k ∧
      (net.node coordinator).mac.tschIsAssociated = false ∧
      (0 < k → ⟨coordinator, k, coordinator, 100⟩ ∈ net.sent) := by
  induction k with
  | zero => exact ⟨initial twoNodes, .nil _, rfl, rfl, rfl, rfl, fun hpos ↦ by cases hpos⟩
  | succ k ih =>
    obtain ⟨net, hrun, htwo, hid, hcounter, hjoined, -⟩ := ih (by omega)
    obtain ⟨o, n, hsend, hmac⟩ := masterRoutingSendAdvertisement_unassociated
      { net.node 1 with
        advCounter := ((net.node 1).advCounter + 1) % 65536
        maxAdvertisementSeq := ((net.node 1).advCounter + 1) % 65536
        bestNode := (net.node 1).nodeId % 256
        maxMasterStrength := 100 }
      100 (((net.node 1).advCounter + 1) % 65536) ((net.node 1).nodeId % 256) failingEnv hjoined
    obtain ⟨hdata, -, -, -, -, hsame⟩ := masterRoutingSendAdvertisement_spec hsend
    have hwrap : (k + 1) % 65536 = k + 1 := Nat.mod_eq_of_lt hk
    have hid1 : (net.node 1).nodeId = 1 := hid
    have hcounter1 : (net.node 1).advCounter = k := hcounter
    refine ⟨net.store coordinator n (some o), ?_, ?_, ?_, ?_, ?_, fun _ ↦ ?_⟩
    · rw [replicate_succ']
      refine hrun.snoc ?_
      change Option.map _ (Option.map _ (issueAdvertisement (net.node 1) failingEnv).toOption) = _
      rw [show issueAdvertisement (net.node 1) failingEnv = .ok (o, n) from hsend]
      rfl
    · rw [store_node_of_ne (by decide), htwo]
    · rw [store_node_self, hsame.nodeId]
      exact hid
    · rw [store_node_self, hsame.advCounter]
      change ((net.node 1).advCounter + 1) % 65536 = k + 1
      rw [hcounter1, hwrap]
    · rw [store_node_self, hmac]
      exact hjoined
    · refine mem_sent_store.mpr (.inr ⟨o, rfl, ?_⟩)
      rw [hdata, hcounter1, hwrap, hwrap]
      change PacketData.advertisement
        ⟨(net.node 1).nodeId % 256, k + 1, (net.node 1).nodeId % 256 % 256, 100⟩ = _
      rw [hid1]
      rfl

theorem exists_repeated_resend (hwide : 256 ≤ seq) (hseq : seq < 65536) :
    ∃ ops net, FloodRun seq twoNodes ops (net, [(2, coordinator), (2, coordinator)]) := by
  obtain ⟨net, hrun, htwo, -, -, -, hsent⟩ := exists_issueRun seq hseq
  have hignorant : Ignorant (net.node 2) := by
    rw [htwo]
    exact ⟨rfl, rfl, rfl, ⟨rfl, rfl⟩, by decide⟩
  have hdeliver : ∀ (net : Network) (log : ResendLog), Ignorant (net.node 2) →
      ⟨coordinator, seq, coordinator, 100⟩ ∈ net.sent → ∃ net',
        nextFlood seq twoNodes (net, log)
          (.deliver 2 ⟨coordinator, seq, coordinator, 100⟩ failingEnv) =
            some (net', (2, coordinator) :: log) ∧
          Ignorant (net'.node 2) ∧ ⟨coordinator, seq, coordinator, 100⟩ ∈ net'.sent := by
    intro net log hn hadv
    obtain ⟨o, m, hcall, hm⟩ := hn.resends failingEnv hwide
    have hguard : IsNode twoNodes 2 ∧
        (⟨coordinator, seq, coordinator, 100⟩ : Advertisement) ∈ net.sent := ⟨by decide, hadv⟩
    refine ⟨net.store 2 m (some o), ?_, ?_, mem_sent_store.mpr (.inl hadv)⟩
    · unfold nextFlood next Network.resends
      simp only [hcall, if_pos hguard]
      rfl
    · rw [store_node_self]
      exact hm
  obtain ⟨net₁, hfirst, hignorant₁, hsent₁⟩ := hdeliver net [] hignorant (hsent (by omega))
  obtain ⟨net₂, hsecond, -, -⟩ := hdeliver net₁ _ hignorant₁ hsent₁
  exact ⟨_, net₂, (hrun.snoc hfirst).snoc hsecond⟩

/-- An advertisement is re-broadcast at most once for each sender, under every order, loss and
duplication of deliveries, exactly when its sequence number fits a cell of the history. -/
theorem floodBound_iff (hseq : seq < 65536) : FloodBound seq ↔ seq < 256 := by
  constructor
  · intro hbound
    by_contra hwide
    obtain ⟨ops, net, hrun⟩ := exists_repeated_resend (not_lt.mp hwide) hseq
    have hnodup := (hbound twoNodes ops net _ hrun).1
    simp at hnodup
  · exact floodBound_of_lt

theorem floodBound_largest : FloodBound 255 := (floodBound_iff (by decide)).mpr (by decide)

/-- The advertisement numbered 256 is re-broadcast twice by node 2 when it arrives twice. -/
theorem not_floodBound_256 : ¬ FloodBound 256 := by
  intro hbound
  obtain ⟨ops, net, hrun⟩ := exists_repeated_resend (show 256 ≤ 256 from le_rfl) (by decide)
  have hnodup := (hbound twoNodes ops net _ hrun).1
  simp at hnodup

end Wide

end Network

end ContikiMaster.Routing
