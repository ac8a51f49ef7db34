import ContikiMaster.Routing.Network

/-!
# The strength that the best node advertises

`on_received_advertisement` takes the strength that the best node advertises, up or down, when the
sequence number is new. A copy with a number noted from another neighbour before only raises it;
the strength stays too high when the best node has become weaker.
-/

namespace ContikiMaster.Routing

open Sys Tsch Lib

variable {n m : Node} {adv : Advertisement} {env : OutputEnv} {out : Option NetworkOutput}

/-- After an advertisement of the best node with the number that the node has then, and that does
not lead back to it, the strength is the one on offer. -/
def StrengthCurrent (n : Node) (adv : Advertisement) (m : Node) : Prop :=
  n.bestNode = adv.nodeId → adv.seq = m.maxAdvertisementSeq → adv.bestNode ≠ n.nodeId →
    m.maxMasterStrength = min adv.strengthToMaster (getStrengthByNodeID n adv.nodeId)

/-- The best node does not offer less under a number that is known already. -/
def NotWeaker (n : Node) (adv : Advertisement) : Prop :=
  n.bestNode = adv.nodeId → n.maxAdvertisementSeq = adv.seq → adv.bestNode ≠ n.nodeId →
    n.maxMasterStrength ≤ min adv.strengthToMaster (getStrengthByNodeID n adv.nodeId)

theorem selectBestNode_of_best {strength : ℚ} (hbest : n.bestNode = adv.nodeId)
    (hseq : n.maxAdvertisementSeq ≤ adv.seq)
    (hcall : selectBestNode (refreshStrength n adv strength) adv strength = .ok m) :
    m.maxMasterStrength =
      if n.maxAdvertisementSeq < adv.seq then strength else max n.maxMasterStrength strength := by
  unfold selectBestNode refreshStrength at hcall
  by_cases hnewer : n.maxAdvertisementSeq < adv.seq
  · simp only [if_pos hnewer, if_pos hbest, lt_irrefl, and_false, if_false] at hcall
    cases hcall
    exact (if_pos hnewer).symm
  · rw [if_neg hnewer]
    simp only [if_neg hnewer, if_pos hbest] at hcall
    by_cases hstronger : n.maxMasterStrength < strength
    · rw [if_pos ⟨hseq, hstronger⟩] at hcall
      cases hcall
      exact (max_eq_right hstronger.le).symm
    · rw [if_neg fun hboth ↦ hstronger hboth.2] at hcall
      cases hcall
      exact (max_eq_left (not_lt.mp hstronger)).symm

theorem onReceivedAdvertisement_of_best (hother : adv.bestNode ≠ n.nodeId)
    (hcall : onReceivedAdvertisement n adv env = .ok (out, m)) :
    m.maxAdvertisementSeq = max n.maxAdvertisementSeq adv.seq ∧
      (n.bestNode = adv.nodeId → n.maxAdvertisementSeq ≤ adv.seq → m.maxMasterStrength =
        if n.maxAdvertisementSeq < adv.seq then offeredStrength n adv
        else max n.maxMasterStrength (offeredStrength n adv)) := by
  unfold onReceivedAdvertisement at hcall
  rw [if_neg hother] at hcall
  obtain ⟨u, hselect, hresend⟩ := bind_eq_ok hcall
  obtain ⟨hseq, hstrength⟩ := resendAdvertisement_kept hresend
  obtain ⟨-, -, hrefreshed⟩ := @refreshStrength_same n adv
  obtain ⟨-, -, hselected⟩ := selectBestNode_same hselect
  refine ⟨hseq.trans (hselected.trans hrefreshed), fun hbest hle ↦ ?_⟩
  rw [hstrength]
  exact selectBestNode_of_best hbest hle hselect

/-- The strength is current after an advertisement exactly if the best node did not become weaker
under a known number. -/
theorem strengthCurrent_iff (hcall : onReceivedAdvertisement n adv env = .ok (out, m)) :
    StrengthCurrent n adv m ↔ NotWeaker n adv := by
  by_cases hother : adv.bestNode = n.nodeId
  · exact ⟨fun _ _ _ hne ↦ absurd hother hne, fun _ _ _ hne ↦ absurd hother hne⟩
  obtain ⟨hseq, hstrength⟩ := onReceivedAdvertisement_of_best hother hcall
  constructor
  · intro hcurrent hbest hknown _
    have hsame : adv.seq = m.maxAdvertisementSeq := by rw [hseq, hknown, max_self]
    have hoffer := hcurrent hbest hsame hother
    rw [hstrength hbest hknown.le, if_neg (hknown.not_lt)] at hoffer
    calc
      n.maxMasterStrength ≤ max n.maxMasterStrength (offeredStrength n adv) := le_max_left _ _
      _ = _ := hoffer
  · intro hweaker hbest hsame _
    have hle : n.maxAdvertisementSeq ≤ adv.seq := by
      rw [hseq] at hsame
      exact (le_max_left _ _).trans_eq hsame.symm
    rw [hstrength hbest hle]
    by_cases hnewer : n.maxAdvertisementSeq < adv.seq
    · exact if_pos hnewer
    · rw [if_neg hnewer]
      exact max_eq_right (hweaker hbest (le_antisymm hle (not_lt.mp hnewer)) hother)

/-- A node whose best node is node 2, with the strength 80 under the number 5, and with a link of
strength 100 to node 2. Its frames are too long to be sent. -/
def relayNode : Node :=
  { Node.zero 3 5 8 (Mac.zero smallConfig) with
    maxAdvertisementSeq := 5
    bestNode := 2
    maxMasterStrength := 80
    strengthVector := fun _ ↦ 100 }

def noRoom : OutputEnv := ⟨some 125, none, false⟩

/-- Node 2 advertises 50 under the number 5, which the node has noted before. -/
theorem not_strengthCurrent_weakened : ∃ out m,
    onReceivedAdvertisement relayNode ⟨2, 5, 1, 50⟩ noRoom = .ok (out, m) ∧
      ¬ StrengthCurrent relayNode ⟨2, 5, 1, 50⟩ m := by
  obtain ⟨⟨out, m⟩, hcall, hseq, hstrength⟩ : ∃ received,
      onReceivedAdvertisement relayNode ⟨2, 5, 1, 50⟩ noRoom = .ok received ∧
        received.2.maxAdvertisementSeq = 5 ∧ received.2.maxMasterStrength = 80 :=
    exists_ok (by decide +kernel)
  refine ⟨out, m, hcall, fun hcurrent ↦ ?_⟩
  have hoffer := hcurrent rfl hseq.symm (by decide)
  rw [hstrength] at hoffer
  exact absurd hoffer (by decide +kernel)

theorem strengthCurrent_newNumber : ∃ out m,
    onReceivedAdvertisement relayNode ⟨2, 6, 1, 50⟩ noRoom = .ok (out, m) ∧
      (StrengthCurrent relayNode ⟨2, 6, 1, 50⟩ m ↔ NotWeaker relayNode ⟨2, 6, 1, 50⟩) := by
  obtain ⟨⟨out, m⟩, hcall⟩ : ∃ received,
      onReceivedAdvertisement relayNode ⟨2, 6, 1, 50⟩ noRoom = .ok received :=
    exists_eq_ok (by decide +kernel)
  exact ⟨out, m, hcall, strengthCurrent_iff hcall⟩

end ContikiMaster.Routing
