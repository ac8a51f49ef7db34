import ContikiMaster.Tsch.FlowWindows

/-!
# Backoff windows of shared links

The queue that a link serves is looked up by one address, the queues whose windows the slot counts
down by another: with one queue for each neighbor both are the address of the link, with one for
each flow the first is that of the flow. The window of a flow queue is then never counted down,
unless the link has the address of the flow, or is a broadcast link and the queue has no Tx link.
-/

namespace ContikiMaster.Tsch

open Sys Lib Function List Option

/-- `TSCH_FLOW_BASED_QUEUES`. -/
inductive QueueMode
  | perNeighbor
  | flowBased
  deriving DecidableEq

/-- The part of `get_packet_and_neighbor_for_link` that picks a data packet, with one queue for
each neighbor. -/
def getDataPacketPerNeighbor (s : Mac) (link : TschLink) : Option ℕ × Option ℕ :=
  let n := tschQueueGetNbr s link.addr
  let p := tschQueueGetPacketForNbr s n link
  if p.isNone && n == s.nBroadcast then
    match tschQueueGetUnicastPacketForAny s link with
    | none => (none, n)
    | some (p, n) => (some p, some n)
  else (p, n)

/-- `get_packet_and_neighbor_for_link` with one queue for each neighbor. -/
def getPacketPerNeighbor (s : Mac) (l : ℕ) : Option ℕ × Option ℕ :=
  let link := s.link l
  if linkOptionTx link.linkOptions then
    let eb :=
      match link.linkType with
      | .normal => none
      | .advertising | .advertisingOnly => tschQueueGetPacketForNbr s s.nEb link
    if link.linkType = .advertisingOnly then (eb, s.nEb)
    else match eb with
      | some p => (some p, s.nEb)
      | none => getDataPacketPerNeighbor s link
  else (none, none)

/-- The packet that a slot transmits over a link, and the queue it is taken from. -/
def packetOfLink (s : Mac) (l : ℕ) : QueueMode → Option ℕ × Option ℕ
  | .perNeighbor => getPacketPerNeighbor s l
  | .flowBased =>
    match getPacketAndNeighborForLink { s with tschInSlotOperation := true } l with
    | .ok (p, n, _) => (p, n)
    | .error _ => (none, none)

def withoutBackoff (s : Mac) (n : ℕ) : Mac :=
  s.setNeighbor n { s.neighbor n with backoffWindow := 0 }

/-- A link would serve a queue, but for its backoff. -/
def WouldServe (mode : QueueMode) (s : Mac) (l n : ℕ) : Prop :=
  (packetOfLink (withoutBackoff s n) l mode).1.isSome = true ∧
    (packetOfLink (withoutBackoff s n) l mode).2 = some n

instance {mode : QueueMode} {s : Mac} {l n : ℕ} : Decidable (WouldServe mode s l n) :=
  inferInstanceAs (Decidable (_ ∧ _))

/-- The slots of a link count the windows of a queue down: broadcast links those of the queues
without a Tx link, other links those of the queues with their address. -/
def Directed (destAddr : Linkaddr) (n : TschNeighbor) : Prop :=
  if n.txLinksCount = 0 then destAddr = tschBroadcastAddress else destAddr = n.addr

section Windows

variable {s : Mac} {n : ℕ} {destAddr : Linkaddr} {r : TschNeighbor}

theorem backoffStep_of_directed (hdirected : Directed destAddr r) :
    backoffStep destAddr r = { r with backoffWindow := r.backoffWindow - 1 } := by
  unfold backoffStep
  unfold Directed at hdirected
  by_cases hzero : r.backoffWindow = 0
  · rw [if_neg fun hboth ↦ hboth.1 hzero, hzero, Nat.zero_sub, ← hzero]
  · rw [if_pos]
    refine ⟨hzero, ?_⟩
    split at hdirected
    · rename_i hcount
      exact .inl ⟨hcount, hdirected⟩
    · rename_i hcount
      exact .inr ⟨Nat.pos_of_ne_zero hcount, hdirected⟩

theorem backoffStep_of_not_directed (hdirected : ¬ Directed destAddr r) :
    backoffStep destAddr r = r := by
  unfold backoffStep
  rw [if_neg]
  rintro ⟨-, ⟨hcount, haddr⟩ | ⟨hcount, haddr⟩⟩
  · exact hdirected (by rw [Directed, if_pos hcount]; exact haddr)
  · exact hdirected (by rw [Directed, if_neg hcount.ne']; exact haddr)

theorem directed_backoffStep : Directed destAddr (backoffStep destAddr r) ↔ Directed destAddr r := by
  by_cases hdirected : Directed destAddr r
  · rw [backoffStep_of_directed hdirected]
    rfl
  · rw [backoffStep_of_not_directed hdirected]

theorem backoffStep_iterate (hdirected : Directed destAddr r) (k : ℕ) :
    ((backoffStep destAddr)^[k] r).backoffWindow = r.backoffWindow - k := by
  induction k generalizing r with
  | zero => rfl
  | succ k ih =>
    calc
      ((backoffStep destAddr)^[k] (backoffStep destAddr r)).backoffWindow =
          (backoffStep destAddr r).backoffWindow - k := ih (directed_backoffStep.mpr hdirected)
      _ = r.backoffWindow - 1 - k := by rw [backoffStep_of_directed hdirected]
      _ = r.backoffWindow - (k + 1) := by omega

theorem foldl_setNeighbor (f : TschNeighbor → TschNeighbor) {nbrs : List ℕ} (hnodup : nbrs.Nodup)
    (s : Mac) : (nbrs.foldl (fun s n ↦ s.setNeighbor n (f (s.neighbor n))) s).neighbor n =
      if n ∈ nbrs then f (s.neighbor n) else s.neighbor n := by
  induction nbrs generalizing s with
  | nil => rfl
  | cons m nbrs ih =>
    obtain ⟨hm, hnbrs⟩ := nodup_cons.mp hnodup
    rw [foldl_cons, ih hnbrs]
    by_cases hsame : n = m
    · rw [hsame, if_neg hm, if_pos mem_cons_self]
      exact Memb.store_mem_self
    · have hother : (s.setNeighbor m (f (s.neighbor m))).neighbor n = s.neighbor n :=
        Memb.store_mem_of_ne hsame
      rw [hother]
      simp [hsame]

theorem updateAll_neighbor (hlocked : s.tschLocked = false) (hnodup : s.neighborList.Nodup)
    (hn : n ∈ s.neighborList) : (tschQueueUpdateAllBackoffWindows s destAddr).neighbor n =
      backoffStep destAddr (s.neighbor n) := by
  unfold tschQueueUpdateAllBackoffWindows
  rw [hlocked, if_neg Bool.false_ne_true, foldl_setNeighbor _ hnodup, if_pos hn]

theorem updateAll_list (s : Mac) (destAddr : Linkaddr) :
    (tschQueueUpdateAllBackoffWindows s destAddr).neighborList = s.neighborList ∧
      (tschQueueUpdateAllBackoffWindows s destAddr).tschLocked = s.tschLocked := by
  have hfold : ∀ (nbrs : List ℕ) (u : Mac),
      (nbrs.foldl (fun s n ↦ s.setNeighbor n (backoffStep destAddr (s.neighbor n))) u).neighborList =
        u.neighborList ∧
      (nbrs.foldl (fun s n ↦ s.setNeighbor n (backoffStep destAddr (s.neighbor n))) u).tschLocked =
        u.tschLocked := by
    intro nbrs
    induction nbrs with
    | nil => exact fun u ↦ ⟨rfl, rfl⟩
    | cons m nbrs ih => exact fun u ↦ ih _
  unfold tschQueueUpdateAllBackoffWindows
  split
  · exact ⟨rfl, rfl⟩
  · exact hfold _ s

theorem updateAll_iterate (hlocked : s.tschLocked = false) (hnodup : s.neighborList.Nodup)
    (hn : n ∈ s.neighborList) (k : ℕ) :
    ((tschQueueUpdateAllBackoffWindows · destAddr)^[k] s).neighbor n =
      (backoffStep destAddr)^[k] (s.neighbor n) := by
  induction k generalizing s with
  | zero => rfl
  | succ k ih =>
    obtain ⟨hlist, hlock⟩ := updateAll_list s destAddr
    rw [iterate_succ_apply, iterate_succ_apply,
      ih (hlock.trans hlocked) (hlist ▸ hnodup) (hlist ▸ hn), updateAll_neighbor hlocked hnodup hn]

end Windows

section Served

variable {s t : Mac} {link : TschLink} {l n : ℕ} {p : Option ℕ}

def Listed (s : Mac) (n : ℕ) : Prop := s.tschLocked = false ∧ n ∈ s.neighborList

theorem listed_of_getNbr {addr : Linkaddr} (hnbr : tschQueueGetNbr s addr = some n) :
    Listed s n := by
  refine ⟨?_, (tschQueueGetNbr_mem hnbr).1⟩
  unfold tschQueueGetNbr at hnbr
  split at hnbr
  · cases hnbr
  · rename_i hlocked
    simpa using hlocked

theorem listed_of_unicast {q : ℕ} (hfound : tschQueueGetUnicastPacketForAny s link = some (q, n)) :
    Listed s n := by
  refine ⟨?_, (tschQueueGetUnicastPacketForAny_head hfound).1⟩
  unfold tschQueueGetUnicastPacketForAny at hfound
  split at hfound
  · cases hfound
  · rename_i hlocked
    simpa using hlocked

theorem listed_of_eb (heb : ∀ e ∈ s.nEb, e ∈ s.neighborList) {q : ℕ} (hn : s.nEb = some n)
    (hhead : tschQueueGetPacketForNbr s s.nEb link = some q) : Listed s n := by
  rw [hn] at hhead
  exact ⟨(tschQueueGetPacketForNbr_eq_head hhead).1, heb n hn⟩

theorem getDataPacketPerNeighbor_listed
    (hserved : getDataPacketPerNeighbor s link = (p, some n)) (hp : p.isSome = true) :
    Listed s n := by
  unfold getDataPacketPerNeighbor at hserved
  dsimp only at hserved
  split at hserved
  · split at hserved
    · rw [← (Prod.mk.inj hserved).1] at hp
      cases hp
    · rename_i hfound
      cases hserved
      exact listed_of_unicast hfound
  · exact listed_of_getNbr (Prod.mk.inj hserved).2

theorem getDataPacketForLink_listed (hslot : s.tschInSlotOperation = true)
    (hcall : getDataPacketForLink s link = .ok (p, some n, t)) (hp : p.isSome = true) :
    Listed s n := by
  unfold getDataPacketForLink at hcall
  obtain ⟨⟨q, u⟩, hloop, hrest⟩ := bind_eq_ok hcall
  dsimp only at hrest
  split at hrest
  · split at hrest
    · rw [← (Prod.mk.inj (Except.ok.inj hrest)).1] at hp
      cases hp
    · rename_i hfound
      cases hrest
      have hlisted := listed_of_unicast hfound
      cases hnbr : tschQueueGetNbr s (flowAddr link.slotframeHandle) with
      | none =>
        rw [hnbr, ttlLoop_none _ (by unfold tschQueueGetPacketForNbr; split <;> rfl)] at hloop
        cases hloop
        exact hlisted
      | some m =>
        have hm := listed_of_getNbr hnbr
        rw [hnbr] at hloop
        exact ⟨hm.1, (ttlLoop_done _ hslot hm.2 hloop).list ▸ hlisted.2⟩
  · have hnbr := congrArg (fun selected : Option ℕ × Option ℕ × Mac ↦ selected.2.1)
      (Except.ok.inj hrest)
    exact listed_of_getNbr hnbr

section

variable (heb : ∀ e ∈ s.nEb, e ∈ s.neighborList)

include heb

theorem listed_of_ebPacket {q : ℕ} (hn : s.nEb = some n)
    (hpacket : (match link.linkType with
      | .normal => none
      | .advertising | .advertisingOnly => tschQueueGetPacketForNbr s s.nEb link) = some q) :
    Listed s n := by
  split at hpacket
  · cases hpacket
  · exact listed_of_eb heb hn hpacket
  · exact listed_of_eb heb hn hpacket

theorem getPacketPerNeighbor_listed
    (hserved : getPacketPerNeighbor s l = (p, some n)) (hp : p.isSome = true) : Listed s n := by
  obtain ⟨q, rfl⟩ := isSome_iff_exists.mp hp
  unfold getPacketPerNeighbor at hserved
  dsimp only at hserved
  split at hserved
  · split at hserved
    · exact listed_of_ebPacket heb (Prod.mk.inj hserved).2 (Prod.mk.inj hserved).1
    · split at hserved
      · rename_i hpacket
        exact listed_of_ebPacket heb (Prod.mk.inj hserved).2 hpacket
      · exact getDataPacketPerNeighbor_listed hserved rfl
  · cases hserved

theorem getPacketAndNeighborForLink_listed (hslot : s.tschInSlotOperation = true)
    (hcall : getPacketAndNeighborForLink s l = .ok (p, some n, t)) (hp : p.isSome = true) :
    Listed s n := by
  obtain ⟨q, rfl⟩ := isSome_iff_exists.mp hp
  unfold getPacketAndNeighborForLink at hcall
  dsimp only at hcall
  split at hcall
  · split at hcall
    · obtain ⟨hq, hrest⟩ := Prod.mk.inj (Except.ok.inj hcall)
      exact listed_of_ebPacket heb (Prod.mk.inj hrest).1 hq
    · split at hcall
      · rename_i hpacket
        obtain ⟨-, hrest⟩ := Prod.mk.inj (Except.ok.inj hcall)
        exact listed_of_ebPacket heb (Prod.mk.inj hrest).1 hpacket
      · exact getDataPacketForLink_listed hslot hcall rfl
  · cases hcall

end

theorem listed_of_served {mode : QueueMode} (heb : ∀ e ∈ s.nEb, e ∈ s.neighborList)
    (hp : (packetOfLink s l mode).1.isSome = true) (hn : (packetOfLink s l mode).2 = some n) :
    Listed s n := by
  cases mode with
  | perNeighbor => exact getPacketPerNeighbor_listed heb (Prod.ext rfl hn) hp
  | flowBased =>
    unfold packetOfLink at hp hn
    dsimp only at hp hn
    split at hp
    · rename_i q m u hcall
      rw [hcall] at hn
      obtain rfl : m = some n := hn
      exact getPacketAndNeighborForLink_listed (s := { s with tschInSlotOperation := true }) heb
        rfl hcall hp
    · cases hp

end Served

section Drains

variable {s : Mac} {l n : ℕ} {mode : QueueMode}

/-- The slot counts the window of a queue down by one, and as many slots as the window has make the
queue eligible again. -/
def Drains (s : Mac) (l n : ℕ) : Prop :=
  ((tschQueueUpdateAllBackoffWindows s (s.link l).addr).neighbor n).backoffWindow + 1 =
      (s.neighbor n).backoffWindow ∧
    tschQueueBackoffExpired (((tschQueueUpdateAllBackoffWindows · (s.link l).addr)^[
      (s.neighbor n).backoffWindow] s).neighbor n) = true

theorem drains_iff_directed (hnodup : s.neighborList.Nodup) (hlisted : Listed s n)
    (hwindow : (s.neighbor n).backoffWindow ≠ 0) :
    Drains s l n ↔ Directed (s.link l).addr (s.neighbor n) := by
  unfold Drains
  rw [updateAll_neighbor hlisted.1 hnodup hlisted.2, updateAll_iterate hlisted.1 hnodup hlisted.2]
  constructor
  · intro hdrains
    by_contra hdirected
    rw [backoffStep_of_not_directed hdirected] at hdrains
    omega
  · intro hdirected
    rw [backoffStep_of_directed hdirected]
    refine ⟨Nat.succ_pred_eq_of_ne_zero hwindow, ?_⟩
    unfold tschQueueBackoffExpired
    rw [backoffStep_iterate hdirected, Nat.sub_self]
    rfl

/-- The window of the queue that a link serves drains exactly if the slots of the link are directed
at the queue: if the link is a broadcast link and the queue has no Tx link, or the queue has a Tx
link and the address of the link. -/
theorem served_drains_iff (hnodup : s.neighborList.Nodup)
    (heb : ∀ e ∈ s.nEb, e ∈ s.neighborList) (hserves : WouldServe mode s l n)
    (hwindow : (s.neighbor n).backoffWindow ≠ 0) :
    Drains s l n ↔ Directed (s.link l).addr (s.neighbor n) := by
  have hlisted : Listed s n := listed_of_served (s := withoutBackoff s n) heb hserves.1 hserves.2
  exact drains_iff_directed hnodup hlisted hwindow

/-- A shared link of slotframe 1, the slotframe of flow 1, whose first transmission of a packet
fails. -/
def failingOps (addr : Linkaddr) : List MacOp :=
  [.addSlotframe 1 10, .addLink (some 0) ⟨5, .normal, addr, 0, 0⟩, .synchronize ⟨0, 0⟩ 1 true,
    .sendPacket ⟨[], nodeAddr 2, 5, 1, 100, 0⟩ (some ⟨[], 21⟩) true, .startSlots,
    .slot ⟨macTxErr, 192, false, 0⟩]

/-- What is checked of the state after the failed transmission. -/
def inBackoff (s : Mac) : Bool :=
  decide (s.neighborList.Nodup ∧ (∀ e ∈ s.nEb, e ∈ s.neighborList) ∧ WouldServe .flowBased s 0 2 ∧
    (s.link 0).linkOptions = 5 ∧ (s.neighbor 2).backoffWindow ≠ 0)

/-- The shared link has the address of node 2. -/
theorem not_drains_nodeAddress : ∃ s, MacRun smallConfig (failingOps (nodeAddr 2)) s ∧
    (linkOptionTx (s.link 0).linkOptions && linkOptionShared (s.link 0).linkOptions) = true ∧
    WouldServe .flowBased s 0 2 ∧ (s.neighbor 2).backoffWindow ≠ 0 ∧ ¬ Drains s 0 2 := by
  obtain ⟨s, hrun, hbackoff, hcount, hqueue, hlink⟩ : ∃ s,
      MacRun smallConfig (failingOps (nodeAddr 2)) s ∧ inBackoff s ∧
        (s.neighbor 2).txLinksCount = 1 ∧ (s.neighbor 2).addr = flowAddr 1 ∧
          (s.link 0).addr = nodeAddr 2 := exists_initRun (by decide +kernel)
  obtain ⟨hnodup, heb, hserves, hoptions, hwindow⟩ := of_decide_eq_true hbackoff
  have hlisted : Listed s 2 := listed_of_served (s := withoutBackoff s 2) heb hserves.1 hserves.2
  refine ⟨s, hrun, by rw [hoptions]; decide, hserves, hwindow, ?_⟩
  rw [drains_iff_directed hnodup hlisted hwindow, Directed, hcount, hqueue, hlink]
  decide

theorem drains_flowAddress : ∃ s, MacRun smallConfig (failingOps (flowAddr 1)) s ∧
    (Drains s 0 2 ↔ Directed (s.link 0).addr (s.neighbor 2)) := by
  obtain ⟨s, hrun, hbackoff⟩ : ∃ s, MacRun smallConfig (failingOps (flowAddr 1)) s ∧ inBackoff s :=
    exists_initRun (by decide +kernel)
  obtain ⟨hnodup, heb, hserves, -, hwindow⟩ := of_decide_eq_true hbackoff
  exact ⟨s, hrun, served_drains_iff hnodup heb hserves hwindow⟩

end Drains

end ContikiMaster.Tsch
