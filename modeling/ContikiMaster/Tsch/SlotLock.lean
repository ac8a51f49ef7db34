import ContikiMaster.Tsch.Mac

/-!
# The slot interrupt and the lock

While a slot operation runs, a request for the lock waits for the end of that very slot
operation. The only path from packet selection to the lock is the collector of unused
neighbors in the TTL loop; the loop ends in every case in which it is not taken. Nothing is
said about a slot that interrupts code holding the lock.
-/

namespace ContikiMaster.Tsch

open Sys Lib List

/-- A call that comes back to its caller. -/
def Returns {α : Type} (call : Except Fault α) : Prop := ∃ result, call = .ok result

variable {α : Type} {link : TschLink} {s : Mac} {n p : ℕ}

@[simp] theorem returns_ok (result : α) : Returns (.ok result) := ⟨result, rfl⟩

@[simp] theorem not_returns_error (fault : Fault) : ¬ Returns (.error fault : Except Fault α) := by
  rintro ⟨result, hresult⟩
  cases hresult

theorem returns_bind_iff {β : Type} {call : Except Fault α} {rest : α → Except Fault β} :
    Returns (call >>= rest) ↔ ∃ result, call = .ok result ∧ Returns (rest result) := by
  cases call with
  | error fault =>
    constructor
    · rintro ⟨result, hresult⟩
      cases hresult
    · rintro ⟨result, hresult, -⟩
      cases hresult
  | ok value =>
    constructor
    · intro hreturns
      exact ⟨value, rfl, hreturns⟩
    · rintro ⟨result, hresult, hreturns⟩
      cases hresult
      exact hreturns

/-- A neighbor the collector frees once its queue is empty. -/
def neighborCollectable (s : Mac) (n : ℕ) : Bool :=
  !(s.neighbor n).isBroadcast && !(s.neighbor n).isTimeSource && (s.neighbor n).txLinksCount == 0

theorem neighborUnused_eq (s : Mac) (n : ℕ) :
    neighborUnused s n = (neighborCollectable s n && tschQueueIsEmpty s n) := rfl

theorem freeIfUnused_in_slot (hslot : s.tschInSlotOperation = true)
    (hfree : s.tschLocked = false) (n : ℕ) :
    freeIfUnused s n = if neighborUnused s n then .error .busyWait else .ok s := by
  unfold freeIfUnused tschQueueRemoveNbr tschGetLock
  rw [hslot, hfree]
  rfl

theorem tschQueueFreeUnusedNeighbors_in_slot (hslot : s.tschInSlotOperation = true)
    (hfree : s.tschLocked = false) : tschQueueFreeUnusedNeighbors s =
      if ∃ m ∈ s.neighborList, neighborUnused s m = true then .error .busyWait else .ok s := by
  have hfold : ∀ nbrs : List ℕ, nbrs.foldlM freeIfUnused s =
      if ∃ m ∈ nbrs, neighborUnused s m = true then .error .busyWait else .ok s := by
    intro nbrs
    induction nbrs with
    | nil =>
      rw [if_neg (by simp)]
      rfl
    | cons m nbrs ih =>
      rw [foldlM_cons, freeIfUnused_in_slot hslot hfree]
      by_cases hm : neighborUnused s m = true
      · rw [if_pos hm, if_pos ⟨m, mem_cons_self, hm⟩]
        rfl
      · rw [if_neg hm]
        have hrest : (∃ k ∈ m :: nbrs, neighborUnused s k = true) ↔
            ∃ k ∈ nbrs, neighborUnused s k = true := by
          simp [hm]
        simp only [hrest]
        exact ih
  unfold tschQueueFreeUnusedNeighbors
  rw [hfree]
  exact hfold s.neighborList

/-- The state after the expired head of a queue was removed and freed. -/
def headDropped (s : Mac) (n p : ℕ) : Mac :=
  tschQueueFreePacket (tschQueueRemovePacketFromQueue s (some n)).2 p

section HeadDropped

variable {rest : List ℕ}

section

variable (hfree : s.tschLocked = false) (hqueue : (s.neighbor n).txArray = p :: rest)

include hfree hqueue

theorem headDropped_eq :
    headDropped s n p = { s with
      neighborMemb := s.neighborMemb.store n { s.neighbor n with txArray := rest }
      packetMemb := s.packetMemb.free p
      numEbPackets := if some n = s.nEb then (s.numEbPackets + 255) % 256 else s.numEbPackets } := by
  unfold headDropped tschQueueRemovePacketFromQueue
  rw [if_neg (by simp [hfree])]
  simp only [hqueue]
  rfl

theorem headDropped_neighbor_self :
    (headDropped s n p).neighbor n = { s.neighbor n with txArray := rest } := by
  rw [headDropped_eq hfree hqueue]
  exact Memb.store_mem_self

theorem headDropped_neighbor_of_ne {m : ℕ} (hm : m ≠ n) :
    (headDropped s n p).neighbor m = s.neighbor m := by
  rw [headDropped_eq hfree hqueue]
  exact Memb.store_mem_of_ne hm

theorem headDropped_frame : (headDropped s n p).tschLocked = false ∧
      (headDropped s n p).tschInSlotOperation = s.tschInSlotOperation ∧
      (headDropped s n p).neighborList = s.neighborList ∧
      ∀ q, ttlExpired (headDropped s n p) q = ttlExpired s q := by
  rw [headDropped_eq hfree hqueue]
  refine ⟨hfree, rfl, rfl, fun q ↦ ?_⟩
  simp [ttlExpired, Mac.packet]

theorem neighborCollectable_headDropped (m : ℕ) :
    neighborCollectable (headDropped s n p) m = neighborCollectable s m := by
  unfold neighborCollectable
  by_cases hm : m = n
  · rw [hm, headDropped_neighbor_self hfree hqueue]
  · rw [headDropped_neighbor_of_ne hfree hqueue hm]

theorem neighborUnused_headDropped (m : ℕ) : neighborUnused (headDropped s n p) m = true ↔
      neighborUnused s m = true ∨ (m = n ∧ neighborCollectable s n = true ∧ rest = []) := by
  have hlocked := (headDropped_frame hfree hqueue).1
  rw [neighborUnused_eq, neighborUnused_eq, neighborCollectable_headDropped hfree hqueue]
  unfold tschQueueIsEmpty
  rw [hlocked, hfree]
  by_cases hm : m = n
  · rw [hm, headDropped_neighbor_self hfree hqueue]
    simp [hqueue]
  · rw [headDropped_neighbor_of_ne hfree hqueue hm]
    simp [hm]

theorem getPacketForNbr_headDropped {link : TschLink}
    (hhead : tschQueueGetPacketForNbr s (some n) link = some p) :
    tschQueueGetPacketForNbr (headDropped s n p) (some n) link = rest.head? := by
  have hlocked := (headDropped_frame hfree hqueue).1
  unfold tschQueueGetPacketForNbr at hhead ⊢
  unfold tschQueueBackoffExpired at hhead ⊢
  rw [if_neg (by simp [hfree])] at hhead
  rw [if_neg (by simp [hlocked])]
  simp only [headDropped_neighbor_self hfree hqueue] at hhead ⊢
  split at hhead
  · cases hhead
  · rename_i hbackoff
    rw [if_neg hbackoff]

end

end HeadDropped

/-- The collector finds a neighbor to free while the loop empties the queue of `n`. -/
def CollectsNeighbor (s : Mac) (n : ℕ) : Prop :=
  (∃ m ∈ s.neighborList, neighborUnused s m = true) ∨
    (neighborCollectable s n = true ∧ ∀ q ∈ (s.neighbor n).txArray, ttlExpired s q = true)

theorem tschQueueGetPacketForNbr_eq_head
    (hhead : tschQueueGetPacketForNbr s (some n) link = some p) :
    s.tschLocked = false ∧ ∃ rest, (s.neighbor n).txArray = p :: rest := by
  unfold tschQueueGetPacketForNbr at hhead
  split at hhead
  · cases hhead
  rename_i hlocked
  simp only at hhead
  split at hhead
  · cases hhead
  exact ⟨by simpa using hlocked, head?_eq_some_iff.mp hhead⟩

theorem tschQueueGetPacketForNbr_none (s : Mac) (link : TschLink) :
    tschQueueGetPacketForNbr s none link = none := by
  unfold tschQueueGetPacketForNbr
  split <;> rfl

theorem ttlLoop_none {n : Option ℕ} (fuel : ℕ)
    (hhead : tschQueueGetPacketForNbr s n link = none) : ttlLoop fuel s n link = .ok (none, s) := by
  cases fuel <;> simp only [ttlLoop, ttlStep, hhead]

theorem ttlLoop_fresh {n : Option ℕ} (fuel : ℕ)
    (hhead : tschQueueGetPacketForNbr s n link = some p) (hfresh : ¬ ttlExpired s p = true) :
    ttlLoop fuel s n link = .ok (some p, s) := by
  cases fuel <;> simp only [ttlLoop, ttlStep, hhead, if_neg hfresh]

theorem ttlLoop_expired (fuel : ℕ)
    (hhead : tschQueueGetPacketForNbr s (some n) link = some p) (hexpired : ttlExpired s p = true) :
    ttlLoop (fuel + 1) s (some n) link =
      (tschQueueFreeUnusedNeighbors (headDropped s n p) >>= fun t ↦
        ttlLoop fuel t (some n) link) := by
  simp only [ttlLoop, ttlStep, hhead, if_pos hexpired]
  rfl

theorem ttlLoop_returns_iff (link : TschLink) (queue : List ℕ) :
    ∀ (s : Mac) (fuel : ℕ), s.tschInSlotOperation = true → n ∈ s.neighborList →
      (s.neighbor n).txArray = queue → queue.length ≤ fuel →
      (Returns (ttlLoop fuel s (some n) link) ↔
        ¬ ∃ p, tschQueueGetPacketForNbr s (some n) link = some p ∧ ttlExpired s p = true ∧
          CollectsNeighbor s n) := by
  induction queue with
  | nil =>
    intro s fuel _ _ hqueue _
    have hnone : tschQueueGetPacketForNbr s (some n) link = none := by
      by_contra hsome
      obtain ⟨p, hp⟩ := Option.ne_none_iff_exists'.mp hsome
      obtain ⟨-, rest, hrest⟩ := tschQueueGetPacketForNbr_eq_head hp
      rw [hqueue] at hrest
      cases hrest
    rw [ttlLoop_none fuel hnone]
    simp [hnone]
  | cons p rest ih =>
    intro s fuel hslot hmem hqueue hfuel
    cases hhead : tschQueueGetPacketForNbr s (some n) link with
    | none =>
      rw [ttlLoop_none fuel hhead]
      simp
    | some p' =>
      obtain ⟨hfree, rest', hqueue'⟩ := tschQueueGetPacketForNbr_eq_head hhead
      obtain ⟨rfl, rfl⟩ : p = p' ∧ rest = rest' := by simpa [hqueue] using hqueue'
      by_cases hexpired : ttlExpired s p = true
      · obtain ⟨fuel, rfl⟩ : ∃ k, fuel = k + 1 :=
          ⟨fuel - 1, by simp only [length_cons] at hfuel; omega⟩
        obtain ⟨hlocked', hslot', hlist', hexpired'⟩ := headDropped_frame hfree hqueue
        rw [ttlLoop_expired fuel hhead hexpired,
          tschQueueFreeUnusedNeighbors_in_slot (hslot'.trans hslot) hlocked', hlist']
        by_cases hunused : ∃ m ∈ s.neighborList, neighborUnused (headDropped s n p) m = true
        · -- the collector finds a neighbor right away
          rw [if_pos hunused]
          constructor
          · intro hreturns
            exact absurd hreturns (not_returns_error _)
          · intro hnone
            refine absurd ⟨p, rfl, hexpired, ?_⟩ hnone
            obtain ⟨m, hm, hmunused⟩ := hunused
            rcases (neighborUnused_headDropped hfree hqueue m).mp hmunused with
              hbefore | ⟨-, hcollectable, hrest⟩
            · exact .inl ⟨m, hm, hbefore⟩
            · refine .inr ⟨hcollectable, ?_⟩
              rw [hqueue, hrest]
              simpa using hexpired
        · -- nothing to collect yet: the next iteration decides
          rw [if_neg hunused]
          have hqueueDropped : ((headDropped s n p).neighbor n).txArray = rest := by
            rw [headDropped_neighbor_self hfree hqueue]
          have hrec := ih (headDropped s n p) fuel (hslot'.trans hslot) (hlist' ▸ hmem)
            hqueueDropped (by simpa using hfuel)
          refine Iff.trans hrec (not_congr ?_)
          have hbefore : ¬ ∃ m ∈ s.neighborList, neighborUnused s m = true := by
            rintro ⟨m, hm, hmunused⟩
            exact hunused ⟨m, hm, (neighborUnused_headDropped hfree hqueue m).mpr (.inl hmunused)⟩
          have hnotLast : ¬ (neighborCollectable s n = true ∧ rest = []) := by
            rintro ⟨hcollectable, hrest⟩
            exact hunused ⟨n, hmem, (neighborUnused_headDropped hfree hqueue n).mpr
              (.inr ⟨rfl, hcollectable, hrest⟩)⟩
          have hcollects : CollectsNeighbor s n ↔
              neighborCollectable s n = true ∧ ∀ q ∈ rest, ttlExpired s q = true := by
            unfold CollectsNeighbor
            rw [hqueue]
            simp [hbefore, hexpired]
          have hcollects' : CollectsNeighbor (headDropped s n p) n ↔
              neighborCollectable s n = true ∧ ∀ q ∈ rest, ttlExpired s q = true := by
            unfold CollectsNeighbor
            rw [hlist', hqueueDropped, neighborCollectable_headDropped hfree hqueue]
            simp [hunused, hexpired']
          rw [hcollects', getPacketForNbr_headDropped hfree hqueue hhead]
          constructor
          · rintro ⟨q, -, -, hall⟩
            exact ⟨p, rfl, hexpired, hcollects.mpr hall⟩
          · rintro ⟨-, -, -, hcollected⟩
            obtain ⟨hcollectable, hall⟩ := hcollects.mp hcollected
            cases hrest : rest with
            | nil => exact absurd ⟨hcollectable, hrest⟩ hnotLast
            | cons q tail =>
              rw [hrest] at hall
              refine ⟨q, rfl, ?_, hcollectable, hall⟩
              rw [hexpired']
              exact hall q mem_cons_self
      · rw [ttlLoop_fresh fuel hhead hexpired]
        simp [hexpired]

/-- The slot reaches the TTL loop and finds an expired packet at the head of the flow queue. -/
structure ReachesExpired (s : Mac) (link : TschLink) (n p : ℕ) : Prop where
  tx : linkOptionTx link.linkOptions = true
  notAdvertisingOnly : link.linkType ≠ .advertisingOnly
  noEb : link.linkType = .advertising → tschQueueGetPacketForNbr s s.nEb link = none
  queue : tschQueueGetNbr s (flowAddr link.slotframeHandle) = some n
  head : tschQueueGetPacketForNbr s (some n) link = some p
  expired : ttlExpired s p = true

theorem tschQueueGetNbr_mem {addr : Linkaddr} (hfound : tschQueueGetNbr s addr = some n) :
    n ∈ s.neighborList ∧ (s.neighbor n).addr = addr := by
  unfold tschQueueGetNbr at hfound
  split at hfound
  · cases hfound
  · exact ⟨mem_of_find?_eq_some hfound, by simpa using find?_some hfound⟩

theorem getDataPacketForLink_returns_iff : Returns (getDataPacketForLink s link) ↔
      Returns (ttlLoop (queueLength s (tschQueueGetNbr s (flowAddr link.slotframeHandle))) s
        (tschQueueGetNbr s (flowAddr link.slotframeHandle)) link) := by
  unfold getDataPacketForLink
  rw [returns_bind_iff]
  constructor
  · rintro ⟨result, hresult, -⟩
    exact ⟨result, hresult⟩
  · rintro ⟨result, hresult⟩
    refine ⟨result, hresult, ?_⟩
    obtain ⟨p, t⟩ := result
    simp only
    split
    · split <;> exact ⟨_, rfl⟩
    · exact ⟨_, rfl⟩

theorem getDataPacketForLink_returns_iff_collects (hslot : s.tschInSlotOperation = true) :
    Returns (getDataPacketForLink s link) ↔
      ¬ ∃ n p, tschQueueGetNbr s (flowAddr link.slotframeHandle) = some n ∧
        tschQueueGetPacketForNbr s (some n) link = some p ∧ ttlExpired s p = true ∧
        CollectsNeighbor s n := by
  rw [getDataPacketForLink_returns_iff]
  cases hnbr : tschQueueGetNbr s (flowAddr link.slotframeHandle) with
  | none =>
    rw [ttlLoop_none _ (tschQueueGetPacketForNbr_none s link)]
    simp
  | some n =>
    have hmem := (tschQueueGetNbr_mem hnbr).1
    have hloop := ttlLoop_returns_iff link (s.neighbor n).txArray s
      (queueLength s (some n)) hslot hmem rfl le_rfl
    rw [hloop]
    simp

theorem getPacketAndNeighborForLink_returns_iff_in_slot (s : Mac)
    (hslot : s.tschInSlotOperation = true) (l : ℕ) : Returns (getPacketAndNeighborForLink s l) ↔
      ¬ ∃ n p, ReachesExpired s (s.link l) n p ∧ CollectsNeighbor s n := by
  unfold getPacketAndNeighborForLink
  by_cases htx : linkOptionTx (s.link l).linkOptions = true
  · simp only [htx, if_true]
    by_cases honly : (s.link l).linkType = .advertisingOnly
    · rw [if_pos honly]
      refine iff_of_true (returns_ok _) ?_
      rintro ⟨n, p, hreaches, -⟩
      exact hreaches.notAdvertisingOnly honly
    · rw [if_neg honly]
      split
      · rename_i p heb
        refine iff_of_true (returns_ok _) ?_
        rintro ⟨n, p', hreaches, -⟩
        cases htype : (s.link l).linkType with
        | normal => simp [htype] at heb
        | advertising =>
          have hnone := hreaches.noEb htype
          simp [htype, hnone] at heb
        | advertisingOnly => exact honly htype
      · rename_i heb
        rw [getDataPacketForLink_returns_iff_collects hslot]
        refine not_congr ?_
        constructor
        · rintro ⟨n, p, hqueue, hhead, hexpired, hcollects⟩
          refine ⟨n, p, ⟨htx, honly, fun htype ↦ ?_, hqueue, hhead, hexpired⟩, hcollects⟩
          simpa [htype] using heb
        · rintro ⟨n, p, hreaches, hcollects⟩
          exact ⟨n, p, hreaches.queue, hreaches.head, hreaches.expired, hcollects⟩
  · rw [if_neg htx]
    refine iff_of_true (returns_ok _) ?_
    rintro ⟨n, p, hreaches, -⟩
    exact htx hreaches.tx

/-- In every state of the queues, packet selection for a link comes back to the slot operation,
without waiting for the lock, if and only if no expired packet makes the collector free a
neighbor. -/
theorem getPacketAndNeighborForLink_returns_iff (s : Mac) (l : ℕ) :
    Returns (getPacketAndNeighborForLink { s with tschInSlotOperation := true } l) ↔
      ¬ ∃ n p, ReachesExpired s (s.link l) n p ∧ CollectsNeighbor s n := by
  have hiff := getPacketAndNeighborForLink_returns_iff_in_slot
    { s with tschInSlotOperation := true } rfl l
  rw [hiff]
  refine not_congr (exists_congr fun n ↦ exists_congr fun p ↦ and_congr ?_ Iff.rfl)
  constructor
  · intro hreaches
    exact ⟨hreaches.tx, hreaches.notAdvertisingOnly, hreaches.noEb, hreaches.queue,
      hreaches.head, hreaches.expired⟩
  · intro hreaches
    exact ⟨hreaches.tx, hreaches.notAdvertisingOnly, hreaches.noEb, hreaches.queue,
      hreaches.head, hreaches.expired⟩

/-- Flow 1 has a Tx link to node 3 and one packet that expires at slot 110; the time source
moves from node 3 to node 4 before the packet's next slot, 125. -/
def strandedOps : List MacOp :=
  [.updateTimeSource (some (nodeAddr 3)), .addSlotframe 1 40,
    .addLink (some 0) ⟨1, .normal, nodeAddr 3, 5, 0⟩, .synchronize ⟨100, 0⟩ 1 true,
    .sendPacket ⟨[], nodeAddr 3, 1, 1, 110, 100⟩ (some ⟨[1, 2, 3], 0⟩) true,
    .updateTimeSource (some (nodeAddr 4)), .startSlots]

/-- The slot at ASN 125 spins in `tsch_get_lock`: node 3 is unused and the packet has expired. -/
theorem slot_waits_for_itself :
    ∃ s, MacRun smallConfig strandedOps s ∧ s.currentLink = some 0 ∧
      ¬ Returns (getPacketAndNeighborForLink { s with tschInSlotOperation := true } 0) := by
  obtain ⟨s, hrun, hlink, hfault⟩ : ∃ s, MacRun smallConfig strandedOps s ∧
      s.currentLink = some 0 ∧ ¬ (getPacketAndNeighborForLink { s with tschInSlotOperation := true }
        0).toOption.isSome := exists_initRun (by decide +kernel)
  refine ⟨s, hrun, hlink, ?_⟩
  rintro ⟨result, hresult⟩
  rw [hresult] at hfault
  exact hfault rfl

end ContikiMaster.Tsch
