import ContikiMaster.Lib.SerialNumber
import ContikiMaster.Tsch.FlowRuns

/-!
# The time window of a packet

Before a slot takes a packet from the queue of its flow it drops the packets at the head whose last
slot has passed; it takes the first one left, and only if its first slot has come. The collector
that runs after each drop does not get the lock within a slot, so that the loop goes on only if
the collector has nothing to do.
-/

namespace ContikiMaster.Tsch

open Sys Lib Function List Option Memb

variable {s t u : Mac} {n p l : ℕ} {link : TschLink} {dropped kept rest : List ℕ}

def InTime (s : Mac) (p : ℕ) : Prop :=
  SerialLe 32768 s.tschCurrentAsn.ls4b (s.packet p).qb.transmissionTtl

structure InWindow (s : Mac) (p : ℕ) : Prop where
  earliest : SerialLe 32768 (s.packet p).qb.earliestTxSlot s.tschCurrentAsn.ls4b
  inTime : InTime s p

/-- A queue loses packets at its head, each of which has expired and is freed once; nothing else
happens to the queues and the packets. -/
structure Discards (s t : Mac) (n : ℕ) (dropped kept : List ℕ) : Prop where
  queue : (s.neighbor n).txArray = dropped ++ kept
  expired : ∀ q ∈ dropped, ¬ InTime s q
  state : ∃ numEbPackets, t = { s with
    neighborMemb := s.neighborMemb.store n { s.neighbor n with txArray := kept }
    packetMemb := dropped.foldl free s.packetMemb
    numEbPackets := numEbPackets }

theorem ttlExpired_iff : ttlExpired s p = true ↔ ¬ InTime s p := by
  unfold ttlExpired InTime SerialLe SerialLt tschSlotnumLt tschSlotnumDiff16
  rw [Int.bmod_def, Int.bmod_def]
  simp only [Bool.not_eq_true', decide_eq_false_iff_not]
  omega

theorem tooEarly_iff : tooEarly s p = true ↔
    ¬ SerialLe 32768 (s.packet p).qb.earliestTxSlot s.tschCurrentAsn.ls4b := by
  unfold tooEarly SerialLe SerialLt tschSlotnumLt tschSlotnumDiff16
  rw [decide_eq_true_iff, not_not]

theorem Discards.none (s : Mac) (n : ℕ) : Discards s s n [] (s.neighbor n).txArray := by
  refine ⟨rfl, fun q hq ↦ absurd hq not_mem_nil, s.numEbPackets, ?_⟩
  have hsame : s.neighborMemb.store n (s.neighbor n) = s.neighborMemb := by
    unfold store
    rw [update_eq_self]
  change s = { s with neighborMemb := s.neighborMemb.store n (s.neighbor n) }
  rw [hsame]

theorem inTime_headDropped {q : ℕ} (hfree : s.tschLocked = false)
    (hqueue : (s.neighbor n).txArray = p :: rest) : InTime (headDropped s n p) q ↔ InTime s q := by
  rw [headDropped_eq hfree hqueue]
  unfold InTime
  simp only [Mac.packet, free_mem]

theorem Discards.cons (hfree : s.tschLocked = false) (hqueue : (s.neighbor n).txArray = p :: rest)
    (hexpired : ¬ InTime s p) (hrest : Discards (headDropped s n p) t n dropped kept) :
    Discards s t n (p :: dropped) kept := by
  have hself := headDropped_neighbor_self hfree hqueue
  obtain ⟨hqueue', hexpired', numEbPackets, rfl⟩ := hrest
  rw [hself] at hqueue'
  refine ⟨?_, fun q hq ↦ ?_, numEbPackets, ?_⟩
  · rw [hqueue, cons_append]
    exact congrArg (p :: ·) hqueue'
  · rcases mem_cons.mp hq with rfl | hq
    · exact hexpired
    · exact (inTime_headDropped hfree hqueue).not.mp (hexpired' q hq)
  · rw [hself, headDropped_eq hfree hqueue]
    simp only [store, update_idem, foldl_cons]

/-- What the loop leaves: the packets it dropped had expired, and the one it returns is the first
that is left. -/
def LoopDiscards (s : Mac) (n : ℕ) (first : Option ℕ) (t : Mac) : Prop :=
  ∃ dropped kept, Discards s t n dropped kept ∧
    ∀ q, first = some q → kept.head? = some q ∧ InTime s q

variable {first nbr : Option ℕ}

theorem LoopDiscards.of_stops (fuel : ℕ)
    (hstops : ∀ q, tschQueueGetPacketForNbr s (some n) link = some q → ¬ ttlExpired s q = true)
    (hcall : ttlLoop fuel s (some n) link = .ok (first, t)) : LoopDiscards s n first t := by
  cases hhead : tschQueueGetPacketForNbr s (some n) link with
  | none =>
    rw [ttlLoop_none fuel hhead] at hcall
    cases hcall
    exact ⟨_, _, .none _ n, fun q hq ↦ by cases hq⟩
  | some q =>
    rw [ttlLoop_fresh fuel hhead (hstops q hhead)] at hcall
    cases hcall
    refine ⟨_, _, .none _ n, fun q' hq ↦ ?_⟩
    cases hq
    obtain ⟨-, rest, hqueue⟩ := tschQueueGetPacketForNbr_eq_head hhead
    refine ⟨by rw [hqueue, head?_cons], ?_⟩
    by_contra hlate
    exact hstops q hhead (ttlExpired_iff.mpr hlate)

theorem ttlLoop_discards (fuel : ℕ) (hslot : s.tschInSlotOperation = true)
    (hcall : ttlLoop fuel s (some n) link = .ok (first, t)) : LoopDiscards s n first t := by
  induction fuel generalizing s with
  | zero =>
    apply LoopDiscards.of_stops 0 _ hcall
    intro q hhead hexpired
    simp only [ttlLoop, ttlStep, hhead, if_pos hexpired] at hcall
    obtain ⟨u, -, hrest⟩ := bind_eq_ok hcall
    cases hrest
  | succ fuel ih =>
    by_cases hstops : ∀ q, tschQueueGetPacketForNbr s (some n) link = some q →
        ¬ ttlExpired s q = true
    · exact LoopDiscards.of_stops _ hstops hcall
    · push Not at hstops
      obtain ⟨q, hhead, hexpired⟩ := hstops
      obtain ⟨hfree, rest, hqueue⟩ := tschQueueGetPacketForNbr_eq_head hhead
      obtain ⟨hfree', hslot', -⟩ := headDropped_frame hfree hqueue
      rw [ttlLoop_expired fuel hhead hexpired] at hcall
      obtain ⟨u, hcollect, hrest⟩ := bind_eq_ok hcall
      -- the collector has nothing to free, for it would wait for the end of the slot
      rw [tschQueueFreeUnusedNeighbors_in_slot (hslot'.trans hslot) hfree'] at hcollect
      split at hcollect
      · cases hcollect
      · cases hcollect
        obtain ⟨dropped, kept, hdiscards, hfirst⟩ := ih (hslot'.trans hslot) hrest
        refine ⟨q :: dropped, kept, hdiscards.cons hfree hqueue (ttlExpired_iff.mp hexpired),
          fun q' hq' ↦ ?_⟩
        obtain ⟨hkept, hintime⟩ := hfirst q' hq'
        exact ⟨hkept, (inTime_headDropped hfree hqueue).mp hintime⟩

theorem foldl_free_mem {α : Type} (blocks : List ℕ) (m : Memb α) :
    (blocks.foldl free m).mem = m.mem := by
  induction blocks generalizing m with
  | nil => rfl
  | cons q blocks ih =>
    rw [foldl_cons, ih]
    exact free_mem

theorem Discards.inWindow (hdiscards : Discards s t n dropped kept) (hintime : InTime s p)
    (hearly : tooEarly t p = false) : InWindow s p := by
  refine ⟨?_, hintime⟩
  obtain ⟨-, -, numEbPackets, rfl⟩ := hdiscards
  by_contra hnot
  have htoo : tooEarly s p = true := tooEarly_iff.mpr hnot
  unfold tooEarly Mac.packet at htoo hearly
  dsimp only at hearly
  rw [foldl_free_mem, htoo] at hearly
  cases hearly

/-- The broadcast queue exists. -/
def BroadcastQueue (s : Mac) : Prop :=
  ∃ b, s.nBroadcast = some b ∧ (s.neighbor b).addr = tschBroadcastAddress

/-- The packet is the first one that is left in the queue of the flow, it is in its window, and what
was dropped before it had expired. -/
def TakesInWindow (s : Mac) (link : TschLink) (p : ℕ) (nbr : Option ℕ) (t : Mac) : Prop :=
  ∃ n dropped rest, nbr = some n ∧ tschQueueGetNbr s (flowAddr link.slotframeHandle) = some n ∧
    Discards s t n dropped (p :: rest) ∧ InWindow s p

theorem getNbr_ne_broadcast (hbroadcast : BroadcastQueue s) {flow : ℕ} :
    tschQueueGetNbr s (flowAddr flow) ≠ s.nBroadcast := by
  obtain ⟨b, hb, haddr⟩ := hbroadcast
  intro hsame
  have hnbr := (tschQueueGetNbr_mem (hsame.trans hb)).2
  exact flowAddr_ne_broadcastAddress flow (hnbr.symm.trans haddr)

theorem getDataPacketForLink_takes (hslot : s.tschInSlotOperation = true)
    (hbroadcast : BroadcastQueue s) (hcall : getDataPacketForLink s link = .ok (some p, nbr, t)) :
    TakesInWindow s link p nbr t := by
  unfold getDataPacketForLink at hcall
  obtain ⟨⟨first, u⟩, hloop, hrest⟩ := bind_eq_ok hcall
  cases hnbr : tschQueueGetNbr s (flowAddr link.slotframeHandle) with
  | none =>
    rw [hnbr, ttlLoop_none _ (tschQueueGetPacketForNbr_none s link)] at hloop
    cases hloop
    have hother : (none == s.nBroadcast) = false := by
      rw [← hnbr]
      exact beq_eq_false_iff_ne.mpr (getNbr_ne_broadcast hbroadcast)
    rw [hnbr] at hrest
    dsimp only at hrest
    rw [hother, Bool.and_false, if_neg Bool.false_ne_true] at hrest
    cases hrest
  | some n =>
    rw [hnbr] at hloop hrest
    obtain ⟨dropped, kept, hdiscards, hfirst⟩ := ttlLoop_discards _ hslot hloop
    have hother : (some n == u.nBroadcast) = false := by
      have hsame : u.nBroadcast = s.nBroadcast := by
        obtain ⟨-, -, numEbPackets, rfl⟩ := hdiscards
        rfl
      rw [hsame, ← hnbr]
      exact beq_eq_false_iff_ne.mpr (getNbr_ne_broadcast hbroadcast)
    dsimp only at hrest
    rw [hother, Bool.and_false, if_neg Bool.false_ne_true] at hrest
    obtain ⟨hfilter, hpair⟩ := Prod.mk.inj (Except.ok.inj hrest)
    obtain ⟨rfl, rfl⟩ := Prod.mk.inj hpair
    obtain ⟨hsome, hearly⟩ := filter_eq_some_iff.mp hfilter
    obtain ⟨hkept, hintime⟩ := hfirst p hsome
    obtain ⟨rest, rfl⟩ := head?_eq_some_iff.mp hkept
    exact ⟨n, dropped, rest, rfl, hnbr, hdiscards,
      hdiscards.inWindow hintime (by simpa using hearly)⟩

theorem getDataPacketForLink_of_normal (hnormal : (s.link l).linkType = .normal)
    (hcall : getPacketAndNeighborForLink s l = .ok (some p, nbr, t)) :
    getDataPacketForLink s (s.link l) = .ok (some p, nbr, t) := by
  unfold getPacketAndNeighborForLink at hcall
  dsimp only at hcall
  split at hcall
  · rw [hnormal, if_neg (by decide)] at hcall
    exact hcall
  · cases hcall

/-- A packet that a slot gets for a normal link is the first one that is left in the queue of the
link's slotframe and is in its window; what was dropped are the packets before it, each of which
had expired and was freed once. -/
theorem getPacketAndNeighborForLink_takes {nbr : Option ℕ} (hbroadcast : BroadcastQueue s)
    (hnormal : (s.link l).linkType = .normal)
    (hcall : getPacketAndNeighborForLink { s with tschInSlotOperation := true } l =
      .ok (some p, nbr, t)) :
    TakesInWindow { s with tschInSlotOperation := true } (s.link l) p nbr t :=
  getDataPacketForLink_takes rfl hbroadcast (getDataPacketForLink_of_normal hnormal hcall)

/-- Two packets of flow 1 are queued, with last slots 25 and 40; the slot is 30. -/
def expiringOps : List MacOp :=
  [.addSlotframe 1 10, .addLink (some 0) ⟨1, .normal, nodeAddr 2, 0, 0⟩,
    .synchronize ⟨20, 0⟩ 1 true, .sendPacket ⟨[], nodeAddr 2, 5, 1, 25, 20⟩ (some ⟨[], 21⟩) true,
    .sendPacket ⟨[], nodeAddr 2, 5, 1, 40, 20⟩ (some ⟨[], 21⟩) true, .synchronize ⟨30, 0⟩ 1 true]

theorem getPacketAndNeighborForLink_takes_second : ∃ s nbr t,
    MacRun smallConfig expiringOps s ∧ (s.link 0).linkType = .normal ∧
      getPacketAndNeighborForLink { s with tschInSlotOperation := true } 0 = .ok (some 1, nbr, t) ∧
      TakesInWindow { s with tschInSlotOperation := true } (s.link 0) 1 nbr t := by
  obtain ⟨s, hrun, hbroadcast, hnormal, hcalls⟩ : ∃ s, MacRun smallConfig expiringOps s ∧
      (s.nBroadcast.any fun b ↦ decide ((s.neighbor b).addr = tschBroadcastAddress)) ∧
      (s.link 0).linkType = .normal ∧
        (getPacketAndNeighborForLink { s with tschInSlotOperation := true } 0).toOption.any
          fun selected ↦ decide (selected.1 = some 1) := exists_initRun (by decide +kernel)
  obtain ⟨b, hb, haddr⟩ := (any_eq_true _ _).mp hbroadcast
  obtain ⟨⟨_, nbr, t⟩, hcall, rfl⟩ := exists_ok hcalls
  exact ⟨s, nbr, t, hrun, hnormal, hcall,
    getPacketAndNeighborForLink_takes ⟨b, hb, of_decide_eq_true haddr⟩ hnormal hcall⟩

end ContikiMaster.Tsch
