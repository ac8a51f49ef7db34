import ContikiMaster.Tsch.PacketMoves
import ContikiMaster.Tsch.SlotLock

/-!
# Queueing, freeing and flushing packets

The calls that take a packet out of its queue and those that put one in. The
first keep the packet invariant with the packet outside the queues, to be freed
or to wait for it; the second keep it with the new packet noted in the ledger.
-/

namespace ContikiMaster.Tsch

open Sys Lib Function List Memb

/-- A step that takes one packet out of its queue and leaves every other in its place. -/
structure TakesPacket (p : ℕ) (s t : Mac) : Prop where
  dequeued : t.dequeued = s.dequeued
  unlocked : s.tschLocked = false → t.tschLocked = false
  inv : ∀ {pending : List ℕ} {ledger : Ledger},
    PacketInv pending ledger s.view → PacketInv (p :: pending) ledger t.view

section TakesPacket

variable {s t u : Mac} {n p : ℕ}

theorem KeepsPackets.takes (hst : KeepsPackets s t) (htu : TakesPacket p t u) : TakesPacket p s u :=
  ⟨htu.dequeued.trans hst.dequeued, fun hs ↦ htu.unlocked (hst.unlocked hs),
    fun hinv ↦ htu.inv (hst.inv hinv)⟩

theorem TakesPacket.keeps (hst : TakesPacket p s t) (htu : KeepsPackets t u) : TakesPacket p s u :=
  ⟨htu.dequeued.trans hst.dequeued, fun hs ↦ htu.unlocked (hst.unlocked hs),
    fun hinv ↦ htu.inv (hst.inv hinv)⟩

theorem TakesPacket.freed (hst : TakesPacket p s t)
    {pool : Memb TschPacket} (hcount : ∀ q, q ≠ p → pool.count q = t.packetMemb.count q)
    (hmem : ∀ q, q ≠ p → pool.mem q = t.packet q) :
    KeepsPackets s { t with packetMemb := pool } :=
  ⟨hst.dequeued, hst.unlocked, fun hinv ↦ (hst.inv hinv).dropPending hcount hmem⟩

theorem setPacket_keeps {r : TschPacket} (hn : n ∈ s.neighborList) (hp : p ∈ (s.neighbor n).txArray)
    (hdata : s.nEb ≠ some n → r.qb.data = (s.packet p).qb.data) :
    KeepsPackets s (s.setPacket p r) :=
  ⟨rfl, id, fun hinv ↦ hinv.updatePacket hn hp hdata⟩

theorem removePacket_eq {rest : List ℕ} (hunlocked : s.tschLocked = false)
    (hqueue : (s.neighbor n).txArray = p :: rest) : tschQueueRemovePacketFromQueue s (some n) =
      (some p, { s.setNeighbor n { s.neighbor n with txArray := rest } with
        numEbPackets := if some n = s.nEb then (s.numEbPackets + 255) % 256 else s.numEbPackets })
      := by
  unfold tschQueueRemovePacketFromQueue
  rw [if_neg (by simp [hunlocked])]
  simp only [hqueue]

section

variable {rest : List ℕ} (hunlocked : s.tschLocked = false) (hn : n ∈ s.neighborList)
  (hqueue : (s.neighbor n).txArray = p :: rest)

include hunlocked hn hqueue

theorem removePacket_takes : TakesPacket p s (tschQueueRemovePacketFromQueue s (some n)).2 := by
  rw [removePacket_eq hunlocked hqueue]
  exact ⟨rfl, id, fun hinv ↦ hinv.removeHead hn hqueue⟩

theorem headDropped_keeps : KeepsPackets s (headDropped s n p) :=
  (removePacket_takes hunlocked hn hqueue).freed (fun _ hq ↦ free_count_of_ne hq)
    (fun q _ ↦ congrFun free_mem q)

end

theorem flushOne_keeps (hunlocked : s.tschLocked = false) (hn : n ∈ s.neighborList) :
    KeepsPackets s (flushOne s n) ∧ (flushOne s n).neighborList = s.neighborList := by
  unfold flushOne
  cases hqueue : (s.neighbor n).txArray with
  | nil =>
    have hnone : tschQueueRemovePacketFromQueue s (some n) = (none, s) := by
      unfold tschQueueRemovePacketFromQueue
      rw [if_neg (by simp [hunlocked])]
      simp only [hqueue]
    rw [hnone]
    exact ⟨.refl s, rfl⟩
  | cons p rest =>
    have htakes := removePacket_takes hunlocked hn hqueue
    rw [removePacket_eq hunlocked hqueue] at htakes ⊢
    refine ⟨htakes.freed (fun q hq ↦ ?_) (fun q hq ↦ ?_), rfl⟩
    · exact free_count_of_ne hq
    · exact (congrFun free_mem q).trans (store_mem_of_ne hq)

theorem flushLoop_keeps (fuel : ℕ) : ∀ {s t : Mac}, s.tschLocked = false → n ∈ s.neighborList →
    flushLoop fuel s n = .ok t → KeepsPackets s t ∧ t.neighborList = s.neighborList := by
  induction fuel with
  | zero =>
    intro s t _ _ hcall
    unfold flushLoop at hcall
    split at hcall
    · cases hcall
      exact ⟨.refl _, rfl⟩
    · cases hcall
  | succ fuel ih =>
    intro s t hunlocked hn hcall
    unfold flushLoop at hcall
    split at hcall
    · cases hcall
      exact ⟨.refl _, rfl⟩
    · obtain ⟨hkept, hlist⟩ := flushOne_keeps hunlocked hn
      obtain ⟨hrest, hlist'⟩ := ih (hkept.unlocked hunlocked) (hlist ▸ hn) hcall
      exact ⟨hkept.trans hrest, hlist'.trans hlist⟩

theorem tschQueueReset_keeps (hcall : tschQueueReset s = .ok t) : KeepsPackets s t := by
  unfold tschQueueReset at hcall
  split at hcall
  · cases hcall
    exact .refl _
  · rename_i hlocked
    have hunlocked : s.tschLocked = false := by simpa using hlocked
    have hloop : KeepsPackets s t ∧ t.neighborList = s.neighborList := by
      refine foldlM_invariant (P := fun u ↦ KeepsPackets s u ∧ u.neighborList = s.neighborList)
        (fun n hn u w hu hstep ↦ ?_) hcall ⟨.refl s, rfl⟩
      obtain ⟨v, hflush, hdone⟩ := bind_eq_ok hstep
      obtain ⟨hkept, hlist⟩ := flushLoop_keeps _ (hu.1.unlocked hunlocked) (hu.2 ▸ hn) hflush
      cases hdone
      refine ⟨(hu.1.trans hkept).trans (.setNeighbor rfl rfl rfl), ?_⟩
      exact hlist.trans hu.2
    exact hloop.1

theorem tschTxProcessOne_inv {ledger : Ledger} (hunlocked : s.tschLocked = false)
    (hinv : PacketInv s.dequeued ledger s.view) (hcall : tschTxProcessOne s = .ok t) :
    t.tschLocked = false ∧ PacketInv t.dequeued ledger t.view := by
  unfold tschTxProcessOne at hcall
  split at hcall
  · cases hcall
    exact ⟨hunlocked, hinv⟩
  · rename_i p rest hdequeued
    rw [hdequeued] at hinv
    obtain ⟨u, hfree, hdone⟩ := bind_eq_ok hcall
    have hkept := tschQueueFreeUnusedNeighbors_keeps hfree
    cases hdone
    refine ⟨hkept.unlocked hunlocked, ?_⟩
    have htail : u.dequeued.tail = rest := by
      rw [hkept.dequeued]
      exact congrArg tail hdequeued
    have hdropped : PacketInv rest ledger (tschQueueFreePacket s p).view :=
      hinv.dropPending (fun _ hq ↦ free_count_of_ne hq) (fun q _ ↦ congrFun free_mem q)
    change PacketInv u.dequeued.tail ledger u.view
    rw [htail]
    exact hkept.inv hdropped

end TakesPacket

/-- A step that queues a packet given to a block, and notes it in the ledger. -/
structure GivesPacket (p : ℕ) (entry : Option Payload) (s t : Mac) : Prop where
  dequeued : t.dequeued = s.dequeued
  unlocked : s.tschLocked = false → t.tschLocked = false
  inv : ∀ {pending : List ℕ} {ledger : Ledger}, PacketInv pending ledger s.view →
    PacketInv pending (update ledger p entry) t.view

section GivesPacket

variable {s t u : Mac} {n p : ℕ} {entry : Option Payload}

theorem KeepsPackets.gives (hst : KeepsPackets s t) (htu : GivesPacket p entry t u) :
    GivesPacket p entry s u :=
  ⟨htu.dequeued.trans hst.dequeued, fun hs ↦ htu.unlocked (hst.unlocked hs),
    fun hinv ↦ htu.inv (hst.inv hinv)⟩

theorem GivesPacket.keeps (hst : GivesPacket p entry s t) (htu : KeepsPackets t u) :
    GivesPacket p entry s u :=
  ⟨htu.dequeued.trans hst.dequeued, fun hs ↦ htu.unlocked (hst.unlocked hs),
    fun hinv ↦ htu.inv (hst.inv hinv)⟩

/-- What an entry says about the address of a queue and the bytes of a packet. -/
def EntryFits (addr : Linkaddr) (data : List ℕ) : Option Payload → Prop
  | none => addr = tschEbAddress
  | some payload => addr = flowAddr payload.flowNumber ∧ data = payload.frame

variable {addr : Linkaddr} {maxTransmissions : ℕ} {packetbuf : Packetbuf} {available : Bool}
  {q : Option ℕ}

theorem EntryFits.placed {ledger : Ledger} {data : List ℕ} (hfits : EntryFits addr data entry) :
    Placed (update ledger p entry) addr data p := by
  unfold Placed
  rw [update_self]
  cases entry with
  | none => exact hfits
  | some payload => exact ⟨hfits.1, fun _ ↦ hfits.2⟩

theorem putPacket_spec (hn : n ∈ s.neighborList)
    (hfits : EntryFits (s.neighbor n).addr packetbuf.data entry)
    (hcall : putPacket s n maxTransmissions packetbuf available = (q, t)) :
    (q = none → KeepsPackets s t) ∧ ∀ p, q = some p →
      GivesPacket p entry s t ∧ n ∈ t.neighborList ∧ p ∈ (t.neighbor n).txArray := by
  unfold putPacket at hcall
  split at hcall
  · cases hcall
    exact ⟨fun _ ↦ .refl _, fun p hp ↦ by cases hp⟩
  split at hcall
  · cases hcall
    exact ⟨fun _ ↦ .refl _, fun p hp ↦ by cases hp⟩
  rename_i i pool halloc
  obtain ⟨-, hzero, -, hmem, hcount⟩ := alloc_spec halloc
  have hfree : ∀ {pending : List ℕ} {ledger : Ledger}, PacketInv pending ledger s.view →
      i ∉ s.view.queued ++ pending := fun hinv hi ↦ hinv.tracked_used i hi hzero
  have hcount' : ∀ q, q ≠ i → pool.count q = s.packetMemb.count q := by
    intro q hq
    rw [hcount, update_of_ne hq]
  split at hcall
  · cases hcall
    refine ⟨(fun hnone ↦ by cases hnone), fun p hp ↦ ?_⟩
    cases hp
    have hdata : EntryFits (s.neighbor n).addr
        ((pool.store i (queuedPacket (s.packet i) packetbuf maxTransmissions)).mem i).qb.data
        entry := by
      rw [store_mem_self]
      exact hfits
    refine ⟨⟨rfl, id, fun hinv ↦ ?_⟩, hn, ?_⟩
    · refine hinv.enqueue hn (hfree hinv) ?_ hcount' (fun q hq ↦ ?_) hdata.placed
      · change pool.count i ≠ 0
        rw [hcount, update_self]
        exact one_ne_zero
      · exact (store_mem_of_ne hq).trans (congrFun hmem q)
    · have hself : i ∈ ((s.neighborMemb.store n { s.neighbor n with
          txArray := (s.neighbor n).txArray ++ [i] }).mem n).txArray := by
        rw [store_mem_self]
        exact mem_append_right _ (mem_singleton_self i)
      exact hself
  · cases hcall
    refine ⟨fun _ ↦ ⟨rfl, id, fun hinv ↦ ?_⟩, fun p hp ↦ by cases hp⟩
    refine hinv.storePacket (hfree hinv) (fun q hq ↦ ?_) (fun q _ ↦ ?_)
    · exact (free_count_of_ne hq).trans (hcount' q hq)
    · exact (congrFun free_mem q).trans (congrFun hmem q)

theorem tschQueueAddPacket_spec (hfits : EntryFits addr packetbuf.data entry)
    (hcall : tschQueueAddPacket s addr maxTransmissions packetbuf available = .ok (q, t)) :
    (q = none → KeepsPackets s t) ∧ ∀ p, q = some p →
      GivesPacket p entry s t ∧ ∃ n ∈ t.neighborList, p ∈ (t.neighbor n).txArray := by
  unfold tschQueueAddPacket at hcall
  split at hcall
  · cases hcall
    exact ⟨fun _ ↦ .refl _, fun p hp ↦ by cases hp⟩
  obtain ⟨⟨n, u⟩, hadd, hrest⟩ := bind_eq_ok hcall
  have hkept := keepsPackets_moves.addNbr hadd
  cases n with
  | none =>
    cases hrest
    exact ⟨fun _ ↦ hkept, fun p hp ↦ by cases hp⟩
  | some n =>
    obtain ⟨hn, haddr⟩ := tschQueueAddNbr_addr hadd
    have hput : putPacket u n maxTransmissions packetbuf available = (q, t) := Except.ok.inj hrest
    obtain ⟨hfailed, hqueued⟩ := putPacket_spec hn (haddr.symm ▸ hfits) hput
    refine ⟨fun hnone ↦ hkept.trans (hfailed hnone), fun p hp ↦ ?_⟩
    obtain ⟨hgives, hn', hp'⟩ := hqueued p hp
    exact ⟨hkept.gives hgives, n, hn', hp'⟩

theorem sendPacket_spec {framed : Option Framed}
    (hcall : sendPacket s packetbuf framed available = .ok (q, t)) :
    (q = none → KeepsPackets s t) ∧ ∀ p, q = some p → ∃ f, framed = some f ∧
      GivesPacket p (some ⟨packetbuf.flowNumber, f.frame⟩) s t := by
  unfold sendPacket at hcall
  split at hcall
  · cases hcall
    exact ⟨fun _ ↦ .refl _, fun p hp ↦ by cases hp⟩
  simp only at hcall
  have hseqno : KeepsPackets s (if packetbuf.receiver = linkaddrNull then s
      else { s with tschPacketSeqno := nextSeqno s.tschPacketSeqno }) := by
    split
    · exact .refl s
    · exact .of_view rfl rfl id
  split at hcall
  · cases hcall
    exact ⟨fun _ ↦ hseqno, fun p hp ↦ by cases hp⟩
  cases framed with
  | none =>
    cases hcall
    exact ⟨fun _ ↦ hseqno, fun p hp ↦ by cases hp⟩
  | some f =>
    obtain ⟨⟨p, u⟩, hadd, hrest⟩ := bind_eq_ok hcall
    have hfits : EntryFits (flowAddr packetbuf.flowNumber)
        ({ packetbuf with data := f.frame } : Packetbuf).data
        (some ⟨packetbuf.flowNumber, f.frame⟩) := ⟨rfl, rfl⟩
    obtain ⟨hfailed, hqueued⟩ := tschQueueAddPacket_spec hfits hadd
    cases p with
    | none =>
      cases hrest
      exact ⟨fun _ ↦ hseqno.trans (hfailed rfl), fun p hp ↦ by cases hp⟩
    | some p =>
      cases hrest
      refine ⟨(fun hnone ↦ by cases hnone), fun p' hp' ↦ ⟨f, rfl, ?_⟩⟩
      cases hp'
      obtain ⟨hgives, n, hn, hp⟩ := hqueued p rfl
      exact (hseqno.gives hgives).keeps (setPacket_keeps hn hp fun _ ↦ rfl)

theorem tschSendEb_spec {eb : Option EbFrame} (hcall : tschSendEb s eb available = .ok (q, t)) :
    (q = none → KeepsPackets s t) ∧ ∀ p, q = some p → GivesPacket p none s t := by
  unfold tschSendEb at hcall
  obtain ⟨⟨count, u⟩, hcount, hrest⟩ := bind_eq_ok hcall
  have hcounted : KeepsPackets s u := by
    unfold tschQueuePacketCount at hcount
    split at hcount
    · cases hcount
      exact .refl _
    · obtain ⟨⟨n, w⟩, hadd, hdone⟩ := bind_eq_ok hcount
      cases hdone
      exact keepsPackets_moves.addNbr hadd
  simp only at hrest
  split at hrest
  · cases eb with
    | none =>
      cases hrest
      exact ⟨fun _ ↦ hcounted, fun p hp ↦ by cases hp⟩
    | some eb =>
      obtain ⟨⟨p, w⟩, hadd, hdone⟩ := bind_eq_ok hrest
      have hfits : EntryFits tschEbAddress eb.packetbuf.data none := rfl
      obtain ⟨hfailed, hqueued⟩ := tschQueueAddPacket_spec hfits hadd
      cases p with
      | none =>
        cases hdone
        exact ⟨fun _ ↦ hcounted.trans (hfailed rfl), fun p hp ↦ by cases hp⟩
      | some p =>
        cases hdone
        refine ⟨(fun hnone ↦ by cases hnone), fun p' hp' ↦ ?_⟩
        cases hp'
        obtain ⟨hgives, n, hn, hp⟩ := hqueued p rfl
        exact (hcounted.gives hgives).keeps (setPacket_keeps hn hp fun _ ↦ rfl)
  · cases hrest
    exact ⟨fun _ ↦ hcounted, fun p hp ↦ by cases hp⟩

end GivesPacket

end ContikiMaster.Tsch
