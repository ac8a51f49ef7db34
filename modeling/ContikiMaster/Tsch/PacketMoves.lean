import ContikiMaster.Tsch.PacketOwnership
import ContikiMaster.Tsch.ScheduleMoves

/-!
# Calls that move no data packet

The calls of the schedule, the neighbor lists and the slot bookkeeping create and free
queues but leave every queued packet where it is: they keep the packet invariant, the list
of dequeued packets, and a free lock.
-/

namespace ContikiMaster.Tsch

open Sys Lib

/-- A step that leaves every packet in its place, and a free lock free. -/
structure KeepsPackets (s t : Mac) : Prop where
  dequeued : t.dequeued = s.dequeued
  unlocked : s.tschLocked = false → t.tschLocked = false
  inv : ∀ {pending : List ℕ} {ledger : Ledger},
    PacketInv pending ledger s.view → PacketInv pending ledger t.view

variable {s t u : Mac}

namespace KeepsPackets

theorem refl (s : Mac) : KeepsPackets s s := ⟨rfl, id, id⟩

theorem trans (hst : KeepsPackets s t) (htu : KeepsPackets t u) : KeepsPackets s u :=
  ⟨htu.dequeued.trans hst.dequeued, fun hs ↦ htu.unlocked (hst.unlocked hs),
    fun hinv ↦ htu.inv (hst.inv hinv)⟩

theorem of_view (hview : t.view = s.view) (hdequeued : t.dequeued = s.dequeued)
    (hlocked : s.tschLocked = false → t.tschLocked = false) : KeepsPackets s t := by
  refine ⟨hdequeued, hlocked, fun {_ _} hinv ↦ ?_⟩
  rw [hview]
  exact hinv

theorem setNeighbor {n : ℕ} {r : TschNeighbor} (haddr : r.addr = (s.neighbor n).addr)
    (hbroadcast : r.isBroadcast = (s.neighbor n).isBroadcast)
    (hqueue : r.txArray = (s.neighbor n).txArray) : KeepsPackets s (s.setNeighbor n r) :=
  ⟨rfl, id, fun hinv ↦ hinv.storeNeighbor haddr hbroadcast hqueue⟩

end KeepsPackets

theorem KeepsPackets.locked (hbody : KeepsPackets { s with tschLocked := true } u) :
    KeepsPackets s (tschReleaseLock u) :=
  ⟨hbody.dequeued, fun _ ↦ rfl, fun hinv ↦ hbody.inv hinv⟩

variable {addr : Linkaddr} {n : ℕ}

theorem allocNeighbor_keeps {n : Option ℕ}
    (hnone : ∀ m ∈ s.neighborList, (s.neighbor m).addr ≠ addr)
    (halloc : allocNeighbor s addr = (n, t)) : KeepsPackets s t := by
  unfold allocNeighbor at halloc
  split at halloc
  · cases halloc
    exact .refl s
  · rename_i i pool hpool
    cases halloc
    exact ⟨rfl, id, fun hinv ↦ hinv.allocNeighbor hpool hnone⟩

theorem allocNeighbor_addr (halloc : allocNeighbor s addr = (some n, t)) :
    n ∈ t.neighborList ∧ (t.neighbor n).addr = addr := by
  unfold allocNeighbor at halloc
  split at halloc
  · cases halloc
  · cases halloc
    exact ⟨mem_listAdd.mpr (.inr rfl), congrArg TschNeighbor.addr Memb.store_mem_self⟩

theorem keepsPackets_moves : SlotframeMoves KeepsPackets where
  refl := .refl
  trans := .trans
  create := allocNeighbor_keeps
  adjust _ _ _ _ := .setNeighbor rfl rfl rfl
  unlink s sf l := by
    unfold unlinkLink
    split <;> exact .of_view rfl rfl id
  allocate s sf request := by
    unfold allocLink
    split
    · exact .refl s
    · exact .of_view rfl rfl id
  add s handle size := by
    unfold allocSlotframe
    split
    · exact .refl s
    · exact .of_view rfl rfl id
  free _ _ := .of_view rfl rfl id

theorem tschQueueAddNbr_addr (hcall : tschQueueAddNbr s addr = .ok (some n, t)) :
    n ∈ t.neighborList ∧ (t.neighbor n).addr = addr := by
  unfold tschQueueAddNbr at hcall
  split at hcall
  · rename_i m hnbr
    cases hcall
    unfold tschQueueGetNbr at hnbr
    split at hnbr
    · cases hnbr
    · exact ⟨List.mem_of_find?_eq_some hnbr, by simpa using List.find?_some hnbr⟩
  · obtain ⟨⟨got, u⟩, -, hrest⟩ := bind_eq_ok hcall
    cases got with
    | false => cases hrest
    | true =>
      cases halloc : allocNeighbor u addr with
      | mk m w =>
        simp only [halloc] at hrest
        cases hrest
        have hadded := allocNeighbor_addr halloc
        exact hadded

theorem tschQueueUpdateTimeSource_keeps {newAddr : Option Linkaddr} {updated : Bool}
    (hcall : tschQueueUpdateTimeSource s newAddr = .ok (updated, t)) : KeepsPackets s t :=
  keepsPackets_moves.updateTimeSource (fun _ _ _ ↦ .setNeighbor rfl rfl rfl) hcall

theorem flushLoop_empty (fuel : ℕ) (hempty : tschQueueIsEmpty s n = true) :
    flushLoop fuel s n = .ok s := by
  cases fuel <;> simp only [flushLoop, if_pos hempty]

theorem tschQueueRemoveNbr_cases (hempty : (s.neighbor n).txArray = [])
    (hcall : tschQueueRemoveNbr s n = .ok t) :
    t = s ∨ t = { s with
      tschLocked := false
      neighborList := listRemove s.neighborList n
      neighborMemb := s.neighborMemb.free n } := by
  unfold tschQueueRemoveNbr at hcall
  obtain ⟨⟨got, u⟩, hlock, hrest⟩ := bind_eq_ok hcall
  rcases tschGetLock_cases hlock with ⟨rfl, -, rfl⟩ | ⟨rfl, rfl⟩
  · obtain ⟨w, hflush, hfreed⟩ := bind_eq_ok hrest
    have hstill : tschQueueIsEmpty (tschReleaseLock { s with
        tschLocked := true, neighborList := listRemove s.neighborList n }) n = true := by
      simpa [tschQueueIsEmpty, tschReleaseLock] using hempty
    unfold tschQueueFlushNbrQueue at hflush
    rw [flushLoop_empty _ hstill] at hflush
    cases hflush
    cases hfreed
    exact .inr rfl
  · cases hrest
    exact .inl rfl

theorem freeIfUnused_cases (hcall : freeIfUnused s n = .ok t) :
    t = s ∨ ((s.neighbor n).txArray = [] ∧ (s.neighbor n).txLinksCount = 0 ∧
      (s.neighbor n).isTimeSource = false ∧ (s.neighbor n).isBroadcast = false ∧
        s.tschLocked = false ∧ t = { s with
          tschLocked := false
          neighborList := listRemove s.neighborList n
          neighborMemb := s.neighborMemb.free n }) := by
  unfold freeIfUnused at hcall
  split at hcall
  · rename_i hunused
    obtain ⟨⟨⟨hbroadcast, htime⟩, hcount⟩, hlocked, hempty⟩ :
        (((s.neighbor n).isBroadcast = false ∧ (s.neighbor n).isTimeSource = false) ∧
          (s.neighbor n).txLinksCount = 0) ∧ s.tschLocked = false ∧
            (s.neighbor n).txArray = [] := by
      simpa [neighborUnused, tschQueueIsEmpty] using hunused
    exact (tschQueueRemoveNbr_cases hempty hcall).imp_right fun heq ↦
      ⟨hempty, hcount, htime, hbroadcast, hlocked, heq⟩
  · cases hcall
    exact .inl rfl

theorem freeIfUnused_keeps (hcall : freeIfUnused s n = .ok t) : KeepsPackets s t := by
  rcases freeIfUnused_cases hcall with rfl | ⟨hempty, -, -, hbroadcast, -, rfl⟩
  · exact .refl _
  · exact ⟨rfl, fun _ ↦ rfl, fun hinv ↦ hinv.freeNeighbor hempty hbroadcast⟩

theorem tschQueueFreeUnusedNeighbors_keeps
    (hcall : tschQueueFreeUnusedNeighbors s = .ok t) : KeepsPackets s t := by
  unfold tschQueueFreeUnusedNeighbors at hcall
  split at hcall
  · cases hcall
    exact .refl _
  · refine foldlM_invariant (fun n _ u w hkept hstep ↦ ?_) hcall (.refl s)
    exact hkept.trans (freeIfUnused_keeps hstep)

theorem tschQueueUpdateAllBackoffWindows_keeps (s : Mac) (destAddr : Linkaddr) :
    KeepsPackets s (tschQueueUpdateAllBackoffWindows s destAddr) := by
  have hstep : ∀ r : TschNeighbor, (backoffStep destAddr r).addr = r.addr ∧
      (backoffStep destAddr r).isBroadcast = r.isBroadcast ∧
      (backoffStep destAddr r).txArray = r.txArray := by
    intro r
    unfold backoffStep
    split <;> exact ⟨rfl, rfl, rfl⟩
  have hfold : ∀ (nbrs : List ℕ) (s : Mac), KeepsPackets s
      (nbrs.foldl (fun s n ↦ s.setNeighbor n (backoffStep destAddr (s.neighbor n))) s) := by
    intro nbrs
    induction nbrs with
    | nil => exact fun s ↦ .refl s
    | cons n nbrs ih =>
      intro s
      obtain ⟨haddr, hbroadcast, hqueue⟩ := hstep (s.neighbor n)
      exact KeepsPackets.trans (.setNeighbor haddr hbroadcast hqueue) (ih _)
  unfold tschQueueUpdateAllBackoffWindows
  split
  · exact .refl s
  · exact hfold s.neighborList s

theorem nextSlot_keeps (s : Mac) : KeepsPackets s (nextSlot s) := by
  unfold nextSlot
  simp only
  split
  · split
    · exact (tschQueueUpdateAllBackoffWindows_keeps s _).trans (.of_view rfl rfl id)
    · exact .of_view rfl rfl id
  · exact .of_view rfl rfl id

theorem endSlot_keeps (s : Mac) (env : SlotEnv) : KeepsPackets s (endSlot s env) := by
  have hiterate : ∀ (k : ℕ) (s : Mac), KeepsPackets s (nextSlot^[k] s) := by
    intro k
    induction k with
    | zero => exact fun s ↦ .refl s
    | succ k ih => exact fun s ↦ (nextSlot_keeps s).trans (ih (nextSlot s))
  unfold endSlot
  simp only
  split
  · exact .of_view rfl rfl id
  · exact (hiterate _ s).trans (.of_view rfl rfl id)

end ContikiMaster.Tsch
