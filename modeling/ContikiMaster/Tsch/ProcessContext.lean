import ContikiMaster.Tsch.Mac

/-!
# Calls of the process context

Between slots the lock is free, and a call that takes it gets it at once and
gives it back before it returns. Under that assumption the calls have simple
equations without the lock, and each of them leaves the lock free again.
-/

namespace ContikiMaster.Tsch

open Sys

def Idle (s : Mac) : Prop := s.tschLocked = false ∧ s.tschInSlotOperation = false

variable {s t : Mac} {options n delta sf l : ℕ} {addr : Linkaddr}

theorem Mac.withLock_false (hs : s.tschLocked = false) : { s with tschLocked := false } = s := by
  cases s
  simp only at hs
  rw [hs]

theorem tschGetLock_idle (hs : Idle s) :
    tschGetLock s = .ok (true, { s with tschLocked := true }) := by
  unfold tschGetLock
  rw [hs.1, hs.2]
  rfl

theorem tschQueueGetNbr_idle (hs : Idle s) (addr : Linkaddr) :
    tschQueueGetNbr s addr = s.neighborList.find? fun n ↦ decide ((s.neighbor n).addr = addr) := by
  unfold tschQueueGetNbr
  rw [hs.1]
  rfl

theorem allocNeighbor_release (hs : s.tschLocked = false) (addr : Linkaddr) :
    ((allocNeighbor { s with tschLocked := true } addr).1,
      tschReleaseLock (allocNeighbor { s with tschLocked := true } addr).2) =
      allocNeighbor s addr := by
  unfold allocNeighbor tschReleaseLock
  cases halloc : s.neighborMemb.alloc with
  | none => rw [show ({ s with tschLocked := false } : Mac) = s from Mac.withLock_false hs]
  | some result =>
    simp only [Prod.mk.injEq, true_and]
    rw [← hs]

theorem tschQueueAddNbr_idle (hs : Idle s) (addr : Linkaddr) :
    tschQueueAddNbr s addr = .ok (match tschQueueGetNbr s addr with
      | some n => (some n, s)
      | none => allocNeighbor s addr) := by
  unfold tschQueueAddNbr
  cases hnbr : tschQueueGetNbr s addr with
  | some n => rfl
  | none =>
    rw [tschGetLock_idle hs]
    exact congrArg Except.ok (allocNeighbor_release hs.1 addr)

theorem idle_allocNeighbor (hs : Idle s) (addr : Linkaddr) : Idle (allocNeighbor s addr).2 := by
  unfold allocNeighbor
  split <;> exact hs

theorem countTxLink_found (hs : Idle s) (htx : linkOptionTx options = true)
    (hfound : tschQueueGetNbr s addr = some n) : countTxLink s options addr delta =
      .ok (s.setNeighbor n (adjustTxLinks options delta (s.neighbor n))) := by
  unfold countTxLink
  rw [if_pos htx, tschQueueAddNbr_idle hs, hfound]
  rfl

theorem countTxLink_created (hs : Idle s) (htx : linkOptionTx options = true)
    (hnone : tschQueueGetNbr s addr = none) (halloc : allocNeighbor s addr = (some n, t)) :
    countTxLink s options addr delta =
      .ok (t.setNeighbor n (adjustTxLinks options delta (t.neighbor n))) := by
  unfold countTxLink
  rw [if_pos htx, tschQueueAddNbr_idle hs, hnone]
  simp only [halloc]
  rfl

theorem countTxLink_skipped (htx : ¬ linkOptionTx options = true) :
    countTxLink s options addr delta = .ok s := by
  unfold countTxLink
  rw [if_neg htx]

theorem tschScheduleGetLinkByTimeslot_idle (hs : Idle s) (sf timeslot : ℕ) :
    tschScheduleGetLinkByTimeslot s sf timeslot =
      (s.slotframe sf).linksList.find? fun l ↦ (s.link l).timeslot == timeslot := by
  unfold tschScheduleGetLinkByTimeslot
  rw [hs.1]
  rfl

theorem unlinkLink_release (hs : s.tschLocked = false) (sf l : ℕ) :
    tschReleaseLock (unlinkLink { s with tschLocked := true } sf l) = unlinkLink s sf l := by
  unfold unlinkLink tschReleaseLock Mac.setSlotframe
  split
  · rw [← hs]
  · rw [← hs]

theorem idle_unlinkLink (hs : Idle s) (sf l : ℕ) : Idle (unlinkLink s sf l) := by
  unfold unlinkLink
  split <;> exact hs

theorem tschScheduleRemoveLink_idle (hs : Idle s)
    (hhandle : (s.link l).slotframeHandle = (s.slotframe sf).handle) :
    tschScheduleRemoveLink s (some sf) (some l) =
      (countTxLink (unlinkLink s sf l) (s.link l).linkOptions (s.link l).addr 255).map
        fun t ↦ (true, t) := by
  unfold tschScheduleRemoveLink
  simp only [if_pos hhandle, tschGetLock_idle hs]
  change (countTxLink (tschReleaseLock (unlinkLink { s with tschLocked := true } sf l))
    (s.link l).linkOptions (s.link l).addr 255 >>= fun t ↦ .ok (true, t)) = _
  rw [unlinkLink_release hs.1]
  cases countTxLink (unlinkLink s sf l) (s.link l).linkOptions (s.link l).addr 255 <;> rfl

theorem tschScheduleRemoveLink_mismatch
    (hhandle : (s.link l).slotframeHandle ≠ (s.slotframe sf).handle) :
    tschScheduleRemoveLink s (some sf) (some l) = .ok (false, s) := by
  unfold tschScheduleRemoveLink
  simp only [if_neg hhandle]

theorem idle_allocLink (hs : Idle s) (sf : ℕ) (request : LinkRequest) :
    Idle (allocLink s sf request).2 := by
  unfold allocLink
  split <;> exact hs

theorem allocLink_release (hs : s.tschLocked = false) (sf : ℕ) (request : LinkRequest) :
    ((allocLink { s with tschLocked := true } sf request).1,
      tschReleaseLock (allocLink { s with tschLocked := true } sf request).2) =
      allocLink s sf request := by
  unfold allocLink tschReleaseLock
  cases halloc : s.linkMemb.alloc with
  | none => rw [show ({ s with tschLocked := false } : Mac) = s from Mac.withLock_false hs]
  | some result =>
    simp only [Prod.mk.injEq, true_and]
    unfold Mac.setSlotframe
    rw [← hs]
    rfl

def installLink (s : Mac) (sf : ℕ) (request : LinkRequest) : Except Fault (Option ℕ × Mac) :=
  match allocLink s sf request with
  | (none, t) => .ok (none, t)
  | (some l, t) =>
    (countTxLink t request.linkOptions (flowAddr (t.link l).slotframeHandle) 1).map
      fun u ↦ (some l, u)

theorem tschScheduleAddLink_idle {request : LinkRequest} {removed : Bool}
    (hslot : request.timeslot < (s.slotframe sf).size) (hchannel : request.channelOffset ≤ 15)
    (hremove : tschScheduleRemoveLinkByTimeslot s sf request.timeslot = .ok (removed, t))
    (ht : Idle t) : tschScheduleAddLink s (some sf) request = installLink t sf request := by
  unfold tschScheduleAddLink
  simp only [if_neg (Nat.not_le.mpr hslot), if_neg (Nat.not_lt.mpr hchannel), hremove]
  change (tschGetLock t >>= _) = _
  rw [tschGetLock_idle ht]
  have hrelease := allocLink_release ht.1 sf request
  unfold installLink
  change (match allocLink { t with tschLocked := true } sf request with
    | (none, u) => Except.ok (none, tschReleaseLock u)
    | (some l, u) => _) = _
  rcases halloc : allocLink { t with tschLocked := true } sf request with ⟨_ | l, u⟩
  · rw [halloc] at hrelease
    rw [← hrelease]
  · rw [halloc] at hrelease
    rw [← hrelease]
    change (countTxLink (tschReleaseLock u) request.linkOptions
      (flowAddr (u.link l).slotframeHandle) 1 >>= fun v ↦ .ok (some l, v)) = _
    change _ = Except.map _ (countTxLink (tschReleaseLock u) request.linkOptions
      (flowAddr (u.link l).slotframeHandle) 1)
    cases countTxLink (tschReleaseLock u) request.linkOptions
      (flowAddr (u.link l).slotframeHandle) 1 <;> rfl

def freeSlotframe (s : Mac) (sf : ℕ) : Mac :=
  { s with
    slotframeMemb := s.slotframeMemb.free sf
    slotframeList := listRemove s.slotframeList sf }

theorem freeSlotframe_release (hs : s.tschLocked = false) (sf : ℕ) :
    tschReleaseLock (freeSlotframe { s with tschLocked := true } sf) = freeSlotframe s sf := by
  unfold freeSlotframe tschReleaseLock
  rw [← hs]

theorem tschScheduleRemoveSlotframe_idle
    (hloop : removeLinksLoop (s.slotframe sf).linksList.length s sf = .ok t) (ht : Idle t) :
    tschScheduleRemoveSlotframe s (some sf) = .ok (true, freeSlotframe t sf) := by
  unfold tschScheduleRemoveSlotframe
  simp only [hloop]
  change (tschGetLock t >>= _) = _
  rw [tschGetLock_idle ht]
  change Except.ok (true, tschReleaseLock (freeSlotframe { t with tschLocked := true } sf)) = _
  rw [freeSlotframe_release ht.1]

theorem allocSlotframe_release (hs : s.tschLocked = false) (handle size : ℕ) :
    ((allocSlotframe { s with tschLocked := true } handle size).1,
      tschReleaseLock (allocSlotframe { s with tschLocked := true } handle size).2) =
      allocSlotframe s handle size := by
  unfold allocSlotframe tschReleaseLock
  cases halloc : s.slotframeMemb.alloc with
  | none => rw [show ({ s with tschLocked := false } : Mac) = s from Mac.withLock_false hs]
  | some result =>
    simp only [Prod.mk.injEq, true_and]
    rw [← hs]

theorem tschScheduleAddSlotframe_idle (hs : Idle s) {handle size : ℕ} (hsize : size ≠ 0)
    (hfresh : tschScheduleGetSlotframeByHandle s handle = none) :
    tschScheduleAddSlotframe s handle size = .ok (allocSlotframe s handle size) := by
  unfold tschScheduleAddSlotframe
  rw [if_neg hsize, hfresh, if_neg (by simp), tschGetLock_idle hs]
  exact congrArg Except.ok (allocSlotframe_release hs.1 handle size)

end ContikiMaster.Tsch
