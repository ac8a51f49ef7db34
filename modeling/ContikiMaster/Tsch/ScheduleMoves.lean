import ContikiMaster.Tsch.ProcessContext

/-!
# The moves of the schedule calls

A call that installs or removes links or slotframes is composed of a few moves: a queue is
created, its counters change, and blocks are taken and given back. A relation that holds across
the moves holds across every call.
-/

namespace ContikiMaster.Tsch

open Lib Sys

theorem tschGetLock_cases {s t : Mac} {got : Bool} (hlock : tschGetLock s = .ok (got, t)) :
    (got = true ∧ s.tschLocked = false ∧ t = { s with tschLocked := true }) ∨
      (got = false ∧ t = s) := by
  unfold tschGetLock at hlock
  split at hlock
  · cases hlock
    exact .inr ⟨rfl, rfl⟩
  · rename_i hlocked
    split at hlock
    · cases hlock
    · cases hlock
      exact .inl ⟨rfl, by simpa using hlocked, rfl⟩

variable {addr : Linkaddr} {n : Option ℕ} {request : LinkRequest}

theorem tschQueueAddNbr_cases {s t : Mac} (hcall : tschQueueAddNbr s addr = .ok (n, t)) :
    t = s ∨ (∀ m ∈ s.neighborList, (s.neighbor m).addr ≠ addr) ∧ s.tschLocked = false ∧
      allocNeighbor s addr = (n, t) := by
  unfold tschQueueAddNbr at hcall
  split at hcall
  · cases hcall
    exact .inl rfl
  rename_i hnbr
  obtain ⟨⟨got, u⟩, hlock, hrest⟩ := bind_eq_ok hcall
  rcases tschGetLock_cases hlock with ⟨rfl, hunlocked, rfl⟩ | ⟨rfl, rfl⟩
  · have hnone : ∀ m ∈ s.neighborList, (s.neighbor m).addr ≠ addr := by
      unfold tschQueueGetNbr at hnbr
      rw [if_neg (by simp [hunlocked]), List.find?_eq_none] at hnbr
      intro m hm
      simpa using hnbr m hm
    have hreleased := allocNeighbor_release hunlocked addr
    cases hrest
    exact .inr ⟨hnone, hunlocked, hreleased.symm⟩
  · cases hrest
    exact .inl rfl

/-- A link is refused, or the one in its timeslot goes before it is allocated and counted. -/
theorem tschScheduleAddLink_cases {s t : Mac} {slotframe link : Option ℕ}
    (hcall : tschScheduleAddLink s slotframe request = .ok (link, t)) :
    (link = none ∧ t = s) ∨ ∃ sf removed u, slotframe = some sf ∧
      request.timeslot < (s.slotframe sf).size ∧
      tschScheduleRemoveLinkByTimeslot s sf request.timeslot = .ok (removed, u) ∧
      ((link = none ∧ t = u) ∨ ∃ l w, allocLink u sf request = (some l, w) ∧ link = some l ∧
        countTxLink w request.linkOptions (flowAddr (w.link l).slotframeHandle) 1 = .ok t) := by
  unfold tschScheduleAddLink at hcall
  cases slotframe with
  | none =>
    cases hcall
    exact .inl ⟨rfl, rfl⟩
  | some sf =>
    simp only at hcall
    split at hcall
    · cases hcall
      exact .inl ⟨rfl, rfl⟩
    rename_i hslot
    split at hcall
    · cases hcall
      exact .inl ⟨rfl, rfl⟩
    obtain ⟨⟨removed, u⟩, hremove, hrest⟩ := bind_eq_ok hcall
    refine .inr ⟨sf, removed, u, rfl, not_le.mp hslot, hremove, ?_⟩
    obtain ⟨⟨got, w⟩, hlock, hsection⟩ := bind_eq_ok hrest
    rcases tschGetLock_cases hlock with ⟨rfl, hunlocked, rfl⟩ | ⟨rfl, rfl⟩
    · have halloc := allocLink_release hunlocked sf request
      rcases hresult : allocLink { u with tschLocked := true } sf request with ⟨_ | l, v⟩
      · rw [hresult] at halloc
        simp only [if_pos, hresult] at hsection
        cases hsection
        unfold allocLink at halloc
        split at halloc
        · exact .inl ⟨rfl, congrArg Prod.snd halloc⟩
        · cases halloc
      · rw [hresult] at halloc
        simp only [if_pos, hresult] at hsection
        obtain ⟨y, hcount, hdone⟩ := bind_eq_ok hsection
        cases hdone
        exact .inr ⟨l, _, halloc.symm, rfl, hcount⟩
    · cases hsection
      exact .inl ⟨rfl, rfl⟩

theorem allocLink_some {s t : Mac} {sf l : ℕ} (halloc : allocLink s sf request = (some l, t)) :
    t.link l = newLink s sf request ∧ t.slotframe sf =
      { s.slotframe sf with linksList := listAdd (s.slotframe sf).linksList l } := by
  unfold allocLink at halloc
  split at halloc
  · cases halloc
  · cases halloc
    exact ⟨Memb.store_mem_self, Memb.store_mem_self⟩

/-- A relation that holds across the moves that count links in the queues. -/
structure CountMoves (R : Mac → Mac → Prop) : Prop where
  refl : ∀ s, R s s
  trans : ∀ {s t u}, R s t → R t u → R s u
  create : ∀ {s t addr n}, (∀ m ∈ s.neighborList, (s.neighbor m).addr ≠ addr) →
    allocNeighbor s addr = (n, t) → R s t
  adjust : ∀ s n options delta,
    R s (s.setNeighbor n (adjustTxLinks options delta (s.neighbor n)))

/-- A relation that holds across the moves of the calls on links. -/
structure LinkMoves (R : Mac → Mac → Prop) : Prop extends CountMoves R where
  unlink : ∀ s sf l, R s (unlinkLink s sf l)
  allocate : ∀ s sf request, R s (allocLink s sf request).2

/-- A relation that holds across the moves of the calls on slotframes. -/
structure SlotframeMoves (R : Mac → Mac → Prop) : Prop extends LinkMoves R where
  add : ∀ s handle size, R s (allocSlotframe s handle size).2
  free : ∀ s sf, R s (freeSlotframe s sf)

section Calls

variable {R : Mac → Mac → Prop} {s t : Mac} {slotframe link : Option ℕ} {sf : ℕ} {removed : Bool}

theorem CountMoves.addNbr (hR : CountMoves R) (hcall : tschQueueAddNbr s addr = .ok (n, t)) :
    R s t := by
  rcases tschQueueAddNbr_cases hcall with rfl | ⟨hnone, -, halloc⟩
  · exact hR.refl _
  · exact hR.create hnone halloc

theorem CountMoves.count (hR : CountMoves R) {options delta : ℕ}
    (hcall : countTxLink s options addr delta = .ok t) : R s t := by
  unfold countTxLink at hcall
  split at hcall
  · obtain ⟨⟨n, u⟩, hadd, hrest⟩ := bind_eq_ok hcall
    apply hR.trans (hR.addNbr hadd)
    cases n with
    | none =>
      cases hrest
      exact hR.refl _
    | some n =>
      cases hrest
      exact hR.adjust _ _ _ _
  · cases hcall
    exact hR.refl _

/-- Another time source: at most two flags are written. -/
theorem switchTimeSource_moves (hrefl : ∀ s, R s s) (htrans : ∀ {s t u}, R s t → R t u → R s u)
    (hwrite : ∀ s n flag, R s (s.setNeighbor n { s.neighbor n with isTimeSource := flag }))
    (s : Mac) (newTimeSrc oldTimeSrc : Option ℕ) :
    R s (switchTimeSource s newTimeSrc oldTimeSrc) := by
  have hset : ∀ s n flag, R s (setTimeSource s n flag) := by
    intro s n flag
    cases n with
    | none => exact hrefl s
    | some n => exact hwrite s n flag
  unfold switchTimeSource
  split
  · exact hrefl s
  · exact htrans (hset _ _ _) (hset _ _ _)

theorem CountMoves.updateTimeSource (hR : CountMoves R)
    (hwrite : ∀ s n flag, R s (s.setNeighbor n { s.neighbor n with isTimeSource := flag }))
    {newAddr : Option Linkaddr} {updated : Bool}
    (hcall : tschQueueUpdateTimeSource s newAddr = .ok (updated, t)) : R s t := by
  have hswitch := switchTimeSource_moves hR.refl hR.trans hwrite
  unfold tschQueueUpdateTimeSource at hcall
  split at hcall
  · cases hcall
    exact hR.refl _
  · cases newAddr with
    | none =>
      cases hcall
      exact hswitch s none _
    | some addr =>
      obtain ⟨⟨n, u⟩, hadd, hrest⟩ := bind_eq_ok hcall
      apply hR.trans (hR.addNbr hadd)
      cases n with
      | none =>
        cases hrest
        exact hR.refl _
      | some n =>
        cases hrest
        exact hswitch u (some n) _

namespace LinkMoves

theorem removeLink (hR : LinkMoves R)
    (hcall : tschScheduleRemoveLink s slotframe link = .ok (removed, t)) : R s t := by
  unfold tschScheduleRemoveLink at hcall
  split at hcall
  · split at hcall
    · obtain ⟨⟨got, u⟩, hlock, hrest⟩ := bind_eq_ok hcall
      rcases tschGetLock_cases hlock with ⟨rfl, hunlocked, rfl⟩ | ⟨rfl, rfl⟩
      · obtain ⟨w, hcount, hdone⟩ := bind_eq_ok hrest
        cases hdone
        rw [unlinkLink_release hunlocked] at hcount
        exact hR.trans (hR.unlink _ _ _) (hR.count hcount)
      · cases hrest
        exact hR.refl _
    · cases hcall
      exact hR.refl _
  · cases hcall
    exact hR.refl _

theorem addLink (hR : LinkMoves R)
    (hcall : tschScheduleAddLink s slotframe request = .ok (link, t)) : R s t := by
  rcases tschScheduleAddLink_cases hcall with
    ⟨-, rfl⟩ | ⟨sf, removed, u, -, -, hremove, ⟨-, rfl⟩ | ⟨l, w, halloc, -, hcount⟩⟩
  · exact hR.refl _
  · exact hR.removeLink hremove
  · have hadded := hR.allocate u sf request
    rw [halloc] at hadded
    exact hR.trans (hR.removeLink hremove) (hR.trans hadded (hR.count hcount))

end LinkMoves

theorem removeLinksLoop_invariant {P : Mac → Prop} {fuel : ℕ}
    (hstep : ∀ u l removed w, P u → tschScheduleRemoveLink u (some sf) (some l) = .ok (removed, w) →
      P w) (hs : P s) (hcall : removeLinksLoop fuel s sf = .ok t) : P t := by
  induction fuel generalizing s with
  | zero =>
    unfold removeLinksLoop at hcall
    split at hcall
    · cases hcall
      exact hs
    · cases hcall
    · rename_i hfuel
      cases hfuel
  | succ fuel ih =>
    unfold removeLinksLoop at hcall
    split at hcall
    · cases hcall
      exact hs
    · rename_i hfuel
      cases hfuel
    · rename_i hfuel
      cases hfuel
      obtain ⟨⟨removed, u⟩, hremove, hrest⟩ := bind_eq_ok hcall
      exact ih (hstep _ _ _ _ hs hremove) hrest

theorem LinkMoves.removeLinks (hR : LinkMoves R) {fuel : ℕ}
    (hcall : removeLinksLoop fuel s sf = .ok t) : R s t := by
  refine removeLinksLoop_invariant (fun u l removed w hu hremove ↦ ?_) (hR.refl s) hcall
  exact hR.trans hu (hR.removeLink hremove)

namespace SlotframeMoves

theorem addSlotframe (hR : SlotframeMoves R) {handle size : ℕ}
    (hcall : tschScheduleAddSlotframe s handle size = .ok (slotframe, t)) : R s t := by
  unfold tschScheduleAddSlotframe at hcall
  split at hcall
  · cases hcall
    exact hR.refl _
  split at hcall
  · cases hcall
    exact hR.refl _
  obtain ⟨⟨got, u⟩, hlock, hrest⟩ := bind_eq_ok hcall
  rcases tschGetLock_cases hlock with ⟨rfl, hunlocked, rfl⟩ | ⟨rfl, rfl⟩
  · have halloc := hR.add s handle size
    rw [← allocSlotframe_release hunlocked] at halloc
    cases hrest
    exact halloc
  · cases hrest
    exact hR.refl _

theorem removeSlotframe (hR : SlotframeMoves R)
    (hcall : tschScheduleRemoveSlotframe s slotframe = .ok (removed, t)) : R s t := by
  unfold tschScheduleRemoveSlotframe at hcall
  cases slotframe with
  | none =>
    cases hcall
    exact hR.refl _
  | some sf =>
    obtain ⟨u, hloop, hrest⟩ := bind_eq_ok hcall
    apply hR.trans (hR.removeLinks hloop)
    obtain ⟨⟨got, w⟩, hlock, hsection⟩ := bind_eq_ok hrest
    rcases tschGetLock_cases hlock with ⟨rfl, hunlocked, rfl⟩ | ⟨rfl, rfl⟩
    · have hfreed := hR.free u sf
      rw [← freeSlotframe_release hunlocked] at hfreed
      cases hsection
      exact hfreed
    · cases hsection
      exact hR.refl _

theorem removeSlotframes (hR : SlotframeMoves R) (fuel : ℕ) : ∀ {s t : Mac} {removed : Bool},
    removeSlotframesLoop fuel s = .ok (removed, t) → R s t := by
  induction fuel with
  | zero =>
    intro s t removed hcall
    unfold removeSlotframesLoop at hcall
    split at hcall
    · cases hcall
      exact hR.refl _
    · cases hcall
    · rename_i heq
      cases heq
  | succ fuel ih =>
    intro s t removed hcall
    unfold removeSlotframesLoop at hcall
    split at hcall
    · cases hcall
      exact hR.refl _
    · rename_i heq
      cases heq
    · rename_i heq
      obtain rfl := Nat.succ.inj heq
      obtain ⟨⟨gone, u⟩, hfirst, hrest⟩ := bind_eq_ok hcall
      apply hR.trans (hR.removeSlotframe hfirst)
      cases gone with
      | true => exact ih hrest
      | false =>
        cases hrest
        exact hR.refl _

end SlotframeMoves

end Calls

/-- The table of slotframes is as it was, up to the links in them. -/
structure KeepsSlotframes (s t : Mac) : Prop where
  slotframeList : t.slotframeList = s.slotframeList
  num : t.slotframeMemb.num = s.slotframeMemb.num
  count : t.slotframeMemb.count = s.slotframeMemb.count
  handle : ∀ sf, (t.slotframe sf).handle = (s.slotframe sf).handle
  size : ∀ sf, (t.slotframe sf).size = (s.slotframe sf).size

namespace KeepsSlotframes

variable {s t u : Mac}

theorem refl (s : Mac) : KeepsSlotframes s s := ⟨rfl, rfl, rfl, fun _ ↦ rfl, fun _ ↦ rfl⟩

theorem trans (hst : KeepsSlotframes s t) (htu : KeepsSlotframes t u) : KeepsSlotframes s u :=
  ⟨htu.slotframeList.trans hst.slotframeList, htu.num.trans hst.num, htu.count.trans hst.count,
    fun sf ↦ (htu.handle sf).trans (hst.handle sf), fun sf ↦ (htu.size sf).trans (hst.size sf)⟩

theorem of_same (hlist : t.slotframeList = s.slotframeList)
    (hmemb : t.slotframeMemb = s.slotframeMemb) : KeepsSlotframes s t := by
  refine ⟨hlist, congrArg Memb.num hmemb, congrArg Memb.count hmemb, fun sf ↦ ?_, fun sf ↦ ?_⟩
  · rw [Mac.slotframe, hmemb]
  · rw [Mac.slotframe, hmemb]

theorem setLinks (s : Mac) (sf : ℕ) (links : List ℕ) :
    KeepsSlotframes s (s.setSlotframe sf { s.slotframe sf with linksList := links }) :=
  ⟨rfl, rfl, rfl, Memb.store_field TschSlotframe.handle rfl,
    Memb.store_field TschSlotframe.size rfl⟩

end KeepsSlotframes

theorem keepsSlotframes_moves : LinkMoves KeepsSlotframes where
  refl := .refl
  trans := .trans
  create {s _ addr _} _ halloc := by
    unfold allocNeighbor at halloc
    split at halloc
    · cases halloc
      exact .refl _
    · cases halloc
      exact .of_same rfl rfl
  adjust _ _ _ _ := .of_same rfl rfl
  unlink s sf l := by
    unfold unlinkLink
    dsimp only
    split
    · have hcurrent : KeepsSlotframes s { s with currentLink := none } := .of_same rfl rfl
      exact hcurrent.trans ((KeepsSlotframes.setLinks _ sf _).trans (.of_same rfl rfl))
    · exact (KeepsSlotframes.setLinks s sf _).trans (.of_same rfl rfl)
  allocate s sf request := by
    unfold allocLink
    split
    · exact .refl s
    · exact (KeepsSlotframes.setLinks s sf _).trans (.of_same rfl rfl)

end ContikiMaster.Tsch
