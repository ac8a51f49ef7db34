import ContikiMaster.Tsch.ScheduleTable

/-!
# Runs of schedule calls

With the lock free every call of `tsch-schedule.c` returns, and what it does to the schedule
is one or several of the moves. The pointer to a link may be any pointer. That to a
slotframe must not be stale: what the block of a removed slotframe still says is taken for
granted.
-/

namespace ContikiMaster.Tsch

open Sys Lib List Option

/-- Between slots, with a well-formed schedule. -/
structure ScheduleReady (s : Mac) : Prop where
  idle : Idle s
  wf : s.schedule.WellFormed

variable {s : Mac} {sf l : ℕ}

theorem allocNeighbor_view (s : Mac) (addr : Linkaddr) :
    (allocNeighbor s addr).2.schedule = s.schedule := by
  unfold allocNeighbor
  split
  · rfl
  · rfl

theorem countTxLink_ready (hs : Idle s) (options delta : ℕ) (addr : Linkaddr) :
    ∃ t, countTxLink s options addr delta = .ok t ∧ Idle t ∧ t.schedule = s.schedule := by
  by_cases htx : linkOptionTx options = true
  · cases hnbr : tschQueueGetNbr s addr with
    | some n => exact ⟨_, countTxLink_found hs htx hnbr, hs, rfl⟩
    | none =>
      have hidle := idle_allocNeighbor hs addr
      have hview := allocNeighbor_view s addr
      rcases halloc : allocNeighbor s addr with ⟨_ | n, t⟩
      · rw [halloc] at hidle hview
        refine ⟨t, ?_, hidle, hview⟩
        unfold countTxLink
        rw [if_pos htx, tschQueueAddNbr_idle hs, hnbr]
        simp only [halloc]
        rfl
      · rw [halloc] at hidle hview
        exact ⟨_, countTxLink_created hs htx hnbr halloc, hidle, hview⟩
  · exact ⟨s, countTxLink_skipped htx, hs, rfl⟩

/-! ## Removing links -/

theorem schedule_unlinkLink (s : Mac) (sf l : ℕ) :
    (unlinkLink s sf l).schedule = s.schedule.unlink sf l := by
  unfold unlinkLink ScheduleView.unlink Mac.schedule
  split
  · rfl
  · rfl

theorem tschScheduleRemoveLink_view (hs : Idle s) (sf l : ℕ) :
    ((s.link l).slotframeHandle ≠ (s.slotframe sf).handle ∧
      tschScheduleRemoveLink s (some sf) (some l) = .ok (false, s)) ∨
    ((s.link l).slotframeHandle = (s.slotframe sf).handle ∧
      ∃ t, tschScheduleRemoveLink s (some sf) (some l) = .ok (true, t) ∧ Idle t ∧
        t.schedule = s.schedule.unlink sf l) := by
  by_cases hhandle : (s.link l).slotframeHandle = (s.slotframe sf).handle
  · obtain ⟨t, hcount, hidle, hview⟩ :=
      countTxLink_ready (idle_unlinkLink hs sf l) (s.link l).linkOptions 255 (s.link l).addr
    refine .inr ⟨hhandle, t, ?_, hidle, hview.trans (schedule_unlinkLink s sf l)⟩
    rw [tschScheduleRemoveLink_idle hs hhandle, hcount]
    rfl
  · exact .inl ⟨hhandle, tschScheduleRemoveLink_mismatch hhandle⟩

/-- What removing links leaves behind: the same slotframes. -/
structure LinksRemoved (s t : Mac) : Prop where
  ready : ScheduleReady t
  list : t.slotframeList = s.slotframeList
  handle : ∀ x, (t.slotframe x).handle = (s.slotframe x).handle
  size : ∀ x, (t.slotframe x).size = (s.slotframe x).size
  record : ∀ j, t.link j = s.link j

theorem LinksRemoved.refl (hs : ScheduleReady s) : LinksRemoved s s :=
  ⟨hs, rfl, fun _ ↦ rfl, fun _ ↦ rfl, fun _ ↦ rfl⟩

theorem linksRemoved_of_unlink {t : Mac} (hs : ScheduleReady s) (hsf : sf ∈ s.slotframeList)
    (hhandle : (s.link l).slotframeHandle = (s.slotframe sf).handle) (ht : Idle t)
    (hview : t.schedule = s.schedule.unlink sf l) : LinksRemoved s t := by
  have hslotframe : ∀ x, t.slotframe x = (s.schedule.unlink sf l).slotframe x := fun x ↦
    congrArg (fun v : ScheduleView ↦ v.slotframe x) hview
  refine ⟨⟨ht, ?_⟩, congrArg ScheduleView.slotframeList hview, fun x ↦ ?_, fun x ↦ ?_, fun j ↦ ?_⟩
  · rw [hview]
    exact hs.wf.unlink hsf hhandle
  · rw [hslotframe, ScheduleView.slotframe_unlink]
    rfl
  · rw [hslotframe, ScheduleView.slotframe_unlink]
    rfl
  · calc t.link j = (s.schedule.unlink sf l).link j :=
          congrArg (fun v : ScheduleView ↦ v.link j) hview
      _ = s.link j := ScheduleView.link_unlink _ sf l j

theorem tschScheduleRemoveLink_ready (hs : ScheduleReady s) {slotframe : Option ℕ}
    (hlive : ∀ sf, slotframe = some sf → sf ∈ s.slotframeList) (link : Option ℕ) :
    ∃ removed t, tschScheduleRemoveLink s slotframe link = .ok (removed, t) ∧ LinksRemoved s t := by
  cases slotframe with
  | none => exact ⟨false, s, rfl, .refl hs⟩
  | some sf =>
    cases link with
    | none => exact ⟨false, s, rfl, .refl hs⟩
    | some l =>
      rcases tschScheduleRemoveLink_view hs.idle sf l with
        ⟨-, hcall⟩ | ⟨hhandle, t, hcall, hidle, hview⟩
      · exact ⟨false, s, hcall, .refl hs⟩
      · exact ⟨true, t, hcall, linksRemoved_of_unlink hs (hlive sf rfl) hhandle hidle hview⟩

theorem mem_of_getLinkByTimeslot {timeslot : ℕ}
    (hfound : tschScheduleGetLinkByTimeslot s sf timeslot = some l) :
    l ∈ (s.slotframe sf).linksList ∧ (s.link l).timeslot = timeslot := by
  unfold tschScheduleGetLinkByTimeslot at hfound
  split at hfound
  · cases hfound
  · exact ⟨mem_of_find?_eq_some hfound, by simpa using find?_some hfound⟩

theorem tschScheduleRemoveLinkByTimeslot_ready (hs : ScheduleReady s) (hsf : sf ∈ s.slotframeList)
    (timeslot : ℕ) :
    ∃ removed t, tschScheduleRemoveLinkByTimeslot s sf timeslot = .ok (removed, t) ∧
      LinksRemoved s t ∧ ∀ j ∈ (t.slotframe sf).linksList, (t.link j).timeslot ≠ timeslot := by
  unfold tschScheduleRemoveLinkByTimeslot
  cases hfound : tschScheduleGetLinkByTimeslot s sf timeslot with
  | none =>
    refine ⟨false, s, rfl, .refl hs, fun j hj ↦ ?_⟩
    rw [tschScheduleGetLinkByTimeslot_idle hs.idle, find?_eq_none] at hfound
    simpa using hfound j hj
  | some l =>
    obtain ⟨hl, hslot⟩ := mem_of_getLinkByTimeslot hfound
    have hhandle := hs.wf.links.slotframeHandle sf hsf l hl
    rcases tschScheduleRemoveLink_view hs.idle sf l with
      ⟨hne, -⟩ | ⟨-, t, hcall, hidle, hview⟩
    · exact absurd hhandle hne
    have hremoved := linksRemoved_of_unlink hs hsf hhandle hidle hview
    refine ⟨true, t, hcall, hremoved, fun j hj heq ↦ ?_⟩
    have hslotframe : t.slotframe sf = (s.schedule.unlink sf l).slotframe sf :=
      congrArg (fun v : ScheduleView ↦ v.slotframe sf) hview
    rw [hslotframe] at hj
    obtain ⟨hj, hne⟩ := (hs.wf.mem_unlink hsf hhandle hsf).mp hj
    rw [hremoved.record] at heq
    exact hne (hs.wf.links.timeslot_inj sf hsf j hj l hl (heq.trans hslot.symm))

theorem removeLinksLoop_ready (links : List ℕ) : ∀ {s : Mac}, ScheduleReady s →
    sf ∈ s.slotframeList → (s.slotframe sf).linksList = links →
    ∃ t, removeLinksLoop links.length s sf = .ok t ∧ LinksRemoved s t ∧
      (t.slotframe sf).linksList = [] := by
  induction links with
  | nil =>
    intro s hs _ hlinks
    refine ⟨s, ?_, .refl hs, hlinks⟩
    unfold removeLinksLoop
    rw [hlinks]
    rfl
  | cons l links ih =>
    intro s hs hsf hlinks
    have hl : l ∈ (s.slotframe sf).linksList := hlinks ▸ mem_cons_self
    have hhandle := hs.wf.links.slotframeHandle sf hsf l hl
    rcases tschScheduleRemoveLink_view hs.idle sf l with
      ⟨hne, -⟩ | ⟨-, t, hcall, hidle, hview⟩
    · exact absurd hhandle hne
    have hremoved := linksRemoved_of_unlink hs hsf hhandle hidle hview
    have hrest : (t.slotframe sf).linksList = links := by
      calc (t.slotframe sf).linksList = ((s.schedule.unlink sf l).slotframe sf).linksList :=
            congrArg (fun v : ScheduleView ↦ (v.slotframe sf).linksList) hview
        _ = (s.slotframe sf).linksList.erase l := by
            rw [ScheduleView.slotframe_unlink, if_pos rfl]
            rfl
        _ = links := by rw [hlinks, erase_cons_head]
    obtain ⟨u, hloop, hu, hempty⟩ := ih hremoved.ready (hremoved.list ▸ hsf) hrest
    refine ⟨u, ?_, ⟨hu.ready, hu.list.trans hremoved.list, fun x ↦ ?_, fun x ↦ ?_, fun j ↦ ?_⟩,
      hempty⟩
    · rw [length_cons]
      unfold removeLinksLoop
      rw [hlinks]
      simp only [head?_cons, hcall]
      exact hloop
    · exact (hu.handle x).trans (hremoved.handle x)
    · exact (hu.size x).trans (hremoved.size x)
    · exact (hu.record j).trans (hremoved.record j)

theorem tschScheduleRemoveSlotframe_ready (hs : ScheduleReady s) (sf : ℕ) :
    ∃ t, tschScheduleRemoveSlotframe s (some sf) = .ok (true, t) ∧ ScheduleReady t ∧
      t.slotframeList = s.slotframeList.erase sf := by
  obtain ⟨t, hloop, hremoved, hempty⟩ : ∃ t,
      removeLinksLoop (s.slotframe sf).linksList.length s sf = .ok t ∧ LinksRemoved s t ∧
        (t.slotframe sf).linksList = [] := by
    by_cases hsf : sf ∈ s.slotframeList
    · exact removeLinksLoop_ready _ hs hsf rfl
    · have hlinks : (s.slotframe sf).linksList = [] := hs.wf.slotframes.emptied sf hsf
      refine ⟨s, ?_, .refl hs, hlinks⟩
      unfold removeLinksLoop
      rw [hlinks]
      rfl
  have hidle := hremoved.ready.idle
  refine ⟨freeSlotframe t sf, tschScheduleRemoveSlotframe_idle hloop hidle,
    ⟨hidle, hremoved.ready.wf.dropSlotframe hempty⟩, ?_⟩
  change t.slotframeList.erase sf = _
  rw [hremoved.list]

theorem removeSlotframesLoop_ready (slotframes : List ℕ) : ∀ {s : Mac}, ScheduleReady s →
    s.slotframeList = slotframes →
    ∃ t, removeSlotframesLoop slotframes.length s = .ok (true, t) ∧ ScheduleReady t := by
  induction slotframes with
  | nil =>
    intro s hs hlist
    refine ⟨s, ?_, hs⟩
    unfold removeSlotframesLoop
    rw [hlist]
    rfl
  | cons sf slotframes ih =>
    intro s hs hlist
    obtain ⟨t, hremove, ht, herased⟩ := tschScheduleRemoveSlotframe_ready hs sf
    have hrest : t.slotframeList = slotframes := by
      rw [herased, hlist, erase_cons_head]
    obtain ⟨u, hloop, hu⟩ := ih ht hrest
    refine ⟨u, ?_, hu⟩
    rw [length_cons]
    unfold removeSlotframesLoop
    rw [hlist]
    simp only [head?_cons, hremove]
    exact hloop

theorem tschScheduleAddSlotframe_refused (hs : ScheduleReady s) {handle size : ℕ}
    (hinvalid : size = 0 ∨ ∃ sf ∈ s.slotframeList, (s.slotframe sf).handle = handle) :
    tschScheduleAddSlotframe s handle size = .ok (none, s) := by
  unfold tschScheduleAddSlotframe
  by_cases hsize : size = 0
  · rw [if_pos hsize]
  · obtain ⟨sf, hsf, hhandle⟩ := hinvalid.resolve_left hsize
    have hfound : (tschScheduleGetSlotframeByHandle s handle).isSome = true := by
      unfold tschScheduleGetSlotframeByHandle
      rw [if_neg (by simp [hs.idle.1]), find?_isSome]
      exact ⟨sf, hsf, by simpa using hhandle⟩
    rw [if_neg hsize, if_pos hfound]

theorem tschScheduleAddSlotframe_ready (hs : ScheduleReady s) (handle size : ℕ) :
    ∃ result t, tschScheduleAddSlotframe s handle size = .ok (result, t) ∧ ScheduleReady t := by
  by_cases hinvalid : size = 0 ∨ ∃ sf ∈ s.slotframeList, (s.slotframe sf).handle = handle
  · exact ⟨none, s, tschScheduleAddSlotframe_refused hs hinvalid, hs⟩
  rw [not_or] at hinvalid
  obtain ⟨hsize, hnone⟩ := hinvalid
  have hfresh : ∀ x ∈ s.slotframeList, (s.slotframe x).handle ≠ handle :=
    fun x hx heq ↦ hnone ⟨x, hx, heq⟩
  have hfound : tschScheduleGetSlotframeByHandle s handle = none := by
    unfold tschScheduleGetSlotframeByHandle
    rw [if_neg (by simp [hs.idle.1]), find?_eq_none]
    simpa using hfresh
  rw [tschScheduleAddSlotframe_idle hs.idle hsize hfound]
  refine ⟨_, _, rfl, ?_⟩
  change ScheduleReady (allocSlotframe s handle size).2
  unfold allocSlotframe
  cases halloc : s.slotframeMemb.alloc with
  | none => exact hs
  | some result =>
    obtain ⟨sf, pool⟩ := result
    have hwf : (s.schedule.addSlotframe sf pool handle size).WellFormed :=
      hs.wf.addSlotframe halloc hsize hfresh
    exact ⟨hs.idle, hwf⟩

section Add

variable {request : LinkRequest} {slotframe : Option ℕ}

theorem tschScheduleAddLink_refused (s : Mac) (hinvalid : ∀ sf, slotframe = some sf →
      (s.slotframe sf).size ≤ request.timeslot ∨ 15 < request.channelOffset) :
    tschScheduleAddLink s slotframe request = .ok (none, s) := by
  unfold tschScheduleAddLink
  cases slotframe with
  | none => rfl
  | some sf =>
    by_cases hslot : (s.slotframe sf).size ≤ request.timeslot
    · simp only [if_pos hslot]
    · simp only [if_neg hslot, if_pos ((hinvalid sf rfl).resolve_left hslot)]

theorem allocLink_view {pool : Memb TschLink} (sf : ℕ) (request : LinkRequest)
    (halloc : s.linkMemb.alloc = some (l, pool)) :
    ∃ t, allocLink s sf request = (some l, t) ∧ (Idle s → Idle t) ∧
      t.schedule = s.schedule.append sf l pool (newLink s sf request) := by
  unfold allocLink
  rw [halloc]
  exact ⟨_, rfl, id, rfl⟩

theorem tschScheduleAddLink_view (hsf : sf ∈ s.slotframeList)
    (hslot : request.timeslot < (s.slotframe sf).size) (hchannel : request.channelOffset ≤ 15)
    {u : Mac} {removed : Bool}
    (hremove : tschScheduleRemoveLinkByTimeslot s sf request.timeslot = .ok (removed, u))
    (hu : LinksRemoved s u)
    (hfree : ∀ j ∈ (u.slotframe sf).linksList, (u.link j).timeslot ≠ request.timeslot) :
    (u.linkMemb.alloc = none ∧ tschScheduleAddLink s (some sf) request = .ok (none, u)) ∨
      ∃ l pool t, u.linkMemb.alloc = some (l, pool) ∧
        tschScheduleAddLink s (some sf) request = .ok (some l, t) ∧ ScheduleReady t ∧
          t.schedule = u.schedule.append sf l pool (newLink u sf request) := by
  have hsf' : sf ∈ u.slotframeList := hu.list ▸ hsf
  rw [tschScheduleAddLink_idle hslot hchannel hremove hu.ready.idle]
  unfold installLink
  cases halloc : u.linkMemb.alloc with
  | none =>
    have hnone : allocLink u sf request = (none, u) := by
      unfold allocLink
      rw [halloc]
    rw [hnone]
    exact .inl ⟨rfl, rfl⟩
  | some result =>
    obtain ⟨l, pool⟩ := result
    have hwf : (u.schedule.append sf l pool (newLink u sf request)).WellFormed := by
      refine hu.ready.wf.append hsf' halloc rfl ?_ hchannel hfree
      change request.timeslot < (u.slotframe sf).size
      rw [hu.size]
      exact hslot
    obtain ⟨w, hw, hidle, hview⟩ := allocLink_view sf request halloc
    obtain ⟨t, hcount, ht, hsame⟩ := countTxLink_ready (hidle hu.ready.idle) request.linkOptions 1
      (flowAddr (w.link l).slotframeHandle)
    refine .inr ⟨l, pool, t, rfl, ?_, ⟨ht, ?_⟩, hsame.trans hview⟩
    · rw [hw]
      change Except.map _ (countTxLink w _ _ 1) = _
      rw [hcount]
      rfl
    · rw [hsame, hview]
      exact hwf

theorem tschScheduleAddLink_ready (hs : ScheduleReady s)
    (hlive : ∀ sf, slotframe = some sf → sf ∈ s.slotframeList) (request : LinkRequest) :
    ∃ result t, tschScheduleAddLink s slotframe request = .ok (result, t) ∧ ScheduleReady t := by
  by_cases hinvalid : ∀ sf, slotframe = some sf →
      (s.slotframe sf).size ≤ request.timeslot ∨ 15 < request.channelOffset
  · exact ⟨none, s, tschScheduleAddLink_refused s hinvalid, hs⟩
  push Not at hinvalid
  obtain ⟨sf, rfl, hslot, hchannel⟩ := hinvalid
  obtain ⟨removed, u, hremove, hu, hfree⟩ :=
    tschScheduleRemoveLinkByTimeslot_ready hs (hlive sf rfl) request.timeslot
  rcases tschScheduleAddLink_view (hlive sf rfl) hslot hchannel hremove hu hfree with
    ⟨-, hcall⟩ | ⟨l, pool, t, -, hcall, ht, -⟩
  · exact ⟨none, u, hcall, hu.ready⟩
  · exact ⟨some l, t, hcall, ht⟩

end Add

/-! ## Runs -/

/-- The calls, and the slot interrupt choosing the next link between them. -/
inductive ScheduleOp
  | addSlotframe (handle size : ℕ)
  | addLink (slotframe : Option ℕ) (request : LinkRequest)
  | removeLink (slotframe link : Option ℕ)
  | removeLinkByTimeslot (slotframe : Option ℕ) (timeslot : ℕ)
  | removeSlotframe (slotframe : Option ℕ)
  | removeAllSlotframes
  | nextSlot

/-- The state after a call that returns; `NULL` is checked before the search by timeslot. -/
def ScheduleOp.next (s : Mac) : ScheduleOp → Option Mac
  | .addSlotframe handle size => (tschScheduleAddSlotframe s handle size).toOption.map Prod.snd
  | .addLink slotframe request => (tschScheduleAddLink s slotframe request).toOption.map Prod.snd
  | .removeLink slotframe link => (tschScheduleRemoveLink s slotframe link).toOption.map Prod.snd
  | .removeLinkByTimeslot none _ => some s
  | .removeLinkByTimeslot (some sf) timeslot =>
    (tschScheduleRemoveLinkByTimeslot s sf timeslot).toOption.map Prod.snd
  | .removeSlotframe slotframe => (tschScheduleRemoveSlotframe s slotframe).toOption.map Prod.snd
  | .removeAllSlotframes => (tschScheduleRemoveAllSlotframes s).toOption.map Prod.snd
  | .nextSlot => some (Tsch.nextSlot s)

/-- Links are added to, and removed from, a slotframe that is installed, or `NULL`. -/
def liveSlotframe (s : Mac) : ScheduleOp → Bool
  | .addLink (some sf) _ => s.slotframeList.contains sf
  | .removeLink (some sf) _ => s.slotframeList.contains sf
  | _ => true

/-- Runs from a schedule that `tsch_schedule_init` has initialised before the first slot. -/
def ScheduleRun (step : Mac → ScheduleOp → Mac → Prop) (ops : List ScheduleOp) (s : Mac) : Prop :=
  ∃ s₀ s₁, Idle s₀ ∧ s₀.currentLink = none ∧ tschScheduleInit s₀ = .ok (true, s₁) ∧
    Run step s₁ ops s

theorem tschScheduleInit_ready {t : Mac} (hs : Idle s) (hcurrent : s.currentLink = none)
    (hinit : tschScheduleInit s = .ok (true, t)) : ScheduleReady t := by
  unfold tschScheduleInit at hinit
  rw [tschGetLock_idle hs] at hinit
  cases hinit
  refine ⟨⟨rfl, hs.2⟩, ⟨⟨nodup_nil, fun sf ↦ ?_, fun _ _ ↦ rfl, fun _ _ ↦ rfl, fun x hx ↦ ?_,
    fun x hx ↦ ?_⟩, ⟨fun x hx ↦ ?_, fun l ↦ ?_, fun _ _ ↦ rfl, fun x hx ↦ ?_, fun x hx ↦ ?_,
    fun x hx ↦ ?_, fun x hx ↦ ?_⟩, fun l hl ↦ ?_⟩⟩
  · exact ⟨fun hsf ↦ absurd hsf not_mem_nil, fun hsf ↦ absurd hsf.2 Nat.zero_ne_one⟩
  · exact absurd hx not_mem_nil
  · exact absurd hx not_mem_nil
  · exact absurd hx not_mem_nil
  · refine ⟨fun hl ↦ ?_, fun hl ↦ absurd hl.2 Nat.zero_ne_one⟩
    obtain ⟨x, hx, -⟩ := hl
    exact absurd hx not_mem_nil
  · exact absurd hx not_mem_nil
  · exact absurd hx not_mem_nil
  · exact absurd hx not_mem_nil
  · exact absurd hx not_mem_nil
  · change s.currentLink = some l at hl
    rw [hcurrent] at hl
    cases hl

theorem tschQueueUpdateAllBackoffWindows_ready (hs : ScheduleReady s)
    (destAddr : Linkaddr) : ScheduleReady (tschQueueUpdateAllBackoffWindows s destAddr) := by
  have hfold : ∀ (nbrs : List ℕ) (u : Mac), ScheduleReady u → ScheduleReady (nbrs.foldl
      (fun s n ↦ s.setNeighbor n (backoffStep destAddr (s.neighbor n))) u) := by
    intro nbrs
    induction nbrs with
    | nil => exact fun u hu ↦ hu
    | cons n nbrs ih =>
      intro u hu
      apply ih
      exact ⟨hu.idle, hu.wf⟩
  unfold tschQueueUpdateAllBackoffWindows
  split
  · exact hs
  · exact hfold s.neighborList s hs

theorem currBest_installed (hlocked : s.tschLocked = false) {l : ℕ}
    (hbest : (tschScheduleGetNextActiveLink s).currBest = some l) : s.schedule.Installed l := by
  rw [tschScheduleGetNextActiveLink_eq hlocked] at hbest
  obtain ⟨⟨sf, l'⟩, hselect, rfl⟩ := map_eq_some_iff.mp hbest
  obtain ⟨hsf, hl⟩ := mem_placedLinks.mp (select_selected hselect).mem
  exact ⟨sf, hsf, hl⟩

theorem nextSlot_ready (hs : ScheduleReady s) : ScheduleReady (nextSlot s) := by
  have hnext : ∀ u : Mac, ScheduleReady u → ScheduleReady { u with
      currentLink := (tschScheduleGetNextActiveLink u).currBest
      backupLink := (tschScheduleGetNextActiveLink u).currBackup
      tschCurrentAsn := u.tschCurrentAsn.inc
        (if (tschScheduleGetNextActiveLink u).currBest.isNone then 1
          else (tschScheduleGetNextActiveLink u).timeToCurrBest) } := fun u hu ↦
    ⟨hu.idle, ⟨⟨hu.wf.slotframes.nodup, hu.wf.slotframes.allocated, hu.wf.slotframes.unused,
      hu.wf.slotframes.emptied, hu.wf.slotframes.handle_inj, hu.wf.slotframes.size_pos⟩,
      ⟨hu.wf.links.nodup, hu.wf.links.allocated, hu.wf.links.unused, hu.wf.links.timeslot_inj,
        hu.wf.links.timeslot_lt, hu.wf.links.channelOffset_le, hu.wf.links.slotframeHandle⟩,
      fun l hl ↦ currBest_installed hu.idle.1 hl⟩⟩
  unfold nextSlot
  split
  · split
    · exact hnext _ (tschQueueUpdateAllBackoffWindows_ready hs _)
    · exact hnext s hs
  · exact hnext s hs

theorem scheduleOp_ready (hs : ScheduleReady s) {op : ScheduleOp}
    (hlive : liveSlotframe s op = true) : ∃ t, ScheduleOp.next s op = some t ∧ ScheduleReady t := by
  have hmap : ∀ {α : Type} {call : Except Fault (α × Mac)},
      (∃ result t, call = .ok (result, t) ∧ ScheduleReady t) →
      ∃ t, call.toOption.map Prod.snd = some t ∧ ScheduleReady t := by
    intro α call hcall
    obtain ⟨result, t, hcall, ht⟩ := hcall
    rw [hcall]
    exact ⟨t, rfl, ht⟩
  cases op with
  | addSlotframe handle size => exact hmap (tschScheduleAddSlotframe_ready hs handle size)
  | addLink slotframe request =>
    have hin : ∀ sf, slotframe = some sf → sf ∈ s.slotframeList := by
      intro sf hsf
      rw [hsf] at hlive
      exact contains_iff_mem.mp hlive
    exact hmap (tschScheduleAddLink_ready hs hin request)
  | removeLink slotframe link =>
    have hin : ∀ sf, slotframe = some sf → sf ∈ s.slotframeList := by
      intro sf hsf
      rw [hsf] at hlive
      exact contains_iff_mem.mp hlive
    obtain ⟨removed, t, hcall, ht⟩ := tschScheduleRemoveLink_ready hs hin link
    exact hmap ⟨removed, t, hcall, ht.ready⟩
  | removeLinkByTimeslot slotframe timeslot =>
    cases slotframe with
    | none => exact ⟨s, rfl, hs⟩
    | some sf =>
      by_cases hsf : sf ∈ s.slotframeList
      · obtain ⟨removed, t, hcall, ht, -⟩ := tschScheduleRemoveLinkByTimeslot_ready hs hsf timeslot
        exact hmap ⟨removed, t, hcall, ht.ready⟩
      · have hlinks : (s.slotframe sf).linksList = [] := hs.wf.slotframes.emptied sf hsf
        exact hmap ⟨false, s, tschScheduleRemoveLinkByTimeslot_empty hlinks timeslot, hs⟩
  | removeSlotframe slotframe =>
    cases slotframe with
    | none => exact ⟨s, rfl, hs⟩
    | some sf =>
      obtain ⟨t, hcall, ht, -⟩ := tschScheduleRemoveSlotframe_ready hs sf
      exact hmap ⟨true, t, hcall, ht⟩
  | removeAllSlotframes =>
    obtain ⟨t, hcall, ht⟩ := removeSlotframesLoop_ready s.slotframeList hs rfl
    exact hmap ⟨true, t, hcall, ht⟩
  | nextSlot => exact ⟨_, rfl, nextSlot_ready hs⟩

/-- An add operation with an invalid argument returns `NULL` and leaves everything as it is. -/
def RefusesInvalid (s : Mac) : Prop :=
  (∀ handle size, (size = 0 ∨ ∃ sf ∈ s.slotframeList, (s.slotframe sf).handle = handle) →
    tschScheduleAddSlotframe s handle size = .ok (none, s)) ∧
  ∀ slotframe request, (∀ sf, slotframe = some sf →
      (s.slotframe sf).size ≤ request.timeslot ∨ 15 < request.channelOffset) →
    tschScheduleAddLink s slotframe request = .ok (none, s)

/-- After every run of calls with live slotframes the schedule is well formed, and the next call
returns. -/
theorem wellFormed_of_liveRun {ops : List ScheduleOp} {s : Mac}
    (hrun : ScheduleRun (GuardedStepOf ScheduleOp.next fun s op ↦ liveSlotframe s op = true) ops s) :
    s.schedule.WellFormed ∧ RefusesInvalid s ∧
      ∀ op, liveSlotframe s op = true → ∃ t, ScheduleOp.next s op = some t := by
  obtain ⟨s₀, s₁, hidle, hcurrent, hinit, hrun⟩ := hrun
  have hs : ScheduleReady s := by
    apply hrun.invariant _ (tschScheduleInit_ready hidle hcurrent hinit)
    intro u op w hu hstep
    obtain ⟨t, hnext, ht⟩ := scheduleOp_ready hu hstep.1
    rw [some.inj (hstep.2.symm.trans hnext)]
    exact ht
  refine ⟨hs.wf, ⟨fun handle size ↦ tschScheduleAddSlotframe_refused hs,
    fun slotframe request ↦ tschScheduleAddLink_refused s⟩, fun op hlive ↦ ?_⟩
  obtain ⟨t, hnext, -⟩ := scheduleOp_ready hs hlive
  exact ⟨t, hnext⟩

def emptySchedule : Mac :=
  tschReleaseLock { Mac.zero smallConfig with tschLocked := true }

theorem scheduleRun_of_execute {next : Mac → ScheduleOp → Option Mac}
    {step : Mac → ScheduleOp → Mac → Prop} {ops : List ScheduleOp}
    (hstep : execute next emptySchedule ops = some s → Run step emptySchedule ops s)
    (hexecute : execute next emptySchedule ops = some s) : ScheduleRun step ops s :=
  ⟨Mac.zero smallConfig, emptySchedule, ⟨rfl, rfl⟩, rfl, rfl, hstep hexecute⟩

/-- An occupied cell is replaced, the link the slot loop waits for is removed, the pool runs out
of links, and a slotframe goes with its links. -/
def replacingLinksOps : List ScheduleOp :=
  [.addSlotframe 1 10, .addLink (some 0) ⟨1, .normal, tschBroadcastAddress, 3, 0⟩, .nextSlot,
    .addLink (some 0) ⟨2, .normal, tschBroadcastAddress, 3, 4⟩, .addSlotframe 1 7,
    .addSlotframe 0 5, .addLink (some 1) ⟨2, .normal, linkaddrNull, 5, 0⟩,
    .addLink (some 1) ⟨2, .normal, linkaddrNull, 1, 0⟩,
    .addLink (some 1) ⟨3, .normal, linkaddrNull, 2, 15⟩,
    .addLink (some 1) ⟨2, .normal, linkaddrNull, 3, 0⟩,
    .addLink (some 1) ⟨2, .normal, linkaddrNull, 4, 0⟩, .nextSlot, .removeLink (some 1) (some 0), .removeLinkByTimeslot (some 1) 1,
    .removeSlotframe (some 0), .addLink none ⟨2, .normal, linkaddrNull, 4, 0⟩]

theorem wellFormed_replacingLinks : ∃ s,
    ScheduleRun (GuardedStepOf ScheduleOp.next fun s op ↦ liveSlotframe s op = true)
      replacingLinksOps s ∧ (s.slotframeList = [1] ∧ (s.slotframe 1).linksList = [2, 3]) ∧
      s.schedule.WellFormed ∧ RefusesInvalid s ∧
        ∀ op, liveSlotframe s op = true → ∃ t, ScheduleOp.next s op = some t := by
  have hruns : (execute (guardedNext ScheduleOp.next fun s op ↦ liveSlotframe s op = true)
      emptySchedule replacingLinksOps).any (fun s ↦
        s.slotframeList == [1] && (s.slotframe 1).linksList == [2, 3]) = true := by
    decide +kernel
  obtain ⟨s, hexecute, hend⟩ := (any_eq_true _ _).mp hruns
  have hrun := scheduleRun_of_execute guardedRun_of_execute hexecute
  exact ⟨s, hrun, by simpa using hend, wellFormed_of_liveRun hrun⟩

/-- A link added through the pointer to a slotframe that has been removed. -/
def staleSlotframeOps : List ScheduleOp :=
  [.addSlotframe 1 10, .removeSlotframe (some 0),
    .addLink (some 0) ⟨1, .normal, tschBroadcastAddress, 3, 0⟩]

theorem not_wellFormed_staleSlotframe : ∃ s,
    ScheduleRun (StepOf ScheduleOp.next) staleSlotframeOps s ∧ ¬ s.schedule.WellFormed := by
  have hruns : (execute ScheduleOp.next emptySchedule staleSlotframeOps).any (fun s ↦
      s.slotframeList == [] && s.linkMemb.num == 4 && s.linkMemb.count 0 == 1) = true := by
    decide +kernel
  obtain ⟨s, hexecute, hend⟩ := (any_eq_true _ _).mp hruns
  obtain ⟨⟨hlist, hnum⟩, hcount⟩ :
      (s.slotframeList = [] ∧ s.linkMemb.num = 4) ∧ s.linkMemb.count 0 = 1 := by
    simpa using hend
  refine ⟨s, scheduleRun_of_execute run_of_execute hexecute, fun hwf ↦ ?_⟩
  -- the link is allocated, but no installed slotframe has it
  have hroom : 0 < s.schedule.linkMemb.num := by
    change 0 < s.linkMemb.num
    omega
  obtain ⟨sf, hsf, -⟩ := (hwf.links.allocated 0).mpr ⟨hroom, hcount⟩
  change sf ∈ s.slotframeList at hsf
  rw [hlist] at hsf
  cases hsf

end ContikiMaster.Tsch
