import ContikiMaster.Tsch.LinkCounters

/-!
# Counters under one schedule call

Each function of `tsch-schedule.c` keeps the counters in step with the installed links, as
long as every Tx link that is removed carries the flow address of its slotframe and Tx
advertising links sit in slotframes that fold to the EB queue.
-/

namespace ContikiMaster.Tsch

open Sys Lib Function List Option Memb

/-- Well-formed schedules: distinct live slotframes with distinct handles, and live links that
belong to the slotframe they name. -/
structure ScheduleWF (s : Mac) : Prop where
  slotframes_nodup : s.slotframeList.Nodup
  slotframe_used : ∀ sf ∈ s.slotframeList, s.slotframeMemb.count sf ≠ 0
  handle_inj : ∀ sf ∈ s.slotframeList, ∀ sf' ∈ s.slotframeList,
    (s.slotframe sf).handle = (s.slotframe sf').handle → sf = sf'
  links_nodup : ∀ sf ∈ s.slotframeList, (s.slotframe sf).linksList.Nodup
  link_used : ∀ sf ∈ s.slotframeList, ∀ l ∈ (s.slotframe sf).linksList,
    l < s.linkMemb.num ∧ s.linkMemb.count l ≠ 0
  link_handle : ∀ sf ∈ s.slotframeList, ∀ l ∈ (s.slotframe sf).linksList,
    (s.link l).slotframeHandle = (s.slotframe sf).handle

def linkRecords (s : Mac) : List TschLink := (installedLinks s).map s.link

/-- The EB queue is on the list of neighbors, under its address. -/
def EbQueue (s : Mac) : Prop :=
  ∃ e ∈ s.neighborList, s.nEb = some e ∧ (s.neighbor e).addr = tschEbAddress

/-- A Tx link used for beacons sits in a slotframe whose handle folds to the EB queue. -/
def AdvertisesOnEb (k : TschLink) : Prop :=
  linkOptionTx k.linkOptions = true → k.linkType ≠ .normal → k.slotframeHandle % 256 = 0

/-- The invariant of the schedule functions. -/
structure CounterInv (s : Mac) : Prop where
  idle : Idle s
  schedule : ScheduleWF s
  queues : QueuesWF s
  eb : EbQueue s
  counted : Counted s (linkRecords s)
  advertising : ∀ l ∈ installedLinks s, AdvertisesOnEb (s.link l)
  num : s.linkMemb.num ≤ 255

theorem mem_installedLinks {s : Mac} {l : ℕ} :
    l ∈ installedLinks s ↔ ∃ sf ∈ s.slotframeList, l ∈ (s.slotframe sf).linksList :=
  mem_allItems

section SameSchedule

variable {s t : Mac} (hsame : SameSchedule s t)

include hsame

theorem SameSchedule.installedLinks : Tsch.installedLinks t = Tsch.installedLinks s := by
  unfold Tsch.installedLinks Mac.slotframe
  rw [hsame.slotframeList, hsame.slotframeMemb]

theorem SameSchedule.linkRecords : Tsch.linkRecords t = Tsch.linkRecords s := by
  unfold Tsch.linkRecords Mac.link
  rw [hsame.installedLinks, hsame.linkMemb]

theorem SameSchedule.scheduleWF (hwf : ScheduleWF s) : ScheduleWF t := by
  obtain ⟨hnodup, hused, hinj, hlinks, hlinkUsed, hhandle⟩ := hwf
  constructor
  · rwa [hsame.slotframeList]
  · rwa [hsame.slotframeList, hsame.slotframeMemb]
  · unfold Mac.slotframe
    rwa [hsame.slotframeList, hsame.slotframeMemb]
  · unfold Mac.slotframe
    rwa [hsame.slotframeList, hsame.slotframeMemb]
  · unfold Mac.slotframe
    rwa [hsame.slotframeList, hsame.slotframeMemb, hsame.linkMemb]
  · unfold Mac.slotframe Mac.link
    rwa [hsame.slotframeList, hsame.slotframeMemb, hsame.linkMemb]

theorem SameSchedule.ebQueue (heb : EbQueue s) : EbQueue t := by
  obtain ⟨e, he, hsome, haddr⟩ := heb
  obtain ⟨he', haddr'⟩ := hsame.queue_kept e he
  exact ⟨e, he', hsame.nEb.trans hsome, haddr'.trans haddr⟩

end SameSchedule

/-- The parts of the state the queues own are the same. -/
structure SameQueues (s t : Mac) : Prop where
  idle : Idle s → Idle t
  neighborMemb : t.neighborMemb = s.neighborMemb
  neighborList : t.neighborList = s.neighborList
  nEb : t.nEb = s.nEb

section SameQueues

variable {s t : Mac} (hsame : SameQueues s t)

include hsame

theorem SameQueues.queuesWF (hqueues : QueuesWF s) : QueuesWF t := by
  obtain ⟨hnodup, hused, hinj⟩ := hqueues
  constructor
  · rwa [hsame.neighborList]
  · rwa [hsame.neighborList, hsame.neighborMemb]
  · unfold Mac.neighbor
    rwa [hsame.neighborList, hsame.neighborMemb]

theorem SameQueues.counted {records : List TschLink} (hcounted : Counted s records) :
    Counted t records := by
  obtain ⟨htotal, hdedicated, habsent⟩ := hcounted
  constructor
  · unfold Mac.neighbor
    rwa [hsame.neighborList, hsame.neighborMemb]
  · unfold Mac.neighbor
    rwa [hsame.neighborList, hsame.neighborMemb]
  · unfold Mac.neighbor
    rwa [hsame.neighborList, hsame.neighborMemb]

theorem SameQueues.ebQueue (heb : EbQueue s) : EbQueue t := by
  unfold EbQueue Mac.neighbor
  rw [hsame.neighborList, hsame.neighborMemb, hsame.nEb]
  exact heb

theorem SameQueues.queueAvailable (hs : Idle s) (handle : ℕ) :
    Tsch.queueAvailable t handle = Tsch.queueAvailable s handle := by
  unfold Tsch.queueAvailable
  rw [tschQueueGetNbr_idle hs, tschQueueGetNbr_idle (hsame.idle hs)]
  unfold Mac.neighbor
  rw [hsame.neighborList, hsame.neighborMemb]

end SameQueues

/-! ## Removing a link -/

/-- A link that may be removed: receive-only, or addressed to the queue it is counted in. -/
def removable (s : Mac) (l : ℕ) : Bool :=
  !linkOptionTx (s.link l).linkOptions ||
    decide ((s.link l).addr = flowAddr (s.link l).slotframeHandle)

theorem addr_of_removable {s : Mac} {l : ℕ} (hremovable : removable s l = true) :
    linkOptionTx (s.link l).linkOptions = true →
      (s.link l).addr = flowAddr (s.link l).slotframeHandle := by
  intro htx
  simpa [removable, htx] using hremovable

/-- What removing a link from a slotframe changes in the schedule. -/
structure Unlinked (s : Mac) (sf l : ℕ) (t : Mac) : Prop where
  slotframeList : t.slotframeList = s.slotframeList
  count : t.slotframeMemb.count = s.slotframeMemb.count
  handle : ∀ x, (t.slotframe x).handle = (s.slotframe x).handle
  size : ∀ x, (t.slotframe x).size = (s.slotframe x).size
  links : (fun x ↦ (t.slotframe x).linksList) =
    update (fun x ↦ (s.slotframe x).linksList) sf ((s.slotframe sf).linksList.erase l)
  link : ∀ j, t.link j = s.link j
  linkNum : t.linkMemb.num = s.linkMemb.num
  linkCount : ∀ j, j ≠ l → t.linkMemb.count j = s.linkMemb.count j

theorem unlinkLink_unlinked (s : Mac) (sf l : ℕ) : Unlinked s sf l (unlinkLink s sf l) := by
  have hmemb : (unlinkLink s sf l).slotframeMemb = s.slotframeMemb.store sf
      { s.slotframe sf with linksList := (s.slotframe sf).linksList.erase l } := by
    unfold unlinkLink
    split <;> rfl
  have hlink : (unlinkLink s sf l).linkMemb = s.linkMemb.free l := by
    unfold unlinkLink
    split <;> rfl
  have hslotframe : ∀ x, (unlinkLink s sf l).slotframe x = if x = sf then
      { s.slotframe sf with linksList := (s.slotframe sf).linksList.erase l }
      else s.slotframe x := by
    intro x
    unfold Mac.slotframe
    rw [hmemb, store_mem, update_apply]
  constructor
  · unfold unlinkLink
    split <;> rfl
  · rw [hmemb]
    rfl
  · intro x
    rw [hslotframe]
    split
    · next heq => rw [heq]
    · rfl
  · intro x
    rw [hslotframe]
    split
    · next heq => rw [heq]
    · rfl
  · funext x
    rw [hslotframe]
    by_cases hx : x = sf
    · rw [if_pos hx, hx, update_self]
    · rw [if_neg hx, update_of_ne hx]
  · intro j
    unfold Mac.link
    rw [hlink, free_mem]
  · rw [hlink, free_num]
  · intro j hj
    rw [hlink, free_count_of_ne hj]

theorem unlinkLink_sameQueues (s : Mac) (sf l : ℕ) : SameQueues s (unlinkLink s sf l) := by
  constructor
  · intro hs
    exact idle_unlinkLink hs sf l
  all_goals
    unfold unlinkLink
    split <;> rfl

section Unlinked

variable {s t : Mac} {sf l : ℕ}

section

variable (hunlinked : Unlinked s sf l t)

include hunlinked

variable {x j : ℕ}

theorem Unlinked.linksList_of_ne (hx : x ≠ sf) :
    (t.slotframe x).linksList = (s.slotframe x).linksList := by
  rw [congrFun hunlinked.links x, update_of_ne hx]

theorem Unlinked.linksList_self :
    (t.slotframe sf).linksList = (s.slotframe sf).linksList.erase l := by
  rw [congrFun hunlinked.links sf, update_self]

theorem Unlinked.mem_of_mem (hj : j ∈ (t.slotframe x).linksList) :
    j ∈ (s.slotframe x).linksList := by
  by_cases hx : x = sf
  · rw [hx, hunlinked.linksList_self] at hj
    rw [hx]
    exact mem_of_mem_erase hj
  · rwa [hunlinked.linksList_of_ne hx] at hj

section

variable (hwf : ScheduleWF s) (hsf : sf ∈ s.slotframeList) (hl : l ∈ (s.slotframe sf).linksList)

include hwf hsf hl

theorem Unlinked.linkRecords_perm : (linkRecords s).Perm (s.link l :: linkRecords t) := by
  have hinstalled : (installedLinks s).Perm (l :: installedLinks t) := by
    unfold installedLinks
    rw [hunlinked.slotframeList, hunlinked.links]
    exact allItems_erase hwf.slotframes_nodup hsf hl
  have hlink : t.link = s.link := funext hunlinked.link
  calc (linkRecords s).Perm ((l :: installedLinks t).map s.link) := hinstalled.map s.link
    _ = s.link l :: linkRecords t := by rw [map_cons, linkRecords, hlink]

theorem Unlinked.scheduleWF : ScheduleWF t := by
  obtain ⟨hnodup, hused, hinj, hlinks, hlinkUsed, hhandle⟩ := hwf
  constructor
  · rwa [hunlinked.slotframeList]
  · rwa [hunlinked.slotframeList, hunlinked.count]
  · intro x hx y hy heq
    rw [hunlinked.slotframeList] at hx hy
    rw [hunlinked.handle, hunlinked.handle] at heq
    exact hinj x hx y hy heq
  · intro x hx
    rw [hunlinked.slotframeList] at hx
    by_cases hxs : x = sf
    · rw [hxs, hunlinked.linksList_self]
      exact (hlinks sf hsf).erase l
    · rw [hunlinked.linksList_of_ne hxs]
      exact hlinks x hx
  · intro x hx j hj
    rw [hunlinked.slotframeList] at hx
    have hne : j ≠ l := by
      rintro rfl
      by_cases hxs : x = sf
      · rw [hxs, hunlinked.linksList_self] at hj
        exact (hlinks sf hsf).not_mem_erase hj
      · -- a link in two slotframes would give both the same handle
        have hjx := hunlinked.mem_of_mem hj
        exact hxs (hinj x hx sf hsf
          ((hhandle x hx j hjx).symm.trans (hhandle sf hsf j hl)))
    rw [hunlinked.linkNum, hunlinked.linkCount j hne]
    exact hlinkUsed x hx j (hunlinked.mem_of_mem hj)
  · intro x hx j hj
    rw [hunlinked.slotframeList] at hx
    rw [hunlinked.link, hunlinked.handle]
    exact hhandle x hx j (hunlinked.mem_of_mem hj)

end

theorem Unlinked.mem_installedLinks (hj : j ∈ installedLinks t) : j ∈ installedLinks s := by
  obtain ⟨x, hx, hjx⟩ := Tsch.mem_installedLinks.mp hj
  rw [hunlinked.slotframeList] at hx
  exact Tsch.mem_installedLinks.mpr ⟨x, hx, hunlinked.mem_of_mem hjx⟩

end

theorem Unlinked.trans_same {u : Mac} (hunlinked : Unlinked s sf l t) (hsame : SameSchedule t u) :
    Unlinked s sf l u := by
  obtain ⟨hlist, hcount, hhandle, hsize, hlinks, hlink, hnum, hlinkCount⟩ := hunlinked
  constructor
  · rw [hsame.slotframeList, hlist]
  · rw [hsame.slotframeMemb, hcount]
  · unfold Mac.slotframe
    rwa [hsame.slotframeMemb]
  · unfold Mac.slotframe
    rwa [hsame.slotframeMemb]
  · unfold Mac.slotframe
    rwa [hsame.slotframeMemb]
  · unfold Mac.link
    rwa [hsame.linkMemb]
  · rw [hsame.linkMemb, hnum]
  · rwa [hsame.linkMemb]

end Unlinked

theorem tschScheduleRemoveLink_spec {s : Mac} {sf l : ℕ} (hinv : CounterInv s)
    (hsf : sf ∈ s.slotframeList) (hl : l ∈ (s.slotframe sf).linksList)
    (hremovable : removable s l = true) :
    ∃ t, tschScheduleRemoveLink s (some sf) (some l) = .ok (true, t) ∧ CounterInv t ∧
      Unlinked s sf l t ∧ ∀ handle, queueAvailable t handle = queueAvailable s handle := by
  have hunlinked := unlinkLink_unlinked s sf l
  have hqueues := unlinkLink_sameQueues s sf l
  have hcounted : Counted (unlinkLink s sf l) (s.link l :: linkRecords (unlinkLink s sf l)) :=
    hqueues.counted (hinv.counted.perm (hunlinked.linkRecords_perm hinv.schedule hsf hl))
  obtain ⟨t, hcount, hidle, hqueuesWF, hcounted', hsame, havailable⟩ :=
    countTxLink_remove (hqueues.idle hinv.idle) (hqueues.queuesWF hinv.queues) hcounted
      (addr_of_removable hremovable)
  have hremove : tschScheduleRemoveLink s (some sf) (some l) = .ok (true, t) := by
    rw [tschScheduleRemoveLink_idle hinv.idle (hinv.schedule.link_handle sf hsf l hl), hcount]
    rfl
  have hunlinked' := hunlinked.trans_same hsame
  refine ⟨t, hremove, ?_, hunlinked', fun handle ↦ ?_⟩
  · refine ⟨hidle, hunlinked'.scheduleWF hinv.schedule hsf hl, hqueuesWF,
      hsame.ebQueue (hqueues.ebQueue hinv.eb), ?_, fun j hj ↦ ?_, ?_⟩
    · rwa [hsame.linkRecords]
    · rw [hunlinked'.link]
      exact hinv.advertising j (hunlinked'.mem_installedLinks hj)
    · rw [hunlinked'.linkNum]
      exact hinv.num
  · rw [havailable, hqueues.queueAvailable hinv.idle]

theorem removable_congr {s t : Mac} (hlink : ∀ j, t.link j = s.link j) (l : ℕ) :
    removable t l = removable s l := by
  unfold removable
  rw [hlink]

theorem removeLinksLoop_spec {sf : ℕ} (links : List ℕ) :
    ∀ s : Mac, CounterInv s → sf ∈ s.slotframeList → (s.slotframe sf).linksList = links →
      (∀ l ∈ links, removable s l = true) →
      ∃ t, removeLinksLoop links.length s sf = .ok t ∧ CounterInv t ∧
        t.slotframeList = s.slotframeList ∧ (t.slotframe sf).linksList = [] ∧
        (∀ x, x ≠ sf → (t.slotframe x).linksList = (s.slotframe x).linksList) ∧
        ∀ j, t.link j = s.link j := by
  induction links with
  | nil =>
    intro s hinv _ hlinks _
    refine ⟨s, ?_, hinv, rfl, hlinks, fun _ _ ↦ rfl, fun _ ↦ rfl⟩
    unfold removeLinksLoop
    rw [hlinks]
    rfl
  | cons l links ih =>
    intro s hinv hsf hlinks hremovable
    have hl : l ∈ (s.slotframe sf).linksList := hlinks ▸ mem_cons_self
    obtain ⟨t, hremove, hinv', hunlinked, -⟩ :=
      tschScheduleRemoveLink_spec hinv hsf hl (hremovable l mem_cons_self)
    have hlinks' : (t.slotframe sf).linksList = links := by
      rw [hunlinked.linksList_self, hlinks, erase_cons_head]
    obtain ⟨u, hloop, hinv'', hlist, hempty, hother, hlink⟩ :=
      ih t hinv' (hunlinked.slotframeList ▸ hsf) hlinks' fun j hj ↦ by
        rw [removable_congr hunlinked.link]
        exact hremovable j (mem_cons_of_mem _ hj)
    refine ⟨u, ?_, hinv'', hlist.trans hunlinked.slotframeList, hempty, fun x hx ↦ ?_, fun j ↦ ?_⟩
    · rw [length_cons]
      unfold removeLinksLoop
      rw [hlinks]
      simp only [head?_cons, hremove]
      exact hloop
    · rw [hother x hx, hunlinked.linksList_of_ne hx]
    · rw [hlink, hunlinked.link]

theorem CounterInv.freeSlotframe {s : Mac} {sf : ℕ} (hinv : CounterInv s)
    (hempty : (s.slotframe sf).linksList = []) : CounterInv (freeSlotframe s sf) := by
  have hmem : (s.slotframeMemb.free sf).mem = s.slotframeMemb.mem := free_mem
  have hslotframe : ∀ x, (Tsch.freeSlotframe s sf).slotframe x = s.slotframe x := fun x ↦
    congrFun hmem x
  have hlist : ∀ {x}, x ∈ (Tsch.freeSlotframe s sf).slotframeList ↔
      x ∈ s.slotframeList ∧ x ≠ sf := mem_listRemove hinv.schedule.slotframes_nodup
  have hinstalled : installedLinks (Tsch.freeSlotframe s sf) = installedLinks s := by
    unfold installedLinks
    simp only [hslotframe]
    exact allItems_erase_key hinv.schedule.slotframes_nodup hempty
  have hsame : SameQueues s (Tsch.freeSlotframe s sf) := ⟨id, rfl, rfl, rfl⟩
  obtain ⟨hnodup, hused, hinj, hlinks, hlinkUsed, hhandle⟩ := hinv.schedule
  refine ⟨hinv.idle, ⟨?_, ?_, ?_, ?_, ?_, ?_⟩, hsame.queuesWF hinv.queues, hsame.ebQueue hinv.eb,
    ?_, ?_, hinv.num⟩
  · exact nodup_listRemove hnodup
  · intro x hx
    obtain ⟨hx, hne⟩ := hlist.mp hx
    change (s.slotframeMemb.free sf).count x ≠ 0
    rw [free_count_of_ne hne]
    exact hused x hx
  · intro x hx y hy heq
    rw [hslotframe, hslotframe] at heq
    exact hinj x (hlist.mp hx).1 y (hlist.mp hy).1 heq
  · intro x hx
    rw [hslotframe]
    exact hlinks x (hlist.mp hx).1
  · intro x hx l hl
    rw [hslotframe] at hl
    exact hlinkUsed x (hlist.mp hx).1 l hl
  · intro x hx l hl
    rw [hslotframe] at hl ⊢
    exact hhandle x (hlist.mp hx).1 l hl
  · have hrecords : linkRecords (Tsch.freeSlotframe s sf) = linkRecords s := by
      unfold linkRecords
      rw [hinstalled]
      rfl
    rw [hrecords]
    exact hsame.counted hinv.counted
  · rw [hinstalled]
    exact hinv.advertising

theorem tschScheduleRemoveSlotframe_spec {s : Mac} {sf : ℕ} (hinv : CounterInv s)
    (hsf : sf ∈ s.slotframeList)
    (hremovable : ∀ l ∈ (s.slotframe sf).linksList, removable s l = true) :
    ∃ t, tschScheduleRemoveSlotframe s (some sf) = .ok (true, t) ∧ CounterInv t ∧
      t.slotframeList = s.slotframeList.erase sf ∧
      (∀ x, x ≠ sf → (t.slotframe x).linksList = (s.slotframe x).linksList) ∧
      ∀ j, t.link j = s.link j := by
  obtain ⟨t, hloop, hinv', hlist, hempty, hother, hlink⟩ :=
    removeLinksLoop_spec (s.slotframe sf).linksList s hinv hsf rfl hremovable
  refine ⟨freeSlotframe t sf, tschScheduleRemoveSlotframe_idle hloop hinv'.idle,
    hinv'.freeSlotframe hempty, ?_, fun x hx ↦ ?_, hlink⟩
  · change t.slotframeList.erase sf = _
    rw [hlist]
  · have hmem : (t.slotframeMemb.free sf).mem x = t.slotframe x := congrFun free_mem x
    rw [← hother x hx]
    exact congrArg TschSlotframe.linksList hmem

theorem removeSlotframesLoop_spec (slotframes : List ℕ) :
    ∀ s : Mac, CounterInv s → s.slotframeList = slotframes →
      (∀ l ∈ installedLinks s, removable s l = true) →
      ∃ t, removeSlotframesLoop slotframes.length s = .ok (true, t) ∧ CounterInv t := by
  induction slotframes with
  | nil =>
    intro s hinv hlist _
    refine ⟨s, ?_, hinv⟩
    unfold removeSlotframesLoop
    rw [hlist]
    rfl
  | cons sf slotframes ih =>
    intro s hinv hlist hremovable
    have hsf : sf ∈ s.slotframeList := hlist ▸ mem_cons_self
    obtain ⟨t, hremove, hinv', hlist', hother, hlink⟩ :=
      tschScheduleRemoveSlotframe_spec hinv hsf fun l hl ↦
        hremovable l (mem_installedLinks.mpr ⟨sf, hsf, hl⟩)
    have hrest : t.slotframeList = slotframes := by
      rw [hlist', hlist, erase_cons_head]
    have hnodup : (sf :: slotframes).Nodup := hlist ▸ hinv.schedule.slotframes_nodup
    obtain ⟨u, hloop, hinv''⟩ := ih t hinv' hrest fun l hl ↦ by
      obtain ⟨x, hx, hlx⟩ := mem_installedLinks.mp hl
      have hxs : x ≠ sf := by
        rintro rfl
        rw [hrest] at hx
        exact (nodup_cons.mp hnodup).1 hx
      rw [removable_congr hlink]
      apply hremovable
      rw [hother x hxs] at hlx
      refine mem_installedLinks.mpr ⟨x, ?_, hlx⟩
      rw [hlist, ← hrest]
      exact mem_cons_of_mem _ hx
    refine ⟨u, ?_, hinv''⟩
    rw [length_cons]
    unfold removeSlotframesLoop
    rw [hlist]
    simp only [head?_cons, hremove]
    exact hloop

/-! ## Adding slotframes and links -/

theorem CounterInv.allocSlotframe {s : Mac} (hinv : CounterInv s) {handle : ℕ} (size : ℕ)
    (hfresh : ∀ sf ∈ s.slotframeList, (s.slotframe sf).handle ≠ handle) :
    CounterInv (allocSlotframe s handle size).2 := by
  unfold Tsch.allocSlotframe
  cases halloc : s.slotframeMemb.alloc with
  | none => exact hinv
  | some result =>
    obtain ⟨sf, pool⟩ := result
    obtain ⟨hnew, hused, hstore⟩ := alloc_listAdd halloc hinv.schedule.slotframe_used
    simp only
    generalize ht : ({ s with
      slotframeMemb := pool.store sf { handle := handle, size := size, linksList := [] }
      slotframeList := listAdd s.slotframeList sf } : Mac) = t
    have hself : t.slotframe sf = { handle := handle, size := size, linksList := [] } := by
      rw [← ht]
      exact store_mem_self
    have hold : ∀ x ∈ s.slotframeList, t.slotframe x = s.slotframe x := by
      intro x hx
      rw [← ht]
      exact hstore _ x hx
    have hlist : ∀ x, x ∈ t.slotframeList ↔ x ∈ s.slotframeList ∨ x = sf := by
      intro x
      rw [← ht]
      exact mem_listAdd
    have hlink : t.linkMemb = s.linkMemb := by rw [← ht]
    have hsame : SameQueues s t := by
      rw [← ht]
      exact ⟨id, rfl, rfl, rfl⟩
    have hinstalled : installedLinks t = installedLinks s := by
      have hlistEq : t.slotframeList = s.slotframeList ++ [sf] := by
        rw [← ht]
        exact listAdd_of_notMem hnew
      unfold installedLinks
      rw [hlistEq, allItems_append_key (by rw [hself])]
      exact allItems_congr fun x hx ↦ congrArg TschSlotframe.linksList (hold x hx)
    obtain ⟨hnodup, -, hinj, hlinks, hlinkUsed, hhandle⟩ := hinv.schedule
    refine ⟨hsame.idle hinv.idle, ⟨?_, ht ▸ hused, ?_, ?_, ?_, ?_⟩, hsame.queuesWF hinv.queues,
      hsame.ebQueue hinv.eb, ?_, ?_, ?_⟩
    · rw [← ht]
      exact nodup_listAdd hnodup
    · apply label_inj hlist _ _ hinj
      · exact fun x hx ↦ congrArg TschSlotframe.handle (hold x hx)
      · rw [hself]
        exact hfresh
    · intro x hx
      rcases (hlist x).mp hx with hx | rfl
      · rw [hold x hx]
        exact hlinks x hx
      · rw [hself]
        exact nodup_nil
    · intro x hx l hl
      rw [hlink]
      rcases (hlist x).mp hx with hx | rfl
      · rw [hold x hx] at hl
        exact hlinkUsed x hx l hl
      · rw [hself] at hl
        cases hl
    · intro x hx l hl
      unfold Mac.link
      rw [hlink]
      rcases (hlist x).mp hx with hx | rfl
      · rw [hold x hx] at hl ⊢
        exact hhandle x hx l hl
      · rw [hself] at hl
        cases hl
    · have hrecords : linkRecords t = linkRecords s := by
        unfold linkRecords Mac.link
        rw [hinstalled, hlink]
      rw [hrecords]
      exact hsame.counted hinv.counted
    · intro l hl
      rw [hinstalled] at hl
      unfold Mac.link
      rw [hlink]
      exact hinv.advertising l hl
    · rw [hlink]
      exact hinv.num

theorem tschScheduleAddSlotframe_inv {s t : Mac} {handle size : ℕ} {sf : Option ℕ}
    (hinv : CounterInv s) (hcall : tschScheduleAddSlotframe s handle size = .ok (sf, t)) :
    CounterInv t := by
  by_cases hsize : size = 0
  · unfold tschScheduleAddSlotframe at hcall
    rw [if_pos hsize] at hcall
    cases hcall
    exact hinv
  cases hfound : tschScheduleGetSlotframeByHandle s handle with
  | some x =>
    unfold tschScheduleAddSlotframe at hcall
    rw [if_neg hsize, hfound, if_pos isSome_some] at hcall
    cases hcall
    exact hinv
  | none =>
    have hfresh : ∀ x ∈ s.slotframeList, (s.slotframe x).handle ≠ handle := by
      unfold tschScheduleGetSlotframeByHandle at hfound
      rw [if_neg (by simp [hinv.idle.1]), find?_eq_none] at hfound
      simpa using hfound
    rw [tschScheduleAddSlotframe_idle hinv.idle hsize hfound] at hcall
    have halloc := hinv.allocSlotframe size hfresh
    rwa [Except.ok.inj hcall] at halloc

/-- What appending a link to a slotframe changes in the schedule. -/
structure Linked (s : Mac) (sf i : ℕ) (k : TschLink) (t : Mac) : Prop where
  slotframeList : t.slotframeList = s.slotframeList
  count : t.slotframeMemb.count = s.slotframeMemb.count
  handle : ∀ x, (t.slotframe x).handle = (s.slotframe x).handle
  links_self : (t.slotframe sf).linksList = (s.slotframe sf).linksList ++ [i]
  links_other : ∀ x, x ≠ sf → (t.slotframe x).linksList = (s.slotframe x).linksList
  link_self : t.link i = k
  link_other : ∀ j, j ≠ i → t.link j = s.link j
  linkNum : t.linkMemb.num = s.linkMemb.num
  linkCount : t.linkMemb.count = update s.linkMemb.count i 1

variable {request : LinkRequest}

theorem allocLink_spec {s t : Mac} {sf i : ℕ} (hwf : ScheduleWF s) (hsf : sf ∈ s.slotframeList)
    (halloc : allocLink s sf request = (some i, t)) :
    i < s.linkMemb.num ∧ (∀ x ∈ s.slotframeList, i ∉ (s.slotframe x).linksList) ∧
      Linked s sf i (newLink s sf request) t ∧ SameQueues s t := by
  unfold allocLink at halloc
  cases hpool : s.linkMemb.alloc with
  | none =>
    rw [hpool] at halloc
    cases halloc
  | some result =>
    obtain ⟨j, pool⟩ := result
    obtain ⟨hi, hzero, hnum, hmem, hcount⟩ := alloc_spec hpool
    rw [hpool] at halloc
    obtain ⟨hji, rfl⟩ := Prod.mk.inj halloc
    obtain rfl := some.inj hji
    have hnew : ∀ x ∈ s.slotframeList, j ∉ (s.slotframe x).linksList := fun x hx hjx ↦
      (hwf.link_used x hx j hjx).2 hzero
    have hslotframe : ∀ x, (s.slotframeMemb.store sf
        { s.slotframe sf with linksList := listAdd (s.slotframe sf).linksList j }).mem x =
          if x = sf then { s.slotframe sf with linksList := (s.slotframe sf).linksList ++ [j] }
          else s.slotframe x := by
      intro x
      rw [listAdd_of_notMem (hnew sf hsf), store_mem, update_apply]
    refine ⟨hi, hnew, ⟨rfl, rfl, fun x ↦ ?_, ?_, fun x hx ↦ ?_, store_mem_self,
      fun m hm ↦ ?_, hnum, hcount⟩, ⟨id, rfl, rfl, rfl⟩⟩
    · refine (congrArg TschSlotframe.handle (hslotframe x)).trans ?_
      split
      · next heq => rw [heq]
      · rfl
    · refine (congrArg TschSlotframe.linksList (hslotframe sf)).trans ?_
      rw [if_pos rfl]
    · refine (congrArg TschSlotframe.linksList (hslotframe x)).trans ?_
      rw [if_neg hx]
    · exact (store_mem_of_ne hm).trans (congrFun hmem m)

section Linked

variable {s t : Mac} {sf i : ℕ} {k : TschLink}

section

variable (hlinked : Linked s sf i k t)

include hlinked

theorem Linked.installedLinks_perm (hwf : ScheduleWF s)
    (hsf : sf ∈ s.slotframeList) : (installedLinks t).Perm (i :: installedLinks s) := by
  unfold installedLinks
  rw [hlinked.slotframeList]
  refine allItems_perm hwf.slotframes_nodup hsf ?_ hlinked.links_other
  rw [hlinked.links_self]
  exact perm_append_singleton i _

theorem Linked.linkRecords_perm (hwf : ScheduleWF s)
    (hsf : sf ∈ s.slotframeList) (hfresh : i ∉ installedLinks s) :
    (k :: linkRecords s).Perm (linkRecords t) := by
  have hmap : (linkRecords t).Perm ((i :: installedLinks s).map t.link) :=
    (hlinked.installedLinks_perm hwf hsf).map t.link
  have hcons : (i :: installedLinks s).map t.link = k :: linkRecords s := by
    rw [map_cons, hlinked.link_self, linkRecords]
    congr 1
    apply map_congr_left
    intro j hj
    exact hlinked.link_other j fun heq ↦ hfresh (heq ▸ hj)
  rw [hcons] at hmap
  exact hmap.symm

theorem Linked.mem_links {x j : ℕ} (hj : j ∈ (t.slotframe x).linksList) :
    j ∈ (s.slotframe x).linksList ∨ (x = sf ∧ j = i) := by
  by_cases hx : x = sf
  · rw [hx, hlinked.links_self] at hj
    rcases mem_append.mp hj with hj | hj
    · exact .inl (hx ▸ hj)
    · exact .inr ⟨hx, mem_singleton.mp hj⟩
  · rw [hlinked.links_other x hx] at hj
    exact .inl hj

theorem Linked.scheduleWF (hwf : ScheduleWF s)
    (hsf : sf ∈ s.slotframeList) (hi : i < s.linkMemb.num)
    (hnew : ∀ x ∈ s.slotframeList, i ∉ (s.slotframe x).linksList)
    (hk : k.slotframeHandle = (s.slotframe sf).handle) : ScheduleWF t := by
  obtain ⟨hnodup, hused, hinj, hlinks, hlinkUsed, hhandle⟩ := hwf
  constructor
  · rwa [hlinked.slotframeList]
  · rwa [hlinked.slotframeList, hlinked.count]
  · intro x hx y hy heq
    rw [hlinked.slotframeList] at hx hy
    rw [hlinked.handle, hlinked.handle] at heq
    exact hinj x hx y hy heq
  · intro x hx
    rw [hlinked.slotframeList] at hx
    by_cases hxs : x = sf
    · rw [hxs, hlinked.links_self, ← listAdd_of_notMem (hnew sf hsf)]
      exact nodup_listAdd (hlinks sf hsf)
    · rw [hlinked.links_other x hxs]
      exact hlinks x hx
  · intro x hx j hj
    rw [hlinked.slotframeList] at hx
    rw [hlinked.linkNum, hlinked.linkCount]
    rcases hlinked.mem_links hj with hj | ⟨-, rfl⟩
    · have hne : j ≠ i := fun heq ↦ hnew x hx (heq ▸ hj)
      rw [update_of_ne hne]
      exact hlinkUsed x hx j hj
    · exact ⟨hi, by simp⟩
  · intro x hx j hj
    rw [hlinked.slotframeList] at hx
    rw [hlinked.handle]
    rcases hlinked.mem_links hj with hj | ⟨rfl, rfl⟩
    · rw [hlinked.link_other j fun heq ↦ hnew x hx (heq ▸ hj)]
      exact hhandle x hx j hj
    · rw [hlinked.link_self]
      exact hk

end

end Linked

theorem installLink_inv {s t : Mac} {sf : ℕ} {l : Option ℕ} (hinv : CounterInv s)
    (hsf : sf ∈ s.slotframeList) (havailable : linkOptionTx request.linkOptions = true →
      queueAvailable s (s.slotframe sf).handle = true)
    (hadvertises : AdvertisesOnEb (newLink s sf request))
    (hcall : installLink s sf request = .ok (l, t)) : CounterInv t := by
  unfold installLink at hcall
  rcases halloc : allocLink s sf request with ⟨_ | i, u⟩
  · have hnone : u = s := by
      unfold allocLink at halloc
      split at halloc
      · exact (Prod.mk.inj halloc).2.symm
      · cases halloc
    rw [halloc] at hcall
    cases hcall
    rw [hnone]
    exact hinv
  · obtain ⟨hi, hnew, hlinked, hqueues⟩ := allocLink_spec hinv.schedule hsf halloc
    have hfresh : i ∉ installedLinks s := by
      intro hin
      obtain ⟨x, hx, hix⟩ := mem_installedLinks.mp hin
      exact hnew x hx hix
    have havailable' : linkOptionTx (newLink s sf request).linkOptions = true →
        queueAvailable u (newLink s sf request).slotframeHandle = true := by
      intro htx
      rw [hqueues.queueAvailable hinv.idle]
      exact havailable htx
    obtain ⟨v, hcount, hidle, hqueuesWF, hcounted, hsame⟩ :=
      countTxLink_install (hqueues.idle hinv.idle) (hqueues.queuesWF hinv.queues)
        (hqueues.counted hinv.counted) havailable'
    have hv : v = t := by
      rw [halloc] at hcall
      simp only [hlinked.link_self] at hcall
      change Except.map _ (countTxLink u (newLink s sf request).linkOptions _ 1) = _ at hcall
      rw [hcount] at hcall
      exact (Prod.mk.inj (Except.ok.inj hcall)).2
    subst hv
    refine ⟨hidle, hsame.scheduleWF (hlinked.scheduleWF hinv.schedule hsf hi hnew rfl), hqueuesWF,
      hsame.ebQueue (hqueues.ebQueue hinv.eb), ?_, fun j hj ↦ ?_, ?_⟩
    · rw [hsame.linkRecords]
      exact hcounted.perm (hlinked.linkRecords_perm hinv.schedule hsf hfresh)
    · rw [hsame.installedLinks] at hj
      have hlink : v.link j = u.link j := congrFun (congrArg mem hsame.linkMemb) j
      rw [hlink]
      rcases mem_cons.mp ((hlinked.installedLinks_perm hinv.schedule hsf).subset hj) with
        rfl | hj
      · rw [hlinked.link_self]
        exact hadvertises
      · rw [hlinked.link_other j fun heq ↦ hfresh (heq ▸ hj)]
        exact hinv.advertising j hj
    · rw [hsame.linkMemb, hlinked.linkNum]
      exact hinv.num

end ContikiMaster.Tsch
