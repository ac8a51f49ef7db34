import ContikiMaster.Tsch.ProcessContext
import ContikiMaster.Lib.Buckets

/-!
# The Tx-link counters of the neighbor queues

Every neighbor queue counts the installed Tx links served from it. Installation counts
under the flow address of the slotframe, removal under the address of the link, so the two
agree only for links that carry their own flow address.
-/

namespace ContikiMaster.Tsch

open Sys Lib List Option Memb

def installedLinks (s : Mac) : List ℕ :=
  allItems s.slotframeList fun sf ↦ (s.slotframe sf).linksList

/-- The queue packet selection looks into for a link: the EB queue for advertising links, the
flow queue for all links but the advertising-only ones. -/
def servedFrom (s : Mac) (l n : ℕ) : Bool :=
  (decide ((s.link l).linkType ≠ .normal) && decide (s.nEb = some n)) ||
    (decide ((s.link l).linkType ≠ .advertisingOnly) &&
      decide (tschQueueGetNbr s (flowAddr (s.link l).slotframeHandle) = some n))

def txLinksServed (s : Mac) (n : ℕ) : List ℕ :=
  (installedLinks s).filter fun l ↦ linkOptionTx (s.link l).linkOptions && servedFrom s l n

/-- Those of them without the Shared option. -/
def dedicatedTxLinksServed (s : Mac) (n : ℕ) : List ℕ :=
  (txLinksServed s n).filter fun l ↦ !linkOptionShared (s.link l).linkOptions

/-! ## Counting by address -/

/-- The Tx links among some records whose slotframe handle folds to an address. -/
def linksTo (keep : TschLink → Bool) (records : List TschLink) (addr : Linkaddr) : ℕ :=
  records.countP fun k ↦
    linkOptionTx k.linkOptions && keep k && decide (flowAddr k.slotframeHandle = addr)

def everyLink : TschLink → Bool := fun _ ↦ true

def dedicatedLink : TschLink → Bool := fun k ↦ !linkOptionShared k.linkOptions

section LinksTo

variable {keep : TschLink → Bool} {records records' : List TschLink} {k : TschLink}
  {addr : Linkaddr}

theorem linksTo_perm (hperm : records.Perm records') :
    linksTo keep records addr = linksTo keep records' addr :=
  hperm.countP_eq _

theorem linksTo_cons : linksTo keep (k :: records) addr = linksTo keep records addr +
    if linkOptionTx k.linkOptions && keep k && decide (flowAddr k.slotframeHandle = addr)
      then 1 else 0 := by
  unfold linksTo
  rw [countP_cons]

theorem linksTo_cons_receive (htx : ¬ linkOptionTx k.linkOptions = true) :
    linksTo keep (k :: records) addr = linksTo keep records addr := by
  rw [linksTo_cons]
  simp [htx]

theorem linksTo_cons_of_ne (haddr : flowAddr k.slotframeHandle ≠ addr) :
    linksTo keep (k :: records) addr = linksTo keep records addr := by
  rw [linksTo_cons]
  simp [haddr]

theorem linksTo_cons_self (htx : linkOptionTx k.linkOptions = true) :
    linksTo keep (k :: records) (flowAddr k.slotframeHandle) =
      linksTo keep records (flowAddr k.slotframeHandle) + if keep k then 1 else 0 := by
  rw [linksTo_cons]
  simp [htx]

end LinksTo

theorem linksTo_le_length (keep : TschLink → Bool) (records : List TschLink) (addr : Linkaddr) :
    linksTo keep records addr ≤ records.length :=
  countP_le_length

/-- Well-formed queues: distinct live records with distinct addresses. -/
structure QueuesWF (s : Mac) : Prop where
  nodup : s.neighborList.Nodup
  used : ∀ n ∈ s.neighborList, s.neighborMemb.count n ≠ 0
  addr_inj : ∀ m ∈ s.neighborList, ∀ n ∈ s.neighborList,
    (s.neighbor m).addr = (s.neighbor n).addr → m = n

/-- The counters of every queue agree, modulo the width of a byte, with the Tx links of some
records that fold to its address, and no other address is in use. -/
structure Counted (s : Mac) (records : List TschLink) : Prop where
  total : ∀ n ∈ s.neighborList,
    (s.neighbor n).txLinksCount = linksTo everyLink records (s.neighbor n).addr % 256
  dedicated : ∀ n ∈ s.neighborList,
    (s.neighbor n).dedicatedTxLinksCount = linksTo dedicatedLink records (s.neighbor n).addr % 256
  absent : ∀ addr, (∀ n ∈ s.neighborList, (s.neighbor n).addr ≠ addr) →
    linksTo everyLink records addr = 0 ∧ linksTo dedicatedLink records addr = 0

theorem Counted.perm {s : Mac} {records records' : List TschLink} (hcounted : Counted s records)
    (hperm : records.Perm records') : Counted s records' where
  total n hn := by rw [hcounted.total n hn, linksTo_perm hperm]
  dedicated n hn := by rw [hcounted.dedicated n hn, linksTo_perm hperm]
  absent addr haddr := by
    rw [← linksTo_perm hperm, ← linksTo_perm hperm]
    exact hcounted.absent addr haddr

/-- The parts of the state the schedule owns are the same, and no queue is lost. -/
structure SameSchedule (s t : Mac) : Prop where
  linkMemb : t.linkMemb = s.linkMemb
  slotframeMemb : t.slotframeMemb = s.slotframeMemb
  slotframeList : t.slotframeList = s.slotframeList
  nEb : t.nEb = s.nEb
  queue_kept : ∀ n ∈ s.neighborList,
    n ∈ t.neighborList ∧ (t.neighbor n).addr = (s.neighbor n).addr

theorem SameSchedule.refl (s : Mac) : SameSchedule s s := ⟨rfl, rfl, rfl, rfl, fun _ hn ↦ ⟨hn, rfl⟩⟩

theorem SameSchedule.trans {s t u : Mac} (hst : SameSchedule s t) (htu : SameSchedule t u) :
    SameSchedule s u where
  linkMemb := htu.linkMemb.trans hst.linkMemb
  slotframeMemb := htu.slotframeMemb.trans hst.slotframeMemb
  slotframeList := htu.slotframeList.trans hst.slotframeList
  nEb := htu.nEb.trans hst.nEb
  queue_kept n hn := by
    obtain ⟨hnt, haddr⟩ := hst.queue_kept n hn
    obtain ⟨hnu, haddr'⟩ := htu.queue_kept n hnt
    exact ⟨hnu, haddr'.trans haddr⟩

section Queues

variable {s : Mac} {records : List TschLink} {k : TschLink} {n : ℕ}

theorem tschQueueGetNbr_eq_some_iff (hs : Idle s) (hqueues : QueuesWF s) {addr : Linkaddr} :
    tschQueueGetNbr s addr = some n ↔ n ∈ s.neighborList ∧ (s.neighbor n).addr = addr := by
  rw [tschQueueGetNbr_idle hs]
  constructor
  · intro hfound
    exact ⟨mem_of_find?_eq_some hfound, by simpa using find?_some hfound⟩
  · rintro ⟨hmem, haddr⟩
    have hsome : (s.neighborList.find? fun m ↦ decide ((s.neighbor m).addr = addr)).isSome := by
      rw [find?_isSome]
      exact ⟨n, hmem, by simpa using haddr⟩
    obtain ⟨m, hm⟩ := isSome_iff_exists.mp hsome
    have hmaddr : (s.neighbor m).addr = addr := by simpa using find?_some hm
    rw [hm, hqueues.addr_inj m (mem_of_find?_eq_some hm) n hmem (hmaddr.trans haddr.symm)]

theorem tschQueueGetNbr_eq_none_iff (hs : Idle s) {addr : Linkaddr} :
    tschQueueGetNbr s addr = none ↔ ∀ n ∈ s.neighborList, (s.neighbor n).addr ≠ addr := by
  rw [tschQueueGetNbr_idle hs, find?_eq_none]
  simp

variable {v : TschNeighbor}

theorem setNeighbor_addr (haddr : v.addr = (s.neighbor n).addr) (m : ℕ) :
    ((s.setNeighbor n v).neighbor m).addr = (s.neighbor m).addr := by
  by_cases hm : m = n
  · subst hm
    exact (congrArg TschNeighbor.addr store_mem_self).trans haddr
  · exact congrArg TschNeighbor.addr (store_mem_of_ne hm)

theorem QueuesWF.setNeighbor (hqueues : QueuesWF s) (haddr : v.addr = (s.neighbor n).addr) :
    QueuesWF (s.setNeighbor n v) := by
  refine ⟨hqueues.nodup, hqueues.used, fun m hm k hk heq ↦ ?_⟩
  rw [setNeighbor_addr haddr, setNeighbor_addr haddr] at heq
  exact hqueues.addr_inj m hm k hk heq

theorem sameSchedule_setNeighbor (haddr : v.addr = (s.neighbor n).addr) :
    SameSchedule s (s.setNeighbor n v) :=
  ⟨rfl, rfl, rfl, rfl, fun m hm ↦ ⟨hm, setNeighbor_addr haddr m⟩⟩

theorem Counted.adjust {records' : List TschLink} {delta : ℕ} (hqueues : QueuesWF s)
    (hn : n ∈ s.neighborList)
    (haddr : (s.neighbor n).addr = flowAddr k.slotframeHandle) (hcounted : Counted s records)
    (hself : ∀ keep : TschLink → Bool, linksTo keep records' (flowAddr k.slotframeHandle) % 256 =
      (linksTo keep records (flowAddr k.slotframeHandle) % 256 + if keep k then delta else 0) % 256)
    (hother : ∀ (keep : TschLink → Bool) (addr : Linkaddr), flowAddr k.slotframeHandle ≠ addr →
      linksTo keep records' addr = linksTo keep records addr) :
    Counted (s.setNeighbor n (adjustTxLinks k.linkOptions delta (s.neighbor n))) records' := by
  have hnew : (s.setNeighbor n (adjustTxLinks k.linkOptions delta (s.neighbor n))).neighbor n =
      adjustTxLinks k.linkOptions delta (s.neighbor n) := store_mem_self
  have hold : ∀ m, m ≠ n →
      (s.setNeighbor n (adjustTxLinks k.linkOptions delta (s.neighbor n))).neighbor m =
        s.neighbor m := fun m hm ↦ store_mem_of_ne hm
  have hdistinct : ∀ m ∈ s.neighborList, m ≠ n →
      flowAddr k.slotframeHandle ≠ (s.neighbor m).addr := by
    intro m hm hne heq
    exact hne (hqueues.addr_inj m hm n hn (heq.symm.trans haddr.symm))
  constructor
  · intro m hm
    by_cases hmn : m = n
    · rw [hmn, hnew]
      simp only [adjustTxLinks]
      rw [hcounted.total n hn, haddr, hself everyLink]
      simp [everyLink]
    · rw [hold m hmn, hcounted.total m hm, hother _ _ (hdistinct m hm hmn)]
  · intro m hm
    by_cases hmn : m = n
    · rw [hmn, hnew]
      simp only [adjustTxLinks]
      rw [hcounted.dedicated n hn, haddr, hself dedicatedLink]
      unfold dedicatedLink
      cases linkOptionShared k.linkOptions <;> simp
    · rw [hold m hmn, hcounted.dedicated m hm, hother _ _ (hdistinct m hm hmn)]
  · intro addr hno
    have hne : flowAddr k.slotframeHandle ≠ addr := by
      intro heq
      apply hno n hn
      rw [hnew]
      exact haddr.trans heq
    rw [hother _ _ hne, hother _ _ hne]
    apply hcounted.absent
    intro m hm
    by_cases hmn : m = n
    · rw [hmn, haddr]
      exact hne
    · rw [← hold m hmn]
      exact hno m hm

theorem counted_allocNeighbor {t : Mac} {addr : Linkaddr} (hqueues : QueuesWF s)
    (hcounted : Counted s records) (hnone : ∀ m ∈ s.neighborList, (s.neighbor m).addr ≠ addr)
    (halloc : allocNeighbor s addr = (some n, t)) :
    QueuesWF t ∧ Counted t records ∧ SameSchedule s t ∧ n ∈ t.neighborList ∧
      (t.neighbor n).addr = addr := by
  unfold allocNeighbor at halloc
  cases hpool : s.neighborMemb.alloc with
  | none =>
    rw [hpool] at halloc
    cases halloc
  | some result =>
    obtain ⟨i, pool⟩ := result
    rw [hpool] at halloc
    obtain ⟨hi, ht⟩ := Prod.mk.inj halloc
    obtain rfl := some.inj hi
    subst ht
    obtain ⟨hfresh, hused, hstore⟩ := alloc_listAdd hpool hqueues.used
    have hself : (pool.store i (newNeighbor addr)).mem i = newNeighbor addr := store_mem_self
    have hold := hstore (newNeighbor addr)
    have hsplit : ∀ m, m ∈ listAdd s.neighborList i ↔ m ∈ s.neighborList ∨ m = i := fun m ↦
      mem_listAdd
    refine ⟨⟨nodup_listAdd hqueues.nodup, hused, ?_⟩, ⟨?_, ?_, ?_⟩,
      ⟨rfl, rfl, rfl, rfl, ?_⟩, ?_, ?_⟩
    · apply label_inj hsplit _ _ hqueues.addr_inj
      · exact fun m hm ↦ congrArg TschNeighbor.addr (hold m hm)
      · exact fun m hm ↦ (hnone m hm).trans_eq (congrArg TschNeighbor.addr hself).symm
    · intro m hm
      change ((pool.store i (newNeighbor addr)).mem m).txLinksCount =
        linksTo everyLink records ((pool.store i (newNeighbor addr)).mem m).addr % 256
      rcases (hsplit m).mp hm with hm | rfl
      · rw [hold m hm]
        exact hcounted.total m hm
      · rw [hself]
        exact (congrArg (· % 256) (hcounted.absent addr hnone).1).symm
    · intro m hm
      change ((pool.store i (newNeighbor addr)).mem m).dedicatedTxLinksCount =
        linksTo dedicatedLink records ((pool.store i (newNeighbor addr)).mem m).addr % 256
      rcases (hsplit m).mp hm with hm | rfl
      · rw [hold m hm]
        exact hcounted.dedicated m hm
      · rw [hself]
        exact (congrArg (· % 256) (hcounted.absent addr hnone).2).symm
    · intro a ha
      apply hcounted.absent
      intro m hm
      have hm' := ha m ((hsplit m).mpr (.inl hm))
      change ((pool.store i (newNeighbor addr)).mem m).addr ≠ a at hm'
      rwa [hold m hm] at hm'
    · intro m hm
      exact ⟨(hsplit m).mpr (.inl hm), congrArg TschNeighbor.addr (hold m hm)⟩
    · exact (hsplit i).mpr (.inr rfl)
    · exact congrArg TschNeighbor.addr hself

/-- There is a queue for a flow address, or memory for one. -/
def queueAvailable (s : Mac) (handle : ℕ) : Bool :=
  (tschQueueGetNbr s (flowAddr handle)).isSome || s.neighborMemb.firstFree.isSome

theorem countTxLink_install (hs : Idle s) (hqueues : QueuesWF s) (hcounted : Counted s records)
    (havailable : linkOptionTx k.linkOptions = true → queueAvailable s k.slotframeHandle = true) :
    ∃ t, countTxLink s k.linkOptions (flowAddr k.slotframeHandle) 1 = .ok t ∧ Idle t ∧
      QueuesWF t ∧ Counted t (k :: records) ∧ SameSchedule s t := by
  by_cases htx : linkOptionTx k.linkOptions = true
  · have hself : ∀ keep : TschLink → Bool,
        linksTo keep (k :: records) (flowAddr k.slotframeHandle) % 256 =
          (linksTo keep records (flowAddr k.slotframeHandle) % 256 +
            if keep k then 1 else 0) % 256 := by
      intro keep
      rw [linksTo_cons_self htx]
      omega
    have hother : ∀ (keep : TschLink → Bool) (addr : Linkaddr), flowAddr k.slotframeHandle ≠ addr →
        linksTo keep (k :: records) addr = linksTo keep records addr :=
      fun keep addr hne ↦ linksTo_cons_of_ne hne
    cases hnbr : tschQueueGetNbr s (flowAddr k.slotframeHandle) with
    | some n =>
      obtain ⟨hn, haddr⟩ := (tschQueueGetNbr_eq_some_iff hs hqueues).mp hnbr
      exact ⟨_, countTxLink_found hs htx hnbr, hs, hqueues.setNeighbor rfl,
        hcounted.adjust hqueues hn haddr hself hother, sameSchedule_setNeighbor rfl⟩
    | none =>
      have hfree : s.neighborMemb.firstFree.isSome = true := by
        simpa [queueAvailable, hnbr] using havailable htx
      obtain ⟨n, t, halloc⟩ : ∃ n t, allocNeighbor s (flowAddr k.slotframeHandle) = (some n, t) := by
        obtain ⟨i, hi⟩ := isSome_iff_exists.mp hfree
        unfold allocNeighbor alloc
        rw [hi]
        exact ⟨_, _, rfl⟩
      have hnone := (tschQueueGetNbr_eq_none_iff hs).mp hnbr
      obtain ⟨hqueues', hcounted', hsame, hn, haddr⟩ :=
        counted_allocNeighbor hqueues hcounted hnone halloc
      have hidle : Idle t := by
        have hidle := idle_allocNeighbor hs (flowAddr k.slotframeHandle)
        rwa [halloc] at hidle
      exact ⟨_, countTxLink_created hs htx hnbr halloc, hidle, hqueues'.setNeighbor rfl,
        hcounted'.adjust hqueues' hn haddr hself hother,
        hsame.trans (sameSchedule_setNeighbor rfl)⟩
  · refine ⟨s, countTxLink_skipped htx, hs, hqueues, ?_, SameSchedule.refl s⟩
    constructor
    · intro n hn
      rw [linksTo_cons_receive htx]
      exact hcounted.total n hn
    · intro n hn
      rw [linksTo_cons_receive htx]
      exact hcounted.dedicated n hn
    · intro addr hno
      rw [linksTo_cons_receive htx, linksTo_cons_receive htx]
      exact hcounted.absent addr hno

theorem queueAvailable_setNeighbor (haddr : v.addr = (s.neighbor n).addr) (handle : ℕ) :
    queueAvailable (s.setNeighbor n v) handle = queueAvailable s handle := by
  unfold queueAvailable tschQueueGetNbr
  simp only [setNeighbor_addr haddr]
  rfl

theorem countTxLink_remove (hs : Idle s) (hqueues : QueuesWF s)
    (hcounted : Counted s (k :: records))
    (haddr : linkOptionTx k.linkOptions = true → k.addr = flowAddr k.slotframeHandle) :
    ∃ t, countTxLink s k.linkOptions k.addr 255 = .ok t ∧ Idle t ∧
      QueuesWF t ∧ Counted t records ∧ SameSchedule s t ∧
      ∀ handle, queueAvailable t handle = queueAvailable s handle := by
  by_cases htx : linkOptionTx k.linkOptions = true
  · rw [haddr htx]
    have hpositive : linksTo everyLink (k :: records) (flowAddr k.slotframeHandle) ≠ 0 := by
      rw [linksTo_cons_self htx]
      simp [everyLink]
    obtain ⟨n, hnbr⟩ : ∃ n, tschQueueGetNbr s (flowAddr k.slotframeHandle) = some n := by
      rw [← ne_none_iff_exists']
      intro hnone
      exact hpositive (hcounted.absent _ ((tschQueueGetNbr_eq_none_iff hs).mp hnone)).1
    obtain ⟨hn, hnaddr⟩ := (tschQueueGetNbr_eq_some_iff hs hqueues).mp hnbr
    refine ⟨_, countTxLink_found hs htx hnbr, hs, hqueues.setNeighbor rfl, ?_,
      sameSchedule_setNeighbor rfl, queueAvailable_setNeighbor rfl⟩
    refine hcounted.adjust hqueues hn hnaddr (fun keep ↦ ?_) fun keep addr hne ↦
      (linksTo_cons_of_ne hne).symm
    rw [linksTo_cons_self htx]
    split <;> omega
  · refine ⟨s, countTxLink_skipped htx, hs, hqueues, ?_, SameSchedule.refl s, fun _ ↦ rfl⟩
    constructor
    · intro n hn
      rw [hcounted.total n hn, linksTo_cons_receive htx]
    · intro n hn
      rw [hcounted.dedicated n hn, linksTo_cons_receive htx]
    · intro addr hno
      have habsent := hcounted.absent addr hno
      rwa [linksTo_cons_receive htx, linksTo_cons_receive htx] at habsent

end Queues

end ContikiMaster.Tsch
