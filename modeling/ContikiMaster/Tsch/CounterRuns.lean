import ContikiMaster.Tsch.ScheduleCounters

/-!
# Exact counters over runs of schedule calls

While every call meets the condition below, each queue counts exactly the Tx links served
from it. The last section runs the calls the routing layer makes at start-up, where a link
counted in the EB queue is removed under the broadcast address.
-/

namespace ContikiMaster.Tsch

open Sys Lib Function List Option

/-- The calls under which the counters stay exact: live pointers; a Tx link that is removed or
replaced carries the flow address of its slotframe; a Tx advertising link is added only to a
slotframe whose handle folds to zero; a Tx link finds its queue or memory for one. -/
def countersMeet (s : Mac) : MacOp → Bool
  | .addSlotframe _ _ => true
  | .removeSlotframe none => true
  | .removeSlotframe (some sf) =>
    decide (sf ∈ s.slotframeList) && (s.slotframe sf).linksList.all (removable s)
  | .removeAllSlotframes => (installedLinks s).all (removable s)
  | .addLink none _ => true
  | .addLink (some sf) request =>
    decide (sf ∈ s.slotframeList) &&
      (tschScheduleGetLinkByTimeslot s sf request.timeslot).all (removable s) &&
      (!linkOptionTx request.linkOptions ||
        ((decide (request.linkType = .normal) || (s.slotframe sf).handle % 256 == 0) &&
          queueAvailable s (s.slotframe sf).handle))
  | .removeLink slotframe link =>
    slotframe.all (fun sf ↦ decide (sf ∈ s.slotframeList)) &&
      link.all fun l ↦ decide (l ∈ installedLinks s) && removable s l
  | _ => false

/-- A schedule call whose condition is met. -/
def Mac.nextCounted (s : Mac) (op : MacOp) : Option Mac :=
  if countersMeet s op then s.next op else none

/-- Runs of schedule calls that all meet the condition. -/
abbrev CountedRun := InitRun Mac.nextCounted

theorem removeLink_inv {s t : Mac} {sf l : ℕ} {removed : Bool} (hinv : CounterInv s)
    (hsf : sf ∈ s.slotframeList) (hl : l ∈ installedLinks s) (hremovable : removable s l = true)
    (hcall : tschScheduleRemoveLink s (some sf) (some l) = .ok (removed, t)) : CounterInv t := by
  obtain ⟨x, hx, hlx⟩ := mem_installedLinks.mp hl
  by_cases hhandle : (s.link l).slotframeHandle = (s.slotframe sf).handle
  · have hxs : x = sf := hinv.schedule.handle_inj x hx sf hsf
      ((hinv.schedule.link_handle x hx l hlx).symm.trans hhandle)
    subst hxs
    obtain ⟨u, hremove, hinv', -⟩ := tschScheduleRemoveLink_spec hinv hsf hlx hremovable
    rw [hremove] at hcall
    obtain ⟨-, rfl⟩ := Prod.mk.inj (Except.ok.inj hcall)
    exact hinv'
  · rw [tschScheduleRemoveLink_mismatch hhandle] at hcall
    obtain ⟨-, rfl⟩ := Prod.mk.inj (Except.ok.inj hcall)
    exact hinv

theorem addLink_inv {s t : Mac} {sf : ℕ} {request : LinkRequest} {l : Option ℕ}
    (hinv : CounterInv s) (hmeets : countersMeet s (.addLink (some sf) request) = true)
    (hcall : tschScheduleAddLink s (some sf) request = .ok (l, t)) : CounterInv t := by
  simp only [countersMeet, Bool.and_eq_true, decide_eq_true_eq] at hmeets
  obtain ⟨⟨hsf, hreplaced⟩, htx⟩ := hmeets
  by_cases hslot : request.timeslot < (s.slotframe sf).size
  swap
  · unfold tschScheduleAddLink at hcall
    simp only [if_pos (Nat.le_of_not_lt hslot)] at hcall
    obtain ⟨-, rfl⟩ := Prod.mk.inj (Except.ok.inj hcall)
    exact hinv
  by_cases hchannel : request.channelOffset ≤ 15
  swap
  · unfold tschScheduleAddLink at hcall
    simp only [if_neg (Nat.not_le.mpr hslot), if_pos (Nat.lt_of_not_le hchannel)] at hcall
    obtain ⟨-, rfl⟩ := Prod.mk.inj (Except.ok.inj hcall)
    exact hinv
  -- the link that occupies the timeslot goes first
  obtain ⟨removed, u, hremove, hinv', hsf', hhandle, havailable⟩ : ∃ removed u,
      tschScheduleRemoveLinkByTimeslot s sf request.timeslot = .ok (removed, u) ∧ CounterInv u ∧
        sf ∈ u.slotframeList ∧ (u.slotframe sf).handle = (s.slotframe sf).handle ∧
        ∀ handle, queueAvailable u handle = queueAvailable s handle := by
    unfold tschScheduleRemoveLinkByTimeslot
    cases hfound : tschScheduleGetLinkByTimeslot s sf request.timeslot with
    | none => exact ⟨false, s, rfl, hinv, hsf, rfl, fun _ ↦ rfl⟩
    | some j =>
      have hj : j ∈ (s.slotframe sf).linksList := by
        rw [tschScheduleGetLinkByTimeslot_idle hinv.idle] at hfound
        exact mem_of_find?_eq_some hfound
      rw [hfound] at hreplaced
      obtain ⟨u, hremove, hinv', hunlinked, havailable⟩ :=
        tschScheduleRemoveLink_spec hinv hsf hj hreplaced
      exact ⟨true, u, hremove, hinv', hunlinked.slotframeList ▸ hsf, hunlinked.handle sf,
        havailable⟩
  rw [tschScheduleAddLink_idle hslot hchannel hremove hinv'.idle] at hcall
  refine installLink_inv hinv' hsf' (fun hoption ↦ ?_) (fun hoption htype ↦ ?_) hcall
  · simp only [hoption, Bool.not_true, Bool.false_or, Bool.and_eq_true] at htx
    rw [havailable, hhandle]
    exact htx.2
  · have hoption' : linkOptionTx request.linkOptions = true := hoption
    have htype' : request.linkType ≠ .normal := htype
    simp only [hoption', Bool.not_true, Bool.false_or, Bool.and_eq_true, Bool.or_eq_true,
      decide_eq_true_eq, htype', false_or, beq_iff_eq] at htx
    change (u.slotframe sf).handle % 256 = 0
    rw [hhandle]
    exact htx.1

theorem counterInv_step (s : Mac) (op : MacOp) (t : Mac) (hinv : CounterInv s)
    (hstep : StepOf Mac.nextCounted s op t) : CounterInv t := by
  unfold StepOf Mac.nextCounted at hstep
  split at hstep
  swap
  · cases hstep
  rename_i hmeets
  obtain ⟨frame, hcall⟩ := call_of_next hstep
  cases op with
  | addSlotframe handle size =>
    obtain ⟨⟨sf, u⟩, hadd, hrest⟩ := bind_eq_ok hcall
    obtain ⟨-, rfl⟩ := Prod.mk.inj (Except.ok.inj hrest)
    exact tschScheduleAddSlotframe_inv hinv hadd
  | removeSlotframe slotframe =>
    cases slotframe with
    | none =>
      obtain ⟨-, rfl⟩ := Prod.mk.inj (Except.ok.inj hcall)
      exact hinv
    | some sf =>
      simp only [countersMeet, Bool.and_eq_true, decide_eq_true_eq, List.all_eq_true] at hmeets
      obtain ⟨u, hremove, hinv', -⟩ := tschScheduleRemoveSlotframe_spec hinv hmeets.1 hmeets.2
      simp only [Mac.call, hremove] at hcall
      obtain ⟨-, rfl⟩ := Prod.mk.inj (Except.ok.inj hcall)
      exact hinv'
  | removeAllSlotframes =>
    simp only [countersMeet, List.all_eq_true] at hmeets
    obtain ⟨u, hremove, hinv'⟩ := removeSlotframesLoop_spec s.slotframeList s hinv rfl hmeets
    simp only [Mac.call, tschScheduleRemoveAllSlotframes, hremove] at hcall
    obtain ⟨-, rfl⟩ := Prod.mk.inj (Except.ok.inj hcall)
    exact hinv'
  | addLink slotframe request =>
    obtain ⟨⟨l, u⟩, hadd, hrest⟩ := bind_eq_ok hcall
    obtain ⟨-, rfl⟩ := Prod.mk.inj (Except.ok.inj hrest)
    cases slotframe with
    | none =>
      obtain ⟨-, rfl⟩ := Prod.mk.inj (Except.ok.inj hadd)
      exact hinv
    | some sf => exact addLink_inv hinv hmeets hadd
  | removeLink slotframe link =>
    obtain ⟨⟨removed, u⟩, hremove, hrest⟩ := bind_eq_ok hcall
    obtain ⟨-, rfl⟩ := Prod.mk.inj (Except.ok.inj hrest)
    cases slotframe with
    | none =>
      obtain ⟨-, rfl⟩ := Prod.mk.inj (Except.ok.inj hremove)
      exact hinv
    | some sf =>
      cases link with
      | none =>
        obtain ⟨-, rfl⟩ := Prod.mk.inj (Except.ok.inj hremove)
        exact hinv
      | some l =>
        simp only [countersMeet, Option.all_some, Bool.and_eq_true, decide_eq_true_eq] at hmeets
        exact removeLink_inv hinv hmeets.1 hmeets.2.1 hmeets.2.2 hremove
  | _ => cases hmeets

theorem tschQueueAddNbr_created {s : Mac} (addr : Linkaddr) {records : List TschLink} {p : ℕ}
    (hs : Idle s) (hqueues : QueuesWF s) (hcounted : Counted s records)
    (hnone : ∀ n ∈ s.neighborList, (s.neighbor n).addr ≠ addr)
    (hp : p < s.neighborMemb.num) (hzero : s.neighborMemb.count p = 0) :
    ∃ n t, tschQueueAddNbr s addr = .ok (some n, t) ∧ Idle t ∧ QueuesWF t ∧ Counted t records ∧
      n ∈ t.neighborList ∧ (t.neighbor n).addr = addr ∧ SameSchedule s t ∧
      (∀ m ∈ t.neighborList, m ∈ s.neighborList ∨ m = n) ∧ t.neighborMemb.num = s.neighborMemb.num ∧
      ∀ m, m ≠ n → t.neighborMemb.count m = s.neighborMemb.count m := by
  obtain ⟨⟨n, pool⟩, halloc⟩ := isSome_iff_exists.mp (Memb.alloc_isSome hp hzero)
  obtain ⟨-, -, hnum, -, hcount⟩ := Memb.alloc_spec halloc
  have hcall : allocNeighbor s addr = (some n, { s with
      neighborMemb := pool.store n (newNeighbor addr)
      neighborList := listAdd s.neighborList n }) := by
    unfold allocNeighbor
    rw [halloc]
  obtain ⟨hqueues', hcounted', hsame, hmem, haddr⟩ :=
    counted_allocNeighbor hqueues hcounted hnone hcall
  have hadd : tschQueueAddNbr s addr = .ok (allocNeighbor s addr) := by
    rw [tschQueueAddNbr_idle hs, (tschQueueGetNbr_eq_none_iff hs).mpr hnone]
  rw [hcall] at hadd
  refine ⟨n, _, hadd, hs, hqueues', hcounted', hmem, haddr, hsame, fun m hm ↦ mem_listAdd.mp hm,
    hnum, fun m hm ↦ ?_⟩
  change pool.count m = _
  rw [hcount, update_of_ne hm]

theorem counterInv_tschInit {config : MacConfig} {s : Mac} (hlinks : config.maxLinks ≤ 255)
    (hqueues : 2 ≤ config.maxNeighborQueues) (hinit : tschInit config = .ok s) : CounterInv s := by
  have hidle : Idle (Mac.zero config) := ⟨rfl, rfl⟩
  have hwf : QueuesWF (Mac.zero config) := by
    refine ⟨nodup_nil, fun n hn ↦ ?_, fun n hn ↦ ?_⟩
    · cases hn
    · cases hn
  have hcounted : Counted (Mac.zero config) [] := by
    refine ⟨fun n hn ↦ ?_, fun n hn ↦ ?_, fun _ _ ↦ ⟨rfl, rfl⟩⟩
    · cases hn
    · cases hn
  have hnum : (Mac.zero config).neighborMemb.num = config.maxNeighborQueues := rfl
  -- the EB queue
  obtain ⟨e, s₁, heb, hidle₁, hwf₁, hcounted₁, hmem₁, haddr₁, hsame₁, honly₁, hnum₁, hcount₁⟩ :=
    tschQueueAddNbr_created tschEbAddress (p := 0) hidle hwf hcounted
      (fun n hn ↦ (by cases hn)) (by omega) rfl
  have hwf₁' : QueuesWF { s₁ with nEb := some e } := ⟨hwf₁.nodup, hwf₁.used, hwf₁.addr_inj⟩
  have hcounted₁' : Counted { s₁ with nEb := some e } [] :=
    ⟨hcounted₁.total, hcounted₁.dedicated, hcounted₁.absent⟩
  -- the broadcast queue
  have hnone : ∀ n ∈ s₁.neighborList, (s₁.neighbor n).addr ≠ tschBroadcastAddress := by
    intro n hn
    rcases honly₁ n hn with hn | rfl
    · cases hn
    · rw [haddr₁, ← flowAddr_eq_ebAddress_iff.mpr (Nat.zero_mod 256)]
      exact flowAddr_ne_broadcastAddress 0
  obtain ⟨p, hp, hpe⟩ : ∃ p, p < config.maxNeighborQueues ∧ p ≠ e := by
    by_cases he : e = 0
    · exact ⟨1, by omega, by omega⟩
    · exact ⟨0, by omega, by omega⟩
  obtain ⟨b, s₂, hbroadcast, hidle₂, hwf₂, hcounted₂, -, -, hsame₂, -⟩ :=
    tschQueueAddNbr_created (s := { s₁ with nEb := some e }) tschBroadcastAddress
      (p := p) hidle₁ hwf₁' hcounted₁' hnone
      (show p < s₁.neighborMemb.num by omega) ((hcount₁ p hpe).trans rfl)
  have hqueueInit : tschQueueInit (Mac.zero config) = .ok { s₂ with nBroadcast := some b } := by
    change (tschQueueAddNbr (Mac.zero config) tschEbAddress >>= _) = _
    rw [heb]
    change (tschQueueAddNbr { s₁ with nEb := some e } tschBroadcastAddress >>= _) = _
    rw [hbroadcast]
    rfl
  generalize hfinal : ({ s₂ with
    tschLocked := false
    nBroadcast := some b
    linkMemb := Memb.init s₂.linkMemb.num TschLink.zero
    slotframeMemb := Memb.init s₂.slotframeMemb.num TschSlotframe.zero
    slotframeList := [] } : Mac) = final
  have hscheduleInit : tschScheduleInit { s₂ with nBroadcast := some b } = .ok (true, final) := by
    unfold tschScheduleInit
    rw [tschGetLock_idle (show Idle { s₂ with nBroadcast := some b } from hidle₂), ← hfinal]
    rfl
  have htschInit : tschInit config = .ok final := by
    unfold tschInit
    rw [hqueueInit]
    change (tschScheduleInit { s₂ with nBroadcast := some b } >>= _) = _
    rw [hscheduleInit]
    rfl
  obtain rfl : final = s := Except.ok.inj (htschInit.symm.trans hinit)
  have hlist : final.slotframeList = [] := by rw [← hfinal]
  have hinstalled : installedLinks final = [] := by
    unfold installedLinks
    rw [hlist]
    rfl
  have hsame : SameSchedule { s₁ with nEb := some e } s₂ := hsame₂
  have hnumLinks : final.linkMemb.num = config.maxLinks := by
    have hnum₂ : s₂.linkMemb = s₁.linkMemb := hsame.linkMemb
    rw [← hfinal]
    change s₂.linkMemb.num = _
    rw [hnum₂, hsame₁.linkMemb]
    rfl
  have hqueuesSame : SameQueues s₂ final := by
    rw [← hfinal]
    exact ⟨fun hs ↦ ⟨rfl, hs.2⟩, rfl, rfl, rfl⟩
  refine ⟨hqueuesSame.idle hidle₂, ?_, hqueuesSame.queuesWF hwf₂,
    hqueuesSame.ebQueue (hsame.ebQueue ⟨e, hmem₁, rfl, haddr₁⟩), ?_, ?_, ?_⟩
  · constructor
    · rw [hlist]
      exact nodup_nil
    all_goals
      intro x hx
      rw [hlist] at hx
      cases hx
  · have hrecords : linkRecords final = [] := by
      unfold linkRecords
      rw [hinstalled]
      rfl
    rw [hrecords]
    exact hqueuesSame.counted hcounted₂
  · intro l hl
    rw [hinstalled] at hl
    cases hl
  · rw [hnumLinks]
    exact hlinks

section

variable {s : Mac} (hinv : CounterInv s)

include hinv

theorem CounterInv.length_installedLinks : (installedLinks s).length ≤ 255 := by
  have hnodup : (installedLinks s).Nodup := by
    refine nodup_allItems hinv.schedule.slotframes_nodup hinv.schedule.links_nodup ?_
    intro x hx y hy l hlx hly
    exact hinv.schedule.handle_inj x hx y hy ((hinv.schedule.link_handle x hx l hlx).symm.trans
      (hinv.schedule.link_handle y hy l hly))
  have hsub : installedLinks s ⊆ range s.linkMemb.num := by
    intro l hl
    obtain ⟨x, hx, hlx⟩ := mem_installedLinks.mp hl
    exact mem_range.mpr (hinv.schedule.link_used x hx l hlx).1
  have hle := (subperm_of_subset hnodup hsub).length_le
  rw [length_range] at hle
  exact hle.trans hinv.num

theorem CounterInv.servedFrom_iff {l n : ℕ} (hl : l ∈ installedLinks s) (hn : n ∈ s.neighborList)
    (htx : linkOptionTx (s.link l).linkOptions = true) :
    servedFrom s l n = decide (flowAddr (s.link l).slotframeHandle = (s.neighbor n).addr) := by
  obtain ⟨e, he, heb, haddrEb⟩ := hinv.eb
  have hflow : tschQueueGetNbr s (flowAddr (s.link l).slotframeHandle) = some n ↔
      flowAddr (s.link l).slotframeHandle = (s.neighbor n).addr := by
    rw [tschQueueGetNbr_eq_some_iff hinv.idle hinv.queues]
    exact ⟨fun h ↦ h.2.symm, fun h ↦ ⟨hn, h.symm⟩⟩
  have hebQueue : s.nEb = some n ↔ (s.neighbor n).addr = tschEbAddress := by
    rw [heb]
    constructor
    · intro heq
      rw [← some.inj heq]
      exact haddrEb
    · intro haddr
      rw [hinv.queues.addr_inj e he n hn (haddrEb.trans haddr.symm)]
  unfold servedFrom
  rw [Bool.eq_iff_iff]
  simp only [Bool.or_eq_true, Bool.and_eq_true, decide_eq_true_eq, hflow, hebQueue]
  cases htype : (s.link l).linkType with
  | normal => simp
  | advertising =>
    have hzero := flowAddr_eq_ebAddress_iff.mpr (hinv.advertising l hl htx (by rw [htype]; simp))
    rw [hzero]
    simp [eq_comm]
  | advertisingOnly =>
    have hzero := flowAddr_eq_ebAddress_iff.mpr (hinv.advertising l hl htx (by rw [htype]; simp))
    rw [hzero]
    simp [eq_comm]

theorem CounterInv.length_txLinksServed {n : ℕ} (hn : n ∈ s.neighborList) :
    (txLinksServed s n).length = linksTo everyLink (linkRecords s) (s.neighbor n).addr := by
  unfold txLinksServed linksTo linkRecords
  rw [← countP_eq_length_filter, countP_map]
  refine countP_congr fun l hl ↦ ?_
  simp only [comp_apply, everyLink, Bool.and_true]
  by_cases htx : linkOptionTx (s.link l).linkOptions = true
  · rw [hinv.servedFrom_iff hl hn htx]
  · simp [htx]

theorem CounterInv.length_dedicatedTxLinksServed {n : ℕ} (hn : n ∈ s.neighborList) :
    (dedicatedTxLinksServed s n).length =
      linksTo dedicatedLink (linkRecords s) (s.neighbor n).addr := by
  unfold dedicatedTxLinksServed txLinksServed linksTo linkRecords
  rw [List.filter_filter, ← List.countP_eq_length_filter, List.countP_map]
  refine List.countP_congr fun l hl ↦ ?_
  simp only [comp_apply, dedicatedLink]
  by_cases htx : linkOptionTx (s.link l).linkOptions = true
  · rw [hinv.servedFrom_iff hl hn htx]
    simp [htx]
  · simp [htx]

end

/-- The counters of every queue equal the numbers of installed Tx links, and of dedicated ones,
that are served from it. -/
def CountersExact (s : Mac) : Prop :=
  ∀ n ∈ s.neighborList,
    (s.neighbor n).txLinksCount = (txLinksServed s n).length ∧
      (s.neighbor n).dedicatedTxLinksCount = (dedicatedTxLinksServed s n).length

theorem CounterInv.countersExact {s : Mac} (hinv : CounterInv s) : CountersExact s := by
  have hlength : (linkRecords s).length ≤ 255 := by
    unfold linkRecords
    rw [length_map]
    exact hinv.length_installedLinks
  have hsmall : ∀ keep addr, linksTo keep (linkRecords s) addr % 256 =
      linksTo keep (linkRecords s) addr := by
    intro keep addr
    have hle := linksTo_le_length keep (linkRecords s) addr
    exact Nat.mod_eq_of_lt (by omega)
  intro n hn
  rw [hinv.length_txLinksServed hn, hinv.length_dedicatedTxLinksServed hn,
    hinv.counted.total n hn, hinv.counted.dedicated n hn, hsmall, hsmall]
  exact ⟨rfl, rfl⟩

/-- In every run of schedule calls that all meet the condition, the counters of every queue are
exact in every state reached. -/
theorem countersExact_of_countedRun {config : MacConfig} {ops : List MacOp} {s : Mac}
    (hlinks : config.maxLinks ≤ 255) (hqueues : 2 ≤ config.maxNeighborQueues)
    (hrun : CountedRun config ops s) : CountersExact s := by
  obtain ⟨s₀, hinit, hrun⟩ := hrun
  have hinv : CounterInv s :=
    hrun.invariant counterInv_step (counterInv_tschInit hlinks hqueues hinit)
  exact hinv.countersExact

/-- A run in which a Tx link of flow 1 is installed, replaced and removed. -/
def replacingOps : List MacOp :=
  [.addSlotframe 1 40, .addLink (some 0) ⟨1, .normal, flowAddr 1, 5, 0⟩,
    .addLink (some 0) ⟨5, .normal, flowAddr 1, 5, 3⟩, .removeLink (some 0) (some 0)]

theorem countersExact_replacing :
    ∃ s, CountedRun smallConfig replacingOps s ∧ CountersExact s := by
  obtain ⟨s, hrun, -⟩ : ∃ s, InitRun Mac.nextCounted smallConfig replacingOps s ∧ True :=
    exists_initRun (by decide +kernel)
  exact ⟨s, hrun, countersExact_of_countedRun (by decide) (by decide) hrun⟩

/-- What `init_master_routing` and `master_install_schedule` do first: a beacon link of slotframe
0 is installed under the broadcast address and removed with its slotframe. -/
def startupOps : List MacOp :=
  [.addSlotframe 0 1, .addLink (some 0) ⟨3, .advertisingOnly, tschBroadcastAddress, 0, 0⟩,
    .removeSlotframe (some 0)]

/-- No link is left, yet the broadcast queue counts 255 Tx links. -/
theorem startup_counters_wrap :
    ∃ s, MacRun smallConfig startupOps s ∧ installedLinks s = [] ∧
      s.nBroadcast = some 1 ∧ (s.neighbor 1).txLinksCount = 255 ∧ ¬ CountersExact s := by
  obtain ⟨s, hrun, hinstalled, hbroadcast, hcount, hmem⟩ : ∃ s, MacRun smallConfig startupOps s ∧
      installedLinks s = [] ∧ s.nBroadcast = some 1 ∧ (s.neighbor 1).txLinksCount = 255 ∧
        1 ∈ s.neighborList := exists_initRun (by decide +kernel)
  refine ⟨s, hrun, hinstalled, hbroadcast, hcount, fun hexact ↦ ?_⟩
  have htotal := (hexact 1 hmem).1
  unfold txLinksServed at htotal
  rw [hcount, hinstalled] at htotal
  simp at htotal

end ContikiMaster.Tsch
