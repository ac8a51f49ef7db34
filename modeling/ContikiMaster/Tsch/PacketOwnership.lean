import ContikiMaster.Tsch.Mac
import ContikiMaster.Lib.Buckets

/-!
# Who holds a packet block

Every packet block in use sits in one neighbor queue or in the list of dequeued packets. A
ledger, read by no code, remembers for each block the data packet it was last given to. A
queued data packet sits in the queue its flow number folds to and, outside the EB queue,
still holds the bytes it was queued with.
-/

namespace ContikiMaster.Tsch

open Sys Lib Function List Memb

/-- A data packet as `send_packet` queues it. -/
structure Payload where
  flowNumber : ℕ
  frame : List ℕ
  deriving DecidableEq

/-- The data packet each block was last given to; `none` for beacons and unused blocks. -/
abbrev Ledger := ℕ → Option Payload

structure PacketView where
  neighborMemb : Memb TschNeighbor
  neighborList : List ℕ
  nEb : Option ℕ
  packetMemb : Memb TschPacket

def Mac.view (s : Mac) : PacketView := ⟨s.neighborMemb, s.neighborList, s.nEb, s.packetMemb⟩

namespace PacketView

abbrev neighbor (v : PacketView) (n : ℕ) : TschNeighbor := v.neighborMemb.mem n

abbrev packet (v : PacketView) (p : ℕ) : TschPacket := v.packetMemb.mem p

def queued (v : PacketView) : List ℕ := allItems v.neighborList fun n ↦ (v.neighbor n).txArray

end PacketView

/-- A packet in the queue of an address is a beacon in the EB queue, or a data packet in the
queue of its flow, with its bytes untouched unless that is the EB queue. -/
def Placed (ledger : Ledger) (addr : Linkaddr) (data : List ℕ) (p : ℕ) : Prop :=
  match ledger p with
  | none => addr = tschEbAddress
  | some payload => addr = flowAddr payload.flowNumber ∧
      (payload.flowNumber % 256 ≠ 0 → data = payload.frame)

/-- The invariant, with the packets that wait outside the queues to be freed. -/
structure PacketInv (pending : List ℕ) (ledger : Ledger) (v : PacketView) : Prop where
  nodup : v.neighborList.Nodup
  used : ∀ n ∈ v.neighborList, v.neighborMemb.count n ≠ 0
  addr_inj : ∀ m ∈ v.neighborList, ∀ n ∈ v.neighborList,
    (v.neighbor m).addr = (v.neighbor n).addr → m = n
  eb : ∃ e ∈ v.neighborList, v.nEb = some e ∧ (v.neighbor e).addr = tschEbAddress ∧
    (v.neighbor e).isBroadcast = true
  tracked_nodup : (v.queued ++ pending).Nodup
  tracked_used : ∀ p ∈ v.queued ++ pending, v.packetMemb.count p ≠ 0
  placed : ∀ n ∈ v.neighborList, ∀ p ∈ (v.neighbor n).txArray,
    Placed ledger (v.neighbor n).addr (v.packet p).qb.data p

section Moves

variable {pending : List ℕ} {ledger : Ledger} {v : PacketView} {n p : ℕ}

theorem PacketInv.mem_queued (hn : n ∈ v.neighborList) (hp : p ∈ (v.neighbor n).txArray) :
    p ∈ v.queued :=
  mem_allItems.mpr ⟨n, hn, hp⟩

section

variable (hinv : PacketInv pending ledger v)

include hinv

theorem PacketInv.nEb_iff (hn : n ∈ v.neighborList) :
    v.nEb = some n ↔ (v.neighbor n).addr = tschEbAddress := by
  obtain ⟨e, he, heb, haddr, -⟩ := hinv.eb
  rw [heb]
  constructor
  · intro heq
    rw [← Option.some.inj heq]
    exact haddr
  · intro hzero
    rw [hinv.addr_inj e he n hn (haddr.trans hzero.symm)]

theorem PacketInv.storeNeighbor {r : TschNeighbor}
    (haddr : r.addr = (v.neighbor n).addr) (hbroadcast : r.isBroadcast = (v.neighbor n).isBroadcast)
    (hqueue : r.txArray = (v.neighbor n).txArray) :
    PacketInv pending ledger { v with neighborMemb := v.neighborMemb.store n r } := by
  have hsame : ∀ m, ((v.neighborMemb.store n r).mem m).addr = (v.neighbor m).addr ∧
      ((v.neighborMemb.store n r).mem m).isBroadcast = (v.neighbor m).isBroadcast ∧
      ((v.neighborMemb.store n r).mem m).txArray = (v.neighbor m).txArray :=
    fun m ↦ ⟨store_field TschNeighbor.addr haddr m,
      store_field TschNeighbor.isBroadcast hbroadcast m, store_field TschNeighbor.txArray hqueue m⟩
  have hqueued : ({ v with neighborMemb := v.neighborMemb.store n r } : PacketView).queued =
      v.queued := allItems_congr fun m _ ↦ (hsame m).2.2
  obtain ⟨hnodup, hused, hinj, ⟨e, he, heb, hebAddr, hebBroadcast⟩, htracked, hcount, hplaced⟩ :=
    hinv
  refine ⟨hnodup, hused, fun a ha b hb heq ↦ ?_, ⟨e, he, heb, ?_, ?_⟩, ?_, ?_, fun m hm q hq ↦ ?_⟩
  · exact hinj a ha b hb ((hsame a).1.symm.trans (heq.trans (hsame b).1))
  · exact (hsame e).1.trans hebAddr
  · exact (hsame e).2.1.trans hebBroadcast
  · rw [hqueued]
    exact htracked
  · rw [hqueued]
    exact hcount
  · have hq' : q ∈ (v.neighbor m).txArray := by
      rw [← (hsame m).2.2]
      exact hq
    have hgoal := hplaced m hm q hq'
    rw [← (hsame m).1] at hgoal
    exact hgoal

theorem PacketInv.allocNeighbor {addr : Linkaddr}
    {pool : Memb TschNeighbor} (halloc : v.neighborMemb.alloc = some (n, pool))
    (hnone : ∀ m ∈ v.neighborList, (v.neighbor m).addr ≠ addr) :
    PacketInv pending ledger { v with
      neighborMemb := pool.store n (newNeighbor addr)
      neighborList := listAdd v.neighborList n } := by
  obtain ⟨hnodup, hused, hinj, ⟨e, he, heb, hebAddr, hebBroadcast⟩, htracked, hcount, hplaced⟩ :=
    hinv
  obtain ⟨hfresh, hused', hstore⟩ := alloc_listAdd halloc hused
  have hself : (pool.store n (newNeighbor addr)).mem n = newNeighbor addr := store_mem_self
  have hold : ∀ m ∈ v.neighborList, (pool.store n (newNeighbor addr)).mem m = v.neighbor m :=
    hstore _
  have hqueued : ({ v with
      neighborMemb := pool.store n (newNeighbor addr)
      neighborList := listAdd v.neighborList n } : PacketView).queued = v.queued := by
    unfold PacketView.queued PacketView.neighbor
    simp only [listAdd_of_notMem hfresh]
    rw [allItems_append_key (by rw [hself]; rfl)]
    exact allItems_congr fun m hm ↦ congrArg TschNeighbor.txArray (hold m hm)
  refine ⟨nodup_listAdd hnodup, hused', ?_,
    ⟨e, mem_listAdd.mpr (.inl he), heb, ?_, ?_⟩, ?_, ?_, fun m hm q hq ↦ ?_⟩
  · apply label_inj (fun _ ↦ mem_listAdd) _ _ hinj
    · exact fun m hm ↦ congrArg TschNeighbor.addr (hold m hm)
    · exact fun m hm ↦ (hnone m hm).trans_eq (congrArg TschNeighbor.addr hself).symm
  · exact (congrArg TschNeighbor.addr (hold e he)).trans hebAddr
  · exact (congrArg TschNeighbor.isBroadcast (hold e he)).trans hebBroadcast
  · rw [hqueued]
    exact htracked
  · rw [hqueued]
    exact hcount
  · change q ∈ ((pool.store n (newNeighbor addr)).mem m).txArray at hq
    rcases mem_listAdd.mp hm with hmin | rfl
    · rw [hold m hmin] at hq
      have hgoal := hplaced m hmin q hq
      rw [← hold m hmin] at hgoal
      exact hgoal
    · rw [hself] at hq
      cases hq

theorem PacketInv.freeNeighbor
    (hempty : (v.neighbor n).txArray = []) (hbroadcast : (v.neighbor n).isBroadcast = false) :
    PacketInv pending ledger { v with
      neighborMemb := v.neighborMemb.free n
      neighborList := listRemove v.neighborList n } := by
  obtain ⟨hnodup, hused, hinj, ⟨e, he, heb, hebAddr, hebBroadcast⟩, htracked, hcount, hplaced⟩ :=
    hinv
  have hmem : (v.neighborMemb.free n).mem = v.neighborMemb.mem := free_mem
  have hqueued : ({ v with
      neighborMemb := v.neighborMemb.free n
      neighborList := listRemove v.neighborList n } : PacketView).queued = v.queued := by
    unfold PacketView.queued PacketView.neighbor
    rw [hmem]
    exact allItems_erase_key hnodup hempty
  have hne : e ≠ n := by
    rintro rfl
    rw [hebBroadcast] at hbroadcast
    cases hbroadcast
  refine ⟨nodup_listRemove hnodup, fun m hm ↦ ?_, fun a ha b hb heq ↦ ?_,
    ⟨e, (mem_listRemove hnodup).mpr ⟨he, hne⟩, heb, ?_, ?_⟩, ?_, ?_, fun m hm q hq ↦ ?_⟩
  · obtain ⟨hm, hmn⟩ := (mem_listRemove hnodup).mp hm
    change (v.neighborMemb.free n).count m ≠ 0
    rw [free_count_of_ne hmn]
    exact hused m hm
  · change ((v.neighborMemb.free n).mem a).addr = ((v.neighborMemb.free n).mem b).addr at heq
    rw [hmem] at heq
    exact hinj a ((mem_listRemove hnodup).mp ha).1 b ((mem_listRemove hnodup).mp hb).1 heq
  · exact (congrArg TschNeighbor.addr (congrFun hmem e)).trans hebAddr
  · exact (congrArg TschNeighbor.isBroadcast (congrFun hmem e)).trans hebBroadcast
  · rw [hqueued]
    exact htracked
  · rw [hqueued]
    exact hcount
  · change q ∈ ((v.neighborMemb.free n).mem m).txArray at hq
    change Placed ledger ((v.neighborMemb.free n).mem m).addr _ q
    rw [hmem] at hq ⊢
    exact hplaced m ((mem_listRemove hnodup).mp hm).1 q hq

theorem PacketInv.storePacket {pool : Memb TschPacket}
    (hfree : p ∉ v.queued ++ pending) (hcount : ∀ q, q ≠ p → pool.count q = v.packetMemb.count q)
    (hmem : ∀ q, q ≠ p → pool.mem q = v.packet q) :
    PacketInv pending ledger { v with packetMemb := pool } := by
  have hne : ∀ q ∈ v.queued ++ pending, q ≠ p := fun q hq heq ↦ hfree (heq ▸ hq)
  refine ⟨hinv.nodup, hinv.used, hinv.addr_inj, hinv.eb, hinv.tracked_nodup, fun q hq ↦ ?_,
    fun m hm q hq ↦ ?_⟩
  · change pool.count q ≠ 0
    rw [hcount q (hne q hq)]
    exact hinv.tracked_used q hq
  · have hqp := hne q (mem_append_left _ (PacketInv.mem_queued hm hq))
    change Placed ledger _ (pool.mem q).qb.data q
    rw [hmem q hqp]
    exact hinv.placed m hm q hq

end

theorem Placed.of_ebAddress {data data' : List ℕ} (hplaced : Placed ledger tschEbAddress data p) :
    Placed ledger tschEbAddress data' p := by
  unfold Placed at hplaced ⊢
  cases hentry : ledger p with
  | none => rfl
  | some payload =>
    rw [hentry] at hplaced
    refine ⟨hplaced.1, fun hflow ↦ ?_⟩
    exact absurd (flowAddr_eq_ebAddress_iff.mp hplaced.1.symm) hflow

theorem PacketInv.updatePacket (hinv : PacketInv pending ledger v) {r : TschPacket}
    (hn : n ∈ v.neighborList) (hp : p ∈ (v.neighbor n).txArray)
    (hdata : v.nEb ≠ some n → r.qb.data = (v.packet p).qb.data) :
    PacketInv pending ledger { v with packetMemb := v.packetMemb.store p r } := by
  refine ⟨hinv.nodup, hinv.used, hinv.addr_inj, hinv.eb, hinv.tracked_nodup, hinv.tracked_used,
    fun m hm q hq ↦ ?_⟩
  have hold := hinv.placed m hm q hq
  change Placed ledger (v.neighbor m).addr ((v.packetMemb.store p r).mem q).qb.data q
  by_cases hqp : q = p
  · subst hqp
    rw [store_mem_self]
    have hmn : m = n := eq_of_mem_of_nodup (nodup_append.mp hinv.tracked_nodup).1 hm hn hq hp
    subst hmn
    by_cases heb : v.nEb = some m
    · rw [(hinv.nEb_iff hm).mp heb] at hold ⊢
      exact hold.of_ebAddress
    · rw [hdata heb]
      exact hold
  · rw [store_mem_of_ne hqp]
    exact hold

theorem PacketInv.perm {pending' : List ℕ} (hinv : PacketInv pending ledger v)
    (hperm : pending.Perm pending') : PacketInv pending' ledger v := by
  have hall : (v.queued ++ pending).Perm (v.queued ++ pending') := hperm.append_left _
  exact ⟨hinv.nodup, hinv.used, hinv.addr_inj, hinv.eb, hall.nodup_iff.mp hinv.tracked_nodup,
    fun q hq ↦ hinv.tracked_used q (hall.mem_iff.mpr hq), hinv.placed⟩

theorem PacketInv.removeHead {rest : List ℕ} (hinv : PacketInv pending ledger v)
    (hn : n ∈ v.neighborList) (hqueue : (v.neighbor n).txArray = p :: rest) :
    PacketInv (p :: pending) ledger { v with
      neighborMemb := v.neighborMemb.store n { v.neighbor n with txArray := rest } } := by
  have hsame : ∀ m, ((v.neighborMemb.store n { v.neighbor n with txArray := rest }).mem m).addr =
      (v.neighbor m).addr ∧
      ((v.neighborMemb.store n { v.neighbor n with txArray := rest }).mem m).isBroadcast =
        (v.neighbor m).isBroadcast := fun m ↦
    ⟨store_field TschNeighbor.addr (by rfl) m, store_field TschNeighbor.isBroadcast (by rfl) m⟩
  have hqueued : v.queued.Perm (p :: ({ v with
      neighborMemb := v.neighborMemb.store n { v.neighbor n with txArray := rest } } :
        PacketView).queued) := by
    apply allItems_perm hinv.nodup hn
    · change (v.neighbor n).txArray.Perm
        (p :: ((v.neighborMemb.store n { v.neighbor n with txArray := rest }).mem n).txArray)
      rw [store_mem_self, hqueue]
    · intro m hm
      exact (congrArg TschNeighbor.txArray (store_mem_of_ne hm)).symm
  have htracked := (hqueued.append_right pending).trans perm_middle.symm
  obtain ⟨e, he, heb, hebAddr, hebBroadcast⟩ := hinv.eb
  refine ⟨hinv.nodup, hinv.used, fun a ha b hb heq ↦ ?_,
    ⟨e, he, heb, (hsame e).1.trans hebAddr, (hsame e).2.trans hebBroadcast⟩,
    htracked.nodup_iff.mp hinv.tracked_nodup,
    fun q hq ↦ hinv.tracked_used q (htracked.mem_iff.mpr hq), fun m hm q hq ↦ ?_⟩
  · exact hinv.addr_inj a ha b hb ((hsame a).1.symm.trans (heq.trans (hsame b).1))
  · have hq' : q ∈ (v.neighbor m).txArray := by
      by_cases hmn : m = n
      · subst hmn
        have hself : q ∈ ((v.neighborMemb.store m { v.neighbor m with txArray := rest }).mem
          m).txArray := hq
        rw [store_mem_self] at hself
        rw [hqueue]
        exact mem_cons_of_mem _ hself
      · rw [← show ((v.neighborMemb.store n { v.neighbor n with txArray := rest }).mem m).txArray =
          (v.neighbor m).txArray from congrArg TschNeighbor.txArray (store_mem_of_ne hmn)]
        exact hq
    have hgoal := hinv.placed m hm q hq'
    rw [← (hsame m).1] at hgoal
    exact hgoal

variable {pool : Memb TschPacket}

theorem PacketInv.dropPending (hinv : PacketInv (p :: pending) ledger v)
    (hcount : ∀ q, q ≠ p → pool.count q = v.packetMemb.count q)
    (hmem : ∀ q, q ≠ p → pool.mem q = v.packet q) :
    PacketInv pending ledger { v with packetMemb := pool } := by
  have hall : (v.queued ++ p :: pending).Perm (p :: (v.queued ++ pending)) := perm_middle
  obtain ⟨hfree, hnodup⟩ := nodup_cons.mp (hall.nodup_iff.mp hinv.tracked_nodup)
  have hkept : PacketInv pending ledger v :=
    ⟨hinv.nodup, hinv.used, hinv.addr_inj, hinv.eb, hnodup,
      fun q hq ↦ hinv.tracked_used q (hall.mem_iff.mpr (mem_cons_of_mem _ hq)), hinv.placed⟩
  exact hkept.storePacket hfree hcount hmem

theorem PacketInv.enqueue (hinv : PacketInv pending ledger v) {entry : Option Payload}
    (hn : n ∈ v.neighborList) (hfree : p ∉ v.queued ++ pending) (hused : pool.count p ≠ 0)
    (hcount : ∀ q, q ≠ p → pool.count q = v.packetMemb.count q)
    (hmem : ∀ q, q ≠ p → pool.mem q = v.packet q)
    (hplaced : Placed (update ledger p entry) (v.neighbor n).addr (pool.mem p).qb.data p) :
    PacketInv pending (update ledger p entry) { v with
      neighborMemb := v.neighborMemb.store n
        { v.neighbor n with txArray := (v.neighbor n).txArray ++ [p] }
      packetMemb := pool } := by
  set full : TschNeighbor := { v.neighbor n with txArray := (v.neighbor n).txArray ++ [p] }
  have hsame : ∀ m, ((v.neighborMemb.store n full).mem m).addr = (v.neighbor m).addr ∧
      ((v.neighborMemb.store n full).mem m).isBroadcast = (v.neighbor m).isBroadcast := fun m ↦
    ⟨store_field TschNeighbor.addr (by rfl) m, store_field TschNeighbor.isBroadcast (by rfl) m⟩
  have hqueued : ({ v with neighborMemb := v.neighborMemb.store n full, packetMemb := pool } :
      PacketView).queued.Perm (p :: v.queued) := by
    apply allItems_perm hinv.nodup hn
    · change ((v.neighborMemb.store n full).mem n).txArray.Perm (p :: (v.neighbor n).txArray)
      rw [store_mem_self]
      exact perm_append_singleton p _
    · intro m hm
      exact congrArg TschNeighbor.txArray (store_mem_of_ne hm)
  have htracked := hqueued.append_right pending
  have hne : ∀ q ∈ v.queued ++ pending, q ≠ p := fun q hq heq ↦ hfree (heq ▸ hq)
  obtain ⟨e, he, heb, hebAddr, hebBroadcast⟩ := hinv.eb
  refine ⟨hinv.nodup, hinv.used, fun a ha b hb heq ↦ ?_,
    ⟨e, he, heb, (hsame e).1.trans hebAddr, (hsame e).2.trans hebBroadcast⟩,
    htracked.nodup_iff.mpr (nodup_cons.mpr ⟨hfree, hinv.tracked_nodup⟩),
    fun q hq ↦ ?_, fun m hm q hq ↦ ?_⟩
  · exact hinv.addr_inj a ha b hb ((hsame a).1.symm.trans (heq.trans (hsame b).1))
  · change pool.count q ≠ 0
    rcases mem_cons.mp (htracked.mem_iff.mp hq) with rfl | hq
    · exact hused
    · rw [hcount q (hne q hq)]
      exact hinv.tracked_used q hq
  · change q ∈ ((v.neighborMemb.store n full).mem m).txArray at hq
    change Placed _ ((v.neighborMemb.store n full).mem m).addr (pool.mem q).qb.data q
    rw [(hsame m).1]
    have hold : q ∈ (v.neighbor m).txArray →
        Placed (update ledger p entry) (v.neighbor m).addr (pool.mem q).qb.data q := by
      intro hqm
      have hqp := hne q (mem_append_left _ (PacketInv.mem_queued hm hqm))
      have hgoal := hinv.placed m hm q hqm
      unfold Placed at hgoal ⊢
      rw [update_of_ne hqp, hmem q hqp]
      exact hgoal
    by_cases hmn : m = n
    · subst hmn
      rw [store_mem_self] at hq
      rcases mem_append.mp hq with hq | hq
      · exact hold hq
      · rw [mem_singleton.mp hq]
        exact hplaced
    · rw [store_mem_of_ne hmn] at hq
      exact hold hq

end Moves

end ContikiMaster.Tsch
