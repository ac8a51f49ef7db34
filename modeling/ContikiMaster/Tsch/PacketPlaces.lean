import ContikiMaster.Tsch.FlowRuns
import ContikiMaster.Tsch.SlotYields

/-!
# What a step does to the packets

Every call that a slot or the process context makes is described by the packets it queues,
takes out of the queues and frees, against the reference counts of the pool. The process
context leaves the heads of the queues alone, unless it flushes; a slot takes heads away
and adds nothing.
-/

namespace ContikiMaster.Tsch

open Sys Lib Function List Memb

/-- The neighbor list and the pools fit together, and every queued packet is allocated. -/
structure PacketQueuesWF (s : Mac) : Prop where
  unlocked : s.tschLocked = false
  nodup : s.neighborList.Nodup
  used : ∀ n ∈ s.neighborList, s.neighborMemb.count n ≠ 0
  eb : ∀ n, s.nEb = some n → n ∈ s.neighborList ∧ (s.neighbor n).isBroadcast = true
  bound : ∀ p, s.packetMemb.count p ≠ 0 → p < s.packetMemb.num
  backed : ∀ p, s.view.queued.count p ≤ s.packetMemb.count p

/-- A step that queues the packets given, takes others out of the queues and frees some. -/
structure Exchange (given taken freed : List ℕ) (s t : Mac) : Prop where
  wf : PacketQueuesWF t
  dequeued : t.dequeued = s.dequeued
  queued : ∀ p, t.view.queued.count p + taken.count p = s.view.queued.count p + given.count p
  counted : ∀ p, t.packetMemb.count p + freed.count p = s.packetMemb.count p + given.count p

def KeepsHeads (s t : Mac) : Prop :=
  ∀ n ∈ s.neighborList, ∀ p, (s.neighbor n).txArray.head? = some p →
    n ∈ t.neighborList ∧ (t.neighbor n).txArray.head? = some p

/-- Empty queues stay empty, and the neighbors stay what they are. -/
structure KeepsEmpty (s t : Mac) : Prop where
  list : t.neighborList = s.neighborList
  broadcast : ∀ n, (t.neighbor n).isBroadcast = (s.neighbor n).isBroadcast
  empty : ∀ n, (s.neighbor n).txArray = [] → (t.neighbor n).txArray = []

section Relations

variable {s t u : Mac} {given given' taken taken' freed freed' : List ℕ}

theorem Exchange.refl (hs : PacketQueuesWF s) : Exchange [] [] [] s s :=
  ⟨hs, rfl, fun _ ↦ rfl, fun _ ↦ rfl⟩

theorem Exchange.trans (hst : Exchange given taken freed s t)
    (htu : Exchange given' taken' freed' t u) :
    Exchange (given ++ given') (taken ++ taken') (freed ++ freed') s u := by
  refine ⟨htu.wf, htu.dequeued.trans hst.dequeued, fun p ↦ ?_, fun p ↦ ?_⟩
  · have hfirst := hst.queued p
    have hsecond := htu.queued p
    rw [count_append, count_append]
    omega
  · have hfirst := hst.counted p
    have hsecond := htu.counted p
    rw [count_append, count_append]
    omega

theorem KeepsHeads.refl (s : Mac) : KeepsHeads s s := fun _ hn _ hp ↦ ⟨hn, hp⟩

theorem KeepsHeads.trans (hst : KeepsHeads s t) (htu : KeepsHeads t u) : KeepsHeads s u := by
  intro n hn p hp
  obtain ⟨hn', hp'⟩ := hst n hn p hp
  exact htu n hn' p hp'

theorem KeepsEmpty.refl (s : Mac) : KeepsEmpty s s := ⟨rfl, fun _ ↦ rfl, fun _ hempty ↦ hempty⟩

theorem KeepsEmpty.trans (hst : KeepsEmpty s t) (htu : KeepsEmpty t u) : KeepsEmpty s u :=
  ⟨htu.list.trans hst.list, fun n ↦ (htu.broadcast n).trans (hst.broadcast n),
    fun n hempty ↦ htu.empty n (hst.empty n hempty)⟩

theorem queued_congr (hlist : t.neighborList = s.neighborList)
    (hring : ∀ n ∈ s.neighborList, (t.neighbor n).txArray = (s.neighbor n).txArray) :
    t.view.queued = s.view.queued := by
  change allItems t.neighborList _ = allItems s.neighborList _
  rw [hlist]
  exact allItems_congr hring

end Relations

/-! ## Steps that leave the queues alone -/

/-- A step that moves no packet, allocates none and frees none. -/
structure SamePackets (s t : Mac) : Prop where
  locked : t.tschLocked = s.tschLocked
  list : t.neighborList = s.neighborList
  eb : t.nEb = s.nEb
  used : t.neighborMemb.count = s.neighborMemb.count
  ring : ∀ n, (t.neighbor n).txArray = (s.neighbor n).txArray
  broadcast : ∀ n, (t.neighbor n).isBroadcast = (s.neighbor n).isBroadcast
  num : t.packetMemb.num = s.packetMemb.num
  count : t.packetMemb.count = s.packetMemb.count
  dequeued : t.dequeued = s.dequeued

namespace SamePackets

variable {s t u : Mac} {n : ℕ}

theorem refl (s : Mac) : SamePackets s s :=
  ⟨rfl, rfl, rfl, rfl, fun _ ↦ rfl, fun _ ↦ rfl, rfl, rfl, rfl⟩

theorem trans (hst : SamePackets s t) (htu : SamePackets t u) : SamePackets s u :=
  ⟨htu.locked.trans hst.locked, htu.list.trans hst.list, htu.eb.trans hst.eb,
    htu.used.trans hst.used, fun n ↦ (htu.ring n).trans (hst.ring n),
    fun n ↦ (htu.broadcast n).trans (hst.broadcast n), htu.num.trans hst.num,
    htu.count.trans hst.count, htu.dequeued.trans hst.dequeued⟩

theorem setNeighbor {r : TschNeighbor} (hring : r.txArray = (s.neighbor n).txArray)
    (hbroadcast : r.isBroadcast = (s.neighbor n).isBroadcast) : SamePackets s (s.setNeighbor n r) :=
  ⟨rfl, rfl, rfl, rfl, store_field TschNeighbor.txArray hring,
    store_field TschNeighbor.isBroadcast hbroadcast, rfl, rfl, rfl⟩

theorem setPacket (s : Mac) (p : ℕ) (r : TschPacket) : SamePackets s (s.setPacket p r) :=
  ⟨rfl, rfl, rfl, rfl, fun _ ↦ rfl, fun _ ↦ rfl, rfl, rfl, rfl⟩

theorem queued (hst : SamePackets s t) : t.view.queued = s.view.queued :=
  queued_congr hst.list fun n _ ↦ hst.ring n

theorem wf (hst : SamePackets s t) (hs : PacketQueuesWF s) : PacketQueuesWF t := by
  refine ⟨hst.locked.trans hs.unlocked, ?_, fun n hn ↦ ?_, fun n hn ↦ ?_, fun p hp ↦ ?_, fun p ↦ ?_⟩
  · rw [hst.list]
    exact hs.nodup
  · rw [hst.used]
    exact hs.used n (hst.list ▸ hn)
  · rw [hst.list, hst.broadcast]
    exact hs.eb n (hst.eb ▸ hn)
  · rw [hst.num]
    exact hs.bound p (hst.count ▸ hp)
  · rw [hst.queued, hst.count]
    exact hs.backed p

theorem exchange (hst : SamePackets s t) (hs : PacketQueuesWF s) : Exchange [] [] [] s t := by
  refine ⟨hst.wf hs, hst.dequeued, fun p ↦ ?_, fun p ↦ ?_⟩
  · rw [hst.queued]
  · rw [hst.count]

theorem after {given taken freed : List ℕ} (hst : Exchange given taken freed s t)
    (htu : SamePackets t u) : Exchange given taken freed s u := by
  refine ⟨htu.wf hst.wf, htu.dequeued.trans hst.dequeued, fun p ↦ ?_, fun p ↦ ?_⟩
  · rw [htu.queued]
    exact hst.queued p
  · rw [htu.count]
    exact hst.counted p

theorem keepsHeads (hst : SamePackets s t) : KeepsHeads s t := by
  intro n hn p hp
  rw [hst.list, hst.ring]
  exact ⟨hn, hp⟩

theorem keepsEmpty (hst : SamePackets s t) : KeepsEmpty s t :=
  ⟨hst.list, hst.broadcast, fun n hempty ↦ (hst.ring n).trans hempty⟩

end SamePackets

theorem tschQueueUpdateAllBackoffWindows_samePackets (s : Mac) (destAddr : Linkaddr) :
    SamePackets s (tschQueueUpdateAllBackoffWindows s destAddr) := by
  have hstep : ∀ r : TschNeighbor, (backoffStep destAddr r).txArray = r.txArray ∧
      (backoffStep destAddr r).isBroadcast = r.isBroadcast := by
    intro r
    unfold backoffStep
    split <;> exact ⟨rfl, rfl⟩
  have hfold : ∀ (nbrs : List ℕ) (s : Mac), SamePackets s
      (nbrs.foldl (fun s n ↦ s.setNeighbor n (backoffStep destAddr (s.neighbor n))) s) := by
    intro nbrs
    induction nbrs with
    | nil => exact fun s ↦ .refl s
    | cons n nbrs ih =>
      intro s
      obtain ⟨hring, hbroadcast⟩ := hstep (s.neighbor n)
      exact SamePackets.trans (.setNeighbor hring hbroadcast) (ih _)
  unfold tschQueueUpdateAllBackoffWindows
  split
  · exact .refl s
  · exact hfold s.neighborList s

theorem nextSlot_samePackets (s : Mac) : SamePackets s (nextSlot s) := by
  unfold nextSlot
  split
  · split
    · exact (tschQueueUpdateAllBackoffWindows_samePackets s _).trans
        ⟨rfl, rfl, rfl, rfl, fun _ ↦ rfl, fun _ ↦ rfl, rfl, rfl, rfl⟩
    · exact ⟨rfl, rfl, rfl, rfl, fun _ ↦ rfl, fun _ ↦ rfl, rfl, rfl, rfl⟩
  · exact ⟨rfl, rfl, rfl, rfl, fun _ ↦ rfl, fun _ ↦ rfl, rfl, rfl, rfl⟩

theorem endSlot_samePackets (s : Mac) (env : SlotEnv) : SamePackets s (endSlot s env) := by
  have hiterate : ∀ (k : ℕ) (s : Mac), SamePackets s (nextSlot^[k] s) := by
    intro k
    induction k with
    | zero => exact fun s ↦ .refl s
    | succ k ih => exact fun s ↦ (nextSlot_samePackets s).trans (ih (nextSlot s))
  have hrest : SamePackets s (if !s.tschIsCoordinator && env.desynchronized then
      { s with tschIsAssociated := false } else nextSlot^[env.missedDeadlines + 1] s) := by
    split
    · exact ⟨rfl, rfl, rfl, rfl, fun _ ↦ rfl, fun _ ↦ rfl, rfl, rfl, rfl⟩
    · exact hiterate _ s
  exact hrest.trans ⟨rfl, rfl, rfl, rfl, fun _ ↦ rfl, fun _ ↦ rfl, rfl, rfl, rfl⟩

section Neighbors

variable {s t : Mac} {n : ℕ}

variable {addr : Linkaddr} {m : Option ℕ}

theorem allocNeighbor_exchange (hs : PacketQueuesWF s) (halloc : allocNeighbor s addr = (m, t)) :
    Exchange [] [] [] s t ∧ KeepsHeads s t := by
  unfold allocNeighbor at halloc
  split at halloc
  · cases halloc
    exact ⟨.refl hs, .refl _⟩
  · rename_i i pool hpool
    cases halloc
    obtain ⟨hfresh, hused, hstore⟩ := alloc_listAdd hpool hs.used
    have hold := hstore (newNeighbor addr)
    set t : Mac := { s with
      neighborMemb := pool.store i (newNeighbor addr)
      neighborList := listAdd s.neighborList i }
    have hlist : t.neighborList = s.neighborList ++ [i] := listAdd_of_notMem hfresh
    have hqueued : t.view.queued = s.view.queued := by
      change allItems t.neighborList _ = _
      rw [hlist, allItems_append_key (congrArg TschNeighbor.txArray store_mem_self)]
      exact allItems_congr fun j hj ↦ congrArg TschNeighbor.txArray (hold j hj)
    have hwf : PacketQueuesWF t := by
      refine ⟨hs.unlocked, nodup_listAdd hs.nodup, hused, fun j hj ↦ ?_, hs.bound, fun p ↦ ?_⟩
      · obtain ⟨hin, hbroadcast⟩ := hs.eb j hj
        refine ⟨mem_listAdd.mpr (.inl hin), ?_⟩
        exact (congrArg TschNeighbor.isBroadcast (hold j hin)).trans hbroadcast
      · rw [hqueued]
        exact hs.backed p
    refine ⟨⟨hwf, rfl, fun p ↦ ?_, fun _ ↦ rfl⟩, fun j hj p hp ↦ ⟨mem_listAdd.mpr (.inl hj), ?_⟩⟩
    · rw [hqueued]
    · exact (congrArg (fun r : TschNeighbor ↦ r.txArray.head?) (hold j hj)).trans hp

theorem tschQueueAddNbr_exchange (hs : PacketQueuesWF s)
    (hcall : tschQueueAddNbr s addr = .ok (m, t)) : Exchange [] [] [] s t ∧ KeepsHeads s t := by
  rcases tschQueueAddNbr_cases hcall with rfl | ⟨-, -, halloc⟩
  · exact ⟨.refl hs, .refl _⟩
  · exact allocNeighbor_exchange hs halloc

theorem tschQueueRemoveNbr_exchange (hs : PacketQueuesWF s) (hempty : (s.neighbor n).txArray = [])
    (hbroadcast : (s.neighbor n).isBroadcast = false) (hcall : tschQueueRemoveNbr s n = .ok t) :
    Exchange [] [] [] s t ∧ KeepsHeads s t := by
  rcases tschQueueRemoveNbr_cases hempty hcall with rfl | rfl
  · exact ⟨.refl hs, .refl _⟩
  · set t : Mac := { s with
      tschLocked := false
      neighborList := listRemove s.neighborList n
      neighborMemb := s.neighborMemb.free n }
    have hmem : t.neighborMemb.mem = s.neighborMemb.mem := free_mem
    have hqueued : t.view.queued = s.view.queued := by
      change allItems (s.neighborList.erase n) (fun j ↦ (t.neighborMemb.mem j).txArray) = _
      rw [hmem]
      exact allItems_erase_key hs.nodup hempty
    have hwf : PacketQueuesWF t := by
      refine ⟨rfl, nodup_listRemove hs.nodup, fun j hj ↦ ?_, fun j hj ↦ ?_, hs.bound, fun p ↦ ?_⟩
      · obtain ⟨hj, hne⟩ := (mem_listRemove hs.nodup).mp hj
        change (s.neighborMemb.free n).count j ≠ 0
        rw [free_count_of_ne hne]
        exact hs.used j hj
      · obtain ⟨hin, hj⟩ := hs.eb j hj
        have hne : j ≠ n := by
          intro heq
          rw [heq, hbroadcast] at hj
          cases hj
        refine ⟨(mem_listRemove hs.nodup).mpr ⟨hin, hne⟩, ?_⟩
        exact (congrArg TschNeighbor.isBroadcast (congrFun hmem j)).trans hj
      · rw [hqueued]
        exact hs.backed p
    refine ⟨⟨hwf, rfl, fun p ↦ ?_, fun _ ↦ rfl⟩, fun j hj p hp ↦ ?_⟩
    · exact congrArg (count p · + 0) hqueued
    · have hne : j ≠ n := by
        intro heq
        rw [heq, hempty] at hp
        cases hp
      refine ⟨(mem_listRemove hs.nodup).mpr ⟨hj, hne⟩, ?_⟩
      exact (congrArg (fun r : TschNeighbor ↦ r.txArray.head?) (congrFun hmem j)).trans hp

end Neighbors

/-! ## Freeing, queueing and taking packets out -/

section Packets

variable {s t : Mac} {n p : ℕ} {rest : List ℕ}

theorem tschQueueFreePacket_exchange (hs : PacketQueuesWF s)
    (hfree : s.view.queued.count p < s.packetMemb.count p) :
    Exchange [] [] [p] s (tschQueueFreePacket s p) := by
  have hbound : p < s.packetMemb.num := hs.bound p (by omega)
  have hcount : ∀ q, (s.packetMemb.free p).count q + [p].count q = s.packetMemb.count q := by
    intro q
    by_cases hq : q = p
    · rw [hq, free_count_self hbound, count_singleton_self]
      omega
    · rw [free_count_of_ne hq, count_singleton, if_neg (by simpa using Ne.symm hq)]
      rfl
  refine ⟨⟨hs.unlocked, hs.nodup, hs.used, hs.eb, fun q hq ↦ ?_, fun q ↦ ?_⟩, rfl, fun _ ↦ rfl,
    fun q ↦ hcount q⟩
  · change q < (s.packetMemb.free p).num
    change (s.packetMemb.free p).count q ≠ 0 at hq
    rw [free_num]
    have hqcount := hcount q
    exact hs.bound q (by omega)
  · change s.view.queued.count q ≤ (s.packetMemb.free p).count q
    have hqcount := hcount q
    have hbacked := hs.backed q
    by_cases hq : q = p
    · rw [hq, count_singleton_self] at hqcount
      rw [hq]
      omega
    · rw [count_singleton, if_neg (by simpa using Ne.symm hq)] at hqcount
      omega

section

variable (hs : PacketQueuesWF s) (hn : n ∈ s.neighborList)
  (hqueue : (s.neighbor n).txArray = p :: rest)

include hs hn hqueue

theorem removePacket_exchange : Exchange [] [p] [] s (tschQueueRemovePacketFromQueue s (some n)).2 ∧
      KeepsEmpty s (tschQueueRemovePacketFromQueue s (some n)).2 := by
  rw [removePacket_eq hs.unlocked hqueue]
  set r : TschNeighbor := { s.neighbor n with txArray := rest }
  have hself : (s.neighborMemb.store n r).mem n = r := store_mem_self
  have hother : ∀ m, m ≠ n → (s.neighborMemb.store n r).mem m = s.neighbor m :=
    fun m hm ↦ store_mem_of_ne hm
  have hbroadcast : ∀ m, ((s.neighborMemb.store n r).mem m).isBroadcast =
      (s.neighbor m).isBroadcast := store_field TschNeighbor.isBroadcast rfl
  have hperm : s.view.queued.Perm (p :: (s.setNeighbor n r).view.queued) := by
    apply allItems_perm hs.nodup hn
    · change (s.neighbor n).txArray.Perm (p :: ((s.neighborMemb.store n r).mem n).txArray)
      rw [hself, hqueue]
    · intro m hm
      exact congrArg TschNeighbor.txArray (hother m hm).symm
  have hcount : ∀ q, (s.setNeighbor n r).view.queued.count q + [p].count q =
      s.view.queued.count q := by
    intro q
    calc (s.setNeighbor n r).view.queued.count q + [p].count q
        = [p].count q + (s.setNeighbor n r).view.queued.count q := Nat.add_comm _ _
      _ = ([p] ++ (s.setNeighbor n r).view.queued).count q := count_append.symm
      _ = s.view.queued.count q := (hperm.count_eq q).symm
  refine ⟨⟨⟨hs.unlocked, hs.nodup, hs.used, fun m hm ↦ ?_, hs.bound, fun q ↦ ?_⟩, rfl, hcount,
    fun _ ↦ rfl⟩, rfl, hbroadcast, fun m hempty ↦ ?_⟩
  · obtain ⟨hin, hm⟩ := hs.eb m hm
    exact ⟨hin, (hbroadcast m).trans hm⟩
  · change (s.setNeighbor n r).view.queued.count q ≤ s.packetMemb.count q
    have hqcount := hcount q
    have hbacked := hs.backed q
    omega
  · have hne : m ≠ n := by
      intro heq
      rw [heq, hqueue] at hempty
      cases hempty
    exact (congrArg TschNeighbor.txArray (hother m hne)).trans hempty

theorem headDropped_exchange :
    Exchange [] [p] [p] s (headDropped s n p) ∧ KeepsEmpty s (headDropped s n p) := by
  obtain ⟨htaken, hempty⟩ := removePacket_exchange hs hn hqueue
  set u := (tschQueueRemovePacketFromQueue s (some n)).2
  have hfree : u.view.queued.count p < u.packetMemb.count p := by
    have hqueued := htaken.queued p
    have hcounted := htaken.counted p
    have hbacked := hs.backed p
    rw [count_singleton_self] at hqueued
    simp only [count_nil, Nat.add_zero] at hqueued hcounted
    omega
  exact ⟨htaken.trans (tschQueueFreePacket_exchange htaken.wf hfree),
    hempty.list, hempty.broadcast, hempty.empty⟩

end

variable {maxTransmissions : ℕ} {packetbuf : Packetbuf} {available : Bool} {q : Option ℕ}

theorem putPacket_exchange (hs : PacketQueuesWF s) (hn : n ∈ s.neighborList)
    (hcall : putPacket s n maxTransmissions packetbuf available = (q, t)) :
    Exchange q.toList [] [] s t ∧ KeepsHeads s t ∧ ∀ p, q = some p → s.packetMemb.count p = 0 := by
  unfold putPacket at hcall
  split at hcall
  · cases hcall
    exact ⟨.refl hs, .refl _, fun p hp ↦ nomatch hp⟩
  split at hcall
  · cases hcall
    exact ⟨.refl hs, .refl _, fun p hp ↦ nomatch hp⟩
  rename_i i pool halloc
  obtain ⟨hbound, hzero, hnum, -, hcount⟩ := alloc_spec halloc
  split at hcall
  · cases hcall
    set r : TschNeighbor := { s.neighbor n with txArray := (s.neighbor n).txArray ++ [i] }
    have hself : (s.neighborMemb.store n r).mem n = r := store_mem_self
    have hother : ∀ m, m ≠ n → (s.neighborMemb.store n r).mem m = s.neighbor m :=
      fun m hm ↦ store_mem_of_ne hm
    have hperm : (s.setNeighbor n r).view.queued.Perm (i :: s.view.queued) := by
      apply allItems_perm hs.nodup hn
      · change ((s.neighborMemb.store n r).mem n).txArray.Perm (i :: (s.neighbor n).txArray)
        rw [hself]
        exact perm_append_singleton i _
      · intro m hm
        exact congrArg TschNeighbor.txArray (hother m hm)
    have hqueued : ∀ q, (s.setNeighbor n r).view.queued.count q =
        s.view.queued.count q + [i].count q := by
      intro q
      calc (s.setNeighbor n r).view.queued.count q
          = ([i] ++ s.view.queued).count q := hperm.count_eq q
        _ = [i].count q + s.view.queued.count q := count_append
        _ = s.view.queued.count q + [i].count q := Nat.add_comm _ _
    have hcounted : ∀ q, pool.count q = s.packetMemb.count q + [i].count q := by
      intro q
      rw [hcount]
      by_cases hq : q = i
      · rw [hq, update_self, hzero, count_singleton_self]
      · rw [update_of_ne hq, count_singleton, if_neg (by simpa using Ne.symm hq)]
        rfl
    refine ⟨⟨⟨hs.unlocked, hs.nodup, hs.used, fun m hm ↦ ?_, fun q hq ↦ ?_, fun q ↦ ?_⟩, rfl,
      hqueued, hcounted⟩, fun m hm q hq ↦ ⟨hm, ?_⟩, fun q hq ↦ ?_⟩
    · obtain ⟨hin, hbroadcast⟩ := hs.eb m hm
      exact ⟨hin, (store_field (v := r) TschNeighbor.isBroadcast rfl m).trans hbroadcast⟩
    · change q < pool.num
      change pool.count q ≠ 0 at hq
      rw [hnum]
      by_cases hqi : q = i
      · rw [hqi]
        exact hbound
      · rw [hcount, update_of_ne hqi] at hq
        exact hs.bound q hq
    · change (s.setNeighbor n r).view.queued.count q ≤ pool.count q
      rw [hqueued, hcounted]
      exact Nat.add_le_add_right (hs.backed q) _
    · change ((s.neighborMemb.store n r).mem m).txArray.head? = some q
      by_cases hmn : m = n
      · rw [hmn] at hq
        rw [hmn, hself]
        obtain ⟨rest, hqueue⟩ := head?_eq_some_iff.mp hq
        change ((s.neighbor n).txArray ++ [i]).head? = some q
        rw [hqueue]
        rfl
      · rw [hother m hmn]
        exact hq
    · rw [← Option.some.inj hq]
      exact hzero
  · cases hcall
    have hcounted : (pool.free i).count = s.packetMemb.count := by
      funext q
      by_cases hq : q = i
      · rw [hq, free_count_self (hnum ▸ hbound), hcount, update_self, hzero]
      · rw [free_count_of_ne hq, hcount, update_of_ne hq]
    have hsame : SamePackets s { s with packetMemb := pool.free i } :=
      ⟨rfl, rfl, rfl, rfl, fun _ ↦ rfl, fun _ ↦ rfl, free_num.trans hnum, hcounted, rfl⟩
    exact ⟨hsame.exchange hs, hsame.keepsHeads, fun p hp ↦ nomatch hp⟩

theorem tschQueueAddPacket_exchange {addr : Linkaddr} (hs : PacketQueuesWF s)
    (hcall : tschQueueAddPacket s addr maxTransmissions packetbuf available = .ok (q, t)) :
    Exchange q.toList [] [] s t ∧ KeepsHeads s t ∧ ∀ p, q = some p → s.packetMemb.count p = 0 := by
  unfold tschQueueAddPacket at hcall
  split at hcall
  · cases hcall
    exact ⟨.refl hs, .refl _, fun p hp ↦ nomatch hp⟩
  obtain ⟨⟨m, u⟩, hadd, hrest⟩ := bind_eq_ok hcall
  obtain ⟨hadded, hheads⟩ := tschQueueAddNbr_exchange hs hadd
  cases m with
  | none =>
    cases hrest
    exact ⟨hadded, hheads, fun p hp ↦ nomatch hp⟩
  | some m =>
    have hput : putPacket u m maxTransmissions packetbuf available = (q, t) := Except.ok.inj hrest
    obtain ⟨hqueued, hheads', hfresh⟩ :=
      putPacket_exchange hadded.wf (tschQueueAddNbr_addr hadd).1 hput
    refine ⟨hadded.trans hqueued, hheads.trans hheads', fun p hp ↦ ?_⟩
    exact (hadded.counted p).symm.trans (hfresh p hp)

theorem flushOne_exchange (hs : PacketQueuesWF s) (hn : n ∈ s.neighborList) :
    ∃ flushed, Exchange [] flushed flushed s (flushOne s n) ∧ KeepsEmpty s (flushOne s n) := by
  cases hqueue : (s.neighbor n).txArray with
  | nil =>
    have hsame : flushOne s n = s := by
      unfold flushOne tschQueueRemovePacketFromQueue
      rw [if_neg (by simp [hs.unlocked])]
      simp only [hqueue]
    rw [hsame]
    exact ⟨[], .refl hs, .refl _⟩
  | cons p rest =>
    obtain ⟨htaken, hempty⟩ := removePacket_exchange hs hn hqueue
    have hpacket : flushOne s n = tschQueueFreePacket
        ((tschQueueRemovePacketFromQueue s (some n)).2.setPacket p
          { (tschQueueRemovePacketFromQueue s (some n)).2.packet p with ret := macTxErr }) p := by
      unfold flushOne
      rw [removePacket_eq hs.unlocked hqueue]
    rw [hpacket]
    set u := (tschQueueRemovePacketFromQueue s (some n)).2
    have hmarked : SamePackets u (u.setPacket p { u.packet p with ret := macTxErr }) :=
      .setPacket u p _
    have hgone := SamePackets.after htaken hmarked
    set w := u.setPacket p { u.packet p with ret := macTxErr }
    have hfree : w.view.queued.count p < w.packetMemb.count p := by
      have hqueued := hgone.queued p
      have hcounted := hgone.counted p
      have hbacked := hs.backed p
      simp only [count_singleton_self, count_nil, Nat.add_zero] at hqueued hcounted
      omega
    refine ⟨[p], hgone.trans (tschQueueFreePacket_exchange hgone.wf hfree), ?_⟩
    exact hempty.trans ⟨rfl, fun _ ↦ rfl, fun _ hnil ↦ hnil⟩

theorem flushLoop_exchange (fuel : ℕ) : ∀ {s : Mac}, PacketQueuesWF s → n ∈ s.neighborList →
    flushLoop fuel s n = .ok t → (∃ flushed, Exchange [] flushed flushed s t) ∧ KeepsEmpty s t ∧
        (t.neighbor n).txArray = [] := by
  have hdone : ∀ {s : Mac}, PacketQueuesWF s → tschQueueIsEmpty s n = true →
      (∃ flushed, Exchange [] flushed flushed s s) ∧ KeepsEmpty s s ∧
        (s.neighbor n).txArray = [] := by
    intro s hs hempty
    refine ⟨⟨[], .refl hs⟩, .refl s, ?_⟩
    unfold tschQueueIsEmpty at hempty
    rw [Bool.and_eq_true] at hempty
    simpa using hempty.2
  induction fuel with
  | zero =>
    intro s hs _ hcall
    unfold flushLoop at hcall
    split at hcall
    · rename_i hempty
      cases hcall
      exact hdone hs hempty
    · cases hcall
  | succ fuel ih =>
    intro s hs hn hcall
    unfold flushLoop at hcall
    split at hcall
    · rename_i hempty
      cases hcall
      exact hdone hs hempty
    · obtain ⟨flushed, hfirst, hkept⟩ := flushOne_exchange hs hn
      obtain ⟨⟨flushed', hrest⟩, hkept', hempty⟩ := ih hfirst.wf (hkept.list ▸ hn) hcall
      exact ⟨⟨flushed ++ flushed', hfirst.trans hrest⟩, hkept.trans hkept', hempty⟩

theorem tschQueueReset_exchange (hs : PacketQueuesWF s) (hcall : tschQueueReset s = .ok t) :
    Exchange [] s.view.queued s.view.queued s t ∧ t.view.queued = [] := by
  unfold tschQueueReset at hcall
  rw [if_neg (by simp [hs.unlocked])] at hcall
  have hloop : (∃ flushed, Exchange [] flushed flushed s t) ∧ KeepsEmpty s t ∧
      ∀ m ∈ s.neighborList, (t.neighbor m).txArray = [] := by
    refine foldlM_invariant_done (P := fun done u ↦ (∃ flushed, Exchange [] flushed flushed s u) ∧
      KeepsEmpty s u ∧ ∀ m ∈ done, (u.neighbor m).txArray = [])
      (fun done m todo hitems u w hu hstep ↦ ?_) hcall
      ⟨⟨[], .refl hs⟩, .refl s, fun m hm ↦ nomatch hm⟩
    obtain ⟨⟨flushed, hsofar⟩, hkept, hempty⟩ := hu
    obtain ⟨v, hflush, hend⟩ := bind_eq_ok hstep
    have hm : m ∈ s.neighborList := by
      rw [hitems]
      exact mem_append_right _ mem_cons_self
    obtain ⟨⟨flushed', hflushed⟩, hkept', hgone⟩ :=
      flushLoop_exchange _ hsofar.wf (hkept.list ▸ hm) hflush
    have hreset : SamePackets v (v.setNeighbor m (tschQueueBackoffReset (v.neighbor m))) :=
      .setNeighbor rfl rfl
    cases hend
    have hall := SamePackets.after (hsofar.trans hflushed) hreset
    refine ⟨⟨_, hall⟩, (hkept.trans hkept').trans hreset.keepsEmpty, fun j hj ↦ ?_⟩
    rcases mem_append.mp hj with hj | hj
    · exact (hreset.ring j).trans (hkept'.empty j (hempty j hj))
    · rw [mem_singleton.mp hj]
      exact (hreset.ring m).trans hgone
  obtain ⟨⟨flushed, hflushed⟩, hkept, hempty⟩ := hloop
  have hnone : t.view.queued = [] := by
    apply eq_nil_iff_forall_not_mem.mpr
    intro p hp
    obtain ⟨m, hm, hpm⟩ := mem_allItems.mp hp
    have hring := hempty m (hkept.list ▸ hm)
    change p ∈ (t.neighbor m).txArray at hpm
    rw [hring] at hpm
    cases hpm
  -- what was flushed is what was queued
  have hcount : ∀ p, flushed.count p = s.view.queued.count p := by
    intro p
    simpa [hnone] using hflushed.queued p
  refine ⟨⟨hflushed.wf, hflushed.dequeued, fun p ↦ ?_, fun p ↦ ?_⟩, hnone⟩
  · have hqueued := hflushed.queued p
    rw [hcount] at hqueued
    exact hqueued
  · have hcounted := hflushed.counted p
    rw [hcount] at hcounted
    exact hcounted

end Packets

end ContikiMaster.Tsch
