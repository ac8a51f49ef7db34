import ContikiMaster.Csma.QueueMachine

/-!
# How often a packet is put on the air

Every attempt that is not acknowledged advances one of the two counters of the neighbour, so that
their values bound how often the first packet of a queue was put on the air without an
acknowledgement.
-/

namespace ContikiMaster.Csma

open Lib List Option
open Tsch (Linkaddr)

/-- How often the packet of a call was put on the air and no acknowledgement was heard. -/
def noacks (aired : List Airing) (call : ℕ) : ℕ :=
  aired.countP fun y ↦ y.call = call ∧ y.status = .noack

/-- How often the packet of a call was put on the air without success. -/
def unacked (aired : List Airing) (call : ℕ) : ℕ :=
  aired.countP fun y ↦ y.call = call ∧ y.status ≠ .ok

section Counts

variable {aired : List Airing} {call c : ℕ} {status : MacStatus} {transmit : Option RadioTx}

theorem noacks_airing_of_ne (hne : c ≠ call) :
    noacks (aired ++ airing call status transmit) c = noacks aired c := by
  cases transmit with
  | none => rw [airing, map_none, toList_none, append_nil]
  | some t => simp [noacks, airing, countP_append, Ne.symm hne]

theorem unacked_airing_of_ne (hne : c ≠ call) :
    unacked (aired ++ airing call status transmit) c = unacked aired c := by
  cases transmit with
  | none => rw [airing, map_none, toList_none, append_nil]
  | some t => simp [unacked, airing, countP_append, Ne.symm hne]

theorem noacks_airing_le : noacks (aired ++ airing call status transmit) call ≤
      noacks aired call + if status = .noack then 1 else 0 := by
  cases transmit with
  | none =>
    rw [airing, map_none, toList_none, append_nil]
    exact Nat.le_add_right _ _
  | some t => simp [noacks, airing, countP_append, countP_cons]

theorem unacked_airing_le : unacked (aired ++ airing call status transmit) call ≤
      unacked aired call + if status = .ok then 0 else 1 := by
  cases transmit with
  | none =>
    rw [airing, map_none, toList_none, append_nil]
    exact Nat.le_add_right _ _
  | some t =>
    simp only [unacked, airing, map_some, toList_some, countP_append, countP_singleton]
    split_ifs <;> simp_all

theorem noacks_of_ne (hne : ∀ y ∈ aired, y.call ≠ c) : noacks aired c = 0 := by
  apply countP_eq_zero.mpr
  intro y hy
  simp [hne y hy]

theorem unacked_of_ne (hne : ∀ y ∈ aired, y.call ≠ c) : unacked aired c = 0 := by
  apply countP_eq_zero.mpr
  intro y hy
  simp [hne y hy]

end Counts

/-- The counters of a neighbour bound how often its first packet was on the air. -/
structure NeighborQueue.Tried (conf : Conf) (x : NeighborQueue QbufMetadata)
    (noacks unacked maxTransmissions : ℕ) : Prop where
  noacks_le : noacks ≤ x.transmissions
  unacked_le : unacked ≤ (conf.maxBackoff + 1) * x.transmissions + min x.collisions conf.maxBackoff
  transmissions_lt : x.transmissions < maxTransmissions
  collisions_lt : x.collisions < 255

namespace NeighborQueue.Tried

variable {conf : Conf} {x : NeighborQueue QbufMetadata} {noacks unacked max : ℕ}
  {status : MacStatus}

section

variable (htried : x.Tried conf noacks unacked max)

include htried

theorem transmit_transmissions (hmax : max < 256) :
    (x.transmit conf 1).transmissions = x.transmissions + 1 := by
  have hlt := htried.transmissions_lt
  apply Nat.mod_eq_of_lt
  omega

theorem collide_of_le (hle : x.collisions + 1 ≤ conf.maxBackoff) :
    x.collide conf 1 = { x with collisions := x.collisions + 1 } := by
  have hmod : (x.collisions + 1) % 256 = x.collisions + 1 := by
    have hlt := htried.collisions_lt
    omega
  simp only [NeighborQueue.collide, hmod]
  rw [if_neg (Nat.not_lt.mpr hle)]

theorem collide_of_lt (hmax : max < 256) (hlt : conf.maxBackoff < x.collisions + 1) :
    x.collide conf 1 =
      { x with collisions := conf.minBe, transmissions := x.transmissions + 1 } := by
  have hmod : (x.collisions + 1) % 256 = x.collisions + 1 := by
    have hcollisions := htried.collisions_lt
    omega
  have htransmissions : (x.transmissions + 1) % 256 = x.transmissions + 1 := by
    have hbound := htried.transmissions_lt
    omega
  simp only [NeighborQueue.collide, hmod, htransmissions]
  rw [if_pos hlt]

theorem attempted (hmax : max < 256) (hagain : ¬x.isDone conf max status) :
    (x.attempted conf status).Tried conf (noacks + if status = .noack then 1 else 0)
      (unacked + if status = .ok then 0 else 1) max := by
  have hnoacks := htried.noacks_le
  have hunacked := htried.unacked_le
  have hexpand : (conf.maxBackoff + 1) * (x.transmissions + 1) =
      (conf.maxBackoff + 1) * x.transmissions + (conf.maxBackoff + 1) := Nat.mul_succ _ _
  cases status with
  | noack =>
    have hnext := htried.transmit_transmissions hmax
    have hlt : (x.transmit conf 1).transmissions < max := by
      simpa [NeighborQueue.isDone] using hagain
    refine ⟨?_, ?_, hlt, conf.minBe_lt⟩
    · change noacks + 1 ≤ (x.transmit conf 1).transmissions
      rw [hnext]
      exact Nat.succ_le_succ hnoacks
    · change unacked + 1 ≤ (conf.maxBackoff + 1) * (x.transmit conf 1).transmissions +
        min conf.minBe conf.maxBackoff
      rw [hnext, hexpand]
      omega
  | collision =>
    have hlt : (x.collide conf 1).transmissions < max := by
      simpa [NeighborQueue.isDone] using hagain
    change (x.collide conf 1).Tried conf (noacks + 0) (unacked + 1) max
    by_cases hle : x.collisions + 1 ≤ conf.maxBackoff
    · rw [htried.collide_of_le hle] at hlt ⊢
      refine ⟨hnoacks, ?_, hlt, ?_⟩
      · change unacked + 1 ≤ (conf.maxBackoff + 1) * x.transmissions +
          min (x.collisions + 1) conf.maxBackoff
        omega
      · exact Nat.lt_of_le_of_lt hle conf.maxBackoff_lt
    · rw [htried.collide_of_lt hmax (Nat.not_le.mp hle)] at hlt ⊢
      refine ⟨Nat.le_succ_of_le hnoacks, ?_, hlt, conf.minBe_lt⟩
      change unacked + 1 ≤ (conf.maxBackoff + 1) * (x.transmissions + 1) +
        min conf.minBe conf.maxBackoff
      rw [hexpand]
      omega
  | ok => exact absurd rfl hagain
  | deferred => exact absurd rfl hagain
  | err => exact absurd rfl hagain
  | errFatal => exact absurd rfl hagain

theorem bounded (status : MacStatus) :
    (noacks + if status = .noack then 1 else 0) ≤ max ∧
      (unacked + if status = .ok then 0 else 1) ≤ (conf.maxBackoff + 1) * max := by
  have hnoacks := htried.noacks_le
  have hunacked := htried.unacked_le
  have hlt := htried.transmissions_lt
  have hexpand : (conf.maxBackoff + 1) * (x.transmissions + 1) ≤ (conf.maxBackoff + 1) * max :=
    Nat.mul_le_mul_left _ hlt
  rw [Nat.mul_succ] at hexpand
  constructor <;> split_ifs <;> omega

end

end NeighborQueue.Tried

namespace Queues

variable {conf : Conf} {q q' : Queues}

/-- What is on record about every accepted packet: the packets of a queue are accepted ones, those
behind the first were never on the air, the counters bound how often the first was, and no
accepted packet was on the air too often. -/
structure Attempts (conf : Conf) (q : Queues) : Prop where
  recorded : ∀ x ∈ q.neighbors, ∀ p ∈ x.packetQueue,
    ⟨p.sent, x.addr, p.maxTransmissions⟩ ∈ q.accepted ∧ p.maxTransmissions < 256
  fresh : ∀ x ∈ q.neighbors, ∀ p ∈ x.packetQueue.tail,
    (∀ y ∈ q.aired, y.call ≠ p.sent) ∧ 0 < p.maxTransmissions
  tried : ∀ x ∈ q.neighbors, ∀ p ∈ x.packetQueue.head?,
    x.Tried conf (noacks q.aired p.sent) (unacked q.aired p.sent) p.maxTransmissions
  known : ∀ y ∈ q.aired, y.call < q.calls
  bounded : ∀ a ∈ q.accepted, noacks q.aired a.call ≤ a.maxTransmissions ∧
    unacked q.aired a.call ≤ (conf.maxBackoff + 1) * a.maxTransmissions

theorem call_of_mem_airing {call : ℕ} {status : MacStatus} {transmit : Option RadioTx} {y : Airing}
    (hy : y ∈ airing call status transmit) : y.call = call := by
  obtain ⟨t, -, rfl⟩ := map_eq_some_iff.mp (mem_toList.mp hy)
  rfl

section Others

variable {front back : List (NeighborQueue QbufMetadata)} {x y : NeighborQueue QbufMetadata}
  {p packet : QbufMetadata} {rest : List QbufMetadata}

theorem mem_waiting {l : List (NeighborQueue QbufMetadata)} (hy : y ∈ l)
    (hp : p ∈ y.packetQueue) : p.sent ∈ waiting l y.addr :=
  mem_flatMap.mpr ⟨y, mem_filter.mpr ⟨hy, decide_eq_true rfl⟩, mem_map_of_mem hp⟩

theorem sent_ne_of_other (hshape : q.Shape) (haccounted : q.jobs.Accounted)
    (hneighbors : q.neighbors = front ++ x :: back) (hpacket : packet ∈ x.packetQueue)
    (hy : y ∈ front ++ back) (hp : p ∈ y.packetQueue) : p.sent ≠ packet.sent := by
  intro hsame
  have hx : x ∈ q.neighbors := hneighbors ▸ mem_append_right front mem_cons_self
  have hyq : y ∈ q.neighbors := by
    rw [hneighbors]
    apply List.Sublist.subset _ hy
    exact (sublist_cons_self x back).append_left front
  have hwaiting : p.sent ∈ q.jobs.queue y.addr := mem_waiting hyq hp
  have hwaiting' : p.sent ∈ q.jobs.queue x.addr := hsame ▸ mem_waiting hx hpacket
  have haddr : y.addr = x.addr :=
    haccounted.key_unique (haccounted.mem_of_queue hwaiting) (haccounted.mem_of_queue hwaiting')
  have haddrs := hshape.addrs
  rw [hneighbors, (perm_middle.map _).nodup_iff, map_cons] at haddrs
  exact (nodup_cons.mp haddrs).1 (haddr ▸ mem_map_of_mem hy)

theorem sent_ne_of_rest (hshape : q.Shape) (haccounted : q.jobs.Accounted)
    (hneighbors : q.neighbors = front ++ x :: back) (hqueue : x.packetQueue = packet :: rest)
    (hp : p ∈ rest) : p.sent ≠ packet.sent := by
  have hnodup : (waiting q.neighbors x.addr).Nodup := haccounted.nodup_queue x.addr
  have haddrs := hneighbors ▸ hshape.addrs
  rw [hneighbors, waiting_split haddrs, hqueue, map_cons] at hnodup
  intro hsame
  exact (nodup_cons.mp hnodup).1 (hsame ▸ mem_map_of_mem hp)

variable {new : List (NeighborQueue QbufMetadata)}

theorem mem_split_cases (hy : y ∈ front ++ new ++ back) : y ∈ front ++ back ∨ y ∈ new := by
  rcases mem_append.mp hy with hy | hy
  · rcases mem_append.mp hy with hy | hy
    · exact .inl (mem_append_left _ hy)
    · exact .inr hy
  · exact .inl (mem_append_right _ hy)

theorem Attempts.attempt (hattempts : q.Attempts conf) (hshape : q.Shape)
    (haccounted : q.jobs.Accounted) (hneighbors : q.neighbors = front ++ x :: back)
    (hqueue : x.packetQueue = packet :: rest) {status : MacStatus} {transmit : Option RadioTx}
    {called : List Called} (hnew : ∀ y ∈ new, y.addr = x.addr ∧ y.packetQueue ⊆ packet :: rest ∧
      y.packetQueue.tail ⊆ rest ∧ ∀ p ∈ y.packetQueue.head?,
        y.Tried conf (noacks (q.aired ++ airing packet.sent status transmit) p.sent)
          (unacked (q.aired ++ airing packet.sent status transmit) p.sent) p.maxTransmissions) :
    Attempts conf ⟨front ++ new ++ back, q.calls, q.accepted, called,
      q.aired ++ airing packet.sent status transmit⟩ := by
  have hx : x ∈ q.neighbors := hneighbors ▸ mem_append_right front mem_cons_self
  have hpacket : packet ∈ x.packetQueue := hqueue ▸ mem_cons_self
  have hold : ∀ y ∈ front ++ back, y ∈ q.neighbors := fun y hy ↦ by
    rw [hneighbors]
    apply List.Sublist.subset _ hy
    exact (sublist_cons_self x back).append_left front
  refine ⟨fun y hy p hp ↦ ?_, fun y hy p hp ↦ ?_, fun y hy p hp ↦ ?_, fun y hy ↦ ?_, fun a ha ↦ ?_⟩
  · rcases mem_split_cases hy with hy | hy
    · exact hattempts.recorded y (hold y hy) p hp
    · obtain ⟨haddr, hsub, -, -⟩ := hnew y hy
      rw [haddr]
      exact hattempts.recorded x hx p (hqueue ▸ hsub hp)
  · have hfresh : (∀ z ∈ q.aired, z.call ≠ p.sent) ∧ 0 < p.maxTransmissions := by
      rcases mem_split_cases hy with hy | hy
      · exact hattempts.fresh y (hold y hy) p hp
      · exact hattempts.fresh x hx p (hqueue ▸ (hnew y hy).2.2.1 hp)
    refine ⟨fun z hz ↦ ?_, hfresh.2⟩
    rcases mem_append.mp hz with hz | hz
    · exact hfresh.1 z hz
    · rw [call_of_mem_airing hz]
      rcases mem_split_cases hy with hy | hy
      · exact (sent_ne_of_other hshape haccounted hneighbors hpacket hy
          (mem_of_mem_tail hp)).symm
      · exact (sent_ne_of_rest hshape haccounted hneighbors hqueue ((hnew y hy).2.2.1 hp)).symm
  · rcases mem_split_cases hy with hy | hy
    · have hne := sent_ne_of_other hshape haccounted hneighbors hpacket hy
        (mem_of_mem_head? hp)
      rw [noacks_airing_of_ne hne, unacked_airing_of_ne hne]
      exact hattempts.tried y (hold y hy) p hp
    · exact (hnew y hy).2.2.2 p hp
  · rcases mem_append.mp hy with hy | hy
    · exact hattempts.known y hy
    · rw [call_of_mem_airing hy]
      exact haccounted.lt_of_queue (mem_waiting hx hpacket)
  · by_cases hcall : a.call = packet.sent
    · have hentry := (hattempts.recorded x hx packet hpacket).1
      have hsame : a = ⟨packet.sent, x.addr, packet.maxTransmissions⟩ := by
        apply inj_on_of_nodup_map _ ha hentry hcall
        have hdistinct := haccounted.distinct
        change ((q.accepted.map fun y ↦ (y.receiver, y.call)).map Prod.snd).Nodup at hdistinct
        rwa [List.map_map] at hdistinct
      have hlimits := (hattempts.tried x hx packet (by rw [hqueue]; rfl)).bounded status
      rw [hsame]
      exact ⟨noacks_airing_le.trans hlimits.1, unacked_airing_le.trans hlimits.2⟩
    · have hcounts := hattempts.bounded a ha
      rwa [← noacks_airing_of_ne hcall, ← unacked_airing_of_ne hcall] at hcounts

end Others

theorem Attempts.unseen (hattempts : q.Attempts conf) : ∀ y ∈ q.aired, y.call ≠ q.calls :=
  fun y hy ↦ Nat.ne_of_lt (hattempts.known y hy)

theorem Attempts.bounded_append (hattempts : q.Attempts conf) {receiver : Linkaddr}
    {maxTransmissions : ℕ} : ∀ a ∈ q.accepted ++ [⟨q.calls, receiver, maxTransmissions⟩],
      noacks q.aired a.call ≤ a.maxTransmissions ∧
        unacked q.aired a.call ≤ (conf.maxBackoff + 1) * a.maxTransmissions := by
  intro a ha
  rcases mem_append.mp ha with ha | ha
  · exact hattempts.bounded a ha
  · rw [mem_singleton.mp ha, noacks_of_ne hattempts.unseen, unacked_of_ne hattempts.unseen]
    exact ⟨Nat.zero_le _, Nat.zero_le _⟩

theorem tried_fresh {x : NeighborQueue QbufMetadata} {aired : List Airing} {p : QbufMetadata}
    (htransmissions : x.transmissions = 0) (hcollisions : x.collisions = conf.minBe)
    (hfresh : ∀ y ∈ aired, y.call ≠ p.sent) (hpos : 0 < p.maxTransmissions) :
    x.Tried conf (noacks aired p.sent) (unacked aired p.sent) p.maxTransmissions := by
  rw [noacks_of_ne hfresh, unacked_of_ne hfresh]
  refine ⟨Nat.zero_le _, Nat.zero_le _, htransmissions ▸ hpos, ?_⟩
  rw [hcollisions]
  exact conf.minBe_lt

theorem attempts_step (hattempts : q.Attempts conf) (hshape : q.Shape)
    (haccounted : q.jobs.Accounted) (hstep : Step conf q q') : q'.Attempts conf := by
  cases hstep with
  | idle => exact hattempts
  | reject =>
    exact ⟨hattempts.recorded, hattempts.fresh, hattempts.tried,
      fun y hy ↦ Nat.lt_succ_of_lt (hattempts.known y hy), hattempts.bounded⟩
  | start addr maxTransmissions hnew hpos hlt =>
    refine ⟨fun x hx p hp ↦ ?_, fun x hx p hp ↦ ?_, fun x hx p hp ↦ ?_,
      fun y hy ↦ Nat.lt_succ_of_lt (hattempts.known y hy), hattempts.bounded_append⟩
    · rcases mem_append.mp hx with hx | hx
      · obtain ⟨hrecorded, hbound⟩ := hattempts.recorded x hx p hp
        exact ⟨mem_append_left _ hrecorded, hbound⟩
      · rw [mem_singleton.mp hx] at hp ⊢
        rw [mem_singleton.mp hp]
        exact ⟨mem_append_right _ mem_cons_self, hlt⟩
    · rcases mem_append.mp hx with hx | hx
      · exact hattempts.fresh x hx p hp
      · rw [mem_singleton.mp hx] at hp
        cases hp
    · rcases mem_append.mp hx with hx | hx
      · exact hattempts.tried x hx p hp
      · rw [mem_singleton.mp hx] at hp ⊢
        rw [← some.inj hp]
        exact tried_fresh rfl rfl hattempts.unseen hpos
  | join front x back maxTransmissions hneighbors hpos hlt =>
    have hx : x ∈ q.neighbors := hneighbors ▸ mem_append_right front mem_cons_self
    have hsplit : ∀ y ∈ front ++
        { x with packetQueue := x.packetQueue ++ [⟨q.calls, maxTransmissions⟩] } :: back,
        y ∈ q.neighbors ∨
          y = { x with packetQueue := x.packetQueue ++ [⟨q.calls, maxTransmissions⟩] } := by
      intro y hy
      rw [hneighbors]
      rcases mem_append.mp hy with hy | hy
      · exact .inl (mem_append_left _ hy)
      · rcases mem_cons.mp hy with hy | hy
        · exact .inr hy
        · exact .inl (mem_append_right _ (mem_cons_of_mem x hy))
    have hnonempty := hshape.nonempty x hx
    refine ⟨fun y hy p hp ↦ ?_, fun y hy p hp ↦ ?_, fun y hy p hp ↦ ?_,
      fun y hy ↦ Nat.lt_succ_of_lt (hattempts.known y hy), hattempts.bounded_append⟩
    · rcases hsplit y hy with hy | rfl
      · obtain ⟨hrecorded, hbound⟩ := hattempts.recorded y hy p hp
        exact ⟨mem_append_left _ hrecorded, hbound⟩
      · rcases mem_append.mp hp with hp | hp
        · obtain ⟨hrecorded, hbound⟩ := hattempts.recorded x hx p hp
          exact ⟨mem_append_left _ hrecorded, hbound⟩
        · rw [mem_singleton.mp hp]
          exact ⟨mem_append_right _ mem_cons_self, hlt⟩
    · rcases hsplit y hy with hy | rfl
      · exact hattempts.fresh y hy p hp
      · change p ∈ (x.packetQueue ++ [_]).tail at hp
        rw [tail_append_of_ne_nil hnonempty] at hp
        rcases mem_append.mp hp with hp | hp
        · exact hattempts.fresh x hx p hp
        · rw [mem_singleton.mp hp]
          exact ⟨hattempts.unseen, hpos⟩
    · rcases hsplit y hy with hy | rfl
      · exact hattempts.tried y hy p hp
      · change p ∈ (x.packetQueue ++ [_]).head? at hp
        rw [head?_append_of_ne_nil _ hnonempty] at hp
        obtain ⟨hnoacks, hunacked, htransmissions, hcollisions⟩ := hattempts.tried x hx p hp
        exact ⟨hnoacks, hunacked, htransmissions, hcollisions⟩
  | resend front x back packet rest status transmit hneighbors hqueue hagain =>
    have hx : x ∈ q.neighbors := hneighbors ▸ mem_append_right front mem_cons_self
    have hpacket : packet ∈ x.packetQueue := hqueue ▸ mem_cons_self
    have hlist : front ++ { x.attempted conf status with transmitTimer := true } :: back =
        front ++ [{ x.attempted conf status with transmitTimer := true }] ++ back := by
      rw [append_assoc, singleton_append]
    rw [hlist]
    refine hattempts.attempt hshape haccounted hneighbors hqueue fun y hy ↦ ?_
    rw [mem_singleton.mp hy]
    change (x.attempted conf status).addr = x.addr ∧
      (x.attempted conf status).packetQueue ⊆ packet :: rest ∧
      (x.attempted conf status).packetQueue.tail ⊆ rest ∧
      ∀ p ∈ (x.attempted conf status).packetQueue.head?, _
    rw [attempted_addr, attempted_packetQueue, hqueue]
    refine ⟨rfl, fun _ hp ↦ hp, fun _ hp ↦ hp, fun p hp ↦ ?_⟩
    rw [← some.inj hp]
    have htried := (hattempts.tried x hx packet (by rw [hqueue]; rfl)).attempted
      (hattempts.recorded x hx packet hpacket).2 hagain
    exact ⟨noacks_airing_le.trans htried.noacks_le, unacked_airing_le.trans htried.unacked_le,
      htried.transmissions_lt, htried.collisions_lt⟩
  | complete front x back packet rest status transmit hneighbors hqueue hdone =>
    have hx : x ∈ q.neighbors := hneighbors ▸ mem_append_right front mem_cons_self
    refine hattempts.attempt hshape haccounted hneighbors hqueue fun y hy ↦ ?_
    obtain ⟨haddr, -, htransmissions, hcollisions, hrest, -⟩ := mem_drop hy
    rw [haddr, hrest]
    refine ⟨rfl, fun p hp ↦ mem_cons_of_mem packet hp, fun p hp ↦ mem_of_mem_tail hp, fun p hp ↦ ?_⟩
    have hmem := mem_of_mem_head? hp
    obtain ⟨hfresh, hpos⟩ := hattempts.fresh x hx p (by rw [hqueue]; exact hmem)
    apply tried_fresh htransmissions hcollisions _ hpos
    intro z hz
    rcases mem_append.mp hz with hz | hz
    · exact hfresh z hz
    · rw [call_of_mem_airing hz]
      exact (sent_ne_of_rest hshape haccounted hneighbors hqueue hmem).symm

/-- What holds of the queues in every run. -/
structure Inv (conf : Conf) (q : Queues) : Prop where
  shape : q.Shape
  accounted : q.jobs.Accounted
  attempts : q.Attempts conf

theorem Inv.step (hinv : q.Inv conf) (hstep : Step conf q q') : q'.Inv conf where
  shape := hinv.shape.step hstep
  accounted := accounted_step hinv.shape hinv.accounted hstep
  attempts := attempts_step hinv.attempts hinv.shape hinv.accounted hstep

theorem inv_empty (conf : Conf) : Inv conf ⟨[], 0, [], [], []⟩ where
  shape := ⟨nodup_nil, fun _ hx ↦ absurd hx not_mem_nil, fun _ hx ↦ absurd hx not_mem_nil⟩
  accounted := JobQueues.accounted_empty
  attempts := ⟨fun _ hx ↦ absurd hx not_mem_nil, fun _ hx ↦ absurd hx not_mem_nil,
    fun _ hx ↦ absurd hx not_mem_nil, fun _ hy ↦ absurd hy not_mem_nil,
    fun _ ha ↦ absurd ha not_mem_nil⟩

end Queues

end ContikiMaster.Csma
