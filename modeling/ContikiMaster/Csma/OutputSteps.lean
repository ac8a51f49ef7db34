import ContikiMaster.Csma.OutputPools

/-!
# The transmit queues refine the abstract machine

Every function of the CSMA output code leaves the pools consistent and does to the queues
that the blocks represent what one step of the abstract machine does.
-/

namespace ContikiMaster.Csma

open Lib Sys Net Function List Memb
open Tsch (Linkaddr)

namespace State

variable {s s' : State} {n n' p m : ℕ} {front back rest : List ℕ} {x y : NeighborQueue ℕ}
  {conf : Conf}

/-- The state with another content of a neighbour block. -/
def setNeighbor (s : State) (n : ℕ) (x : NeighborQueue ℕ) : State :=
  { s with neighborMemb := s.neighborMemb.store n x }

@[simp] theorem setNeighbor_self : (s.setNeighbor n x).neighbor n = x := store_mem_self

theorem setNeighbor_of_ne (hne : n' ≠ n) : (s.setNeighbor n x).neighbor n' = s.neighbor n' :=
  store_mem_of_ne hne

@[simp] theorem setNeighbor_setNeighbor :
    (s.setNeighbor n x).setNeighbor n y = s.setNeighbor n y := by
  unfold setNeighbor store
  simp only [update_idem]

theorem view_setNeighbor_self : (s.setNeighbor n x).view n = x.map s.metadataOf := by
  unfold view
  rw [setNeighbor_self]
  rfl

theorem view_setNeighbor_of_ne (hne : n' ≠ n) : (s.setNeighbor n x).view n' = s.view n' := by
  unfold view
  rw [setNeighbor_of_ne hne]
  rfl

variable {l : List ℕ}

theorem map_view_setNeighbor_of_notMem (hn : n ∉ l) :
    l.map (s.setNeighbor n x).view = l.map s.view :=
  map_congr_left fun _ hmem ↦ view_setNeighbor_of_ne fun heq ↦ hn (heq ▸ hmem)

theorem map_view_setNeighbor (hnodup : (front ++ n :: back).Nodup) :
    (front ++ n :: back).map (s.setNeighbor n x).view =
      front.map s.view ++ x.map s.metadataOf :: back.map s.view := by
  obtain ⟨-, hback, hfront⟩ := nodup_append.mp hnodup
  have hfrontNot : n ∉ front := fun hmem ↦ hfront n hmem n mem_cons_self rfl
  rw [map_append, map_cons, map_view_setNeighbor_of_notMem hfrontNot,
    map_view_setNeighbor_of_notMem (nodup_cons.mp hback).1, view_setNeighbor_self]

theorem access_of_count (hcount : s.neighborMemb.count n = 1) : s.access n = s := by
  unfold access
  rw [hcount]
  change { s with dangling := s.dangling || false } = s
  rw [Bool.or_false]

theorem accessAll_of_count (hcount : ∀ n ∈ l, s.neighborMemb.count n = 1) : s.accessAll l = s := by
  induction l with
  | nil => rfl
  | cons n l ih =>
    change (s.access n).accessAll l = s
    rw [access_of_count (hcount n mem_cons_self)]
    exact ih fun n hn ↦ hcount n (mem_cons_of_mem _ hn)

namespace Listed

section

variable (hlisted : s.Listed)

include hlisted

theorem access (hn : n ∈ s.neighborList) : s.access n = s :=
  access_of_count (hlisted.neighbors.count_of_mem hn)

theorem accessAll : s.accessAll s.neighborList = s :=
  accessAll_of_count fun _ hn ↦ hlisted.neighbors.count_of_mem hn

theorem updateNeighbor (hn : n ∈ s.neighborList) (f : NeighborQueue ℕ → NeighborQueue ℕ) :
    s.updateNeighbor n f = s.setNeighbor n (f (s.neighbor n)) := by
  unfold State.updateNeighbor
  rw [hlisted.access hn]
  rfl

theorem setNeighbor (hn : n ∈ s.neighborList) (x : NeighborQueue ℕ) :
    (s.setNeighbor n x).Listed where
  neighbors := hlisted.neighbors.store n x
  timers n' htimer := by
    by_cases hne : n' = n
    · exact hne ▸ hn
    · rw [setNeighbor_of_ne hne] at htimer
      exact hlisted.timers n' htimer
  dangling := hlisted.dangling

theorem neighborQueueFrom (addr : Linkaddr) {l : List ℕ} (hl : ∀ n ∈ l, n ∈ s.neighborList) :
    neighborQueueFrom addr l s = (s, l.find? fun n ↦ (s.neighbor n).addr = addr) := by
  induction l with
  | nil => rfl
  | cons n l ih =>
    unfold Csma.neighborQueueFrom
    rw [hlisted.access (hl n mem_cons_self)]
    rw [find?_cons]
    by_cases haddr : (s.neighbor n).addr = addr
    · simp only [if_pos haddr, decide_eq_true haddr]
    · simp only [if_neg haddr, decide_eq_false haddr]
      exact ih fun n hn ↦ hl n (mem_cons_of_mem _ hn)

theorem neighborQueueFromAddr (addr : Linkaddr) :
    neighborQueueFromAddr s addr = (s, s.neighborList.find? fun n ↦ (s.neighbor n).addr = addr) :=
  hlisted.neighborQueueFrom addr fun _ hn ↦ hn

theorem removeNeighbor_eq :
    removeNeighbor s n = { s with
      neighborList := s.neighborList.erase n, neighborMemb := s.neighborMemb.free n } := by
  unfold removeNeighbor
  rw [hlisted.accessAll]
  rfl

theorem removeNeighbor (hn : n ∈ s.neighborList)
    (htimer : (s.neighbor n).transmitTimer = false) : (removeNeighbor s n).Listed := by
  rw [hlisted.removeNeighbor_eq]
  refine ⟨(hlisted.neighbors.perm (perm_cons_erase hn)).free, fun n' htimer' ↦ ?_, hlisted.dangling⟩
  change (NeighborQueue.transmitTimer ((s.neighborMemb.free n).mem n')) = true at htimer'
  rw [free_mem] at htimer'
  have hne : n' ≠ n := by
    rintro rfl
    exact Bool.noConfusion (htimer.symm.trans htimer')
  exact (mem_erase_of_ne hne).mpr (hlisted.timers n' htimer')

end

end Listed

/-- The pools after a packet was given back. -/
def release (s : State) (p m : ℕ) : State :=
  { s with
    queuebufs := s.queuebufs.free (s.packet p).buf
    metadataMemb := s.metadataMemb.free m
    packetMemb := s.packetMemb.free p }

theorem release_metadataOf : (s.release p m).metadataOf = s.metadataOf := by
  funext q
  change (s.metadataMemb.free m).mem (((s.packetMemb.free p).mem q).ptr.getD 0) = _
  rw [free_mem, free_mem]
  rfl

theorem release_view : (s.release p m).view = s.view := by
  funext q
  unfold view
  rw [release_metadataOf]
  rfl

theorem queued_setNeighbor (hqueue : x.packetQueue = (s.neighbor n).packetQueue) :
    (s.setNeighbor n x).queued = s.queued := by
  apply allItems_congr
  intro n' _
  by_cases hne : n' = n
  · rw [hne, setNeighbor_self, hqueue]
  · rw [setNeighbor_of_ne hne]

namespace Sound

theorem setNeighbor (hsound : s.Sound) (hn : n ∈ s.neighborList)
    (hqueue : x.packetQueue = (s.neighbor n).packetQueue) : (s.setNeighbor n x).Sound where
  listed := hsound.listed.setNeighbor hn x
  blocks := by
    rw [queued_setNeighbor hqueue]
    exact hsound.blocks.of_eq rfl rfl rfl rfl

theorem mem_queued (hn : n ∈ s.neighborList) (hp : p ∈ (s.neighbor n).packetQueue) : p ∈ s.queued :=
  mem_allItems.mpr ⟨n, hn, hp⟩

section

variable (hsound : s.Sound) (hn : n ∈ s.neighborList)

include hsound hn

theorem ptr (hp : p ∈ (s.neighbor n).packetQueue) : (s.packet p).ptr = some (s.metadataPtr p) :=
  hsound.blocks.ptr p (mem_queued hn hp)

theorem release (hqueue : (s.neighbor n).packetQueue = p :: rest) (hx : x.packetQueue = rest) :
    ((s.release p (s.metadataPtr p)).setNeighbor n x).Sound where
  listed := by
    have hreleased : (s.release p (s.metadataPtr p)).Listed :=
      ⟨hsound.listed.neighbors, hsound.listed.timers, hsound.listed.dangling⟩
    exact hreleased.setNeighbor hn x
  blocks := by
    have hp : p ∈ (s.neighbor n).packetQueue := hqueue ▸ mem_cons_self
    have hitems : s.queued.Perm
        (p :: ((s.release p (s.metadataPtr p)).setNeighbor n x).queued) := by
      apply allItems_perm hsound.listed.neighbors.nodup hn
      · rw [setNeighbor_self, hx, hqueue]
      · intro n' hne
        rw [setNeighbor_of_ne hne]
        rfl
    exact ((hsound.blocks.perm hitems).free (hsound.ptr hn hp)).of_eq rfl rfl rfl rfl

theorem removeNeighbor (hempty : (s.neighbor n).packetQueue = [])
    (htimer : (s.neighbor n).transmitTimer = false) : (removeNeighbor s n).Sound where
  listed := hsound.listed.removeNeighbor hn htimer
  blocks := by
    rw [hsound.listed.removeNeighbor_eq]
    have hqueued : allItems (s.neighborList.erase n)
        (fun n' ↦ NeighborQueue.packetQueue ((s.neighborMemb.free n).mem n')) = s.queued := by
      rw [free_mem]
      exact allItems_erase_key hsound.listed.neighbors.nodup hempty
    change Blocks _ (allItems (s.neighborList.erase n)
      fun n' ↦ NeighborQueue.packetQueue ((s.neighborMemb.free n).mem n'))
    rw [hqueued]
    exact hsound.blocks.of_eq rfl rfl rfl rfl

end

end Sound

theorem removeNeighbor_queues (hlisted : s.Listed) (hlist : s.neighborList = front ++ n :: back) :
    (removeNeighbor s n).queues = { s.queues with
      neighbors := front.map s.view ++ back.map s.view } := by
  rw [hlisted.removeNeighbor_eq]
  have hnodup := hlisted.neighbors.nodup
  rw [hlist] at hnodup
  have hfront : n ∉ front := fun hmem ↦ (nodup_append.mp hnodup).2.2 n hmem n mem_cons_self rfl
  have herase : s.neighborList.erase n = front ++ back := by
    rw [hlist, erase_append_right _ hfront, erase_cons_head]
  have hview : State.view { s with
      neighborList := s.neighborList.erase n, neighborMemb := s.neighborMemb.free n } = s.view := by
    funext n'
    change NeighborQueue.map s.metadataOf ((s.neighborMemb.free n).mem n') = _
    rw [free_mem]
    rfl
  unfold queues
  rw [hview, herase, map_append]

theorem queues_setNeighbor (hlisted : s.Listed) (hlist : s.neighborList = front ++ n :: back) :
    (s.setNeighbor n x).queues = { s.queues with
      neighbors := front.map s.view ++ x.map s.metadataOf :: back.map s.view } := by
  have hnodup := hlisted.neighbors.nodup
  rw [hlist] at hnodup
  unfold queues
  change Queues.mk (s.neighborList.map (s.setNeighbor n x).view) _ _ _ _ = _
  rw [hlist, map_view_setNeighbor hnodup]
  rfl

theorem queues_neighbors (hlist : s.neighborList = front ++ n :: back) :
    s.queues.neighbors = front.map s.view ++ s.view n :: back.map s.view := by
  change s.neighborList.map s.view = _
  rw [hlist, map_append, map_cons]

theorem freePacket_eq (hlisted : s.Listed) (hn : n ∈ s.neighborList)
    (hqueue : (s.neighbor n).packetQueue = p :: rest) : freePacket conf s n p m =
      if rest ≠ [] then
        (s.release p m).setNeighbor n ⟨(s.neighbor n).addr, true, 0, conf.minBe, rest⟩
      else
        Csma.removeNeighbor ((s.release p m).setNeighbor n
          { s.neighbor n with transmitTimer := false, packetQueue := rest }) n := by
  have hremoved : listRemove (s.neighbor n).packetQueue p = rest := by
    rw [hqueue]
    exact erase_cons_head _ _
  have hreleased : (s.release p m).Listed := ⟨hlisted.neighbors, hlisted.timers, hlisted.dangling⟩
  let x : NeighborQueue ℕ := { s.neighbor n with packetQueue := rest }
  have hfirst : ((s.release p m).setNeighbor n x).Listed := hreleased.setNeighbor hn x
  unfold freePacket
  rw [hlisted.updateNeighbor hn, hremoved]
  change scheduleNext conf ((s.release p m).setNeighbor n x) n = _
  unfold scheduleNext
  simp only [hfirst.access hn, hfirst.updateNeighbor hn, setNeighbor_self]
  split_ifs with hrest
  · have hsecond := hfirst.setNeighbor hn { x with transmissions := 0, collisions := conf.minBe }
    unfold scheduleTransmission
    rw [hsecond.updateNeighbor hn, setNeighbor_setNeighbor, setNeighbor_setNeighbor,
      setNeighbor_self]
  · rw [setNeighbor_setNeighbor]

variable (conf) in
/-- The first packet of a queue is given back; the next one is scheduled, or the neighbour goes. -/
theorem freePacket_spec (hsound : s.Sound) (hlist : s.neighborList = front ++ n :: back)
    (hqueue : (s.neighbor n).packetQueue = p :: rest) :
    (freePacket conf s n p (s.metadataPtr p)).Sound ∧
      (freePacket conf s n p (s.metadataPtr p)).queues = { s.queues with
        neighbors := front.map s.view ++ (s.view n).drop conf (rest.map s.metadataOf) ++
          back.map s.view } := by
  have hn : n ∈ s.neighborList := hlist ▸ mem_append_right front mem_cons_self
  have hreleased : (s.release p (s.metadataPtr p)).Listed :=
    ⟨hsound.listed.neighbors, hsound.listed.timers, hsound.listed.dangling⟩
  rw [freePacket_eq hsound.listed hn hqueue]
  cases rest with
  | cons i rest =>
    rw [if_pos (cons_ne_nil i rest)]
    refine ⟨hsound.release hn hqueue rfl, ?_⟩
    rw [queues_setNeighbor hreleased hlist, release_view, release_metadataOf, append_assoc]
    rfl
  | nil =>
    rw [if_neg fun hne ↦ hne rfl]
    let x : NeighborQueue ℕ := { s.neighbor n with transmitTimer := false, packetQueue := [] }
    have hdropped : ((s.release p (s.metadataPtr p)).setNeighbor n x).Sound :=
      hsound.release hn hqueue rfl
    have hself := setNeighbor_self (s := s.release p (s.metadataPtr p)) (n := n) (x := x)
    refine ⟨hdropped.removeNeighbor hn (by rw [hself]) (by rw [hself]), ?_⟩
    rw [removeNeighbor_queues hdropped.listed hlist]
    have hnodup := hsound.listed.neighbors.nodup
    rw [hlist] at hnodup
    obtain ⟨-, hback, hfront⟩ := nodup_append.mp hnodup
    rw [map_view_setNeighbor_of_notMem fun hmem ↦ hfront n hmem n mem_cons_self rfl,
      map_view_setNeighbor_of_notMem (nodup_cons.mp hback).1, release_view]
    change _ = { s.queues with neighbors := front.map s.view ++ [] ++ back.map s.view }
    rw [append_nil]
    rfl

theorem callSent_queues {call ntx : ℕ} {status : MacStatus} :
    (s.callSent call status ntx).queues = ⟨s.queues.neighbors, s.queues.calls,
      s.queues.accepted, s.queues.called ++ [⟨call, status, ntx⟩], s.queues.aired⟩ := rfl

theorem txDone_eq (hlisted : s.Listed) (hn : n ∈ s.neighborList) {status : MacStatus} :
    txDone conf s status p n m =
      (freePacket conf s n p m).callSent (s.metadataMemb.mem m).sent status
        (s.neighbor n).transmissions := by
  unfold txDone
  rw [hlisted.access hn]

variable (conf) in
/-- The first packet of a queue is done: it is given back and its callback is called. -/
theorem txDone_spec (hsound : s.Sound) (hlist : s.neighborList = front ++ n :: back)
    (hqueue : (s.neighbor n).packetQueue = p :: rest) (status : MacStatus) :
    (txDone conf s status p n (s.metadataPtr p)).Sound ∧
      (txDone conf s status p n (s.metadataPtr p)).queues = { s.queues with
        neighbors := front.map s.view ++ (s.view n).drop conf (rest.map s.metadataOf) ++
          back.map s.view
        called := s.called ++ [⟨(s.metadataOf p).sent, status, (s.neighbor n).transmissions⟩] } := by
  have hn : n ∈ s.neighborList := hlist ▸ mem_append_right front mem_cons_self
  obtain ⟨hfreed, hqueues⟩ := freePacket_spec conf hsound hlist hqueue
  rw [txDone_eq hsound.listed hn]
  constructor
  · exact ⟨⟨hfreed.listed.neighbors, hfreed.listed.timers, hfreed.listed.dangling⟩,
      hfreed.blocks.of_eq rfl rfl rfl rfl⟩
  · rw [callSent_queues, hqueues]
    rfl

theorem rexmit_spec (hsound : s.Sound) (hlist : s.neighborList = front ++ n :: back)
    (packetbuf : Attrs) : (rexmit s packetbuf p n).Sound ∧
      (rexmit s packetbuf p n).queues = { s.queues with
        neighbors := front.map s.view ++
          { s.view n with transmitTimer := true } :: back.map s.view } := by
  have hn : n ∈ s.neighborList := hlist ▸ mem_append_right front mem_cons_self
  have hscheduled : (s.setNeighbor n { s.neighbor n with transmitTimer := true }).Sound :=
    hsound.setNeighbor hn rfl
  unfold rexmit scheduleTransmission
  rw [hsound.listed.updateNeighbor hn]
  constructor
  · refine ⟨⟨hscheduled.listed.neighbors, hscheduled.listed.timers, hscheduled.listed.dangling⟩,
      ?_⟩
    have hblocks := hscheduled.blocks
    exact ⟨hblocks.packets, hblocks.metadata, hblocks.buffers.updateFromPacketbuf _ _, hblocks.ptr⟩
  · exact queues_setNeighbor hsound.listed hlist

theorem setNeighbor_neighbor : s.setNeighbor n (s.neighbor n) = s := by
  unfold setNeighbor store neighbor
  rw [update_eq_self]

theorem packetSent_eq (hlisted : s.Listed) (hn : n ∈ s.neighborList)
    (hqueue : (s.neighbor n).packetQueue = p :: rest)
    (hptr : (s.packet p).ptr = some (s.metadataPtr p)) {status : MacStatus}
    (hstatus : status ≠ .deferred) :
    packetSent conf s (s.queuebufs.toPacketbuf (s.packet p).buf) n status 1 =
      if (s.neighbor n).isDone conf (s.metadataOf p).maxTransmissions status then
        txDone conf (s.setNeighbor n ((s.neighbor n).attempted conf status)) status p n
          (s.metadataPtr p)
      else
        rexmit (s.setNeighbor n ((s.neighbor n).attempted conf status))
          (s.queuebufs.toPacketbuf (s.packet p).buf) p n := by
  have hfind : ((s.neighbor n).packetQueue.find? fun q ↦
      decide ((s.queuebufs.toPacketbuf (s.packet q).buf).macSeqno =
        (s.queuebufs.toPacketbuf (s.packet p).buf).macSeqno)) = some p := by
    rw [hqueue, find?_cons]
    simp only [decide_true]
  have hset : ∀ x, (s.setNeighbor n x).access n = s.setNeighbor n x := fun x ↦
    (hlisted.setNeighbor hn x).access hn
  unfold packetSent
  simp only [hlisted.access hn, hfind, hptr]
  cases status with
  | deferred => exact absurd rfl hstatus
  | ok =>
    unfold txOk
    rw [hlisted.updateNeighbor hn]
    rfl
  | noack =>
    unfold noack retry
    simp only [hlisted.updateNeighbor hn, hset, setNeighbor_self]
    simp only [NeighborQueue.isDone, decide_eq_true_eq]
    rfl
  | collision =>
    unfold collision retry
    simp only [hlisted.updateNeighbor hn, hset, setNeighbor_self]
    simp only [NeighborQueue.isDone, decide_eq_true_eq]
    rfl
  | err => exact congrArg (txDone conf · .err p n (s.metadataPtr p)) setNeighbor_neighbor.symm
  | errFatal =>
    exact congrArg (txDone conf · .errFatal p n (s.metadataPtr p)) setNeighbor_neighbor.symm

section Counters

variable {ι κ : Type} {f : ι → κ} {z : NeighborQueue ι} {b : Bool} {max : ℕ} {status : MacStatus}

theorem collide_map : (z.map f).collide conf 1 = (z.collide conf 1).map f := by
  by_cases hmore : conf.maxBackoff < (z.collisions + 1) % 256
  · simp [NeighborQueue.collide, NeighborQueue.map, hmore]
  · simp [NeighborQueue.collide, NeighborQueue.map, hmore]

theorem collide_timer : { z with transmitTimer := b }.collide conf 1 =
    { z.collide conf 1 with transmitTimer := b } := by
  by_cases hmore : conf.maxBackoff < (z.collisions + 1) % 256
  · simp [NeighborQueue.collide, hmore]
  · simp [NeighborQueue.collide, hmore]

theorem attempted_map : (z.map f).attempted conf status = (z.attempted conf status).map f := by
  cases status with
  | collision => exact collide_map
  | _ => rfl

theorem attempted_timer : { z with transmitTimer := b }.attempted conf status =
    { z.attempted conf status with transmitTimer := b } := by
  cases status with
  | collision => exact collide_timer
  | _ => rfl

theorem isDone_map : (z.map f).isDone conf max status = z.isDone conf max status := by
  cases status with
  | collision =>
    unfold NeighborQueue.isDone
    rw [collide_map]
    rfl
  | _ => rfl

theorem isDone_timer :
    { z with transmitTimer := b }.isDone conf max status = z.isDone conf max status := by
  cases status with
  | collision =>
    unfold NeighborQueue.isDone
    rw [collide_timer]
  | _ => rfl

end Counters

theorem ackStatus_ne_deferred (r : Radio) (isBroadcast : Bool) (dsn : ℕ) :
    ackStatus r isBroadcast dsn ≠ .deferred := by
  unfold ackStatus
  split_ifs <;> exact MacStatus.noConfusion

theorem sendStatus_ne_deferred (packetbuf : Attrs) (r : Radio) :
    (sendStatus packetbuf r).1 ≠ .deferred := by
  unfold sendStatus
  rcases r.header with _ | header
  · exact MacStatus.noConfusion
  · simp only
    split_ifs
    · exact MacStatus.noConfusion
    · cases r.transmit with
      | ok => exact ackStatus_ne_deferred r _ _
      | _ => exact MacStatus.noConfusion

theorem drop_congr {ι : Type} {z w : NeighborQueue ι} {l : List ι} (haddr : z.addr = w.addr) :
    z.drop conf l = w.drop conf l := by
  cases l with
  | nil => rfl
  | cons i l =>
    unfold NeighborQueue.drop
    rw [haddr]

/-- The timer of a neighbour has expired and its first packet was handed to the radio. -/
def onAir (s : State) (n call : ℕ) (status : MacStatus) (transmit : Option RadioTx) : State :=
  { s.setNeighbor n { s.neighbor n with transmitTimer := false } with
    aired := s.aired ++ airing call status transmit }

section OnAir

variable {call : ℕ} {status : MacStatus} {transmit : Option RadioTx}

@[simp] theorem onAir_neighbor : (s.onAir n call status transmit).neighbor n =
    { s.neighbor n with transmitTimer := false } := setNeighbor_self

theorem Sound.onAir (hsound : s.Sound) (hn : n ∈ s.neighborList) :
    (s.onAir n call status transmit).Sound := by
  have hset : (s.setNeighbor n { s.neighbor n with transmitTimer := false }).Sound :=
    hsound.setNeighbor hn rfl
  exact ⟨⟨hset.listed.neighbors, hset.listed.timers, hset.listed.dangling⟩,
    hset.blocks.of_eq rfl rfl rfl rfl⟩

theorem map_view_onAir (hn : n ∉ l) :
    l.map ((s.onAir n call status transmit).setNeighbor n x).view = l.map s.view := by
  rw [map_view_setNeighbor_of_notMem hn]
  exact map_view_setNeighbor_of_notMem hn

theorem packetSent_spec (hsound : s.Sound) (hlist : s.neighborList = front ++ n :: back)
    (hqueue : (s.neighbor n).packetQueue = p :: rest) (hstatus : status ≠ .deferred) :
    (packetSent conf (s.onAir n (s.metadataOf p).sent status transmit)
      (s.queuebufs.toPacketbuf (s.packet p).buf) n status 1).Sound ∧
    Queues.Step conf s.queues (packetSent conf (s.onAir n (s.metadataOf p).sent status transmit)
      (s.queuebufs.toPacketbuf (s.packet p).buf) n status 1).queues := by
  have hn : n ∈ s.neighborList := hlist ▸ mem_append_right front mem_cons_self
  have hnodup := hsound.listed.neighbors.nodup
  rw [hlist] at hnodup
  obtain ⟨-, hback, hfront⟩ := nodup_append.mp hnodup
  have hfrontNot : n ∉ front := fun hmem ↦ hfront n hmem n mem_cons_self rfl
  have hbackNot : n ∉ back := (nodup_cons.mp hback).1
  let t := s.onAir n (s.metadataOf p).sent status transmit
  have ht : t.Sound := hsound.onAir hn
  have hqueueT : (t.neighbor n).packetQueue = p :: rest := by
    rw [onAir_neighbor]
    exact hqueue
  have hptr : (t.packet p).ptr = some (t.metadataPtr p) := ht.ptr hn (hqueueT ▸ mem_cons_self)
  let x := (t.neighbor n).attempted conf status
  have hattempted : x = { (s.neighbor n).attempted conf status with transmitTimer := false } :=
    (congrArg (NeighborQueue.attempted conf · status) onAir_neighbor).trans attempted_timer
  have hx : x.packetQueue = (t.neighbor n).packetQueue := Queues.attempted_packetQueue
  have hnext : (t.setNeighbor n x).Sound := ht.setNeighbor hn hx
  have hnextQueue : ((t.setNeighbor n x).neighbor n).packetQueue = p :: rest := by
    rw [setNeighbor_self, hx, hqueueT]
  have hneighbors : s.queues.neighbors =
      front.map s.view ++ s.view n :: back.map s.view := queues_neighbors hlist
  have hqueueView : (s.view n).packetQueue = s.metadataOf p :: rest.map s.metadataOf := by
    change (s.neighbor n).packetQueue.map s.metadataOf = _
    rw [hqueue, map_cons]
  have hdone : (t.neighbor n).isDone conf (t.metadataOf p).maxTransmissions status =
      (s.view n).isDone conf (s.metadataOf p).maxTransmissions status := by
    rw [onAir_neighbor, isDone_timer]
    exact isDone_map.symm
  change (packetSent conf t (t.queuebufs.toPacketbuf (t.packet p).buf) n status 1).Sound ∧
    Queues.Step conf s.queues
      (packetSent conf t (t.queuebufs.toPacketbuf (t.packet p).buf) n status 1).queues
  rw [packetSent_eq ht.listed hn hqueueT hptr hstatus]
  split_ifs with hgive
  · obtain ⟨hsoundDone, hqueues⟩ := txDone_spec conf hnext hlist hnextQueue status
    refine ⟨hsoundDone, ?_⟩
    have hcomplete := Queues.Step.complete s.queues _ _ _ _ _ status transmit hneighbors
      hqueueView (hdone ▸ hgive)
    have haddr : ((t.setNeighbor n x).view n).addr = (s.view n).addr := by
      rw [view_setNeighbor_self]
      change x.addr = (s.neighbor n).addr
      rw [Queues.attempted_addr, onAir_neighbor]
    have htransmissions : ((t.setNeighbor n x).neighbor n).transmissions =
        ((s.view n).attempted conf status).transmissions := by
      rw [setNeighbor_self, hattempted, view, attempted_map]
      rfl
    rw [map_view_onAir hfrontNot, map_view_onAir hbackNot, drop_congr haddr, htransmissions]
      at hqueues
    exact hqueues ▸ hcomplete
  · obtain ⟨hsoundAgain, hqueues⟩ := rexmit_spec hnext hlist
      (t.queuebufs.toPacketbuf (t.packet p).buf)
    refine ⟨hsoundAgain, ?_⟩
    have hresend := Queues.Step.resend s.queues _ _ _ _ _ status transmit hneighbors
      hqueueView (hdone ▸ hgive)
    have hview : { (t.setNeighbor n x).view n with transmitTimer := true } =
        { (s.view n).attempted conf status with transmitTimer := true } := by
      rw [view_setNeighbor_self, hattempted, view, attempted_map]
      rfl
    rw [map_view_onAir hfrontNot, map_view_onAir hbackNot, hview] at hqueues
    exact hqueues ▸ hresend

end OnAir

theorem Sound.addNeighbor (hsound : s.Sound) {neighborMemb : Memb (NeighborQueue ℕ)}
    (halloc : s.neighborMemb.alloc = some (n, neighborMemb)) (hx : x.packetQueue = []) :
    n ∉ s.neighborList ∧
      Sound { s with
        neighborMemb := neighborMemb.store n x
        neighborList := s.neighborList ++ [n] } := by
  have hn := hsound.listed.neighbors.notMem_of_alloc halloc
  have hmem : neighborMemb.mem = s.neighborMemb.mem := (alloc_spec halloc).2.2.2.1
  refine ⟨hn, ⟨?_, fun n' htimer ↦ ?_, hsound.listed.dangling⟩, ?_⟩
  · exact ((hsound.listed.neighbors.alloc halloc).perm
      (perm_append_singleton n s.neighborList).symm).store n x
  · by_cases hne : n' = n
    · exact hne ▸ mem_append_right _ mem_cons_self
    · change (NeighborQueue.transmitTimer ((neighborMemb.store n x).mem n')) = true at htimer
      rw [store_mem_of_ne hne, hmem] at htimer
      exact mem_append_left _ (hsound.listed.timers n' htimer)
  · have hqueued : allItems (s.neighborList ++ [n])
        (fun n' ↦ NeighborQueue.packetQueue ((neighborMemb.store n x).mem n')) = s.queued := by
      rw [allItems_append_key]
      · apply allItems_congr
        intro n' hn'
        have hne : n' ≠ n := fun heq ↦ hn (heq ▸ hn')
        rw [store_mem_of_ne hne, hmem]
        rfl
      · rw [store_mem_self, hx]
    change Blocks _ (allItems (s.neighborList ++ [n])
      fun n' ↦ NeighborQueue.packetQueue ((neighborMemb.store n x).mem n'))
    rw [hqueued]
    exact hsound.blocks.of_eq rfl rfl rfl rfl

variable (conf) in
/-- The neighbour of a new packet: the listed one with the address, a new one without packets, or
none when all blocks are in use. -/
theorem findOrAddNeighbor_cases (hsound : s.Sound) (addr : Linkaddr) :
    (∃ n ∈ s.neighborList, (s.neighbor n).addr = addr ∧
      findOrAddNeighbor conf s addr = (s, some n)) ∨
    (∀ n ∈ s.neighborList, (s.neighbor n).addr ≠ addr) ∧
      (findOrAddNeighbor conf s addr = (s, none) ∨
        ∃ n neighborMemb, s.neighborMemb.alloc = some (n, neighborMemb) ∧
          findOrAddNeighbor conf s addr = ({ s with
            neighborMemb := neighborMemb.store n ⟨addr, false, 0, conf.minBe, []⟩
            neighborList := s.neighborList ++ [n] }, some n)) := by
  unfold findOrAddNeighbor
  rw [hsound.listed.neighborQueueFromAddr]
  rcases hfind : s.neighborList.find? fun n ↦ (s.neighbor n).addr = addr with _ | n
  · right
    simp only
    refine ⟨fun n hn ↦ of_decide_eq_false (by simpa using find?_eq_none.mp hfind n hn), ?_⟩
    rcases halloc : s.neighborMemb.alloc with _ | ⟨n, neighborMemb⟩
    · exact .inl rfl
    · right
      refine ⟨n, neighborMemb, rfl, ?_⟩
      have huses := hsound.listed.neighbors.alloc halloc
      have hnot := hsound.listed.neighbors.notMem_of_alloc halloc
      have hmem : neighborMemb.mem = s.neighborMemb.mem := (alloc_spec halloc).2.2.2.1
      have htimer : (neighborMemb.mem n).transmitTimer = false := by
        rw [hmem]
        exact Bool.eq_false_iff.mpr fun htrue ↦ hnot (hsound.listed.timers n htrue)
      let s₁ : State := { s with neighborMemb := neighborMemb }
      have hfirst : s₁.access n = s₁ := access_of_count (huses.count_of_mem mem_cons_self)
      let s₂ : State := s₁.setNeighbor n ⟨addr, false, 0, conf.minBe, []⟩
      have hupdate : (s₁.updateNeighbor n fun q ↦ { q with
          addr := addr, transmissions := 0, collisions := conf.minBe, packetQueue := [] }) = s₂ := by
        unfold updateNeighbor
        rw [hfirst]
        change s₁.setNeighbor n ⟨addr, (neighborMemb.mem n).transmitTimer, 0, conf.minBe, []⟩ = s₂
        rw [htimer]
      have hall : s₂.accessAll s₂.neighborList = s₂ := accessAll_of_count fun n' hn' ↦
        huses.count_of_mem (mem_cons_of_mem n hn')
      change (addNeighbor conf s₁ addr n, some n) = _
      unfold addNeighbor
      simp only [hupdate, hall]
      change ({ s₂ with neighborList := listAdd s.neighborList n }, some n) = _
      rw [listAdd_of_notMem hnot]
      rfl
  · left
    refine ⟨n, mem_of_find?_eq_some hfind, ?_, rfl⟩
    simpa using find?_some hfind

/-- The block of a neighbour after a packet joined its queue. -/
def joined (x : NeighborQueue ℕ) (q : ℕ) : NeighborQueue ℕ :=
  ⟨x.addr, x.transmitTimer || x.packetQueue.isEmpty, x.transmissions, x.collisions,
    x.packetQueue ++ [q]⟩

theorem addPacket_eq (hlisted : s.Listed) (hn : n ∈ s.neighborList) {q call : ℕ}
    {packetbuf : Attrs} (hq : q ∉ (s.neighbor n).packetQueue) :
    addPacket conf s packetbuf call n q = { s.setNeighbor n (joined (s.neighbor n) q) with
      accepted := s.accepted ++ [⟨call, packetbuf.receiver, packetbuf.maxTransmissions conf⟩] } := by
  let x : NeighborQueue ℕ :=
    { s.neighbor n with packetQueue := (s.neighbor n).packetQueue ++ [q] }
  let t : State := { s.setNeighbor n x with
    accepted := s.accepted ++ [⟨call, packetbuf.receiver, packetbuf.maxTransmissions conf⟩] }
  have hset := hlisted.setNeighbor hn x
  have ht : t.Listed := ⟨hset.neighbors, hset.timers, hset.dangling⟩
  have hself : t.neighbor n = x := setNeighbor_self
  have hadd : addPacket conf s packetbuf call n q =
      if (t.neighbor n).packetQueue.head? = some q then scheduleTransmission t n else t := by
    unfold addPacket
    simp only [hlisted.updateNeighbor hn, listAdd_of_notMem hq]
    change (if ((t.access n).neighbor n).packetQueue.head? = some q then
      scheduleTransmission (t.access n) n else t.access n) = _
    rw [ht.access hn]
  rw [hadd, hself]
  rcases hempty : (s.neighbor n).packetQueue with _ | ⟨p, rest⟩
  · have hhead : x.packetQueue.head? = some q := by
      change ((s.neighbor n).packetQueue ++ [q]).head? = some q
      rw [hempty]
      rfl
    have htimer : ((s.neighbor n).transmitTimer || (s.neighbor n).packetQueue.isEmpty) = true := by
      rw [hempty]
      exact Bool.or_true _
    have hjoined : joined (s.neighbor n) q = { x with transmitTimer := true } := by
      unfold joined
      rw [htimer]
    rw [if_pos hhead, hjoined]
    unfold scheduleTransmission
    rw [ht.updateNeighbor hn, hself]
    exact congrArg (fun u : State ↦ { u with accepted := t.accepted }) setNeighbor_setNeighbor
  · have hhead : x.packetQueue.head? ≠ some q := by
      change ((s.neighbor n).packetQueue ++ [q]).head? ≠ some q
      rw [hempty]
      intro hsame
      have hp : p = q := Option.some.inj hsame
      exact hq (hempty ▸ hp ▸ mem_cons_self)
    have htimer : ((s.neighbor n).transmitTimer || (s.neighbor n).packetQueue.isEmpty) =
        (s.neighbor n).transmitTimer := by
      rw [hempty]
      exact Bool.or_false _
    have hjoined : joined (s.neighbor n) q = x := by
      unfold joined
      rw [htimer]
    rw [if_neg hhead, hjoined]

variable (conf) in
/-- A new packet, which has its blocks, joins a queue. -/
theorem addPacket_spec (hlisted : s.Listed) {q call : ℕ} (hq : q ∉ s.queued)
    (hblocks : s.Blocks (q :: s.queued)) (hlist : s.neighborList = front ++ n :: back)
    (packetbuf : Attrs) : (addPacket conf s packetbuf call n q).Sound ∧
      (addPacket conf s packetbuf call n q).queues = { s.queues with
        neighbors := front.map s.view ++
          (joined (s.neighbor n) q).map s.metadataOf :: back.map s.view
        accepted := s.accepted ++
          [⟨call, packetbuf.receiver, packetbuf.maxTransmissions conf⟩] } := by
  have hn : n ∈ s.neighborList := hlist ▸ mem_append_right front mem_cons_self
  have hqQueue : q ∉ (s.neighbor n).packetQueue := fun hmem ↦ hq (Sound.mem_queued hn hmem)
  rw [addPacket_eq hlisted hn hqQueue]
  have hset := hlisted.setNeighbor hn (joined (s.neighbor n) q)
  constructor
  · refine ⟨⟨hset.neighbors, hset.timers, hset.dangling⟩, ?_⟩
    have hitems : (s.setNeighbor n (joined (s.neighbor n) q)).queued.Perm (q :: s.queued) := by
      apply allItems_perm hlisted.neighbors.nodup hn
      · rw [setNeighbor_self]
        exact perm_append_singleton q _
      · intro n' hne
        rw [setNeighbor_of_ne hne]
    exact (hblocks.perm hitems.symm).of_eq rfl rfl rfl rfl
  · have hqueues := queues_setNeighbor (x := joined (s.neighbor n) q) hlisted hlist
    let new : Accepted := ⟨call, packetbuf.receiver, packetbuf.maxTransmissions conf⟩
    exact congrArg (fun u : Queues ↦ { u with accepted := s.accepted ++ [new] }) hqueues

theorem Sound.callSent (hsound : s.Sound) {call ntx : ℕ} {status : MacStatus} :
    (s.callSent call status ntx).Sound :=
  ⟨⟨hsound.listed.neighbors, hsound.listed.timers, hsound.listed.dangling⟩,
    hsound.blocks.of_eq rfl rfl rfl rfl⟩

variable (conf) in
theorem maxTransmissions_pos (packetbuf : Attrs) : 0 < packetbuf.maxTransmissions conf := by
  unfold Attrs.maxTransmissions
  simp only
  split_ifs with hzero
  · exact Nat.succ_pos _
  · exact Nat.pos_of_ne_zero hzero

variable (conf) in
theorem maxTransmissions_lt (packetbuf : Attrs) : packetbuf.maxTransmissions conf < 256 := by
  unfold Attrs.maxTransmissions
  simp only
  split_ifs
  · exact Nat.succ_lt_succ conf.maxFrameRetries_lt
  · exact Nat.mod_lt _ (by decide)

section

variable {packetbuf : Attrs} {call : ℕ} {r : State × Option ℕ}
  (hallocated : Allocated conf s packetbuf call s.queued r)

include hallocated

theorem Allocated.map_view (hl : ∀ n ∈ l, n ∈ s.neighborList) : l.map r.1.view = l.map s.view := by
  apply map_congr_left
  intro n hn
  obtain ⟨packetMemb, metadataMemb, queuebufs, hframe⟩ := hallocated.frame
  have hneighbor : r.1.neighbor n = s.neighbor n := by rw [hframe]; rfl
  unfold view NeighborQueue.map
  rw [hneighbor]
  congr 1
  exact map_congr_left fun p hp ↦ hallocated.kept p (Sound.mem_queued (hl n hn) hp)

theorem Allocated.listed (hlisted : s.Listed) :
    r.1.Listed := by
  obtain ⟨packetMemb, metadataMemb, queuebufs, hframe⟩ := hallocated.frame
  rw [hframe]
  exact ⟨hlisted.neighbors, hlisted.timers, hlisted.dangling⟩

end

theorem Allocated.unchanged {packetbuf : Attrs} {call : ℕ} {t : State}
    (hallocated : Allocated conf s packetbuf call s.queued (t, none)) (hsound : s.Sound) :
    t.Sound ∧ t.queues = s.queues ∧ t.neighborList = s.neighborList ∧ t.neighbor = s.neighbor := by
  have hlisted := hallocated.listed hsound.listed
  have hviews := hallocated.map_view fun _ hn ↦ hn
  have hblocks := hallocated.failed rfl
  obtain ⟨packetMemb, metadataMemb, queuebufs, hframe⟩ := hallocated.frame
  obtain rfl : t = _ := hframe
  refine ⟨⟨hlisted, hblocks⟩, ?_, rfl, rfl⟩
  unfold queues
  exact congrArg (fun l ↦ Queues.mk l s.calls s.accepted s.called s.aired) hviews

variable (conf) in
/-- A packet for a listed neighbour is accepted, or refused and, when the neighbour has no other
packets, the neighbour leaves the list again. -/
theorem queuePacket_spec (hsound : s.Sound) (hlist : s.neighborList = front ++ n :: back)
    (htimer : (s.neighbor n).packetQueue = [] → (s.neighbor n).transmitTimer = false)
    (packetbuf : Attrs) (call : ℕ) : (queuePacket conf s packetbuf call n).Sound ∧
      ((queuePacket conf s packetbuf call n).queues = { s.queues with
          neighbors := front.map s.view ++ { s.view n with
            transmitTimer := (s.neighbor n).transmitTimer || (s.neighbor n).packetQueue.isEmpty
            packetQueue := (s.view n).packetQueue ++
              [⟨call, packetbuf.maxTransmissions conf⟩] } :: back.map s.view
          accepted := s.accepted ++
            [⟨call, packetbuf.receiver, packetbuf.maxTransmissions conf⟩] } ∨
        (queuePacket conf s packetbuf call n).queues = { s.queues with
          neighbors := if (s.neighbor n).packetQueue = [] then front.map s.view ++ back.map s.view
            else s.queues.neighbors
          called := s.called ++ [⟨call, .err, 1⟩] }) := by
  have hn : n ∈ s.neighborList := hlist ▸ mem_append_right front mem_cons_self
  have hsub : ∀ m ∈ front ++ n :: back, m ∈ s.neighborList := fun m hm ↦ hlist ▸ hm
  unfold queuePacket
  simp only [hsound.listed.access hn]
  by_cases hroom : (s.neighbor n).packetQueue.length < conf.maxPacketPerNeighbor
  · rw [if_pos hroom]
    have hallocated := hsound.blocks.allocPacket conf packetbuf call
    rcases halloc : allocPacket conf s packetbuf call with ⟨t, _ | q⟩
    · rw [halloc] at hallocated
      obtain ⟨ht, hqueues, hlistT, hneighborT⟩ := hallocated.unchanged hsound
      have hnT : n ∈ t.neighborList := hlistT ▸ hn
      simp only [ht.listed.access hnT, hneighborT, length_eq_zero_iff]
      by_cases hempty : (s.neighbor n).packetQueue = []
      · rw [if_pos hempty, if_pos hempty]
        have hremoved := ht.removeNeighbor hnT (hneighborT ▸ hempty)
          (hneighborT ▸ htimer hempty)
        refine ⟨hremoved.callSent, .inr ?_⟩
        have hfront := hallocated.map_view (l := front) fun m hm ↦ hsub m (mem_append_left _ hm)
        have hback := hallocated.map_view (l := back) fun m hm ↦
          hsub m (mem_append_right _ (mem_cons_of_mem n hm))
        rw [callSent_queues, removeNeighbor_queues ht.listed (hlistT.trans hlist), hqueues, hfront,
          hback]
        rfl
      · rw [if_neg hempty, if_neg hempty]
        refine ⟨ht.callSent, .inr ?_⟩
        rw [callSent_queues, hqueues]
        rfl
    · rw [halloc] at hallocated
      have hlistedT := hallocated.listed hsound.listed
      have hfront := hallocated.map_view (l := front) fun m hm ↦ hsub m (mem_append_left _ hm)
      have hback := hallocated.map_view (l := back) fun m hm ↦
        hsub m (mem_append_right _ (mem_cons_of_mem n hm))
      have hkept := hallocated.kept
      obtain ⟨hq, hblocks, hmetadata⟩ := hallocated.taken q rfl
      have hqueue : ((s.neighbor n).packetQueue ++ [q]).map t.metadataOf =
          (s.view n).packetQueue ++ [⟨call, packetbuf.maxTransmissions conf⟩] := by
        rw [map_append, map_singleton, hmetadata]
        congr 1
        exact map_congr_left fun p hp ↦ hkept p (Sound.mem_queued hn hp)
      obtain ⟨packetMemb, metadataMemb, queuebufs, hframe⟩ := hallocated.frame
      obtain rfl : t = _ := hframe
      obtain ⟨hadded, hqueues⟩ := addPacket_spec conf hlistedT hq hblocks hlist packetbuf
      refine ⟨hadded, .inl ?_⟩
      simp only at hqueues hqueue ⊢
      rw [hqueues, hfront, hback, ← hqueue]
      rfl
  · rw [if_neg hroom]
    refine ⟨hsound.callSent, .inr ?_⟩
    have hne : (s.neighbor n).packetQueue ≠ [] := by
      intro hempty
      rw [hempty] at hroom
      exact hroom conf.maxPacketPerNeighbor_pos
    rw [callSent_queues, if_neg hne]
    rfl

theorem csmaOutputPacket_spec (hsound : s.Sound) (hshape : s.queues.Shape) (receiver : Linkaddr)
    (maxMacTransmissions : ℕ) : (csmaOutputPacket conf s receiver maxMacTransmissions).Sound ∧
      Queues.Step conf s.queues (csmaOutputPacket conf s receiver maxMacTransmissions).queues := by
  let seqno := if s.seqno = 0 then 1 else s.seqno
  let packetbuf : Attrs := ⟨receiver, seqno, maxMacTransmissions⟩
  let t : State := { s with calls := s.calls + 1, seqno := (seqno + 1) % 256 }
  have ht : t.Sound := ⟨⟨hsound.listed.neighbors, hsound.listed.timers, hsound.listed.dangling⟩,
    hsound.blocks.of_eq rfl rfl rfl rfl⟩
  have hreject : Queues.Step conf s.queues { s.queues with
      calls := s.calls + 1, called := s.called ++ [⟨s.calls, .err, 1⟩] } := .reject s.queues
  rw [csmaOutputPacket]
  have hpos := maxTransmissions_pos conf packetbuf
  have hlt := maxTransmissions_lt conf packetbuf
  rcases findOrAddNeighbor_cases conf ht receiver with
    ⟨n, hn, haddr, hfound⟩ | ⟨hnew, hfull | ⟨n, neighborMemb, halloc, hadded⟩⟩
  · rw [hfound]
    obtain ⟨front, back, hlist⟩ := append_of_mem hn
    have hview : s.view n ∈ s.queues.neighbors := mem_map_of_mem hn
    have hnonempty : (s.neighbor n).packetQueue ≠ [] := fun hempty ↦
      hshape.nonempty _ hview (congrArg (map s.metadataOf) hempty)
    have htimer : (s.neighbor n).transmitTimer = true := hshape.timers _ hview
    obtain ⟨hqueued, hqueues | hqueues⟩ := queuePacket_spec conf ht hlist
      (fun hempty ↦ absurd hempty hnonempty) packetbuf s.calls
    · refine ⟨hqueued, ?_⟩
      have hjoin : Queues.Step conf s.queues _ :=
        .join s.queues _ _ _ _ (queues_neighbors hlist) hpos hlt
      have hflag : ((t.neighbor n).transmitTimer || (t.neighbor n).packetQueue.isEmpty) =
          (s.view n).transmitTimer := by
        change ((s.neighbor n).transmitTimer || _) = (s.neighbor n).transmitTimer
        rw [htimer, Bool.true_or]
      have hreceiver : packetbuf.receiver = (s.view n).addr := haddr.symm
      simp only
      rw [hqueues, hflag, hreceiver]
      exact hjoin
    · refine ⟨hqueued, ?_⟩
      simp only
      rw [hqueues, if_neg (show (t.neighbor n).packetQueue ≠ [] from hnonempty)]
      exact hreject
  · rw [hfull]
    exact ⟨ht.callSent, hreject⟩
  · rw [hadded]
    let x : NeighborQueue ℕ := ⟨receiver, false, 0, conf.minBe, []⟩
    obtain ⟨hnot, hu⟩ := ht.addNeighbor (x := x) halloc rfl
    have hmem : neighborMemb.mem = s.neighborMemb.mem := (alloc_spec halloc).2.2.2.1
    let u : State := { t with
      neighborMemb := neighborMemb.store n x, neighborList := t.neighborList ++ [n] }
    have hself : u.neighbor n = x := store_mem_self
    have hviews : t.neighborList.map u.view = s.queues.neighbors := by
      apply map_congr_left
      intro n' hn'
      have hne : n' ≠ n := fun heq ↦ hnot (heq ▸ hn')
      have hsame : u.neighbor n' = s.neighbor n' := by
        change (neighborMemb.store n x).mem n' = _
        rw [store_mem_of_ne hne, hmem]
        rfl
      unfold view
      rw [hsame]
      rfl
    have hlist : u.neighborList = t.neighborList ++ n :: [] := rfl
    obtain ⟨hqueued, hqueues | hqueues⟩ := queuePacket_spec conf hu hlist
      (fun _ ↦ by rw [hself]) packetbuf s.calls
    · refine ⟨hqueued, ?_⟩
      have hstart : Queues.Step conf s.queues _ := .start s.queues receiver _
        (fun z hz ↦ by
          obtain ⟨n', hn', rfl⟩ := mem_map.mp hz
          exact hnew n' hn') hpos hlt
      change Queues.Step conf s.queues (queuePacket conf u packetbuf s.calls n).queues
      rw [hqueues, hviews]
      have hnewView : ({ u.view n with
          transmitTimer := (u.neighbor n).transmitTimer || (u.neighbor n).packetQueue.isEmpty
          packetQueue := (u.view n).packetQueue ++
            [⟨s.calls, packetbuf.maxTransmissions conf⟩] } : NeighborQueue QbufMetadata) =
          ⟨receiver, true, 0, conf.minBe, [⟨s.calls, packetbuf.maxTransmissions conf⟩]⟩ := by
        unfold view
        rw [hself]
        rfl
      rw [hnewView]
      exact hstart
    · refine ⟨hqueued, ?_⟩
      change Queues.Step conf s.queues (queuePacket conf u packetbuf s.calls n).queues
      rw [hqueues, hviews, if_pos (by rw [hself])]
      rw [map_nil, append_nil]
      exact hreject

end State

end ContikiMaster.Csma
