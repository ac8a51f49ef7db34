import ContikiMaster.Csma.Output
import ContikiMaster.Lib.JobQueues

/-!
# The transmit queues without memory

What the CSMA layer is for: the packet at the front of the queue of a neighbour is tried
until it is sent or given up, and then its callback is called. A packet that finds no room
is answered at once. There are no pools and no pointers here.
-/

namespace ContikiMaster.Csma

open Lib Function List
open Tsch (Linkaddr)

/-- The pending queues, and what was asked and answered so far. -/
structure Queues where
  neighbors : List (NeighborQueue QbufMetadata)
  calls : ℕ
  accepted : List Accepted
  called : List Called
  aired : List Airing

/-- The counters after an attempt with this status. -/
def NeighborQueue.attempted {ι : Type} (conf : Conf) (x : NeighborQueue ι) :
    MacStatus → NeighborQueue ι
  | .ok => x.transmit conf 1
  | .noack => x.transmit conf 1
  | .collision => x.collide conf 1
  | _ => x

/-- A packet that may be sent `maxTransmissions` times is not tried again. -/
def NeighborQueue.isDone {ι : Type} (conf : Conf) (x : NeighborQueue ι) (maxTransmissions : ℕ) :
    MacStatus → Bool
  | .ok => true
  | .noack => maxTransmissions ≤ (x.transmit conf 1).transmissions
  | .collision => maxTransmissions ≤ (x.collide conf 1).transmissions
  | _ => true

/-- The queue without its first packet; an empty queue is none. -/
def NeighborQueue.drop {ι : Type} (conf : Conf) (x : NeighborQueue ι) :
    List ι → List (NeighborQueue ι)
  | [] => []
  | i :: rest => [⟨x.addr, true, 0, conf.minBe, i :: rest⟩]

/-- What an attempt adds to the record of the packets on the air. -/
abbrev airing (call : ℕ) (status : MacStatus) (transmit : Option RadioTx) : List Airing :=
  (transmit.map fun t ↦ (⟨call, t, status⟩ : Airing)).toList

namespace Queues

inductive Step (conf : Conf) : Queues → Queues → Prop
  | idle (q : Queues) : Step conf q q
  | reject (q : Queues) :
    Step conf q
      { q with calls := q.calls + 1, called := q.called ++ [⟨q.calls, .err, 1⟩] }
  | start (q : Queues) (addr : Linkaddr) (maxTransmissions : ℕ)
      (hnew : ∀ x ∈ q.neighbors, x.addr ≠ addr) (hpos : 0 < maxTransmissions)
      (hlt : maxTransmissions < 256) :
    Step conf q
      { q with
        neighbors := q.neighbors ++ [⟨addr, true, 0, conf.minBe, [⟨q.calls, maxTransmissions⟩]⟩]
        calls := q.calls + 1
        accepted := q.accepted ++ [⟨q.calls, addr, maxTransmissions⟩] }
  | join (q : Queues) (front : List (NeighborQueue QbufMetadata))
      (x : NeighborQueue QbufMetadata) (back : List (NeighborQueue QbufMetadata))
      (maxTransmissions : ℕ) (hneighbors : q.neighbors = front ++ x :: back)
      (hpos : 0 < maxTransmissions) (hlt : maxTransmissions < 256) :
    Step conf q
      { q with
        neighbors := front ++
          { x with packetQueue := x.packetQueue ++ [⟨q.calls, maxTransmissions⟩] } :: back
        calls := q.calls + 1
        accepted := q.accepted ++ [⟨q.calls, x.addr, maxTransmissions⟩] }
  | resend (q : Queues) (front : List (NeighborQueue QbufMetadata))
      (x : NeighborQueue QbufMetadata) (back : List (NeighborQueue QbufMetadata))
      (packet : QbufMetadata) (rest : List QbufMetadata) (status : MacStatus)
      (transmit : Option RadioTx) (hneighbors : q.neighbors = front ++ x :: back)
      (hqueue : x.packetQueue = packet :: rest)
      (hagain : ¬x.isDone conf packet.maxTransmissions status) :
    Step conf q
      { q with
        neighbors := front ++ { x.attempted conf status with transmitTimer := true } :: back
        aired := q.aired ++ airing packet.sent status transmit }
  | complete (q : Queues) (front : List (NeighborQueue QbufMetadata))
      (x : NeighborQueue QbufMetadata) (back : List (NeighborQueue QbufMetadata))
      (packet : QbufMetadata) (rest : List QbufMetadata) (status : MacStatus)
      (transmit : Option RadioTx) (hneighbors : q.neighbors = front ++ x :: back)
      (hqueue : x.packetQueue = packet :: rest)
      (hdone : x.isDone conf packet.maxTransmissions status) :
    Step conf q
      { q with
        neighbors := front ++ x.drop conf rest ++ back
        called := q.called ++
          [⟨packet.sent, status, (x.attempted conf status).transmissions⟩]
        aired := q.aired ++ airing packet.sent status transmit }

def waiting (neighbors : List (NeighborQueue QbufMetadata)) (addr : Linkaddr) : List ℕ :=
  (neighbors.filter fun x ↦ x.addr = addr).flatMap fun x ↦ x.packetQueue.map QbufMetadata.sent

/-- The calls as jobs: a job is queued for the receiver and finished by the callback. -/
def jobs (q : Queues) : JobQueues Linkaddr where
  queue := waiting q.neighbors
  submitted := q.calls
  accepted := q.accepted.map fun x ↦ (x.receiver, x.call)
  finished := q.called.map Called.call

section Waiting

variable {front back l : List (NeighborQueue QbufMetadata)} {x y : NeighborQueue QbufMetadata}
  {addr : Linkaddr}

theorem waiting_append : waiting (front ++ back) addr = waiting front addr ++ waiting back addr := by
  unfold waiting
  rw [filter_append, flatMap_append]

theorem waiting_singleton_self : waiting [x] x.addr = x.packetQueue.map QbufMetadata.sent := by
  unfold waiting
  rw [filter_singleton, decide_eq_true rfl]
  exact flatMap_singleton _ _

theorem waiting_of_ne (hne : ∀ y ∈ l, y.addr ≠ addr) : waiting l addr = [] := by
  unfold waiting
  rw [filter_eq_nil_iff.mpr fun y hy ↦ mt of_decide_eq_true (hne y hy)]
  rfl

theorem waiting_cons : waiting (x :: l) addr = waiting [x] addr ++ waiting l addr := by
  rw [← waiting_append, singleton_append]

theorem waiting_replace {new : List (NeighborQueue QbufMetadata)}
    (haddrs : ((front ++ x :: back).map NeighborQueue.addr).Nodup)
    (hnew : ∀ y ∈ new, y.addr = x.addr) : waiting (front ++ new ++ back) =
      update (waiting (front ++ x :: back)) x.addr (waiting new x.addr) := by
  rw [map_append, map_cons] at haddrs
  obtain ⟨-, hback, hfront⟩ := nodup_append.mp haddrs
  have hbackNe : ∀ y ∈ back, y.addr ≠ x.addr := fun y hy heq ↦
    (nodup_cons.mp hback).1 (heq ▸ mem_map_of_mem hy)
  have hfrontNe : ∀ y ∈ front, y.addr ≠ x.addr := fun y hy ↦
    hfront _ (mem_map_of_mem hy) _ mem_cons_self
  funext addr
  rw [waiting_append, waiting_append]
  by_cases haddr : addr = x.addr
  · rw [haddr, update_self, waiting_of_ne hfrontNe, waiting_of_ne hbackNe, append_nil, nil_append]
  · have hnewNe : ∀ y ∈ new, y.addr ≠ addr := fun y hy heq ↦ haddr (heq ▸ hnew y hy)
    have hxNe : ∀ y ∈ [x], y.addr ≠ addr := fun y hy heq ↦
      haddr (heq ▸ congrArg NeighborQueue.addr (mem_singleton.mp hy))
    rw [update_of_ne haddr, waiting_append, waiting_cons, waiting_of_ne hnewNe,
      waiting_of_ne hxNe, append_nil, nil_append]

theorem waiting_replace_one (haddrs : ((front ++ x :: back).map NeighborQueue.addr).Nodup)
    (hy : y.addr = x.addr) :
    waiting (front ++ y :: back) = update (waiting (front ++ x :: back)) x.addr
      (y.packetQueue.map QbufMetadata.sent) := by
  have hnew : ∀ z ∈ [y], z.addr = x.addr := fun z hz ↦ mem_singleton.mp hz ▸ hy
  have hreplace := waiting_replace haddrs hnew
  rw [append_assoc, singleton_append] at hreplace
  rw [hreplace, ← hy, waiting_singleton_self]

theorem waiting_split (haddrs : ((front ++ x :: back).map NeighborQueue.addr).Nodup) :
    waiting (front ++ x :: back) x.addr = x.packetQueue.map QbufMetadata.sent := by
  rw [waiting_replace_one haddrs rfl, update_self]

end Waiting

/-- One queue for an address, no queue is empty, and every queue has its timer running. -/
structure Shape (q : Queues) : Prop where
  addrs : (q.neighbors.map NeighborQueue.addr).Nodup
  nonempty : ∀ x ∈ q.neighbors, x.packetQueue ≠ []
  timers : ∀ x ∈ q.neighbors, x.transmitTimer = true

variable {conf : Conf} {q q' : Queues}

theorem mem_drop {x y : NeighborQueue QbufMetadata} {rest : List QbufMetadata}
    (hy : y ∈ x.drop conf rest) :
    y.addr = x.addr ∧ y.transmitTimer = true ∧ y.transmissions = 0 ∧ y.collisions = conf.minBe ∧
      y.packetQueue = rest ∧ rest ≠ [] := by
  cases rest with
  | nil => cases hy
  | cons i rest =>
    rw [mem_singleton.mp hy]
    exact ⟨rfl, rfl, rfl, rfl, rfl, cons_ne_nil i rest⟩

@[simp] theorem attempted_addr {ι : Type} {x : NeighborQueue ι} {status : MacStatus} :
    (x.attempted conf status).addr = x.addr := by
  cases status <;> simp only [NeighborQueue.attempted, NeighborQueue.collide,
    NeighborQueue.transmit]
  split <;> rfl

@[simp] theorem attempted_packetQueue {ι : Type} {x : NeighborQueue ι} {status : MacStatus} :
    (x.attempted conf status).packetQueue = x.packetQueue := by
  cases status <;> simp only [NeighborQueue.attempted, NeighborQueue.collide,
    NeighborQueue.transmit]
  split <;> rfl

theorem Shape.replace {front back : List (NeighborQueue QbufMetadata)}
    {x y : NeighborQueue QbufMetadata} {calls : ℕ} {accepted : List Accepted}
    {called : List Called} {aired : List Airing} (hshape : q.Shape)
    (hneighbors : q.neighbors = front ++ x :: back) (haddr : y.addr = x.addr)
    (hnonempty : y.packetQueue ≠ []) (htimer : y.transmitTimer = true) :
    Shape ⟨front ++ y :: back, calls, accepted, called, aired⟩ where
  addrs := by
    have hold := hshape.addrs
    rw [hneighbors, map_append, map_cons, ← haddr] at hold
    change ((front ++ y :: back).map NeighborQueue.addr).Nodup
    rw [map_append, map_cons]
    exact hold
  nonempty z hz := by
    have hold := hshape.nonempty z
    rw [hneighbors] at hold
    rcases mem_append.mp hz with hz | hz
    · exact hold (mem_append_left _ hz)
    · rcases mem_cons.mp hz with rfl | hz
      · exact hnonempty
      · exact hold (mem_append_right _ (mem_cons_of_mem x hz))
  timers z hz := by
    have hold := hshape.timers z
    rw [hneighbors] at hold
    rcases mem_append.mp hz with hz | hz
    · exact hold (mem_append_left _ hz)
    · rcases mem_cons.mp hz with rfl | hz
      · exact htimer
      · exact hold (mem_append_right _ (mem_cons_of_mem x hz))

theorem Shape.step (hshape : q.Shape) (hstep : Step conf q q') : q'.Shape := by
  cases hstep with
  | idle => exact hshape
  | reject => exact ⟨hshape.addrs, hshape.nonempty, hshape.timers⟩
  | start addr maxTransmissions hnew hpos hlt =>
    refine ⟨?_, fun x hx ↦ ?_, fun x hx ↦ ?_⟩
    · change ((q.neighbors ++ [_]).map NeighborQueue.addr).Nodup
      rw [map_append]
      refine hshape.addrs.append (nodup_singleton _) fun a ha hsingle ↦ ?_
      obtain ⟨x, hx, rfl⟩ := mem_map.mp ha
      exact hnew x hx (mem_singleton.mp hsingle)
    · rcases mem_append.mp hx with hx | hx
      · exact hshape.nonempty x hx
      · rw [mem_singleton.mp hx]
        exact cons_ne_nil _ _
    · rcases mem_append.mp hx with hx | hx
      · exact hshape.timers x hx
      · rw [mem_singleton.mp hx]
  | join front x back maxTransmissions hneighbors hpos hlt =>
    have htimer : x.transmitTimer = true := by
      apply hshape.timers
      exact hneighbors ▸ mem_append_right front mem_cons_self
    refine hshape.replace hneighbors ?_ ?_ htimer
    · rfl
    · exact append_ne_nil_of_right_ne_nil _ (cons_ne_nil _ _)
  | resend front x back packet rest status transmit hneighbors hqueue hagain =>
    refine hshape.replace hneighbors ?_ ?_ rfl
    · exact attempted_addr
    · change (x.attempted conf status).packetQueue ≠ []
      rw [attempted_packetQueue, hqueue]
      exact cons_ne_nil _ _
  | complete front x back packet rest status transmit hneighbors hqueue hdone =>
    cases rest with
    | cons i rest =>
      have hdrop : front ++ x.drop conf (i :: rest) ++ back =
          front ++ ⟨x.addr, true, 0, conf.minBe, i :: rest⟩ :: back := by
        rw [append_assoc]
        rfl
      rw [hdrop]
      exact hshape.replace hneighbors rfl (cons_ne_nil _ _) rfl
    | nil =>
      have hsub : (front ++ x.drop conf [] ++ back).Sublist q.neighbors := by
        rw [hneighbors]
        change (front ++ [] ++ back).Sublist _
        rw [append_nil]
        exact (sublist_cons_self x back).append_left front
      exact ⟨List.Nodup.sublist (hsub.map _) hshape.addrs,
        fun y hy ↦ hshape.nonempty y (hsub.subset hy), fun y hy ↦ hshape.timers y (hsub.subset hy)⟩

theorem accounted_step (hshape : q.Shape) (haccounted : q.jobs.Accounted)
    (hstep : Step conf q q') : q'.jobs.Accounted := by
  cases hstep with
  | idle => exact haccounted
  | reject =>
    convert haccounted.reject using 1
    unfold jobs JobQueues.reject
    rw [map_append]
    rfl
  | start addr maxTransmissions hnew hpos hlt =>
    have hwaiting : waiting (q.neighbors ++
          [⟨addr, true, 0, conf.minBe, [⟨q.calls, maxTransmissions⟩]⟩]) =
        update (waiting q.neighbors) addr (waiting q.neighbors addr ++ [q.calls]) := by
      funext a
      rw [waiting_append]
      by_cases ha : a = addr
      · rw [ha, update_self]
        congr 1
        exact waiting_singleton_self
      · rw [update_of_ne ha, waiting_of_ne (l := [_]), append_nil]
        intro y hy heq
        rw [mem_singleton.mp hy] at heq
        exact ha heq.symm
    convert haccounted.accept addr using 1
    unfold jobs JobQueues.accept
    rw [map_append, hwaiting]
    rfl
  | join front x back maxTransmissions hneighbors hpos hlt =>
    have haddrs := hneighbors ▸ hshape.addrs
    convert haccounted.accept x.addr using 1
    unfold jobs JobQueues.accept
    rw [map_append, waiting_replace_one haddrs]
    · change _ = JobQueues.mk (update (waiting q.neighbors) x.addr
        (waiting q.neighbors x.addr ++ [q.calls])) _ _ _
      rw [hneighbors, waiting_split haddrs, map_append]
      rfl
    · rfl
  | resend front x back packet rest status transmit hneighbors hqueue hagain =>
    have haddrs := hneighbors ▸ hshape.addrs
    have hwaiting : waiting (front ++
          { x.attempted conf status with transmitTimer := true } :: back) =
        waiting q.neighbors := by
      rw [waiting_replace_one haddrs, hneighbors]
      · change update (waiting (front ++ x :: back)) x.addr
          ((x.attempted conf status).packetQueue.map QbufMetadata.sent) = _
        rw [attempted_packetQueue, ← waiting_split haddrs, update_eq_self]
      · exact attempted_addr
    convert haccounted using 1
    unfold jobs
    rw [hwaiting]
  | complete front x back packet rest status transmit hneighbors hqueue hdone =>
    have haddrs := hneighbors ▸ hshape.addrs
    have hhead : q.jobs.queue x.addr = packet.sent :: rest.map QbufMetadata.sent := by
      change waiting q.neighbors x.addr = _
      rw [hneighbors, waiting_split haddrs, hqueue]
      rfl
    have hwaiting : waiting (front ++ x.drop conf rest ++ back) =
        update (waiting q.neighbors) x.addr (waiting q.neighbors x.addr).tail := by
      rw [hneighbors, waiting_split haddrs, hqueue,
        waiting_replace haddrs fun y hy ↦ (mem_drop hy).1]
      congr 1
      cases rest with
      | nil => rfl
      | cons i rest => exact waiting_singleton_self
    convert haccounted.finish hhead using 1
    unfold jobs JobQueues.finish
    rw [map_append, hwaiting]
    rfl

end Queues

end ContikiMaster.Csma
