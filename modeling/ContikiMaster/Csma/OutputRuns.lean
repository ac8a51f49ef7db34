import ContikiMaster.Csma.OutputSteps
import ContikiMaster.Csma.QueueAttempts

/-!
# Runs of the CSMA output

In every run the callback of every packet is called once and when no queue holds it any more, the
packets for one receiver are answered in order, every pool holds one block for every queued
packet, and every neighbour that is left has its timer running.
-/

namespace ContikiMaster.Csma

open Lib Sys Net List Option
open Tsch (Linkaddr)

namespace State

variable {s s' t : State} {n p : ℕ} {rest : List ℕ} {conf : Conf}

theorem transmitFromQueue_eq (hsound : s.Sound) (hn : n ∈ s.neighborList)
    (hqueue : (s.neighbor n).packetQueue = p :: rest) (r : Radio) :
    transmitFromQueue conf (s.setNeighbor n { s.neighbor n with transmitTimer := false }) n r =
      packetSent conf
        (s.onAir n (s.metadataOf p).sent
          (sendStatus (s.queuebufs.toPacketbuf (s.packet p).buf) r).1
          (sendStatus (s.queuebufs.toPacketbuf (s.packet p).buf) r).2)
        (s.queuebufs.toPacketbuf (s.packet p).buf) n
        (sendStatus (s.queuebufs.toPacketbuf (s.packet p).buf) r).1 1 := by
  have hset := hsound.listed.setNeighbor hn { s.neighbor n with transmitTimer := false }
  have hhead : ((s.setNeighbor n { s.neighbor n with transmitTimer := false }).neighbor
      n).packetQueue.head? = some p := by
    rw [setNeighbor_self]
    exact congrArg head? hqueue
  unfold transmitFromQueue
  simp only [hset.access hn, hhead]
  rfl

theorem next_spec (hsound : s.Sound) (hshape : s.queues.Shape) {e : Event}
    (hnext : next conf s e = some s') : s'.Sound ∧ Queues.Step conf s.queues s'.queues := by
  cases e with
  | output receiver maxMacTransmissions =>
    rw [← some.inj hnext]
    exact csmaOutputPacket_spec hsound hshape receiver maxMacTransmissions
  | callbackReturns =>
    simp only [next] at hnext
    rcases hactive : s.active with _ | ⟨c, active⟩
    · rw [hactive] at hnext
      cases hnext
    · rw [hactive] at hnext
      rw [← some.inj hnext]
      exact ⟨⟨⟨hsound.listed.neighbors, hsound.listed.timers, hsound.listed.dangling⟩,
        hsound.blocks.of_eq rfl rfl rfl rfl⟩, .idle _⟩
  | expire n radio =>
    simp only [next] at hnext
    split_ifs at hnext with hdue
    have hn := hsound.listed.timers n hdue.2
    have hnonempty : (s.neighbor n).packetQueue ≠ [] := fun hempty ↦
      hshape.nonempty _ (mem_map_of_mem hn) (congrArg (map s.metadataOf) hempty)
    obtain ⟨p, rest, hqueue⟩ := exists_cons_of_ne_nil hnonempty
    obtain ⟨front, back, hlist⟩ := append_of_mem hn
    rw [← some.inj hnext]
    simp only [hsound.listed.updateNeighbor hn]
    rw [transmitFromQueue_eq hsound hn hqueue]
    exact packetSent_spec hsound hlist hqueue (sendStatus_ne_deferred _ _)
  | borrow packetbuf =>
    obtain ⟨⟨buf, queuebufs⟩, hnew, rfl⟩ := map_eq_some_iff.mp hnext
    have hblocks := hsound.blocks
    obtain ⟨-, huses, -, -⟩ := hblocks.buffers.newFromPacketbuf hnew
    exact ⟨⟨⟨hsound.listed.neighbors, hsound.listed.timers, hsound.listed.dangling⟩,
      ⟨hblocks.packets, hblocks.metadata, huses.perm perm_middle.symm, hblocks.ptr⟩⟩,
      .idle _⟩
  | giveBack buf =>
    simp only [next] at hnext
    split_ifs at hnext with hforeign
    rw [← some.inj hnext]
    have hblocks := hsound.blocks
    have huses := (hblocks.buffers.perm
      ((perm_cons_erase hforeign).append_left _)).perm perm_middle
    exact ⟨⟨⟨hsound.listed.neighbors, hsound.listed.timers, hsound.listed.dangling⟩,
      ⟨hblocks.packets, hblocks.metadata, huses.free, hblocks.ptr⟩⟩, .idle _⟩

def acceptedTo (s : State) (addr : Linkaddr) : List ℕ :=
  (s.accepted.filter fun x ↦ x.receiver = addr).map Accepted.call

def waitingTo (s : State) (addr : Linkaddr) : List ℕ :=
  (s.neighborList.filter fun n ↦ (s.neighbor n).addr = addr).flatMap fun n ↦
    (s.neighbor n).packetQueue.map fun p ↦ (s.metadataOf p).sent

structure Accounted (conf : Conf) (s : State) : Prop where
  once : (s.called.map Called.call).Nodup
  called_iff : ∀ c, c ∈ s.called.map Called.call ↔ c < s.calls ∧ ∀ addr, c ∉ s.waitingTo addr
  inOrder : ∀ addr, s.acceptedTo addr =
    ((s.called.map Called.call).filter fun c ↦ c ∈ s.acceptedTo addr) ++ s.waitingTo addr
  attempts : ∀ x ∈ s.accepted, noacks s.aired x.call ≤ x.maxTransmissions ∧
    unacked s.aired x.call ≤ (conf.maxBackoff + 1) * x.maxTransmissions
  neighborPool : s.neighborMemb.Uses s.neighborList
  packetPool : s.packetMemb.Uses s.queued
  metadataPool : s.metadataMemb.Uses (s.queued.map s.metadataPtr)
  queuebufPool : s.queuebufs.Uses (s.queued.map (fun p ↦ (s.packet p).buf) ++ s.foreign)
  addresses : (s.neighborList.map fun n ↦ (s.neighbor n).addr).Nodup
  nonempty : ∀ n ∈ s.neighborList, (s.neighbor n).packetQueue ≠ []
  pending : ∀ n ∈ s.neighborList, (s.neighbor n).transmitTimer = true
  safe : s.dangling = false

theorem waiting_queues (s : State) (addr : Linkaddr) :
    Queues.waiting s.queues.neighbors addr = s.waitingTo addr := by
  change ((s.neighborList.map s.view).filter fun x ↦ x.addr = addr).flatMap _ = _
  rw [List.filter_map, List.flatMap_map]
  apply List.flatMap_congr
  intro n _
  exact List.map_map

theorem acceptedTo_queues (s : State) (addr : Linkaddr) :
    s.queues.jobs.acceptedTo addr = s.acceptedTo addr := by
  change ((s.accepted.map fun x ↦ (x.receiver, x.call)).filter fun x ↦ x.1 = addr).map Prod.snd = _
  rw [List.filter_map, List.map_map]
  rfl

theorem accounted_of_inv (hsound : s.Sound) (hinv : s.queues.Inv conf) : s.Accounted conf where
  once := hinv.accounted.once
  called_iff c := by
    have hfinished := hinv.accounted.finished_iff c
    change c ∈ s.called.map Called.call ↔
      c < s.calls ∧ ∀ addr, c ∉ Queues.waiting s.queues.neighbors addr at hfinished
    rw [hfinished]
    simp only [waiting_queues]
  inOrder addr := by
    have horder := hinv.accounted.order addr
    rw [acceptedTo_queues] at horder
    change _ = _ ++ Queues.waiting s.queues.neighbors addr at horder
    rwa [waiting_queues] at horder
  attempts := hinv.attempts.bounded
  neighborPool := hsound.listed.neighbors
  packetPool := hsound.blocks.packets
  metadataPool := hsound.blocks.metadata
  queuebufPool := hsound.blocks.buffers
  addresses := by
    have haddrs := hinv.shape.addrs
    change ((s.neighborList.map s.view).map NeighborQueue.addr).Nodup at haddrs
    rwa [List.map_map] at haddrs
  nonempty n hn hempty := hinv.shape.nonempty _ (List.mem_map_of_mem hn)
    (congrArg (List.map s.metadataOf) hempty)
  pending n hn := hinv.shape.timers _ (List.mem_map_of_mem hn)
  safe := hsound.listed.dangling

/-- In every run every packet is accounted for. -/
theorem accounted_run (conf : Conf) (seqno : ℕ) (events : List Event) (s : State)
    (hrun : Run (StepOf (next conf)) (init conf seqno) events s) : s.Accounted conf := by
  have hinv : s.Sound ∧ s.queues.Inv conf := by
    apply Run.invariant (P := fun s ↦ s.Sound ∧ s.queues.Inv conf) _ hrun
    · exact ⟨sound_init conf seqno, Queues.inv_empty conf⟩
    · intro s e s' ⟨hsound, hinv⟩ hstep
      obtain ⟨hsound', hqueues⟩ := next_spec hsound hinv.shape hstep
      exact ⟨hsound', hinv.step hqueues⟩
  exact accounted_of_inv hinv.1 hinv.2

/-- Other traffic after the frame, where its acknowledgement should be. -/
def otherTraffic : Radio := ⟨some [0x41, 0x98, 1], false, false, .ok, false, true, true, true, [2, 0, 9]⟩

def acknowledged : Radio := { otherTraffic with read := [2, 0, 1] }

theorem accounted_twoPackets : ∃ s, Run (StepOf (next {})) (init {} 1)
    [.output (fun _ ↦ 7) 1, .output (fun _ ↦ 7) 0, .expire 0 otherTraffic,
      .expire 0 acknowledged, .callbackReturns] s ∧ s.Accounted {} ∧ s.waitingTo (fun _ ↦ 7) = [1] := by
  obtain ⟨s, hrun, hwaiting⟩ : ∃ s : State, Run (StepOf (next {})) (init {} 1)
      [.output (fun _ ↦ 7) 1, .output (fun _ ↦ 7) 0, .expire 0 otherTraffic,
        .expire 0 acknowledged, .callbackReturns] s ∧ s.waitingTo (fun _ ↦ 7) = [1] := by
    apply exists_run
    decide +kernel
  exact ⟨s, hrun, accounted_run {} 1 _ s hrun, hwaiting⟩

/-- A packet that may be sent once is on the air twice, since other traffic after it counts as a
collision. -/
theorem not_once_onAir : ¬ ∀ (conf : Conf) (seqno : ℕ) (events : List Event) (s : State),
    Run (StepOf (next conf)) (init conf seqno) events s → ∀ x ∈ s.accepted,
      (s.aired.countP fun y ↦ y.call = x.call ∧ y.transmit = .ok ∧ y.status ≠ .ok) ≤
        x.maxTransmissions := by
  intro hall
  obtain ⟨s, hrun, haccepted, haired⟩ : ∃ s : State, Run (StepOf (next {})) (init {} 1)
      [.output (fun _ ↦ 7) 1, .expire 0 otherTraffic, .expire 0 otherTraffic] s ∧
        s.accepted = [⟨0, fun _ ↦ 7, 1⟩] ∧
          s.aired = [⟨0, .ok, .collision⟩, ⟨0, .ok, .collision⟩] := by
    apply exists_run
    decide +kernel
  have hbound := hall {} 1 _ s hrun ⟨0, fun _ ↦ 7, 1⟩
    (by rw [haccepted]; exact mem_cons_self)
  rw [haired] at hbound
  exact absurd hbound (by decide)

end State

end ContikiMaster.Csma
