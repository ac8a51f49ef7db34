import ContikiMaster.Csma.QueueMachine
import ContikiMaster.Lib.Buckets

/-!
# The memory of the transmit queues

The neighbour blocks in use are the listed ones, and every queued packet holds one block of each
other pool. As long as this holds no freed neighbour is accessed, and the blocks represent the
queues of the abstract machine.
-/

namespace ContikiMaster.Csma

open Lib Sys Net List Option Memb
open Tsch (Linkaddr)

/-- A neighbour whose packets are given in another way. -/
def NeighborQueue.map {ι κ : Type} (f : ι → κ) (x : NeighborQueue ι) : NeighborQueue κ :=
  ⟨x.addr, x.transmitTimer, x.transmissions, x.collisions, x.packetQueue.map f⟩

namespace State

variable {s s' : State} {n p m : ℕ} {items items' : List ℕ} {x y : NeighborQueue ℕ}

def metadataPtr (s : State) (p : ℕ) : ℕ := (s.packet p).ptr.getD 0

def queued (s : State) : List ℕ := allItems s.neighborList fun n ↦ (s.neighbor n).packetQueue

/-- A neighbour with what its packets are instead of where they are. -/
def view (s : State) (n : ℕ) : NeighborQueue QbufMetadata := (s.neighbor n).map s.metadataOf

/-- The queues that the blocks represent. -/
def queues (s : State) : Queues where
  neighbors := s.neighborList.map s.view
  calls := s.calls
  accepted := s.accepted
  called := s.called
  aired := s.aired

/-- The neighbour blocks in use are the listed ones, timers run for listed neighbours only, and no
freed block was accessed. -/
structure Listed (s : State) : Prop where
  neighbors : s.neighborMemb.Uses s.neighborList
  timers : ∀ n, (s.neighbor n).transmitTimer = true → n ∈ s.neighborList
  dangling : s.dangling = false

/-- Every packet of the list holds a packet block, a metadata block and a queue buffer, and nobody
else does, apart from the queue buffers of the other modules. -/
structure Blocks (s : State) (items : List ℕ) : Prop where
  packets : s.packetMemb.Uses items
  metadata : s.metadataMemb.Uses (items.map s.metadataPtr)
  buffers : s.queuebufs.Uses (items.map (fun p ↦ (s.packet p).buf) ++ s.foreign)
  ptr : ∀ p ∈ items, (s.packet p).ptr = some (s.metadataPtr p)

structure Sound (s : State) : Prop where
  listed : s.Listed
  blocks : s.Blocks s.queued

theorem sound_init (conf : Conf) (seqno : ℕ) : (init conf seqno).Sound where
  listed := ⟨uses_init _ _, fun _ htimer ↦ Bool.noConfusion htimer, rfl⟩
  blocks := ⟨uses_init _ _, uses_init _ _, QueueBufs.uses_init _ _,
    fun _ hp ↦ absurd hp not_mem_nil⟩

namespace Blocks

theorem perm (hblocks : s.Blocks items) (hperm : items.Perm items') : s.Blocks items' where
  packets := hblocks.packets.perm hperm
  metadata := hblocks.metadata.perm (hperm.map _)
  buffers := hblocks.buffers.perm ((hperm.map _).append_right _)
  ptr p hp := hblocks.ptr p (hperm.mem_iff.mpr hp)

theorem of_eq (hblocks : s.Blocks items) (hpackets : s'.packetMemb = s.packetMemb)
    (hmetadata : s'.metadataMemb = s.metadataMemb) (hbuffers : s'.queuebufs = s.queuebufs)
    (hforeign : s'.foreign = s.foreign) : s'.Blocks items := by
  obtain ⟨neighborMemb, packetMemb, metadataMemb, queuebufs, neighborList, seqno, foreign⟩ := s'
  subst hpackets hmetadata hbuffers hforeign
  exact ⟨hblocks.packets, hblocks.metadata, hblocks.buffers, hblocks.ptr⟩

theorem free (hblocks : s.Blocks (p :: items)) (hm : (s.packet p).ptr = some m) :
    Blocks { s with
      queuebufs := s.queuebufs.free (s.packet p).buf
      metadataMemb := s.metadataMemb.free m
      packetMemb := s.packetMemb.free p } items := by
  have hptr : s.metadataPtr p = m := by rw [metadataPtr, hm, getD_some]
  have hpacket : (s.packetMemb.free p).mem = s.packetMemb.mem := free_mem
  have hmetadata := hblocks.metadata
  have hbuffers := hblocks.buffers
  rw [map_cons, hptr] at hmetadata
  rw [map_cons, cons_append] at hbuffers
  refine ⟨hblocks.packets.free, ?_, ?_, fun q hq ↦ ?_⟩
  · change (s.metadataMemb.free m).Uses
      (items.map fun q ↦ ((s.packetMemb.free p).mem q).ptr.getD 0)
    rw [hpacket]
    exact hmetadata.free
  · change (s.queuebufs.free (s.packet p).buf).Uses
      (items.map (fun q ↦ ((s.packetMemb.free p).mem q).buf) ++ s.foreign)
    rw [hpacket]
    exact hbuffers.free
  · change ((s.packetMemb.free p).mem q).ptr = some (((s.packetMemb.free p).mem q).ptr.getD 0)
    rw [hpacket]
    exact hblocks.ptr q (mem_cons_of_mem p hq)

end Blocks

/-- The three pools of packets, and what they held, after `allocPacket`. -/
structure Allocated (conf : Conf) (s : State) (packetbuf : Attrs) (call : ℕ) (items : List ℕ)
    (r : State × Option ℕ) : Prop where
  frame : ∃ packetMemb metadataMemb queuebufs, r.1 = { s with
    packetMemb := packetMemb, metadataMemb := metadataMemb, queuebufs := queuebufs }
  kept : ∀ p ∈ items, r.1.metadataOf p = s.metadataOf p
  failed : r.2 = none → r.1.Blocks items
  taken : ∀ q, r.2 = some q → q ∉ items ∧ r.1.Blocks (q :: items) ∧
    r.1.metadataOf q = ⟨call, packetbuf.maxTransmissions conf⟩

section Pools

variable {packetMemb : Memb PacketQueue} {metadataMemb : Memb QbufMetadata}
  {queuebufs : QueueBufs Attrs} {q buf : ℕ}

theorem metadataOf_of_mem (hp : packetMemb.mem q = s.packet q)
    (hm : metadataMemb.mem (s.metadataPtr q) = s.metadataMemb.mem (s.metadataPtr q)) :
    metadataOf { s with
      packetMemb := packetMemb, metadataMemb := metadataMemb, queuebufs := queuebufs } q =
      s.metadataOf q := by
  change metadataMemb.mem ((packetMemb.mem q).ptr.getD 0) = _
  rw [hp]
  exact hm

namespace Blocks

theorem of_kept (hblocks : s.Blocks items) (hkept : ∀ p ∈ items, packetMemb.mem p = s.packet p)
    (hpackets : packetMemb.Uses items) (hmetadata : metadataMemb.Uses (items.map s.metadataPtr))
    (hbuffers : queuebufs.Uses (items.map (fun p ↦ (s.packet p).buf) ++ s.foreign)) :
    Blocks { s with
      packetMemb := packetMemb, metadataMemb := metadataMemb, queuebufs := queuebufs } items := by
  refine ⟨hpackets, ?_, ?_, fun p hp ↦ ?_⟩
  · change metadataMemb.Uses (items.map fun p ↦ (packetMemb.mem p).ptr.getD 0)
    rwa [map_congr_left fun p hp ↦ by rw [hkept p hp]]
  · change queuebufs.Uses (items.map (fun p ↦ (packetMemb.mem p).buf) ++ s.foreign)
    rwa [map_congr_left fun p hp ↦ by rw [hkept p hp]]
  · change (packetMemb.mem p).ptr = some ((packetMemb.mem p).ptr.getD 0)
    rw [hkept p hp]
    exact hblocks.ptr p hp

theorem of_new (hblocks : s.Blocks items) (hkept : ∀ p ∈ items, packetMemb.mem p = s.packet p)
    (hq : packetMemb.mem q = ⟨buf, some m⟩) (hpackets : packetMemb.Uses (q :: items))
    (hmetadata : metadataMemb.Uses (m :: items.map s.metadataPtr))
    (hbuffers : queuebufs.Uses (buf :: (items.map (fun p ↦ (s.packet p).buf) ++ s.foreign))) :
    Blocks { s with
      packetMemb := packetMemb, metadataMemb := metadataMemb, queuebufs := queuebufs }
      (q :: items) := by
  refine ⟨hpackets, ?_, ?_, fun p hp ↦ ?_⟩
  · change metadataMemb.Uses ((q :: items).map fun p ↦ (packetMemb.mem p).ptr.getD 0)
    rw [map_cons, hq, map_congr_left fun p hp ↦ by rw [hkept p hp]]
    exact hmetadata
  · change queuebufs.Uses ((q :: items).map (fun p ↦ (packetMemb.mem p).buf) ++ s.foreign)
    rw [map_cons, hq, map_congr_left fun p hp ↦ by rw [hkept p hp]]
    exact hbuffers
  · change (packetMemb.mem p).ptr = some ((packetMemb.mem p).ptr.getD 0)
    rcases mem_cons.mp hp with rfl | hp
    · rw [hq]
      rfl
    · rw [hkept p hp]
      exact hblocks.ptr p hp

end Blocks

end Pools

theorem Blocks.allocPacket (hblocks : s.Blocks items) (conf : Conf) (packetbuf : Attrs)
    (call : ℕ) : Allocated conf s packetbuf call items (allocPacket conf s packetbuf call) := by
  unfold Csma.allocPacket
  rcases hq : s.packetMemb.alloc with _ | ⟨q, packetMemb⟩
  · exact ⟨⟨_, _, _, rfl⟩, fun _ _ ↦ rfl, fun _ ↦ hblocks, fun _ hsome ↦ nomatch hsome⟩
  have hqNot := hblocks.packets.notMem_of_alloc hq
  have hqMem : packetMemb.mem = s.packetMemb.mem := (alloc_spec hq).2.2.2.1
  have hpackets := hblocks.packets.alloc hq
  have hkept : ∀ v, ∀ p ∈ items, (packetMemb.store q v).mem p = s.packet p := fun v p hp ↦ by
    have hne : p ≠ q := fun heq ↦ hqNot (heq ▸ hp)
    rw [store_mem_of_ne hne, hqMem]
    rfl
  rcases hm : s.metadataMemb.alloc with _ | ⟨m, metadataMemb⟩
  · have hkeptFree : ∀ v, ∀ p ∈ items, ((packetMemb.store q v).free q).mem p = s.packet p :=
      fun v p hp ↦ by
        rw [free_mem]
        exact hkept v p hp
    refine ⟨⟨_, _, _, rfl⟩, fun p hp ↦ ?_, fun _ ↦ ?_, fun _ hsome ↦ nomatch hsome⟩
    · exact metadataOf_of_mem (hkeptFree _ p hp) rfl
    · exact hblocks.of_kept (hkeptFree _) (hpackets.store _ _).free hblocks.metadata
        hblocks.buffers
  have hmNot := hblocks.metadata.notMem_of_alloc hm
  have hmMem : metadataMemb.mem = s.metadataMemb.mem := (alloc_spec hm).2.2.2.1
  have hmetadata := hblocks.metadata.alloc hm
  rcases hb : s.queuebufs.newFromPacketbuf packetbuf with _ | ⟨buf, queuebufs⟩
  · have hkeptFree : ∀ v, ∀ p ∈ items, ((packetMemb.store q v).free q).mem p = s.packet p :=
      fun v p hp ↦ by
        rw [free_mem]
        exact hkept v p hp
    refine ⟨⟨_, _, _, rfl⟩, fun p hp ↦ ?_, fun _ ↦ ?_, fun _ hsome ↦ nomatch hsome⟩
    · apply metadataOf_of_mem (hkeptFree _ p hp)
      rw [free_mem, hmMem]
    · exact hblocks.of_kept (hkeptFree _) (hpackets.store _ _).free hmetadata.free
        hblocks.buffers
  obtain ⟨-, hbuffers, -, -⟩ := hblocks.buffers.newFromPacketbuf hb
  have hkeptTwice : ∀ v w, ∀ p ∈ items,
      ((packetMemb.store q v).store q w).mem p = s.packet p := fun v w p hp ↦ by
    have hne : p ≠ q := fun heq ↦ hqNot (heq ▸ hp)
    rw [store_mem_of_ne hne]
    exact hkept v p hp
  have hqBlock : ((packetMemb.store q { packetMemb.mem q with ptr := some m }).store q
      { (packetMemb.store q { packetMemb.mem q with ptr := some m }).mem q with buf := buf }).mem
      q = ⟨buf, some m⟩ := by
    rw [store_mem_self, store_mem_self]
  refine ⟨⟨_, _, _, rfl⟩, fun p hp ↦ ?_, fun hnone ↦ (nomatch hnone), fun r hr ↦ ?_⟩
  · apply metadataOf_of_mem (hkeptTwice _ _ p hp)
    have hne : s.metadataPtr p ≠ m := fun heq ↦ hmNot (heq ▸ mem_map_of_mem hp)
    rw [store_mem_of_ne hne, hmMem]
  · rw [← some.inj hr]
    refine ⟨hqNot, ?_, ?_⟩
    · exact hblocks.of_new (hkeptTwice _ _) hqBlock ((hpackets.store _ _).store _ _)
        (hmetadata.store _ _) hbuffers
    · unfold metadataOf packet
      rw [hqBlock]
      exact store_mem_self

end State

end ContikiMaster.Csma
