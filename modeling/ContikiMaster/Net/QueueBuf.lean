import ContikiMaster.Sys.Memb
import Mathlib.Data.List.Nodup

/-!
# Queued packets

The queue buffers of `net/queuebuf.c`, without swapping: a small header block that
points to a block with the packet and its attributes. Both pools have `QUEUEBUF_NUM`
blocks and are shared by all modules that keep packets.
-/

namespace ContikiMaster.Net

open Sys List

universe u

/-- The two pools; a header block holds the index of its data block. -/
structure QueueBufs (α : Type u) where
  bufmem : Memb ℕ
  buframmem : Memb α

namespace QueueBufs

variable {α : Type u}

def init (num : ℕ) (zero : α) : QueueBufs α := ⟨.init num 0, .init num zero⟩

def newFromPacketbuf (b : QueueBufs α) (packetbuf : α) : Option (ℕ × QueueBufs α) :=
  match b.bufmem.alloc with
  | none => none
  | some (buf, bufmem) =>
    match b.buframmem.alloc with
    | none => none
    | some (ramPtr, buframmem) =>
      some (buf, ⟨bufmem.store buf ramPtr, buframmem.store ramPtr packetbuf⟩)

def free (b : QueueBufs α) (buf : ℕ) : QueueBufs α :=
  if buf < b.bufmem.num then
    ⟨b.bufmem.free buf, b.buframmem.free (b.bufmem.mem buf)⟩
  else b

/-- What a queue buffer holds: `queuebuf_to_packetbuf`, `queuebuf_attr`. -/
def toPacketbuf (b : QueueBufs α) (buf : ℕ) : α := b.buframmem.mem (b.bufmem.mem buf)

def updateFromPacketbuf (b : QueueBufs α) (buf : ℕ) (packetbuf : α) : QueueBufs α :=
  { b with buframmem := b.buframmem.store (b.bufmem.mem buf) packetbuf }

variable {b b' : QueueBufs α} {used used' : List ℕ} {buf q : ℕ} {v : α}

/-- The queue buffers of the list are in use, once each, and no other block of either pool is. -/
structure Uses (b : QueueBufs α) (used : List ℕ) : Prop where
  bufs : b.bufmem.Uses used
  rams : b.buframmem.Uses (used.map b.bufmem.mem)

theorem uses_init (num : ℕ) (zero : α) : (init num zero).Uses [] :=
  ⟨Memb.uses_init num 0, Memb.uses_init num zero⟩

namespace Uses

theorem perm (huses : b.Uses used) (hperm : used.Perm used') : b.Uses used' :=
  ⟨huses.bufs.perm hperm, huses.rams.perm (hperm.map _)⟩

theorem updateFromPacketbuf (huses : b.Uses used) (buf : ℕ) (v : α) :
    (b.updateFromPacketbuf buf v).Uses used :=
  ⟨huses.bufs, huses.rams.store _ _⟩

theorem free (huses : b.Uses (buf :: used)) : (b.free buf).Uses used := by
  rw [QueueBufs.free, if_pos (huses.bufs.lt buf mem_cons_self)]
  refine ⟨huses.bufs.free, ?_⟩
  change (b.buframmem.free (b.bufmem.mem buf)).Uses (used.map (b.bufmem.free buf).mem)
  rw [Memb.free_mem]
  exact huses.rams.free

theorem newFromPacketbuf (huses : b.Uses used) (hnew : b.newFromPacketbuf v = some (buf, b')) :
    buf ∉ used ∧ b'.Uses (buf :: used) ∧ b'.toPacketbuf buf = v ∧
      ∀ q ∈ used, b'.toPacketbuf q = b.toPacketbuf q := by
  unfold QueueBufs.newFromPacketbuf at hnew
  rcases hbuf : b.bufmem.alloc with _ | ⟨i, bufmem⟩
  · rw [hbuf] at hnew
    cases hnew
  rw [hbuf] at hnew
  rcases hram : b.buframmem.alloc with _ | ⟨ramPtr, buframmem⟩
  · rw [hram] at hnew
    cases hnew
  rw [hram] at hnew
  obtain ⟨rfl, rfl⟩ := Prod.mk.inj (Option.some.inj hnew)
  have hi := huses.bufs.notMem_of_alloc hbuf
  have hramFree := huses.rams.notMem_of_alloc hram
  have hbufmem : bufmem.mem = b.bufmem.mem := (Memb.alloc_spec hbuf).2.2.2.1
  have hbuframmem : buframmem.mem = b.buframmem.mem := (Memb.alloc_spec hram).2.2.2.1
  have hold : ∀ q ∈ used, (bufmem.store i ramPtr).mem q = b.bufmem.mem q := fun q hq ↦ by
    have hne : q ≠ i := fun heq ↦ hi (heq ▸ hq)
    rw [Memb.store_mem_of_ne hne, hbufmem]
  refine ⟨hi, ⟨(huses.bufs.alloc hbuf).store _ _, ?_⟩, ?_, fun q hq ↦ ?_⟩
  · change (buframmem.store ramPtr v).Uses ((i :: used).map (bufmem.store i ramPtr).mem)
    rw [map_cons, Memb.store_mem_self, map_congr_left hold]
    exact (huses.rams.alloc hram).store _ _
  · change (buframmem.store ramPtr v).mem ((bufmem.store i ramPtr).mem i) = v
    rw [Memb.store_mem_self, Memb.store_mem_self]
  · change (buframmem.store ramPtr v).mem ((bufmem.store i ramPtr).mem q) = _
    have hne : b.bufmem.mem q ≠ ramPtr := fun heq ↦ hramFree (heq ▸ mem_map_of_mem hq)
    rw [hold q hq, Memb.store_mem_of_ne hne, hbuframmem]
    rfl

end Uses

end QueueBufs

end ContikiMaster.Net
