import ContikiMaster.Lib.Memory
import ContikiMaster.Lib.Run
import ContikiMaster.Net.QueueBuf
import Mathlib

/-!
# The packet buffer as two strings

`packetbuf.c` keeps a header and data in one array, with the consumed bytes of the data between
them, and `queuebuf.c` saves the two. As long as the 8-bit length of header and consumed bytes
does not wrap, the calls act on two strings.
-/

namespace ContikiMaster.Net

open Lib Sys Function List

universe u

/-- The static variables of `packetbuf.c`, the attributes and addresses as one value. -/
structure PacketBuffer (α : Type u) where
  packetbuf : ℕ → UInt8
  buflen : ℕ
  bufptr : ℕ
  hdrlen : ℕ
  attrs : α

/-- The loop of `packetbuf_hdralloc`, from the last byte to the first. -/
def shiftRight (n : ℕ) : ℕ → (ℕ → UInt8) → ℕ → UInt8
  | 0, mem => mem
  | i + 1, mem => shiftRight n i (update mem (i + n) (mem i))

namespace PacketBuffer

variable {α : Type u} (size : ℕ) (pb : PacketBuffer α)

/-- `packetbuf_hdrlen`, a `uint8_t`. -/
def packetbufHdrlen : ℕ := (pb.bufptr + pb.hdrlen) % 256

/-- `packetbuf_totlen`, a `uint16_t`. -/
def packetbufTotlen : ℕ := (pb.packetbufHdrlen + pb.buflen) % 65536

/-- `packetbuf_copyfrom`, with `size` for `PACKETBUF_SIZE`; cleared attributes are 0. -/
def packetbufCopyfrom [Zero α] (source : ℕ → UInt8) (len : UInt16) : PacketBuffer α where
  packetbuf := writeAt pb.packetbuf 0 (slice source 0 (min size len.toNat))
  buflen := min size len.toNat
  bufptr := 0
  hdrlen := 0
  attrs := 0

/-- `packetbuf_copyto`: the bytes that are copied. -/
def packetbufCopyto : List UInt8 :=
  if size < pb.hdrlen + pb.buflen then []
  else slice pb.packetbuf 0 pb.hdrlen ++ slice pb.packetbuf pb.packetbufHdrlen pb.buflen

/-- `packetbuf_hdralloc`; the index of its loop is an `int16_t`. -/
def packetbufHdralloc (n : ℕ) : Option (PacketBuffer α) :=
  if size < n + pb.packetbufTotlen then none
  else
    let turns := if pb.packetbufTotlen ≤ 32768 then pb.packetbufTotlen else 0
    some { pb with packetbuf := shiftRight n turns pb.packetbuf, hdrlen := (pb.hdrlen + n) % 256 }

def packetbufHdrreduce (n : ℕ) : Option (PacketBuffer α) :=
  if pb.buflen < n then none
  else some { pb with bufptr := (pb.bufptr + n) % 65536, buflen := pb.buflen - n }

/-- Write at `packetbuf_hdrptr`. -/
def writeHeader (header : List UInt8) : PacketBuffer α :=
  { pb with packetbuf := writeAt pb.packetbuf 0 header }

end PacketBuffer

/-- A header and data, and how many bytes of the data were consumed. -/
@[ext]
structure View (α : Type u) where
  header : List UInt8
  data : List UInt8
  consumed : ℕ
  attrs : α

namespace View

variable {α : Type u} (v : View α)

def bytes : List UInt8 := v.header ++ v.data

/-- Put bytes in front of the header; the consumed bytes take up room, too. -/
def prepend (size : ℕ) (header : List UInt8) : Option (View α) :=
  if header.length + (v.consumed + v.header.length + v.data.length) ≤ size then
    some { v with header := header ++ v.header }
  else none

def drop (n : ℕ) : Option (View α) :=
  if n ≤ v.data.length then some { v with data := v.data.drop n, consumed := v.consumed + n }
  else none

end View

theorem shiftRight_apply (n k : ℕ) (mem : ℕ → UInt8) (j : ℕ) :
    shiftRight n k mem j = if n ≤ j ∧ j < k + n then mem (j - n) else mem j := by
  induction k generalizing mem with
  | zero => rw [shiftRight, if_neg (by omega)]
  | succ k ih =>
    rw [shiftRight, ih]
    by_cases hlast : j = k + n
    · rw [hlast, if_neg (by omega), if_pos (by omega), update_self, Nat.add_sub_cancel]
    · rw [update_of_ne hlast]
      by_cases hmoved : n ≤ j ∧ j < k + n
      · rw [if_pos hmoved, if_pos (by omega), update_of_ne (by omega)]
      · rw [if_neg hmoved, if_neg (by omega)]

theorem slice_shiftRight {n k p l : ℕ} (mem : ℕ → UInt8) (hle : p + l ≤ k) :
    slice (shiftRight n k mem) (p + n) l = slice mem p l := by
  apply ext_getElem
  · rw [length_slice, length_slice]
  · intro i hi hi'
    rw [length_slice] at hi
    rw [getElem_slice, getElem_slice, shiftRight_apply, if_pos (by omega)]
    congr 1
    omega

namespace PacketBuffer

variable {α : Type u} {size n : ℕ} {pb : PacketBuffer α} {header : List UInt8}

/-- The two strings in the buffer. -/
def view (pb : PacketBuffer α) : View α :=
  ⟨slice pb.packetbuf 0 pb.hdrlen, slice pb.packetbuf (pb.bufptr + pb.hdrlen) pb.buflen, pb.bufptr,
    pb.attrs⟩

/-- Header and consumed bytes have an 8-bit length, and everything is in the buffer. -/
structure Fits (size : ℕ) (pb : PacketBuffer α) : Prop where
  header : pb.bufptr + pb.hdrlen ≤ 255
  total : pb.bufptr + pb.hdrlen + pb.buflen ≤ size
  length : pb.bufptr + pb.hdrlen + pb.buflen < 65536

theorem Fits.hdrlen_eq (hfits : pb.Fits size) : pb.packetbufHdrlen = pb.bufptr + pb.hdrlen :=
  Nat.mod_eq_of_lt (Nat.lt_succ_of_le hfits.header)

theorem Fits.totlen_eq (hfits : pb.Fits size) :
    pb.packetbufTotlen = pb.bufptr + pb.hdrlen + pb.buflen := by
  rw [packetbufTotlen, hfits.hdrlen_eq, Nat.mod_eq_of_lt hfits.length]

theorem Fits.copyto (hfits : pb.Fits size) : pb.packetbufCopyto size = pb.view.bytes := by
  have htotal := hfits.total
  rw [packetbufCopyto, if_neg (by omega), hfits.hdrlen_eq]
  rfl

theorem fits_copyfrom [Zero α] (size : ℕ) (pb : PacketBuffer α) (source : ℕ → UInt8)
    (len : UInt16) : (pb.packetbufCopyfrom size source len).Fits size := by
  have hlen := len.toNat_lt
  constructor
  · exact Nat.zero_le 255
  · change 0 + 0 + min size len.toNat ≤ size
    omega
  · change 0 + 0 + min size len.toNat < 65536
    omega

theorem view_copyfrom [Zero α] (size : ℕ) (pb : PacketBuffer α) (source : ℕ → UInt8)
    (len : UInt16) : (pb.packetbufCopyfrom size source len).view =
      ⟨[], slice source 0 (min size len.toNat), 0, 0⟩ := by
  have hwritten := slice_writeAt_self pb.packetbuf 0 (slice source 0 (min size len.toNat))
  rw [length_slice] at hwritten
  ext1
  · rfl
  · exact hwritten
  · rfl
  · rfl

theorem Fits.hdralloc (hfits : pb.Fits size) (hallowed : header.length + pb.packetbufTotlen ≤ size →
      pb.bufptr + pb.hdrlen + header.length ≤ 255 ∧ pb.bufptr + pb.hdrlen + pb.buflen ≤ 32768) :
    let pb' := ((pb.packetbufHdralloc size header.length).map (·.writeHeader header)).getD pb
    pb'.Fits size ∧ pb'.view = (pb.view.prepend size header).getD pb.view := by
  have hprepend : pb.view.prepend size header =
      if header.length + (pb.bufptr + pb.hdrlen + pb.buflen) ≤ size then
        some { pb.view with header := header ++ pb.view.header }
      else none := by
    unfold View.prepend view
    rw [length_slice, length_slice]
  unfold packetbufHdralloc
  rw [hprepend, hfits.totlen_eq]
  rw [hfits.totlen_eq] at hallowed
  by_cases hroom : header.length + (pb.bufptr + pb.hdrlen + pb.buflen) ≤ size
  · obtain ⟨hheader, hlength⟩ := hallowed hroom
    have hmod : (pb.hdrlen + header.length) % 256 = pb.hdrlen + header.length :=
      Nat.mod_eq_of_lt (by omega)
    rw [if_neg (by omega), if_pos hroom, if_pos hlength, hmod]
    refine ⟨⟨by change pb.bufptr + (pb.hdrlen + header.length) ≤ 255; omega,
      by change pb.bufptr + (pb.hdrlen + header.length) + pb.buflen ≤ size; omega,
      by change pb.bufptr + (pb.hdrlen + header.length) + pb.buflen < 65536; omega⟩, ?_⟩
    ext1
    · change slice (writeAt _ 0 header) 0 (pb.hdrlen + _) = header ++ slice pb.packetbuf 0 pb.hdrlen
      rw [Nat.add_comm pb.hdrlen, slice_add, slice_writeAt_self, slice_writeAt (.inr (by omega)),
        slice_shiftRight _ (by omega)]
    · change slice (writeAt _ 0 header) (pb.bufptr + (pb.hdrlen + header.length)) pb.buflen =
        slice pb.packetbuf (pb.bufptr + pb.hdrlen) pb.buflen
      rw [slice_writeAt (.inr (by omega)), ← Nat.add_assoc, slice_shiftRight _ (by omega)]
    · rfl
    · rfl
  · rw [if_pos (by omega), if_neg hroom]
    exact ⟨hfits, rfl⟩

theorem Fits.hdrreduce (hfits : pb.Fits size)
    (hheader : n ≤ pb.buflen → pb.bufptr + pb.hdrlen + n ≤ 255) :
    ((pb.packetbufHdrreduce n).getD pb).Fits size ∧
      ((pb.packetbufHdrreduce n).getD pb).view = (pb.view.drop n).getD pb.view := by
  have hdata : pb.view.data.length = pb.buflen := length_slice _ _ _
  unfold packetbufHdrreduce View.drop
  rw [hdata]
  by_cases hle : n ≤ pb.buflen
  · have hheader := hheader hle
    have htotal := hfits.total
    have hlength := hfits.length
    rw [if_neg (by omega), if_pos hle]
    have hmod : (pb.bufptr + n) % 65536 = pb.bufptr + n := Nat.mod_eq_of_lt (by omega)
    simp only [Option.getD_some, hmod]
    refine ⟨⟨by dsimp only; omega, by dsimp only; omega, by dsimp only; omega⟩, ?_⟩
    ext1
    · rfl
    · change slice pb.packetbuf (pb.bufptr + n + pb.hdrlen) (pb.buflen - n) =
        (slice pb.packetbuf (pb.bufptr + pb.hdrlen) pb.buflen).drop n
      obtain ⟨rest, hrest⟩ := Nat.exists_eq_add_of_le hle
      rw [hrest, slice_add, Nat.add_sub_cancel_left, drop_left' (length_slice _ _ _)]
      congr 1
      omega
    · rfl
    · rfl
  · rw [if_pos (by omega), if_neg hle]
    exact ⟨hfits, rfl⟩

end PacketBuffer

/-- The packet buffer, the queue buffers and, beside them, what was saved where. -/
structure Buffers (α : Type u) where
  pb : PacketBuffer α
  queue : QueueBufs (List UInt8 × α)
  saved : List (ℕ × (List UInt8 × α))

/-- A call; `hdralloc` with the header that is written behind it. -/
inductive BufferOp (α : Type u)
  | copyfrom (source : ℕ → UInt8) (len : UInt16)
  | hdralloc (header : List UInt8)
  | hdrreduce (n : ℕ)
  | setAttrs (attrs : α)
  | save
  | restore (buf : ℕ)

namespace Buffers

variable {α : Type u} [Zero α] {size num : ℕ} {s t : Buffers α} {op : BufferOp α}

/-- Behind `packetbuf_clear`. -/
def init (α : Type u) [Zero α] (num : ℕ) : Buffers α :=
  ⟨⟨fun _ ↦ 0, 0, 0, 0, 0⟩, .init num ([], 0), []⟩

/-- One call; `queuebuf_to_packetbuf` of a pointer outside of the pool does nothing. -/
def next (size : ℕ) (s : Buffers α) : BufferOp α → Buffers α
  | .copyfrom source len => { s with pb := s.pb.packetbufCopyfrom size source len }
  | .hdralloc header =>
    { s with
      pb := ((s.pb.packetbufHdralloc size header.length).map (·.writeHeader header)).getD s.pb }
  | .hdrreduce n => { s with pb := (s.pb.packetbufHdrreduce n).getD s.pb }
  | .setAttrs attrs => { s with pb := { s.pb with attrs } }
  | .save =>
    let packet := (s.pb.packetbufCopyto size, s.pb.attrs)
    match s.queue.newFromPacketbuf packet with
    | none => s
    | some (buf, queue) => { s with queue, saved := (buf, packet) :: s.saved }
  | .restore buf =>
    if buf < s.queue.bufmem.num then
      let packet := s.queue.toPacketbuf buf
      let copied := s.pb.packetbufCopyfrom size (fun i ↦ packet.1.getD i 0)
        (UInt16.ofNat packet.1.length)
      { s with pb := { copied with attrs := packet.2 } }
    else s

/-- What a call makes of the strings. -/
def act (size : ℕ) (saved : ℕ → List UInt8 × α) (v : View α) : BufferOp α → View α
  | .copyfrom source len => ⟨[], slice source 0 (min size len.toNat), 0, 0⟩
  | .hdralloc header => (v.prepend size header).getD v
  | .hdrreduce n => (v.drop n).getD v
  | .setAttrs attrs => { v with attrs }
  | .save => v
  | .restore buf => ⟨[], (saved buf).1, 0, (saved buf).2⟩

/-- A call that has room keeps the length of header and consumed bytes below 256 and moves at most
the 32768 bytes that its loop can; what is restored was saved. -/
def Allowed (size : ℕ) (s : Buffers α) : BufferOp α → Prop
  | .hdralloc header => header.length + s.pb.packetbufTotlen ≤ size →
    s.pb.bufptr + s.pb.hdrlen + header.length ≤ 255 ∧
      s.pb.bufptr + s.pb.hdrlen + s.pb.buflen ≤ 32768
  | .hdrreduce n => n ≤ s.pb.buflen → s.pb.bufptr + s.pb.hdrlen + n ≤ 255
  | .restore buf => buf ∈ s.saved.map Prod.fst
  | _ => True

/-- The strings are in the buffer, and what was saved is in the queue buffers. -/
structure Represents (size : ℕ) (s : Buffers α) : Prop where
  fits : s.pb.Fits size
  uses : s.queue.Uses (s.saved.map Prod.fst)
  holds : ∀ x ∈ s.saved, s.queue.toPacketbuf x.1 = x.2 ∧ x.2.1.length ≤ min size 65535

omit [Zero α] in
theorem restored {packet : List UInt8 × α} (hlength : packet.1.length ≤ min size 65535) :
    slice (fun i ↦ packet.1.getD i 0) 0 (min size (UInt16.ofNat packet.1.length).toNat) =
      packet.1 := by
  have hlen : (UInt16.ofNat packet.1.length).toNat = packet.1.length :=
    UInt16.toNat_ofNat_of_lt' (by change packet.1.length < 65536; omega)
  rw [hlen, Nat.min_eq_right (by omega)]
  apply ext_getElem (length_slice _ _ _)
  intro i hi hi'
  rw [getElem_slice, Nat.zero_add, getD_eq_getElem _ _ hi']

theorem Represents.next (hs : s.Represents size) (hallowed : s.Allowed size op) :
    (s.next size op).Represents size ∧
      (s.next size op).pb.view = act size s.queue.toPacketbuf s.pb.view op := by
  cases op with
  | copyfrom source len =>
    exact ⟨⟨PacketBuffer.fits_copyfrom _ _ _ _, hs.uses, hs.holds⟩,
      PacketBuffer.view_copyfrom _ _ _ _⟩
  | hdralloc header =>
    obtain ⟨hfits, hview⟩ := hs.fits.hdralloc hallowed
    exact ⟨⟨hfits, hs.uses, hs.holds⟩, hview⟩
  | hdrreduce n =>
    obtain ⟨hfits, hview⟩ := hs.fits.hdrreduce hallowed
    exact ⟨⟨hfits, hs.uses, hs.holds⟩, hview⟩
  | setAttrs attrs => exact ⟨⟨⟨hs.fits.1, hs.fits.2, hs.fits.3⟩, hs.uses, hs.holds⟩, rfl⟩
  | save =>
    unfold Buffers.next
    dsimp only
    cases hnew : s.queue.newFromPacketbuf (s.pb.packetbufCopyto size, s.pb.attrs) with
    | none => exact ⟨hs, rfl⟩
    | some result =>
      obtain ⟨buf, queue⟩ := result
      obtain ⟨hfresh, huses, hself, hold⟩ := hs.uses.newFromPacketbuf hnew
      refine ⟨⟨hs.fits, huses, fun x hx ↦ ?_⟩, rfl⟩
      rcases mem_cons.mp hx with rfl | hx
      · refine ⟨hself, ?_⟩
        have htotal := hs.fits.total
        have hlength := hs.fits.length
        rw [hs.fits.copyto, View.bytes, PacketBuffer.view, length_append, length_slice,
          length_slice]
        omega
      · obtain ⟨hheld, hlength⟩ := hs.holds x hx
        exact ⟨(hold _ (mem_map_of_mem hx)).trans hheld, hlength⟩
  | restore buf =>
    obtain ⟨x, hx, rfl⟩ := mem_map.mp hallowed
    obtain ⟨hheld, hlength⟩ := hs.holds x hx
    unfold Buffers.next
    dsimp only
    rw [if_pos (hs.uses.bufs.lt _ hallowed), hheld]
    have hfits := PacketBuffer.fits_copyfrom size s.pb (fun i ↦ x.2.1.getD i 0)
      (UInt16.ofNat x.2.1.length)
    refine ⟨⟨⟨hfits.1, hfits.2, hfits.3⟩, hs.uses, hs.holds⟩, ?_⟩
    have hview := PacketBuffer.view_copyfrom size s.pb (fun i ↦ x.2.1.getD i 0)
      (UInt16.ofNat x.2.1.length)
    rw [restored hlength] at hview
    change View.mk _ _ _ _ = View.mk [] (s.queue.toPacketbuf x.1).1 0 (s.queue.toPacketbuf x.1).2
    rw [hheld]
    exact congrArg (fun v : View α ↦ { v with attrs := x.2.2 }) hview

/-- In a run of allowed calls from a cleared buffer, every call acts on the strings, what is copied
out is header and data, and restoring gives back what was saved. -/
theorem strings_of_run {ops : List (BufferOp α)}
    (hrun : Run (fun s op t ↦ s.Allowed size op ∧ t = s.next size op) (init α num) ops s) :
    s.pb.packetbufCopyto size = s.pb.view.bytes ∧ s.pb.packetbufTotlen ≤ size ∧
      (∀ x ∈ s.saved, s.queue.toPacketbuf x.1 = x.2) ∧
      (∀ buf packet, (s.next size .save).saved = (buf, packet) :: s.saved →
        packet = (s.pb.view.bytes, s.pb.view.attrs)) ∧
      ∀ op, s.Allowed size op →
        (s.next size op).pb.view = act size s.queue.toPacketbuf s.pb.view op := by
  have hs : s.Represents size := by
    refine hrun.invariant (P := fun s ↦ s.Represents size) ?_ ?_
    · rintro s op t hs ⟨hallowed, rfl⟩
      exact (hs.next hallowed).1
    · exact ⟨⟨Nat.zero_le _, Nat.zero_le _, Nat.zero_lt_succ _⟩, QueueBufs.uses_init _ _, nofun⟩
  refine ⟨hs.fits.copyto, hs.fits.totlen_eq ▸ hs.fits.total, fun x hx ↦ (hs.holds x hx).1,
    fun buf packet hsaved ↦ ?_, fun op hallowed ↦ (hs.next hallowed).2⟩
  unfold Buffers.next at hsaved
  dsimp only at hsaved
  split at hsaved
  · exact absurd (congrArg length hsaved) (by simp)
  · obtain rfl := (Prod.mk.inj (cons.inj hsaved).1).2
    rw [hs.fits.copyto]
    rfl

theorem strings_of_run_header : ∃ s : Buffers ℕ, s.pb.hdrlen = 2 ∧
    s.pb.packetbufCopyto 128 = s.pb.view.bytes := by
  have hrun : Run (fun s op t ↦ s.Allowed 128 op ∧ t = s.next 128 op) (init ℕ 2)
      [.copyfrom (fun i ↦ .ofNat i) 5, .hdralloc [7, 8], .save, .hdrreduce 3] _ :=
    .cons ⟨trivial, rfl⟩ (.cons ⟨fun _ ↦ by decide, rfl⟩ (.cons ⟨trivial, rfl⟩
      (.cons ⟨fun _ ↦ by decide, rfl⟩ (.nil _))))
  exact ⟨_, rfl, (strings_of_run hrun).1⟩

/-- Behind 256 consumed bytes, the 8-bit length is 0 again. -/
theorem not_strings_longData :
    let source : ℕ → UInt8 := fun i ↦ if i < 256 then 0 else 1
    (((init ℕ 1).next 1280 (.copyfrom source 300)).next 1280 (.hdrreduce 256)).pb.packetbufCopyto
      1280 ≠ (slice source 0 300).drop 256 := by
  decide +kernel

end Buffers

end ContikiMaster.Net
