import ContikiMaster.Coap.BlockTransfer

/-!
# The answer to a request for a block

What `coap_receive` makes of the result of a resource, as the client will read it: the
number and the more flag of the block, and the bytes of the representation.
-/

namespace ContikiMaster.Coap

open Lib Cursor List Option BlockOption

variable {conf : EngineConf} {sizes : CoapConf} {resource : Resource} {m : Message} {mid : UInt16}
  {buffer packet : ℕ → UInt8} {message : ParsedPacket}

/-- What a request asks for: the number and the size of a block. -/
abbrev Ask := Option (UInt32 × UInt16)

/-- The reply of a server whose largest block has some size; `ask` is what it is asked for. -/
def Resource.reply (resource : Resource) (maxBlock : UInt16) : Ask → Reply
  | none =>
    if resource.aware then
      ⟨some (0, if maxBlock.toNat < resource.representation.length then 1 else 0),
        resource.representation.take maxBlock.toNat⟩
    else ⟨none, resource.representation⟩
  | some (num, wanted) =>
    let size := min wanted.toNat maxBlock.toNat
    let offset := num.toNat * wanted.toNat
    if resource.aware = false ∧ resource.representation.length ≤ offset then
      ⟨none, textBytes "BlockOutOfScope"⟩
    else
      ⟨some (num, if offset + size < resource.representation.length then 1 else 0),
        (resource.representation.drop offset).take size⟩

theorem Resource.reply_some (resource : Resource) (maxBlock : UInt16) (num : UInt32)
    (wanted : UInt16) : resource.reply maxBlock (some (num, wanted)) =
      let size := min wanted.toNat maxBlock.toNat
      let offset := num.toNat * wanted.toNat
      if resource.aware = false ∧ resource.representation.length ≤ offset then
        ⟨none, textBytes "BlockOutOfScope"⟩
      else
        ⟨some (num, if offset + size < resource.representation.length then 1 else 0),
          (resource.representation.drop offset).take size⟩ := rfl

theorem wireSize_le (hoptions : m.options ⊆ {block2.number}) : wireSize m ≤ 18 := by
  have hitems : messageItems m serializeOrder =
      if m.IsOption block2.number then
        [(23, intBytes (encodeBlock (m.block .block2)))] else [] := by
    have hnone : ∀ order : List CoapOption, CoapOption.block .block2 ∉ order →
        messageItems m order = [] := by
      intro order hnot
      apply flatMap_eq_nil_iff.mpr
      intro o ho
      refine if_neg fun hset ↦ hnot ?_
      have hsame : o = .block .block2 := 
        CoapOption.number_injective (Finset.mem_singleton.mp (hoptions hset))
      exact hsame ▸ ho
    have hsplit : serializeOrder =
        serializeOrder.take 13 ++ ([.block .block2] ++ serializeOrder.drop 14) := rfl
    have happend : ∀ front back : List CoapOption,
        messageItems m (front ++ back) = messageItems m front ++ messageItems m back :=
      fun _ _ ↦ flatMap_append
    rw [hsplit, happend, happend, hnone (serializeOrder.take 13) (by decide),
      hnone (serializeOrder.drop 14) (by decide), nil_append,
      append_nil, messageItems, flatMap_singleton]
    rfl
  have hvalue : (intBytes (encodeBlock (m.block .block2))).length ≤ 4 :=
    (length_intBytes _).trans_le (intSize_le _)
  have htoken := m.token.2
  have hsize : ∀ n ≤ 4, optionSize (23 - 0) n ≤ 6 := by decide
  unfold wireSize
  rw [hitems]
  split_ifs
  · have hoption := hsize _ hvalue
    change 4 + m.token.1.length + (optionSize (23 - 0)
      (intBytes (encodeBlock (m.block .block2))).length + 0) ≤ 18
    omega
  · change 4 + m.token.1.length + 0 ≤ 18
    omega

theorem segmentsNonempty_of_options (hoptions : m.options ⊆ {block2.number}) :
    SegmentsNonempty m := by
  intro s _ hset
  have hsame : CoapOption.string s = .block .block2 :=
    CoapOption.number_injective (Finset.mem_singleton.mp (hoptions hset))
  cases hsame

theorem supported_of_options (hbuilt : Built sizes m) (hoptions : m.options ⊆ {block2.number}) :
    Supported m where
  int := hbuilt.int
  noProxy := ⟨fun hset ↦ absurd (Finset.mem_singleton.mp (hoptions hset)) (by decide),
    fun hset ↦ absurd (Finset.mem_singleton.mp (hoptions hset)) (by decide)⟩
  segments := segmentsNonempty_of_options hoptions

structure Plain (sizes : CoapConf) (mid : UInt16) (m : Message) : Prop where
  built : Built sizes m
  type : m.type = .ack
  code : 4 < m.code
  mid : m.mid = mid
  options : m.options ⊆ {block2.number}

theorem plain_initResponse (htype : message.type = .con) (mid : UInt16) :
    Plain sizes message.mid (initResponse message mid) := by
  unfold initResponse
  rw [if_pos htype]
  dsimp only
  have hcode : (4 : UInt8) < 69 := by decide
  split_ifs
  · exact ⟨(built_init _ _ _).applySetter (.token _), rfl, hcode, rfl, Finset.empty_subset _⟩
  · exact ⟨built_init _ _ _, rfl, hcode, rfl, Finset.empty_subset _⟩

section

variable (hm : Plain sizes mid m)

include hm

theorem Plain.setBlock2 (num : UInt32) (more : UInt8) (size : UInt16) :
    Plain sizes mid (m.coapSetHeaderBlock2 num more size) := by
  unfold Message.coapSetHeaderBlock2
  generalize (if more ≠ 0 then 1 else 0 : UInt8) = flag
  have hbuilt := hm.built.setHeaderBlock .block2 num flag size
  unfold Message.setHeaderBlock at hbuilt ⊢
  split_ifs at hbuilt ⊢
  · exact hm
  · exact hm
  · exact hm
  · exact ⟨hbuilt, hm.type, hm.code, hm.mid,
      Finset.insert_subset (Finset.mem_singleton_self _) hm.options⟩

theorem Plain.setPayload (ptr : PayloadPtr) (length : ℕ) :
    Plain sizes mid (Message.coapSetPayload sizes m ptr length) :=
  ⟨hm.built.applySetter (.payload ptr length), hm.type, hm.code, hm.mid, hm.options⟩

theorem Plain.setCode {code : UInt8} (hcode : 4 < code) :
    Plain sizes mid { m with code := code } :=
  ⟨⟨hm.built.int, hm.built.block, hm.built.options, hm.built.payload⟩, hm.type, hcode, hm.mid,
    hm.options⟩

theorem Plain.segments : SegmentsNonempty m := segmentsNonempty_of_options hm.options

theorem Plain.supported : Supported m := supported_of_options hm.built hm.options

theorem Plain.wireSize_le : wireSize m ≤ 18 := Coap.wireSize_le hm.options

end

variable (buffer) in
/-- A payload behind the place of the header is sent as it is given. -/
theorem sentPayload_of_behind (hsegments : SegmentsNonempty m)
    (hptr : ∀ offset, m.payload.ptr = .inBuffer offset → wireSize m < offset) :
    sentPayload m buffer = givenPayload m buffer := by
  by_cases hpayload : m.payload.len = 0
  · rw [sentPayload, givenPayload, hpayload, slice_zero, slice_zero]
  have hlength := length_frontBytes hsegments hpayload
  rw [sentPayload, givenPayload]
  apply slice_congr
  intro i _ _
  cases hown : m.payload.ptr with
  | own mem => simp only [Payload.read, hown]
  | inBuffer offset =>
    have hbehind := hptr offset hown
    simp only [Payload.read, hown]
    exact writeAt_of_le (by omega)

/-! ### What the server makes of the result of the resource -/

def askedBy (message : ParsedPacket) : Ask :=
  if message.IsOption block2.number then
    some ((message.block .block2).num, (message.block .block2).size)
  else none

/-- A response says what a reply says, with the packet as it is. -/
structure Says (sizes : CoapConf) (packet : ℕ → UInt8) (m : Message) (reply : Reply) : Prop where
  block : (if m.IsOption block2.number then
    some ((m.block .block2).num, (m.block .block2).more) else none) = reply.block
  payload : givenPayload m packet = reply.payload
  behind : ∀ offset, m.payload.ptr = .inBuffer offset → sizes.maxHeaderSize ≤ offset

theorem givenPayload_part {chunk : List UInt8} {start : ℕ} (offset : ℕ)
    (hptr : m.payload.ptr = .inBuffer (start + offset))
    (hlen : offset + m.payload.len ≤ chunk.length) :
    givenPayload m (writeAt packet start chunk) = (chunk.drop offset).take m.payload.len := by
  have hheld := holds_writeAt packet start chunk
  unfold givenPayload
  apply ext_getElem
  · rw [length_slice, length_take, length_drop]
    omega
  · intro i hi _
    rw [length_slice] at hi
    rw [getElem_slice, getElem_take, getElem_drop]
    simp only [Payload.read, hptr, Nat.zero_add]
    rw [Nat.add_assoc]
    exact hheld (offset + i) (by omega)

variable {num : UInt32} {size : UInt16} {more : UInt8}

theorem setBlock2_isOption (m : Message) (more : UInt8) (hnum : num ≤ 0x0FFFFF) (hlow : 16 ≤ size)
    (hhigh : size ≤ 2048) : m.coapSetHeaderBlock2 num more size =
      (m.setBlock .block2 { m.block .block2 with
        num := num, more := if more ≠ 0 then 1 else 0, size := size }).setOption
        block2.number := by
  unfold Message.coapSetHeaderBlock2 Message.setHeaderBlock
  rw [if_neg (UInt16.not_lt.mpr hlow), if_neg (UInt16.not_lt.mpr hhigh),
    if_neg (UInt32.not_lt.mpr hnum)]

/-- The sizes of a server: its largest block fits a chunk, and so does what a handler that is not
aware of blocks writes. -/
structure BlockSizes (conf : EngineConf) (resource : Resource) : Prop where
  low : 16 ≤ conf.maxBlockSize
  high : conf.maxBlockSize ≤ 2048
  chunk : conf.maxBlockSize.toNat ≤ conf.sizes.maxChunkSize
  unaware : resource.aware = false → resource.representation.length ≤ conf.sizes.maxChunkSize

theorem initResponse_options (htype : message.type = .con) (mid : UInt16) :
    (initResponse message mid).options = ∅ := by
  unfold initResponse
  rw [if_pos htype]
  dsimp only
  split_ifs <;> rfl

theorem says_block {chunk : List UInt8} {offset n : ℕ} (hnum : num ≤ 0x0FFFFF) (hlow : 16 ≤ size)
    (hhigh : size ≤ 2048) (hn : n ≤ sizes.maxChunkSize) (hlen : offset + n ≤ chunk.length) :
    Says sizes (writeAt packet sizes.maxHeaderSize chunk)
      (Message.coapSetPayload sizes (m.coapSetHeaderBlock2 num more size)
        (.inBuffer (sizes.maxHeaderSize + offset)) n)
      ⟨some (num, if more ≠ 0 then 1 else 0), (chunk.drop offset).take n⟩ := by
  rw [setBlock2_isOption m more hnum hlow hhigh]
  have hmin : min sizes.maxChunkSize n = n := min_eq_right hn
  refine ⟨?_, ?_, ?_⟩
  · have hset : block2.number ∈ insert block2.number m.options :=
      Finset.mem_insert_self _ _
    exact if_pos hset
  · rw [givenPayload_part offset rfl (by change offset + min _ n ≤ _; rwa [hmin])]
    change (chunk.drop offset).take (min _ n) = _
    rw [hmin]
  · rintro _ ⟨rfl⟩
    exact Nat.le_add_right _ _

theorem says_whole {chunk : List UInt8} (hempty : m.options = ∅)
    (hchunk : chunk.length ≤ sizes.maxChunkSize) :
    Says sizes (writeAt packet sizes.maxHeaderSize chunk)
      (Message.coapSetPayload sizes m (.inBuffer sizes.maxHeaderSize) chunk.length)
      ⟨none, chunk⟩ := by
  have hmin : min sizes.maxChunkSize chunk.length = chunk.length := min_eq_right hchunk
  have hnot : ¬ block2.number ∈ m.options := by
    rw [hempty]
    exact Finset.notMem_empty _
  refine ⟨if_neg hnot, ?_, ?_⟩
  · rw [givenPayload_part 0 rfl (by change 0 + min _ _ ≤ _; omega)]
    change (chunk.drop 0).take (min _ chunk.length) = _
    rw [hmin, drop_zero, take_length]
  · rintro _ ⟨rfl⟩
    exact le_rfl

theorem says_outOfScope (hempty : m.options = ∅) (hchunk : 15 ≤ sizes.maxChunkSize) :
    Says sizes packet (Message.coapSetPayload sizes { m with code := 130 }
      (.own fun i ↦ (textBytes "BlockOutOfScope").getD i 0) 15)
      ⟨none, textBytes "BlockOutOfScope"⟩ := by
  have hmin : min sizes.maxChunkSize 15 = 15 := min_eq_right hchunk
  have hnot : ¬ block2.number ∈ m.options := by
    rw [hempty]
    exact Finset.notMem_empty _
  refine ⟨if_neg hnot, ?_, ?_⟩
  · change slice (fun i ↦ (textBytes "BlockOutOfScope").getD i 0) 0 (min sizes.maxChunkSize 15) = _
    rw [hmin]
    decide
  · rintro _ ⟨⟩

/-- The request asks for a block that its option can hold, and the offset was computed from it. -/
structure AsksFor (message : ParsedPacket) : Prop where
  set : message.IsOption block2.number
  num : (message.block .block2).num ≤ 0x0FFFFF
  low : 16 ≤ (message.block .block2).size
  high : (message.block .block2).size ≤ 2048
  offset : (message.block .block2).offset.toNat =
    (message.block .block2).num.toNat * (message.block .block2).size.toNat

theorem AsksFor.requested (hasks : AsksFor message) (hsizes : BlockSizes conf resource) :
    (requestedBlock conf message).num = (message.block .block2).num ∧
      (requestedBlock conf message).offset = (message.block .block2).offset ∧
      16 ≤ (requestedBlock conf message).size ∧ (requestedBlock conf message).size ≤ 2048 ∧
      (requestedBlock conf message).size.toNat =
        min (message.block .block2).size.toNat conf.maxBlockSize.toNat := by
  rw [requestedBlock, if_pos hasks.set]
  refine ⟨rfl, rfl, ?_⟩
  change 16 ≤ (if _ then _ else _ : UInt16) ∧ (if _ then _ else _ : UInt16) ≤ 2048 ∧
    (if _ then _ else _ : UInt16).toNat = _
  split_ifs with hle
  · exact ⟨hasks.low, hasks.high, (min_eq_left hle).symm⟩
  · exact ⟨hsizes.low, hsizes.high, (min_eq_right (Nat.le_of_lt (UInt16.not_le.mp hle))).symm⟩

theorem AsksFor.askedBy (hasks : AsksFor message) : askedBy message =
    some ((message.block .block2).num, (message.block .block2).size) := if_pos hasks.set

theorem requestedBlock_of_not (hset : ¬ message.IsOption block2.number) :
    requestedBlock conf message = ⟨0, conf.maxBlockSize, 0⟩ := by
  rw [requestedBlock, if_neg hset]

/-- The block handling answers as the resource replies, with some bytes from the handler. -/
def Handled (conf : EngineConf) (message : ParsedPacket) (resource : Resource) (m : Message)
    (mid : UInt16) (packet : ℕ → UInt8) (newOffset : UInt32) (bytes : List UInt8) : Prop :=
  ∃ answer, handleBlocks conf message (requestedBlock conf message) newOffset
      (Message.coapSetPayload conf.sizes m (.inBuffer conf.sizes.maxHeaderSize) bytes.length) =
        some answer ∧
    Plain conf.sizes mid answer ∧
    Says conf.sizes (writeAt packet conf.sizes.maxHeaderSize bytes) answer
      (resource.reply conf.maxBlockSize (askedBy message))

section

variable (hsizes : BlockSizes conf resource) (haware : resource.aware = false)
  (hm : Plain conf.sizes mid m) (hempty : m.options = ∅)

include hsizes haware hm hempty

theorem handled_unaware_block (hasks : AsksFor message)
    (hblock1 : ¬ message.IsOption block1.number) :
    Handled conf message resource m mid packet (requestedBlock conf message).offset
      resource.representation := by
  unfold Handled
  have hchunk := hsizes.unaware haware
  obtain ⟨hnum, hoffset, hlow, hhigh, hsize⟩ := hasks.requested hsizes
  generalize requestedBlock conf message = b at hnum hoffset hlow hhigh hsize ⊢
  have hlarge : 16 ≤ conf.maxBlockSize.toNat := hsizes.low
  have hmaxChunk := hsizes.chunk
  have hlen : (Message.coapSetPayload conf.sizes m (.inBuffer conf.sizes.maxHeaderSize)
      resource.representation.length).payload.len = resource.representation.length :=
    min_eq_right hchunk
  rw [hasks.askedBy, Resource.reply_some, handleBlocks]
  dsimp only
  rw [if_neg fun hnot ↦ hblock1 hnot.1, if_pos hasks.set, if_pos rfl, hlen, hnum, hoffset,
    hasks.offset, ← hsize]
  generalize (message.block .block2).num.toNat * (message.block .block2).size.toNat = offset
  by_cases hbehind : resource.representation.length ≤ offset
  · rw [if_pos hbehind, if_pos ⟨haware, hbehind⟩]
    exact ⟨_, rfl, ((hm.setPayload _ _).setCode (by decide)).setPayload _ _,
      says_outOfScope hempty (by omega)⟩
  · rw [if_neg hbehind, if_neg fun h : _ ∧ _ ↦ hbehind h.2]
    refine ⟨_, rfl, ((hm.setPayload _ _).setBlock2 _ _ _).setPayload _ _, ?_⟩
    have hmore : (if offset + b.size.toNat < resource.representation.length then 1 else 0 : UInt8) =
        if (if b.size.toNat < resource.representation.length - offset then 1 else 0 : UInt8) ≠ 0
          then 1 else 0 := by
      by_cases hlt : b.size.toNat < resource.representation.length - offset
      · rw [if_pos hlt, if_pos (by omega), if_pos (by decide)]
      · rw [if_neg hlt, if_neg (by omega), if_neg (by decide)]
    have hpart : (resource.representation.drop offset).take b.size.toNat =
        (resource.representation.drop offset).take
          (min (resource.representation.length - offset) b.size.toNat) := by
      rw [take_eq_take_min, length_drop, min_comm]
    rw [hmore, hpart]
    exact says_block hasks.num hlow hhigh (by omega) (by omega)

theorem handled_unaware (hset : ¬ message.IsOption block2.number)
    (hblock1 : ¬ message.IsOption block1.number) :
    Handled conf message resource m mid packet (requestedBlock conf message).offset
      resource.representation := by
  unfold Handled
  have hreply : resource.reply conf.maxBlockSize (askedBy message) =
      ⟨none, resource.representation⟩ := by
    rw [askedBy, if_neg hset, Resource.reply, if_neg (by rw [haware]; decide)]
  rw [hreply, requestedBlock_of_not hset, handleBlocks]
  dsimp only
  rw [if_neg fun hnot ↦ hblock1 hnot.1, if_neg hset, if_neg (not_not.mpr rfl)]
  exact ⟨_, rfl, hm.setPayload _ _, says_whole hempty (hsizes.unaware haware)⟩

end

/-- What a handler that is aware of blocks writes. -/
def Resource.chunk (resource : Resource) (offset size : ℕ) : List UInt8 :=
  (resource.representation.drop offset).take size

theorem Resource.length_chunk_le (resource : Resource) (offset size : ℕ) :
    (resource.chunk offset size).length ≤ size := by
  rw [Resource.chunk, length_take]
  exact min_le_left _ _

/-- Where the next range starts, or -1. -/
def Resource.nextOffset (resource : Resource) (offset size : ℕ) : UInt32 :=
  if offset + size < resource.representation.length then UInt32.ofNat (offset + size)
  else 0xFFFFFFFF

theorem Resource.nextOffset_spec (resource : Resource) (offset size : ℕ) (hsize : 0 < size)
    (hnext : offset + size < 2 ^ 32 - 1) : resource.nextOffset offset size ≠ UInt32.ofNat offset ∧
      (resource.nextOffset offset size ≠ 0xFFFFFFFF ↔
        offset + size < resource.representation.length) := by
  have hnextNat : (UInt32.ofNat (offset + size)).toNat = offset + size :=
    UInt32.toNat_ofNat_of_lt' (by change _ < 2 ^ 32; omega)
  have hoffsetNat : (UInt32.ofNat offset).toNat = offset :=
    UInt32.toNat_ofNat_of_lt' (by change _ < 2 ^ 32; omega)
  have hlast : (0xFFFFFFFF : UInt32).toNat = 2 ^ 32 - 1 := rfl
  unfold Resource.nextOffset
  split_ifs with hlt
  · refine ⟨fun heq ↦ ?_, iff_of_true (fun heq ↦ ?_) hlt⟩
    · have hsame := congrArg UInt32.toNat heq
      omega
    · have hsame := congrArg UInt32.toNat heq
      omega
  · refine ⟨fun heq ↦ ?_, iff_of_false (fun hne ↦ hne rfl) hlt⟩
    have hsame := congrArg UInt32.toNat heq
    omega

theorem setBlock2_setPayload (m : Message) (num : UInt32) (more : UInt8) (size : UInt16)
    (ptr : PayloadPtr) (length : ℕ) :
    (Message.coapSetPayload sizes m ptr length).coapSetHeaderBlock2 num more size =
      Message.coapSetPayload sizes (m.coapSetHeaderBlock2 num more size) ptr length := by
  unfold Message.coapSetHeaderBlock2 Message.setHeaderBlock
  split_ifs <;> rfl

theorem says_chunk {offset size : ℕ} {blockSize : UInt16} (hnum : num ≤ 0x0FFFFF)
    (hlow : 16 ≤ blockSize) (hhigh : blockSize ≤ 2048) (hsize : size ≤ sizes.maxChunkSize)
    (hmore : more = 0 ∨ more = 1) :
    Says sizes (writeAt packet sizes.maxHeaderSize (resource.chunk offset size))
      (Message.coapSetPayload sizes (m.coapSetHeaderBlock2 num more blockSize)
        (.inBuffer sizes.maxHeaderSize) (resource.chunk offset size).length)
      ⟨some (num, more), resource.chunk offset size⟩ := by
  have hlength := resource.length_chunk_le offset size
  have hsaid : Says sizes (writeAt packet sizes.maxHeaderSize (resource.chunk offset size))
      (Message.coapSetPayload sizes (m.coapSetHeaderBlock2 num more blockSize)
        (.inBuffer sizes.maxHeaderSize) (resource.chunk offset size).length) _ :=
    says_block hnum hlow hhigh (hlength.trans hsize)
      (Nat.zero_add (resource.chunk offset size).length).le
  have hflag : (if more ≠ 0 then 1 else 0) = more := by
    rcases hmore with rfl | rfl <;> rfl
  rw [hflag, drop_zero, take_length] at hsaid
  exact hsaid

section

variable (hsizes : BlockSizes conf resource) (haware : resource.aware = true)
  (hm : Plain conf.sizes mid m)

include hsizes haware hm

theorem handled_aware_block (hasks : AsksFor message) (hblock1 : ¬ message.IsOption block1.number) :
    let b := requestedBlock conf message
    Handled conf message resource m mid packet (resource.nextOffset b.offset.toNat b.size.toNat)
      (resource.chunk b.offset.toNat b.size.toNat) := by
  unfold Handled
  obtain ⟨hnum, hoffset, hlow, hhigh, hsize⟩ := hasks.requested hsizes
  dsimp only
  generalize requestedBlock conf message = b at hnum hoffset hlow hhigh hsize ⊢
  have hmaxChunk := hsizes.chunk
  have hbound : b.offset.toNat + b.size.toNat < 2 ^ 32 - 1 := by
    have hmul := Nat.mul_le_mul (UInt32.le_iff_toNat_le.mp hasks.num)
      (UInt16.le_iff_toNat_le.mp hasks.high)
    rw [← hasks.offset, ← hoffset] at hmul
    have hlast : (0x0FFFFF : UInt32).toNat * (2048 : UInt16).toNat = 2 ^ 31 - 2 ^ 11 := rfl
    have hlargest : b.size.toNat ≤ 2048 := hhigh
    omega
  have hlength := resource.length_chunk_le b.offset.toNat b.size.toNat
  have hpositive : 16 ≤ b.size.toNat := hlow
  obtain ⟨hother, hnext⟩ := resource.nextOffset_spec b.offset.toNat b.size.toNat
    (by omega) hbound
  rw [UInt32.ofNat_toNat] at hother
  have hlen : (Message.coapSetPayload conf.sizes m (.inBuffer conf.sizes.maxHeaderSize)
      (resource.chunk b.offset.toNat b.size.toNat).length).payload.len =
        (resource.chunk b.offset.toNat b.size.toNat).length := min_eq_right (by omega)
  have hreply : resource.reply conf.maxBlockSize (askedBy message) =
      ⟨some (b.num, if b.offset.toNat + b.size.toNat < resource.representation.length then 1 else 0),
        resource.chunk b.offset.toNat b.size.toNat⟩ := by
    rw [hasks.askedBy, Resource.reply_some]
    dsimp only
    rw [if_neg (by rw [haware]; exact fun h ↦ by cases h.1), hoffset, hasks.offset, ← hsize, hnum]
    rfl
  rw [hreply, handleBlocks]
  dsimp only
  rw [if_neg fun hnot ↦ hblock1 hnot.1, if_pos hasks.set, if_neg hother, hlen, if_neg (by omega)]
  have hflag : (if resource.nextOffset b.offset.toNat b.size.toNat ≠ 0xFFFFFFFF ∨
      b.size.toNat < (resource.chunk b.offset.toNat b.size.toNat).length then 1 else 0 : UInt8) =
        if b.offset.toNat + b.size.toNat < resource.representation.length then 1 else 0 :=
    if_congr ((or_iff_left (not_lt.mpr hlength)).trans hnext) rfl rfl
  rw [hflag, setBlock2_setPayload]
  refine ⟨_, rfl, (hm.setBlock2 _ _ _).setPayload _ _, ?_⟩
  apply says_chunk (hnum ▸ hasks.num) hlow hhigh (by omega)
  split_ifs
  · exact .inr rfl
  · exact .inl rfl

theorem handled_aware (hset : ¬ message.IsOption block2.number)
    (hblock1 : ¬ message.IsOption block1.number) :
    let b := requestedBlock conf message
    Handled conf message resource m mid packet (resource.nextOffset b.offset.toNat b.size.toNat)
      (resource.chunk b.offset.toNat b.size.toNat) := by
  unfold Handled
  rw [requestedBlock_of_not hset]
  dsimp only
  have hmaxChunk := hsizes.chunk
  have hlarge : conf.maxBlockSize.toNat ≤ 2048 := hsizes.high
  have hpositive : 16 ≤ conf.maxBlockSize.toNat := hsizes.low
  have hzero : (0 : UInt32).toNat = 0 := rfl
  rw [hzero]
  have hlength := resource.length_chunk_le 0 conf.maxBlockSize.toNat
  obtain ⟨hother, hnext⟩ := resource.nextOffset_spec 0 conf.maxBlockSize.toNat (by omega)
    (by omega)
  change _ ≠ (0 : UInt32) at hother
  have hlen : (Message.coapSetPayload conf.sizes m (.inBuffer conf.sizes.maxHeaderSize)
      (resource.chunk 0 conf.maxBlockSize.toNat).length).payload.len =
        (resource.chunk 0 conf.maxBlockSize.toNat).length := min_eq_right (by omega)
  have hreply : resource.reply conf.maxBlockSize (askedBy message) =
      ⟨some (0, if conf.maxBlockSize.toNat < resource.representation.length then 1 else 0),
        resource.chunk 0 conf.maxBlockSize.toNat⟩ := by
    rw [askedBy, if_neg hset, Resource.reply, if_pos haware]
    rfl
  rw [hreply, handleBlocks]
  dsimp only
  rw [if_neg fun hnot ↦ hblock1 hnot.1, if_neg hset, if_pos hother, hlen, min_eq_left hlength]
  have hflag : (if resource.nextOffset 0 conf.maxBlockSize.toNat ≠ 0xFFFFFFFF then 1 else 0 : UInt8) =
        if conf.maxBlockSize.toNat < resource.representation.length then 1 else 0 := by
    rw [Nat.zero_add] at hnext
    exact if_congr hnext rfl rfl
  rw [hflag]
  refine ⟨_, rfl, ((hm.setPayload _ _).setBlock2 _ _ _).setPayload _ _, ?_⟩
  apply says_chunk (by decide) hsizes.low hsizes.high (by omega)
  split_ifs
  · exact .inr rfl
  · exact .inl rfl

end

variable (packet) in
/-- The response says what the resource replies. -/
theorem handled_reply (hsizes : BlockSizes conf resource) (htype : message.type = .con)
    (hasks : message.IsOption block2.number → AsksFor message)
    (hblock1 : ¬ message.IsOption block1.number) (mid : UInt16) (st : ParseState) :
    let b := requestedBlock conf message
    let result := resource.service conf.sizes st (initResponse message mid) packet b.size b.offset
    ∃ answer, handleBlocks conf message b result.newOffset
        (build conf.sizes (initResponse message mid) result.setters) = some answer ∧
      Plain conf.sizes message.mid answer ∧
      Says conf.sizes result.packet answer (resource.reply conf.maxBlockSize (askedBy message)) := by
  have hm : Plain conf.sizes message.mid (initResponse message mid) := plain_initResponse htype mid
  have hempty := initResponse_options htype mid
  dsimp only [Resource.service]
  by_cases haware : resource.aware
  · rw [if_pos haware]
    by_cases hset : message.IsOption block2.number
    · exact handled_aware_block hsizes haware hm (hasks hset) hblock1
    · exact handled_aware hsizes haware hm hset hblock1
  · rw [if_neg haware]
    have hnot := Bool.eq_false_iff.mpr haware
    by_cases hset : message.IsOption block2.number
    · exact handled_unaware_block hsizes hnot hm hempty (hasks hset) hblock1
    · exact handled_unaware hsizes hnot hm hempty hset hblock1

theorem Resource.reply_more {maxBlock : UInt16} {ask : Ask}
    (hblock : (resource.reply maxBlock ask).block = some (num, more)) : more = 0 ∨ more = 1 := by
  cases ask with
  | none =>
    rw [Resource.reply] at hblock
    split_ifs at hblock
    · exact .inr (Prod.mk.inj (some.inj hblock)).2.symm
    · exact .inl (Prod.mk.inj (some.inj hblock)).2.symm
  | some asked =>
    obtain ⟨wanted, size⟩ := asked
    rw [Resource.reply_some] at hblock
    dsimp only at hblock
    split_ifs at hblock
    · exact .inr (Prod.mk.inj (some.inj hblock)).2.symm
    · exact .inl (Prod.mk.inj (some.inj hblock)).2.symm

theorem Says.read {reply : Reply} {payload : List UInt8} {st : ParseState}
    (hsaid : Says sizes packet m reply) (hm : Plain sizes mid m) (hreceived : Received m payload st)
    (hmore : ∀ num more, reply.block = some (num, more) → more = 0 ∨ more = 1) :
    st.reply = ⟨reply.block, payload⟩ := by
  have hblock := hsaid.block
  unfold ParseState.reply ParseState.payload
  rw [hreceived.payload]
  have hoption : st.packet.IsOption block2.number ↔
      m.IsOption block2.number := by
    unfold CoapPacket.IsOption
    rw [hreceived.options]
  by_cases hset : m.IsOption block2.number
  · rw [if_pos hset] at hblock
    rw [if_pos (hoption.mpr hset), ← hblock]
    obtain ⟨-, hhigh, hnum⟩ := hm.built.block .block2 hset
    have hread : st.packet.block .block2 = parseBlock (encodeBlock (m.block .block2)) :=
      hreceived.read (.block .block2) hset
    obtain ⟨hparsedNum, hparsedMore, -⟩ := toNat_parseBlock_encodeBlock hnum hhigh
    rw [hread, hparsedNum, hparsedMore]
    have hflag : (if (m.block .block2).more ≠ 0 then 1 else 0) = (m.block .block2).more := by
      rcases hmore _ _ hblock.symm with hzero | hone
      · rw [hzero]
        rfl
      · rw [hone]
        rfl
    rw [hflag]
  · rw [if_neg hset] at hblock
    rw [if_neg fun hread ↦ hset (hoption.mp hread), hblock]

end ContikiMaster.Coap
