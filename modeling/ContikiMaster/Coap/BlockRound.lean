import ContikiMaster.Coap.BlockAnswer

/-!
# One block

What one turn of a transfer does: the request goes through the serializer of the client
and the parser of the server, the resource answers, and the response comes back the same
way. The engines are ready for the next turn then.
-/

namespace ContikiMaster.Coap

open Lib Sys Cursor Function List Option Memb

variable {conf : EngineConf} {s s' : Engine} {t : ℕ} {m : Message} {mid : UInt16} {peer : Endpoint}
  {origin : Origin} {resource : Resource} {why : Ending}

structure Ready (s : Engine) : Prop where
  list : s.transactionsList = []
  count : ∀ i, s.transactionsMemb.count i = 0
  num : 0 < s.transactionsMemb.num

structure Holding (t : ℕ) (s : Engine) : Prop where
  list : s.transactionsList = [t]
  count : ∀ i, s.transactionsMemb.count i = if i = t then 1 else 0
  lt : t < s.transactionsMemb.num

theorem ready_init (hopen : 0 < conf.openTransactions) (mid : UInt16) :
    Ready (Engine.init conf mid) := ⟨rfl, fun _ ↦ rfl, hopen⟩

theorem Ready.newTransaction (hs : Ready s) (mid : UInt16) (peer : Endpoint) (origin : Origin) :
    ∃ t s', s.coapNewTransaction mid peer origin = some (t, s') ∧ Holding t s' ∧
      (s'.get t).mid = mid ∧ (s'.get t).peer = peer ∧ (s'.get t).retransCounter = 0 ∧
      s'.outbox = s.outbox ∧ s'.delivered = s.delivered ∧ s'.currentMid = s.currentMid := by
  obtain ⟨⟨t, s'⟩, hnew⟩ : ∃ pair, s.coapNewTransaction mid peer origin = some pair := by
    obtain ⟨pair, halloc⟩ := isSome_iff_exists.mp (alloc_isSome hs.num (hs.count 0))
    rw [Engine.coapNewTransaction, halloc]
    exact ⟨_, rfl⟩
  obtain ⟨hlt, -, hnum, hcount, hlist, -, hmid, hpeer, hcounter, -⟩ := coapNewTransaction_spec hnew
  have hframe : s'.outbox = s.outbox ∧ s'.delivered = s.delivered ∧ s'.currentMid = s.currentMid := by
    obtain ⟨_, -, hpair⟩ := map_eq_some_iff.mp hnew
    obtain ⟨-, rfl⟩ := Prod.mk.inj hpair
    exact ⟨rfl, rfl, rfl⟩
  refine ⟨t, s', hnew, ⟨?_, fun i ↦ ?_, hnum ▸ hlt⟩, hmid, hpeer, hcounter, hframe⟩
  · rw [hlist, hs.list]
    rfl
  · rw [hcount]
    by_cases hi : i = t
    · rw [hi, update_self, if_pos rfl]
    · rw [update_of_ne hi, if_neg hi]
      exact hs.count i

theorem Holding.clear (hs : Holding t s) (why : Ending) : Ready (s.coapClearTransaction t why) where
  list := by
    change listRemove s.transactionsList t = []
    rw [hs.list, listRemove, erase_cons_head]
  count i := by
    change (s.transactionsMemb.free t).count i = 0
    by_cases hi : i = t
    · rw [hi, free_count_self hs.lt, hs.count, if_pos rfl]
    · rw [free_count_of_ne hi, hs.count, if_neg hi]
  num := by
    change 0 < (s.transactionsMemb.free t).num
    rw [free_num]
    exact Nat.zero_lt_of_lt hs.lt

variable {sizes : CoapConf} {d : Datagram} {r : Parsed}

theorem length_pos_coapSerializeMessage {buffer : ℕ → UInt8} (hcode : m.code ≠ 0)
    (hfits : (serializedHeader m).bytes.length ≤ sizes.maxHeaderSize) :
    0 < (coapSerializeMessage sizes m buffer).length := by
  have hlength := congrArg length (datagram_coapSerializeMessage buffer hcode hfits)
  rw [Serialized.datagram, length_slice, length_append, serializedHeader, append_bytes,
    length_append, length_append] at hlength
  have hfixed : (fixedHeader m).length = 4 := rfl
  omega

theorem confirmable_serialized {x : CoapTransaction} {buffer : ℕ → UInt8}
    (hpacket : x.packet = (coapSerializeMessage sizes m buffer).buffer) (hcode : m.code ≠ 0)
    (hfits : (serializedHeader m).bytes.length ≤ sizes.maxHeaderSize) :
    x.confirmable = decide (m.type = .con) := by
  have hfour : 0 < (coapSerializeMessage sizes m buffer).length :=
    length_pos_coapSerializeMessage hcode hfits
  have hfirst : x.packet 0 = (fixedHeader m).headD 0 := by
    have hdatagram := datagram_coapSerializeMessage buffer hcode hfits
    obtain ⟨k, hk⟩ := Nat.exists_eq_succ_of_ne_zero (Nat.ne_of_gt hfour)
    rw [Serialized.datagram, hk, slice_succ, serializedHeader, append_bytes] at hdatagram
    rw [hpacket]
    exact (cons.inj hdatagram).1
  obtain ⟨-, htype, -⟩ := fixedByte_read m.type m.token.2
  unfold CoapTransaction.confirmable
  rw [hfirst]
  change _ = decide (m.type = .con)
  rw [← htype]
  change _ = decide (MessageType.ofByte (((0x30 : UInt8) &&& (fixedHeader m).headD 0) >>> 4) = .con)
  generalize ((0x30 : UInt8) &&& (fixedHeader m).headD 0) >>> 4 = b
  unfold MessageType.ofByte
  by_cases hzero : b = 0
  · rw [if_pos hzero, hzero]
    rfl
  · rw [if_neg hzero, beq_false_of_ne hzero]
    split_ifs <;> rfl

section

variable (hs : Holding t s) {buffer : ℕ → UInt8}
  (hpacket : (s.get t).packet = (coapSerializeMessage conf.sizes m buffer).buffer)
  (hlen : (s.get t).packetLen = (coapSerializeMessage conf.sizes m buffer).length)
  (hcode : m.code ≠ 0) (hfits : (serializedHeader m).bytes.length ≤ conf.sizes.maxHeaderSize)

include hs hpacket hlen hcode hfits

theorem Holding.send_confirmable (htype : m.type = .con) (hcounter : (s.get t).retransCounter = 0) :
    Holding t (s.coapSendTransaction t) ∧ SameBlocks s (s.coapSendTransaction t) ∧
      (s.coapSendTransaction t).delivered = s.delivered ∧
      (s.coapSendTransaction t).outbox = s.outbox ++
        [((s.get t).peer, (coapSerializeMessage conf.sizes m buffer).datagram)] := by
  have hconfirmable := confirmable_serialized hpacket hcode hfits
  rw [htype, decide_eq_true rfl] at hconfirmable
  unfold Engine.coapSendTransaction
  dsimp only
  rw [if_pos hconfirmable, if_pos (by rw [hcounter]; decide), hpacket, hlen]
  exact ⟨⟨hs.list, hs.count, hs.lt⟩, ⟨rfl, rfl, rfl⟩, rfl, rfl⟩

theorem Holding.send_other (htype : m.type ≠ .con) : Ready (s.coapSendTransaction t) ∧
      (s.coapSendTransaction t).outbox = s.outbox ++
        [((s.get t).peer, (coapSerializeMessage conf.sizes m buffer).datagram)] := by
  have hconfirmable := confirmable_serialized hpacket hcode hfits
  rw [decide_eq_false htype] at hconfirmable
  unfold Engine.coapSendTransaction
  dsimp only
  rw [if_neg (by rw [hconfirmable]; decide), hpacket, hlen]
  have hsent : Holding t (s.coapSendMessage (s.get t).peer
      (coapSerializeMessage conf.sizes m buffer).datagram) := ⟨hs.list, hs.count, hs.lt⟩
  exact ⟨hsent.clear .sent, rfl⟩

end

def nextRequest (sizes : CoapConf) (request : Message) (mid : UInt16) (blockNum : UInt32) : Message :=
  if 0 < blockNum then
    Message.coapSetHeaderBlock2 { request with mid := mid } blockNum 0
      (UInt16.ofNat sizes.maxChunkSize)
  else { request with mid := mid }

variable (conf) in
theorem packet_serializeInto (s : Engine) (t : ℕ) (m : Message) :
    ((s.serializeInto conf t m).get t).packet =
        (coapSerializeMessage conf.sizes m (s.get t).packet).buffer ∧
      ((s.serializeInto conf t m).get t).packetLen =
        (coapSerializeMessage conf.sizes m (s.get t).packet).length ∧
      ((s.serializeInto conf t m).get t).callback = (s.get t).callback := by
  have hself : (s.serializeInto conf t m).get t = { s.get t with
      packet := (coapSerializeMessage conf.sizes m (s.get t).packet).buffer
      packetLen := (coapSerializeMessage conf.sizes m (s.get t).packet).length } :=
    store_mem_self
  rw [hself]
  exact ⟨rfl, rfl, rfl⟩

theorem Ready.requestBlock (conf : EngineConf) (hs : Ready s) (remote : Endpoint) {request : Message} {blockNum : UInt32}
    (htype : (nextRequest conf.sizes request (s.currentMid + 1) blockNum).type = .con)
    (hcode : (nextRequest conf.sizes request (s.currentMid + 1) blockNum).code ≠ 0)
    (hfits : (serializedHeader
      (nextRequest conf.sizes request (s.currentMid + 1) blockNum)).bytes.length ≤
        conf.sizes.maxHeaderSize) : ∃ t s' buffer, s.requestBlock conf 0 remote request blockNum =
        (some t, nextRequest conf.sizes request (s.currentMid + 1) blockNum, s') ∧
      Holding t s' ∧ (s'.get t).mid = s.currentMid + 1 ∧ (s'.get t).callback = some 0 ∧
      s'.delivered = s.delivered ∧
      s'.outbox = s.outbox ++ [(remote, (coapSerializeMessage conf.sizes
        (nextRequest conf.sizes request (s.currentMid + 1) blockNum) buffer).datagram)] := by
  set m := nextRequest conf.sizes request (s.currentMid + 1) blockNum with hm
  set counted : Engine := { s with currentMid := s.currentMid + 1 } with hcounted
  have hready : Ready counted := ⟨hs.list, hs.count, hs.num⟩
  obtain ⟨t, s₁, hnew, hholding, hmid, hpeer, hcounter, houtbox, hdelivered, -⟩ :=
    hready.newTransaction (s.currentMid + 1) remote .request
  set registered := (s₁.store t { s₁.get t with callback := some 0 }).note (.registered t)
    with hregistered
  have hget : registered.get t = { s₁.get t with callback := some 0 } := store_mem_self
  have hself : Holding t registered := ⟨hholding.list, hholding.count, hholding.lt⟩
  obtain ⟨hpacket, hlen, hcallback⟩ := packet_serializeInto conf registered t m
  obtain ⟨hmid', hpeer', hcounter'⟩ := serializeInto_get registered conf t m
  have hserialized : Holding t (registered.serializeInto conf t m) :=
    ⟨hself.list, hself.count, hself.lt⟩
  obtain ⟨hsent, hsame, hdelivered', houtbox'⟩ := hserialized.send_confirmable hpacket hlen hcode hfits
    htype (by rw [hcounter', hget]; exact hcounter)
  refine ⟨t, _, (registered.get t).packet, ?_, hsent, ?_, ?_, ?_, ?_⟩
  · unfold Engine.requestBlock Engine.coapGetMid
    dsimp only
    rw [hnew]
    rfl
  · rw [Engine.get, hsame.memb]
    exact hmid'.trans (by rw [hget]; exact hmid)
  · rw [Engine.get, hsame.memb]
    exact hcallback.trans (by rw [hget])
  · exact hdelivered'.trans hdelivered
  · rw [houtbox', hpeer', hget]
    change s₁.outbox ++ [((s₁.get t).peer, _)] = _
    rw [houtbox, hpeer]

theorem Plain.code_ne_zero (hm : Plain sizes mid m) : m.code ≠ 0 := by
  intro hzero
  have hcode := hm.code
  rw [hzero] at hcode
  exact absurd hcode (by decide)

theorem Plain.fits (hm : Plain sizes mid m) (hheader : 18 < sizes.maxHeaderSize) :
    (serializedHeader m).bytes.length ≤ sizes.maxHeaderSize := by
  rw [length_serializedHeader_items hm.segments]
  exact hm.wireSize_le.trans hheader.le

theorem Holding.serve (hs : Holding t s) {message : ParseState} (hsizes : BlockSizes conf resource)
    (hheader : 18 < conf.sizes.maxHeaderSize) (htype : message.packet.type = .con)
    (hasks : message.packet.IsOption BlockOption.block2.number → AsksFor message.packet)
    (hblock1 : ¬ message.packet.IsOption BlockOption.block1.number) :
    ∃ s' answer buffer, s.serve conf (some (resource.service conf.sizes)) message t = (0, s') ∧
      Holding t s' ∧ s'.outbox = s.outbox ∧ (s'.get t).peer = (s.get t).peer ∧
      (s'.get t).packet = (coapSerializeMessage conf.sizes answer buffer).buffer ∧
      (s'.get t).packetLen = (coapSerializeMessage conf.sizes answer buffer).length ∧
      Plain conf.sizes message.packet.mid answer ∧
      Says conf.sizes buffer answer (resource.reply conf.maxBlockSize (askedBy message.packet)) := by
  obtain ⟨answer, hhandled, hplain, hsaid⟩ := handled_reply (s.get t).packet hsizes htype
    hasks hblock1 0 message
  set b := requestedBlock conf message.packet with hb
  set result := resource.service conf.sizes message (initResponse message.packet 0) (s.get t).packet
    b.size b.offset with hresult
  have hfound : result.found = true ∧ result.status = 0 ∧ result.notified = [] := by
    rw [hresult]
    unfold Resource.service
    dsimp only
    split_ifs <;> exact ⟨rfl, rfl, rfl⟩
  obtain ⟨hfound, hstatus, hnotified⟩ := hfound
  set s₁ : Engine := { s.store t { s.get t with packet := result.packet } with
    observersList := result.observersList, errorMessage := result.errorMessage } with hs₁
  have hget : s₁.get t = { s.get t with packet := result.packet } := store_mem_self
  obtain ⟨hpacket, hlen, -⟩ := packet_serializeInto conf s₁ t answer
  obtain ⟨-, hpeer, -⟩ := serializeInto_get s₁ conf t answer
  rw [hget] at hpacket hlen hpeer
  have hsent : 0 < ((s₁.serializeInto conf t answer).get t).packetLen := by
    rw [hlen]
    exact length_pos_coapSerializeMessage hplain.code_ne_zero (hplain.fits hheader)
  refine ⟨s₁.serializeInto conf t answer, answer, result.packet, ?_, ⟨hs.list, hs.count, hs.lt⟩, rfl,
    hpeer, hpacket, hlen, hplain, hsaid⟩
  unfold Engine.serve
  rw [if_pos htype]
  dsimp only
  rw [← hb, ← hresult, hnotified, foldl_nil, if_neg (not_not.mpr hstatus), if_pos hfound, hhandled]
  dsimp only
  rw [← hs₁, if_neg hsent.ne']

theorem Ready.serves (hs : Ready s) (hsizes : BlockSizes conf resource)
    (hheader : 18 < conf.sizes.maxHeaderSize)
    (hparse : coapParseMessage conf.bits conf.sizes d.mem d.len = some r)
    (hstatus : r.status = .noError) (htype : r.state.packet.type = .con)
    (hcode : 1 ≤ r.state.packet.code ∧ r.state.packet.code ≤ 4)
    (hasks : r.state.packet.IsOption BlockOption.block2.number → AsksFor r.state.packet)
    (hblock1 : ¬ r.state.packet.IsOption BlockOption.block1.number) :
    ∃ s' answer buffer, s.coapReceive conf (some (resource.service conf.sizes)) d = some s' ∧
      Ready s' ∧ s'.outbox = s.outbox ++
        [(d.source, (coapSerializeMessage conf.sizes answer buffer).datagram)] ∧
      Plain conf.sizes r.state.packet.mid answer ∧ Says conf.sizes buffer answer
        (resource.reply conf.maxBlockSize (askedBy r.state.packet)) := by
  set s₀ : Engine := { s with
    received := s.received + 1, errorMessage := r.errorMessage.getD s.errorMessage } with hs₀
  have hready : Ready s₀ := ⟨hs.list, hs.count, hs.num⟩
  obtain ⟨t, s₁, hnew, hholding, -, hpeer, -, houtbox, -, -⟩ :=
    hready.newTransaction r.state.packet.mid d.source (.response s₀.received)
  have hpointed : Holding t { s₁ with transaction := some t } :=
    ⟨hholding.list, hholding.count, hholding.lt⟩
  obtain ⟨s₂, answer, buffer, hserve, hserved, houtbox₂, hpeer₂, hpacket, hlen, hplain, hsaid⟩ :=
    hpointed.serve hsizes hheader htype hasks hblock1
  obtain ⟨hdone, hsent⟩ := hserved.send_other hpacket hlen hplain.code_ne_zero (hplain.fits hheader)
    (by rw [hplain.type]; decide)
  refine ⟨_, answer, buffer, ?_, hdone, ?_, hplain, hsaid⟩
  · rw [Engine.coapReceive, hparse, map_some, Engine.receiveParsed, if_pos hstatus, if_pos hcode,
      ← hs₀, Engine.receiveRequest]
    dsimp only
    rw [hnew]
    dsimp only
    rw [hserve, Engine.finish, if_pos rfl]
  · rw [hsent, houtbox₂, hpeer₂]
    change s₁.outbox ++ [((s₁.get t).peer, _)] = _
    rw [houtbox, hpeer]

theorem Holding.answered (hs : Holding t s) (hmid : (s.get t).mid = r.state.packet.mid)
    (hcallback : (s.get t).callback = some 0)
    (hparse : coapParseMessage conf.bits conf.sizes d.mem d.len = some r)
    (hstatus : r.status = .noError) (htype : r.state.packet.type = .ack)
    (hcode : 4 < r.state.packet.code) : ∃ s', s.coapReceive conf none d = some s' ∧ Ready s' ∧
      s'.delivered = s.delivered ++ [(0, some r.state)] := by
  set s₀ : Engine := { s with
    received := s.received + 1, errorMessage := r.errorMessage.getD s.errorMessage } with hs₀
  have hholding : Holding t s₀ := ⟨hs.list, hs.count, hs.lt⟩
  have hfound : s₀.coapGetTransactionByMid r.state.packet.mid = some t := by
    change s.transactionsList.find? _ = _
    rw [hs.list, find?_cons_of_pos]
    exact beq_iff_eq.mpr hmid
  have hcleared : ((s₀.coapClearTransaction t (.answered d.source r.state.packet.mid)).get t).callback =
      some 0 := by
    change ((s.transactionsMemb.free t).mem t).callback = _
    rw [free_mem]
    exact hcallback
  have hready := hholding.clear (.answered d.source r.state.packet.mid)
  set cleared := s₀.coapClearTransaction t (.answered d.source r.state.packet.mid) with hcleared'
  have hinvoke : cleared.invoke t (some r.state) =
      { cleared with delivered := cleared.delivered ++ [(0, some r.state)] }.note (.invoked t) := by
    rw [Engine.invoke, hcleared]
  refine ⟨{ cleared.invoke t (some r.state) with transaction := none }, ?_, ?_, ?_⟩
  · have hnotRequest : ¬ (1 ≤ r.state.packet.code ∧ r.state.packet.code ≤ 4) :=
      fun h ↦ absurd hcode (UInt8.not_lt.mpr h.2)
    rw [Engine.coapReceive, hparse, map_some, Engine.receiveParsed, if_pos hstatus,
      if_neg hnotRequest, ← hs₀, Engine.receiveResponse]
    dsimp only
    have hping : ¬ (MessageType.ack = .con ∧ r.state.packet.code = 0) := fun h ↦ absurd h.1 (by decide)
    have hreset : MessageType.ack ≠ .rst := by decide
    rw [htype, if_neg hping, if_neg hreset, hfound]
    dsimp only
    rw [← hcleared', Engine.finish, if_pos rfl]
  · rw [hinvoke]
    exact ⟨hready.list, hready.count, hready.num⟩
  · rw [hinvoke]
    rfl

end ContikiMaster.Coap
