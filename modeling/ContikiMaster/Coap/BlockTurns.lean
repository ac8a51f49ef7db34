import ContikiMaster.Coap.BlockRound

/-!
# Turns of a transfer

The loop of a blocking request over the two engines does what the loop of its variables
does over the replies of the resource, each cut to a chunk of the client.
-/

namespace ContikiMaster.Coap

open Lib Sys Cursor Function List Option BlockOption

variable {n : Nodes} {base m : Message} {tr : Transfer} {mid : UInt16} {j k : UInt32}

/-! ### What is asked for -/

def Nodes.clientBlock (n : Nodes) : UInt16 := UInt16.ofNat n.clientConf.sizes.maxChunkSize

def Nodes.asked (n : Nodes) (request : Message) (blockNum : UInt32) : Message :=
  if 0 < blockNum then request.coapSetHeaderBlock2 blockNum 0 n.clientBlock else request

def askOf (m : Message) : Ask :=
  if m.IsOption block2.number then some ((m.block .block2).num, (m.block .block2).size)
  else none

/-- What the turn for a block asks for; numbers that the option cannot hold are not set. -/
def Nodes.ask (n : Nodes) (request : Message) (blockNum : UInt32) : Ask :=
  if 0 < blockNum then some (if blockNum ≤ 0x0FFFFF then blockNum else 0x0FFFFF, n.clientBlock)
  else askOf request

/-- The sizes of the two nodes: both have room for a transaction, the blocks of the client have the
size of its chunks, and a response with a token and a block option fits the header. -/
structure Nodes.Sized (n : Nodes) : Prop where
  clientTransactions : 0 < n.clientConf.openTransactions
  serverTransactions : 0 < n.serverConf.openTransactions
  clientBits : 16 ≤ n.clientConf.bits
  serverBits : 16 ≤ n.serverConf.bits
  clientBlock : ∃ k ≤ 7, n.clientConf.sizes.maxChunkSize = 2 ^ (4 + k)
  serverBlock : BlockSizes n.serverConf n.resource
  serverHeader : 18 < n.serverConf.sizes.maxHeaderSize

/-- A request of a transfer: a confirmable message that fits the header with any block, and that asks
for the first block if it asks for any. -/
structure Nodes.Requests (n : Nodes) (request : Message) : Prop where
  built : Built n.clientConf.sizes request
  supported : Supported request
  type : request.type = .con
  code : 1 ≤ request.code ∧ request.code ≤ 4
  block1 : ¬ request.IsOption block1.number
  first : request.IsOption block2.number →
    (request.block .block2).num = 0 ∧ ∃ k, (request.block .block2).size.toNat = 2 ^ k
  fits : ∀ blockNum, wireSize (n.asked request blockNum) ≤ n.clientConf.sizes.maxHeaderSize

theorem Nodes.Sized.clientBlock_spec (hn : n.Sized) :
    n.clientBlock.toNat = n.clientConf.sizes.maxChunkSize ∧ 16 ≤ n.clientBlock ∧
      n.clientBlock ≤ 2048 ∧ ∃ k, n.clientBlock.toNat = 2 ^ k := by
  obtain ⟨k, hk, hsize⟩ := hn.clientBlock
  have hlow : 2 ^ 4 ≤ 2 ^ (4 + k) := Nat.pow_le_pow_right (by decide) (Nat.le_add_right 4 k)
  have hhigh : 2 ^ (4 + k) ≤ 2 ^ 11 := Nat.pow_le_pow_right (by decide) (by omega)
  have hnat : n.clientBlock.toNat = n.clientConf.sizes.maxChunkSize :=
    UInt16.toNat_ofNat_of_lt' (by rw [hsize]; exact hhigh.trans_lt (by decide))
  have hsixteen : (16 : UInt16).toNat = 2 ^ 4 := rfl
  have hlargest : (2048 : UInt16).toNat = 2 ^ 11 := rfl
  refine ⟨hnat, UInt16.le_iff_toNat_le.mpr ?_, UInt16.le_iff_toNat_le.mpr ?_, 4 + k, hnat.trans hsize⟩
  · rw [hnat, hsize, hsixteen]
    exact hlow
  · rw [hnat, hsize, hlargest]
    exact hhigh

theorem Nodes.Sized.asked_later (hn : n.Sized) (hpos : 0 < j) (hnum : j ≤ 0x0FFFFF) (m : Message) :
    n.asked m j = (m.setBlock .block2 { m.block .block2 with
      num := j, more := 0, size := n.clientBlock }).setOption block2.number := by
  obtain ⟨-, hlow, hhigh, -⟩ := hn.clientBlock_spec
  rw [Nodes.asked, if_pos hpos, setBlock2_isOption m 0 hnum hlow hhigh, if_neg (not_not.mpr rfl)]

theorem Nodes.Sized.askOf_asked (hn : n.Sized) (hnum : j ≤ 0x0FFFFF) (m : Message) :
    askOf (n.asked m j) = if 0 < j then some (j, n.clientBlock) else askOf m := by
  split_ifs with hpos
  · rw [hn.asked_later hpos hnum]
    exact if_pos (Finset.mem_insert_self _ _)
  · rw [Nodes.asked, if_neg hpos]

theorem Nodes.Sized.asked_asked (hn : n.Sized) (hpos : 0 < k) (hk : k ≤ 0x0FFFFF) (hj : j ≤ 0x0FFFFF)
    (m : Message) : n.asked (n.asked m j) k = n.asked m k := by
  rw [hn.asked_later hpos hk, hn.asked_later hpos hk]
  by_cases hfirst : 0 < j
  · rw [hn.asked_later hfirst hj]
    unfold CoapPacket.setBlock CoapPacket.setOption
    dsimp only
    rw [update_idem, update_self, Finset.insert_eq_of_mem (Finset.mem_insert_self _ _)]
  · rw [Nodes.asked, if_neg hfirst]

theorem asked_mid (m : Message) (mid : UInt16) :
    n.asked { m with mid := mid } k = { n.asked m k with mid := mid } := by
  unfold Nodes.asked Message.coapSetHeaderBlock2 Message.setHeaderBlock
  split_ifs <;> rfl

/-- A request that the client can send, and whose block the option says as it is. -/
structure Nodes.Sendable (n : Nodes) (m : Message) : Prop where
  built : Built n.clientConf.sizes m
  supported : Supported m
  type : m.type = .con
  code : 1 ≤ m.code ∧ m.code ≤ 4
  block1 : ¬ m.IsOption block1.number
  power : m.IsOption block2.number → ∃ k, (m.block .block2).size.toNat = 2 ^ k
  fits : wireSize m ≤ n.clientConf.sizes.maxHeaderSize

theorem Nodes.Sendable.withMid (hm : n.Sendable m) (mid : UInt16) :
    n.Sendable { m with mid := mid } where
  built := ⟨hm.built.int, hm.built.block, hm.built.options, hm.built.payload⟩
  supported := ⟨hm.supported.int, hm.supported.noProxy, hm.supported.segments⟩
  type := hm.type
  code := hm.code
  block1 := hm.block1
  power := hm.power
  fits := hm.fits

theorem Nodes.Requests.sendable (hbase : n.Requests base) (hn : n.Sized) (hj : j ≤ 0x0FFFFF) :
    n.Sendable (n.asked base j) := by
  obtain ⟨-, hlow, hhigh, hpower⟩ := hn.clientBlock_spec
  by_cases hpos : 0 < j
  · have hfits := hbase.fits j
    have hbuilt : Built n.clientConf.sizes (n.asked base j) := by
      rw [Nodes.asked, if_pos hpos]
      exact hbase.built.setHeaderBlock _ _ _ _
    rw [hn.asked_later hpos hj] at hfits hbuilt ⊢
    have hother : ∀ {o : CoapOption}, o ≠ .block .block2 →
        o.number ∈ insert block2.number base.options → base.IsOption o.number := by
      intro o hne hset
      refine (Finset.mem_insert.mp hset).resolve_left fun hsame ↦ hne ?_
      exact CoapOption.number_injective hsame
    refine ⟨hbuilt, ⟨hbase.supported.int, ⟨?_, ?_⟩, ?_⟩, hbase.type, hbase.code, ?_, fun _ ↦ hpower,
      hfits⟩
    · exact fun hset ↦ hbase.supported.noProxy.1
        (hother (o := .string .proxyUri) (by decide) hset)
    · exact fun hset ↦ hbase.supported.noProxy.2
        (hother (o := .string .proxyScheme) (by decide) hset)
    · intro s hsplit hset
      exact hbase.supported.segments s hsplit (hother (o := .string s) (by simp) hset)
    · exact fun hset ↦ hbase.block1 (hother (o := .block .block1) (by decide) hset)
  · have hfits := hbase.fits j
    rw [Nodes.asked, if_neg hpos] at hfits ⊢
    exact ⟨hbase.built, hbase.supported, hbase.type, hbase.code, hbase.block1,
      fun hset ↦ (hbase.first hset).2, hfits⟩

theorem Nodes.Sendable.read (hm : n.Sendable m) {payload : List UInt8} {st : ParseState}
    (hreceived : Received m payload st) : askedBy st.packet = askOf m ∧
      (st.packet.IsOption block2.number → AsksFor st.packet) ∧
      ¬ st.packet.IsOption BlockOption.block1.number := by
  have hoption : ∀ number, st.packet.IsOption number ↔ m.IsOption number := by
    intro number
    unfold CoapPacket.IsOption
    rw [hreceived.options]
  have hblock : m.IsOption block2.number →
      (st.packet.block .block2).num = (m.block .block2).num ∧
        (st.packet.block .block2).size = (m.block .block2).size ∧
        (st.packet.block .block2).offset.toNat =
          (m.block .block2).num.toNat * (m.block .block2).size.toNat := by
    intro hset
    obtain ⟨hlow, hhigh, hnum⟩ := hm.built.block .block2 hset
    have hread : st.packet.block .block2 = parseBlock (encodeBlock (m.block .block2)) :=
      hreceived.read (.block .block2) hset
    obtain ⟨hparsedNum, -, hsize, hoffset⟩ := toNat_parseBlock_encodeBlock hnum hhigh
    rw [(saidSize_eq_iff hlow).mpr (hm.power hset)] at hsize hoffset
    rw [hread]
    exact ⟨hparsedNum, UInt16.toNat_inj.mp hsize, hoffset⟩
  refine ⟨?_, fun hread ↦ ?_, fun hset ↦ hm.block1 ((hoption _).mp hset)⟩
  · unfold askedBy askOf
    by_cases hset : m.IsOption block2.number
    · obtain ⟨hnum, hsize, -⟩ := hblock hset
      rw [if_pos hset, if_pos ((hoption _).mpr hset), hnum, hsize]
    · rw [if_neg hset, if_neg fun h ↦ hset ((hoption _).mp h)]
  · have hset := (hoption _).mp hread
    obtain ⟨hlow, hhigh, hnum⟩ := hm.built.block .block2 hset
    obtain ⟨hreadNum, hreadSize, hoffset⟩ := hblock hset
    refine ⟨hread, ?_, ?_, ?_, ?_⟩
    · rwa [hreadNum]
    · rwa [hreadSize]
    · rwa [hreadSize]
    · rw [hoffset, hreadNum, hreadSize]

/-- The reply to the turn for a block, as the client reads it. -/
def Nodes.replyTo (n : Nodes) (request : Message) (blockNum : UInt32) : Reply :=
  let reply := n.resource.reply n.serverConf.maxBlockSize (n.ask request blockNum)
  ⟨reply.block, reply.payload.take n.clientConf.sizes.maxChunkSize⟩

/-- The turn of the loop over the replies. -/
def Nodes.replyTurn (n : Nodes) (request : Message) (p : Progress) : Turn Progress Progress :=
  p.resume (n.replyTo request p.blockNum)

/-- The last block that an option can hold is not passed, and behind the first block the last number
that was read is the one before. -/
structure Progress.Steady (p : Progress) : Prop where
  blockNum : p.blockNum.toNat ≤ 2 ^ 20
  resBlock : p.blockNum ≠ 0 → p.resBlock.toNat + 1 = p.blockNum.toNat

theorem Nodes.replyTo_block (hbase : n.Requests base) {num : UInt32} {more : UInt8}
    (hblock : (n.replyTo base k).block = some (num, more)) :
    num = if k ≤ 0x0FFFFF then k else 0x0FFFFF := by
  have hreply : ∀ {ask : Ask}, (n.resource.reply n.serverConf.maxBlockSize ask).block = some (num, more) →
      num = (ask.map Prod.fst).getD 0 := by
    intro ask hask
    cases ask with
    | none =>
      rw [Resource.reply] at hask
      split_ifs at hask
      · exact (Prod.mk.inj (some.inj hask)).1.symm
      · exact (Prod.mk.inj (some.inj hask)).1.symm
    | some asked =>
      obtain ⟨wanted, size⟩ := asked
      rw [Resource.reply_some] at hask
      dsimp only at hask
      split_ifs at hask
      · exact (Prod.mk.inj (some.inj hask)).1.symm
      · exact (Prod.mk.inj (some.inj hask)).1.symm
  rw [hreply hblock, Nodes.ask]
  by_cases hpos : 0 < k
  · rw [if_pos hpos]
    rfl
  · have hzero : k = 0 := by
      rw [UInt32.lt_iff_toNat_lt] at hpos
      exact UInt32.toNat_inj.mp (Nat.le_zero.mp (not_lt.mp hpos))
    rw [if_neg hpos, hzero, if_pos (by decide), askOf]
    split_ifs with hset
    · exact (hbase.first hset).1
    · rfl

/-- The variables behind a response. -/
def Progress.next (p : Progress) (reply : Reply) : Progress :=
  let resBlock := (reply.block.map Prod.fst).getD p.resBlock
  let more := (reply.block.map Prod.snd).getD p.more
  if resBlock = p.blockNum then
    ⟨p.blockNum + 1, resBlock, more, p.blockError, p.received ++ [reply.payload]⟩
  else ⟨p.blockNum, resBlock, more, p.blockError + 1, p.received⟩

theorem Progress.resume_eq (p : Progress) (reply : Reply) :
    p.resume reply = if (p.next reply).more ≠ 0 ∧ (p.next reply).blockError < coapMaxAttempts then
      .goesOn (p.next reply) else .returns (p.next reply) := by
  obtain ⟨block, payload⟩ := reply
  unfold Progress.resume Progress.next
  cases block with
  | none => rfl
  | some block => rfl

variable {p : Progress} {client server : Engine} {outbox : List (Endpoint × List UInt8)}
  {buffer : ℕ → UInt8}

theorem Progress.toNat_blockNum_succ (hbound : p.blockNum.toNat ≤ 2 ^ 20) :
    (p.blockNum + 1).toNat = p.blockNum.toNat + 1 := by
  rw [UInt32.toNat_add]
  exact Nat.mod_eq_of_lt (by change p.blockNum.toNat + 1 < 2 ^ 32; omega)

theorem Progress.Steady.next (hbase : n.Requests base) (hp : p.Steady) :
    (p.next (n.replyTo base p.blockNum)).Steady := by
  have hread : ((n.replyTo base p.blockNum).block.map Prod.fst).getD p.resBlock = p.resBlock ∨
      ((n.replyTo base p.blockNum).block.map Prod.fst).getD p.resBlock =
        if p.blockNum ≤ 0x0FFFFF then p.blockNum else 0x0FFFFF := by
    cases hblock : (n.replyTo base p.blockNum).block with
    | none => exact .inl rfl
    | some block => exact .inr (n.replyTo_block hbase hblock)
  have hbound := hp.blockNum
  have hlast : (0x0FFFFF : UInt32).toNat = 2 ^ 20 - 1 := rfl
  unfold Progress.next
  dsimp only
  generalize ((n.replyTo base p.blockNum).block.map Prod.fst).getD p.resBlock = resBlock at hread ⊢
  have hcases : resBlock = p.resBlock ∨ resBlock = p.blockNum ∧ p.blockNum.toNat < 2 ^ 20 ∨
      resBlock.toNat = 2 ^ 20 - 1 ∧ p.blockNum.toNat = 2 ^ 20 := by
    refine hread.imp_right fun hres ↦ ?_
    split_ifs at hres with hle
    · have hle' := UInt32.le_iff_toNat_le.mp hle
      exact .inl ⟨hres, by omega⟩
    · have hlt := UInt32.lt_iff_toNat_lt.mp (UInt32.not_le.mp hle)
      exact .inr ⟨by rw [hres]; rfl, by omega⟩
  have hzero : p.blockNum ≠ 0 ↔ p.blockNum.toNat ≠ 0 := UInt32.toNat_inj.symm.not
  have hsteady := hp.resBlock
  rw [hzero] at hsteady
  split_ifs with hsame
  · have hlt : p.blockNum.toNat < 2 ^ 20 := by
      rcases hcases with hstale | ⟨-, hlt⟩ | ⟨hlast', hend⟩
      · rw [← hstale, hsame] at hsteady
        omega
      · exact hlt
      · rw [hsame] at hlast'
        omega
    have hnext := toNat_blockNum_succ hbound
    refine ⟨by rw [hnext]; omega, fun _ ↦ ?_⟩
    rw [hnext, hsame]
  · refine ⟨hbound, fun hne ↦ ?_⟩
    change resBlock.toNat + 1 = p.blockNum.toNat
    rcases hcases with hstale | ⟨hown, -⟩ | ⟨hlast', hend⟩
    · rw [hstale]
      exact hsteady (hzero.mp hne)
    · exact absurd hown hsame
    · omega

theorem Nodes.Sized.asked_refused (hn : n.Sized) (hk : 0x0FFFFF < k) (m : Message) :
    n.asked m k = m := by
  obtain ⟨-, hlow, hhigh, -⟩ := hn.clientBlock_spec
  unfold Nodes.asked Message.coapSetHeaderBlock2 Message.setHeaderBlock
  rw [if_neg (UInt16.not_lt.mpr hlow), if_neg (UInt16.not_lt.mpr hhigh), if_pos hk]
  exact ite_self m

/-! ### The turns of the engines -/

/-- The engines are ready for the next turn, and the request asks for an earlier block, or for the
last one that its option can hold. -/
structure Nodes.Pending (n : Nodes) (base : Message) (tr : Transfer) : Prop where
  client : Ready tr.client
  server : Ready tr.server
  steady : tr.progress.Steady
  request : ∃ j mid, tr.request = { n.asked base j with mid := mid } ∧ j ≤ 0x0FFFFF ∧
    (tr.progress.blockNum = 0 → j = 0) ∧ (0x0FFFFF < tr.progress.blockNum → j = 0x0FFFFF)

theorem Nodes.Sized.nextRequest_eq (hn : n.Sized) (htr : n.Pending base tr) (mid : UInt16) :
    ∃ j, nextRequest n.clientConf.sizes tr.request mid tr.progress.blockNum =
        { n.asked base j with mid := mid } ∧
      j = (if tr.progress.blockNum ≤ 0x0FFFFF then tr.progress.blockNum else 0x0FFFFF) ∧
      j ≤ 0x0FFFFF := by
  obtain ⟨j, mid', hrequest, hj, hfirst, hlast⟩ := htr.request
  have hnext : nextRequest n.clientConf.sizes tr.request mid tr.progress.blockNum =
      n.asked { tr.request with mid := mid } tr.progress.blockNum := rfl
  rw [hnext, hrequest]
  by_cases hle : tr.progress.blockNum ≤ 0x0FFFFF
  · refine ⟨tr.progress.blockNum, ?_, (if_pos hle).symm, hle⟩
    by_cases hpos : 0 < tr.progress.blockNum
    · have hagain : n.asked { n.asked base j with mid := mid } tr.progress.blockNum =
          { n.asked base tr.progress.blockNum with mid := mid } := by
        rw [asked_mid, hn.asked_asked hpos hle hj]
      exact hagain
    · have hzero : tr.progress.blockNum = 0 := by
        rw [UInt32.lt_iff_toNat_lt] at hpos
        exact UInt32.toNat_inj.mp (Nat.le_zero.mp (not_lt.mp hpos))
      rw [hfirst hzero, hzero]
      rfl
  · have hgt := UInt32.not_le.mp hle
    refine ⟨0x0FFFFF, ?_, (if_neg hle).symm, UInt32.le_refl _⟩
    rw [hlast hgt, hn.asked_refused hgt]

theorem Nodes.Sized.askOf_next (hn : n.Sized)
    (hj : j = if k ≤ 0x0FFFFF then k else 0x0FFFFF) (m : Message) :
    askOf (n.asked m j) = n.ask m k := by
  have hle : j ≤ 0x0FFFFF := by
    rw [hj]
    split_ifs with hk
    · exact hk
    · exact UInt32.le_refl _
  rw [hn.askOf_asked hle, Nodes.ask, ← hj]
  by_cases hk : k ≤ 0x0FFFFF
  · rw [hj, if_pos hk]
  · have hpos : 0 < k := UInt32.lt_iff_toNat_lt.mpr
      (Nat.zero_lt_of_lt (UInt32.lt_iff_toNat_lt.mp (UInt32.not_le.mp hk)))
    rw [if_pos hpos, hj, if_neg hk, if_pos (by decide)]

theorem Nodes.parse_arrives (n : Nodes) {sender : CoapConf} {bits : ℕ} (receiver : CoapConf)
    (source : Endpoint) (buffer : ℕ → UInt8) (hbuilt : Built sender m) (hsupported : Supported m) (hbits : 16 ≤ bits)
    (hcode : m.code ≠ 0) (hfits : wireSize m ≤ sender.maxHeaderSize) :
    let d := n.arrives source (coapSerializeMessage sender m buffer).datagram
    ∃ r, coapParseMessage bits receiver d.mem d.len = some r ∧ r.status = .noError ∧
      Received m ((sentPayload m buffer).take receiver.maxChunkSize) r.state := by
  have hholds := holds_writeAt n.uipBuf 0 (coapSerializeMessage sender m buffer).datagram
  obtain ⟨r, hparse, hstatus, hreceived⟩ :=
    received_datagram receiver hbuilt hsupported hbits hcode hfits hholds
  refine ⟨r, ?_, hstatus, hreceived⟩
  change coapParseMessage bits receiver _ (coapSerializeMessage sender m buffer).datagram.length = _
  rw [Serialized.datagram, length_slice]
  exact hparse

theorem Nodes.Sized.server_answers (hn : n.Sized) (hm : n.Sendable m) (hserver : Ready server)
    (houtbox : client.outbox = outbox ++
      [(n.serverAddr, (coapSerializeMessage n.clientConf.sizes m buffer).datagram)]) :
    ∃ server' answer buffer',
      n.pass client n.clientAddr server n.serverConf (some (n.resource.service n.serverConf.sizes)) =
        some server' ∧ Ready server' ∧ server'.outbox = server.outbox ++
        [(n.clientAddr, (coapSerializeMessage n.serverConf.sizes answer buffer').datagram)] ∧
      Plain n.serverConf.sizes m.mid answer ∧ Says n.serverConf.sizes buffer' answer
        (n.resource.reply n.serverConf.maxBlockSize (askOf m)) := by
  have hcode : m.code ≠ 0 := by
    intro hzero
    have hone := hm.code.1
    rw [hzero] at hone
    exact absurd hone (by decide)
  obtain ⟨r, hparse, hstatus, hreceived⟩ := n.parse_arrives n.serverConf.sizes n.clientAddr buffer hm.built hm.supported hn.serverBits hcode hm.fits
  obtain ⟨hask, hasks, hblock1⟩ := hm.read hreceived
  obtain ⟨server', answer, buffer', hreceive, hready, hsent, hplain, hsaid⟩ :=
    hserver.serves hn.serverBlock hn.serverHeader hparse hstatus (hreceived.type.trans hm.type)
      (by rw [hreceived.code]; exact hm.code) hasks hblock1
  rw [hask] at hsaid
  rw [hreceived.mid] at hplain
  refine ⟨server', answer, buffer', ?_, hready, hsent, hplain, hsaid⟩
  rw [Nodes.pass, houtbox, getLast?_concat, bind_some]
  exact hreceive

theorem Nodes.Sized.client_reads (hn : n.Sized) {t : ℕ} {answer : Message} {reply : Reply}
    (hclient : Holding t client) (hmid : (client.get t).mid = mid)
    (hcallback : (client.get t).callback = some 0) (houtbox : server.outbox = outbox ++
      [(n.clientAddr, (coapSerializeMessage n.serverConf.sizes answer buffer).datagram)])
    (hplain : Plain n.serverConf.sizes mid answer)
    (hsaid : Says n.serverConf.sizes buffer answer reply)
    (hmore : ∀ num more, reply.block = some (num, more) → more = 0 ∨ more = 1) :
    ∃ client' response, n.pass server n.serverAddr client n.clientConf none = some client' ∧
      Ready client' ∧ client'.delivered.getLast? = some (0, some response) ∧
      response.reply = ⟨reply.block, reply.payload.take n.clientConf.sizes.maxChunkSize⟩ := by
  have hshort := hplain.wireSize_le
  have hheader := hn.serverHeader
  obtain ⟨r, hparse, hstatus, hreceived⟩ := n.parse_arrives n.clientConf.sizes n.serverAddr buffer
    hplain.built hplain.supported hn.clientBits
    hplain.code_ne_zero (by omega)
  obtain ⟨client', hreceive, hready, hdelivered⟩ := hclient.answered
    (by rw [hmid, hreceived.mid, hplain.mid]) hcallback hparse hstatus
    (hreceived.type.trans hplain.type) (by rw [hreceived.code]; exact hplain.code)
  refine ⟨client', r.state, ?_, hready, ?_, ?_⟩
  · rw [Nodes.pass, houtbox, getLast?_concat, bind_some]
    exact hreceive
  · rw [hdelivered, getLast?_concat]
  · have hsent := sentPayload_of_behind buffer hplain.segments fun offset hptr ↦ by
      have hbehind := hsaid.behind offset hptr
      omega
    rw [hsaid.read hplain hreceived hmore, hsent, hsaid.payload]

theorem Progress.Steady.next_blockNum (hp : p.Steady) (reply : Reply) :
    p.blockNum.toNat ≤ (p.next reply).blockNum.toNat ∧
      (p.next reply).blockNum.toNat ≤ p.blockNum.toNat + 1 := by
  have hbound := hp.blockNum
  have hnext := toNat_blockNum_succ hbound
  unfold Progress.next
  dsimp only
  split_ifs
  · exact ⟨by rw [hnext]; omega, hnext.le⟩
  · exact ⟨le_rfl, Nat.le_succ _⟩

theorem Nodes.Sized.turn_eq (hn : n.Sized) (hbase : n.Requests base) (htr : n.Pending base tr) :
    ∃ tr' : Transfer, n.turn tr =
      (match n.replyTurn base tr.progress with
      | .goesOn p => .goesOn { tr' with progress := p }
      | .returns p => .returns { tr' with progress := p }) ∧
      n.Pending base { tr' with progress := tr.progress.next (n.replyTo base tr.progress.blockNum) } := by
  set mid := tr.client.currentMid + 1
  obtain ⟨j, hnext, hj, hle⟩ := hn.nextRequest_eq htr mid
  have hsendable : n.Sendable { n.asked base j with mid := mid } :=
    (hbase.sendable hn hle).withMid mid
  have hcode : (nextRequest n.clientConf.sizes tr.request mid tr.progress.blockNum).code ≠ 0 := by
    intro hzero
    have hone := hsendable.code.1
    rw [hnext] at hzero
    rw [hzero] at hone
    exact absurd hone (by decide)
  obtain ⟨t, client, buffer, hrequest, hholding, hmid, hcallback, hdelivered, houtbox⟩ :=
    htr.client.requestBlock n.clientConf n.serverAddr
      (by rw [hnext]; exact hsendable.type) hcode
      (by rw [hnext, length_serializedHeader_items hsendable.supported.segments]; exact hsendable.fits)
  rw [hnext] at houtbox hrequest
  obtain ⟨server, answer, buffer', hserved, hserver, hresponse, hplain, hsaid⟩ :=
    hn.server_answers hsendable htr.server houtbox
  obtain ⟨client', response, hread, hclient, hlast, hreply⟩ :=
    hn.client_reads hholding hmid hcallback hresponse hplain hsaid fun _ _ ↦ Resource.reply_more
  have hask : askOf { n.asked base j with mid := mid } = n.ask base tr.progress.blockNum :=
    hn.askOf_next hj base
  rw [hask] at hreply
  refine ⟨⟨client', server, { n.asked base j with mid := mid }, tr.progress⟩, ?_, hclient, hserver,
    htr.steady.next hbase, j, mid, rfl, hle, ?_, ?_⟩
  · unfold Nodes.turn
    rw [hrequest]
    dsimp only
    rw [hserved]
    dsimp only
    rw [hread]
    dsimp only
    rw [hlast]
    dsimp only
    rw [hreply]
    rfl
  · intro hzero
    have hle := (htr.steady.next_blockNum (n.replyTo base tr.progress.blockNum)).1
    rw [congrArg UInt32.toNat hzero] at hle
    have hfirst : tr.progress.blockNum = 0 := UInt32.toNat_inj.mp (Nat.le_zero.mp hle)
    rw [hj, hfirst]
    rfl
  · intro hlt
    have hle := (htr.steady.next_blockNum (n.replyTo base tr.progress.blockNum)).2
    have hgt := UInt32.lt_iff_toNat_lt.mp hlt
    have hlast : (0x0FFFFF : UInt32).toNat = 2 ^ 20 - 1 := rfl
    rw [hj]
    split_ifs with hk
    · have hk' := UInt32.le_iff_toNat_le.mp hk
      apply UInt32.toNat_inj.mp
      change _ < (tr.progress.next (n.replyTo base tr.progress.blockNum)).blockNum.toNat at hgt
      omega
    · rfl

theorem Nodes.Sized.pending_start (hn : n.Sized) (clientMid serverMid : UInt16) (base : Message) :
    n.Pending base (n.start clientMid serverMid base) where
  client := ready_init hn.clientTransactions clientMid
  server := ready_init hn.serverTransactions serverMid
  steady := ⟨Nat.zero_le _, fun hne ↦ absurd rfl hne⟩
  request := ⟨0, base.mid, rfl, by decide, fun _ ↦ rfl,
    fun hlt ↦ absurd hlt (show ¬ 0x0FFFFF < (0 : UInt32) by decide)⟩

theorem Nodes.Sized.loop_turn (hn : n.Sized) (hbase : n.Requests base) (htr : n.Pending base tr)
    (fuel : ℕ) :
    (loop n.turn fuel tr).map Transfer.progress = loop (n.replyTurn base) fuel tr.progress := by
  apply loop_map (P := n.Pending base) (g := Transfer.progress) ?_ ?_ htr
  · intro s s' hs hturn
    obtain ⟨tr', heq, hpending⟩ := hn.turn_eq hbase hs
    rw [heq] at hturn
    rw [Nodes.replyTurn, Progress.resume_eq] at hturn ⊢
    split_ifs at hturn ⊢ with hmore
    · obtain rfl := Turn.goesOn.inj hturn
      exact ⟨rfl, hpending⟩
  · intro s r hs hturn
    obtain ⟨tr', heq, -⟩ := hn.turn_eq hbase hs
    rw [heq] at hturn
    rw [Nodes.replyTurn, Progress.resume_eq] at hturn ⊢
    split_ifs at hturn ⊢ with hmore
    · obtain rfl := Turn.returns.inj hturn
      rfl

theorem Nodes.Sized.delivers_iff_replies (hn : n.Sized) (hbase : n.Requests base)
    (clientMid serverMid : UInt16) : Delivers n (n.start clientMid serverMid base) ↔
      ∃ fuel p, loop (n.replyTurn base) fuel Progress.start = some p ∧ p.more = 0 ∧
        p.blockError = 0 ∧ p.received.flatten = n.resource.representation := by
  have hloop : ∀ fuel, (loop n.turn fuel (n.start clientMid serverMid base)).map Transfer.progress =
      loop (n.replyTurn base) fuel Progress.start :=
    hn.loop_turn hbase (hn.pending_start clientMid serverMid base)
  constructor
  · rintro ⟨fuel, final, hfinal, hdone⟩
    refine ⟨fuel, final.progress, ?_, hdone⟩
    rw [← hloop, hfinal]
    rfl
  · rintro ⟨fuel, p, hp, hdone⟩
    obtain ⟨final, hfinal, rfl⟩ := map_eq_some_iff.mp ((hloop fuel).trans hp)
    exact ⟨fuel, final, hfinal, hdone⟩

end ContikiMaster.Coap
