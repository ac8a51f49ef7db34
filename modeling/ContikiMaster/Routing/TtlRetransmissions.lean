import ContikiMaster.Routing.Duplicates
import ContikiMaster.Tsch.SendPacket
import ContikiMaster.Tsch.SlotLock

/-!
# Retransmissions until the TTL

The number of slots up to the one that the TTL names is handed to the MAC as the limit of the
transmissions, and computed again after each failure. Both are bytes: a limit that does not fit
wraps around, and the packet is lost before its time.
-/

namespace ContikiMaster.Routing

open Sys Tsch Lib Option Memb

/-- The slots from the current one to a TTL, on the circle of 16-bit slot numbers. -/
def slotsLeft (s : Mac) (ttl : ℕ) : ℕ := (((ttl : ℤ) - s.tschCurrentAsn.ls4b) % 65536).toNat

/-- The current slot comes before the one of a TTL. -/
def BeforeTtl (s : Mac) (ttl : ℕ) : Prop := SerialLt 32768 s.tschCurrentAsn.ls4b ttl

/-! ## Acceptance -/

section Acceptance

variable {s t : Mac} {packetbuf : Packetbuf} {framed : Option Framed} {queuebufAvailable : Bool}
  {n m : Node} {out : NetworkOutput} {env : OutputEnv}

theorem slotsUntil_eq (n : Node) (ttl : ℕ) :
    slotsUntil n ttl = (slotsLeft n.mac ttl + 1) % 65536 := by
  have hnext : ((ttl : ℤ) - (n.mac.tschCurrentAsn.ls4b - 1)) % 65536 =
      (((ttl : ℤ) - n.mac.tschCurrentAsn.ls4b) % 65536 + 1) % 65536 := by
    omega
  have hmod : ∀ x : ℤ, Int.bmod x 65536 % 65536 = x % 65536 := fun x ↦ Int.bmod_emod ..
  unfold slotsUntil tschSlotnumDiff16 slotsLeft
  rw [hmod, hnext]
  omega

theorem putPacket_room (s : Mac) (k limit limit' : ℕ) (packetbuf other : Packetbuf)
    (queuebufAvailable : Bool) : (putPacket s k limit packetbuf queuebufAvailable).1 =
      (putPacket s k limit' other queuebufAvailable).1 := by
  unfold putPacket
  split
  · rfl
  · split
    · rfl
    · split <;> rfl

theorem putPacket_limit {k p limit : ℕ}
    (hput : putPacket s k limit packetbuf queuebufAvailable = (some p, t)) :
    t.packetMemb.count p ≠ 0 ∧ (t.packet p).maxTransmissions = limit := by
  unfold putPacket at hput
  split at hput
  · cases hput
  · split at hput
    · cases hput
    · rename_i i pool halloc
      obtain ⟨-, -, -, -, hcount⟩ := alloc_spec halloc
      split at hput
      · cases hput
        constructor
        · change pool.count p ≠ 0
          rw [hcount, Function.update_self]
          exact one_ne_zero
        · change ((pool.store p _).mem p).maxTransmissions = limit
          rw [store_mem_self]
          rfl
      · cases hput

variable {addr : Linkaddr}

theorem tschQueueAddPacket_room {limit p : ℕ} (limit' : ℕ) (other : Packetbuf)
    (hadd : tschQueueAddPacket s addr limit packetbuf queuebufAvailable = .ok (some p, t)) :
    ∃ u, tschQueueAddPacket s addr limit' other queuebufAvailable = .ok (some p, u) := by
  unfold tschQueueAddPacket at hadd ⊢
  split at hadd
  · cases hadd
  · rename_i hlocked
    obtain ⟨⟨k, u⟩, hnbr, hput⟩ := bind_eq_ok hadd
    rw [if_neg hlocked, hnbr]
    cases k with
    | none => cases hput
    | some k =>
      have hsame := putPacket_room u k limit limit' packetbuf other queuebufAvailable
      rw [show putPacket u k limit packetbuf queuebufAvailable = (some p, t) from
        Except.ok.inj hput] at hsame
      refine ⟨(putPacket u k limit' other queuebufAvailable).2, ?_⟩
      change Except.ok (putPacket u k limit' other queuebufAvailable) = _
      rw [show some p = (putPacket u k limit' other queuebufAvailable).1 from hsame]

theorem tschQueueAddPacket_limit {limit p : ℕ}
    (hadd : tschQueueAddPacket s addr limit packetbuf queuebufAvailable = .ok (some p, t)) :
    t.packetMemb.count p ≠ 0 ∧ (t.packet p).maxTransmissions = limit := by
  unfold tschQueueAddPacket at hadd
  split at hadd
  · cases hadd
  · obtain ⟨⟨k, u⟩, -, hput⟩ := bind_eq_ok hadd
    cases k with
    | none => cases hput
    | some k => exact putPacket_limit (Except.ok.inj hput)

/-- A packet was put at the end of the queue of a flow and may be transmitted at least once. -/
def PacketEnqueued (s t : Mac) (flow : ℕ) : Prop :=
  ∃ p, EnqueuesOne s t (flowAddr flow) p ∧ t.packetMemb.count p ≠ 0 ∧
    1 ≤ (t.packet p).maxTransmissions

/-- The MAC queues a packet that may be transmitted once. -/
def MacHasRoom (s : Mac) (packetbuf : Packetbuf) (framed : Option Framed)
    (queuebufAvailable : Bool) : Prop :=
  ∃ p t, sendPacket s { packetbuf with maxMacTransmissions := 1 } framed queuebufAvailable =
    .ok (some p, t)

instance : Decidable (MacHasRoom s packetbuf framed queuebufAvailable) :=
  decidable_of_iff ((sendPacket s { packetbuf with maxMacTransmissions := 1 } framed
      queuebufAvailable).toOption.any (fun sent ↦ sent.1.isSome) = true) <| by
    unfold MacHasRoom
    cases sendPacket s { packetbuf with maxMacTransmissions := 1 } framed queuebufAvailable with
    | error fault => exact iff_of_false (fun hany ↦ by cases hany) (fun ⟨_, _, heq⟩ ↦ by cases heq)
    | ok sent =>
      constructor
      · intro hany
        obtain ⟨p, hp⟩ := isSome_iff_exists.mp hany
        exact ⟨p, sent.2, congrArg Except.ok (Prod.ext hp rfl)⟩
      · rintro ⟨p, t, heq⟩
        cases heq
        rfl

theorem sendPacket_skips (hassociated : s.tschIsAssociated = true)
    (hzero : packetbuf.maxMacTransmissions % 256 = 0) :
    sendPacket s packetbuf framed queuebufAvailable = .ok (none, takeSeqno s packetbuf) := by
  unfold sendPacket
  rw [if_neg (by simp [hassociated])]
  dsimp only
  rw [if_pos hzero]
  rfl

theorem sendPacket_queues (packet : Framed) (hassociated : s.tschIsAssociated = true)
    (hne : packetbuf.maxMacTransmissions % 256 ≠ 0) :
    sendPacket s packetbuf (some packet) queuebufAvailable =
      tschQueueAddPacket (takeSeqno s packetbuf) (flowAddr packetbuf.flowNumber)
        (packetbuf.maxMacTransmissions % 256) { packetbuf with data := packet.frame }
        queuebufAvailable >>= fun queued ↦ .ok (queued.1, queued.1.elim queued.2 fun p ↦
          queued.2.setPacket p { queued.2.packet p with headerLen := packet.hdrLen % 256 }) := by
  unfold sendPacket
  rw [if_neg (by simp [hassociated])]
  dsimp only
  rw [if_neg hne]
  apply congrArg (tschQueueAddPacket (takeSeqno s packetbuf) _ _ _ _ >>= ·)
  funext queued
  rcases queued with ⟨_ | p, t⟩ <;> rfl

theorem takeSeqno_packetMemb (s : Mac) (packetbuf : Packetbuf) :
    (takeSeqno s packetbuf).packetMemb = s.packetMemb := by
  unfold takeSeqno
  split <;> rfl

theorem EnqueuesOne.of_takeSeqno {p : ℕ}
    (henqueues : EnqueuesOne (takeSeqno s packetbuf) t addr p) : EnqueuesOne s t addr p := by
  unfold takeSeqno at henqueues
  split at henqueues
  · exact henqueues
  · exact ⟨henqueues.free, henqueues.queue⟩

theorem sendPacket_enqueues_iff {q : Option ℕ}
    (hroom : MacHasRoom s packetbuf framed queuebufAvailable)
    (hsend : sendPacket s packetbuf framed queuebufAvailable = .ok (q, t)) :
    PacketEnqueued s t packetbuf.flowNumber ↔ packetbuf.maxMacTransmissions % 256 ≠ 0 := by
  obtain ⟨p, u, hone⟩ := hroom
  have hassociated : s.tschIsAssociated = true := by
    by_contra hnot
    unfold sendPacket at hone
    rw [if_pos (by simpa using hnot)] at hone
    cases hone
  by_cases hzero : packetbuf.maxMacTransmissions % 256 = 0
  · rw [sendPacket_skips hassociated hzero] at hsend
    cases hsend
    refine iff_of_false (fun henqueued ↦ ?_) (fun hne ↦ hne hzero)
    obtain ⟨p, ⟨hfree, -⟩, hused, -⟩ := henqueued
    rw [takeSeqno_packetMemb] at hused
    exact hused hfree
  · refine iff_of_true ?_ hzero
    cases framed with
    | none =>
      unfold sendPacket at hone
      rw [if_neg (by simp [hassociated])] at hone
      cases hone
    | some packet =>
      rw [sendPacket_queues packet hassociated (show ¬ 1 % 256 = 0 by decide)] at hone
      obtain ⟨⟨p', w⟩, hadd, hrest⟩ := bind_eq_ok hone
      cases p' with
      | none => cases hrest
      | some p' =>
        obtain ⟨v, hadd⟩ := tschQueueAddPacket_room (packetbuf.maxMacTransmissions % 256)
          { packetbuf with data := packet.frame } hadd
        rw [sendPacket_queues packet hassociated hzero] at hsend
        change tschQueueAddPacket (takeSeqno s packetbuf) _ _ _ _ = _ at hadd
        rw [hadd] at hsend
        cases hsend
        obtain ⟨hfree, hqueue⟩ := (tschQueueAddPacket_ring hadd).2 p' rfl
        obtain ⟨hused, hlimit⟩ := tschQueueAddPacket_limit hadd
        refine ⟨p', EnqueuesOne.of_takeSeqno ⟨hfree, hqueue⟩, hused, ?_⟩
        change 1 ≤ ((v.packetMemb.store p' _).mem p').maxTransmissions
        rw [store_mem_self]
        exact hlimit ▸ Nat.one_le_iff_ne_zero.mpr hzero

/-- The calls that accept a data packet: it is the application's own or is relayed. -/
def Accepts (n : Node) (env : OutputEnv) (out : NetworkOutput) (m : Node) : Prop :=
  (∃ datalen, sendPrepared n datalen env = .ok (some out, m)) ∨
    ∃ len, relay n len env = .ok (some out, m)

/-- The frame fits, and the MAC queues a packet that may be transmitted once. -/
def HasRoom (n : Node) (env : OutputEnv) (out : NetworkOutput) : Prop :=
  out.masternetLen ≤ macMaxPayload - env.framerHdrlen.getD fixedHdrlen ∧
    MacHasRoom n.mac (outputPacketbuf out.configuration out.dest) env.framed env.queuebufAvailable

instance : Decidable (HasRoom n env out) := inferInstanceAs (Decidable (_ ∧ _))

theorem output_sends {dest : Linkaddr} (hcall : output n dest env = .ok (out, m))
    (hfits : out.masternetLen ≤ macMaxPayload - env.framerHdrlen.getD fixedHdrlen) :
    ∃ q, sendPacket n.mac (outputPacketbuf out.configuration out.dest) env.framed
      env.queuebufAvailable = .ok (q, m.mac) := by
  obtain ⟨rfl, -⟩ := output_spec hcall
  unfold output at hcall
  rw [if_pos hfits] at hcall
  obtain ⟨⟨q, mac⟩, hsend, hdone⟩ := bind_eq_ok hcall
  cases hdone
  exact ⟨q, hsend⟩

theorem Accepts.output (haccepts : Accepts n env out m) :
    out.configuration.flowNumber = n.mrp.flowNumber ∧
      out.configuration.maxTx = slotsUntil n n.mrp.ttlSlotNumber ∧
      ∃ k dest, k.mac = n.mac ∧ Routing.output k dest env = .ok (out, m) := by
  rcases haccepts with ⟨datalen, hcall⟩ | ⟨len, hcall⟩
  · unfold sendPrepared at hcall
    dsimp only at hcall
    split at hcall
    · cases hcall
    · obtain ⟨⟨o, u⟩, houtput, hdone⟩ := bind_eq_ok hcall
      cases hdone
      obtain ⟨rfl, -⟩ := output_spec houtput
      refine ⟨rfl, rfl, _, _, ?_, houtput⟩
      rfl
  · unfold relay at hcall
    dsimp only at hcall
    split at hcall
    · split at hcall
      · obtain ⟨⟨o, u⟩, houtput, hdone⟩ := bind_eq_ok hcall
        cases hdone
        obtain ⟨rfl, -⟩ := output_spec houtput
        refine ⟨rfl, rfl, _, _, ?_, houtput⟩
        rfl
      · cases hcall
    · cases hcall

theorem enqueued_iff (haccepts : Accepts n env out m) (hroom : HasRoom n env out) :
    PacketEnqueued n.mac m.mac n.mrp.flowNumber ↔
      (slotsLeft n.mac n.mrp.ttlSlotNumber + 1) % 256 ≠ 0 := by
  obtain ⟨hflow, hlimit, k, dest, hmac, houtput⟩ := haccepts.output
  obtain ⟨q, hsend⟩ := output_sends houtput hroom.1
  rw [hmac] at hsend
  have hqueued := sendPacket_enqueues_iff hroom.2 hsend
  have hbyte : slotsUntil n n.mrp.ttlSlotNumber % 256 =
      (slotsLeft n.mac n.mrp.ttlSlotNumber + 1) % 256 := by
    rw [slotsUntil_eq]
    omega
  calc
    PacketEnqueued n.mac m.mac n.mrp.flowNumber ↔ out.configuration.maxTx % 256 ≠ 0 := by
      rw [← hflow]
      exact hqueued
    _ ↔ _ := by rw [hlimit, hbyte]

end Acceptance

section Failures

variable {s : Mac} {k p status randomRand : ℕ} {link : TschLink}

/-- The packet stays in its queue after a transmission that failed. -/
def KeptAfterFailure (s : Mac) (k p : ℕ) (link : TschLink) (status randomRand : ℕ) : Prop :=
  (tschQueuePacketSent s k p link status randomRand).1 = true ∧
    ((tschQueuePacketSent s k p link status randomRand).2.neighbor k).txArray =
      (s.neighbor k).txArray

/-- The slots left are not zero as a byte, and can be added to the transmissions in a byte. -/
def FitsByte (left transmissions : ℕ) : Prop := left % 256 ≠ 0 ∧ left % 256 + transmissions < 256

theorem beforeTtl_iff (s : Mac) (ttl : ℕ) :
    BeforeTtl s ttl ↔ 0 < slotsLeft s ttl ∧ slotsLeft s ttl ≤ 32768 := by
  unfold BeforeTtl SerialLt slotsLeft
  change Int.bmod _ 65536 < 0 ↔ _
  rw [Int.bmod_def]
  omega

theorem ttlMaxTransmissions_eq (s : Mac) (packet : TschPacket)
    [Decidable (BeforeTtl s packet.qb.transmissionTtl)] : ttlMaxTransmissions s packet =
      if BeforeTtl s packet.qb.transmissionTtl then
        (slotsLeft s packet.qb.transmissionTtl + packet.transmissions) % 256
      else packet.transmissions := by
  have hsame : tschSlotnumLt (((s.tschCurrentAsn.ls4b : ℤ) + 1) % 65536 - 1)
      packet.qb.transmissionTtl = true ↔ BeforeTtl s packet.qb.transmissionTtl := by
    rw [tschSlotnumLt_iff]
    unfold BeforeTtl SerialLt
    change Int.bmod _ 65536 < 0 ↔ Int.bmod _ 65536 < 0
    rw [Int.bmod_def, Int.bmod_def]
    omega
  unfold ttlMaxTransmissions
  dsimp only
  by_cases hbefore : BeforeTtl s packet.qb.transmissionTtl
  · rw [if_pos (hsame.mpr hbefore), if_pos hbefore]
    unfold slotsLeft
    omega
  · rw [if_neg (hsame.not.mpr hbefore), if_neg hbefore]

theorem keptAfterFailure_iff (hhead : tschQueueGetPacketForNbr s (some k) link = some p)
    (hfailed : status ≠ macTxOk) : KeptAfterFailure s k p link status randomRand ↔
      (s.packet p).transmissions < ttlMaxTransmissions s (s.packet p) := by
  obtain ⟨hlocked, rest, hqueue⟩ := tschQueueGetPacketForNbr_eq_head hhead
  unfold KeptAfterFailure tschQueuePacketSent
  rw [if_neg hfailed]
  set u := s.setPacket p
    { s.packet p with maxTransmissions := ttlMaxTransmissions s (s.packet p) } with hu
  have hpacket : u.packet p =
      { s.packet p with maxTransmissions := ttlMaxTransmissions s (s.packet p) } :=
    store_mem_self
  have hring : (u.neighbor k).txArray = p :: rest := hqueue
  have hbackoff : ∀ w : Mac,
      ((w.setNeighbor k (tschQueueBackoffInc randomRand (w.neighbor k))).neighbor k).txArray =
        (w.neighbor k).txArray := by
    intro w
    change ((w.neighborMemb.store k _).mem k).txArray = _
    rw [store_mem_self]
    rfl
  by_cases hdropped : ttlMaxTransmissions s (s.packet p) ≤ (s.packet p).transmissions
  · have hover : (u.packet p).maxTransmissions ≤ (u.packet p).transmissions := by
      rw [hpacket]
      exact hdropped
    simp only [hover, decide_true, if_true, Bool.not_true]
    refine iff_of_false (fun hkept ↦ ?_) (not_lt.mpr hdropped)
    have hout := hkept.1
    split at hout <;> cases hout
  · have hunder : ¬ (u.packet p).maxTransmissions ≤ (u.packet p).transmissions := by
      rw [hpacket]
      exact hdropped
    simp only [hunder, decide_false, Bool.not_false, Bool.false_eq_true, if_false]
    refine iff_of_true ?_ (not_le.mp hdropped)
    split
    · exact ⟨rfl, hbackoff u⟩
    · exact ⟨rfl, rfl⟩

theorem kept_iff (hhead : tschQueueGetPacketForNbr s (some k) link = some p)
    (hbyte : (s.packet p).transmissions < 256) (hfailed : status ≠ macTxOk) :
    (KeptAfterFailure s k p link status randomRand ↔ BeforeTtl s (s.packet p).qb.transmissionTtl) ↔
      (BeforeTtl s (s.packet p).qb.transmissionTtl →
        FitsByte (slotsLeft s (s.packet p).qb.transmissionTtl) (s.packet p).transmissions) := by
  classical
  rw [keptAfterFailure_iff hhead hfailed, ttlMaxTransmissions_eq]
  by_cases hbefore : BeforeTtl s (s.packet p).qb.transmissionTtl
  · rw [if_pos hbefore]
    simp only [hbefore, iff_true, forall_const]
    unfold FitsByte
    omega
  · rw [if_neg hbefore]
    simp only [hbefore, lt_irrefl, false_imp_iff]

end Failures

/-- An accepted packet is queued exactly if the number of slots it has left, with the current one,
is not zero as a byte; after a failed transmission it stays in the queue exactly until its TTL,
where the slots left fit the bytes they are put in. -/
theorem ttlRetransmissions_iff (n m : Node) (env : OutputEnv) (out : NetworkOutput) (s : Mac)
    (k p : ℕ) (link : TschLink) (status randomRand : ℕ) :
    (Accepts n env out m → HasRoom n env out →
      (PacketEnqueued n.mac m.mac n.mrp.flowNumber ↔
        (slotsLeft n.mac n.mrp.ttlSlotNumber + 1) % 256 ≠ 0)) ∧
    (tschQueueGetPacketForNbr s (some k) link = some p → (s.packet p).transmissions < 256 →
      status ≠ macTxOk →
      ((KeptAfterFailure s k p link status randomRand ↔
          BeforeTtl s (s.packet p).qb.transmissionTtl) ↔
        (BeforeTtl s (s.packet p).qb.transmissionTtl →
          FitsByte (slotsLeft s (s.packet p).qb.transmissionTtl) (s.packet p).transmissions))) :=
  ⟨enqueued_iff, kept_iff⟩

/-- A node that has joined, in slot 0, with a packet of flow 1 for node 2. -/
def senderNode (ttl : ℕ) : Node :=
  { Node.zero 1 3 8 { Mac.zero smallConfig with tschIsAssociated := true } with
    mrp := ⟨1, 1, ttl, 0, .unknown []⟩
    forwardTo := ((HashTable.clear 8).insert 1 2).2 }

/-- An output that finds a frame header of 21 bytes and a queue buffer. -/
def roomyOutput : OutputEnv := ⟨some 21, some ⟨[], 21⟩, true⟩

/-- A queue in slot 0 whose first packet was transmitted once. -/
def waitingMac (ttl : ℕ) : Mac :=
  { Mac.zero smallConfig with
    neighborList := [0]
    neighborMemb := (init 5 TschNeighbor.zero).store 0
      { newNeighbor (flowAddr 1) with txArray := [0] }
    packetMemb := (init 4 TschPacket.zero).store 0
      { TschPacket.zero with qb := { Packetbuf.zero with transmissionTtl := ttl }, transmissions := 1 } }

theorem exists_accepted (n : Node) (datalen : ℕ) (env : OutputEnv)
    (hany : (sendPrepared n datalen env).toOption.any
      (fun sent ↦ sent.1.any fun out ↦ decide (HasRoom n env out)) = true) :
    ∃ out m, Accepts n env out m ∧ HasRoom n env out := by
  obtain ⟨⟨out, m⟩, hsome, hcheck⟩ := (any_eq_true _ _).mp hany
  obtain ⟨o, rfl, hroom⟩ := (any_eq_true _ _).mp hcheck
  exact ⟨o, m, .inl ⟨datalen, toOption_eq_some hsome⟩, of_decide_eq_true hroom⟩

/-- A packet with 255 slots left is not queued; one with 256 slots left is dropped. -/
theorem not_ttlRetransmissions_byte :
    (∃ out m, Accepts (senderNode 255) roomyOutput out m ∧
      HasRoom (senderNode 255) roomyOutput out ∧
      ¬ PacketEnqueued (senderNode 255).mac m.mac (senderNode 255).mrp.flowNumber) ∧
    tschQueueGetPacketForNbr (waitingMac 256) (some 0) TschLink.zero = some 0 ∧
      BeforeTtl (waitingMac 256) ((waitingMac 256).packet 0).qb.transmissionTtl ∧
      ¬ KeptAfterFailure (waitingMac 256) 0 0 TschLink.zero macTxErr 0 := by
  refine ⟨?_, by decide, (beforeTtl_iff _ _).mpr (by decide), ?_⟩
  · obtain ⟨out, m, haccepts, hroom⟩ := exists_accepted (senderNode 255) 3 roomyOutput
      (by decide +kernel)
    exact ⟨out, m, haccepts, hroom, (enqueued_iff haccepts hroom).not.mpr (by decide)⟩
  · rw [keptAfterFailure_iff rfl (by decide)]
    decide

theorem ttlRetransmissions_near :
    (∃ out m, Accepts (senderNode 200) roomyOutput out m ∧
      HasRoom (senderNode 200) roomyOutput out ∧
      PacketEnqueued (senderNode 200).mac m.mac (senderNode 200).mrp.flowNumber) ∧
    (KeptAfterFailure (waitingMac 200) 0 0 TschLink.zero macTxErr 0 ↔
      BeforeTtl (waitingMac 200) ((waitingMac 200).packet 0).qb.transmissionTtl) := by
  obtain ⟨out, m, haccepts, hroom⟩ := exists_accepted (senderNode 200) 3 roomyOutput
    (by decide +kernel)
  obtain ⟨haccepted, hfailed⟩ := ttlRetransmissions_iff (senderNode 200) m roomyOutput out
    (waitingMac 200) 0 0 TschLink.zero macTxErr 0
  refine ⟨⟨out, m, haccepts, hroom, (haccepted haccepts hroom).mpr (by decide)⟩, ?_⟩
  apply (hfailed (by decide) (by decide) (by decide)).mpr
  intro _
  exact ⟨by decide, by decide⟩

end ContikiMaster.Routing
