import ContikiMaster.Tsch.PacketMoves

/-!
# The callback of a packet handed to the MAC

`send_packet` takes a callback with the packet, which waits in the queue with it or is told
of an error. The exit that skips packets without transmissions left does neither; a
keep-alive, which sets no limit on its transmissions, always takes it.
-/

namespace ContikiMaster.Tsch

open Sys Lib Function Option Memb

structure SentCallback where
  sent : ℕ
  ptr : ℕ
  deriving DecidableEq

/-- A call of `mac_call_sent_callback`. -/
structure Invocation where
  callback : SentCallback
  status : ℕ
  numTx : ℕ
  deriving DecidableEq

/-- The TSCH layer with the callbacks of the packet blocks. -/
structure CallbackMac where
  mac : Mac
  sentOf : ℕ → SentCallback

/-- What a call of `send_packet` leads to: the packet queued, the callbacks invoked, the state its
last exit is taken in, and the next one. -/
structure SendOutcome where
  queued : Option ℕ
  invocations : List Invocation
  before : Mac
  state : CallbackMac

/-- The state in which the queue of an address is looked up or created. Creating it takes the lock,
for which a slot operation in progress has to end; `slotEnd` is what it leaves. -/
def awaitSlot (slotEnd : Mac → Mac) (s : Mac) (addr : Linkaddr) : Mac :=
  if !s.tschLocked && s.tschInSlotOperation && (tschQueueGetNbr s addr).isNone then
    { slotEnd s with tschInSlotOperation := false }
  else s

/-- The state after `send_packet` took a sequence number. -/
def takeSeqno (s : Mac) (packetbuf : Packetbuf) : Mac :=
  if packetbuf.receiver = linkaddrNull then s
  else { s with tschPacketSeqno := nextSeqno s.tschPacketSeqno }

/-- `send_packet` with its callback. -/
def sendPacketSent (slotEnd : Mac → Mac) (s : CallbackMac) (packetbuf : Packetbuf)
    (callback : SentCallback) (framed : Option Framed) (queuebufAvailable : Bool) :
    Except Fault SendOutcome :=
  if !s.mac.tschIsAssociated then .ok ⟨none, [⟨callback, macTxErr, 1⟩], s.mac, s⟩
  else
    let mac := takeSeqno s.mac packetbuf
    let maxTransmissions := packetbuf.maxMacTransmissions % 256
    -- skip if no transmissions left
    if maxTransmissions = 0 then .ok ⟨none, [], mac, { s with mac := mac }⟩
    else match framed with
      | none => .ok ⟨none, [⟨callback, macTxErr, 1⟩], mac, { s with mac := mac }⟩
      | some framed => do
        let addr := flowAddr packetbuf.flowNumber
        let before := awaitSlot slotEnd mac addr
        let (p, mac) ← tschQueueAddPacket before addr maxTransmissions
          { packetbuf with data := framed.frame } queuebufAvailable
        match p with
        | none => return ⟨none, [⟨callback, macTxErr, 1⟩], before, { s with mac := mac }⟩
        | some p => return ⟨some p, [], before,
            ⟨mac.setPacket p { mac.packet p with headerLen := framed.hdrLen % 256 },
              update s.sentOf p callback⟩⟩

def keepalivePacketbuf (addr : Linkaddr) : Packetbuf := { Packetbuf.zero with receiver := addr }

/-- `keepalive_send`, with `keepalive_packet_sent` as its callback. -/
def keepaliveSend (slotEnd : Mac → Mac) (s : CallbackMac) (keepalivePacketSent : SentCallback)
    (framed : Option Framed) (queuebufAvailable : Bool) : Except Fault (Option SendOutcome) :=
  if s.mac.tschIsAssociated then
    match tschQueueGetTimeSource s.mac with
    | none => .ok none
    | some n => do
      let outcome ← sendPacketSent slotEnd s (keepalivePacketbuf (s.mac.neighbor n).addr)
        keepalivePacketSent framed queuebufAvailable
      return some outcome
  else .ok none

/-- The packets waiting in the queue of an address. -/
def ringOf (s : Mac) (addr : Linkaddr) : List ℕ :=
  (tschQueueGetNbr s addr).elim [] fun n ↦ (s.neighbor n).txArray

/-- One packet is put at the end of the queue of an address, in a block that was free. -/
structure EnqueuesOne (s t : Mac) (addr : Linkaddr) (p : ℕ) : Prop where
  free : s.packetMemb.count p = 0
  queue : ∃ n ∈ t.neighborList, (t.neighbor n).addr = addr ∧
    (t.neighbor n).txArray = ringOf s addr ++ [p] ∧ ∀ m, m ≠ n → t.neighbor m = s.neighbor m

/-- No queue gets a packet; an empty queue may have been created. -/
def EnqueuesNone (s t : Mac) : Prop :=
  ∀ n, (t.neighbor n).txArray = (s.neighbor n).txArray ∨ (t.neighbor n).txArray = []

/-- The packet waits with its callback at the end of its queue, or the callback is told of an error
once. -/
def SendOutcome.Accounted (outcome : SendOutcome) (addr : Linkaddr) (callback : SentCallback) :
    Prop :=
  (∃ p, outcome.queued = some p ∧ EnqueuesOne outcome.before outcome.state.mac addr p ∧
    outcome.state.sentOf p = callback ∧ outcome.invocations = []) ∨
  (outcome.queued = none ∧ EnqueuesNone outcome.before outcome.state.mac ∧
    outcome.invocations = [⟨callback, macTxErr, 1⟩])

/-- A call of `send_packet` returns and accounts for its packet. -/
def SendAccounted (slotEnd : Mac → Mac) (s : CallbackMac) (packetbuf : Packetbuf)
    (callback : SentCallback) (framed : Option Framed) (queuebufAvailable : Bool) : Prop :=
  ∃ outcome, sendPacketSent slotEnd s packetbuf callback framed queuebufAvailable = .ok outcome ∧
    outcome.Accounted (flowAddr packetbuf.flowNumber) callback

/-! ## The queue of the packet -/

section Queue

variable {s t : Mac} {addr : Linkaddr} {n p : ℕ}

variable {q : Option ℕ} {maxTransmissions : ℕ} {available : Bool}

theorem tschQueueAddNbr_ring (hlocked : s.tschLocked = false)
    (hcall : tschQueueAddNbr s addr = .ok (q, t)) :
    t.packetMemb = s.packetMemb ∧ EnqueuesNone s t ∧ ∀ n, q = some n →
      (t.neighbor n).txArray = ringOf s addr ∧ ∀ m, m ≠ n → t.neighbor m = s.neighbor m := by
  unfold ringOf
  unfold tschQueueAddNbr at hcall
  cases hnbr : tschQueueGetNbr s addr with
  | some m =>
    rw [hnbr] at hcall
    cases hcall
    refine ⟨rfl, fun n ↦ .inl rfl, fun n hn ↦ ?_⟩
    obtain rfl := some.inj hn
    exact ⟨rfl, fun m _ ↦ rfl⟩
  | none =>
    rw [hnbr] at hcall
    obtain ⟨⟨got, u⟩, hlock, hrest⟩ := bind_eq_ok hcall
    have hu : u = { s with tschLocked := true } ∧ got = true := by
      unfold tschGetLock at hlock
      rw [hlocked] at hlock
      split at hlock
      · rename_i habsurd
        cases habsurd
      · split at hlock
        · cases hlock
        · cases hlock
          exact ⟨rfl, rfl⟩
    obtain ⟨rfl, rfl⟩ := hu
    unfold allocNeighbor at hrest
    cases halloc : s.neighborMemb.alloc with
    | none =>
      simp only [halloc] at hrest
      cases hrest
      exact ⟨rfl, fun n ↦ .inl rfl, fun n hn ↦ by cases hn⟩
    | some result =>
      obtain ⟨m, pool⟩ := result
      obtain ⟨-, -, -, hmem, -⟩ := alloc_spec halloc
      simp only [halloc] at hrest
      cases hrest
      have hself : (pool.store m (newNeighbor addr)).mem m = newNeighbor addr := store_mem_self
      have hothers : ∀ k, k ≠ m → (pool.store m (newNeighbor addr)).mem k = s.neighbor k :=
        fun k hk ↦ (store_mem_of_ne hk).trans (congrFun hmem k)
      refine ⟨rfl, fun n ↦ ?_, fun n hn ↦ ?_⟩
      · by_cases hn : n = m
        · right
          change ((pool.store m (newNeighbor addr)).mem n).txArray = []
          rw [hn, hself]
          rfl
        · left
          exact congrArg TschNeighbor.txArray (hothers n hn)
      · obtain rfl := some.inj hn
        exact ⟨congrArg TschNeighbor.txArray hself, hothers⟩

theorem putPacket_ring {packetbuf : Packetbuf}
    (hcall : putPacket s n maxTransmissions packetbuf available = (q, t)) :
    t.neighborList = s.neighborList ∧ (q = none → t.neighborMemb = s.neighborMemb) ∧
      ∀ p, q = some p → s.packetMemb.count p = 0 ∧
        t.neighbor n = { s.neighbor n with txArray := (s.neighbor n).txArray ++ [p] } ∧
        ∀ m, m ≠ n → t.neighbor m = s.neighbor m := by
  unfold putPacket at hcall
  split at hcall
  · cases hcall
    exact ⟨rfl, fun _ ↦ rfl, fun p hp ↦ by cases hp⟩
  · split at hcall
    · cases hcall
      exact ⟨rfl, fun _ ↦ rfl, fun p hp ↦ by cases hp⟩
    · rename_i i pool halloc
      obtain ⟨-, hzero, -⟩ := alloc_spec halloc
      split at hcall
      · cases hcall
        refine ⟨rfl, (fun hnone ↦ by cases hnone), fun p hp ↦ ?_⟩
        obtain rfl := some.inj hp
        exact ⟨hzero, store_mem_self, fun m hm ↦ store_mem_of_ne hm⟩
      · cases hcall
        exact ⟨rfl, fun _ ↦ rfl, fun p hp ↦ by cases hp⟩

theorem tschQueueAddPacket_ring {packetbuf : Packetbuf}
    (hcall : tschQueueAddPacket s addr maxTransmissions packetbuf available = .ok (q, t)) :
    (q = none → EnqueuesNone s t) ∧ ∀ p, q = some p → EnqueuesOne s t addr p := by
  unfold tschQueueAddPacket at hcall
  split at hcall
  · cases hcall
    exact ⟨fun _ n ↦ .inl rfl, fun p hp ↦ by cases hp⟩
  · rename_i hlocked
    obtain ⟨⟨m, u⟩, hadd, hrest⟩ := bind_eq_ok hcall
    obtain ⟨hpackets, hnone, hring⟩ := tschQueueAddNbr_ring (by simpa using hlocked) hadd
    cases m with
    | none =>
      cases hrest
      exact ⟨fun _ ↦ hnone, fun p hp ↦ by cases hp⟩
    | some n =>
      obtain ⟨hmem, haddr⟩ := tschQueueAddNbr_addr hadd
      obtain ⟨hqueue, hothers⟩ := hring n rfl
      obtain ⟨hlist, hkept, hput⟩ := putPacket_ring (Except.ok.inj hrest)
      refine ⟨fun hq k ↦ ?_, fun p hp ↦ ?_⟩
      · have hsame : t.neighbor k = u.neighbor k := congrFun (congrArg mem (hkept hq)) k
        rw [hsame]
        exact hnone k
      · obtain ⟨hfree, hself, hrest'⟩ := hput p hp
        rw [hpackets] at hfree
        refine ⟨hfree, n, hlist ▸ hmem, ?_, ?_, fun k hk ↦ (hrest' k hk).trans (hothers k hk)⟩
        · rw [hself]
          exact haddr
        · rw [hself, hqueue]

theorem tschQueueAddPacket_awaitSlot (slotEnd : Mac → Mac) (s : Mac) (addr : Linkaddr)
    (maxTransmissions : ℕ) (packetbuf : Packetbuf) (available : Bool) :
    ∃ result, tschQueueAddPacket (awaitSlot slotEnd s addr) addr maxTransmissions packetbuf
      available = .ok result := by
  have hready : ∀ u : Mac, (u.tschLocked = false → u.tschInSlotOperation = true →
      (tschQueueGetNbr u addr).isSome = true) →
      ∃ result, tschQueueAddPacket u addr maxTransmissions packetbuf available = .ok result := by
    intro u hu
    unfold tschQueueAddPacket
    split
    · exact ⟨_, rfl⟩
    · rename_i hlocked
      have hadd : ∃ result, tschQueueAddNbr u addr = .ok result := by
        unfold tschQueueAddNbr
        split
        · exact ⟨_, rfl⟩
        · rename_i hnone
          have hslot : u.tschInSlotOperation = false := by
            by_contra hslot
            have hsome := hu (by simpa using hlocked) (by simpa using hslot)
            rw [hnone] at hsome
            cases hsome
          rw [tschGetLock_idle ⟨by simpa using hlocked, hslot⟩]
          exact ⟨_, rfl⟩
      obtain ⟨⟨n, w⟩, hadd⟩ := hadd
      rw [hadd]
      cases n with
      | none => exact ⟨_, rfl⟩
      | some n => exact ⟨_, rfl⟩
  apply hready
  unfold awaitSlot
  split
  · intro _ hslot
    cases hslot
  · rename_i hstays
    intro hlocked hslot
    rw [hlocked, hslot] at hstays
    simpa [isSome_iff_ne_none] using hstays

end Queue

section Exits

variable {slotEnd : Mac → Mac} {s : CallbackMac} {packetbuf : Packetbuf} {callback : SentCallback}
  {framed : Option Framed} {queuebufAvailable : Bool}

theorem EnqueuesNone.refl (s : Mac) : EnqueuesNone s s := fun _ ↦ .inl rfl

section

variable (hassociated : s.mac.tschIsAssociated = true)
  (hzero : packetbuf.maxMacTransmissions % 256 = 0)

include hassociated hzero

theorem sendPacketSent_skips :
    sendPacketSent slotEnd s packetbuf callback framed queuebufAvailable =
      .ok ⟨none, [], takeSeqno s.mac packetbuf, { s with mac := takeSeqno s.mac packetbuf }⟩ := by
  unfold sendPacketSent
  rw [hassociated]
  exact if_pos hzero

theorem not_sendAccounted_of_skips :
    ¬ SendAccounted slotEnd s packetbuf callback framed queuebufAvailable := by
  rintro ⟨outcome, hcall, haccounted⟩
  rw [sendPacketSent_skips hassociated hzero] at hcall
  obtain rfl := Except.ok.inj hcall
  obtain ⟨p, hqueued, -⟩ | ⟨-, -, hinvoked⟩ := haccounted
  · cases hqueued
  · cases hinvoked

end

theorem sendAccounted_of_unassociated (hjoined : s.mac.tschIsAssociated = false) :
    SendAccounted slotEnd s packetbuf callback framed queuebufAvailable := by
  refine ⟨⟨none, [⟨callback, macTxErr, 1⟩], s.mac, s⟩, ?_, .inr ⟨rfl, .refl _, rfl⟩⟩
  unfold sendPacketSent
  rw [hjoined]
  rfl

theorem sendAccounted_of_ne_zero (hassociated : s.mac.tschIsAssociated = true)
    (hpos : packetbuf.maxMacTransmissions % 256 ≠ 0) :
    SendAccounted slotEnd s packetbuf callback framed queuebufAvailable := by
  unfold SendAccounted sendPacketSent
  rw [hassociated]
  dsimp only
  rw [if_neg (by decide), if_neg hpos]
  cases framed with
  | none => exact ⟨_, rfl, .inr ⟨rfl, .refl _, rfl⟩⟩
  | some framed =>
    dsimp only
    obtain ⟨⟨q, mac⟩, hadd⟩ := tschQueueAddPacket_awaitSlot slotEnd (takeSeqno s.mac packetbuf)
      (flowAddr packetbuf.flowNumber) (packetbuf.maxMacTransmissions % 256)
      { packetbuf with data := framed.frame } queuebufAvailable
    obtain ⟨hnone, hone⟩ := tschQueueAddPacket_ring hadd
    rw [hadd, ok_bind]
    cases q with
    | none => exact ⟨_, rfl, .inr ⟨rfl, hnone rfl, rfl⟩⟩
    | some p =>
      obtain ⟨hfree, hqueue⟩ := hone p rfl
      exact ⟨_, rfl, .inl ⟨p, rfl, ⟨hfree, hqueue⟩, update_self .., rfl⟩⟩

/-- A packet handed to the MAC is accounted for exactly when the node is not in the network or the
limit on the transmissions, cut to a byte, is not zero. -/
theorem sendAccounted_iff (slotEnd : Mac → Mac) (s : CallbackMac) (packetbuf : Packetbuf)
    (callback : SentCallback) (framed : Option Framed) (queuebufAvailable : Bool) :
    SendAccounted slotEnd s packetbuf callback framed queuebufAvailable ↔
      s.mac.tschIsAssociated = false ∨ packetbuf.maxMacTransmissions % 256 ≠ 0 := by
  cases hassociated : s.mac.tschIsAssociated with
  | false => exact iff_of_true (sendAccounted_of_unassociated hassociated) (.inl rfl)
  | true =>
    by_cases hzero : packetbuf.maxMacTransmissions % 256 = 0
    · refine iff_of_false (not_sendAccounted_of_skips hassociated hzero) ?_
      rintro (habsurd | hpos)
      · cases habsurd
      · exact hpos hzero
    · exact iff_of_true (sendAccounted_of_ne_zero hassociated hzero) (.inr hzero)

theorem keepaliveSend_skips {n : ℕ} (hassociated : s.mac.tschIsAssociated = true)
    (hsource : tschQueueGetTimeSource s.mac = some n) :
    keepaliveSend slotEnd s callback framed queuebufAvailable =
      .ok (some ⟨none, [], takeSeqno s.mac (keepalivePacketbuf (s.mac.neighbor n).addr),
        { s with mac := takeSeqno s.mac (keepalivePacketbuf (s.mac.neighbor n).addr) }⟩) := by
  unfold keepaliveSend
  rw [if_pos hassociated, hsource]
  dsimp only
  rw [sendPacketSent_skips hassociated rfl]
  rfl

/-- A node that has joined, with node 1 as its time source, and no callbacks yet. -/
def joinedOps : List MacOp :=
  [.synchronize ⟨0, 0⟩ 1 true, .updateTimeSource (some (nodeAddr 1))]

/-- The keep-alive of a node that has joined is neither queued nor reported. -/
theorem not_sendAccounted_keepalive : ∃ s, MacRun smallConfig joinedOps s ∧
    (∃ n, tschQueueGetTimeSource s = some n ∧ (s.neighbor n).addr 0 = 1) ∧
    ¬ SendAccounted id ⟨s, fun _ ↦ ⟨0, 0⟩⟩ (keepalivePacketbuf (nodeAddr 1)) ⟨1, 0⟩
      (some ⟨[], 21⟩) true := by
  obtain ⟨s, hrun, hassociated, hsource⟩ : ∃ s, MacRun smallConfig joinedOps s ∧
      s.tschIsAssociated ∧ (tschQueueGetTimeSource s).any fun n ↦ (s.neighbor n).addr 0 == 1 :=
    exists_initRun (by decide +kernel)
  obtain ⟨n, hn, haddr⟩ := (any_eq_true _ _).mp hsource
  exact ⟨s, hrun, ⟨n, hn, by simpa using haddr⟩, not_sendAccounted_of_skips hassociated rfl⟩

end Exits

end ContikiMaster.Tsch
