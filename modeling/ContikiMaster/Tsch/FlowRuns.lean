import ContikiMaster.Tsch.FlowQueues

/-!
# Flow queues and the frames they hand to the radio

In every state of every run a data packet sits in the queue its flow number folds to, which
is the EB queue exactly for the flows that fold to zero. For every other flow a slot hands
the radio the bytes that were queued.
-/

namespace ContikiMaster.Tsch

open Sys Lib Function List Option

/-! ## Selecting a packet -/

/-- What packet selection returns: the head of a live queue. -/
structure Selected (s : Mac) (p n : Option ℕ) (t : Mac) : Prop where
  keeps : KeepsPackets s t
  inSlot : t.tschInSlotOperation = true
  head : ∀ m q, n = some m → p = some q →
    m ∈ t.neighborList ∧ ∃ rest, (t.neighbor m).txArray = q :: rest

section Select

variable {s t : Mac} {n : ℕ} {p : Option ℕ} {link : TschLink}

/-- What the TTL loop leaves behind. -/
structure TtlLoopDone (s : Mac) (n : ℕ) (p : Option ℕ) (t : Mac) : Prop where
  keeps : KeepsPackets s t
  inSlot : t.tschInSlotOperation = true
  list : t.neighborList = s.neighborList
  head : ∀ q, p = some q → ∃ rest, (t.neighbor n).txArray = q :: rest

theorem ttlLoop_done (fuel : ℕ) : ∀ {s : Mac}, s.tschInSlotOperation = true →
    n ∈ s.neighborList → ttlLoop fuel s (some n) link = .ok (p, t) → TtlLoopDone s n p t := by
  induction fuel with
  | zero =>
    intro s hslot hn hcall
    cases hhead : tschQueueGetPacketForNbr s (some n) link with
    | none =>
      rw [ttlLoop_none 0 hhead] at hcall
      cases hcall
      exact ⟨.refl _, hslot, rfl, fun q hq ↦ by cases hq⟩
    | some q =>
      by_cases hexpired : ttlExpired s q = true
      · simp only [ttlLoop, ttlStep, hhead, if_pos hexpired] at hcall
        obtain ⟨u, -, hrest⟩ := bind_eq_ok hcall
        cases hrest
      · rw [ttlLoop_fresh 0 hhead hexpired] at hcall
        cases hcall
        refine ⟨.refl _, hslot, rfl, fun q' hq' ↦ ?_⟩
        cases hq'
        exact (tschQueueGetPacketForNbr_eq_head hhead).2
  | succ fuel ih =>
    intro s hslot hn hcall
    cases hhead : tschQueueGetPacketForNbr s (some n) link with
    | none =>
      rw [ttlLoop_none _ hhead] at hcall
      cases hcall
      exact ⟨.refl _, hslot, rfl, fun q hq ↦ by cases hq⟩
    | some q =>
      obtain ⟨hunlocked, rest, hqueue⟩ := tschQueueGetPacketForNbr_eq_head hhead
      by_cases hexpired : ttlExpired s q = true
      · obtain ⟨hunlocked', hslot', hlist, -⟩ := headDropped_frame hunlocked hqueue
        rw [ttlLoop_expired fuel hhead hexpired] at hcall
        obtain ⟨u, hcollect, hrest⟩ := bind_eq_ok hcall
        -- inside a slot the collector returns only when it frees nothing
        rw [tschQueueFreeUnusedNeighbors_in_slot (hslot'.trans hslot) hunlocked'] at hcollect
        split at hcollect
        · cases hcollect
        · cases hcollect
          have hdone := ih (hslot'.trans hslot) (hlist ▸ hn) hrest
          exact ⟨(headDropped_keeps hunlocked hn hqueue).trans hdone.keeps, hdone.inSlot,
            hdone.list.trans hlist, hdone.head⟩
      · rw [ttlLoop_fresh _ hhead hexpired] at hcall
        cases hcall
        refine ⟨.refl _, hslot, rfl, fun q' hq' ↦ ?_⟩
        cases hq'
        exact ⟨rest, hqueue⟩

theorem tschQueueGetUnicastPacketForAny_head {q : ℕ}
    (hfound : tschQueueGetUnicastPacketForAny s link = some (q, n)) :
    n ∈ s.neighborList ∧ ∃ rest, (s.neighbor n).txArray = q :: rest := by
  unfold tschQueueGetUnicastPacketForAny at hfound
  split at hfound
  · cases hfound
  · obtain ⟨m, hm, hpacket⟩ := exists_of_findSome?_eq_some hfound
    split at hpacket
    · obtain ⟨q', hhead, hpair⟩ := map_eq_some_iff.mp hpacket
      cases hpair
      exact ⟨hm, (tschQueueGetPacketForNbr_eq_head hhead).2⟩
    · cases hpacket

theorem getDataPacketForLink_selected {n : Option ℕ} (hslot : s.tschInSlotOperation = true)
    (hcall : getDataPacketForLink s link = .ok (p, n, t)) : Selected s p n t := by
  unfold getDataPacketForLink at hcall
  obtain ⟨⟨q, u⟩, hloop, hrest⟩ := bind_eq_ok hcall
  have hdone : KeepsPackets s u ∧ u.tschInSlotOperation = true ∧
      ∀ m q', tschQueueGetNbr s (flowAddr link.slotframeHandle) = some m → q = some q' →
        m ∈ u.neighborList ∧ ∃ rest, (u.neighbor m).txArray = q' :: rest := by
    cases hnbr : tschQueueGetNbr s (flowAddr link.slotframeHandle) with
    | none =>
      rw [hnbr, ttlLoop_none _ (tschQueueGetPacketForNbr_none s link)] at hloop
      cases hloop
      exact ⟨.refl _, hslot, fun m q' hm ↦ by cases hm⟩
    | some m =>
      rw [hnbr] at hloop
      have hm := (tschQueueGetNbr_mem hnbr).1
      have hloopDone := ttlLoop_done _ hslot hm hloop
      refine ⟨hloopDone.keeps, hloopDone.inSlot, fun m' q' hm' hq' ↦ ?_⟩
      cases hm'
      exact ⟨hloopDone.list ▸ hm, hloopDone.head q' hq'⟩
  obtain ⟨hkept, hslot', hhead⟩ := hdone
  simp only at hrest
  split at hrest
  · split at hrest
    · cases hrest
      refine ⟨hkept, hslot', fun m q' _ hq' ↦ ?_⟩
      cases hq'
    · rename_i hfound
      cases hrest
      refine ⟨hkept, hslot', fun m q' hm hq' ↦ ?_⟩
      cases hm
      cases hq'
      exact tschQueueGetUnicastPacketForAny_head hfound
  · cases hrest
    refine ⟨hkept, hslot', fun m q' hm hq' ↦ ?_⟩
    exact hhead m q' hm (filter_eq_some_iff.mp hq').1

theorem getPacketAndNeighborForLink_selected {l : ℕ} {n : Option ℕ} {pending : List ℕ}
    {ledger : Ledger} (hinv : PacketInv pending ledger s.view)
    (hslot : s.tschInSlotOperation = true)
    (hcall : getPacketAndNeighborForLink s l = .ok (p, n, t)) : Selected s p n t := by
  have heb : ∀ (q : Option ℕ) (link : TschLink),
      (∀ q', q = some q' → tschQueueGetPacketForNbr s s.nEb link = some q') →
        Selected s q s.nEb s := by
    intro q link hq
    refine ⟨.refl s, hslot, fun m q' hm hq' ↦ ?_⟩
    obtain ⟨e, he, hnEb, -⟩ := hinv.eb
    have hhead := hq q' hq'
    obtain rfl : e = m := some.inj (hnEb.symm.trans hm)
    rw [show s.nEb = some e from hnEb] at hhead
    exact ⟨he, (tschQueueGetPacketForNbr_eq_head hhead).2⟩
  unfold getPacketAndNeighborForLink at hcall
  simp only at hcall
  split at hcall
  · split at hcall
    · rename_i honly
      cases hcall
      refine heb _ (s.link l) fun q' hq' ↦ ?_
      rw [honly] at hq'
      exact hq'
    · split at hcall
      · rename_i q hq
        cases hcall
        refine heb _ (s.link l) fun q' hq' ↦ ?_
        cases hq'
        cases htype : (s.link l).linkType <;> rw [htype] at hq
        · cases hq
        · exact hq
        · exact hq
      · exact getDataPacketForLink_selected hslot hcall
  · cases hcall
    exact ⟨.refl _, hslot, fun m q hm ↦ by cases hm⟩

theorem selectPacket_selected {l l' : ℕ} {n : Option ℕ} {pending : List ℕ}
    {ledger : Ledger} (hinv : PacketInv pending ledger s.view)
    (hslot : s.tschInSlotOperation = true)
    (hcall : selectPacket s l = .ok (l', p, n, t)) : Selected s p n t := by
  unfold selectPacket at hcall
  obtain ⟨⟨q, m, u⟩, hfirst, hrest⟩ := bind_eq_ok hcall
  have hselected := getPacketAndNeighborForLink_selected hinv hslot hfirst
  simp only at hrest
  split at hrest
  · split at hrest
    · cases hrest
      exact ⟨hselected.keeps, hselected.inSlot, fun m' q' _ hq' ↦ by cases hq'⟩
    · obtain ⟨⟨q', m', w⟩, hsecond, hdone⟩ := bind_eq_ok hrest
      cases hdone
      have hinv' : PacketInv pending ledger { u with currentLink := some l' }.view :=
        hselected.keeps.inv hinv
      have hagain := getPacketAndNeighborForLink_selected hinv' hselected.inSlot hsecond
      have hswitched : KeepsPackets u { u with currentLink := some l' } := .of_view rfl rfl id
      exact ⟨(hselected.keeps.trans hswitched).trans hagain.keeps, hagain.inSlot, hagain.head⟩
  · cases hrest
    exact hselected

end Select

/-! ## Transmitting it -/

section Transmit

variable {s t : Mac} {n p : ℕ} {link : TschLink}

variable {rest : List ℕ} {ledger : Ledger} {env : SlotEnv}

theorem tschQueuePacketSent_spec {macTxStatus randomRand : ℕ} {inQueue : Bool}
    (hunlocked : s.tschLocked = false) (hn : n ∈ s.neighborList)
    (hqueue : (s.neighbor n).txArray = p :: rest)
    (hcall : tschQueuePacketSent s n p link macTxStatus randomRand = (inQueue, t)) :
    (inQueue = true → KeepsPackets s t) ∧ (inQueue = false → TakesPacket p s t) := by
  unfold tschQueuePacketSent at hcall
  split at hcall
  · have htakes := removePacket_takes hunlocked hn hqueue
    simp only at hcall
    split at hcall
    · cases hcall
      refine ⟨(fun hkept ↦ by cases hkept), fun _ ↦ ?_⟩
      exact htakes.keeps (.setNeighbor rfl rfl rfl)
    · cases hcall
      exact ⟨(fun hkept ↦ by cases hkept), fun _ ↦ htakes⟩
  · have hp : p ∈ (s.neighbor n).txArray := hqueue ▸ mem_cons_self
    set u := s.setPacket p
      { s.packet p with maxTransmissions := ttlMaxTransmissions s (s.packet p) } with hu
    have hupdated : KeepsPackets s u := setPacket_keeps hn hp fun _ ↦ rfl
    have hbackoff : ∀ w : Mac, KeepsPackets w
        (w.setNeighbor n (tschQueueBackoffInc randomRand (w.neighbor n))) :=
      fun w ↦ .setNeighbor rfl rfl rfl
    by_cases hdropped : (u.packet p).maxTransmissions ≤ (u.packet p).transmissions
    · have htakes : TakesPacket p u (tschQueueRemovePacketFromQueue u (some n)).2 :=
        removePacket_takes hunlocked hn hqueue
      simp only [hdropped, decide_true, if_true, Bool.not_true] at hcall
      split at hcall
      · cases hcall
        refine ⟨(fun hkept ↦ by cases hkept), fun _ ↦ ?_⟩
        exact (hupdated.takes htakes).keeps (hbackoff _)
      · cases hcall
        exact ⟨(fun hkept ↦ by cases hkept), fun _ ↦ hupdated.takes htakes⟩
    · simp only [hdropped, decide_false, Bool.not_false, Bool.false_eq_true, if_false] at hcall
      split at hcall
      · cases hcall
        exact ⟨fun _ ↦ hupdated.trans (hbackoff _), (fun hgone ↦ by cases hgone)⟩
      · obtain ⟨hin, ht⟩ := Prod.mk.inj hcall
        rw [← hin, ← ht]
        exact ⟨fun _ ↦ hupdated, (fun hgone ↦ by cases hgone)⟩

/-- The state the packet invariant holds of, between calls. -/
structure MacInv (ledger : Ledger) (s : Mac) : Prop where
  unlocked : s.tschLocked = false
  packets : PacketInv s.dequeued ledger s.view

theorem MacInv.keeps (hinv : MacInv ledger s) (hkept : KeepsPackets s t) : MacInv ledger t :=
  ⟨hkept.unlocked hinv.unlocked, hkept.dequeued ▸ hkept.inv hinv.packets⟩

theorem tschTxSlot_inv {frame : Option (List ℕ)} (hinv : MacInv ledger s)
    (hn : n ∈ s.neighborList) (hqueue : (s.neighbor n).txArray = p :: rest)
    (hcall : tschTxSlot s n p link env = (frame, t)) : MacInv ledger t := by
  unfold tschTxSlot at hcall
  split at hcall
  · cases hcall
    exact hinv
  · have hp : p ∈ (s.neighbor n).txArray := hqueue ▸ mem_cons_self
    set u := s.setPacket p { s.packet p with
      qb := { (s.packet p).qb with data := framePrepared s n p }
      transmissions := ((s.packet p).transmissions + 1) % 256
      ret := env.macTxStatus } with hu
    have hprepared : KeepsPackets s u := by
      refine setPacket_keeps hn hp fun hne ↦ ?_
      change framePrepared s n p = _
      unfold framePrepared
      rw [if_neg fun heq ↦ hne heq.symm]
    have hu_inv := hinv.keeps hprepared
    cases hsent : tschQueuePacketSent u n p link env.macTxStatus env.randomRand with
    | mk inQueue w =>
      obtain ⟨hstays, hleaves⟩ := tschQueuePacketSent_spec (s := u) hu_inv.unlocked hn hqueue hsent
      simp only [← hu, hsent] at hcall
      cases inQueue with
      | true =>
        cases hcall
        exact hu_inv.keeps (hstays rfl)
      | false =>
        cases hcall
        have htakes := hleaves rfl
        refine ⟨htakes.unlocked hu_inv.unlocked, ?_⟩
        have hperm : (p :: u.dequeued).Perm (w.dequeued ++ [p]) := by
          rw [htakes.dequeued]
          exact (perm_append_singleton p _).symm
        exact (htakes.inv hu_inv.packets).perm hperm

theorem framePrepared_eq {payload : Payload} (hinv : MacInv ledger s) (hn : n ∈ s.neighborList)
    (hp : p ∈ (s.neighbor n).txArray) (hentry : ledger p = some payload)
    (hflow : payload.flowNumber % 256 ≠ 0) : framePrepared s n p = payload.frame := by
  have hplaced := hinv.packets.placed n hn p hp
  unfold Placed at hplaced
  rw [hentry] at hplaced
  obtain ⟨haddr, hdata⟩ := hplaced
  have hnotEb : s.nEb ≠ some n := by
    intro heb
    have hzero := (hinv.packets.nEb_iff hn).mp heb
    exact hflow (flowAddr_eq_ebAddress_iff.mp (haddr.symm.trans hzero))
  unfold framePrepared
  rw [if_neg fun heq ↦ hnotEb heq.symm]
  exact hdata hflow

theorem tschSlotOperation_spec {sent : Option Transmission} (hinv : MacInv ledger s)
    (hcall : tschSlotOperation s env = .ok (sent, t)) :
    MacInv ledger t ∧ ∀ tx payload, sent = some tx → ledger tx.packet = some payload →
      payload.flowNumber % 256 ≠ 0 → tx.frame = payload.frame := by
  unfold tschSlotOperation at hcall
  split at hcall
  · split at hcall
    · cases hcall
      exact ⟨hinv.keeps (endSlot_keeps s env), fun tx payload htx ↦ by cases htx⟩
    · rename_i l _
      obtain ⟨⟨l', p, n, u⟩, hselect, hrest⟩ := bind_eq_ok hcall
      have hstart : MacInv ledger { s with tschInSlotOperation := true } :=
        ⟨hinv.unlocked, hinv.packets⟩
      have hselected := selectPacket_selected hstart.packets rfl hselect
      have hu := hstart.keeps hselected.keeps
      simp only at hrest
      split at hrest
      · rename_i p n
        obtain ⟨hn, rest, hqueue⟩ := hselected.head n p rfl rfl
        cases htx : tschTxSlot u n p (u.link l') env with
        | mk frame w =>
          rw [htx] at hrest
          cases hrest
          refine ⟨(tschTxSlot_inv hu hn hqueue htx).keeps (endSlot_keeps w env), ?_⟩
          intro tx payload hsent hentry hflow
          obtain ⟨bytes, hbytes, hpair⟩ := map_eq_some_iff.mp hsent
          rw [← hpair] at hentry ⊢
          have hframe : bytes = framePrepared u n p := by
            unfold tschTxSlot at htx
            split at htx
            · cases htx
              cases hbytes
            · have hfst := congrArg Prod.fst htx
              rw [hbytes] at hfst
              exact (some.inj hfst).symm
          have hp : p ∈ (u.neighbor n).txArray := hqueue ▸ mem_cons_self
          exact hframe.trans (framePrepared_eq hu hn hp hentry hflow)
      · cases hrest
        exact ⟨hu.keeps (endSlot_keeps u env), fun tx payload htx ↦ by cases htx⟩
  · cases hcall
    exact ⟨hinv, fun tx payload htx ↦ by cases htx⟩

end Transmit

/-! ## Runs with a ledger -/

/-- The block a call gives to a new packet, with what the ledger is to say about it. -/
def Mac.noted (s : Mac) : MacOp → Option (ℕ × Option Payload)
  | .sendPacket packetbuf framed queuebufAvailable =>
    match Tsch.sendPacket s packetbuf framed queuebufAvailable, framed with
    | .ok (some p, _), some framed => some (p, some ⟨packetbuf.flowNumber, framed.frame⟩)
    | _, _ => none
  | .sendEb eb queuebufAvailable =>
    match tschSendEb s eb queuebufAvailable with
    | .ok (some p, _) => some (p, none)
    | _ => none
  | _ => none

def Ledger.note (ledger : Ledger) : Option (ℕ × Option Payload) → Ledger
  | none => ledger
  | some (p, entry) => update ledger p entry

/-- A call that returns, with the ledger kept beside it. -/
def Mac.nextNoted (x : Mac × Ledger) (op : MacOp) : Option (Mac × Ledger) :=
  (x.1.next op).map fun t ↦ (t, x.2.note (x.1.noted op))

/-- Runs from the initialized TSCH layer, with the ledger of the packets sent in them. -/
def LedgerRun (config : MacConfig) (ops : List MacOp) (x : Mac × Ledger) : Prop :=
  ∃ s₀, tschInit config = .ok s₀ ∧ Run (StepOf Mac.nextNoted) (s₀, fun _ ↦ none) ops x

/-- Initialize TSCH and make the calls of a list, keeping the ledger. -/
def runLedger (config : MacConfig) (ops : List MacOp) : Option (Mac × Ledger) :=
  (tschInit config).toOption.bind fun s₀ ↦ execute Mac.nextNoted (s₀, fun _ ↦ none) ops

theorem exists_ledgerRun (config : MacConfig) (ops : List MacOp) (check : Mac × Ledger → Bool)
    (hany : (runLedger config ops).any check = true) :
    ∃ x, LedgerRun config ops x ∧ check x = true := by
  obtain ⟨x, hruns, hcheck⟩ := (any_eq_true _ _).mp hany
  obtain ⟨s₀, hinit, hexecute⟩ := bind_eq_some_iff.mp hruns
  exact ⟨x, ⟨s₀, toOption_eq_some hinit, run_of_execute hexecute⟩, hcheck⟩

variable {config : MacConfig} {ops : List MacOp}

theorem exists_ledger {s : Mac} (hrun : MacRun config ops s) :
    ∃ ledger, LedgerRun config ops (s, ledger) := by
  obtain ⟨s₀, hinit, hrun⟩ := hrun
  have hlift : ∀ ledger : Ledger, ∃ ledger', Run (StepOf Mac.nextNoted) (s₀, ledger) ops
      (s, ledger') := by
    clear hinit
    induction hrun with
    | nil s => exact fun ledger ↦ ⟨ledger, .nil _⟩
    | @cons s t u op ops hstep _ ih =>
      intro ledger
      obtain ⟨ledger', hrest⟩ := ih (ledger.note (s.noted op))
      refine ⟨ledger', .cons ?_ hrest⟩
      unfold StepOf Mac.nextNoted
      rw [show s.next op = some t from hstep]
      rfl
  obtain ⟨ledger, hlifted⟩ := hlift fun _ ↦ none
  exact ⟨ledger, s₀, hinit, hlifted⟩

theorem packetInv_ebQueue {s : Mac} {e : ℕ} {pool : Memb TschNeighbor} (ledger : Ledger)
    (hlist : s.neighborList = []) (halloc : s.neighborMemb.alloc = some (e, pool)) :
    PacketInv [] ledger ⟨pool.store e (newNeighbor tschEbAddress), listAdd s.neighborList e, some e,
      s.packetMemb⟩ := by
  obtain ⟨-, -, -, -, hcount⟩ := Memb.alloc_spec halloc
  have hself : (pool.store e (newNeighbor tschEbAddress)).mem e = newNeighbor tschEbAddress :=
    Memb.store_mem_self
  have honly : ∀ n, n ∈ listAdd s.neighborList e ↔ n = e := by
    intro n
    rw [mem_listAdd, hlist]
    simp
  have hqueued : allItems (listAdd s.neighborList e)
      (fun n ↦ ((pool.store e (newNeighbor tschEbAddress)).mem n).txArray) = [] := by
    rw [hlist, listAdd_of_notMem (by simp)]
    change allItems [e] _ = []
    unfold allItems
    rw [flatMap_singleton, hself]
    rfl
  refine ⟨nodup_listAdd (hlist ▸ nodup_nil), fun n hn ↦ ?_, fun m hm n hn _ ↦ ?_,
    ⟨e, (honly e).mpr rfl, rfl, ?_, ?_⟩, ?_, fun p hp ↦ ?_, fun n hn p hp ↦ ?_⟩
  · rw [(honly n).mp hn]
    change pool.count e ≠ 0
    rw [hcount, update_self]
    exact one_ne_zero
  · rw [(honly m).mp hm, (honly n).mp hn]
  · exact congrArg TschNeighbor.addr hself
  · exact congrArg TschNeighbor.isBroadcast hself
  · unfold PacketView.queued
    rw [hqueued]
    exact nodup_nil
  · unfold PacketView.queued at hp
    rw [hqueued] at hp
    cases hp
  · have hmem : p ∈ allItems (listAdd s.neighborList e)
        (fun n ↦ ((pool.store e (newNeighbor tschEbAddress)).mem n).txArray) :=
      mem_allItems.mpr ⟨n, hn, hp⟩
    rw [hqueued] at hmem
    cases hmem

theorem macInv_tschInit {s : Mac} (hqueues : 0 < config.maxNeighborQueues)
    (hinit : tschInit config = .ok s) : MacInv (fun _ ↦ none) s := by
  obtain ⟨u, hqueueInit, hrest⟩ := bind_eq_ok hinit
  obtain ⟨⟨done, w⟩, hschedule, hdone⟩ := bind_eq_ok hrest
  cases hdone
  -- the EB queue is the first one created
  obtain ⟨⟨e, pool⟩, halloc⟩ := isSome_iff_exists.mp
    (Memb.alloc_isSome (m := (Mac.zero config).neighborMemb) (p := 0) hqueues rfl)
  obtain ⟨⟨eb, s₁⟩, heb, hrest'⟩ := bind_eq_ok hqueueInit
  have hidle : Idle (Mac.zero config) := ⟨rfl, rfl⟩
  have hadd : tschQueueAddNbr (Mac.zero config) tschEbAddress =
      .ok (some e, { Mac.zero config with
        neighborMemb := pool.store e (newNeighbor tschEbAddress)
        neighborList := listAdd [] e }) := by
    rw [tschQueueAddNbr_idle hidle]
    change Except.ok (allocNeighbor (Mac.zero config) tschEbAddress) = _
    unfold allocNeighbor
    rw [halloc]
    rfl
  obtain ⟨rfl, rfl⟩ := Prod.mk.inj (Except.ok.inj (hadd.symm.trans heb))
  obtain ⟨⟨nBroadcast, s₂⟩, hbroadcast, hdone⟩ := bind_eq_ok hrest'
  cases hdone
  have hkept := keepsPackets_moves.addNbr hbroadcast
  have hqueue : MacInv (fun _ ↦ none) { s₂ with nBroadcast := nBroadcast } := by
    refine MacInv.keeps (s := s₂) ?_ (.of_view rfl rfl id)
    exact MacInv.keeps ⟨rfl, packetInv_ebQueue (s := Mac.zero config) _ rfl halloc⟩ hkept
  obtain ⟨⟨got, v⟩, hlock, hsection⟩ := bind_eq_ok hschedule
  rcases tschGetLock_cases hlock with ⟨rfl, -, rfl⟩ | ⟨rfl, rfl⟩
  · cases hsection
    exact hqueue.keeps (.locked (.of_view rfl rfl id))
  · cases hsection
    exact hqueue

theorem macInv_step {s t : Mac} {ledger : Ledger} {op : MacOp} (hinv : MacInv ledger s)
    (hnext : s.next op = some t) : MacInv (ledger.note (s.noted op)) t := by
  obtain ⟨sent, hcall⟩ := call_of_next hnext
  cases op with
  | addSlotframe handle size =>
    obtain ⟨⟨_, u⟩, hbody, hdone⟩ := bind_eq_ok hcall
    cases hdone
    exact hinv.keeps (keepsPackets_moves.addSlotframe hbody)
  | removeSlotframe slotframe =>
    obtain ⟨⟨_, u⟩, hbody, hdone⟩ := bind_eq_ok hcall
    cases hdone
    exact hinv.keeps (keepsPackets_moves.removeSlotframe hbody)
  | removeAllSlotframes =>
    obtain ⟨⟨_, u⟩, hbody, hdone⟩ := bind_eq_ok hcall
    cases hdone
    exact hinv.keeps (keepsPackets_moves.removeSlotframes _ hbody)
  | addLink slotframe request =>
    obtain ⟨⟨_, u⟩, hbody, hdone⟩ := bind_eq_ok hcall
    cases hdone
    exact hinv.keeps (keepsPackets_moves.addLink hbody)
  | removeLink slotframe link =>
    obtain ⟨⟨_, u⟩, hbody, hdone⟩ := bind_eq_ok hcall
    cases hdone
    exact hinv.keeps (keepsPackets_moves.removeLink hbody)
  | addNbr addr =>
    obtain ⟨⟨_, u⟩, hbody, hdone⟩ := bind_eq_ok hcall
    cases hdone
    exact hinv.keeps (keepsPackets_moves.addNbr hbody)
  | updateTimeSource newAddr =>
    obtain ⟨⟨_, u⟩, hbody, hdone⟩ := bind_eq_ok hcall
    cases hdone
    exact hinv.keeps (tschQueueUpdateTimeSource_keeps hbody)
  | sendPacket packetbuf framed queuebufAvailable =>
    obtain ⟨⟨q, u⟩, hbody, hdone⟩ := bind_eq_ok hcall
    cases hdone
    obtain ⟨hfailed, hqueued⟩ := sendPacket_spec hbody
    unfold Mac.noted
    simp only [hbody]
    cases q with
    | none => exact hinv.keeps (hfailed rfl)
    | some p =>
      obtain ⟨f, rfl, hgives⟩ := hqueued p rfl
      exact ⟨hgives.unlocked hinv.unlocked, hgives.dequeued ▸ hgives.inv hinv.packets⟩
  | sendEb eb queuebufAvailable =>
    obtain ⟨⟨q, u⟩, hbody, hdone⟩ := bind_eq_ok hcall
    cases hdone
    obtain ⟨hfailed, hqueued⟩ := tschSendEb_spec hbody
    unfold Mac.noted
    simp only [hbody]
    cases q with
    | none => exact hinv.keeps (hfailed rfl)
    | some p =>
      have hgives := hqueued p rfl
      exact ⟨hgives.unlocked hinv.unlocked, hgives.dequeued ▸ hgives.inv hinv.packets⟩
  | txProcessOne =>
    obtain ⟨u, hbody, hdone⟩ := bind_eq_ok hcall
    cases hdone
    obtain ⟨hunlocked, hpackets⟩ := tschTxProcessOne_inv hinv.unlocked hinv.packets hbody
    exact ⟨hunlocked, hpackets⟩
  | queueReset =>
    obtain ⟨u, hbody, hdone⟩ := bind_eq_ok hcall
    cases hdone
    exact hinv.keeps (tschQueueReset_keeps hbody)
  | freeUnusedNeighbors =>
    obtain ⟨u, hbody, hdone⟩ := bind_eq_ok hcall
    cases hdone
    exact hinv.keeps (tschQueueFreeUnusedNeighbors_keeps hbody)
  | synchronize asn joinPriority associated =>
    cases hcall
    exact hinv.keeps (.of_view rfl rfl id)
  | startSlots =>
    cases hcall
    exact hinv.keeps (nextSlot_keeps s)
  | slot env => exact (tschSlotOperation_spec hinv hcall).1

theorem macInv_ledgerRun {s : Mac} {ledger : Ledger} (hqueues : 0 < config.maxNeighborQueues)
    (hrun : LedgerRun config ops (s, ledger)) : MacInv ledger s := by
  obtain ⟨s₀, hinit, hrun⟩ := hrun
  refine hrun.invariant (P := fun x ↦ MacInv x.2 x.1) (fun x op y hx hstep ↦ ?_)
    (macInv_tschInit hqueues hinit)
  obtain ⟨t, hnext, hy⟩ := map_eq_some_iff.mp hstep
  rw [← hy]
  exact macInv_step hx hnext

def QueuedData (s : Mac) (ledger : Ledger) (n p : ℕ) (payload : Payload) : Prop :=
  n ∈ s.neighborList ∧ p ∈ (s.neighbor n).txArray ∧ ledger p = some payload

/-- Data packets share a queue exactly when their flow numbers agree in the low byte, and the
queue is the EB queue exactly when that byte is zero. -/
def FlowsSeparated (s : Mac) (ledger : Ledger) : Prop :=
  (∀ n p payload, QueuedData s ledger n p payload →
    (s.nEb = some n ↔ payload.flowNumber % 256 = 0)) ∧
  ∀ m p payload n q payload', QueuedData s ledger m p payload → QueuedData s ledger n q payload' →
    (m = n ↔ payload.flowNumber % 256 = payload'.flowNumber % 256)

theorem MacInv.flowsSeparated {s : Mac} {ledger : Ledger} (hinv : MacInv ledger s) :
    FlowsSeparated s ledger := by
  have haddr : ∀ n p payload, QueuedData s ledger n p payload →
      (s.neighbor n).addr = flowAddr payload.flowNumber := by
    rintro n p payload ⟨hn, hp, hentry⟩
    have hplaced := hinv.packets.placed n hn p hp
    unfold Placed at hplaced
    rw [hentry] at hplaced
    exact hplaced.1
  constructor
  · intro n p payload hdata
    have hiff := hinv.packets.nEb_iff hdata.1
    refine hiff.trans ?_
    rw [← flowAddr_eq_ebAddress_iff, ← haddr n p payload hdata]
    rfl
  · intro m p payload n q payload' hm hn
    rw [← flowAddr_eq_iff, ← haddr m p payload hm, ← haddr n q payload' hn]
    constructor
    · rintro rfl
      rfl
    · exact hinv.packets.addr_inj m hm.1 n hn.1

/-- In every state of every run the flows are separated by the low byte of their numbers, and a
slot hands the radio the bytes that `send_packet` queued, unless that byte is zero. -/
theorem flowsSeparated_of_run {config : MacConfig} {ops : List MacOp} {s : Mac} {ledger : Ledger}
    (hqueues : 0 < config.maxNeighborQueues) (hrun : LedgerRun config ops (s, ledger)) :
    FlowsSeparated s ledger ∧
      ∀ env tx t payload, s.call (.slot env) = .ok (some tx, t) →
        ledger tx.packet = some payload → payload.flowNumber % 256 ≠ 0 →
          tx.frame = payload.frame := by
  have hinv := macInv_ledgerRun hqueues hrun
  refine ⟨hinv.flowsSeparated, fun env tx t payload hcall hentry hflow ↦ ?_⟩
  exact (tschSlotOperation_spec hinv hcall).2 tx payload rfl hentry hflow

/-- One packet each of flows 1, 257 and 0. -/
def foldedFlowsOps : List MacOp :=
  [.synchronize ⟨100, 0⟩ 1 true,
    .sendPacket ⟨[], nodeAddr 3, 1, 1, 200, 100⟩ (some ⟨[1, 2, 3], 0⟩) true,
    .sendPacket ⟨[], nodeAddr 3, 1, 257, 200, 100⟩ (some ⟨[4, 5, 6], 0⟩) true,
    .sendPacket ⟨[], tschBroadcastAddress, 1, 0, 200, 100⟩ (some ⟨[7, 8, 9], 0⟩) true]

theorem flowsSeparated_foldedFlows :
    ∃ s ledger, LedgerRun smallConfig foldedFlowsOps (s, ledger) ∧ FlowsSeparated s ledger := by
  obtain ⟨⟨s, ledger⟩, hrun, -⟩ := exists_ledgerRun smallConfig foldedFlowsOps
    (fun _ ↦ true) (by decide +kernel)
  exact ⟨s, ledger, hrun, (flowsSeparated_of_run (by decide) hrun).1⟩

/-- Flows 1 and 257 share a queue, and flow 0 is in the EB queue. -/
theorem flows_share_queues :
    ∃ s ledger n, LedgerRun smallConfig foldedFlowsOps (s, ledger) ∧
      QueuedData s ledger n 0 ⟨1, [1, 2, 3]⟩ ∧ QueuedData s ledger n 1 ⟨257, [4, 5, 6]⟩ ∧
      ∃ e, s.nEb = some e ∧ QueuedData s ledger e 2 ⟨0, [7, 8, 9]⟩ := by
  obtain ⟨⟨s, ledger⟩, hrun, hcheck⟩ := exists_ledgerRun smallConfig foldedFlowsOps
    (fun x ↦ decide ((2 ∈ x.1.neighborList ∧ 0 ∈ (x.1.neighbor 2).txArray ∧
        x.2 0 = some ⟨1, [1, 2, 3]⟩) ∧
      (2 ∈ x.1.neighborList ∧ 1 ∈ (x.1.neighbor 2).txArray ∧ x.2 1 = some ⟨257, [4, 5, 6]⟩) ∧
      x.1.nEb = some 0 ∧ 0 ∈ x.1.neighborList ∧ 2 ∈ (x.1.neighbor 0).txArray ∧
        x.2 2 = some ⟨0, [7, 8, 9]⟩)) (by decide +kernel)
  obtain ⟨hone, hother, heb, hbeacon⟩ := of_decide_eq_true hcheck
  exact ⟨s, ledger, 2, hrun, hone, hother, 0, heb, hbeacon⟩

end ContikiMaster.Tsch
