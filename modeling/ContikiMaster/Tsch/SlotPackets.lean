import ContikiMaster.Tsch.PacketPlaces

/-!
# What a slot does to the packets

Up to its yields a slot drops expired packets from the head of one queue and settles on the head of
a queue; after them it leaves the packet there or moves it to the dequeued packets.
-/

namespace ContikiMaster.Tsch

open Sys Lib List

/-- A part of a slot that takes packets from the heads of queues and frees them. -/
structure Drops (dropped : List ℕ) (s t : Mac) : Prop where
  exchange : Exchange [] dropped dropped s t
  keepsEmpty : KeepsEmpty s t
  inSlot : t.tschInSlotOperation = s.tschInSlotOperation
  currentLink : t.currentLink = s.currentLink

/-- The packet of a transmit slot is the oldest one of a queue. -/
def TxSlot.IsHead (tx : TxSlot) (s : Mac) : Prop :=
  tx.neighbor ∈ s.neighborList ∧ (s.neighbor tx.neighbor).txArray.head? = some tx.packet

section Select

variable {s t u : Mac} {dropped dropped' : List ℕ} {n : ℕ} {p : Option ℕ} {link : TschLink}

theorem Drops.refl (hs : PacketQueuesWF s) : Drops [] s s := ⟨.refl hs, .refl s, rfl, rfl⟩

theorem Drops.trans (hst : Drops dropped s t) (htu : Drops dropped' t u) :
    Drops (dropped ++ dropped') s u :=
  ⟨hst.exchange.trans htu.exchange, hst.keepsEmpty.trans htu.keepsEmpty,
    htu.inSlot.trans hst.inSlot, htu.currentLink.trans hst.currentLink⟩

variable {rest : List ℕ} {m : Option ℕ}

theorem headDropped_drops {q : ℕ} (hs : PacketQueuesWF s) (hn : n ∈ s.neighborList)
    (hqueue : (s.neighbor n).txArray = q :: rest) : Drops [q] s (headDropped s n q) := by
  obtain ⟨hexchange, hempty⟩ := headDropped_exchange hs hn hqueue
  refine ⟨hexchange, hempty, ?_, ?_⟩
  · exact (headDropped_frame hs.unlocked hqueue).2.1
  · rw [headDropped_eq hs.unlocked hqueue]

theorem dropExpired_in_slot {q : ℕ} (hslot : s.tschInSlotOperation = true) (hs : PacketQueuesWF s)
    (hqueue : (s.neighbor n).txArray = q :: rest) (hcall : dropExpired s (some n) q = .ok t) :
    t = headDropped s n q := by
  obtain ⟨hunlocked, hslot', -, -⟩ := headDropped_frame hs.unlocked hqueue
  change tschQueueFreeUnusedNeighbors (headDropped s n q) = .ok t at hcall
  rw [tschQueueFreeUnusedNeighbors_in_slot (hslot'.trans hslot) hunlocked] at hcall
  split at hcall
  · cases hcall
  · cases hcall
    rfl

theorem ttlLoop_drops (fuel : ℕ) : ∀ {s : Mac}, s.tschInSlotOperation = true → PacketQueuesWF s →
    n ∈ s.neighborList → ttlLoop fuel s (some n) link = .ok (p, t) →
      Drops (ttlDropped fuel s (some n) link) s t := by
  induction fuel with
  | zero =>
    intro s _ hs _ hcall
    unfold ttlLoop ttlStep at hcall
    unfold ttlDropped ttlDroppedStep
    cases hhead : tschQueueGetPacketForNbr s (some n) link with
    | none =>
      simp only [hhead] at hcall ⊢
      cases hcall
      exact .refl hs
    | some q =>
      simp only [hhead] at hcall ⊢
      by_cases hexpired : ttlExpired s q = true
      · rw [if_pos hexpired] at hcall
        obtain ⟨u, -, hrest⟩ := bind_eq_ok hcall
        cases hrest
      · rw [if_neg hexpired] at hcall ⊢
        cases hcall
        exact .refl hs
  | succ fuel ih =>
    intro s hslot hs hn hcall
    unfold ttlLoop ttlStep at hcall
    unfold ttlDropped ttlDroppedStep
    cases hhead : tschQueueGetPacketForNbr s (some n) link with
    | none =>
      simp only [hhead] at hcall ⊢
      cases hcall
      exact .refl hs
    | some q =>
      simp only [hhead] at hcall ⊢
      by_cases hexpired : ttlExpired s q = true
      · obtain ⟨-, rest, hqueue⟩ := tschQueueGetPacketForNbr_eq_head hhead
        rw [if_pos hexpired] at hcall ⊢
        obtain ⟨u, hdrop, hrest⟩ := bind_eq_ok hcall
        obtain rfl := dropExpired_in_slot hslot hs hqueue hdrop
        have hfirst := headDropped_drops hs hn hqueue
        rw [hdrop]
        exact hfirst.trans (ih (hfirst.inSlot.trans hslot) hfirst.exchange.wf
          (hfirst.keepsEmpty.list ▸ hn) hrest)
      · rw [if_neg hexpired] at hcall ⊢
        cases hcall
        exact .refl hs

theorem getDataPacketForLink_drops (hslot : s.tschInSlotOperation = true) (hs : PacketQueuesWF s)
    (hcall : getDataPacketForLink s link = .ok (p, m, t)) :
    Drops (ttlDropped (queueLength s (tschQueueGetNbr s (flowAddr link.slotframeHandle))) s
      (tschQueueGetNbr s (flowAddr link.slotframeHandle)) link) s t := by
  unfold getDataPacketForLink at hcall
  obtain ⟨⟨q, u⟩, hloop, hrest⟩ := bind_eq_ok hcall
  have hdropped : Drops (ttlDropped
      (queueLength s (tschQueueGetNbr s (flowAddr link.slotframeHandle))) s
      (tschQueueGetNbr s (flowAddr link.slotframeHandle)) link) s u := by
    cases hnbr : tschQueueGetNbr s (flowAddr link.slotframeHandle) with
    | none =>
      have hhead := tschQueueGetPacketForNbr_none s link
      rw [hnbr, ttlLoop_none _ hhead] at hloop
      cases hloop
      simp only [queueLength, ttlDropped, ttlDroppedStep, hhead]
      exact .refl hs
    | some m =>
      rw [hnbr] at hloop
      exact ttlLoop_drops _ hslot hs (tschQueueGetNbr_mem hnbr).1 hloop
  have hend : t = u := by
    simp only at hrest
    split at hrest
    · split at hrest <;> cases hrest <;> rfl
    · cases hrest
      rfl
  rw [hend]
  exact hdropped

theorem getPacketAndNeighborForLink_drops {l : ℕ} (hslot : s.tschInSlotOperation = true)
    (hs : PacketQueuesWF s) (hcall : getPacketAndNeighborForLink s l = .ok (p, m, t)) :
    Drops (droppedForLink s l) s t ∧ ∀ k q, m = some k → p = some q → (TxSlot.mk k q).IsHead t := by
  -- an EB is the head of the EB queue
  have heb : ∀ k q, s.nEb = some k → tschQueueGetPacketForNbr s s.nEb (s.link l) = some q →
      (TxSlot.mk k q).IsHead s := by
    intro k q hk hq
    rw [hk] at hq
    obtain ⟨-, rest, hqueue⟩ := tschQueueGetPacketForNbr_eq_head hq
    exact ⟨(hs.eb k hk).1, head?_eq_some_iff.mpr ⟨rest, hqueue⟩⟩
  have hdata : getDataPacketForLink s (s.link l) = .ok (p, m, t) →
      Drops (ttlDropped (queueLength s (tschQueueGetNbr s (flowAddr (s.link l).slotframeHandle))) s
        (tschQueueGetNbr s (flowAddr (s.link l).slotframeHandle)) (s.link l)) s t ∧
        ∀ k q, m = some k → p = some q → (TxSlot.mk k q).IsHead t := by
    intro hcall
    refine ⟨getDataPacketForLink_drops hslot hs hcall, fun k q hk hq ↦ ?_⟩
    obtain ⟨hlisted, hqueue⟩ := (getDataPacketForLink_selected hslot hcall).head k q hk hq
    exact ⟨hlisted, head?_eq_some_iff.mpr hqueue⟩
  unfold getPacketAndNeighborForLink at hcall
  unfold droppedForLink
  dsimp only at hcall ⊢
  by_cases htx : linkOptionTx (s.link l).linkOptions = true
  · rw [if_pos htx] at hcall
    rw [htx]
    cases htype : (s.link l).linkType with
    | normal =>
      rw [htype] at hcall
      exact hdata hcall
    | advertising =>
      rw [htype] at hcall
      cases hq : tschQueueGetPacketForNbr s s.nEb (s.link l) with
      | none =>
        rw [hq] at hcall
        exact hdata hcall
      | some q =>
        rw [hq] at hcall
        cases hcall
        refine ⟨.refl hs, fun k q' hk hq' ↦ heb k q' hk ?_⟩
        rw [← hq']
        exact hq
    | advertisingOnly =>
      rw [htype] at hcall
      cases hcall
      exact ⟨.refl hs, heb⟩
  · rw [if_neg htx] at hcall
    rw [if_neg (by simp [htx])]
    cases hcall
    exact ⟨.refl hs, fun k q hk ↦ nomatch hk⟩

theorem selectPacket_drops {l l' : ℕ} (hslot : s.tschInSlotOperation = true)
    (hs : PacketQueuesWF s) (hcurrent : s.currentLink = some l)
    (hcall : selectPacket s l = .ok (l', p, m, t)) :
    (Exchange [] (droppedBySelection s l) (droppedBySelection s l) s t ∧ KeepsEmpty s t ∧
      t.currentLink = some l') ∧ ∀ k q, m = some k → p = some q → (TxSlot.mk k q).IsHead t := by
  unfold selectPacket at hcall
  unfold droppedBySelection
  obtain ⟨⟨q, k, u⟩, hfirst, hrest⟩ := bind_eq_ok hcall
  obtain ⟨hdrops, hhead⟩ := getPacketAndNeighborForLink_drops hslot hs hfirst
  rw [hfirst]
  have hstays : Exchange [] (droppedForLink s l ++ []) (droppedForLink s l ++ []) s u ∧
      KeepsEmpty s u ∧ u.currentLink = some l := by
    rw [append_nil]
    exact ⟨hdrops.exchange, hdrops.keepsEmpty, hdrops.currentLink.trans hcurrent⟩
  dsimp only at hrest
  split at hrest
  · rename_i backup hbackup
    dsimp only
    rw [hbackup]
    by_cases hrx : linkOptionRx (u.link l).linkOptions = true
    · rw [if_pos hrx] at hrest
      cases hrest
      simp only [droppedForBackup, if_pos hrx]
      exact ⟨hstays, fun k q _ hq ↦ nomatch hq⟩
    · rw [if_neg hrx] at hrest
      simp only [droppedForBackup, if_neg hrx]
      obtain ⟨⟨q', k', w⟩, hsecond, hdone⟩ := bind_eq_ok hrest
      have hswitched : SamePackets u { u with currentLink := some backup } :=
        ⟨rfl, rfl, rfl, rfl, fun _ ↦ rfl, fun _ ↦ rfl, rfl, rfl, rfl⟩
      obtain ⟨hagain, hhead'⟩ := getPacketAndNeighborForLink_drops
        (s := { u with currentLink := some backup }) (hdrops.inSlot.trans hslot)
        (hswitched.wf hdrops.exchange.wf) hsecond
      cases hdone
      have hboth := hdrops.exchange.trans
        ((hswitched.exchange hdrops.exchange.wf).trans hagain.exchange)
      exact ⟨⟨hboth, hdrops.keepsEmpty.trans (hswitched.keepsEmpty.trans hagain.keepsEmpty),
        hagain.currentLink⟩, hhead'⟩
  · rename_i hother
    cases hrest
    cases p with
    | some p =>
      exact ⟨hstays, hhead⟩
    | none =>
      cases hbackup : t.backupLink with
      | none =>
        simp only [droppedForBackup, hbackup]
        exact ⟨hstays, hhead⟩
      | some backup => exact absurd hbackup (hother backup rfl)

end Select

section Parts

variable {s t : Mac} {tx : TxSlot} {env : SlotEnv}

theorem slotBegin_spec {x : Option TxSlot} (hs : PacketQueuesWF s)
    (hcall : slotBegin s env = .ok (x, t)) :
    Exchange [] (droppedInSlot s) (droppedInSlot s) s t ∧ KeepsEmpty s t ∧
      ∀ tx, x = some tx → tx.IsHead t := by
  unfold slotBegin at hcall
  unfold droppedInSlot
  by_cases hassociated : s.tschIsAssociated = true
  · rw [if_pos hassociated] at hcall ⊢
    split at hcall
    · rename_i hcurrent
      rw [hcurrent]
      cases hcall
      have hend := endSlot_samePackets s env
      exact ⟨hend.exchange hs, hend.keepsEmpty, fun tx htx ↦ nomatch htx⟩
    · rename_i l hcurrent
      have helim : ∀ dropped : ℕ → List ℕ, s.currentLink.elim [] dropped = dropped l := by
        intro dropped
        rw [hcurrent]
        rfl
      rw [helim]
      obtain ⟨⟨l', p, n, u⟩, hselect, hrest⟩ := bind_eq_ok hcall
      have hstarted : SamePackets s { s with tschInSlotOperation := true } :=
        ⟨rfl, rfl, rfl, rfl, fun _ ↦ rfl, fun _ ↦ rfl, rfl, rfl, rfl⟩
      obtain ⟨⟨hdropped, hempty, -⟩, hhead⟩ :=
        selectPacket_drops rfl (hstarted.wf hs) hcurrent hselect
      have hselected : Exchange [] (droppedBySelection { s with tschInSlotOperation := true } l)
          (droppedBySelection { s with tschInSlotOperation := true } l) s u :=
        (hstarted.exchange hs).trans hdropped
      have hselectedEmpty := hstarted.keepsEmpty.trans hempty
      have hend : Exchange [] (droppedBySelection { s with tschInSlotOperation := true } l)
          (droppedBySelection { s with tschInSlotOperation := true } l) s (endSlot u env) ∧
          KeepsEmpty s (endSlot u env) := by
        have hended := endSlot_samePackets u env
        exact ⟨SamePackets.after hselected hended, hselectedEmpty.trans hended.keepsEmpty⟩
      cases p with
      | none =>
        cases hrest
        exact ⟨hend.1, hend.2, fun tx htx ↦ nomatch htx⟩
      | some p =>
        cases n with
        | none =>
          cases hrest
          exact ⟨hend.1, hend.2, fun tx htx ↦ nomatch htx⟩
        | some n =>
          dsimp only at hrest
          split at hrest
          · cases hrest
            exact ⟨hend.1, hend.2, fun tx htx ↦ nomatch htx⟩
          · cases hrest
            have hcopied : SamePackets u { u.setPacket p { u.packet p with
                qb := { (u.packet p).qb with data := framePrepared u n p } } with
                currentLink := some l' } :=
              ⟨rfl, rfl, rfl, rfl, fun _ ↦ rfl, fun _ ↦ rfl, rfl, rfl, rfl⟩
            refine ⟨SamePackets.after hselected hcopied, hselectedEmpty.trans hcopied.keepsEmpty, fun tx htx ↦ ?_⟩
            cases htx
            exact hhead n p rfl rfl
  · rw [if_neg hassociated] at hcall ⊢
    cases hcall
    exact ⟨.refl hs, .refl s, fun tx htx ↦ nomatch htx⟩

theorem tschQueuePacketSent_exchange {n p : ℕ} {link : TschLink} {macTxStatus randomRand : ℕ}
    {inQueue : Bool} (hs : PacketQueuesWF s) (hhead : (TxSlot.mk n p).IsHead s)
    (hcall : tschQueuePacketSent s n p link macTxStatus randomRand = (inQueue, t)) :
    Exchange [] (if inQueue then [] else [p]) [] s t ∧ KeepsEmpty s t := by
  obtain ⟨hn, hring⟩ := hhead
  obtain ⟨rest, hqueue⟩ := head?_eq_some_iff.mp hring
  have hbackoff : ∀ (w : Mac) (r : TschNeighbor), r.txArray = (w.neighbor n).txArray →
      r.isBroadcast = (w.neighbor n).isBroadcast → ∀ taken, Exchange [] taken [] s w →
      KeepsEmpty s w →
        Exchange [] taken [] s (w.setNeighbor n r) ∧ KeepsEmpty s (w.setNeighbor n r) := by
    intro w r hr hbroadcast taken hw hempty
    have hsame : SamePackets w (w.setNeighbor n r) := .setNeighbor hr hbroadcast
    exact ⟨SamePackets.after hw hsame, hempty.trans hsame.keepsEmpty⟩
  unfold tschQueuePacketSent at hcall
  split at hcall
  · obtain ⟨htaken, hempty⟩ := removePacket_exchange hs hn hqueue
    dsimp only at hcall
    split at hcall
    · cases hcall
      exact hbackoff _ (tschQueueBackoffReset _) rfl rfl [p] htaken hempty
    · cases hcall
      exact ⟨htaken, hempty⟩
  · set u := s.setPacket p
      { s.packet p with maxTransmissions := ttlMaxTransmissions s (s.packet p) } with hu
    have hupdated : SamePackets s u := .setPacket s p _
    have hkept := hupdated.exchange hs
    by_cases hdropped : (u.packet p).maxTransmissions ≤ (u.packet p).transmissions
    · obtain ⟨htaken, hempty⟩ := removePacket_exchange hkept.wf hn hqueue
      have hall := hkept.trans htaken
      simp only [hdropped, decide_true, if_true, Bool.not_true] at hcall
      split at hcall
      · cases hcall
        exact hbackoff _ (tschQueueBackoffInc randomRand _) rfl rfl [p] hall
          (hupdated.keepsEmpty.trans hempty)
      · cases hcall
        exact ⟨hall, hupdated.keepsEmpty.trans hempty⟩
    · simp only [hdropped, decide_false, Bool.not_false, Bool.false_eq_true, if_false] at hcall
      split at hcall
      · cases hcall
        exact hbackoff _ (tschQueueBackoffInc randomRand _) rfl rfl [] hkept hupdated.keepsEmpty
      · obtain ⟨rfl, rfl⟩ := Prod.mk.inj hcall
        exact ⟨hkept, hupdated.keepsEmpty⟩

/-- A part of a slot that moves packets from the queues to the dequeued ones. -/
structure Dequeues (gone : List ℕ) (s t : Mac) : Prop where
  wf : PacketQueuesWF t
  dequeued : t.dequeued = s.dequeued ++ gone
  queued : ∀ p, t.view.queued.count p + gone.count p = s.view.queued.count p
  counted : ∀ p, t.packetMemb.count p = s.packetMemb.count p
  keepsEmpty : KeepsEmpty s t

theorem slotEnd_spec (hs : PacketQueuesWF s) (hhead : tx.IsHead s)
    (hcall : slotEnd s tx env = .ok t) : ∃ gone, Dequeues gone s t := by
  unfold slotEnd at hcall
  split at hcall
  · cases hcall
  rename_i l hcurrent
  have hmarked := SamePackets.setPacket s tx.packet { s.packet tx.packet with
    transmissions := ((s.packet tx.packet).transmissions + 1) % 256, ret := env.macTxStatus }
  dsimp only at hcall
  set u := s.setPacket tx.packet { s.packet tx.packet with
    transmissions := ((s.packet tx.packet).transmissions + 1) % 256, ret := env.macTxStatus }
  cases hsent : tschQueuePacketSent u tx.neighbor tx.packet (u.link l) env.macTxStatus
      env.randomRand with
  | mk inQueue w =>
    obtain ⟨hexchange, hempty⟩ := tschQueuePacketSent_exchange (hmarked.wf hs) hhead hsent
    rw [hsent] at hcall
    cases hcall
    have hended := endSlot_samePackets
      (if inQueue = true then w else { w with dequeued := w.dequeued ++ [tx.packet] }) env
    cases inQueue with
    | true =>
      have hall := SamePackets.after ((hmarked.exchange hs).trans hexchange) hended
      refine ⟨[], hall.wf, ?_, hall.queued, hall.counted, ?_⟩
      · rw [append_nil]
        exact hall.dequeued
      · exact hmarked.keepsEmpty.trans (hempty.trans hended.keepsEmpty)
    | false =>
      have hput : PacketQueuesWF { w with dequeued := w.dequeued ++ [tx.packet] } :=
        ⟨hexchange.wf.unlocked, hexchange.wf.nodup, hexchange.wf.used, hexchange.wf.eb,
          hexchange.wf.bound, hexchange.wf.backed⟩
      have hall := (hmarked.exchange hs).trans hexchange
      refine ⟨[tx.packet], hended.wf hput, ?_, fun p ↦ ?_, fun p ↦ ?_, ?_⟩
      · exact hended.dequeued.trans (congrArg (· ++ [tx.packet]) hall.dequeued)
      · rw [hended.queued]
        exact hall.queued p
      · rw [hended.count]
        exact hall.counted p
      · exact hmarked.keepsEmpty.trans (hempty.trans ⟨hended.list, hended.broadcast,
          hended.keepsEmpty.empty⟩)

theorem Mac.setPacket_setPacket (s : Mac) (p : ℕ) (q r : TschPacket) :
    (s.setPacket p q).setPacket p r = s.setPacket p r := by
  unfold Mac.setPacket Memb.store
  simp only [Function.update_idem]

theorem slotEnd_prepared {u : Mac} {l n p : ℕ} (hlink : u.currentLink = some l)
    (hroom : ¬ u.dequeuedArraySize ≤ u.dequeued.length + 1) :
    slotEnd { u.setPacket p { u.packet p with
        qb := { (u.packet p).qb with data := framePrepared u n p } } with currentLink := some l }
      ⟨n, p⟩ env = .ok (endSlot (tschTxSlot u n p (u.link l) env).2 env) := by
  set q : TschPacket := { u.packet p with
    qb := { (u.packet p).qb with data := framePrepared u n p } } with hq
  have hcurrent : ({ u.setPacket p q with currentLink := some l } : Mac) = u.setPacket p q := by
    rw [← hlink]
    rfl
  have hstored : (u.setPacket p q).packet p = q := Memb.store_mem_self
  rw [hcurrent]
  unfold slotEnd tschTxSlot
  rw [if_neg hroom]
  simp only [show (u.setPacket p q).currentLink = some l from hlink]
  rw [hstored, Mac.setPacket_setPacket]
  rfl

theorem tschSlotOperation_eq_parts (hs : PacketQueuesWF s) (env : SlotEnv) :
    (tschSlotOperation s env).map Prod.snd =
      (slotBegin s env >>= fun (tx, t) ↦ tx.elim (.ok t) fun tx ↦ slotEnd t tx env) := by
  unfold tschSlotOperation slotBegin
  by_cases hassociated : s.tschIsAssociated = true
  · rw [if_pos hassociated, if_pos hassociated]
    cases hcurrent : s.currentLink with
    | none => rfl
    | some l =>
      dsimp only
      have hstart : ({ s with tschInSlotOperation := true, currentLink := some l } : Mac) =
          { s with tschInSlotOperation := true } := by rw [← hcurrent]
      cases hselect : selectPacket
        { s with tschInSlotOperation := true, currentLink := some l } l with
      | error fault => rfl
      | ok result =>
        obtain ⟨l', p, n, u⟩ := result
        rw [hstart] at hselect
        have hstarted : SamePackets s { s with tschInSlotOperation := true } :=
          ⟨rfl, rfl, rfl, rfl, fun _ ↦ rfl, fun _ ↦ rfl, rfl, rfl, rfl⟩
        obtain ⟨⟨-, -, hlink⟩, -⟩ := selectPacket_drops rfl (hstarted.wf hs) hcurrent hselect
        cases p with
        | none => rfl
        | some p =>
          cases n with
          | none => rfl
          | some n =>
            rw [ok_bind, ok_bind]
            dsimp only
            by_cases hroom : u.dequeuedArraySize ≤ u.dequeued.length + 1
            · unfold tschTxSlot
              rw [if_pos hroom, if_pos hroom]
              rfl
            · rw [if_neg hroom]
              exact (slotEnd_prepared hlink hroom).symm
  · rw [if_neg hassociated, if_neg hassociated]
    rfl

end Parts

end ContikiMaster.Tsch
