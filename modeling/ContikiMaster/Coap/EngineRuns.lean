import ContikiMaster.Coap.TransactionLife

/-!
# Runs of the engine

What holds in every state that the engine can reach as long as no datagram is rejected while
`coap_receive` still points to an old transaction, only the peer of a transaction answers
it, and no callback is left over in the block of a transaction that ends.
-/

namespace ContikiMaster.Coap

open Lib Sys List Option Memb

variable (conf : EngineConf) {s s' s'' : Engine} {t u : ℕ} {x : Exchange} {why : Ending}
  {mid : UInt16} {peer : Endpoint} {origin : Origin}

/-- Listed blocks but one stay as they are. -/
structure ExtendsBut (t : ℕ) (s s' : Engine) : Prop where
  list : ∀ u ∈ s.transactionsList, u ≠ t → u ∈ s'.transactionsList
  phase : ∀ u, u ≠ t → phaseOf s'.log u = phaseOf s.log u
  get : ∀ u, u ≠ t → s'.get u = s.get u

theorem ExtendsBut.trans (hfirst : ExtendsBut t s s') (hsecond : ExtendsBut t s' s'') :
    ExtendsBut t s s'' where
  list u hu hut := hsecond.list u (hfirst.list u hu hut) hut
  phase u hut := (hsecond.phase u hut).trans (hfirst.phase u hut)
  get u hut := (hsecond.get u hut).trans (hfirst.get u hut)

theorem SameBlocks.extendsBut (hsame : SameBlocks s s') (t : ℕ) : ExtendsBut t s s' := by
  obtain ⟨hmemb, hlist, hlog⟩ := hsame
  refine ⟨fun u hu _ ↦ by rwa [hlist], fun u _ ↦ by rw [hlog], fun u _ ↦ ?_⟩
  rw [Engine.get, Engine.get, hmemb]

theorem extendsBut_store (s : Engine) (t : ℕ) (y : CoapTransaction) : ExtendsBut t s (s.store t y) where
  list _ hu _ := hu
  phase _ _ := rfl
  get _ hut := store_mem_of_ne hut

theorem extendsBut_clear (s : Engine) (t : ℕ) (why : Ending) :
    ExtendsBut t s (s.coapClearTransaction t why) where
  list _ hu hut := (mem_erase_of_ne hut).mpr hu
  phase _ hut := clear_phase_of_ne hut
  get u _ := by
    change (s.transactionsMemb.free t).mem u = _
    rw [free_mem]
    rfl

theorem extendsBut_invoke (s : Engine) (t : ℕ) (message : Option ParseState) :
    ExtendsBut t s (s.invoke t message) := by
  unfold Engine.invoke
  cases (s.get t).callback with
  | none => exact ⟨fun _ hu _ ↦ hu, fun _ _ ↦ rfl, fun _ _ ↦ rfl⟩
  | some callback =>
    exact ⟨fun _ hu _ ↦ hu, fun _ hut ↦ phaseOf_append_of_ne (Ne.symm hut), fun _ _ ↦ rfl⟩

theorem Extends.trans_but (hfirst : Extends s s') (hsecond : ExtendsBut t s' s'')
    (hnot : t ∉ s.transactionsList) : Extends s s'' := by
  have hne : ∀ u ∈ s.transactionsList, u ≠ t := fun u hu heq ↦ hnot (heq ▸ hu)
  exact ⟨fun u hu ↦ hsecond.list u (hfirst.list u hu) (hne u hu),
    fun u hu ↦ (hsecond.phase u (hne u hu)).trans (hfirst.phase u hu),
    fun u hu ↦ (hsecond.get u (hne u hu)).trans (hfirst.get u hu)⟩

theorem sameBlocks_send (s : Engine) (peer : Endpoint) (data : List UInt8) :
    SameBlocks s (s.coapSendMessage peer data) := ⟨rfl, rfl, rfl⟩

theorem OwnCallback.of_same (hown : OwnCallback s t) (hsame : SameBlocks s s') : OwnCallback s' t := by
  unfold OwnCallback Engine.get at hown ⊢
  rw [hsame.memb, hsame.log]
  exact hown

theorem Orderly.send (hs : Orderly s) (hlisted : t ∈ s.transactionsList)
    (hown : coapMaxRetransmit ≤ (s.get t).retransCounter → OwnCallback s t) :
    Orderly (s.coapSendTransaction t) ∧ ExtendsBut t s (s.coapSendTransaction t) := by
  obtain ⟨x, registered, hphase, -⟩ := hs.accounted.active t hlisted
  unfold Engine.coapSendTransaction
  dsimp only
  have hsame := sameBlocks_send s (s.get t).peer (slice (s.get t).packet 0 (s.get t).packetLen)
  split_ifs with hconfirmable hcounter
  · exact ⟨hs.of_same hsame, hsame.extendsBut t⟩
  · have hgone : SameBlocks s ((s.coapSendMessage (s.get t).peer
        (slice (s.get t).packet 0 (s.get t).packetLen)).coapRemoveObserverByClient (s.get t).peer) :=
      ⟨rfl, rfl, rfl⟩
    have hends : x.EndsBy .exhausted := trivial
    refine ⟨(hs.of_same hgone).clear_invoke hlisted hphase hends
      ((hown (not_lt.mp hcounter)).of_same hgone), ?_⟩
    exact ((hgone.extendsBut t).trans (extendsBut_clear _ t .exhausted)).trans
      (extendsBut_invoke _ t none)
  · exact ⟨(hs.of_same hsame).clear hlisted hphase trivial,
      (hsame.extendsBut t).trans (extendsBut_clear _ t .sent)⟩

theorem Orderly.checkFrom {expired : ℕ → Bool} {walk : List ℕ} (hs : Orderly s) (hwalk : walk.Nodup)
    (hlisted : ∀ t ∈ walk, t ∈ s.transactionsList)
    (hown : ∀ t ∈ walk, expired t → coapMaxRetransmit ≤ (s.get t).retransCounter + 1 →
      OwnCallback s t) : Orderly (Engine.checkFrom expired walk s) := by
  induction walk generalizing s with
  | nil => exact hs
  | cons t rest ih =>
    obtain ⟨hnot, hrest⟩ := nodup_cons.mp hwalk
    rw [Engine.checkFrom]
    split_ifs with hexpired
    · set counted := s.store t { s.get t with retransCounter := (s.get t).retransCounter + 1 }
      have hcounted : Orderly counted := hs.store rfl rfl
      have hself : counted.get t =
          { s.get t with retransCounter := (s.get t).retransCounter + 1 } := store_mem_self
      obtain ⟨hsent, hbut⟩ := hcounted.send (t := t) (hlisted t mem_cons_self) fun hmax ↦ by
        rw [hself] at hmax
        have howned := hown t mem_cons_self hexpired hmax
        unfold OwnCallback at howned ⊢
        rw [hself]
        exact howned
      have hframe := (extendsBut_store s t
        { s.get t with retransCounter := (s.get t).retransCounter + 1 }).trans hbut
      dsimp only
      split_ifs with hstill
      · have hne : ∀ u ∈ rest, u ≠ t := fun u hu heq ↦ hnot (heq ▸ hu)
        refine ih hsent hrest (fun u hu ↦ ?_) (fun u hu hexp hmax ↦ ?_)
        · exact hframe.list u (hlisted u (mem_cons_of_mem _ hu)) (hne u hu)
        · rw [hframe.get u (hne u hu)] at hmax
          have howned := hown u (mem_cons_of_mem _ hu) hexp hmax
          unfold OwnCallback originOf at howned ⊢
          rw [hframe.get u (hne u hu), hframe.phase u (hne u hu)]
          exact howned
      · exact hsent
    · exact ih hs hrest (fun u hu ↦ hlisted u (mem_cons_of_mem _ hu))
        fun u hu ↦ hown u (mem_cons_of_mem _ hu)

theorem serializeInto_get (s : Engine) (conf : EngineConf) (t : ℕ) (m : Message) :
    ((s.serializeInto conf t m).get t).mid = (s.get t).mid ∧
      ((s.serializeInto conf t m).get t).peer = (s.get t).peer ∧
      ((s.serializeInto conf t m).get t).retransCounter = (s.get t).retransCounter := by
  have hself : (s.serializeInto conf t m).get t = _ := store_mem_self
  rw [hself]
  exact ⟨rfl, rfl, rfl⟩

theorem Orderly.serializeInto (hs : Orderly s) (conf : EngineConf) (t : ℕ) (m : Message) :
    Orderly (s.serializeInto conf t m) := hs.store rfl rfl

theorem extendsBut_serializeInto (s : Engine) (conf : EngineConf) (t : ℕ) (m : Message) :
    ExtendsBut t s (s.serializeInto conf t m) := extendsBut_store s t _

theorem Orderly.notifyObserver (hs : Orderly s) (getHandler : GetHandler) (o : Observer)
    (notification : Message) :
    Orderly (Engine.notifyObserver conf getHandler o notification s).2.2 ∧
      Extends s (Engine.notifyObserver conf getHandler o notification s).2.2 := by
  have hmid : SameBlocks s s.coapGetMid.2 := ⟨rfl, rfl, rfl⟩
  unfold Engine.notifyObserver
  dsimp only
  cases hnew : s.coapGetMid.2.coapNewTransaction s.coapGetMid.1 o.peer .notification with
  | none => exact ⟨hs.of_same hmid, hmid.extends⟩
  | some pair =>
    obtain ⟨t, s₁⟩ := pair
    have hs₀ := hs.of_same hmid
    have hs₁ := hs₀.newTransaction (by decide) hnew
    obtain ⟨-, hextends, hlisted, -⟩ := hs₀.accounted.newTransaction hnew
    have hnot := hs₀.accounted.not_listed hnew
    obtain ⟨-, -, -, -, -, -, -, -, hcounter, -⟩ := coapNewTransaction_spec hnew
    dsimp only
    generalize hhandled : getHandler _ _ = handled
    obtain ⟨setters, packet⟩ := handled
    dsimp only
    generalize hmessage : Message.coapSetToken _ _ = message
    set stored := s₁.store t { s₁.get t with packet := packet }
    have hstored : Orderly stored := hs₁.store rfl rfl
    have hself : stored.get t = { s₁.get t with packet := packet } := store_mem_self
    obtain ⟨hsent, hbut⟩ := (hstored.serializeInto conf t message).send hlisted fun hmax ↦ by
      rw [(serializeInto_get stored conf t message).2.2, hself] at hmax
      change coapMaxRetransmit ≤ (s₁.get t).retransCounter at hmax
      rw [hcounter] at hmax
      exact absurd hmax (by decide)
    refine ⟨hsent, (hmid.extends.trans hextends).trans_but ?_ hnot⟩
    exact ((extendsBut_store s₁ t _).trans (extendsBut_serializeInto stored conf t message)).trans hbut

theorem Orderly.notifyFrom (hs : Orderly s) (n : Notification) (observers : List Observer)
    (notification : Message) : Orderly (Engine.notifyFrom conf n observers notification s).2 ∧
      Extends s (Engine.notifyFrom conf n observers notification s).2 := by
  induction observers generalizing s notification with
  | nil => exact ⟨hs, Extends.refl s⟩
  | cons o rest ih =>
    rw [Engine.notifyFrom]
    split_ifs
    · obtain ⟨hnotified, hextends⟩ := hs.notifyObserver conf n.getHandler o notification
      obtain ⟨hrest, hextends'⟩ := ih hnotified _
      exact ⟨hrest, hextends.trans hextends'⟩
    · exact ih hs notification

theorem Orderly.notify (hs : Orderly s) (n : Notification) :
    Orderly (s.coapNotifyObserversSub conf n) ∧ Extends s (s.coapNotifyObserversSub conf n) := by
  obtain ⟨hnotified, hextends⟩ := hs.notifyFrom conf n s.observersList (coapInitMessage .non 69 0)
  have hsame : SameBlocks
      (Engine.notifyFrom conf n s.observersList (coapInitMessage .non 69 0) s).2
      (s.coapNotifyObserversSub conf n) := ⟨rfl, rfl, rfl⟩
  exact ⟨hnotified.of_same hsame, hextends.trans hsame.extends⟩

theorem Orderly.notifyAll (hs : Orderly s) (notified : List Notification) :
    Orderly (notified.foldl (fun s n ↦ s.coapNotifyObserversSub conf n) s) ∧
      Extends s (notified.foldl (fun s n ↦ s.coapNotifyObserversSub conf n) s) := by
  induction notified generalizing s with
  | nil => exact ⟨hs, Extends.refl s⟩
  | cons n rest ih =>
    obtain ⟨hnotified, hextends⟩ := hs.notify conf n
    obtain ⟨hrest, hextends'⟩ := ih hnotified
    exact ⟨hrest, hextends.trans hextends'⟩

/-! ### Received datagrams -/

theorem sameBlocks_replyError (s : Engine) (conf : EngineConf) (d : Datagram) (message : ParseState)
    (status : ℕ) : SameBlocks s (s.replyError conf d message status) := ⟨rfl, rfl, rfl⟩

/-- What is left of a transaction that a response is prepared in. -/
structure Prepared (t : ℕ) (s s' : Engine) : Prop where
  orderly : Orderly s'
  listed : t ∈ s'.transactionsList
  phase : phaseOf s'.log t = phaseOf s.log t
  retransCounter : (s'.get t).retransCounter = (s.get t).retransCounter

theorem Prepared.of_same (hprepared : Prepared t s s') (hsame : SameBlocks s' s'') :
    Prepared t s s'' := by
  refine ⟨hprepared.orderly.of_same hsame, ?_, ?_, ?_⟩
  · rw [hsame.list]
    exact hprepared.listed
  · rw [hsame.log]
    exact hprepared.phase
  · rw [Engine.get, hsame.memb]
    exact hprepared.retransCounter

theorem Prepared.store (hprepared : Prepared t s s') {y : CoapTransaction}
    (hmid : y.mid = (s'.get t).mid) (hpeer : y.peer = (s'.get t).peer)
    (hcounter : y.retransCounter = (s'.get t).retransCounter) : Prepared t s (s'.store t y) := by
  refine ⟨hprepared.orderly.store hmid hpeer, hprepared.listed, hprepared.phase, ?_⟩
  have hself : (s'.store t y).get t = y := store_mem_self
  rw [hself, hcounter]
  exact hprepared.retransCounter

theorem Prepared.serializeInto (hprepared : Prepared t s s') (m : Message) :
    Prepared t s (s'.serializeInto conf t m) := hprepared.store rfl rfl rfl

theorem Orderly.serve (hs : Orderly s) (hlisted : t ∈ s.transactionsList)
    (service : Option Service) (message : ParseState) :
    Prepared t s (s.serve conf service message t).2 := by
  have hrefl : Prepared t s s := ⟨hs, hlisted, rfl, rfl⟩
  unfold Engine.serve
  dsimp only
  generalize hmid : (if message.packet.type = .con then (0, s) else s.coapGetMid) = pair
  obtain ⟨mid, s₁⟩ := pair
  have hsame : SameBlocks s s₁ := by
    split_ifs at hmid
    · obtain ⟨-, rfl⟩ := Prod.mk.inj hmid
      exact ⟨rfl, rfl, rfl⟩
    · obtain ⟨-, rfl⟩ := Prod.mk.inj hmid
      exact ⟨rfl, rfl, rfl⟩
  have hfirst := hrefl.of_same hsame
  dsimp only
  cases service with
  | none => exact hfirst.of_same ⟨rfl, rfl, rfl⟩
  | some service =>
    dsimp only
    generalize service message (initResponse message.packet mid) (s₁.get t).packet _ _ = result
    set called := { s₁.store t { s₁.get t with packet := result.packet } with
      observersList := result.observersList, errorMessage := result.errorMessage } with hcalled
    have hcalledPrepared : Prepared t s called :=
      (hfirst.store (y := { s₁.get t with packet := result.packet }) rfl rfl rfl).of_same
        ⟨rfl, rfl, rfl⟩
    obtain ⟨hnotified, hextends⟩ := hcalledPrepared.orderly.notifyAll conf result.notified
    have hprepared : Prepared t s
        (result.notified.foldl (fun s n ↦ s.coapNotifyObserversSub conf n) called) :=
      ⟨hnotified, hextends.list t hcalledPrepared.listed,
        (hextends.phase t hcalledPrepared.listed).trans hcalledPrepared.phase,
        by rw [hextends.get t hcalledPrepared.listed]; exact hcalledPrepared.retransCounter⟩
    split_ifs
    · exact hprepared
    all_goals
      split
      · exact hprepared.of_same ⟨rfl, rfl, rfl⟩
      · split_ifs
        · exact hprepared.serializeInto conf _
        · exact hprepared.serializeInto conf _

theorem Orderly.finish {n : ℕ} (hs : Orderly s) (hlisted : t ∈ s.transactionsList)
    (hphase : phaseOf s.log t = some (.active x false)) (horigin : x.origin = .response n)
    (hcounter : (s.get t).retransCounter = 0) (d : Datagram) (message : ParseState) (status : ℕ) :
    Orderly (s.finish conf n (some t) d message status) := by
  have hends : x.EndsBy (.failed n) := horigin
  unfold Engine.finish
  dsimp only
  split_ifs
  · refine (hs.send hlisted fun hmax ↦ ?_).1
    rw [hcounter] at hmax
    exact absurd hmax (by decide)
  · exact hs.clear hlisted hphase hends
  · exact (hs.clear hlisted hphase hends).of_same (sameBlocks_replyError _ _ _ _ _)

theorem Orderly.finish_none {n : ℕ} (hs : Orderly s) (d : Datagram) (message : ParseState)
    (status : ℕ) : Orderly (s.finish conf n none d message status) := by
  unfold Engine.finish
  dsimp only
  split_ifs
  · exact hs
  · exact hs
  · exact hs.of_same (sameBlocks_replyError _ _ _ _ _)

theorem Orderly.receiveRequest (hs : Orderly s) (service : Option Service) (d : Datagram)
    (message : ParseState) : Orderly (s.receiveRequest conf service d message) := by
  unfold Engine.receiveRequest
  dsimp only
  cases hnew : s.coapNewTransaction message.packet.mid d.source (.response s.received) with
  | none =>
    have hsame : SameBlocks s { s with transaction := none, errorMessage := "NoFreeTraBuffer" } :=
      ⟨rfl, rfl, rfl⟩
    exact (hs.of_same hsame).finish_none conf d message 163
  | some pair =>
    obtain ⟨t, s₁⟩ := pair
    dsimp only
    have hs₁ := hs.newTransaction (by rintro ⟨⟩) hnew
    obtain ⟨-, -, hlisted, hphase⟩ := hs.accounted.newTransaction hnew
    obtain ⟨-, -, -, -, -, -, -, -, hcounter, -⟩ := coapNewTransaction_spec hnew
    have hsame : SameBlocks s₁ { s₁ with transaction := some t } := ⟨rfl, rfl, rfl⟩
    have hprepared := (hs₁.of_same hsame).serve conf hlisted service message
    exact hprepared.orderly.finish conf hprepared.listed (hprepared.phase.trans hphase) rfl
      (hprepared.retransCounter.trans hcounter) d message _

theorem Orderly.receiveResponse (hs : Orderly s) (d : Datagram) (message : ParseState)
    (hown : ∀ t, s.coapGetTransactionByMid message.packet.mid = some t →
      (s.get t).peer = d.source ∧ OwnCallback s t) :
    Orderly (s.receiveResponse conf d message) := by
  unfold Engine.receiveResponse
  dsimp only
  generalize hgone : (if message.packet.type = .rst then
    s.coapRemoveObserverByMid d.source message.packet.mid else s) = s₁
  have hsame : SameBlocks s s₁ := by
    split_ifs at hgone <;> exact hgone ▸ ⟨rfl, rfl, rfl⟩
  have hs₁ := hs.of_same hsame
  have hfind : s₁.coapGetTransactionByMid message.packet.mid =
      s.coapGetTransactionByMid message.packet.mid := by
    unfold Engine.coapGetTransactionByMid Engine.get
    rw [hsame.list, hsame.memb]
  rw [hfind]
  cases hfound : s.coapGetTransactionByMid message.packet.mid with
  | none =>
    have hnone : SameBlocks s₁ { s₁ with transaction := none } := ⟨rfl, rfl, rfl⟩
    exact (hs₁.of_same hnone).finish_none conf d message _
  | some t =>
    obtain ⟨hpeer, howned⟩ := hown t hfound
    have hlisted : t ∈ s.transactionsList := mem_of_find?_eq_some hfound
    have hmid : (s.get t).mid = message.packet.mid := by
      have hsatisfied := find?_some hfound
      exact beq_iff_eq.mp hsatisfied
    obtain ⟨x, registered, hphase, hxmid, hxpeer⟩ := hs.accounted.active t hlisted
    have hends : x.EndsBy (.answered d.source message.packet.mid) :=
      ⟨hpeer.symm.trans hxpeer.symm, hmid.symm.trans hxmid.symm⟩
    dsimp only
    set cleared := (s₁.coapClearTransaction t (.answered d.source message.packet.mid)).invoke t
      (some message)
    have hcleared : Orderly cleared := hs₁.clear_invoke (hsame.list ▸ hlisted)
      (by rw [hsame.log]; exact hphase) hends (howned.of_same hsame)
    have hnone : SameBlocks cleared { cleared with transaction := none } := ⟨rfl, rfl, rfl⟩
    exact (hcleared.of_same hnone).finish_none conf d message _

theorem Orderly.requestBlock (hs : Orderly s) (state : ℕ) (remote : Endpoint) (request : Message)
    (blockNum : UInt32) : Orderly (s.requestBlock conf state remote request blockNum).2.2 := by
  have hs₀ : Orderly s.coapGetMid.2 := hs.of_same ⟨rfl, rfl, rfl⟩
  unfold Engine.requestBlock
  dsimp only
  cases hnew : s.coapGetMid.2.coapNewTransaction s.coapGetMid.1 remote .request with
  | none => exact hs₀
  | some pair =>
    obtain ⟨t, s₁⟩ := pair
    obtain ⟨hs₁, -, hlisted, hphase⟩ := hs₀.accounted.newTransaction hnew
    obtain ⟨-, -, -, -, -, hlog, -, -, hcounter, -⟩ := coapNewTransaction_spec hnew
    dsimp only
    set called := s₁.store t { s₁.get t with callback := some state }
    have hcalled : Accounted called := hs₁.store rfl rfl
    have hself : called.get t = { s₁.get t with callback := some state } := store_mem_self
    have hready : phaseOf (called.log ++ [.registered t]) t =
        some (.active ⟨s.coapGetMid.1, remote, .request⟩ true) :=
      phaseOf_append_self (e := .registered t) hphase
    have hothers : ∀ u, u ≠ t → phaseOf (called.log ++ [.registered t]) u = phaseOf called.log u :=
      fun u hu ↦ phaseOf_append_of_ne (Ne.symm hu)
    have hregistered : Orderly (called.note (.registered t)) := by
      refine ⟨⟨hcalled.nodup, hcalled.used, hcalled.unused, ?_, ?_⟩, ?_⟩
      · intro u hu
        change ∃ x registered, phaseOf (called.log ++ [.registered t]) u = _ ∧ _
        by_cases hut : u = t
        · obtain ⟨x, registered, hactive, hxmid, hxpeer⟩ := hcalled.active t (hut ▸ hu)
          obtain ⟨rfl, -⟩ := Phase.active.inj (some.inj (hphase.symm.trans hactive))
          rw [hut]
          exact ⟨_, _, hready, hxmid, hxpeer⟩
        · rw [hothers u hut]
          exact hcalled.active u hu
      · intro u hu
        have hut : u ≠ t := fun heq ↦ hu (heq ▸ hlisted)
        change ∃ due, phaseOf (called.log ++ [.registered t]) u = _
        rw [hothers u hut]
        exact hcalled.idle u hu
      · intro u x registered hactive hrequest
        change phaseOf (called.log ++ [.registered t]) u = _ at hactive
        by_cases hut : u = t
        · rw [hut, hready] at hactive
          exact (Phase.active.inj (some.inj hactive)).2.symm
        · rw [hothers u hut] at hactive
          change phaseOf s₁.log u = _ at hactive
          rw [hlog, phaseOf_append_of_ne (Ne.symm hut)] at hactive
          exact hs₀.registered u x registered hactive hrequest
    refine ((hregistered.serializeInto conf t _).send hlisted fun hmax ↦ ?_).1
    rw [(serializeInto_get _ conf t _).2.2] at hmax
    change coapMaxRetransmit ≤ (called.get t).retransCounter at hmax
    rw [hself] at hmax
    change coapMaxRetransmit ≤ (s₁.get t).retransCounter at hmax
    rw [hcounter] at hmax
    exact absurd hmax (by decide)

/-- A datagram that the parser rejects finds the pointer of `coap_receive` null; a message with the
identifier of a transaction comes from the peer of it; and a transaction that is answered or given
up has no callback in its block, or is that of a request. -/
def Undisturbed (conf : EngineConf) (s : Engine) : EngineEvent → Prop
  | .receive _ d => ∀ r ∈ coapParseMessage conf.bits conf.sizes d.mem d.len,
      (r.status ≠ .noError → s.transaction = none) ∧
      (r.status = .noError → ¬ (1 ≤ r.state.packet.code ∧ r.state.packet.code ≤ 4) →
        ∀ t ∈ s.coapGetTransactionByMid r.state.packet.mid,
          (s.get t).peer = d.source ∧ OwnCallback s t)
  | .check expired => ∀ t ∈ s.transactionsList, expired t →
      coapMaxRetransmit ≤ (s.get t).retransCounter + 1 → OwnCallback s t
  | .request .. | .notify _ => True

instance (conf : EngineConf) (s : Engine) (e : EngineEvent) : Decidable (Undisturbed conf s e) := by
  cases e <;> unfold Undisturbed <;> infer_instance

theorem Orderly.step (hs : Orderly s) (e : EngineEvent)
    (hstep : GuardedStepOf (engineStep conf) (Undisturbed conf) s e s') : Orderly s' := by
  obtain ⟨hguard, hnext⟩ := hstep
  cases e with
  | receive service d =>
    obtain ⟨r, hparse, rfl⟩ := map_eq_some_iff.mp hnext
    obtain ⟨hrejected, hresponse⟩ := hguard r hparse
    unfold Engine.receiveParsed
    dsimp only
    set received := { s with
      received := s.received + 1, errorMessage := r.errorMessage.getD s.errorMessage }
    have hreceived : Orderly received := hs.of_same ⟨rfl, rfl, rfl⟩
    split_ifs with hstatus hcode
    · exact hreceived.receiveRequest conf service d r.state
    · exact hreceived.receiveResponse conf d r.state fun t ht ↦ hresponse hstatus hcode t ht
    · have hnone : received.transaction = none := hrejected hstatus
      rw [hnone]
      exact hreceived.finish_none conf d r.state _
  | request state remote request blockNum =>
    obtain rfl := some.inj hnext
    exact hs.requestBlock conf state remote request blockNum
  | notify n =>
    obtain rfl := some.inj hnext
    exact (hs.notify conf n).1
  | check expired =>
    obtain rfl := some.inj hnext
    exact hs.checkFrom hs.accounted.nodup (fun _ ht ↦ ht) hguard

theorem orderly_init (mid : UInt16) : Orderly (Engine.init conf mid) := by
  refine ⟨⟨nodup_nil, ?_, fun _ _ ↦ rfl, ?_, fun _ _ ↦ ⟨false, rfl⟩⟩, ?_⟩
  · exact fun t ht ↦ absurd ht not_mem_nil
  · exact fun t ht ↦ absurd ht not_mem_nil
  · intro t x registered hactive
    cases hactive

/-- Transactions are conserved in every state that undisturbed steps reach. -/
theorem conserved_of_undisturbed {events : List EngineEvent}
    (hrun : Run (GuardedStepOf (engineStep conf) (Undisturbed conf)) (Engine.init conf mid) events s) :
    Conserved s := by
  have horderly : Orderly s :=
    hrun.invariant (P := Orderly) (fun _ e _ hs hstep ↦ hs.step conf e hstep) (orderly_init conf mid)
  exact horderly.accounted.conserved

def EngineConf.default : EngineConf := ⟨CoapConf.default, 64, 4, 32⟩

def client : Endpoint := ⟨1, 5683⟩

def datagramOf (source : Endpoint) (bytes : List UInt8) : Datagram :=
  ⟨source, fun i ↦ bytes.getD i 0, bytes.length⟩

/-- A request is sent to a server, and its acknowledgement with a response arrives. -/
def answeredRequest : List EngineEvent :=
  [.request 0 client (coapInitMessage .con 1 0) 0,
    .receive none (datagramOf client [0x60, 0x45, 0x00, 0x01])]

theorem conserved_answeredRequest :
    ∃ s, Run (GuardedStepOf (engineStep EngineConf.default) (Undisturbed EngineConf.default))
      (Engine.init EngineConf.default 0) answeredRequest s ∧ s.delivered.length = 1 ∧ Conserved s := by
  obtain ⟨s, hrun, hdelivered⟩ : ∃ s, Run (GuardedStepOf (engineStep EngineConf.default)
      (Undisturbed EngineConf.default)) (Engine.init EngineConf.default 0) answeredRequest s ∧
        s.delivered.length = 1 := exists_guardedRun (by decide +kernel)
  exact ⟨s, hrun, hdelivered, conserved_of_undisturbed EngineConf.default hrun⟩

/-- A resource that answers every request without a payload. -/
def emptyService : Service := fun _ _ packet _ offset ↦ ⟨true, [], offset, packet, 0, "", [], []⟩

/-- A request is answered, and then a datagram arrives whose version is wrong: the block of the
answered request is freed again. -/
theorem not_conserved :
    ¬ ∀ (conf : EngineConf) (mid : UInt16) (events : List EngineEvent) (s : Engine),
      Run (StepOf (engineStep conf)) (Engine.init conf mid) events s → Conserved s := by
  intro hall
  obtain ⟨s, hrun, hphase⟩ : ∃ s,
      Run (StepOf (engineStep EngineConf.default)) (Engine.init EngineConf.default 0)
        [.receive (some emptyService) (datagramOf client [0x50, 0x01, 0x00, 0x07]),
          .receive (some emptyService) (datagramOf client [0x00, 0x00, 0x00, 0x00])] s ∧
        phaseOf s.log 0 = none := exists_run (by decide +kernel)
  have hsome := (hall EngineConf.default 0 _ s hrun).lifecycle 0
  rw [hphase] at hsome
  cases hsome

end ContikiMaster.Coap
