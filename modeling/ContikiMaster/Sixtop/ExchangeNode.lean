import ContikiMaster.Sixtop.Exchange

/-!
# One node of an exchange

The stage of a node is the state of its transaction with the other node and whether the
MAC holds a frame of it. Reports and processing steps move the stage on alone; a message
that is sent or received moves it on together with the exchange.
-/

namespace ContikiMaster.Sixtop

open Lib Sys Net Framer Tsch List Option

namespace Sixp

variable {s t : Sixp} {p item : ℕ}

theorem SmallNbrs.advanceGen (hsmall : s.SmallNbrs) (item : ℕ) :
    (s.sixpNbrAdvanceGen item).SmallNbrs := by
  unfold sixpNbrAdvanceGen
  simp only
  split
  · exact hsmall.setNbr (v := ⟨(s.nbr item).nextSeqno, 1⟩) (hsmall item).1
      (show (1 : UInt8) < 16 by decide) item
  · split
    · rename_i hlt
      have hnat : (s.nbr item).gen.toNat < 9 := hlt
      have hgen : (s.nbr item).gen + 1 < 16 := by
        change ((s.nbr item).gen + 1).toNat < 16
        rw [UInt8.toNat_add]
        change ((s.nbr item).gen.toNat + 1) % 256 < 16
        omega
      exact hsmall.setNbr (v := ⟨(s.nbr item).nextSeqno, (s.nbr item).gen + 1⟩) (hsmall item).1
        hgen item
    · exact hsmall

end Sixp

/-! ### Stages -/

/-- What the two nodes agree on, seen from one of them. -/
structure Talk where
  sfid : UInt8
  addr : Addr8
  peer : Addr8
  mode : TransMode
  seqno : UInt8

/-- The state of the transaction and whether the MAC holds a frame of it; `none` without a
transaction. -/
abbrev Stage := Option (TransState × Bool)

def sentState (mode : TransMode) : TransState → Option TransState
  | .init => some .requestSent
  | .requestReceived => some .responseSent
  | .responseReceived => if mode = .threeStep then some .confirmationSent else none
  | _ => none

/-- The stage that a report or a processing step leads to, with the states gone through. -/
def localStep (mode : TransMode) : Stage × List TransState → Option (Stage × List TransState)
  | (some (state, true), states) =>
    (sentState mode state).map fun next ↦ (some (next, false), states ++ [next])
  | (some (state, false), states) =>
    if state = .terminating then some (none, states)
    else if Sixp.Finishes mode state then some (some (.terminating, false), states ++ [.terminating])
    else none
  | (none, _) => none

structure AtStage (s : Sixp) (talk : Talk) (state : TransState) (waiting : Bool) (p : ℕ) :
    Prop where
  mem : p ∈ s.transList
  peer : (s.trans p).peerAddr = talk.peer
  mode : (s.trans p).mode = talk.mode
  seqno : (s.trans p).seqno = talk.seqno
  inState : (s.trans p).state = state
  frames : s.frames.map SentFrame.trans = if waiting then [p] else []
  sent : waiting = true → sentState talk.mode state ≠ none
  due : Sixp.Finishes talk.mode state → s.timer p = some .process

/-- A node in a stage of the exchange, the states gone through and the messages received. -/
structure Node (s : Sixp) (talk : Talk) (stage : Stage) (states : List TransState)
    (received : List Message) : Prop where
  sound : s.Sound
  small : s.SmallNbrs
  calls : ∀ p, .terminate p ∉ s.pending
  sf : ∃ sf, s.sixtopFindSf talk.sfid = some sf ∧ sf.input = true
  addr : s.nodeAddr = talk.addr
  idle : stage = none →
    s.sixpTransFind talk.peer = none ∧ s.frames = [] ∧ s.pending = []
  going : ∀ state waiting, stage = some (state, waiting) → ∃ p, AtStage s talk state waiting p
  states : s.states = states
  received : s.received = received

open Sixp

variable {s t : Sixp} {talk : Talk} {stage : Stage} {state newState : TransState} {waiting : Bool}
  {states : List TransState} {received : List Message} {p : ℕ} {pkt : SixpPkt}

section

variable (hat : AtStage s talk state waiting p)

include hat

theorem AtStage.find_eq (hsound : s.Sound) : s.sixpTransFind talk.peer = some p := by
  cases hfind : s.sixpTransFind talk.peer with
  | none => exact absurd hat.peer (sixpTransFind_eq_none.mp hfind p hat.mem)
  | some q =>
    obtain ⟨hq, hpeer⟩ := mem_of_sixpTransFind hfind
    exact congrArg some (inj_on_of_nodup_map (pairwise_map.mpr hsound.peers) hq hat.mem
      (hpeer.trans hat.peer.symm))

theorem AtStage.enter (newState : TransState)
    (hframes : t.frames = []) (hmemb : t.transMemb = (s.enter p newState).transMemb)
    (hlist : t.transList = s.transList) (htimer : t.timer = (s.enter p newState).timer) :
    AtStage t talk newState false p := by
  have hp : t.trans p = { s.trans p with state := newState } := by
    rw [Sixp.trans, hmemb]
    exact enter_trans_self
  constructor
  case mem => exact hlist ▸ hat.mem
  case peer => exact hp ▸ hat.peer
  case mode => exact hp ▸ hat.mode
  case seqno => exact hp ▸ hat.seqno
  case inState => rw [hp]
  case frames => rw [hframes]; rfl
  case sent => exact fun hfalse ↦ absurd hfalse (by decide)
  case due => exact fun _ ↦ htimer ▸ enter_timer_self

theorem AtStage.same (hlist : t.transList = s.transList)
    (htrans : ∃ callback, t.trans p = { s.trans p with callback }) (hframes : t.frames = s.frames)
    (htimer : Finishes talk.mode state → t.timer p = s.timer p) : AtStage t talk state waiting p := by
  obtain ⟨callback, hp⟩ := htrans
  constructor
  case mem => exact hlist ▸ hat.mem
  case peer => exact hp ▸ hat.peer
  case mode => exact hp ▸ hat.mode
  case seqno => exact hp ▸ hat.seqno
  case inState => exact hp ▸ hat.inState
  case frames => exact hframes ▸ hat.frames
  case sent => exact hat.sent
  case due => exact fun hfinishes ↦ (htimer hfinishes).trans (hat.due hfinishes)

end

namespace Node

theorem mk_going (hsound : s.Sound) (hsmall : s.SmallNbrs) (hcalls : ∀ p, .terminate p ∉ s.pending)
    (hsf : ∃ sf, s.sixtopFindSf talk.sfid = some sf ∧ sf.input = true)
    (haddr : s.nodeAddr = talk.addr) (hat : AtStage s talk state waiting p)
    (hstates : s.states = states) (hreceived : s.received = received) :
    Node s talk (some (state, waiting)) states received where
  sound := hsound
  small := hsmall
  calls := hcalls
  sf := hsf
  addr := haddr
  idle := fun hnone ↦ by cases hnone
  going := fun state' waiting' heq ↦ by
    obtain ⟨rfl, rfl⟩ := Prod.mk.inj (some.inj heq)
    exact ⟨p, hat⟩
  states := hstates
  received := hreceived

theorem macCallback_of_sent (hmode : (s.trans p).mode = talk.mode)
    (hsent : sentState talk.mode (s.trans p).state = some newState) :
    s.macCallback p true = (s.enter p newState).callBack p true := by
  unfold Sixp.macCallback
  cases hstate : (s.trans p).state
  case init =>
    obtain rfl : TransState.requestSent = newState := by simpa [sentState, hstate] using hsent
    simp [sixpTransTransitState, mayTransit, hstate, callBack]
  case requestReceived =>
    obtain rfl : TransState.responseSent = newState := by simpa [sentState, hstate] using hsent
    simp [sixpTransTransitState, mayTransit, hstate, callBack]
  case responseReceived =>
    rw [hstate] at hsent
    obtain ⟨hthree, hnew⟩ := ite_none_right_eq_some.mp hsent
    obtain rfl := some.inj hnew
    simp [sixpTransTransitState, mayTransit, hstate, hmode.trans hthree, callBack]
  all_goals simp [sentState, hstate] at hsent

theorem seen_callBack (s : Sixp) (p : ℕ) (ok : Bool) :
    (s.callBack p ok).states = s.states ∧ (s.callBack p ok).received = s.received := by
  unfold Sixp.states Sixp.received callBack
  cases (s.trans p).callback <;> simp

theorem seen_enter (s : Sixp) (p : ℕ) (newState : TransState) :
    (s.enter p newState).states = s.states ++ [newState] ∧
      (s.enter p newState).received = s.received := by
  unfold Sixp.states Sixp.received Sixp.enter scheduleTransProcess
  simp

theorem report (hnode : Node s talk (some (state, true)) states received)
    (hsent : sentState talk.mode state = some newState)
    (hnext : s.next (.macCallback 0 true) = some t) :
    Node t talk (some (newState, false)) (states ++ [newState]) received := by
  obtain ⟨p, hat⟩ := hnode.going state true rfl
  have hsound := hnode.sound.next hnext
  obtain ⟨frame, hframe, rfl⟩ := map_eq_some_iff.mp hnext
  have hframes : s.frames.map SentFrame.trans = [p] := hat.frames
  obtain ⟨frame', hall, htrans⟩ := map_eq_singleton_iff.mp hframes
  rw [hall] at hframe
  obtain rfl := some.inj hframe
  let u : Sixp := { s with frames := s.frames.eraseIdx 0 }
  have hempty : u.frames = [] := by
    change s.frames.eraseIdx 0 = []
    rw [hall]
    rfl
  have heq : u.macCallback frame'.trans true = (u.enter p newState).callBack p true := by
    rw [htrans]
    exact macCallback_of_sent hat.mode (hat.inState.symm ▸ hsent)
  change Node (u.macCallback frame'.trans true) _ _ _ _
  change (u.macCallback frame'.trans true).Sound at hsound
  rw [heq] at hsound ⊢
  refine mk_going (p := p) hsound (hnode.small.of_nbrs rfl) ?_ hnode.sf hnode.addr ?_ ?_ ?_
  · intro q hq
    exact hnode.calls q ((mem_cons.mp hq).resolve_left (by simp))
  · exact hat.enter newState hempty rfl rfl rfl
  · rw [(seen_callBack ..).1, (seen_enter ..).1, ← hnode.states]
    rfl
  · rw [(seen_callBack ..).2, (seen_enter ..).2, ← hnode.received]
    rfl

section

variable (hnode : Node s talk stage states received)

include hnode

theorem frames_eq_nil (hstage : ∀ state, stage ≠ some (state, true)) : s.frames = [] := by
  rcases stage with _ | ⟨state, waiting⟩
  · exact (hnode.idle rfl).2.1
  · cases waiting with
    | true => exact absurd rfl (hstage state)
    | false =>
      obtain ⟨p, hat⟩ := hnode.going state false rfl
      exact map_eq_nil_iff.mp hat.frames

theorem no_report
    (hstage : ∀ state, stage ≠ some (state, true)) : s.next (.macCallback 0 true) = none := by
  have hframes := hnode.frames_eq_nil hstage
  simp [Sixp.next, hframes]

theorem resume (hnext : s.next .resume = some t) : Node t talk stage states received := by
  have hsound := hnode.sound.next hnext
  unfold Sixp.next at hnext
  cases hpending : s.pending with
  | nil => simp [hpending] at hnext
  | cons call pending =>
    simp only [hpending, some.injEq] at hnext
    cases call with
    | terminate p => exact absurd (hpending ▸ mem_cons_self) (hnode.calls p)
    | clearCallback p ident =>
      obtain rfl : ({ s with pending } : Sixp).sixpTransSetCallback p none = t := hnext
      constructor
      case sound => exact hsound
      case small => exact hnode.small.of_nbrs rfl
      case calls => exact fun q hq ↦ hnode.calls q (hpending ▸ mem_cons_of_mem _ hq)
      case sf => exact hnode.sf
      case addr => exact hnode.addr
      case idle =>
        intro hnone
        have hempty := (hnode.idle hnone).2.2
        rw [hpending] at hempty
        cases hempty
      case going =>
        intro state waiting heq
        obtain ⟨q, hat⟩ := hnode.going state waiting heq
        exact ⟨q, hat.same rfl (setCallback_trans none q) rfl fun _ ↦ rfl⟩
      case states => exact hnode.states
      case received => exact hnode.received

theorem of_nbrs {nbrs : NbrTables Nbr}
    (hsmall : ({ s with nbrs } : Sixp).SmallNbrs) :
    Node { s with nbrs } talk stage states received where
  sound := hnode.sound.congr rfl rfl rfl rfl fun q ↦ Iff.rfl
  small := hsmall
  calls := hnode.calls
  sf := hnode.sf
  addr := hnode.addr
  idle := hnode.idle
  going := fun state waiting heq ↦ by
    obtain ⟨p, hat⟩ := hnode.going state waiting heq
    exact ⟨p, hat.same rfl ⟨(s.trans p).callback, rfl⟩ rfl fun _ ↦ rfl⟩
  states := hnode.states
  received := hnode.received

theorem nbrTables {policy : Bool} {op : NbrTables.Op}
    (hnext : s.next (.nbrTables policy op) = some t) : Node t talk stage states received := by
  obtain ⟨nbrs, hnbrs, rfl⟩ := map_eq_some_iff.mp hnext
  exact hnode.of_nbrs (hnode.small.clears (NbrTables.next_clearsData hnbrs))

theorem advanceGen (item : ℕ) : Node (s.sixpNbrAdvanceGen item) talk stage states received := by
  have hnbrs : ∃ nbrs, s.sixpNbrAdvanceGen item = { s with nbrs } := by
    unfold sixpNbrAdvanceGen
    simp only
    split
    · exact ⟨_, rfl⟩
    · split
      · exact ⟨_, rfl⟩
      · exact ⟨s.nbrs, rfl⟩
  have hsmall := hnode.small.advanceGen item
  obtain ⟨nbrs, heq⟩ := hnbrs
  rw [heq] at hsmall ⊢
  exact hnode.of_nbrs hsmall

end

theorem process (hnode : Node s talk (some (state, waiting)) states received)
    (hfind : s.sixpTransFind talk.peer = some p) (htimer : s.timer p = some .process)
    (hnext : s.next (.timer p) = some t) : Node t talk (some (state, waiting)) states received ∨
      waiting = false ∧ ∃ stage' states',
        localStep talk.mode (some (state, false), []) = some (stage', states') ∧
        Node t talk stage' (states ++ states') received := by
  obtain ⟨q, hat⟩ := hnode.going state waiting rfl
  obtain rfl : q = p := some.inj ((hat.find_eq hnode.sound).symm.trans hfind)
  have hsound := hnode.sound.next hnext
  obtain ⟨hpending, hfire⟩ := ite_none_right_eq_some.mp hnext
  obtain rfl : s.processTrans q = t := by simpa [Sixp.fire, htimer] using hfire
  have hwaiting : state = .terminating ∨ Finishes talk.mode state → waiting = false := by
    intro hends
    by_contra hwait
    have hsent := hat.sent (Bool.not_eq_false _ ▸ hwait)
    rcases hends with rfl | ⟨rfl | rfl, hmode⟩ | rfl | rfl
    all_goals first | exact hsent rfl | simp [sentState, *] at hsent
  rcases processTrans_cases s q with ⟨hstate, heq⟩ | ⟨hstate, ⟨hfinishes, heq⟩ | ⟨hfinishes, heq⟩⟩
  all_goals
    rw [hat.inState] at hstate
    rw [heq] at hsound ⊢
  · obtain rfl := hwaiting (Or.inl hstate)
    refine Or.inr ⟨rfl, none, [], by simp [localStep, hstate], ?_⟩
    have hmem : ∀ r, r ∈ listRemove s.transList q ↔ r ∈ s.transList ∧ r ≠ q :=
      fun r ↦ mem_listRemove hnode.sound.nodup
    constructor
    case sound => exact hsound
    case small => exact hnode.small.of_nbrs rfl
    case calls => exact hnode.calls
    case sf => exact hnode.sf
    case addr => exact hnode.addr
    case going => exact fun _ _ hnone ↦ by cases hnone
    case states => exact hnode.states.trans (append_nil _).symm
    case received => exact hnode.received
    case idle =>
      intro _
      refine ⟨sixpTransFind_eq_none.mpr fun r hr hpeer ↦ ?_, map_eq_nil_iff.mp hat.frames, hpending⟩
      obtain ⟨hr, hne⟩ := (hmem r).mp hr
      have htrans : (({ s with timer := Function.update s.timer q none } : Sixp).freeTrans q).trans r =
          s.trans r := by
        change (s.transMemb.free q).mem r = s.transMemb.mem r
        rw [Memb.free_mem]
      rw [htrans] at hpeer
      exact hne (inj_on_of_nodup_map (pairwise_map.mpr hnode.sound.peers) hr hat.mem
        (hpeer.trans hat.peer.symm))
  · rw [hat.mode, hat.inState] at hfinishes
    obtain rfl := hwaiting (Or.inr hfinishes)
    refine Or.inr ⟨rfl, some (.terminating, false), [.terminating], ?_, ?_⟩
    · simp [localStep, hstate, hfinishes]
    · apply mk_going hsound (hnode.small.of_nbrs rfl) hnode.calls hnode.sf hnode.addr
        (hat.enter .terminating (map_eq_nil_iff.mp hat.frames) rfl rfl rfl)
      · rw [(seen_enter ..).1, hnode.states]
      · rw [(seen_enter ..).2, hnode.received]
  · rw [hat.mode, hat.inState] at hfinishes
    apply Or.inl
    exact mk_going hsound (hnode.small.of_nbrs rfl) hnode.calls hnode.sf hnode.addr
      (hat.same rfl ⟨(s.trans q).callback, rfl⟩ rfl fun hdue ↦ absurd hdue hfinishes)
      hnode.states hnode.received

/-! ### Messages -/

theorem alloc_fields {peerAddr : Addr8} (halloc : s.sixpTransAlloc pkt peerAddr = some (p, t)) :
    (t.trans p).mode = determineTransMode pkt ∧ (t.trans p).seqno = pkt.seqno ∧
      t.schedulingFunctions = s.schedulingFunctions ∧ t.nodeAddr = s.nodeAddr ∧ t.nbrs = s.nbrs := by
  unfold sixpTransAlloc at halloc
  rcases hsf : s.sixtopFindSf pkt.sfid with _ | sf
  · simp [hsf] at halloc
  simp only [hsf] at halloc
  obtain ⟨-, halloc⟩ := ite_none_left_eq_some.mp halloc
  rcases hmemb : s.transMemb.alloc with _ | ⟨block, memb⟩
  · simp [hmemb] at halloc
  simp only [hmemb, some.injEq, Prod.mk.injEq] at halloc
  obtain ⟨rfl, rfl⟩ := halloc
  exact ⟨congrArg Trans.mode Memb.store_mem_self, congrArg Trans.seqno Memb.store_mem_self, rfl,
    rfl, rfl⟩

variable (pkt) in
/-- A node with a new transaction. -/
theorem allocated (hnode : Node s talk none states received)
    (hmode : determineTransMode pkt = talk.mode) (hseqno : pkt.seqno = talk.seqno)
    (halloc : s.sixpTransAlloc pkt talk.peer = some (p, t)) :
    Node t talk (some (.init, false)) states received ∧ AtStage t talk .init false p := by
  have hnew := hnode.sound.allocated halloc
  obtain ⟨htmode, htseqno, hsf, haddr, hnbrs⟩ := alloc_fields halloc
  have hat : AtStage t talk .init false p := by
    constructor
    case mem => exact hnew.mem.mpr (Or.inr rfl)
    case peer => exact hnew.peer
    case mode => exact htmode.trans hmode
    case seqno => exact htseqno.trans hseqno
    case inState => exact hnew.state
    case frames => rw [hnew.frames, (hnode.idle rfl).2.1]; rfl
    case sent => exact fun hfalse ↦ absurd hfalse (by decide)
    case due => exact fun hfinishes ↦ by simp [Finishes] at hfinishes
  refine ⟨mk_going (hnew.sound hnode.sound) (hnode.small.of_nbrs hnbrs) ?_ ?_ ?_ hat ?_ ?_, hat⟩
  · exact hnew.pending ▸ hnode.calls
  · rw [sixtopFindSf, hsf]
    exact hnode.sf
  · exact haddr.trans hnode.addr
  · rw [Sixp.states, hnew.log]
    exact hnode.states
  · rw [Sixp.received, hnew.log]
    exact hnode.received

theorem inputTransit (hnode : Node s talk (some (state, false)) states received)
    (hat : AtStage s talk state false p) {sf : SchedulingFunction}
    (hsf : sf.input = true) (hmay : mayTransit (s.trans p) (receivedState pkt.type) = true) :
    Node (s.inputTransit sf p pkt talk.peer) talk (some (receivedState pkt.type, false))
      (states ++ [receivedState pkt.type]) (received ++ [⟨pkt.type, pkt.code, pkt.body⟩]) := by
  let u := s.enter p (receivedState pkt.type)
  let t : Sixp := { u with log := u.log ++ [Event.input talk.peer pkt] }
  have heq : s.inputTransit sf p pkt talk.peer = t := by
    unfold Sixp.inputTransit sixpTransTransitState
    simp only [hmay, if_true, hsf]
    rfl
  have hsound : u.Sound := hnode.sound.enter hat.mem (receivedState pkt.type)
  obtain ⟨hstates, hreceived⟩ := seen_enter s p (receivedState pkt.type)
  rw [heq]
  refine mk_going (s := t) (p := p) (Sound.congr (t := t) hsound rfl rfl rfl rfl fun q ↦ Iff.rfl)
    (SmallNbrs.of_nbrs (t := t) hnode.small rfl) hnode.calls hnode.sf hnode.addr
    (hat.enter (receivedState pkt.type) (map_eq_nil_iff.mp hat.frames) rfl rfl rfl) ?_ ?_
  · rw [← hnode.states, ← hstates, Sixp.states, filterMap_append]
    exact append_nil _
  · rw [← hnode.received, ← hreceived, Sixp.received, filterMap_append]
    rfl

variable (pkt) in
/-- A packet whose generation is valid is handled. -/
theorem inputPacket_eq (hnext : s.next (.input (packetBytes pkt) talk.peer) = some t)
    (hseqno : pkt.seqno < 16) (hgen : pkt.gen < 16)
    (haccepts : acceptsBody pkt.type pkt.code pkt.body.length = true) :
    s.inputPacket pkt talk.peer = .ok t := by
  obtain ⟨-, hinput⟩ := ite_none_right_eq_some.mp hnext
  have hok := toOption_eq_some hinput
  rw [sixpInput, sixpPktParse_packetBytes hseqno hgen haccepts] at hok
  exact hok

variable (pkt) in
/-- A request of a node without a transaction is accepted while there is room for one. -/
theorem receiveRequest (hnode : Node s talk none states received)
    (hroom : s.transMemb.alloc.isSome) (hsfid : pkt.sfid = talk.sfid) (htype : pkt.type = .request)
    (hmode : determineTransMode pkt = talk.mode) (hseqno : pkt.seqno = talk.seqno)
    (hvalid : s.validGeneration pkt talk.peer = true)
    (hinput : s.inputPacket pkt talk.peer = .ok t) :
    Node t talk (some (.requestReceived, false)) (states ++ [.requestReceived])
      (received ++ [⟨pkt.type, pkt.code, pkt.body⟩]) := by
  obtain ⟨sf, hsf, hhandler⟩ := hnode.sf
  have hfind := (hnode.idle rfl).1
  obtain ⟨⟨p, memb⟩, hmemb⟩ := isSome_iff_exists.mp hroom
  have halloc : ∃ u, s.sixpTransAlloc pkt talk.peer = some (p, u) := by
    unfold sixpTransAlloc
    simp only [hsfid, hsf, hfind, isSome_none, Bool.false_eq_true, if_false, hmemb]
    exact ⟨_, rfl⟩
  obtain ⟨u, halloc⟩ := halloc
  unfold Sixp.inputPacket at hinput
  have hreserved : pkt.type ≠ .reserved := by rw [htype]; decide
  simp only [if_neg hreserved, hsfid, hsf, if_pos hvalid, if_pos htype, hfind, isSome_none,
    Bool.false_eq_true, if_false, halloc] at hinput
  obtain ⟨hnew, hat⟩ := hnode.allocated pkt hmode hseqno halloc
  have hmay : mayTransit (u.trans p) (receivedState pkt.type) = true := by
    simp [mayTransit, receivedState, htype, hat.inState]
  have hnode := hnew.inputTransit hat hhandler hmay
  obtain rfl := Except.ok.inj hinput
  rw [htype] at hnode ⊢
  exact hnode

/-- The packets that the states of a transaction accept. -/
def Accepts (mode : TransMode) (state : TransState) (type : SixpPktType) : Prop :=
  type = .response ∧ state = .requestSent ∨
    type = .confirmation ∧ state = .responseSent ∧ mode = .threeStep

variable (pkt) in
/-- A response or a confirmation that the state accepts. -/
theorem receiveReply (hnode : Node s talk (some (state, false)) states received)
    (hsfid : pkt.sfid = talk.sfid) (hseqno : pkt.seqno = talk.seqno)
    (haccepts : Accepts talk.mode state pkt.type) (hvalid : s.validGeneration pkt talk.peer = true)
    (hinput : s.inputPacket pkt talk.peer = .ok t) :
    Node t talk (some (receivedState pkt.type, false)) (states ++ [receivedState pkt.type])
      (received ++ [⟨pkt.type, pkt.code, pkt.body⟩]) := by
  obtain ⟨sf, hsf, hhandler⟩ := hnode.sf
  obtain ⟨p, hat⟩ := hnode.going state false rfl
  have hfind := hat.find_eq hnode.sound
  have htypes : pkt.type ≠ .reserved ∧ pkt.type ≠ .request := by
    rcases haccepts with ⟨htype, -⟩ | ⟨htype, -⟩ <;> rw [htype] <;> decide
  have hsame : ¬ (s.trans p).seqno ≠ pkt.seqno := not_not.mpr (hat.seqno.trans hseqno.symm)
  unfold Sixp.inputPacket at hinput
  simp only [if_neg htypes.1, hsfid, hsf, if_pos hvalid, if_neg htypes.2, hfind, if_neg hsame]
    at hinput
  have hmay : mayTransit (s.trans p) (receivedState pkt.type) = true := by
    rcases haccepts with ⟨htype, hstate⟩ | ⟨htype, hstate, hmode⟩
    · simp [mayTransit, receivedState, htype, hat.inState, hstate]
    · simp [mayTransit, receivedState, htype, hat.inState, hat.mode, hstate, hmode]
  obtain rfl := Except.ok.inj hinput
  exact hnode.inputTransit hat hhandler hmay

/-- The states in which a response or a confirmation is sent. -/
def Sends (mode : TransMode) (state : TransState) (type : SixpPktType) : Prop :=
  type = .response ∧ state = .requestReceived ∨
    type = .confirmation ∧ state = .responseReceived ∧ mode = .threeStep

variable {callback : Option ℕ} {frame : SentFrame} {args : OutputArgs}
  {removable : Option (Option Linkaddr)} {react : Reaction} {code : UInt8} {body : List UInt8}

theorem outputPacket_frame {destAddr : Addr8}
    (houtput : s.outputPacket p callback destAddr pkt = .ok t)
    (hframe : t.frames.drop s.frames.length = [frame]) :
    frame.trans = p ∧ frame.packet = packetBytes pkt ∧ ∃ packetbuf,
      t = { s.sixpTransSetCallback p callback with packetbuf, frames := s.frames ++ [frame] } := by
  have hnone : ∀ {u : Sixp}, u.frames = s.frames → u.frames.drop s.frames.length ≠ [frame] := by
    intro u hframes
    rw [hframes, drop_length]
    exact (cons_ne_nil _ _).symm
  rcases outputPacket_cases houtput with rfl | rfl | ⟨packetbuf, rfl⟩
  · exact absurd hframe (hnone rfl)
  · refine absurd hframe (hnone ?_)
    rcases macCallback_cases (s.sixpTransSetCallback p callback) p false with
      heq | heq | ⟨-, -, heq | ⟨newState, heq⟩⟩ <;> rw [heq] <;> rfl
  · rw [drop_left] at hframe
    obtain rfl := head_eq_of_cons_eq hframe
    exact ⟨rfl, rfl, packetbuf, rfl⟩

/-- The neighbours and the packet buffer with which a packet is sent that the MAC takes, and its
counters. -/
structure Prepared (s t : Sixp) (args : OutputArgs) (trans : Option ℕ) (seqno gen : UInt8)
    (u : Sixp) : Prop where
  outputTrans : s.outputTrans args.type args.destAddr = some trans
  only : ∃ nbrs packetbuf, u = { s with nbrs, packetbuf }
  small : u.SmallNbrs
  smallGen : gen < 16
  request : args.type = .request → seqno < 16
  reply : args.type ≠ .request → seqno = (trans.map fun p ↦ (s.trans p).seqno).getD 0
  sends : let pkt : SixpPkt := ⟨args.type, args.code, args.sfid, seqno, gen, args.body⟩
    (∃ p, trans = some p ∧ u.outputPacket p args.callback args.destAddr pkt = .ok t) ∨
      trans = none ∧ ∃ p v, u.sixpTransAlloc pkt args.destAddr = some (p, v) ∧
        v.outputPacket p args.callback args.destAddr pkt = .ok t

theorem exists_prepared (hsmall : s.SmallNbrs) (houtput : s.sixpOutput args removable react = .ok t)
    (hframe : t.frames.drop s.frames.length = [frame]) :
    ∃ trans seqno gen u, Prepared s t args trans seqno gen u := by
  have hnone : t.frames ≠ s.frames := by
    intro hframes
    rw [hframes, drop_length] at hframe
    cases hframe
  obtain ⟨done, hresult⟩ := exists_result houtput
  rcases sixpOutputResult_cases hresult with ⟨-, -, rfl⟩ | ⟨trans, nbr, seqno, u, htrans, hchoice,
    hend⟩
  · exact absurd rfl hnone
  obtain ⟨nbrs, heq⟩ := s.outputNbr_snd args.type args.code trans args.destAddr removable react
  have hchosen := hsmall.outputNbr args.type args.code trans args.destAddr removable react
  rw [hchoice] at heq hchosen
  obtain rfl : u = { s with nbrs } := heq
  obtain ⟨hsmall', hused⟩ := hchosen
  obtain ⟨hrequest, hreply⟩ := hused _ rfl
  rcases hend with ⟨-, packetbuf, rfl⟩ | ⟨-, packetbuf, p, v, hv, hsends⟩
  · exact absurd rfl hnone
  refine ⟨trans, seqno, (nbr.map fun item ↦ (({ s with nbrs } : Sixp).nbr item).gen).getD 0,
    { s with nbrs, packetbuf }, htrans, ⟨nbrs, packetbuf, rfl⟩, hsmall'.of_nbrs rfl, ?_, hrequest,
    hreply, ?_⟩
  · cases nbr with
    | none => exact (by decide : (0 : UInt8) < 16)
    | some item => exact (hsmall' item).2
  · rcases hv with ⟨rfl, rfl⟩ | ⟨rfl, halloc⟩
    · exact Or.inl ⟨p, rfl, hsends⟩
    · exact Or.inr ⟨rfl, p, v, halloc, hsends⟩

theorem sent (hnode : Node s talk (some (state, false)) states received)
    (hat : AtStage s talk state false p) (hsent : sentState talk.mode state ≠ none)
    (hunfinished : ¬ Finishes talk.mode state) {callback : Option ℕ} {frame : SentFrame}
    (houtput : s.outputPacket p callback talk.peer pkt = .ok t)
    (hframe : t.frames.drop s.frames.length = [frame]) :
    Node t talk (some (state, true)) states received ∧ frame.packet = packetBytes pkt := by
  have hsound := (Extends.outputPacket hnode.sound hat.mem houtput).sound
  obtain ⟨htrans, hpacket, packetbuf, rfl⟩ := outputPacket_frame houtput hframe
  refine ⟨?_, hpacket⟩
  have hempty : s.frames = [] := map_eq_nil_iff.mp hat.frames
  obtain ⟨c, hp⟩ := setCallback_trans (s := s) (p := p) callback p
  refine mk_going (p := p) hsound (hnode.small.of_nbrs rfl) hnode.calls hnode.sf hnode.addr ?_
    hnode.states hnode.received
  constructor
  case mem => exact hat.mem
  case peer => exact (congrArg Trans.peerAddr hp).trans hat.peer
  case mode => exact (congrArg Trans.mode hp).trans hat.mode
  case seqno => exact (congrArg Trans.seqno hp).trans hat.seqno
  case inState => exact (congrArg Trans.state hp).trans hat.inState
  case frames =>
    change (s.frames ++ [frame]).map SentFrame.trans = [p]
    rw [hempty, ← htrans]
    rfl
  case sent => exact fun _ ↦ hsent
  case due => exact fun hfinishes ↦ absurd hfinishes hunfinished

theorem prepared (hnode : Node s talk stage states received) {trans : Option ℕ}
    {seqno gen : UInt8} {u : Sixp} (hprepared : Prepared s t args trans seqno gen u) :
    Node u talk stage states received ∧ u.frames = s.frames ∧ u.trans = s.trans ∧
      u.transList = s.transList := by
  obtain ⟨nbrs, packetbuf, rfl⟩ := hprepared.only
  refine ⟨?_, rfl, rfl, rfl⟩
  constructor
  case sound => exact hnode.sound.congr rfl rfl rfl rfl fun q ↦ Iff.rfl
  case small => exact hprepared.small
  case calls => exact hnode.calls
  case sf => exact hnode.sf
  case addr => exact hnode.addr
  case idle => exact hnode.idle
  case going =>
    intro state waiting heq
    obtain ⟨p, hat⟩ := hnode.going state waiting heq
    exact ⟨p, hat.same rfl ⟨(s.trans p).callback, rfl⟩ rfl fun _ ↦ rfl⟩
  case states => exact hnode.states
  case received => exact hnode.received

theorem sendRequest (hnode : Node s talk none states received)
    (hmode : determineTransMode ⟨.request, code, talk.sfid, 0, 0, body⟩ = talk.mode)
    (houtput : s.sixpOutput ⟨.request, code, talk.sfid, body, talk.peer, callback⟩ removable react =
      .ok t) (hframe : t.frames.drop s.frames.length = [frame]) :
    ∃ seqno gen, seqno < 16 ∧ gen < 16 ∧
      Node t { talk with seqno } (some (.init, true)) states received ∧
      frame.packet = packetBytes ⟨.request, code, talk.sfid, seqno, gen, body⟩ := by
  obtain ⟨trans, seqno, gen, u, hprepared⟩ := exists_prepared hnode.small houtput hframe
  have hseqno := hprepared.request rfl
  obtain ⟨hu, hframes, -, -⟩ := hnode.prepared hprepared
  have hidle : Node u { talk with seqno } none states received :=
    ⟨hu.sound, hu.small, hu.calls, hu.sf, hu.addr, hu.idle, fun _ _ hsome ↦ (by simp at hsome),
      hu.states, hu.received⟩
  have htrans : trans = none := by
    have hsome := hprepared.outputTrans
    have hfind : s.sixpTransFind talk.peer = none := (hnode.idle rfl).1
    simp only [Sixp.outputTrans, hfind, isSome_none, Bool.false_eq_true, if_false,
      some.injEq] at hsome
    exact hsome.symm
  rcases hprepared.sends with ⟨p, hp, -⟩ | ⟨-, p, v, halloc, hsend⟩
  · rw [htrans] at hp
    cases hp
  obtain ⟨hv, hat⟩ := hidle.allocated ⟨.request, code, talk.sfid, seqno, gen, body⟩
    hmode rfl halloc
  rw [← hframes, ← (hu.sound.allocated halloc).frames] at hframe
  obtain ⟨ht, hpacket⟩ := hv.sent hat (by simp [sentState]) (by simp [Finishes]) hsend hframe
  exact ⟨seqno, gen, hseqno, hprepared.smallGen, ht, hpacket⟩

theorem sendReply (hnode : Node s talk stage states received) {type : SixpPktType}
    (htype : type = .response ∨ type = .confirmation ∧ talk.mode = .threeStep)
    (houtput : s.sixpOutput ⟨type, code, talk.sfid, body, talk.peer, callback⟩ removable react =
      .ok t) (hframe : t.frames.drop s.frames.length = [frame]) :
    ∃ state waiting gen, stage = some (state, waiting) ∧ Sends talk.mode state type ∧ gen < 16 ∧
      (waiting = false → Node t talk (some (state, true)) states received ∧
        frame.packet = packetBytes ⟨type, code, talk.sfid, talk.seqno, gen, body⟩) := by
  obtain ⟨trans, seqno, gen, u, hprepared⟩ := exists_prepared hnode.small houtput hframe
  have hrequest : type ≠ .request := by
    rcases htype with rfl | ⟨rfl, -⟩ <;> decide
  have hreply := hprepared.reply hrequest
  obtain ⟨hu, hframes, htrans, hlist⟩ := hnode.prepared hprepared
  -- the transaction that `sixp_output` has found
  obtain ⟨p, hfind, rfl, hstate⟩ : ∃ p, s.sixpTransFind talk.peer = some p ∧ trans = some p ∧
      (type = .response ∧ (s.trans p).state = .requestReceived ∨
        type = .confirmation ∧ (s.trans p).state = .responseReceived) := by
    have hsome := hprepared.outputTrans
    rcases htype with rfl | ⟨rfl, -⟩
    · obtain ⟨p, hfilter, rfl⟩ := map_eq_some_iff.mp hsome
      obtain ⟨hfind, hstate⟩ := filter_eq_some_iff.mp hfilter
      exact ⟨p, hfind, rfl, Or.inl ⟨rfl, by simpa using hstate⟩⟩
    · obtain ⟨p, hfilter, rfl⟩ := map_eq_some_iff.mp hsome
      obtain ⟨hfind, hstate⟩ := filter_eq_some_iff.mp hfilter
      exact ⟨p, hfind, rfl, Or.inr ⟨rfl, by simpa using hstate⟩⟩
  rcases stage with _ | ⟨state, waiting⟩
  · rw [(hnode.idle rfl).1] at hfind
    cases hfind
  obtain ⟨q, hat⟩ := hnode.going state waiting rfl
  obtain rfl : q = p := some.inj ((hat.find_eq hnode.sound).symm.trans hfind)
  rw [hat.inState] at hstate
  have hsends : Sends talk.mode state type := by
    rcases hstate with hresponse | ⟨hconfirmation, hreceived⟩
    · exact Or.inl hresponse
    · refine Or.inr ⟨hconfirmation, hreceived, ?_⟩
      rcases htype with rfl | ⟨-, hmode⟩
      · cases hconfirmation
      · exact hmode
  refine ⟨state, waiting, gen, rfl, hsends, hprepared.smallGen, fun hwaiting ↦ ?_⟩
  subst hwaiting
  obtain ⟨r, hr⟩ := hu.going state false rfl
  rcases hprepared.sends with ⟨p, hp, hsend⟩ | ⟨hnone, -⟩
  · obtain rfl := some.inj hp
    have hseqno : seqno = talk.seqno := hreply.trans hat.seqno
    have hsent : sentState talk.mode state ≠ none ∧ ¬ Finishes talk.mode state := by
      rcases hsends with ⟨-, rfl⟩ | ⟨-, rfl, hmode⟩
      · exact ⟨by simp [sentState], by simp [Finishes]⟩
      · exact ⟨by simp [sentState, hmode], by simp [Finishes, hmode]⟩
    have hat' : AtStage u talk state false q := by
      have hsame := (hr.find_eq hu.sound).symm.trans
        (show u.sixpTransFind talk.peer = some q by rw [sixpTransFind, htrans, hlist]; exact hfind)
      exact some.inj hsame ▸ hr
    rw [← hframes] at hframe
    have hboth := hu.sent hat' hsent.1 hsent.2 hsend hframe
    exact hseqno ▸ hboth
  · cases hnone

end Node

end ContikiMaster.Sixtop
