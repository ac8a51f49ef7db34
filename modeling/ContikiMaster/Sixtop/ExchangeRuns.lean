import ContikiMaster.Sixtop.ExchangeNode
import Mathlib.Tactic.IntervalCases

/-!
# The outcome of 6P exchanges

As long as each node handles the transmission callback of its packet before the next
packet of the other node, every order of the other steps ends with the same states on both
nodes. A packet that overtakes a callback finds a state that does not accept it and ends
the transaction.
-/

namespace ContikiMaster.Sixtop

open Lib Sys Net Framer Tsch List Option

/-! ### Where the nodes are -/

/-- The stages of a node that has handled `k` messages, with the states gone through. -/
def stages (mode : TransMode) : Role → ℕ → List (Stage × List TransState)
  | _, 0 => [(none, [])]
  | .initiator, 1 =>
    [(some (.init, true), []), (some (.requestSent, false), [.requestSent])]
  | .initiator, 2 =>
    (some (.responseReceived, false), [.requestSent, .responseReceived]) ::
      if mode = .twoStep then
        [(some (.terminating, false), [.requestSent, .responseReceived, .terminating]),
          (none, [.requestSent, .responseReceived, .terminating])]
      else []
  | .initiator, _ =>
    [(some (.responseReceived, true), [.requestSent, .responseReceived]),
      (some (.confirmationSent, false), [.requestSent, .responseReceived, .confirmationSent]),
      (some (.terminating, false),
        [.requestSent, .responseReceived, .confirmationSent, .terminating]),
      (none, [.requestSent, .responseReceived, .confirmationSent, .terminating])]
  | .responder, 1 => [(some (.requestReceived, false), [.requestReceived])]
  | .responder, 2 =>
    (some (.requestReceived, true), [.requestReceived]) ::
      (some (.responseSent, false), [.requestReceived, .responseSent]) ::
      if mode = .twoStep then
        [(some (.terminating, false), [.requestReceived, .responseSent, .terminating]),
          (none, [.requestReceived, .responseSent, .terminating])]
      else []
  | .responder, _ =>
    [(some (.confirmationReceived, false),
        [.requestReceived, .responseSent, .confirmationReceived]),
      (some (.terminating, false),
        [.requestReceived, .responseSent, .confirmationReceived, .terminating]),
      (none, [.requestReceived, .responseSent, .confirmationReceived, .terminating])]

/-- The modes of transactions. -/
def Known (mode : TransMode) : Prop := mode = .twoStep ∨ mode = .threeStep

theorem known_determineTransMode (pkt : SixpPkt) : Known (Sixp.determineTransMode pkt) := by
  unfold Sixp.determineTransMode
  split
  · exact Or.inr rfl
  · exact Or.inl rfl

variable {mode : TransMode}

theorem stages_closed {role : Role} {k : ℕ} (hmode : Known mode) (hle : k ≤ 3)
    {x y : Stage × List TransState} (hx : x ∈ stages mode role k)
    (hstep : localStep mode x = some y) : y ∈ stages mode role k := by
  have hall : (stages mode role k).all
      (fun x ↦ (localStep mode x).all (· ∈ stages mode role k)) = true := by
    rcases hmode with rfl | rfl <;> interval_cases k <;> cases role <;> decide
  have hclosed := all_eq_true.mp hall x hx
  rw [hstep] at hclosed
  exact of_decide_eq_true hclosed

theorem localStep_append (mode : TransMode) (stage : Stage) (l : List TransState) :
    localStep mode (stage, l) = (localStep mode (stage, [])).map fun y ↦ (y.1, l ++ y.2) := by
  rcases stage with _ | ⟨state, waiting⟩
  · rfl
  · cases waiting
    · simp only [localStep]
      split
      · simp
      · split <;> simp
    · simp [localStep, Option.map_map, Function.comp_def]

/-- The messages for one of the nodes. -/
def receivedBy : Role → List Message → List Message
  | .initiator, _ :: response :: _ => [response]
  | .initiator, _ => []
  | .responder, request :: _ :: confirmation :: _ => [request, confirmation]
  | .responder, request :: _ => [request]
  | .responder, [] => []

namespace Exchange

/-- How many messages a node has sent or handled. -/
def handled (e : Exchange) (role : Role) : ℕ :=
  if e.inFlight.isSome ∧ role = e.receiver then e.messages.length - 1 else e.messages.length

/-- The exchange of two nodes, seen from one of them. -/
def talk (sfid seqno : UInt8) (mode : TransMode) (initiator responder : Sixp) (role : Role) : Talk where
  sfid := sfid
  addr := ((start initiator responder).node role).nodeAddr
  peer := ((start initiator responder).node role.other).nodeAddr
  mode := mode
  seqno := seqno

/-- Where a node of the exchange is. -/
def NodeAt (sfid seqno : UInt8) (initiator responder : Sixp) (e : Exchange) (role : Role)
    (s : Sixp) : Prop :=
  ∃ x ∈ stages e.mode role (e.handled role),
    Node s (talk sfid seqno e.mode initiator responder role) x.1
      (((start initiator responder).node role).states ++ x.2)
      (((start initiator responder).node role).received ++
        receivedBy role (e.messages.take (e.handled role)))

/-- What every step of an exchange keeps. -/
structure Sync (sfid seqno : UInt8) (initiator responder : Sixp) (e : Exchange) : Prop where
  small : seqno < 16
  mode : e.messages ≠ [] → Known e.mode
  length : e.messages.length ≤ 3
  threeStep : e.messages.length = 3 → e.mode = .threeStep
  nodes : ∀ role, NodeAt sfid seqno initiator responder e role (e.node role)
  begun : e.messages = [] → e.inFlight = none
  flight : ∀ packet, e.inFlight = some packet → ∃ messages message gen,
    e.messages = messages ++ [message] ∧ gen < 16 ∧
      acceptsBody message.type message.code message.body.length = true ∧
      packet = packetBytes ⟨message.type, message.code, sfid, seqno, gen, message.body⟩
  types : ∀ k message, e.messages[k]? = some message →
    message.type = if k = 0 then .request else if k = 1 then .response else .confirmation
  request : ∀ message, e.messages[0]? = some message →
    Sixp.determineTransMode ⟨.request, message.code, sfid, 0, 0, message.body⟩ = e.mode
  room : e.handled .responder = 0 → e.responder.transMemb.alloc.isSome

variable {sfid seqno : UInt8} {initiator responder : Sixp} {e e' : Exchange} {role : Role}
  {s t : Sixp}

@[simp]
theorem node_setNode_self : (e.setNode role s).node role = s := by cases role <;> rfl

@[simp]
theorem node_setNode_other : (e.setNode role s).node role.other = e.node role.other := by
  cases role <;> rfl

theorem setNode_eq (e : Exchange) (role : Role) (s : Sixp) :
    (e.setNode role s).messages = e.messages ∧ (e.setNode role s).mode = e.mode ∧
      (e.setNode role s).inFlight = e.inFlight := by
  cases role <;> exact ⟨rfl, rfl, rfl⟩

theorem eq_or_other (role role' : Role) : role' = role ∨ role' = role.other := by
  cases role <;> cases role' <;> simp [Role.other]

theorem handled_congr (hmessages : e'.messages = e.messages) (hflight : e'.inFlight = e.inFlight)
    (role : Role) : e'.handled role = e.handled role := by
  rw [handled, handled, receiver, receiver, hmessages, hflight]

theorem Sync.setNode (hsync : Sync sfid seqno initiator responder e)
    (hnode : NodeAt sfid seqno initiator responder e role t)
    (hroom : role = .responder → e.handled .responder = 0 → t.transMemb.alloc.isSome) :
    Sync sfid seqno initiator responder (e.setNode role t) := by
  obtain ⟨hmessages, hmode, hflight⟩ := setNode_eq e role t
  have hhandled := handled_congr hmessages hflight
  constructor
  case small => exact hsync.small
  case mode => exact hmessages ▸ hmode ▸ hsync.mode
  case length => exact hmessages ▸ hsync.length
  case threeStep => exact hmessages ▸ hmode ▸ hsync.threeStep
  case nodes =>
    intro role'
    unfold NodeAt
    rw [hhandled, hmessages, hmode]
    rcases eq_or_other role role' with rfl | rfl
    · rw [node_setNode_self]
      exact hnode
    · rw [node_setNode_other]
      exact hsync.nodes role.other
  case begun => exact hmessages ▸ hflight ▸ hsync.begun
  case flight => exact hmessages ▸ hflight ▸ hsync.flight
  case types => exact hmessages ▸ hsync.types
  case request => exact hmessages ▸ hmode ▸ hsync.request
  case room =>
    rw [hhandled]
    intro hzero
    cases role with
    | initiator => exact hsync.room hzero
    | responder => exact hroom rfl hzero

theorem handled_le (hlength : e.messages.length ≤ 3) (role : Role) : e.handled role ≤ 3 := by
  unfold handled
  split <;> omega

theorem Sync.peerAddr_eq (hsync : Sync sfid seqno initiator responder e) (role : Role) :
    e.peerAddr role = (talk sfid seqno e.mode initiator responder role).peer := by
  obtain ⟨x, -, hnode⟩ := hsync.nodes role.other
  exact hnode.addr

theorem stages_zero {x : Stage × List TransState} (hx : x ∈ stages mode role 0) :
    x = (none, []) := by
  cases role <;> exact mem_singleton.mp hx

section

variable (hsync : Sync sfid seqno initiator responder e)

include hsync

section

variable {x : Stage × List TransState} (hx : x ∈ stages e.mode role (e.handled role))
  (hstage : x.1 ≠ none)

include hx hstage

theorem Sync.known : Known e.mode := by
  apply hsync.mode
  intro hempty
  have hzero : e.handled role = 0 := by
    unfold handled
    rw [hempty]
    split <;> rfl
  rw [hzero] at hx
  rw [stages_zero hx] at hstage
  exact hstage rfl

theorem Sync.local {y : Stage × List TransState}
    (hy : localStep e.mode (x.1, []) = some y ∨ y = (x.1, []))
    (hnode : Node t (talk sfid seqno e.mode initiator responder role) y.1
      ((((start initiator responder).node role).states ++ x.2) ++ y.2)
      (((start initiator responder).node role).received ++
        receivedBy role (e.messages.take (e.handled role)))) :
    Sync sfid seqno initiator responder (e.setNode role t) := by
  have hhandled : e.handled role ≤ 3 := handled_le hsync.length role
  apply hsync.setNode
  · refine ⟨(y.1, x.2 ++ y.2), ?_, append_assoc .. ▸ hnode⟩
    rcases hy with hy | rfl
    · apply stages_closed (hsync.known hx hstage) hhandled hx
      rw [show x = (x.1, x.2) from rfl, localStep_append, hy]
      rfl
    · rw [append_nil]
      exact hx
  · rintro rfl hzero
    rw [hzero] at hx
    rw [stages_zero hx] at hstage
    exact absurd rfl hstage

end

theorem Sync.report (hnext : (e.node role).next (.macCallback 0 true) = some t) :
    Sync sfid seqno initiator responder (e.setNode role t) := by
  obtain ⟨⟨stage, states⟩, hx, hnode⟩ := hsync.nodes role
  by_cases hwaiting : ∃ state, stage = some (state, true)
  case neg =>
    rw [hnode.no_report (not_exists.mp hwaiting)] at hnext
    cases hnext
  obtain ⟨state, rfl⟩ := hwaiting
  obtain ⟨p, hat⟩ := hnode.going state true rfl
  obtain ⟨newState, hsent⟩ := ne_none_iff_exists'.mp (hat.sent rfl)
  apply hsync.local hx (some_ne_none _) (y := (some (newState, false), [newState]))
  · exact Or.inl (by rw [localStep, show sentState e.mode state = some newState from hsent]; rfl)
  · exact hnode.report hsent hnext

theorem Sync.process
    (hprocess : e.process role = some e') : Sync sfid seqno initiator responder e' := by
  unfold Exchange.process at hprocess
  obtain ⟨p, hfind, hprocess⟩ := bind_eq_some_iff.mp hprocess
  obtain ⟨_, hguard, hprocess⟩ := bind_eq_some_iff.mp hprocess
  obtain ⟨t, hnext, hsome⟩ := bind_eq_some_iff.mp hprocess
  obtain rfl := some.inj hsome
  have htimer : (e.node role).timer p = some .process := by
    by_contra hnot
    simp [hnot] at hguard
  obtain ⟨⟨stage, states⟩, hx, hnode⟩ := hsync.nodes role
  rw [hsync.peerAddr_eq role] at hfind
  cases stage with
  | none =>
    rw [(hnode.idle rfl).1] at hfind
    cases hfind
  | some stage =>
    obtain ⟨state, waiting⟩ := stage
    rcases hnode.process hfind htimer hnext with hsame | ⟨rfl, stage', states', hstep, hnode'⟩
    · apply hsync.local hx (some_ne_none _) (Or.inr rfl)
      rw [append_nil]
      exact hsame
    · exact hsync.local hx (some_ne_none _) (y := (stage', states')) (Or.inl hstep) hnode'

theorem Sync.resume (hnext : (e.node role).next .resume = some t) :
    Sync sfid seqno initiator responder (e.setNode role t) := by
  obtain ⟨⟨stage, states⟩, hx, hnode⟩ := hsync.nodes role
  cases stage with
  | none =>
    have hempty := (hnode.idle rfl).2.2
    simp [Sixp.next, hempty] at hnext
  | some stage =>
    apply hsync.local hx (some_ne_none _) (Or.inr rfl)
    rw [append_nil]
    exact hnode.resume hnext

theorem Sync.nbrs (hmemb : t.transMemb = (e.node role).transMemb)
    (hnode : ∀ {talk stage states received}, Node (e.node role) talk stage states received →
      Node t talk stage states received) :
    Sync sfid seqno initiator responder (e.setNode role t) := by
  obtain ⟨x, hx, hat⟩ := hsync.nodes role
  apply hsync.setNode ⟨x, hx, hnode hat⟩
  rintro rfl hzero
  rw [hmemb]
  exact hsync.room hzero

/-! ### Messages -/

end

variable {states : List TransState} {received : List Message} {code : UInt8} {body : List UInt8}
  {callback : Option ℕ} {removable : Option (Option Linkaddr)} {react : Reaction}

theorem node_idle (seqno' : UInt8) (mode' : TransMode)
    (hnode : Node s (talk sfid seqno mode initiator responder role) none states received) :
    Node s (talk sfid seqno' mode' initiator responder role) none states received where
  sound := hnode.sound
  small := hnode.small
  calls := hnode.calls
  sf := hnode.sf
  addr := hnode.addr
  idle := hnode.idle
  going := fun _ _ hsome ↦ by cases hsome
  states := hnode.states
  received := hnode.received

theorem output_cases (houtput : e.output sfid code body callback removable react = some e') :
    ∃ role type t frame, e.turn = some (role, type) ∧ acceptsBody type code body.length = true ∧
      (e.node role).sixpOutput ⟨type, code, sfid, body, e.peerAddr role, callback⟩ removable react =
        .ok t ∧ t.frames.drop (e.node role).frames.length = [frame] ∧
      e' = { e.setNode role t with
        mode := if type = .request then
          Sixp.determineTransMode ⟨type, code, sfid, 0, 0, body⟩ else e.mode
        messages := e.messages ++ [⟨type, code, body⟩]
        inFlight := some frame.packet } := by
  unfold Exchange.output at houtput
  obtain ⟨⟨role, type⟩, hturn, houtput⟩ := bind_eq_some_iff.mp houtput
  obtain ⟨_, hguard, houtput⟩ := bind_eq_some_iff.mp houtput
  obtain ⟨t, hnext, houtput⟩ := bind_eq_some_iff.mp houtput
  have haccepts : acceptsBody type code body.length = true := by
    by_contra hnot
    simp [hnot] at hguard
  cases hdrop : t.frames.drop (e.node role).frames.length with
  | nil => simp [hdrop] at houtput
  | cons frame rest =>
    cases rest with
    | cons frame' rest => simp [hdrop] at houtput
    | nil =>
      simp only [hdrop, some.injEq] at houtput
      exact ⟨role, type, t, frame, hturn, haccepts, toOption_eq_some hnext, hdrop, houtput.symm⟩

theorem turn_cases {type : SixpPktType} (hturn : e.turn = some (role, type)) :
    e.messages = [] ∧ role = .initiator ∧ type = .request ∨
      (∃ request, e.messages = [request]) ∧ role = .responder ∧ type = .response ∨
      (∃ request response, e.messages = [request, response]) ∧ e.mode = .threeStep ∧
        role = .initiator ∧ type = .confirmation := by
  unfold turn at hturn
  rcases hmessages : e.messages with _ | ⟨request, _ | ⟨response, _ | ⟨confirmation, rest⟩⟩⟩
  all_goals rw [hmessages] at hturn
  · obtain ⟨rfl, rfl⟩ := Prod.mk.inj (some.inj hturn)
    exact Or.inl ⟨rfl, rfl, rfl⟩
  · obtain ⟨rfl, rfl⟩ := Prod.mk.inj (some.inj hturn)
    exact Or.inr (Or.inl ⟨⟨request, rfl⟩, rfl, rfl⟩)
  · obtain ⟨hmode, hpair⟩ := ite_none_right_eq_some.mp hturn
    obtain ⟨rfl, rfl⟩ := Prod.mk.inj (some.inj hpair)
    exact Or.inr (Or.inr ⟨⟨request, response, rfl⟩, hmode, rfl, rfl⟩)
  · cases hturn

def handOver (e : Exchange) (role : Role) (t : Sixp) (mode : TransMode) (message : Message)
    (packet : List UInt8) : Exchange :=
  { e.setNode role t with mode, messages := e.messages ++ [message], inFlight := some packet }

theorem handled_handOver {message : Message} (t : Sixp) (mode : TransMode) (packet : List UInt8)
    (hsync : Sync sfid seqno initiator responder e) (hturn : e.turn = some (role, message.type)) :
    (e.handOver role t mode message packet).handled role = e.messages.length + 1 ∧
      (e.handOver role t mode message packet).handled role.other = e.messages.length ∧
      e.handled role.other = e.messages.length ∧
      receivedBy role (e.messages ++ [message]) = receivedBy role e.messages := by
  rcases turn_cases hturn with ⟨hmessages, rfl, -⟩ | ⟨⟨request, hmessages⟩, rfl, -⟩ |
    ⟨⟨request, response, hmessages⟩, -, rfl, -⟩
  · have hflight := hsync.begun hmessages
    simp [handled, handOver, receiver, hmessages, hflight, Role.other, receivedBy]
  · simp [handled, handOver, receiver, hmessages, Role.other, receivedBy]
  · simp [handled, handOver, receiver, hmessages, Role.other, receivedBy]

theorem Sync.handOver {seqno' gen : UInt8} (message : Message) {x : Stage × List TransState}
    (hsync : Sync sfid seqno initiator responder e) (hturn : e.turn = some (role, message.type))
    (hsmall : seqno' < 16) (hknown : Known mode)
    (hsame : e.messages ≠ [] → mode = e.mode ∧ seqno' = seqno) (hrequest : e.messages = [] →
      Sixp.determineTransMode ⟨.request, message.code, sfid, 0, 0, message.body⟩ = mode)
    (hx : x ∈ stages mode role (e.messages.length + 1))
    (hnode : Node t (talk sfid seqno' mode initiator responder role) x.1
      (((start initiator responder).node role).states ++ x.2)
      (((start initiator responder).node role).received ++ receivedBy role e.messages))
    (hgen : gen < 16)
    (haccepts : acceptsBody message.type message.code message.body.length = true) :
    Sync sfid seqno' initiator responder (e.handOver role t mode message
      (packetBytes ⟨message.type, message.code, sfid, seqno', gen, message.body⟩)) := by
  let packet := packetBytes ⟨message.type, message.code, sfid, seqno', gen, message.body⟩
  obtain ⟨hself, hother, hbefore, hreceived⟩ := handled_handOver t mode packet hsync hturn
  have hturns := turn_cases hturn
  constructor
  case small => exact hsmall
  case mode => exact fun _ ↦ hknown
  case length =>
    change (e.messages ++ [message]).length ≤ 3
    rcases hturns with ⟨hmessages, -⟩ | ⟨⟨_, hmessages⟩, -⟩ | ⟨⟨_, _, hmessages⟩, -⟩ <;>
      simp [hmessages]
  case threeStep =>
    intro hthree
    change (e.messages ++ [message]).length = 3 at hthree
    rcases hturns with ⟨hmessages, -⟩ | ⟨⟨_, hmessages⟩, -⟩ | ⟨⟨_, _, hmessages⟩, hmode, -⟩
    · simp [hmessages] at hthree
    · simp [hmessages] at hthree
    · exact (hsame (by simp [hmessages])).1.trans hmode
  case nodes =>
    intro role'
    rcases eq_or_other role role' with rfl | rfl
    · refine ⟨x, ?_, ?_⟩
      · rw [hself]
        exact hx
      · have htake : (e.messages ++ [message]).take (e.messages.length + 1) =
            e.messages ++ [message] := take_of_length_le (by simp)
        rw [hself]
        change Node ((e.setNode role' t).node role') _ _ _
          (_ ++ receivedBy role' ((e.messages ++ [message]).take _))
        rw [node_setNode_self, htake, hreceived]
        exact hnode
    · obtain ⟨y, hy, hat⟩ := hsync.nodes role.other
      rw [hbefore] at hy hat
      rw [take_length] at hat
      have htake : (e.messages ++ [message]).take e.messages.length = e.messages := take_left
      have hkept : y ∈ stages mode role.other e.messages.length ∧
          Node (e.node role.other) (talk sfid seqno' mode initiator responder role.other) y.1
            (((start initiator responder).node role.other).states ++ y.2)
            (((start initiator responder).node role.other).received ++
              receivedBy role.other e.messages) := by
        by_cases hempty : e.messages = []
        · rw [hempty] at hy hat ⊢
          obtain rfl := stages_zero hy
          exact ⟨by cases role <;> exact mem_singleton_self _, node_idle seqno' mode hat⟩
        · obtain ⟨rfl, rfl⟩ := hsame hempty
          exact ⟨hy, hat⟩
      refine ⟨y, ?_, ?_⟩
      · rw [hother]
        exact hkept.1
      · rw [hother]
        change Node ((e.setNode role t).node role.other) _ _ _
          (_ ++ receivedBy role.other ((e.messages ++ [message]).take _))
        rw [node_setNode_other, htake]
        exact hkept.2
  case begun =>
    intro hnil
    exact absurd hnil (append_ne_nil_of_right_ne_nil _ (cons_ne_nil _ _))
  case flight =>
    intro packet' hpacket
    obtain rfl := some.inj hpacket
    exact ⟨e.messages, message, gen, rfl, hgen, haccepts, rfl⟩
  case types =>
    intro k message' hk
    change (e.messages ++ [message])[k]? = some message' at hk
    rcases Nat.lt_or_ge k e.messages.length with hlt | hge
    · rw [getElem?_append_left hlt] at hk
      exact hsync.types k message' hk
    · rw [getElem?_append_right hge, getElem?_singleton] at hk
      obtain ⟨hlast, hsome⟩ := ite_none_right_eq_some.mp hk
      obtain rfl := some.inj hsome
      have hlength : k = e.messages.length := by omega
      rcases hturns with ⟨hmessages, -, htype⟩ | ⟨⟨_, hmessages⟩, -, htype⟩ |
        ⟨⟨_, _, hmessages⟩, -, -, htype⟩ <;> simp [htype, hlength, hmessages]
  case request =>
    intro message' hk
    change (e.messages ++ [message])[0]? = some message' at hk
    by_cases hempty : e.messages = []
    · rw [hempty] at hk
      obtain rfl := some.inj hk
      exact hrequest hempty
    · rw [getElem?_append_left (length_pos_iff.mpr hempty)] at hk
      exact (hsync.request message' hk).trans (hsame hempty).1.symm
  case room =>
    intro hzero
    cases role with
    | responder =>
      rw [hself] at hzero
      exact absurd hzero (Nat.succ_ne_zero _)
    | initiator =>
      apply hsync.room
      exact hbefore.trans (hother.symm.trans hzero)

theorem Sync.output (hsync : Sync sfid seqno initiator responder e)
    (houtput : e.output sfid code body callback removable react = some e') :
    ∃ seqno', Sync sfid seqno' initiator responder e' := by
  obtain ⟨role, type, t, frame, hturn, haccepts, hsixp, hdrop, rfl⟩ := output_cases houtput
  rw [hsync.peerAddr_eq role] at hsixp
  obtain ⟨⟨stage, states⟩, hx, hnode⟩ := hsync.nodes role
  -- a reply goes out from the stage in which its node has handled everything
  have hreply : ∀ x : Stage × List TransState,
      (type = .response ∨ type = .confirmation ∧ e.mode = .threeStep) → type ≠ .request →
      e.messages ≠ [] → x ∈ stages e.mode role (e.messages.length + 1) →
      (∀ state waiting, stage = some (state, waiting) → Node.Sends e.mode state type →
        waiting = false ∧ e.handled role = e.messages.length ∧ x = (some (state, true), states)) →
      ∃ seqno', Sync sfid seqno' initiator responder { e.setNode role t with
        mode := if type = .request then
          Sixp.determineTransMode ⟨type, code, sfid, 0, 0, body⟩ else e.mode
        messages := e.messages ++ [⟨type, code, body⟩]
        inFlight := some frame.packet } := by
    intro x htype hne hnil hmem hstage
    obtain ⟨state, waiting, gen, hsome, hsends, hgen, hsent⟩ := hnode.sendReply htype hsixp hdrop
    obtain ⟨hwaiting, hhandled, rfl⟩ := hstage state waiting hsome hsends
    obtain ⟨hnode', hpacket⟩ := hsent hwaiting
    rw [hhandled, take_length] at hnode'
    rw [if_neg hne, hpacket]
    exact ⟨seqno, hsync.handOver ⟨type, code, body⟩ hturn hsync.small
      (hsync.mode hnil) (fun _ ↦ ⟨rfl, rfl⟩) (fun hempty ↦ absurd hempty hnil) hmem hnode' hgen
      haccepts⟩
  rcases turn_cases hturn with ⟨hmessages, rfl, rfl⟩ | ⟨⟨request, hmessages⟩, rfl, rfl⟩ |
    ⟨⟨request, response, hmessages⟩, hmode, rfl, rfl⟩
  · have hzero : e.handled .initiator = 0 := by
      simp [handled, hmessages]
    rw [hzero] at hx hnode
    obtain ⟨rfl, rfl⟩ := Prod.mk.inj (stages_zero hx)
    have hidle := node_idle seqno
      (Sixp.determineTransMode ⟨.request, code, sfid, 0, 0, body⟩) hnode
    obtain ⟨seqno', gen, hsmall, hgen, hnode', hpacket⟩ := hidle.sendRequest rfl hsixp hdrop
    rw [if_pos rfl, hpacket]
    refine ⟨seqno', hsync.handOver ⟨.request, code, body⟩
      (x := (some (.init, true), [])) hturn hsmall (known_determineTransMode _)
      (fun hne ↦ absurd hmessages hne) (fun _ ↦ rfl) ?_ ?_ hgen haccepts⟩
    · rw [hmessages]
      exact mem_cons_self
    · rw [hmessages]
      exact hnode'
  · apply hreply (some (.requestReceived, true), [.requestReceived]) (Or.inl rfl) (by decide)
      (by simp [hmessages])
    · rw [hmessages]
      exact mem_cons_self
    · rintro state waiting rfl -
      have hhandled : e.handled .responder = 0 ∨ e.handled .responder = 1 := by
        unfold handled
        split <;> simp [hmessages]
      rcases hhandled with hzero | hone
      · rw [hzero] at hx
        cases (Prod.mk.inj (stages_zero hx)).1
      · rw [hone] at hx
        obtain ⟨hstage, rfl⟩ := Prod.mk.inj (mem_singleton.mp hx)
        obtain ⟨rfl, rfl⟩ := Prod.mk.inj (some.inj hstage)
        exact ⟨rfl, by rw [hone, hmessages]; rfl, rfl⟩
  · apply hreply (some (.responseReceived, true), [.requestSent, .responseReceived])
      (Or.inr ⟨rfl, hmode⟩) (by decide) (by simp [hmessages])
    · rw [hmessages]
      exact mem_cons_self
    · rintro state waiting rfl hsends
      have hstate : state = .responseReceived := by
        rcases hsends with ⟨htype, -⟩ | ⟨-, hstate, -⟩
        · cases htype
        · exact hstate
      have hhandled : e.handled .initiator = 1 ∨ e.handled .initiator = 2 := by
        unfold handled
        split <;> simp [hmessages]
      rcases hhandled with hone | htwo
      · rw [hone] at hx
        simp [stages, hstate] at hx
      · rw [htwo] at hx
        simp only [stages, hmode, reduceCtorEq, if_false, mem_singleton] at hx
        obtain ⟨hstage, rfl⟩ := Prod.mk.inj hx
        obtain ⟨rfl, rfl⟩ := Prod.mk.inj (some.inj hstage)
        exact ⟨rfl, by rw [htwo, hmessages]; rfl, rfl⟩

def handOff (e : Exchange) (t : Sixp) : Exchange :=
  { e.setNode e.receiver t with inFlight := none }

theorem Sync.handOff {packet : List UInt8} {x : Stage × List TransState}
    (hsync : Sync sfid seqno initiator responder e) (hflight : e.inFlight = some packet)
    (hx : x ∈ stages e.mode e.receiver e.messages.length)
    (hnode : Node t (talk sfid seqno e.mode initiator responder e.receiver) x.1
      (((start initiator responder).node e.receiver).states ++ x.2)
      (((start initiator responder).node e.receiver).received ++
        receivedBy e.receiver e.messages)) : Sync sfid seqno initiator responder (e.handOff t) := by
  obtain ⟨hmessages, hmode, -⟩ := setNode_eq e e.receiver t
  have hnil : e.messages ≠ [] := by
    intro hempty
    rw [hsync.begun hempty] at hflight
    cases hflight
  have hhandled : ∀ role, (e.handOff t).handled role = e.messages.length := by
    intro role
    rw [← hmessages]
    exact if_neg fun hboth ↦ absurd hboth.1 (by simp [Exchange.handOff])
  constructor
  case small => exact hsync.small
  case mode => exact hmessages ▸ hmode ▸ hsync.mode
  case length => exact hmessages ▸ hsync.length
  case threeStep => exact hmessages ▸ hmode ▸ hsync.threeStep
  case nodes =>
    intro role
    unfold NodeAt
    rw [hhandled role]
    change ∃ x ∈ stages (e.setNode e.receiver t).mode role e.messages.length,
      Node ((e.setNode e.receiver t).node role) (talk _ _ (e.setNode e.receiver t).mode _ _ _) _ _
        (_ ++ receivedBy role ((e.setNode e.receiver t).messages.take e.messages.length))
    rw [hmessages, hmode, take_length]
    rcases eq_or_other e.receiver role with rfl | rfl
    · rw [node_setNode_self]
      exact ⟨x, hx, hnode⟩
    · rw [node_setNode_other]
      obtain ⟨y, hy, hat⟩ := hsync.nodes e.receiver.other
      have hall : e.handled e.receiver.other = e.messages.length :=
        if_neg fun hboth ↦ absurd hboth.2 (by cases e.receiver <;> decide)
      rw [hall] at hy hat
      rw [take_length] at hat
      exact ⟨y, hy, hat⟩
  case begun => exact fun _ ↦ rfl
  case flight =>
    intro packet hnone
    cases hnone
  case types => exact hmessages ▸ hsync.types
  case request => exact hmessages ▸ hmode ▸ hsync.request
  case room =>
    rw [hhandled]
    intro hzero
    exact absurd (length_eq_zero_iff.mp hzero) hnil

/-- No packet is refused for the generation of the schedules. -/
def Agrees (e : Exchange) : ExchangeLabel → Prop
  | .deliver => (e.inFlight.bind sixpPktParse).all (fun pkt ↦
      (e.node e.receiver).validGeneration pkt (e.peerAddr e.receiver)) = true
  | _ => True

instance (e : Exchange) : (label : ExchangeLabel) → Decidable (e.Agrees label)
  | .deliver => instDecidableEqBool _ _
  | .output .. | .report _ | .process _ | .resume _ | .nbrTables .. | .advanceGen .. =>
    .isTrue trivial

/-- A packet is handled after the transmission callback of the packet before it. -/
def CallbackFirst (e : Exchange) : ExchangeLabel → Prop
  | .deliver => (e.node e.receiver).frames = []
  | _ => True

instance (e : Exchange) : (label : ExchangeLabel) → Decidable (e.CallbackFirst label)
  | .deliver => inferInstanceAs (Decidable (_ = _))
  | .output .. | .report _ | .process _ | .resume _ | .nbrTables .. | .advanceGen .. =>
    .isTrue trivial

theorem Sync.deliver (hsync : Sync sfid seqno initiator responder e)
    (hagrees : e.Agrees .deliver) (hfirst : e.CallbackFirst .deliver)
    (hdeliver : e.deliver = some e') : Sync sfid seqno initiator responder e' := by
  unfold Exchange.deliver at hdeliver
  obtain ⟨packet, hflight, hdeliver⟩ := bind_eq_some_iff.mp hdeliver
  obtain ⟨t, hnext, hsome⟩ := bind_eq_some_iff.mp hdeliver
  obtain rfl := some.inj hsome
  obtain ⟨messages, message, gen, hmessages, hgen, haccepts, hpacket⟩ := hsync.flight packet hflight
  let pkt : SixpPkt := ⟨message.type, message.code, sfid, seqno, gen, message.body⟩
  have hparse : sixpPktParse packet = some pkt := by
    rw [hpacket]
    exact @sixpPktParse_packetBytes pkt hsync.small hgen haccepts
  have hvalid : (e.node e.receiver).validGeneration pkt (e.peerAddr e.receiver) = true := by
    change (e.inFlight.bind sixpPktParse).all _ = true at hagrees
    rw [hflight, bind_some, hparse] at hagrees
    exact hagrees
  rw [hsync.peerAddr_eq e.receiver] at hnext hvalid
  rw [hpacket] at hnext
  have hinput := Node.inputPacket_eq pkt hnext hsync.small hgen haccepts
  obtain ⟨⟨stage, states⟩, hx, hnode⟩ := hsync.nodes e.receiver
  have hhandled : e.handled e.receiver = messages.length := by
    unfold handled
    rw [if_pos ⟨by rw [hflight]; rfl, rfl⟩, hmessages, length_append]
    rfl
  have htake : e.messages.take messages.length = messages := by
    rw [hmessages, take_left]
  rw [hhandled] at hx hnode
  rw [htake] at hnode
  -- a node that waits for a report has a frame
  have hwaits : ∀ state, stage ≠ some (state, true) := by
    rintro state rfl
    obtain ⟨p, hat⟩ := hnode.going state true rfl
    have hframes : (e.node e.receiver).frames.map SentFrame.trans = [p] := hat.frames
    rw [show (e.node e.receiver).frames = [] from hfirst] at hframes
    cases hframes
  have htype := hsync.types messages.length message (by rw [hmessages]; simp)
  have hlength := hsync.length
  rw [hmessages, length_append, length_singleton] at hlength
  rcases messages with _ | ⟨request, _ | ⟨response, _ | ⟨_, rest⟩⟩⟩
  · have hreceiver : e.receiver = .responder := by simp [receiver, hmessages]
    have hroom : e.responder.transMemb.alloc.isSome := hsync.room (hreceiver ▸ hhandled)
    have hmode : Sixp.determineTransMode pkt = e.mode := by
      have hrequest := hsync.request message (by rw [hmessages]; rfl)
      rw [← hrequest, show pkt = ⟨.request, message.code, sfid, seqno, gen, message.body⟩ by
        rw [show SixpPktType.request = message.type from htype.symm]]
      rfl
    apply hsync.handOff hflight (x := (some (.requestReceived, false), [.requestReceived]))
    · rw [hreceiver, hmessages]
      exact mem_cons_self
    · rw [hreceiver] at hx hnode hvalid hinput ⊢
      obtain ⟨rfl, rfl⟩ := Prod.mk.inj (stages_zero hx)
      have hnode' := hnode.receiveRequest pkt hroom rfl htype hmode rfl hvalid hinput
      simpa [receivedBy, pkt, hmessages] using hnode'
  · have hreceiver : e.receiver = .initiator := by simp [receiver, hmessages]
    apply hsync.handOff hflight
      (x := (some (.responseReceived, false), [.requestSent, .responseReceived]))
    · rw [hreceiver, hmessages]
      exact mem_cons_self
    · rw [hreceiver] at hx hnode hvalid hinput ⊢
      rcases mem_cons.mp hx with hpair | hx
      · exact absurd (Prod.mk.inj hpair).1 (hwaits _)
      obtain ⟨rfl, rfl⟩ := Prod.mk.inj (mem_singleton.mp hx)
      have hnode' := hnode.receiveReply pkt rfl rfl (Or.inl ⟨htype, rfl⟩) hvalid hinput
      have hstate : Sixp.receivedState pkt.type = .responseReceived :=
        congrArg Sixp.receivedState htype
      simpa [receivedBy, pkt, hmessages, hstate] using hnode'
  · have hreceiver : e.receiver = .responder := by simp [receiver, hmessages]
    have hmode : e.mode = .threeStep := hsync.threeStep (by rw [hmessages]; rfl)
    apply hsync.handOff hflight (x := (some (.confirmationReceived, false),
      [.requestReceived, .responseSent, .confirmationReceived]))
    · rw [hreceiver, hmessages]
      exact mem_cons_self
    · rw [hreceiver] at hx hnode hvalid hinput ⊢
      rcases mem_cons.mp hx with hpair | hx
      · exact absurd (Prod.mk.inj hpair).1 (hwaits _)
      rw [if_neg (by rw [hmode]; decide)] at hx
      obtain ⟨rfl, rfl⟩ := Prod.mk.inj (mem_singleton.mp hx)
      have hnode' := hnode.receiveReply pkt rfl rfl (Or.inr ⟨htype, rfl, hmode⟩) hvalid
        hinput
      have hstate : Sixp.receivedState pkt.type = .confirmationReceived :=
        congrArg Sixp.receivedState htype
      simpa [receivedBy, pkt, hmessages, hstate] using hnode'
  · simp only [length_cons] at hlength
    omega

/-! ### Runs -/

/-- A node that can take part in an exchange: nothing is going on with its peer, nothing waits, and
its scheduling function handles what it receives. -/
structure ReadyNode (s : Sixp) (sfid : UInt8) (peer : Addr8) : Prop where
  sound : s.Sound
  small : s.SmallNbrs
  find : s.sixpTransFind peer = none
  frames : s.frames = []
  pending : s.pending = []
  sf : ∃ sf, s.sixtopFindSf sfid = some sf ∧ sf.input = true

/-- Two nodes that can begin an exchange; the responder has room for a transaction. -/
structure Ready (sfid : UInt8) (initiator responder : Sixp) : Prop where
  nodes : ReadyNode initiator sfid responder.nodeAddr ∧ ReadyNode responder sfid initiator.nodeAddr
  room : responder.transMemb.alloc.isSome

theorem ReadyNode.node {peer : Addr8} (hready : ReadyNode s sfid peer) :
    Node s ⟨sfid, s.nodeAddr, peer, mode, seqno⟩ none (s.states ++ []) (s.received ++ []) where
  sound := hready.sound
  small := hready.small
  calls := fun p hcall ↦ by
    rw [hready.pending] at hcall
    cases hcall
  sf := hready.sf
  addr := rfl
  idle := fun _ ↦ ⟨hready.find, hready.frames, hready.pending⟩
  going := fun _ _ hsome ↦ by cases hsome
  states := (append_nil _).symm
  received := (append_nil _).symm

theorem sync_start (hready : Ready sfid initiator responder) :
    Sync sfid 0 initiator responder (start initiator responder) := by
  constructor
  case small => decide
  case nodes =>
    intro role
    cases role with
    | initiator => exact ⟨(none, []), mem_singleton_self _, hready.nodes.1.node⟩
    | responder => exact ⟨(none, []), mem_singleton_self _, hready.nodes.2.node⟩
  case mode => exact fun hnil ↦ absurd rfl hnil
  case length => exact Nat.zero_le 3
  case threeStep => exact fun hthree ↦ by cases hthree
  case begun => exact fun _ ↦ rfl
  case flight => exact fun packet hnone ↦ by cases hnone
  case types => exact fun k message hnone ↦ by cases k <;> cases hnone
  case request => exact fun message hnone ↦ by cases hnone
  case room => exact fun _ ↦ hready.room

theorem Sync.next {label : ExchangeLabel} (hsync : Sync sfid seqno initiator responder e)
    (hagrees : e.Agrees label) (hfirst : e.CallbackFirst label)
    (hnext : next sfid e label = some e') : ∃ seqno', Sync sfid seqno' initiator responder e' := by
  cases label with
  | output code body callback removable react => exact hsync.output hnext
  | deliver => exact ⟨seqno, hsync.deliver hagrees hfirst hnext⟩
  | report role =>
    obtain ⟨t, ht, rfl⟩ := map_eq_some_iff.mp hnext
    exact ⟨seqno, hsync.report ht⟩
  | process role => exact ⟨seqno, hsync.process hnext⟩
  | resume role =>
    obtain ⟨t, ht, rfl⟩ := map_eq_some_iff.mp hnext
    exact ⟨seqno, hsync.resume ht⟩
  | nbrTables role policy op =>
    obtain ⟨t, ht, rfl⟩ := map_eq_some_iff.mp hnext
    refine ⟨seqno, hsync.nbrs ?_ fun hnode ↦ hnode.nbrTables ht⟩
    obtain ⟨nbrs, -, rfl⟩ := map_eq_some_iff.mp ht
    rfl
  | advanceGen role item =>
    obtain rfl := some.inj hnext
    refine ⟨seqno, hsync.nbrs ?_ fun hnode ↦ hnode.advanceGen item⟩
    unfold Sixp.sixpNbrAdvanceGen
    simp only
    split
    · rfl
    · split <;> rfl

/-- Every message was sent and handled, every frame reported, and no callback or processing step
is left. -/
structure Complete (e : Exchange) : Prop where
  length : e.messages.length = if e.mode = .threeStep then 3 else 2
  inFlight : e.inFlight = none
  frames : ∀ role, (e.node role).frames = []
  pending : ∀ role, (e.node role).pending = []
  processed : ∀ role, e.process role = none

/-- The states of a transaction from its beginning to its end. -/
def allStates : TransMode → Role → List TransState
  | .threeStep, .initiator => [.requestSent, .responseReceived, .confirmationSent, .terminating]
  | .threeStep, .responder =>
    [.requestReceived, .responseSent, .confirmationReceived, .terminating]
  | _, .initiator => [.requestSent, .responseReceived, .terminating]
  | _, .responder => [.requestReceived, .responseSent, .terminating]

/-- Both nodes have gone through all states and received every message for them, and their
transactions have ended. -/
def Outcome (initiator responder : Sixp) (e : Exchange) : Prop :=
  ∀ role, (e.node role).states =
      ((start initiator responder).node role).states ++ allStates e.mode role ∧
    (e.node role).received =
      ((start initiator responder).node role).received ++ receivedBy role e.messages ∧
    (e.node role).sixpTransFind ((start initiator responder).node role.other).nodeAddr = none

theorem process_ne_none {talk : Talk} {state : TransState} {waiting : Bool}
    (hnode : Node (e.node role) talk (some (state, waiting)) states received)
    (hpeer : e.peerAddr role = talk.peer) (hpending : (e.node role).pending = [])
    (hends : state = .terminating ∨ Sixp.Finishes talk.mode state) : e.process role ≠ none := by
  obtain ⟨p, hat⟩ := hnode.going state waiting rfl
  have htimer : (e.node role).timer p = some .process := by
    rcases hends with hstate | hfinishes
    · exact hnode.sound.terminating p hat.mem (hat.inState.trans hstate)
    · exact hat.due hfinishes
  have hnext : (e.node role).next (.timer p) = some ((e.node role).processTrans p) := by
    simp only [Sixp.next, hpending, if_true, Sixp.fire, htimer]
  unfold Exchange.process
  rw [hpeer, hat.find_eq hnode.sound]
  simp [htimer, hnext]

theorem eq_allStates {x : Stage × List TransState} (hknown : Known mode)
    (hx : x ∈ stages mode role (if mode = .threeStep then 3 else 2))
    (hdone : ∀ state waiting, x.1 = some (state, waiting) →
      waiting = false ∧ ¬ (state = .terminating ∨ Sixp.Finishes mode state)) :
    x = (none, allStates mode role) := by
  have hall : (stages mode role (if mode = .threeStep then 3 else 2)).all (fun x ↦
      decide (x = (none, allStates mode role)) ||
        x.1.any fun stage ↦ stage.2 || decide (stage.1 = .terminating ∨
          Sixp.Finishes mode stage.1)) = true := by
    rcases hknown with rfl | rfl <;> cases role <;> decide
  have hone := all_eq_true.mp hall x hx
  rcases Bool.or_eq_true_iff.mp hone with heq | hany
  · exact of_decide_eq_true heq
  · obtain ⟨⟨state, waiting⟩, hstage, hleft⟩ := (any_eq_true _ _).mp hany
    obtain ⟨rfl, hnot⟩ := hdone state waiting hstage
    exact absurd (of_decide_eq_true hleft) hnot

theorem Sync.outcome (hsync : Sync sfid seqno initiator responder e) (hcomplete : e.Complete) :
    e.Outcome initiator responder := by
  intro role
  have hhandled : e.handled role = e.messages.length := by
    simp [handled, hcomplete.inFlight]
  have hknown : Known e.mode := by
    apply hsync.mode
    rintro hempty
    have hlength := hcomplete.length
    rw [hempty] at hlength
    split at hlength <;> cases hlength
  obtain ⟨x, hx, hnode⟩ := hsync.nodes role
  rw [hhandled] at hx hnode
  rw [take_length] at hnode
  rw [hcomplete.length] at hx
  have hdone : x = (none, allStates e.mode role) := by
    apply eq_allStates hknown hx
    rintro state waiting hstage
    rw [hstage] at hnode
    obtain ⟨p, hat⟩ := hnode.going state waiting rfl
    constructor
    · have hframes := hat.frames
      rw [hcomplete.frames role] at hframes
      cases waiting with
      | false => rfl
      | true => cases hframes
    · intro hends
      exact process_ne_none hnode (hsync.peerAddr_eq role) (hcomplete.pending role) hends
        (hcomplete.processed role)
  rw [hdone] at hnode
  exact ⟨hnode.states, hnode.received, (hnode.idle rfl).1⟩

/-- However the steps are ordered, as long as each node handles the transmission callback of its
packet before the next packet of the other node: in a complete exchange both scheduling functions
receive every packet, and both transactions end through the same states. -/
theorem outcome_of_run {labels : List ExchangeLabel} (hready : Ready sfid initiator responder)
    (hrun : Run (GuardedStepOf (next sfid) fun e label ↦ e.Agrees label ∧ e.CallbackFirst label)
      (start initiator responder) labels e) (hcomplete : e.Complete) :
    e.Outcome initiator responder := by
  have hsync : ∃ seqno, Sync sfid seqno initiator responder e :=
    hrun.invariant (P := fun e ↦ ∃ seqno, Sync sfid seqno initiator responder e)
      (fun _ _ _ ⟨_, hsync⟩ hstep ↦ hsync.next hstep.1.1 hstep.1.2 hstep.2) ⟨0, sync_start hready⟩
  obtain ⟨seqno, hsync⟩ := hsync
  exact hsync.outcome hcomplete

theorem stages_begin {x : Stage × List TransState} {k : ℕ} (hx : x ∈ stages mode role k)
    (hknown : k ≠ 0 → Known mode) (hle : k ≤ 3) (hthree : k = 3 → mode = .threeStep) :
    x.2 <+: allStates mode role := by
  by_cases hzero : k = 0
  · rw [hzero] at hx
    rw [stages_zero hx]
    exact nil_prefix
  · have hall : (stages mode role k).all (fun x ↦ x.2.isPrefixOf (allStates mode role)) = true := by
      rcases hknown hzero with rfl | rfl
      · have hlt : k < 3 := hle.lt_of_ne fun heq ↦ nomatch hthree heq
        interval_cases k <;> cases role <;> decide
      · interval_cases k <;> cases role <;> decide
    exact isPrefixOf_iff_prefix.mp (all_eq_true.mp hall x hx)

/-- At every moment of an exchange, complete or not, a scheduling function has received the messages
its node has handled, in order, and the transaction has gone through the first of its states. -/
theorem inOrder_of_run {labels : List ExchangeLabel} (hready : Ready sfid initiator responder)
    (hrun : Run (GuardedStepOf (next sfid) fun e label ↦ e.Agrees label ∧ e.CallbackFirst label)
      (start initiator responder) labels e) (role : Role) :
    (e.node role).received = ((start initiator responder).node role).received ++
        receivedBy role (e.messages.take (e.handled role)) ∧ ∃ l, l <+: allStates e.mode role ∧
        (e.node role).states = ((start initiator responder).node role).states ++ l := by
  obtain ⟨seqno, hsync⟩ : ∃ seqno, Sync sfid seqno initiator responder e :=
    hrun.invariant (P := fun e ↦ ∃ seqno, Sync sfid seqno initiator responder e)
      (fun _ _ _ ⟨_, hsync⟩ hstep ↦ hsync.next hstep.1.1 hstep.1.2 hstep.2) ⟨0, sync_start hready⟩
  obtain ⟨x, hx, hnode⟩ := hsync.nodes role
  have hle : e.handled role ≤ e.messages.length := by
    unfold handled
    split <;> omega
  refine ⟨hnode.received, x.2, stages_begin hx (fun hne ↦ hsync.mode ?_) ?_ ?_, hnode.states⟩
  · rintro hempty
    exact hne (Nat.le_zero.mp (hle.trans_eq (congrArg length hempty)))
  · exact hle.trans hsync.length
  · exact fun hthree ↦ hsync.threeStep (hsync.length.antisymm (hthree ▸ hle))

def isComplete (e : Exchange) : Bool :=
  decide (e.messages.length = if e.mode = .threeStep then 3 else 2) && e.inFlight.isNone &&
    [Role.initiator, .responder].all fun role ↦ (e.node role).frames.isEmpty &&
      (e.node role).pending.isEmpty && (e.process role).isNone

theorem complete_of_isComplete (hcomplete : e.isComplete = true) : e.Complete := by
  simp only [isComplete, Bool.and_eq_true, decide_eq_true_eq, Option.isNone_iff_eq_none,
    List.all_cons, List.all_nil, List.isEmpty_iff, and_true] at hcomplete
  obtain ⟨⟨hlength, hflight⟩, ⟨⟨hframes, hpending⟩, hprocess⟩, ⟨hframes', hpending'⟩, hprocess'⟩ :=
    hcomplete
  constructor
  case length => exact hlength
  case inFlight => exact hflight
  all_goals
    intro role
    cases role <;> assumption

/-- A node with the address `addr`, one scheduling function and room for one transaction. -/
def nodeOf (addr : UInt8) : Sixp := Sixp.init (fun _ ↦ addr) true [⟨0xf0, true, true⟩] 1 4

theorem ready_nodes : Ready 0xf0 (nodeOf 1) (nodeOf 2) where
  nodes := by
    constructor <;>
      exact ⟨Sixp.sound_init .., Sixp.small_init _ _ _ _ _, rfl, rfl, rfl,
        ⟨0xf0, true, true⟩, rfl, rfl⟩
  room := by decide

def say (code : UInt8) (body : List UInt8) : ExchangeLabel :=
  .output code body none none fun _ _ ↦ []

def reported (role : Role) : List ExchangeLabel := [.report role, .resume role]

/-- A request for new cells with an empty list, in three steps. -/
def addInThreeSteps : List ExchangeLabel :=
  [say cmdAdd [0, 0, 0, 1]] ++ reported .initiator ++ [.deliver, say rcSuccess []] ++
    reported .responder ++ [.deliver, say rcSuccess []] ++ reported .initiator ++ [.deliver] ++
    [.process .initiator, .process .initiator, .process .responder, .process .responder]

/-- A request to clear the schedule, in two steps, whose response overtakes its callback. -/
def clearOvertaken : List ExchangeLabel :=
  [say cmdClear [0, 0], .deliver, say rcSuccess [], .deliver] ++ reported .responder ++
    [.report .initiator, .process .initiator, .process .responder, .process .responder]

theorem outcome_addInThreeSteps :
    ∃ e : Exchange, e.Outcome (nodeOf 1) (nodeOf 2) ∧ e.messages.length = 3 := by
  obtain ⟨e, hrun, hcomplete, hlength⟩ : ∃ e, Run (GuardedStepOf (next 0xf0) fun e label ↦
      e.Agrees label ∧ e.CallbackFirst label) (start (nodeOf 1) (nodeOf 2)) addInThreeSteps e ∧
        e.isComplete ∧ e.messages.length = 3 := exists_guardedRun (by decide +kernel)
  exact ⟨e, outcome_of_run ready_nodes hrun (complete_of_isComplete hcomplete), hlength⟩

theorem inOrder_addInThreeSteps : ∃ e : Exchange, e.messages.length = 2 ∧
    e.responder.received = (nodeOf 2).received ++ receivedBy .responder (e.messages.take 2) := by
  obtain ⟨e, hrun, hlength, hhandled⟩ : ∃ e, Run (GuardedStepOf (next 0xf0) fun e label ↦
      e.Agrees label ∧ e.CallbackFirst label) (start (nodeOf 1) (nodeOf 2))
        (addInThreeSteps.take 5) e ∧ e.messages.length = 2 ∧ e.handled .responder = 2 :=
    exists_guardedRun (by decide +kernel)
  have hreceived := (inOrder_of_run ready_nodes hrun .responder).1
  rw [hhandled] at hreceived
  exact ⟨e, hlength, hreceived⟩

/-- A response that is handled before the callback of its request finds the initial state: the
transaction ends, and the scheduling function does not receive the response. -/
theorem not_outcome :
    ¬ ∀ labels e, Run (GuardedStepOf (next 0xf0) Agrees) (start (nodeOf 1) (nodeOf 2)) labels e →
      e.Complete → e.Outcome (nodeOf 1) (nodeOf 2) := by
  intro hall
  obtain ⟨e, hrun, hcomplete, hstates, hbase, hmode⟩ : ∃ e, Run (GuardedStepOf (next 0xf0) Agrees)
      (start (nodeOf 1) (nodeOf 2)) clearOvertaken e ∧ e.isComplete ∧
        e.initiator.states = [.terminating] ∧ (nodeOf 1).states = [] ∧ e.mode = .twoStep :=
    exists_guardedRun (by decide +kernel)
  have houtcome := hall _ e hrun (complete_of_isComplete hcomplete) .initiator
  have hnodes : e.initiator.states = (nodeOf 1).states ++ allStates e.mode .initiator := houtcome.1
  rw [hstates, hbase, hmode] at hnodes
  exact absurd hnodes (by decide)

end Exchange

end ContikiMaster.Sixtop
