import ContikiMaster.Sys.ProcessBodies
import ContikiMaster.Sys.ProcessDeliveries
import Mathlib.Data.Nat.ModEq

/-!
# Runs of the process scheduler

In every run in which no step does what the scheduler cannot bear, no event is lost or
handed over twice, every request for a poll is answered by the next call of `process_run`,
and no body is entered while it is active.
-/

namespace ContikiMaster.Sys

open Lib Function List Option

variable {P : Type} {s t : Kernel P} {p q : P} {numEvents : ℕ} {ev : UInt8}
  {data : ProcessData P} {e : EventData P}

def Kernel.queue (numEvents : ℕ) (s : Kernel P) : List (EventData P) :=
  (range s.nevents).map fun i ↦ s.events ((s.fevent + i) % numEvents)

/-- No event is lost or handed over twice, `process_post` fails exactly when the queue is full,
every request before the last call of `process_run` is answered, and no body is entered while it is
active. -/
structure Lossless (numEvents : ℕ) (s : Kernel P) : Prop where
  inOrder : s.history.deliveries.map Delivery.event ++ s.queue numEvents = s.history.accepted
  sequential : ∀ d ∈ s.history.deliveries.dropLast, d.closed = true
  once : ∀ d ∈ s.history.deliveries, d.handed.Nodup ∧ ∀ p ∈ d.handed, d.running p = true
  receiver : ∀ d ∈ s.history.deliveries, ∀ p, d.event.receiver = some p →
    d.handed = if d.running p = true then [p] else []
  everyone : ∀ d ∈ s.history.deliveries, d.event.receiver = none → d.closed = true →
    ∀ p, d.running p = true → p ∈ d.handed ∨ p ∈ d.exited
  posts : ∀ post ∈ s.history.posts, post.refused = true ↔ post.waiting = numEvents
  polled : ∀ r ∈ s.history.requests.take s.history.settled, r.served = true ∨ r.exited = true
  entered : (bodies s.stack).Nodup

/-- The processes at which walks for events or polls are. -/
def walkers (stack : List (Frame P)) : List P :=
  (eventWalks stack).filterMap EventWalk.q ++ (pollWalks stack).filterMap PollWalk.q

theorem length_queue : (s.queue numEvents).length = s.nevents := by
  simp [Kernel.queue]

theorem queue_append (hfull : s.nevents < numEvents) :
    ({ s with
      events := update s.events ((s.fevent + s.nevents) % numEvents) e
      nevents := s.nevents + 1 } : Kernel P).queue numEvents = s.queue numEvents ++ [e] := by
  unfold Kernel.queue
  dsimp only
  rw [range_succ, map_append, map_singleton, update_self]
  congr 1
  refine map_congr_left fun i hi ↦ update_of_ne ?_ _ _
  have hlt := mem_range.mp hi
  intro heq
  have hmod : (s.fevent + i) ≡ (s.fevent + s.nevents) [MOD numEvents] := heq
  have hsame := Nat.ModEq.add_left_cancel' s.fevent hmod
  have := Nat.ModEq.eq_of_lt_of_lt hsame (by omega) hfull
  omega

theorem queue_dequeue (hfevent : s.fevent < numEvents) (hsome : s.nevents ≠ 0) :
    s.queue numEvents = s.firstEvent :: (s.dequeue numEvents).queue numEvents := by
  obtain ⟨n, hn⟩ := Nat.exists_eq_succ_of_ne_zero hsome
  unfold Kernel.queue Kernel.firstEvent Kernel.dequeue
  dsimp only
  rw [hn, List.range_succ_eq_map, List.map_cons, List.map_map, Nat.add_zero,
    Nat.mod_eq_of_lt hfevent]
  congr 1
  refine List.map_congr_left fun i _ ↦ ?_
  change s.events ((s.fevent + (i + 1)) % numEvents) = s.events (((s.fevent + 1) % numEvents + i) % numEvents)
  rw [Nat.mod_add_mod]
  congr 2
  omega

variable [DecidableEq P]

/-- The steps that the scheduler can bear: an event is written to the slot behind the last one;
`process_run` is not called by a body; a process that is started is not active, not about to exit
and not in the rest of a walk; a process that exits is not active, unless it is the caller; a body
that goes on waiting belongs to a process that has not exited; a process that is polled is still
running, and so is one that gets `PROCESS_EVENT_INIT` from the queue. -/
def Orderly (numEvents : ℕ) (s : Kernel P) : Act P → Prop
  | .call (.post _) => s.nevents = numEvents ∨
      (s.fevent + s.nevents) % 256 % numEvents = (s.fevent + s.nevents) % numEvents
  | .call .run => s.stack = []
  | .call (.start p _) => p ∈ s.processList ∨
      p ∉ bodies s.stack ∧ p ∉ exits s.stack ∧ ∀ q ∈ walkers s.stack, ¬ Follows s.next q p
  | .call (.exit p) => p ∈ bodies s.stack → s.current = some p ∨ s.state p = .none
  | .call _ => True
  | .returns exits =>
    match s.stack with
    | .thread p ev _ :: _ => exits = true ∨ ev = processEventExit ∨ s.state p ≠ .none
    | _ => True
  | .goesOn =>
    match s.stack with
    | .pollWalk (some q) _ :: _ => s.needspoll q = true → s.state q = .running
    | .doEvent :: _ => s.nevents ≠ 0 → s.firstEvent.ev = processEventInit →
        ∀ p, s.firstEvent.receiver = some p → s.state p ≠ .none
    | _ => True

theorem next_of_mem (hmem : p ∈ s.processList) : s.next p = successor p s.processList := if_pos hmem

theorem rest_processList (hnodup : s.processList.Nodup) :
    Rest s.next s.processList.head? s.processList :=
  rest_successor hnodup fun _ hi ↦ next_of_mem hi

theorem next_unlink_self (hnodup : s.processList.Nodup) : (s.unlink p).next p = s.next p := by
  unfold Kernel.unlink
  split
  · unfold Kernel.next
    dsimp only
    rw [if_neg (fun hmem ↦ (List.Nodup.mem_erase_iff hnodup).mp hmem |>.1 rfl), update_self]
  · rfl

theorem next_unlink (hnodup : s.processList.Nodup) (p i : P) :
    (s.unlink p).next i = s.next i ∨ s.next i = some p ∧ (s.unlink p).next i = s.next p := by
  by_cases hip : i = p
  · exact Or.inl (by rw [hip, next_unlink_self hnodup])
  unfold Kernel.unlink
  split
  · rename_i hp
    by_cases hi : i ∈ s.processList
    · have hnext : s.next i = successor i s.processList := next_of_mem hi
      rw [next_of_mem (by exact (mem_erase_of_ne hip).mpr hi), hnext, next_of_mem hp]
      change successor i (s.processList.erase p) = _ ∨ _ ∧ successor i (s.processList.erase p) = _
      rw [successor_erase hnodup hip]
      by_cases hto : successor i s.processList = some p
      · exact Or.inr ⟨hto, if_pos hto⟩
      · exact Or.inl (if_neg hto)
    · left
      unfold Kernel.next
      dsimp only
      rw [if_neg (fun hmem ↦ hi (mem_of_mem_erase hmem)), if_neg hi, update_of_ne hip]
  · exact Or.inl rfl

/-! ### The invariant -/

namespace Frame

/-- A frame of a call that the main loop or a body makes. -/
def isLocal : Frame P → Bool
  | thread .. | exitWalk .. | exitNext .. | exitEnd .. | postSynchEnd .. => true
  | _ => false

end Frame

/-- The stack while `process_run` is not called by a body. -/
inductive Shape : List (Frame P) → Prop
  | idle : Shape []
  | ending (k : ℕ) : Shape [.runEnd k]
  | choosing (k : ℕ) : Shape [.doEvent, .runEnd k]
  | polling {w : PollWalk P} (frame : Frame P) (hpoll : frame.pollAt = some w) (k : ℕ) :
      Shape [frame, .doEvent, .runEnd k]
  | walking {w : EventWalk P} (frame : Frame P) (hevent : frame.eventAt = some w) (k : ℕ) :
      Shape [frame, .runEnd k]
  | pollingWithin {w : PollWalk P} (frame : Frame P) (hpoll : frame.pollAt = some w) (i : ℕ)
      (e : EventData P) (q : P) (k : ℕ) : Shape [frame, .eventCall i e q, .runEnd k]
  | nested {stack : List (Frame P)} (frame : Frame P) (hlocal : frame.isLocal = true)
      (hstack : Shape stack) : Shape (frame :: stack)
  | last {stack : List (Frame P)} (p : P) (old : Option P) (hstack : Shape stack) :
      Shape (.lastThread p :: .exitEnd p old :: stack)

namespace Frame

variable {frame : Frame P} {poll : PollWalk P} {event : EventWalk P}

omit [DecidableEq P]

theorem not_isLocal_of_pollAt (hpoll : frame.pollAt = some poll) : frame.isLocal = false := by
  cases frame <;> first | rfl | cases hpoll

theorem not_isLocal_of_eventAt (hevent : frame.eventAt = some event) : frame.isLocal = false := by
  cases frame <;> first | rfl | cases hevent

theorem not_pollAt_of_eventAt (hevent : frame.eventAt = some event) : frame.pollAt = none := by
  cases frame <;> first | rfl | cases hevent

end Frame

namespace Shape

variable {frame : Frame P} {stack : List (Frame P)} {poll : PollWalk P} {event : EventWalk P}

omit [DecidableEq P]

theorem tail (h : Shape (frame :: stack)) (hlocal : frame.isLocal = true) : Shape stack := by
  cases h with
  | ending k => cases hlocal
  | choosing k => cases hlocal
  | polling _ hw k =>
    rw [Frame.not_isLocal_of_pollAt hw] at hlocal
    cases hlocal
  | walking _ hw k =>
    rw [Frame.not_isLocal_of_eventAt hw] at hlocal
    cases hlocal
  | pollingWithin _ hw i e q k =>
    rw [Frame.not_isLocal_of_pollAt hw] at hlocal
    cases hlocal
  | nested _ _ hstack => exact hstack
  | last p old hstack => cases hlocal

theorem below_lastThread (h : Shape (.lastThread p :: stack)) :
    ∃ old rest, stack = .exitEnd p old :: rest ∧ Shape rest := by
  cases h with
  | polling _ hw k => cases hw
  | walking _ hw k => cases hw
  | pollingWithin _ hw i e q k => cases hw
  | nested _ hlocal hstack => cases hlocal
  | last p old hstack => exact ⟨old, _, rfl, hstack⟩

theorem below_poll (h : Shape (frame :: stack)) (hpoll : frame.pollAt = some poll) :
    (∃ k, stack = [.doEvent, .runEnd k]) ∨ ∃ i e q k, stack = [.eventCall i e q, .runEnd k] := by
  cases h with
  | ending k => cases hpoll
  | choosing k => cases hpoll
  | polling _ hw k => exact Or.inl ⟨k, rfl⟩
  | walking _ hw k =>
    rw [Frame.not_pollAt_of_eventAt hw] at hpoll
    cases hpoll
  | pollingWithin _ hw i e q k => exact Or.inr ⟨i, e, q, k, rfl⟩
  | nested _ hlocal hstack =>
    rw [Frame.not_isLocal_of_pollAt hpoll] at hlocal
    cases hlocal
  | last p old hstack => cases hpoll

theorem below_event (h : Shape (frame :: stack)) (hevent : frame.eventAt = some event) :
    ∃ k, stack = [.runEnd k] := by
  cases h with
  | ending k => cases hevent
  | choosing k => cases hevent
  | polling _ hw k =>
    rw [Frame.not_pollAt_of_eventAt hevent] at hw
    cases hw
  | walking _ hw k => exact ⟨k, rfl⟩
  | pollingWithin _ hw i e q k =>
    rw [Frame.not_pollAt_of_eventAt hevent] at hw
    cases hw
  | nested _ hlocal hstack =>
    rw [Frame.not_isLocal_of_eventAt hevent] at hlocal
    cases hlocal
  | last p old hstack => cases hevent

theorem below_doEvent (h : Shape (.doEvent :: stack)) : ∃ k, stack = [.runEnd k] := by
  cases h with
  | choosing k => exact ⟨k, rfl⟩
  | polling _ hw k => cases hw
  | walking _ hw k => cases hw
  | pollingWithin _ hw i e q k => cases hw
  | nested _ hlocal hstack => cases hlocal

theorem below_runEnd {k : ℕ} (h : Shape (.runEnd k :: stack)) : stack = [] := by
  cases h with
  | ending k => rfl
  | polling _ hw k => cases hw
  | walking _ hw k => cases hw
  | pollingWithin _ hw i e q k => cases hw
  | nested _ hlocal hstack => cases hlocal

end Shape

/-- What holds in every state that such steps lead to. -/
structure Sound (numEvents : ℕ) (s : Kernel P) : Prop where
  inOrder : s.history.deliveries.map Delivery.event ++ s.queue numEvents = s.history.accepted
  ring : s.fevent < numEvents ∧ s.nevents ≤ numEvents
  posts : ∀ post ∈ s.history.posts, post.refused = true ↔ post.waiting = numEvents
  shape : Shape s.stack
  bodies : Bodies s.processList s.state (bodies s.stack) (exits s.stack) (dooms s.stack)
  handing : Handing s.history.deliveries s.state s.next (eventWalks s.stack)
  polling : Polling s.history.requests s.needspoll s.state s.pollRequested s.next
    (pollWalks s.stack) (runs s.stack) s.history.settled

namespace Sound

theorem init (hnum : 0 < numEvents) : Sound numEvents (Kernel.init : Kernel P) where
  inOrder := rfl
  ring := ⟨hnum, Nat.zero_le _⟩
  posts post hpost := by cases hpost
  shape := .idle
  bodies := Bodies.init
  handing := Handing.init _ _
  polling := Polling.init _ _

section

variable (h : Sound numEvents s)

include h

theorem lossless : Lossless numEvents s where
  inOrder := h.inOrder
  sequential d hd := by
    obtain ⟨i, hi, rfl⟩ := mem_iff_getElem.mp hd
    rw [getElem_dropLast]
    rw [length_dropLast] at hi
    by_contra hopen
    have hlast := (h.handing.opened i _ (getElem?_eq_getElem (by omega))
      (by simpa using hopen)).1
    omega
  once := h.handing.once
  receiver := h.handing.receiver
  everyone := h.handing.everyone
  posts := h.posts
  polled r hr := by
    obtain ⟨i, hi, rfl⟩ := mem_iff_getElem.mp hr
    rw [length_take] at hi
    rw [getElem_take]
    by_contra hopen
    push Not at hopen
    exact h.polling.settled.2 i _ (by omega) (getElem?_eq_getElem (by omega))
      ⟨by simpa using hopen.1, by simpa using hopen.2⟩
  entered := h.bodies.entered

theorem callProcess (p : P) (ev : UInt8) (data : ProcessData P) :
    Sound numEvents (s.callProcess p ev data) := by
  unfold Kernel.callProcess
  split
  · rename_i hrunning
    have hruns : ∀ q, s.state q ≠ .none → update s.state p .called q ≠ .none := by
      intro q hq
      by_cases hqp : q = p
      · rw [hqp, update_self]
        decide
      · rw [update_of_ne hqp]
        exact hq
    have hdeliveries : (if ev = processEventPoll then s.history.served p
        else s.history).deliveries = s.history.deliveries := by
      split <;> rfl
    have hpolling := h.polling.state_congr hruns
    constructor
    · change (if ev = processEventPoll then s.history.served p else s.history).deliveries.map _ ++
        _ = (if ev = processEventPoll then s.history.served p else s.history).accepted
      rw [hdeliveries]
      split <;> exact h.inOrder
    · exact h.ring
    · change ∀ post ∈ (if ev = processEventPoll then s.history.served p else s.history).posts, _
      split <;> exact h.posts
    · exact .nested _ rfl h.shape
    · exact h.bodies.enter (fun _ ↦ mem_exits_of_mem_dooms) hrunning
    · change Handing (if ev = processEventPoll then s.history.served p else s.history).deliveries
        _ _ _
      rw [hdeliveries]
      exact h.handing.state_congr hruns
    · dsimp only
      split
      · refine hpolling.answer (fun r hopen ↦ ?_) (fun r _ hr ↦ hr) fun r _ hflag ↦ hflag
        split
        · rename_i hrp
          rw [if_pos hrp] at hopen
          cases hopen.1
        · rfl
      · exact hpolling
  · exact h

theorem unlink (hgone : s.state p = .none) : Sound numEvents (s.unlink p) := by
  have hself := next_unlink_self (p := p) h.bodies.nodup
  have hothers := next_unlink h.bodies.nodup p
  by_cases hp : p ∈ s.processList
  · have heq : s.unlink p = { s with
        stale := update s.stale p (s.next p), processList := s.processList.erase p } :=
      if_pos hp
    rw [heq] at hself hothers ⊢
    exact { h with
      bodies := h.bodies.unlink hgone
      handing := h.handing.bypass hgone hself hothers
      polling := h.polling.bypass hgone hself hothers }
  · have heq : s.unlink p = s := if_neg hp
    rw [heq]
    exact h

theorem exitProcess {fromprocess : Option P}
    (hactive : s.state p ≠ .none → some p ≠ fromprocess → p ∉ Sys.bodies s.stack) :
    Sound numEvents (s.exitProcess p fromprocess) := by
  unfold Kernel.exitProcess
  split
  · exact h
  split
  · rename_i hruns
    have hother : ∀ q, q ≠ p → s.state q ≠ .none → update s.state p .none q ≠ .none := by
      intro q hqp hq
      rw [update_of_ne hqp]
      exact hq
    constructor
    · have hevents : ((s.history.exited p).deliveries.map Delivery.event) =
          s.history.deliveries.map Delivery.event := by
        change (s.history.deliveries.map _).map _ = _
        rw [List.map_map]
        refine map_congr_left fun d _ ↦ ?_
        change Delivery.event (if d.closed then d else { d with exited := d.exited ++ [p] }) = d.event
        split <;> rfl
      change (s.history.exited p).deliveries.map _ ++ _ = _
      rw [hevents]
      exact h.inOrder
    · exact h.ring
    · exact h.posts
    · exact .nested _ rfl h.shape
    · refine h.bodies.exit hruns fun q hq ↦ ?_
      change q ∈ (Frame.exitWalk p fromprocess s.current s.processList.head? :: s.stack).filterMap
        Frame.doomed at hq
      rw [filterMap_cons] at hq
      by_cases hfrom : some p ≠ fromprocess
      · simp only [Frame.doomed, if_pos hfrom, mem_cons] at hq
        rcases hq with rfl | hq
        · exact Or.inr (hactive hruns hfrom)
        · exact Or.inl hq
      · simp only [Frame.doomed, if_neg hfrom] at hq
        exact Or.inl hq
    · exact h.handing.exit p hother
    · refine h.polling.answer (fun r hopen ↦ ?_) (fun r hopen hr ↦ ?_) fun r _ hflag ↦ hflag
      · split
        · rename_i hrp
          rw [if_pos hrp] at hopen
          cases hopen.2
        · rfl
      · refine hother r.process (fun hrp ↦ ?_) hr
        rw [if_pos hrp] at hopen
        cases hopen.2
  · rename_i hgone
    exact h.unlink (not_not.mp hgone)

/-! ### Calls -/

theorem processPost (hslot : s.nevents = numEvents ∨
    (s.fevent + s.nevents) % 256 % numEvents = (s.fevent + s.nevents) % numEvents) :
    Sound numEvents (s.processPost numEvents e) := by
  have hwaiting : s.waiting = s.nevents := by
    unfold Kernel.waiting
    rw [← h.inOrder, length_append, length_map, length_queue]
    omega
  unfold Kernel.processPost
  split
  · rename_i hfull
    refine { h with posts := fun post hpost ↦ ?_ }
    rcases mem_append.mp hpost with hold | hnew
    · exact h.posts post hold
    · rw [mem_singleton.mp hnew, hwaiting]
      exact iff_of_true rfl hfull
  · rename_i hfree
    have hlt : s.nevents < numEvents := Nat.lt_of_le_of_ne h.ring.2 hfree
    refine { h with inOrder := ?_, ring := ⟨h.ring.1, hlt⟩, posts := fun post hpost ↦ ?_ }
    · rw [hslot.resolve_left hfree]
      change s.history.deliveries.map _ ++ Kernel.queue numEvents { s with
        events := update s.events ((s.fevent + s.nevents) % numEvents) e
        nevents := s.nevents + 1 } = s.history.accepted ++ [e]
      rw [queue_append hlt, ← append_assoc, h.inOrder]
    · rcases mem_append.mp hpost with hold | hnew
      · exact h.posts post hold
      · rw [mem_singleton.mp hnew, hwaiting]
        exact iff_of_false Bool.false_ne_true hfree

theorem processPostSynch (p : P) (ev : UInt8) (data : ProcessData P) :
    Sound numEvents (s.processPostSynch p ev data) := by
  refine callProcess ?_ p ev data
  exact { h with shape := .nested _ rfl h.shape }

theorem processPoll (p : Option P) : Sound numEvents (s.processPoll p) := by
  cases p with
  | none => exact h
  | some p =>
    by_cases hruns : s.state p ≠ .none
    · have heq : s.processPoll (some p) = { s with
          needspoll := update s.needspoll p true
          pollRequested := true
          history := { s.history with requests := s.history.requests ++ [⟨p, false, false⟩] } } :=
        if_pos hruns
      rw [heq]
      exact { h with polling := h.polling.ask hruns }
    · have heq : s.processPoll (some p) = s := if_neg hruns
      rw [heq]
      exact h

theorem processStart (p : P) (data : ProcessData P)
    (hfree : p ∈ s.processList ∨ p ∉ Sys.bodies s.stack ∧ p ∉ exits s.stack ∧
      ∀ q ∈ walkers s.stack, ¬ Follows s.next q p) : Sound numEvents (s.processStart p data) := by
  unfold Kernel.processStart
  split
  · exact h
  rename_i hlist
  obtain ⟨hactive, hexits, hwalkers⟩ := hfree.resolve_left hlist
  refine processPostSynch ?_ p _ data
  have hruns : ∀ q, s.state q ≠ .none → update s.state p .running q ≠ .none := by
    intro q hq
    by_cases hqp : q = p
    · rw [hqp, update_self]
      decide
    · rw [update_of_ne hqp]
      exact hq
  have hnext : ∀ i, i ≠ p →
      ({ s.setState p .running with processList := p :: s.processList } : Kernel P).next i =
        s.next i := by
    intro i hip
    unfold Kernel.next
    dsimp only
    rw [successor_cons_of_ne (Ne.symm hip)]
    by_cases hi : i ∈ s.processList
    · rw [if_pos hi, if_pos (mem_cons_of_mem p hi)]
    · rw [if_neg hi, if_neg (not_mem_cons_of_ne_of_not_mem hip hi)]
      rfl
  have hrest : ∀ q : Option P, (∀ i, q = some i → i ∈ walkers s.stack) → ∀ nodes,
      Rest s.next q nodes →
        Rest ({ s.setState p .running with processList := p :: s.processList } : Kernel P).next q
          nodes := by
    intro q hq nodes hwalk
    refine hwalk.congr fun i hi ↦ hnext i ?_
    rintro rfl
    cases q with
    | none =>
      rw [head?_eq_none_iff.mp hwalk.head.symm] at hi
      cases hi
    | some j => exact hwalkers j (hq j rfl) (hwalk.follows hi)
  refine { h with
    bodies := h.bodies.start hlist hactive hexits
    handing := (h.handing.state_congr hruns).next_congr fun w hw ↦ hrest w.q fun i hi ↦ ?_
    polling := (h.polling.state_congr hruns).next_congr fun w hw ↦ hrest w.q fun i hi ↦ ?_ }
  · exact mem_append_left _ (mem_filterMap.mpr ⟨w, hw, hi⟩)
  · exact mem_append_right _ (mem_filterMap.mpr ⟨w, hw, hi⟩)

theorem not_called (hidle : Sys.bodies s.stack = []) (p : P) : s.state p ≠ .called := by
  intro hcalled
  have hactive := h.bodies.called p hcalled
  rw [hidle] at hactive
  cases hactive

theorem doPoll (hpolls : pollWalks s.stack = [])
    (hshape : ∀ (frame : Frame P) (w : PollWalk P), frame.pollAt = some w →
      Shape (frame :: s.stack)) : Sound numEvents s.doPoll := by
  have hpolling := h.polling
  rw [hpolls] at hpolling
  have hwalks : pollWalks s.doPoll.stack =
      [⟨s.history.requests.length, s.processList.head?, none⟩] := by
    change _ :: pollWalks s.stack = _
    rw [hpolls]
  refine { h with shape := hshape _ _ rfl, polling := ?_ }
  rw [hwalks]
  exact hpolling.doPoll h.bodies.listed h.bodies.nodup (rest_processList h.bodies.nodup)

theorem processRun (hstack : s.stack = []) : Sound numEvents s.processRun := by
  obtain ⟨hinOrder, hring, hposts, hshape, hbodies, hhanding, hpolling⟩ := h
  rw [hstack] at hbodies hhanding hpolling
  unfold Kernel.processRun
  dsimp only
  rw [hstack]
  split
  · refine ⟨hinOrder, hring, hposts, .polling _ rfl _, hbodies, hhanding, ?_⟩
    refine (hpolling.doPoll hbodies.listed hbodies.nodup
      (rest_processList hbodies.nodup)).beginRun fun i r hr _ ↦ ?_
    exact ⟨_, List.mem_singleton_self _, (List.getElem?_eq_some_iff.mp hr).1⟩
  · rename_i hnone
    refine ⟨hinOrder, hring, hposts, .choosing _, hbodies, hhanding, ?_⟩
    refine hpolling.beginRun fun i r hr hopen ↦ ?_
    exact absurd ((hpolling.asked i r hr hopen).2.2.resolve_right (by simp [pollWalks])) hnone

end

theorem exitProcess_setState {fromprocess : Option P} (hlist : p ∈ s.processList)
    (hruns : s.state p ≠ .none) :
    (s.setState p .running).exitProcess p fromprocess = s.exitProcess p fromprocess := by
  simp [Kernel.exitProcess, Kernel.setState, hlist, hruns]

theorem returns {exits : Bool} (h : Sound numEvents s) (horderly : Orderly numEvents s (.returns exits))
    (hstep : s.returns exits = some t) : Sound numEvents t := by
  obtain ⟨hinOrder, hring, hposts, hshape, hbodies, hhanding, hpolling⟩ := h
  unfold Kernel.returns at hstep
  split at hstep
  · rename_i p ev data rest hstack
    obtain rfl := some.inj hstep
    change (match s.stack with
      | .thread p ev _ :: _ => exits = true ∨ ev = processEventExit ∨ s.state p ≠ .none
      | _ => True) at horderly
    rw [hstack] at hshape hbodies hhanding hpolling horderly
    have hrest := hshape.tail rfl
    have hnot : s.state p ≠ .running := hbodies.idle p mem_cons_self
    by_cases hgone : s.state p = .none
    · have hsound : Sound numEvents { s with stack := rest } :=
        ⟨hinOrder, hring, hposts, hrest, hbodies.drop hgone, hhanding, hpolling⟩
      rw [if_pos]
      · exact hsound.exitProcess fun _ hne ↦ absurd rfl hne
      · rcases horderly with hexits | hev | hruns
        · exact Or.inl hexits
        · exact Or.inr hev
        · exact absurd hgone hruns
    · have hcalled : s.state p = .called := by
        cases hstate : s.state p <;> simp_all
      have hruns : ∀ q, s.state q ≠ .none → update s.state p .running q ≠ .none := by
        intro q hq
        by_cases hqp : q = p
        · rw [hqp, update_self]
          decide
        · rw [update_of_ne hqp]
          exact hq
      have hsound : Sound numEvents ({ s with stack := rest }.setState p .running) :=
        ⟨hinOrder, hring, hposts, hrest, hbodies.resume hcalled, hhanding.state_congr hruns,
          hpolling.state_congr hruns⟩
      split
      · rw [← exitProcess_setState (by exact hbodies.listed p hgone) (by exact hgone)]
        exact hsound.exitProcess fun _ hne ↦ absurd rfl hne
      · exact hsound
  · rename_i p rest hstack
    obtain rfl := some.inj hstep
    rw [hstack] at hshape hbodies hhanding hpolling
    obtain ⟨old, stack, rfl, hrest⟩ := hshape.below_lastThread
    exact ⟨hinOrder, hring, hposts, .nested _ rfl hrest,
      hbodies.drop (hbodies.gone p mem_cons_self), hhanding, hpolling⟩
  · cases hstep

section

variable {k : ℕ} (h : Sound numEvents s) (hstack : s.stack = [.runEnd k])

include h hstack

theorem deliver (hsome : s.nevents ≠ 0) (hreceiver : s.firstEvent.receiver = some p)
    (hinit : s.firstEvent.ev = processEventInit → s.state p ≠ .none) :
    Sound numEvents ((s.dequeue numEvents).deliver s.firstEvent p) := by
  have hcalled := h.not_called (by rw [hstack]; rfl) p
  have hstate : (if s.firstEvent.ev = processEventInit then
      (s.dequeue numEvents).setState p .running else s.dequeue numEvents) =
        s.dequeue numEvents := by
    split
    · rename_i hev
      have hrunning : s.state p = .running := by
        have hruns := hinit hev
        cases hp : s.state p <;> simp_all
      have hsame : update s.state p .running = s.state := by
        rw [← hrunning]
        exact update_eq_self p s.state
      change { s.dequeue numEvents with state := update s.state p .running } = _
      rw [hsame]
      rfl
    · rfl
  unfold Kernel.deliver
  dsimp only
  rw [hstate]
  refine callProcess ?_ p _ _
  obtain ⟨hinOrder, hring, hposts, hshape, hbodies, hhanding, hpolling⟩ := h
  refine ⟨?_, ⟨Nat.mod_lt _ (Nat.zero_lt_of_lt hring.1), (Nat.sub_le _ _).trans hring.2⟩, hposts,
    hshape, hbodies, ?_, hpolling⟩
  · rw [queue_dequeue hring.1 hsome] at hinOrder
    change (s.history.deliveries ++ [_]).map Delivery.event ++ (s.dequeue numEvents).queue _ =
      s.history.accepted
    rw [← hinOrder, map_append, append_assoc]
    rfl
  · rw [hstack] at hhanding
    change Handing (s.history.deliveries ++ [_]) s.state s.next (eventWalks s.stack)
    rw [hstack]
    refine hhanding.deliver rfl (fun p' hp' ↦ ?_) (by simp [hreceiver])
    obtain rfl := some.inj (hreceiver.symm.trans hp')
    change (if s.state p = .running then [p] else []) =
      if decide (s.state p ≠ .none) = true then [p] else []
    cases hp : s.state p <;> simp_all

theorem broadcast (hsome : s.nevents ≠ 0) (hreceiver : s.firstEvent.receiver = none) :
    Sound numEvents ((s.dequeue numEvents).broadcast s.firstEvent) := by
  obtain ⟨hinOrder, hring, hposts, hshape, hbodies, hhanding, hpolling⟩ := h
  refine ⟨?_, ⟨Nat.mod_lt _ (Nat.zero_lt_of_lt hring.1), (Nat.sub_le _ _).trans hring.2⟩, hposts,
    ?_, hbodies, ?_, hpolling⟩
  · rw [queue_dequeue hring.1 hsome] at hinOrder
    change (s.history.deliveries ++ [_]).map Delivery.event ++ (s.dequeue numEvents).queue _ =
      s.history.accepted
    rw [← hinOrder, map_append, append_assoc]
    rfl
  · change Shape (_ :: s.stack)
    rw [hstack]
    exact .walking _ rfl k
  · rw [hstack] at hhanding hbodies
    change Handing (s.history.deliveries ++ [_]) s.state s.next (_ :: eventWalks s.stack)
    rw [hstack]
    refine hhanding.broadcast ⟨rfl, rfl, rfl, hreceiver⟩ (fun p ↦ decide_eq_true_iff)
      (fun p ↦ ⟨fun hp hgone ↦ ?_, hbodies.listed p⟩) hbodies.nodup
      (rest_processList hbodies.nodup)
    exact absurd (hbodies.leaves p hp hgone) (by simp [exits, Frame.exiting])

theorem takeEvent (hinit : s.nevents ≠ 0 → s.firstEvent.ev = processEventInit →
      ∀ p, s.firstEvent.receiver = some p → s.state p ≠ .none) :
    Sound numEvents (s.takeEvent numEvents) := by
  unfold Kernel.takeEvent
  split
  · exact h
  · rename_i hsome
    split
    · rename_i hreceiver
      exact h.broadcast hstack hsome hreceiver
    · rename_i p hreceiver
      exact h.deliver hstack hsome hreceiver fun hev ↦ hinit hsome hev p hreceiver

/-! ### Walks that go on -/

end

omit [DecidableEq P] in
theorem map_event_modify (deliveries : List (Delivery P)) (i : ℕ)
    {f : Delivery P → Delivery P} (hf : ∀ d, (f d).event = d.event) :
    (deliveries.modify i f).map Delivery.event = deliveries.map Delivery.event := by
  apply List.ext_getElem?
  intro j
  rw [List.getElem?_map, List.getElem?_map, List.getElem?_modify, Option.map_eq_map, Option.map_map]
  congr 1
  funext d
  change (if i = j then f d else d).event = d.event
  split
  · exact hf d
  · rfl

theorem served_served (history : History P) (p : P) :
    (history.served p).served p = history.served p := by
  unfold History.served
  dsimp only
  rw [List.map_map]
  congr 1
  refine List.map_congr_left fun r _ ↦ ?_
  by_cases hrp : r.process = p <;> simp [hrp]

section

variable {k : ℕ} {rest : List (Frame P)} (h : Sound numEvents s)
  (hstack : s.stack = .pollWalk (some q) k :: rest)

include h hstack

theorem visitPoll (hrunning : s.state q = .running) :
    Sound numEvents (({ ({ s with stack := .pollNext q k :: rest } : Kernel P).setState q .running with
      needspoll := update s.needspoll q false } : Kernel P).callProcess q processEventPoll
        .null) := by
  have hstate : update s.state q .running = s.state := by
    rw [← hrunning]
    exact update_eq_self q s.state
  -- the request may as well be answered before the call
  have hsound : Sound numEvents { s with
      stack := .pollNext q k :: rest
      needspoll := update s.needspoll q false
      history := s.history.served q } := by
    obtain ⟨hinOrder, hring, hposts, hshape, hbodies, hhanding, hpolling⟩ := h
    rw [hstack] at hshape hbodies hhanding hpolling
    have hother : ∀ r : Request P,
        (if r.process = q then { r with served := true } else r).Open → r.process ≠ q := by
      intro r hopen hrq
      rw [if_pos hrq] at hopen
      cases hopen.1
    have hanswer := hpolling.answer
      (fun r hopen ↦ if_neg (hother r hopen)) (fun _ _ hruns ↦ hruns)
      (fun r hopen hflag ↦ (update_of_ne (hother r hopen) false s.needspoll).trans hflag)
    have hclosed : ∀ r ∈ s.history.requests.map
        fun r ↦ if r.process = q then { r with served := true } else r,
          r.process = q → ¬ r.Open := by
      intro r hr hrq hopen
      obtain ⟨r', -, rfl⟩ := mem_map.mp hr
      refine hother r' hopen ?_
      by_contra hne
      rw [if_neg hne] at hrq
      exact hne hrq
    rcases hshape.below_poll rfl with ⟨k', rfl⟩ | ⟨i, e, p, k', rfl⟩
    · exact ⟨hinOrder, hring, hposts, .polling _ rfl k', hbodies, hhanding, hanswer.skip hclosed⟩
    · exact ⟨hinOrder, hring, hposts, .pollingWithin _ rfl i e p k', hbodies, hhanding,
        hanswer.skip hclosed⟩
  have hcall := hsound.callProcess q processEventPoll .null
  unfold Kernel.callProcess at hcall ⊢
  unfold Kernel.setState
  simp only [hstate, hrunning, if_true, served_served] at hcall ⊢
  exact hcall

theorem passPoll (hflag : s.needspoll q ≠ true) :
    Sound numEvents { s with stack := .pollNext q k :: rest } := by
  obtain ⟨hinOrder, hring, hposts, hshape, hbodies, hhanding, hpolling⟩ := h
  rw [hstack] at hshape hbodies hhanding hpolling
  have hclosed : ∀ r ∈ s.history.requests, r.process = q → ¬ r.Open := by
    intro r hr hrq hopen
    obtain ⟨i, hi⟩ := mem_iff_getElem?.mp hr
    rw [← hrq] at hflag
    exact hflag (hpolling.asked i r hi hopen).1
  rcases hshape.below_poll rfl with ⟨k', rfl⟩ | ⟨i, e, p, k', rfl⟩
  · exact ⟨hinOrder, hring, hposts, .polling _ rfl k', hbodies, hhanding, hpolling.skip hclosed⟩
  · exact ⟨hinOrder, hring, hposts, .pollingWithin _ rfl i e p k', hbodies, hhanding,
      hpolling.skip hclosed⟩

end

theorem visitEvent {i : ℕ} {rest : List (Frame P)} (h : Sound numEvents s)
    (hstack : s.stack = .eventCall i e q :: rest) :
    Sound numEvents { s with
      stack := .eventNext i e q :: rest
      history := if s.state q = .running then s.history.handed i q else s.history } := by
  have hcalled := h.not_called
  obtain ⟨hinOrder, hring, hposts, hshape, hbodies, hhanding, hpolling⟩ := h
  rw [hstack] at hshape hbodies hhanding hpolling hcalled
  obtain ⟨k, rfl⟩ := hshape.below_event rfl
  have hvisit := hhanding.visit (hcalled rfl q)
  by_cases hrunning : s.state q = .running
  · rw [if_pos hrunning] at hvisit ⊢
    refine ⟨?_, hring, hposts, .walking _ rfl k, hbodies, hvisit, hpolling⟩
    change (s.history.deliveries.modify i _).map _ ++ _ = _
    rw [map_event_modify]
    · exact hinOrder
    · exact fun d ↦ rfl
  · rw [if_neg hrunning] at hvisit ⊢
    exact ⟨hinOrder, hring, hposts, .walking _ rfl k, hbodies, hvisit, hpolling⟩

theorem goesOn (h : Sound numEvents s) (horderly : Orderly numEvents s .goesOn)
    (hstep : s.goesOn numEvents = some t) : Sound numEvents t := by
  have hsound := h
  obtain ⟨hinOrder, hring, hposts, hshape, hbodies, hhanding, hpolling⟩ := h
  unfold Orderly at horderly
  unfold Kernel.goesOn at hstep
  split at hstep
  case h_1 p fromprocess old rest hstack =>
    rw [hstack] at hshape hbodies hhanding hpolling
    have hrest := hshape.tail rfl
    split at hstep
    · rename_i hfrom
      obtain rfl := some.inj hstep
      have hdooms : dooms (.exitWalk p fromprocess old none :: rest) = p :: dooms rest := by
        unfold dooms
        rw [filterMap_cons]
        simp [Frame.doomed, hfrom]
      rw [hdooms] at hbodies
      refine ⟨hinOrder, hring, hposts, .last p old hrest, ?_, hhanding, hpolling⟩
      refine hbodies.last mem_cons_self fun hp ↦ ?_
      exact (nodup_cons.mp hbodies.once).1 (mem_exits_of_mem_dooms hp)
    · rename_i hfrom
      obtain rfl := some.inj hstep
      refine ⟨hinOrder, hring, hposts, .nested _ rfl hrest, hbodies.spare ?_, hhanding, hpolling⟩
      exact List.Sublist.subset ((sublist_cons_self _ rest).filterMap _)
  case h_2 p fromprocess old q rest hstack =>
    rw [hstack] at hshape hbodies hhanding hpolling
    have hnext : Sound numEvents { s with stack := .exitNext p fromprocess old q :: rest } :=
      ⟨hinOrder, hring, hposts, .nested _ rfl (hshape.tail rfl), hbodies, hhanding, hpolling⟩
    obtain rfl := some.inj hstep
    split
    · exact hnext.callProcess q _ _
    · exact hnext
  case h_3 p fromprocess old q rest hstack =>
    rw [hstack] at hshape hbodies hhanding hpolling
    obtain rfl := some.inj hstep
    exact ⟨hinOrder, hring, hposts, .nested _ rfl (hshape.tail rfl), hbodies, hhanding, hpolling⟩
  case h_4 p old rest hstack =>
    obtain rfl := some.inj hstep
    have hgone : s.state p = .none := hbodies.gone p (by rw [hstack]; exact mem_cons_self)
    obtain ⟨hinOrder, hring, hposts, hshape, hbodies', hhanding, hpolling⟩ := hsound.unlink hgone
    have hsame : (s.unlink p).stack = .exitEnd p old :: rest := by
      rw [← hstack]
      unfold Kernel.unlink
      split <;> rfl
    have hlist : p ∉ (s.unlink p).processList := by
      unfold Kernel.unlink
      split
      · exact fun hmem ↦ ((List.Nodup.mem_erase_iff hbodies.nodup).mp hmem).1 rfl
      · assumption
    rw [hsame] at hshape hbodies' hhanding hpolling
    exact ⟨hinOrder, hring, hposts, hshape.tail rfl, hbodies'.left hlist, hhanding, hpolling⟩
  case h_5 k rest hstack =>
    obtain rfl := some.inj hstep
    rw [hstack] at hshape hbodies hhanding hpolling
    rcases hshape.below_poll rfl with ⟨k', rfl⟩ | ⟨i, e, q, k', rfl⟩
    · exact ⟨hinOrder, hring, hposts, .choosing k', hbodies, hhanding, hpolling.endWalk⟩
    · exact ⟨hinOrder, hring, hposts, .walking _ rfl k', hbodies, hhanding, hpolling.endWalk⟩
  case h_6 q k rest hstack =>
    obtain rfl := some.inj hstep
    rw [hstack] at horderly
    split
    · rename_i hflag
      exact hsound.visitPoll hstack (horderly hflag)
    · rename_i hflag
      exact hsound.passPoll hstack hflag
  case h_7 q k rest hstack =>
    obtain rfl := some.inj hstep
    rw [hstack] at hshape hbodies hhanding hpolling
    rcases hshape.below_poll rfl with ⟨k', rfl⟩ | ⟨i, e, p, k', rfl⟩
    · exact ⟨hinOrder, hring, hposts, .polling _ rfl k', hbodies, hhanding, hpolling.advance⟩
    · exact ⟨hinOrder, hring, hposts, .pollingWithin _ rfl i e p k', hbodies, hhanding,
        hpolling.advance⟩
  case h_8 rest hstack =>
    obtain rfl := some.inj hstep
    rw [hstack] at hshape hbodies hhanding hpolling horderly
    obtain ⟨k, rfl⟩ := hshape.below_doEvent
    have hend : Sound numEvents { s with stack := [.runEnd k] } :=
      ⟨hinOrder, hring, hposts, .ending k, hbodies, hhanding, hpolling⟩
    exact hend.takeEvent rfl horderly
  case h_9 i e rest hstack =>
    obtain rfl := some.inj hstep
    rw [hstack] at hshape hbodies hhanding hpolling
    obtain ⟨k, rfl⟩ := hshape.below_event rfl
    refine ⟨?_, hring, hposts, .ending k, hbodies, hhanding.finish, hpolling⟩
    change (s.history.deliveries.modify i _).map _ ++ _ = _
    rw [map_event_modify]
    · exact hinOrder
    · exact fun d ↦ rfl
  case h_10 i e q rest hstack =>
    obtain rfl := some.inj hstep
    rw [hstack] at hshape hbodies hhanding hpolling
    obtain ⟨k, rfl⟩ := hshape.below_event rfl
    have hcall : Sound numEvents { s with stack := [.eventCall i e q, .runEnd k] } :=
      ⟨hinOrder, hring, hposts, .walking _ rfl k, hbodies, hhanding, hpolling⟩
    split
    · exact hcall.doPoll rfl fun frame w hw ↦ .pollingWithin frame hw i e q k
    · exact hcall
  case h_11 i e q rest hstack =>
    obtain rfl := some.inj hstep
    exact (hsound.visitEvent hstack).callProcess q _ _
  case h_12 i e q rest hstack =>
    obtain rfl := some.inj hstep
    rw [hstack] at hshape hbodies hhanding hpolling
    obtain ⟨k, rfl⟩ := hshape.below_event rfl
    exact ⟨hinOrder, hring, hposts, .walking _ rfl k, hbodies, hhanding.advance, hpolling⟩
  case h_13 caller rest hstack =>
    obtain rfl := some.inj hstep
    rw [hstack] at hshape hbodies hhanding hpolling
    exact ⟨hinOrder, hring, hposts, hshape.tail rfl, hbodies, hhanding, hpolling⟩
  case h_14 k rest hstack =>
    obtain rfl := some.inj hstep
    rw [hstack] at hshape hbodies hhanding hpolling
    obtain rfl := hshape.below_runEnd
    exact ⟨hinOrder, hring, hposts, .idle, hbodies, hhanding, hpolling.endRun⟩
  case h_15 => cases hstep

theorem call (h : Sound numEvents s) (c : Call P) (horderly : Orderly numEvents s (.call c)) :
    Sound numEvents (s.call numEvents c) := by
  cases c with
  | post e => exact h.processPost horderly
  | postSynch p ev data => exact h.processPostSynch p ev data
  | poll p => exact h.processPoll p
  | start p data => exact h.processStart p data horderly
  | exit p =>
    refine h.exitProcess fun hruns hother hactive ↦ ?_
    exact (horderly hactive).elim (fun hcurrent ↦ hother hcurrent.symm) hruns
  | run => exact h.processRun horderly

theorem step {a : Act P} (h : Sound numEvents s)
    (hstep : GuardedStepOf (Kernel.step numEvents) (Orderly numEvents) s a t) :
    Sound numEvents t := by
  obtain ⟨horderly, hnext⟩ := hstep
  cases a with
  | call c =>
    change (if s.mayCall then some (s.call numEvents c) else none) = some t at hnext
    split at hnext
    · obtain rfl := some.inj hnext
      exact h.call c horderly
    · cases hnext
  | returns exits => exact h.returns horderly hnext
  | goesOn => exact h.goesOn horderly hnext

end Sound

/-- In every run of such steps no event and no request is lost, and no body is entered twice. -/
theorem lossless_of_orderlyRun {labels : List (Act P)} (hnum : 0 < numEvents)
    (hrun : Run (GuardedStepOf (Kernel.step numEvents) (Orderly numEvents)) Kernel.init labels s) :
    Lossless numEvents s :=
  (hrun.invariant (fun _ _ _ h ↦ h.step) (Sound.init hnum)).lossless

def eventTo (ev : UInt8) : EventData Unit := ⟨ev, .null, some ()⟩

theorem orderly_cons {Q : Kernel Bool → Prop} {a : Act Bool} {labels : List (Act Bool)}
    {s t : Kernel Bool} (horderly : Orderly 2 s a) (hnext : s.step 2 a = some t)
    (hrun : ∃ u, Run (GuardedStepOf (Kernel.step 2) (Orderly 2)) t labels u ∧ Q u) :
    ∃ u, Run (GuardedStepOf (Kernel.step 2) (Orderly 2)) s (a :: labels) u ∧ Q u :=
  hrun.imp fun _ hu ↦ ⟨.cons ⟨horderly, hnext⟩ hu.1, hu.2⟩

/-- Two processes are started; one is polled, both get a broadcast, and one gets an event. -/
def twoEvents : List (Act Bool) :=
  [.call (.start false .null), .returns false, .goesOn, .call (.start true .null), .returns false,
    .goesOn, .call (.post ⟨1, .null, none⟩), .call (.post ⟨2, .null, some false⟩),
    .call (.poll (some true)), .call .run, .goesOn, .returns false, .goesOn, .goesOn, .goesOn,
    .goesOn, .goesOn, .goesOn, .goesOn, .returns false, .goesOn, .goesOn, .goesOn, .returns false,
    .goesOn, .goesOn, .goesOn, .call .run, .goesOn, .returns false, .goesOn]

theorem orderlyRun_twoEvents : ∃ s, Run (GuardedStepOf (Kernel.step 2) (Orderly 2)) Kernel.init
    twoEvents s ∧ s.history.deliveries.map Delivery.handed = [[true, false], [false]] := by
  have hstart : ∀ (s : Kernel Bool) p, s.stack = [] → Orderly 2 s (.call (.start p .null)) := by
    intro s p hstack
    right
    rw [hstack]
    exact ⟨not_mem_nil, not_mem_nil, fun q hq ↦ absurd hq not_mem_nil⟩
  unfold twoEvents
  -- The processes are started.
  refine orderly_cons (hstart _ _ rfl) rfl ?_
  refine orderly_cons (Or.inr (Or.inr (by decide))) rfl ?_
  refine orderly_cons trivial rfl ?_
  refine orderly_cons (hstart _ _ rfl) rfl ?_
  refine orderly_cons (Or.inr (Or.inr (by decide))) rfl ?_
  refine orderly_cons trivial rfl ?_
  -- The events are posted, and one process asks to be polled.
  refine orderly_cons (Or.inr rfl) rfl ?_
  refine orderly_cons (Or.inr rfl) rfl ?_
  refine orderly_cons trivial rfl ?_
  -- The poll.
  refine orderly_cons rfl rfl ?_
  refine orderly_cons (fun _ ↦ rfl) rfl ?_
  refine orderly_cons (Or.inr (Or.inr (by decide))) rfl ?_
  refine orderly_cons trivial rfl ?_
  refine orderly_cons (fun _ ↦ rfl) rfl ?_
  refine orderly_cons trivial rfl ?_
  refine orderly_cons trivial rfl ?_
  -- The broadcast.
  refine orderly_cons (fun _ hev ↦ absurd hev (by decide)) rfl ?_
  refine orderly_cons trivial rfl ?_
  refine orderly_cons trivial rfl ?_
  refine orderly_cons (Or.inr (Or.inr (by decide))) rfl ?_
  refine orderly_cons trivial rfl ?_
  refine orderly_cons trivial rfl ?_
  refine orderly_cons trivial rfl ?_
  refine orderly_cons (Or.inr (Or.inr (by decide))) rfl ?_
  refine orderly_cons trivial rfl ?_
  refine orderly_cons trivial rfl ?_
  refine orderly_cons trivial rfl ?_
  -- The event.
  refine orderly_cons rfl rfl ?_
  refine orderly_cons (fun _ hev ↦ absurd hev (by decide)) rfl ?_
  refine orderly_cons (Or.inr (Or.inr (by decide))) rfl ?_
  refine orderly_cons trivial rfl ?_
  exact ⟨_, .nil _, rfl⟩

theorem lossless_twoEvents : ∃ s : Kernel Bool, Lossless 2 s ∧
    s.history.deliveries.map Delivery.handed = [[true, false], [false]] :=
  orderlyRun_twoEvents.imp fun _ hs ↦ ⟨lossless_of_orderlyRun (by decide) hs.1, hs.2⟩

/-- The process is started and gets 128 events, one after the other. The sum of the indices reaches
256 with the last of 129 more. -/
def wrappingPosts : List (Act Unit) :=
  [.call (.start () .null), .returns false, .goesOn] ++ (replicate 128
    [.call (.post (eventTo 1)), .call .run, .goesOn, .returns false, .goesOn]).flatten ++
      replicate 128 (.call (.post (eventTo 2))) ++ [.call (.post (eventTo 3))]

/-- The last event overwrites the second one of a queue of 129 slots. -/
theorem not_lossless_wrappingPosts :
    ∃ s, Run (StepOf (Kernel.step 129)) Kernel.init wrappingPosts s ∧ ¬ Lossless 129 s := by
  obtain ⟨s, hrun, hlost⟩ : ∃ s, Run (StepOf (Kernel.step 129)) Kernel.init wrappingPosts s ∧
      (s.history.deliveries.map Delivery.event ++ s.queue 129).map EventData.ev ≠
        s.history.accepted.map EventData.ev := exists_run (by decide +kernel)
  refine ⟨s, hrun, fun hlossless ↦ ?_⟩
  exact hlost (congrArg (map EventData.ev) hlossless.inOrder)

end ContikiMaster.Sys
