import ContikiMaster.Sys.Process

/-!
# Events and poll requests of processes

A broadcast is handed over by a walk along the list of processes, and so is a poll event.
While a walk is under way, every process that still waits for it stands in the rest of
the walk.
-/

namespace ContikiMaster.Sys

open Lib Function List Option

variable {P : Type}

/-- A broadcast under way: where its walk is, and whether the process there was seen to. -/
structure EventWalk (P : Type) where
  number : ℕ
  q : Option P
  skipped : Option P

/-- A poll walk under way, and how many requests there were before it. -/
structure PollWalk (P : Type) where
  requests : ℕ
  q : Option P
  skipped : Option P

namespace Frame

def eventAt : Frame P → Option (EventWalk P)
  | eventWalk i _ q => some ⟨i, q, none⟩
  | eventCall i _ q => some ⟨i, some q, none⟩
  | eventNext i _ q => some ⟨i, some q, some q⟩
  | _ => none

def pollAt : Frame P → Option (PollWalk P)
  | pollWalk q k => some ⟨k, q, none⟩
  | pollNext q k => some ⟨k, some q, some q⟩
  | _ => none

def runAt : Frame P → Option ℕ
  | runEnd k => some k
  | _ => none

end Frame

def eventWalks (stack : List (Frame P)) : List (EventWalk P) := stack.filterMap Frame.eventAt

def pollWalks (stack : List (Frame P)) : List (PollWalk P) := stack.filterMap Frame.pollAt

/-- The numbers of requests before the calls of `process_run` that are under way. -/
def runs (stack : List (Frame P)) : List ℕ := stack.filterMap Frame.runAt

/-! ### Broadcasts -/

variable {deliveries : List (Delivery P)} {state state' : P → ProcessState}
  {next next' : P → Option P} {events : List (EventWalk P)} {d : Delivery P} {w : EventWalk P}
  {p q : P}

/-- A process that was running is handed the event, or exited, or stands in the rest of the walk. -/
def Visits (next : P → Option P) (d : Delivery P) (w : EventWalk P) : Prop :=
  ∃ nodes, Rest next w.q nodes ∧ nodes.Nodup ∧ (∀ p ∈ nodes, d.running p = true) ∧
    (∀ p ∈ nodes, some p ≠ w.skipped → p ∉ d.handed) ∧
    ∀ p, d.running p = true → p ∉ d.exited → p ∈ d.handed ∨ p ∈ nodes ∧ some p ≠ w.skipped

/-- The events that were taken are handed to the processes that they are for. -/
structure Handing (deliveries : List (Delivery P)) (state : P → ProcessState)
    (next : P → Option P) (events : List (EventWalk P)) : Prop where
  opened : ∀ i d, deliveries[i]? = some d → d.closed = false →
    i + 1 = deliveries.length ∧ ∃ w ∈ events, w.number = i
  once : ∀ d ∈ deliveries, d.handed.Nodup ∧ ∀ p ∈ d.handed, d.running p = true
  receiver : ∀ d ∈ deliveries, ∀ p, d.event.receiver = some p →
    d.handed = if d.running p = true then [p] else []
  everyone : ∀ d ∈ deliveries, d.event.receiver = none → d.closed = true →
    ∀ p, d.running p = true → p ∈ d.handed ∨ p ∈ d.exited
  live : ∀ d ∈ deliveries, d.closed = false → ∀ p, d.running p = true → p ∉ d.exited →
    state p ≠ .none
  walk : ∀ w ∈ events, ∃ d, deliveries[w.number]? = some d ∧ d.closed = false ∧
    d.event.receiver = none ∧ Visits next d w

namespace Handing

theorem init (state : P → ProcessState) (next : P → Option P) : Handing [] state next [] := by
  constructor <;> simp

section

variable (h : Handing deliveries state next events)

include h

theorem state_congr
    (hruns : ∀ p, state p ≠ .none → state' p ≠ .none) : Handing deliveries state' next events :=
  { h with live := fun d hd hopen p hp hexited ↦ hruns p (h.live d hd hopen p hp hexited) }

theorem next_congr (hsame : ∀ w ∈ events, ∀ nodes, Rest next w.q nodes → Rest next' w.q nodes) :
    Handing deliveries state next' events where
  opened := h.opened
  once := h.once
  receiver := h.receiver
  everyone := h.everyone
  live := h.live
  walk w hw := by
    obtain ⟨d, hd, hopen, hall, nodes, hrest, hvisits⟩ := h.walk w hw
    exact ⟨d, hd, hopen, hall, nodes, hsame w hw nodes hrest, hvisits⟩

theorem bypass (hgone : state p = .none) (hp : next' p = next p)
    (hothers : ∀ i, next' i = next i ∨ next i = some p ∧ next' i = next p) :
    Handing deliveries state next' events where
  opened := h.opened
  once := h.once
  receiver := h.receiver
  everyone := h.everyone
  live := h.live
  walk w hw := by
    obtain ⟨d, hd, hopen, hall, nodes, hrest, hnodup, hrunning, hnew, hwaiting⟩ := h.walk w hw
    obtain ⟨nodes', hrest', hsub, hkept⟩ := hrest.bypass hp hothers
    refine ⟨d, hd, hopen, hall, nodes', hrest', hnodup.sublist hsub,
      fun i hi ↦ hrunning i (hsub.subset hi), fun i hi ↦ hnew i (hsub.subset hi),
      fun i hi hexited ↦ ?_⟩
    refine (hwaiting i hi hexited).imp_right fun hnode ↦ ⟨hkept i hnode.1 ?_, hnode.2⟩
    rintro rfl
    exact h.live d (mem_of_getElem? hd) hopen i hi hexited hgone

theorem exit (p : P) (hothers : ∀ q, q ≠ p → state q ≠ .none → state' q ≠ .none) :
    Handing (deliveries.map fun d ↦ if d.closed then d else { d with exited := d.exited ++ [p] })
      state' next events where
  opened i d hd hopen := by
    rw [length_map]
    rw [getElem?_map] at hd
    obtain ⟨d', hd', rfl⟩ := map_eq_some_iff.mp hd
    refine h.opened i d' hd' ?_
    split at hopen <;> assumption
  once d hd := by
    obtain ⟨d', hd', rfl⟩ := mem_map.mp hd
    split <;> exact h.once d' hd'
  receiver d hd := by
    obtain ⟨d', hd', rfl⟩ := mem_map.mp hd
    split <;> exact h.receiver d' hd'
  everyone d hd := by
    obtain ⟨d', hd', rfl⟩ := mem_map.mp hd
    split
    · exact h.everyone d' hd'
    · intro _ hover
      contradiction
  live d hd hopen q hq hexited := by
    obtain ⟨d', hd', rfl⟩ := mem_map.mp hd
    split at hopen
    · simp_all
    · rename_i hnot
      rw [if_neg hnot] at hq hexited
      simp only [mem_append, mem_singleton, not_or] at hexited
      exact hothers q hexited.2 (h.live d' hd' hopen q hq hexited.1)
  walk w hw := by
    obtain ⟨d, hd, hopen, hall, nodes, hrest, hnodup, hrunning, hnew, hwaiting⟩ := h.walk w hw
    refine ⟨{ d with exited := d.exited ++ [p] }, ?_, hopen, hall, nodes, hrest, hnodup, hrunning,
      hnew, fun i hi hexited ↦ hwaiting i hi fun hmem ↦ hexited (mem_append_left _ hmem)⟩
    rw [getElem?_map, hd]
    simp [hopen]

end

theorem deliver (h : Handing deliveries state next []) (hover : d.closed = true)
    (hreceiver : ∀ p, d.event.receiver = some p →
      d.handed = if d.running p = true then [p] else [])
    (hbroadcast : d.event.receiver ≠ none) : Handing (deliveries ++ [d]) state next [] := by
  have hlast : ∀ d' ∈ deliveries ++ [d], d' ∈ deliveries ∨ d' = d := fun d' hd' ↦ by simpa using hd'
  constructor
  · intro i d' hd' hopen
    rcases hlast d' (mem_of_getElem? hd') with hold | rfl
    · obtain ⟨j, hj⟩ := mem_iff_getElem?.mp hold
      obtain ⟨-, w, hw, -⟩ := h.opened j d' hj hopen
      cases hw
    · rw [hover] at hopen
      cases hopen
  · intro d' hd'
    rcases hlast d' hd' with hold | rfl
    · exact h.once d' hold
    · obtain ⟨p, hp⟩ := ne_none_iff_exists'.mp hbroadcast
      rw [hreceiver p hp]
      split <;> simp_all
  · intro d' hd'
    rcases hlast d' hd' with hold | rfl
    · exact h.receiver d' hold
    · exact hreceiver
  · intro d' hd' hall
    rcases hlast d' hd' with hold | rfl
    · exact h.everyone d' hold hall
    · exact absurd hall hbroadcast
  · intro d' hd' hopen
    rcases hlast d' hd' with hold | rfl
    · exact h.live d' hold hopen
    · rw [hover] at hopen
      cases hopen
  · intro w hw
    cases hw

theorem broadcast {processList : List P} (h : Handing deliveries state next [])
    (hnew : d.closed = false ∧ d.handed = [] ∧ d.exited = [] ∧ d.event.receiver = none)
    (hrunning : ∀ p, d.running p = true ↔ state p ≠ .none)
    (hlisted : ∀ p, p ∈ processList ↔ state p ≠ .none) (hnodup : processList.Nodup)
    (hrest : Rest next processList.head? processList) :
    Handing (deliveries ++ [d]) state next [⟨deliveries.length, processList.head?, none⟩] := by
  obtain ⟨hover, hhanded, hexited, hall⟩ := hnew
  have hlast : ∀ d' ∈ deliveries ++ [d], d' ∈ deliveries ∨ d' = d := fun d' hd' ↦ by simpa using hd'
  have hold : ∀ d' ∈ deliveries, d'.closed = true := by
    intro d' hd'
    obtain ⟨j, hj⟩ := mem_iff_getElem?.mp hd'
    by_contra hopen
    obtain ⟨-, w, hw, -⟩ := h.opened j d' hj (by simpa using hopen)
    cases hw
  constructor
  · intro i d' hd' hopen
    rw [getElem?_append] at hd'
    split at hd'
    · rw [hold d' (mem_of_getElem? hd')] at hopen
      cases hopen
    · rename_i hi
      have hlt := (List.getElem?_eq_some_iff.mp hd').1
      rw [length_singleton] at hlt
      refine ⟨?_, _, mem_singleton_self _, ?_⟩
      · rw [length_append, length_singleton]
        omega
      · change deliveries.length = i
        omega
  · intro d' hd'
    rcases hlast d' hd' with hmem | rfl
    · exact h.once d' hmem
    · rw [hhanded]
      exact ⟨nodup_nil, by simp⟩
  · intro d' hd'
    rcases hlast d' hd' with hmem | rfl
    · exact h.receiver d' hmem
    · intro p hp
      rw [hall] at hp
      cases hp
  · intro d' hd' hnone hover'
    rcases hlast d' hd' with hmem | rfl
    · exact h.everyone d' hmem hnone hover'
    · rw [hover] at hover'
      cases hover'
  · intro d' hd' hopen
    rcases hlast d' hd' with hmem | rfl
    · exact h.live d' hmem hopen
    · exact fun p hp _ ↦ (hrunning p).mp hp
  · intro w hw
    obtain rfl := mem_singleton.mp hw
    refine ⟨d, by simp, hover, hall, processList, hrest, hnodup,
      fun p hp ↦ (hrunning p).mpr ((hlisted p).mp hp), fun p _ _ ↦ by rw [hhanded]; simp,
      fun p hp _ ↦ Or.inr ⟨(hlisted p).mpr ((hrunning p).mp hp), by simp⟩⟩

variable {f : Delivery P → Delivery P} {i : ℕ}

theorem exists_of_mem_modify {d' : Delivery P} (hmem : d' ∈ deliveries.modify i f) :
    ∃ j d, deliveries[j]? = some d ∧ d' = if i = j then f d else d := by
  obtain ⟨j, hj⟩ := mem_iff_getElem?.mp hmem
  rw [getElem?_modify] at hj
  obtain ⟨d, hd, hf⟩ := map_eq_some_iff.mp hj
  exact ⟨j, d, hd, hf.symm⟩

theorem modify {events' : List (EventWalk P)} (h : Handing deliveries state next [w])
    (hd : deliveries[w.number]? = some d)
    (hsame : (f d).event = d.event ∧ (f d).running = d.running ∧ (f d).exited = d.exited)
    (hhanded : (f d).handed.Nodup ∧ ∀ p ∈ (f d).handed, d.running p = true)
    (hover : (f d).closed = true → events' = [] ∧ ∀ p, d.running p = true → p ∈ (f d).handed ∨ p ∈ d.exited)
    (hopen : (f d).closed = false → ∃ w', events' = [w'] ∧ w'.number = w.number ∧ Visits next (f d) w') :
    Handing (deliveries.modify w.number f) state next events' := by
  obtain ⟨d₀, hd₀, hopen₀, hall, -⟩ := h.walk w (mem_singleton_self w)
  obtain rfl := some.inj (hd.symm.trans hd₀)
  have hothers : ∀ j d', deliveries[j]? = some d' → w.number ≠ j → d'.closed = true := by
    intro j d' hj hne
    by_contra hnot
    obtain ⟨-, w', hw', hnumber⟩ := h.opened j d' hj (by simpa using hnot)
    rw [mem_singleton.mp hw'] at hnumber
    exact hne hnumber
  constructor
  · intro j d' hj hd'
    rw [getElem?_modify] at hj
    obtain ⟨d'', hd'', rfl⟩ := map_eq_some_iff.mp hj
    rw [length_modify]
    by_cases hij : w.number = j
    · subst hij
      obtain rfl := some.inj (hd.symm.trans hd'')
      simp only [if_true] at hd'
      obtain ⟨w', hevents, hnumber, -⟩ := hopen hd'
      exact ⟨(h.opened _ _ hd hopen₀).1, w', by rw [hevents]; exact mem_singleton_self w', hnumber⟩
    · simp only [if_neg hij] at hd'
      rw [hothers j d'' hd'' hij] at hd'
      cases hd'
  · intro d' hd'
    obtain ⟨j, d'', hd'', rfl⟩ := exists_of_mem_modify hd'
    split
    · rename_i hij
      rw [← hij, hd] at hd''
      obtain rfl := some.inj hd''
      rw [hsame.2.1]
      exact hhanded
    · exact h.once d'' (mem_of_getElem? hd'')
  · intro d' hd' p hp
    obtain ⟨j, d'', hd'', rfl⟩ := exists_of_mem_modify hd'
    split at hp
    · rename_i hij
      rw [← hij, hd] at hd''
      obtain rfl := some.inj hd''
      rw [hsame.1, hall] at hp
      cases hp
    · rename_i hij
      rw [if_neg hij]
      exact h.receiver d'' (mem_of_getElem? hd'') p hp
  · intro d' hd' hnone hd'over p hp
    obtain ⟨j, d'', hd'', rfl⟩ := exists_of_mem_modify hd'
    split at hd'over
    · rename_i hij
      rw [if_pos hij] at hp ⊢
      rw [← hij, hd] at hd''
      obtain rfl := some.inj hd''
      rw [hsame.2.1] at hp
      rw [hsame.2.2]
      exact (hover hd'over).2 p hp
    · rename_i hij
      rw [if_neg hij] at hnone hp ⊢
      exact h.everyone d'' (mem_of_getElem? hd'') hnone hd'over p hp
  · intro d' hd' hd'open p hp hexited
    obtain ⟨j, d'', hd'', rfl⟩ := exists_of_mem_modify hd'
    split at hd'open
    · rename_i hij
      rw [if_pos hij] at hp hexited
      rw [← hij, hd] at hd''
      obtain rfl := some.inj hd''
      rw [hsame.2.1] at hp
      rw [hsame.2.2] at hexited
      exact h.live d (mem_of_getElem? hd) hopen₀ p hp hexited
    · rename_i hij
      rw [hothers j d'' hd'' hij] at hd'open
      cases hd'open
  · intro w' hw'
    cases hfd : (f d).closed with
    | true =>
      rw [(hover hfd).1] at hw'
      cases hw'
    | false =>
      obtain ⟨w'', hevents, hnumber, hvisits⟩ := hopen hfd
      rw [hevents] at hw'
      obtain rfl := mem_singleton.mp hw'
      refine ⟨f d, ?_, hfd, by rw [hsame.1, hall], hvisits⟩
      rw [hnumber, getElem?_modify, hd]
      simp

theorem visit (h : Handing deliveries state next [⟨i, some q, none⟩])
    (hcalled : state q ≠ .called) :
    Handing (if state q = .running then
        deliveries.modify i fun d ↦ { d with handed := d.handed ++ [q] } else deliveries)
      state next [⟨i, some q, some q⟩] := by
  obtain ⟨d, hd, hopen, hall, nodes, hrest, hnodup, hrunning, hnew, hwaiting⟩ :=
    h.walk _ (mem_singleton_self _)
  have hq : q ∈ nodes := by
    cases nodes with
    | nil => cases hrest
    | cons j nodes =>
      rw [some.inj hrest.1]
      exact mem_cons_self
  split
  · refine h.modify hd ⟨rfl, rfl, rfl⟩ ⟨?_, ?_⟩ ?_ ?_
    · refine nodup_append'.mpr ⟨(h.once d (mem_of_getElem? hd)).1,
        nodup_singleton q, ?_⟩
      rintro p hp hpq
      rw [mem_singleton.mp hpq] at hp
      exact hnew q hq (by simp) hp
    · intro p hp
      rcases mem_append.mp hp with hold | hpq
      · exact (h.once d (mem_of_getElem? hd)).2 p hold
      · rw [mem_singleton.mp hpq]
        exact hrunning q hq
    · intro hover
      change d.closed = true at hover
      rw [hopen] at hover
      cases hover
    · intro _
      refine ⟨_, rfl, rfl, nodes, hrest, hnodup, hrunning, fun p hp hpq hmem ↦ ?_,
        fun p hp hexited ↦ ?_⟩
      · rcases mem_append.mp hmem with hold | hpq'
        · exact hnew p hp (by simp) hold
        · exact hpq (by rw [mem_singleton.mp hpq'])
      · by_cases hpq : p = q
        · exact Or.inl (mem_append_right _ (by rw [hpq]; exact mem_singleton_self q))
        · refine (hwaiting p hp hexited).imp (mem_append_left _) fun hnode ↦ ⟨hnode.1, ?_⟩
          simpa using hpq
  · rename_i hnot
    have hgone : state q = .none := by
      cases hstate : state q <;> simp_all
    refine { h with opened := ?_, walk := ?_ }
    · intro j d' hj hd'
      obtain ⟨hlength, w', hw', hnumber⟩ := h.opened j d' hj hd'
      rw [mem_singleton.mp hw'] at hnumber
      exact ⟨hlength, _, mem_singleton_self _, hnumber⟩
    · intro w' hw'
      obtain rfl := mem_singleton.mp hw'
      refine ⟨d, hd, hopen, hall, nodes, hrest, hnodup, hrunning, fun p hp _ ↦ hnew p hp (by simp),
        fun p hp hexited ↦ ?_⟩
      refine (hwaiting p hp hexited).imp_right fun hnode ↦ ⟨hnode.1, ?_⟩
      rintro hpq
      rw [some.inj hpq] at hp hexited
      exact h.live d (mem_of_getElem? hd) hopen q hp hexited hgone

theorem advance (h : Handing deliveries state next [⟨i, some q, some q⟩]) :
    Handing deliveries state next [⟨i, next q, none⟩] := by
  obtain ⟨d, hd, hopen, hall, nodes, hrest, hnodup, hrunning, hnew, hwaiting⟩ :=
    h.walk _ (mem_singleton_self _)
  refine { h with opened := ?_, walk := ?_ }
  · intro j d' hj hd'
    obtain ⟨hlength, w', hw', hnumber⟩ := h.opened j d' hj hd'
    rw [mem_singleton.mp hw'] at hnumber
    exact ⟨hlength, _, mem_singleton_self _, hnumber⟩
  · intro w' hw'
    obtain rfl := mem_singleton.mp hw'
    cases nodes with
    | nil => cases hrest
    | cons j nodes =>
      obtain ⟨hj, htail⟩ := hrest
      obtain rfl := some.inj hj
      obtain ⟨hnot, hnodup'⟩ := nodup_cons.mp hnodup
      refine ⟨d, hd, hopen, hall, nodes, htail, hnodup',
        fun p hp ↦ hrunning p (mem_cons_of_mem q hp), fun p hp _ ↦ ?_, fun p hp hexited ↦ ?_⟩
      · refine hnew p (mem_cons_of_mem q hp) ?_
        rintro heq
        rw [some.inj heq] at hp
        exact hnot hp
      · refine (hwaiting p hp hexited).imp_right fun hnode ↦ ⟨?_, by simp⟩
        refine (mem_cons.mp hnode.1).resolve_left ?_
        rintro rfl
        exact hnode.2 rfl

theorem finish (h : Handing deliveries state next [⟨i, none, none⟩]) :
    Handing (deliveries.modify i fun d ↦ { d with closed := true }) state next [] := by
  obtain ⟨d, hd, hopen, hall, nodes, hrest, hnodup, hrunning, hnew, hwaiting⟩ :=
    h.walk _ (mem_singleton_self _)
  refine h.modify hd ⟨rfl, rfl, rfl⟩ (h.once d (mem_of_getElem? hd)) (fun _ ↦ ⟨rfl, ?_⟩) ?_
  · intro p hp
    by_cases hexited : p ∈ d.exited
    · exact Or.inr hexited
    · refine (hwaiting p hp hexited).imp_right fun hnode ↦ ?_
      rw [head?_eq_none_iff.mp hrest.head.symm] at hnode
      cases hnode.1
  · intro hover
    cases hover

end Handing

/-! ### Poll requests -/

/-- The process did not get a poll event and did not exit since. -/
def Request.Open (r : Request P) : Prop := r.served = false ∧ r.exited = false

variable {requests : List (Request P)} {needspoll needspoll' : P → Bool}
  {pollRequested : Bool} {polls : List (PollWalk P)} {ends : List ℕ} {settled : ℕ}

/-- A process with an open request has its flag set, and a poll walk is going to come to it. -/
structure Polling (requests : List (Request P)) (needspoll : P → Bool) (state : P → ProcessState)
    (pollRequested : Bool) (next : P → Option P) (polls : List (PollWalk P)) (ends : List ℕ)
    (settled : ℕ) : Prop where
  asked : ∀ i r, requests[i]? = some r → r.Open → needspoll r.process = true ∧
    state r.process ≠ .none ∧ (pollRequested = true ∨ ∃ w ∈ polls, i < w.requests)
  walk : ∀ w ∈ polls, ∃ nodes, Rest next w.q nodes ∧ nodes.Nodup ∧
    ∀ i r, i < w.requests → requests[i]? = some r → r.Open →
      r.process ∈ nodes ∧ some r.process ≠ w.skipped
  runs : ∀ k ∈ ends, k ≤ requests.length ∧ ∀ i r, i < k → requests[i]? = some r → r.Open →
    ∃ w ∈ polls, i < w.requests
  bounds : ∀ w ∈ polls, w.requests ≤ requests.length
  settled : settled ≤ requests.length ∧
    ∀ i r, i < settled → requests[i]? = some r → ¬ r.Open

namespace Polling

theorem init (state : P → ProcessState) (next : P → Option P) :
    Polling [] needspoll state false next [] [] 0 := by
  constructor <;> simp

section

variable (h : Polling requests needspoll state pollRequested next polls ends settled)

include h

theorem state_congr (hruns : ∀ p, state p ≠ .none → state' p ≠ .none) :
    Polling requests needspoll state' pollRequested next polls ends settled :=
  { h with asked := fun i r hi hopen ↦
      (h.asked i r hi hopen).imp id fun hrest ↦ hrest.imp_left (hruns r.process) }

theorem next_congr (hsame : ∀ w ∈ polls, ∀ nodes, Rest next w.q nodes → Rest next' w.q nodes) :
    Polling requests needspoll state pollRequested next' polls ends settled :=
  { h with walk := fun w hw ↦ (h.walk w hw).imp fun nodes hwalk ↦
      hwalk.imp_left (hsame w hw nodes) }

theorem bypass (hgone : state p = .none) (hp : next' p = next p)
    (hothers : ∀ i, next' i = next i ∨ next i = some p ∧ next' i = next p) :
    Polling requests needspoll state pollRequested next' polls ends settled := by
  refine { h with walk := fun w hw ↦ ?_ }
  obtain ⟨nodes, hrest, hnodup, hwaits⟩ := h.walk w hw
  obtain ⟨nodes', hrest', hsub, hkept⟩ := hrest.bypass hp hothers
  refine ⟨nodes', hrest', hnodup.sublist hsub, fun i r hi hr hopen ↦ ?_⟩
  obtain ⟨hnode, hskipped⟩ := hwaits i r hi hr hopen
  refine ⟨hkept _ hnode ?_, hskipped⟩
  rintro rfl
  exact (h.asked i r hr hopen).2.1 hgone

end

theorem answer {f : Request P → Request P}
    (h : Polling requests needspoll state pollRequested next polls ends settled)
    (hf : ∀ r, (f r).Open → f r = r)
    (hkept : ∀ r, (f r).Open → state r.process ≠ .none → state' r.process ≠ .none)
    (hflags : ∀ r, (f r).Open → needspoll r.process = true → needspoll' r.process = true) :
    Polling (requests.map f) needspoll' state' pollRequested next polls ends settled := by
  have hold : ∀ (i : ℕ) (r : Request P), (requests.map f)[i]? = some r → r.Open →
      requests[i]? = some r ∧ (f r).Open := by
    intro i r hr hopen
    rw [getElem?_map] at hr
    obtain ⟨r', hr', rfl⟩ := map_eq_some_iff.mp hr
    have hsame := hf r' hopen
    rw [hsame] at hopen ⊢
    rw [hsame]
    exact ⟨hr', hopen⟩
  constructor
  · intro i r hr hopen
    obtain ⟨hr', hopen'⟩ := hold i r hr hopen
    obtain ⟨hflag, hruns, hwalk⟩ := h.asked i r hr' hopen
    exact ⟨hflags r hopen' hflag, hkept r hopen' hruns, hwalk⟩
  · intro w hw
    obtain ⟨nodes, hrest, hnodup, hwaits⟩ := h.walk w hw
    exact ⟨nodes, hrest, hnodup, fun i r hi hr hopen ↦ hwaits i r hi (hold i r hr hopen).1 hopen⟩
  · intro k hk
    rw [length_map]
    exact ⟨(h.runs k hk).1, fun i r hi hr hopen ↦
      (h.runs k hk).2 i r hi (hold i r hr hopen).1 hopen⟩
  · intro w hw
    rw [length_map]
    exact h.bounds w hw
  · rw [length_map]
    exact ⟨h.settled.1, fun i r hi hr hopen ↦ h.settled.2 i r hi (hold i r hr hopen).1 hopen⟩

theorem doPoll {processList : List P}
    (h : Polling requests needspoll state pollRequested next [] ends settled)
    (hnext : ∀ p, state p ≠ .none → p ∈ processList) (hnodup : processList.Nodup)
    (hrest : Rest next processList.head? processList) :
    Polling requests needspoll state false next [⟨requests.length, processList.head?, none⟩] ends
      settled where
  asked i r hr hopen := by
    obtain ⟨hflag, hruns, -⟩ := h.asked i r hr hopen
    exact ⟨hflag, hruns, Or.inr ⟨_, mem_singleton_self _, (List.getElem?_eq_some_iff.mp hr).1⟩⟩
  walk w hw := by
    obtain rfl := mem_singleton.mp hw
    exact ⟨processList, hrest, hnodup, fun i r _ hr hopen ↦
      ⟨hnext _ (h.asked i r hr hopen).2.1, by simp⟩⟩
  runs k hk := ⟨(h.runs k hk).1, fun i r hi hr hopen ↦ ⟨_, mem_singleton_self _,
    (List.getElem?_eq_some_iff.mp hr).1⟩⟩
  bounds w hw := by
    obtain rfl := mem_singleton.mp hw
    exact Nat.le_refl _
  settled := h.settled

theorem beginRun (h : Polling requests needspoll state pollRequested next polls ends settled)
    (hcovered : ∀ (i : ℕ) (r : Request P), requests[i]? = some r → r.Open →
      ∃ w ∈ polls, i < w.requests) :
    Polling requests needspoll state pollRequested next polls (requests.length :: ends) settled where
  asked := h.asked
  walk := h.walk
  runs k hk := by
    rcases mem_cons.mp hk with rfl | hk
    · exact ⟨Nat.le_refl _, fun i r _ hr hopen ↦ hcovered i r hr hopen⟩
    · exact h.runs k hk
  bounds := h.bounds
  settled := h.settled

variable {k : ℕ}

theorem endWalk
    (h : Polling requests needspoll state pollRequested next [⟨k, none, none⟩] ends settled) :
    Polling requests needspoll state pollRequested next [] ends settled := by
  have hclosed : ∀ (i : ℕ) (r : Request P), i < k → requests[i]? = some r → ¬ r.Open := by
    intro i r hi hr hopen
    obtain ⟨nodes, hrest, -, hwaits⟩ := h.walk _ (mem_singleton_self _)
    obtain ⟨hnode, -⟩ := hwaits i r hi hr hopen
    rw [head?_eq_none_iff.mp hrest.head.symm] at hnode
    cases hnode
  refine { h with asked := ?_, walk := ?_, runs := ?_, bounds := ?_ }
  · intro i r hr hopen
    obtain ⟨hflag, hruns, hwalk⟩ := h.asked i r hr hopen
    refine ⟨hflag, hruns, Or.inl (hwalk.resolve_right ?_)⟩
    rintro ⟨w, hw, hi⟩
    rw [mem_singleton.mp hw] at hi
    exact hclosed i r hi hr hopen
  · intro w hw
    cases hw
  · intro k' hk'
    refine ⟨(h.runs k' hk').1, fun i r hi hr hopen ↦ ?_⟩
    obtain ⟨w, hw, hlt⟩ := (h.runs k' hk').2 i r hi hr hopen
    rw [mem_singleton.mp hw] at hlt
    exact absurd hopen (hclosed i r hlt hr)
  · intro w hw
    cases hw

/-- The one walk is at another place. -/
theorem rewalk {w : PollWalk P} (w' : PollWalk P)
    (h : Polling requests needspoll state pollRequested next [w] ends settled)
    (hsame : w'.requests = w.requests) (hwalk : ∃ nodes, Rest next w'.q nodes ∧ nodes.Nodup ∧
      ∀ i r, i < w'.requests → requests[i]? = some r → r.Open →
        r.process ∈ nodes ∧ some r.process ≠ w'.skipped) :
    Polling requests needspoll state pollRequested next [w'] ends settled := by
  have hcover : ∀ (i : ℕ), (∃ v ∈ [w], i < v.requests) → ∃ v ∈ [w'], i < v.requests := by
    simp only [mem_singleton, exists_eq_left, hsame]
    exact fun _ hi ↦ hi
  refine { h with asked := ?_, walk := ?_, runs := ?_, bounds := ?_ }
  · exact fun i r hr hopen ↦ (h.asked i r hr hopen).imp id fun hrest ↦
      hrest.imp_right fun hwalk ↦ hwalk.imp_right (hcover i)
  · intro v hv
    rwa [mem_singleton.mp hv]
  · exact fun k' hk' ↦ (h.runs k' hk').imp id fun hcovered i r hi hr hopen ↦
      hcover i (hcovered i r hi hr hopen)
  · intro v hv
    rw [mem_singleton.mp hv, hsame]
    exact h.bounds w (mem_singleton_self w)

theorem advance
    (h : Polling requests needspoll state pollRequested next [⟨k, some q, some q⟩] ends settled) :
    Polling requests needspoll state pollRequested next [⟨k, next q, none⟩] ends settled := by
  obtain ⟨nodes, hrest, hnodup, hwaits⟩ := h.walk _ (mem_singleton_self _)
  apply h.rewalk ⟨k, next q, none⟩ rfl
  cases nodes with
  | nil => cases hrest
  | cons j nodes =>
    obtain ⟨hj, htail⟩ := hrest
    obtain rfl := some.inj hj
    refine ⟨nodes, htail, (nodup_cons.mp hnodup).2, fun i r hi hr hopen ↦ ⟨?_, by simp⟩⟩
    obtain ⟨hnode, hskipped⟩ := hwaits i r hi hr hopen
    refine (mem_cons.mp hnode).resolve_left ?_
    rintro heq
    exact hskipped (by rw [heq])

theorem skip
    (h : Polling requests needspoll state pollRequested next [⟨k, some q, none⟩] ends settled)
    (hclosed : ∀ r ∈ requests, r.process = q → ¬ r.Open) :
    Polling requests needspoll state pollRequested next [⟨k, some q, some q⟩] ends settled := by
  obtain ⟨nodes, hrest, hnodup, hwaits⟩ := h.walk _ (mem_singleton_self _)
  apply h.rewalk ⟨k, some q, some q⟩ rfl
  refine ⟨nodes, hrest, hnodup, fun i r hi hr hopen ↦ ⟨(hwaits i r hi hr hopen).1, fun heq ↦ ?_⟩⟩
  exact hclosed r (mem_of_getElem? hr) (some.inj heq) hopen

theorem endRun (h : Polling requests needspoll state pollRequested next [] (k :: ends) settled) :
    Polling requests needspoll state pollRequested next [] ends k where
  asked := h.asked
  walk := h.walk
  runs k' hk' := h.runs k' (mem_cons_of_mem k hk')
  bounds := h.bounds
  settled := by
    obtain ⟨hbound, hcovered⟩ := h.runs k mem_cons_self
    refine ⟨hbound, fun i r hi hr hopen ↦ ?_⟩
    obtain ⟨w, hw, -⟩ := hcovered i r hi hr hopen
    cases hw

variable [DecidableEq P]

theorem ask (h : Polling requests needspoll state pollRequested next polls ends settled)
    (hruns : state p ≠ .none) :
    Polling (requests ++ [⟨p, false, false⟩]) (update needspoll p true) state true next
      polls ends settled := by
  have hold : ∀ (i : ℕ) (r : Request P), (requests ++ [⟨p, false, false⟩])[i]? = some r →
      i < requests.length → requests[i]? = some r := by
    intro i r hr hi
    rw [getElem?_append_left hi] at hr
    exact hr
  have hlength : (requests ++ [(⟨p, false, false⟩ : Request P)]).length = requests.length + 1 := by
    simp
  constructor
  · intro i r hr hopen
    by_cases hi : i < requests.length
    · obtain ⟨hflag, hstate, -⟩ := h.asked i r (hold i r hr hi) hopen
      refine ⟨?_, hstate, Or.inl rfl⟩
      by_cases hrp : r.process = p
      · rw [hrp, update_self]
      · rw [update_of_ne hrp]
        exact hflag
    · have hlt := (List.getElem?_eq_some_iff.mp hr).1
      rw [hlength] at hlt
      have hlast : i = requests.length := by omega
      rw [hlast, getElem?_concat_length] at hr
      obtain rfl := some.inj hr
      exact ⟨update_self _ _ _, hruns, Or.inl rfl⟩
  · intro w hw
    obtain ⟨nodes, hrest, hnodup, hwaits⟩ := h.walk w hw
    have hbound := h.bounds w hw
    exact ⟨nodes, hrest, hnodup, fun i r hi hr hopen ↦
      hwaits i r hi (hold i r hr (by omega)) hopen⟩
  · intro k hk
    obtain ⟨hbound, hcovered⟩ := h.runs k hk
    rw [hlength]
    exact ⟨by omega, fun i r hi hr hopen ↦ hcovered i r hi (hold i r hr (by omega)) hopen⟩
  · intro w hw
    rw [hlength]
    exact Nat.le_succ_of_le (h.bounds w hw)
  · obtain ⟨hbound, hclosed⟩ := h.settled
    rw [hlength]
    exact ⟨by omega, fun i r hi hr hopen ↦ hclosed i r hi (hold i r hr (by omega)) hopen⟩

end Polling

end ContikiMaster.Sys
