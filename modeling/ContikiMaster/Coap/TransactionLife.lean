import ContikiMaster.Coap.Engine

/-!
# The life of a transaction

What the log should say of a block: it is allocated, a callback may be registered, it is
freed in the list because its exchange has ended, and then the callback is called once.
The functions on transactions keep to this, each under its own condition.
-/

namespace ContikiMaster.Coap

open Lib Sys Function List Option Memb

/-- Where a block is in its life: unused, and then a callback may be due, or in use for an exchange,
with a callback or without one. -/
inductive Phase where
  | idle (due : Bool)
  | active (x : Exchange) (registered : Bool)
deriving DecidableEq

/-- An exchange has ended for this reason: a message with its identifier came from its own peer, or
it is the response to the datagram that failed. -/
def Exchange.EndsBy (x : Exchange) : Ending → Prop
  | .sent | .exhausted => True
  | .answered peer mid => peer = x.peer ∧ mid = x.mid
  | .failed n => x.origin = .response n

instance (x : Exchange) (why : Ending) : Decidable (x.EndsBy why) := by
  cases why <;> unfold Exchange.EndsBy <;> infer_instance

/-- What an entry makes of a block, where it is allowed. -/
def Phase.next : Phase → Entry → Option Phase
  | .idle _, .allocated _ x => some (.active x false)
  | .active x _, .registered _ => some (.active x true)
  | .active x registered, .freed _ true why => if x.EndsBy why then some (.idle registered) else none
  | .idle true, .invoked _ => some (.idle false)
  | _, _ => none

def Entry.block : Entry → ℕ
  | .allocated t _ | .registered t | .freed t _ _ | .invoked t => t

/-- Where the log has led a block, unless it has an entry that is not allowed. -/
def phaseOf (log : List Entry) (t : ℕ) : Option Phase :=
  (log.filter fun e ↦ e.block == t).foldlM Phase.next (.idle false)

variable {log : List Entry} {e : Entry} {s s' : Engine} {t u : ℕ} {x : Exchange} {why : Ending}
  {mid : UInt16} {peer : Endpoint} {origin : Origin}

theorem phaseOf_append_self {phase : Phase} (hphase : phaseOf log e.block = some phase) :
    phaseOf (log ++ [e]) e.block = phase.next e := by
  rw [phaseOf] at hphase
  rw [phaseOf, filter_append, foldlM_append, hphase]
  simp only [filter_cons, beq_self_eq_true, if_true, filter_nil, foldlM_cons, foldlM_nil, bind_pure]
  rfl

theorem phaseOf_append_of_ne (he : e.block ≠ t) : phaseOf (log ++ [e]) t = phaseOf log t := by
  have hnot : (e.block == t) = false := beq_false_of_ne he
  rw [phaseOf, filter_append, filter_cons, hnot, filter_nil]
  simp only [Bool.false_eq_true, if_false, append_nil]
  rfl

/-- The blocks are accounted for: no entry of the log was out of order, and the listed blocks are
those that are allocated and those that are in use. -/
structure Conserved (s : Engine) : Prop where
  lifecycle : ∀ t, (phaseOf s.log t).isSome
  listed : ∀ t, t ∈ s.transactionsList ↔ ∃ x registered, phaseOf s.log t = some (.active x registered)
  allocated : ∀ t, t ∈ s.transactionsList ↔ s.transactionsMemb.count t ≠ 0

/-- The invariant: the log agrees with the list, the pool and the records, and a request has its
callback registered. -/
structure Accounted (s : Engine) : Prop where
  nodup : s.transactionsList.Nodup
  used : ∀ t ∈ s.transactionsList, t < s.transactionsMemb.num ∧ s.transactionsMemb.count t = 1
  unused : ∀ t, t ∉ s.transactionsList → s.transactionsMemb.count t = 0
  active : ∀ t ∈ s.transactionsList, ∃ x registered,
    phaseOf s.log t = some (.active x registered) ∧ x.mid = (s.get t).mid ∧ x.peer = (s.get t).peer
  idle : ∀ t, t ∉ s.transactionsList → ∃ due, phaseOf s.log t = some (.idle due)

def RequestsRegistered (s : Engine) : Prop :=
  ∀ t x registered, phaseOf s.log t = some (.active x registered) → x.origin = .request →
    registered = true

theorem Accounted.conserved (hs : Accounted s) : Conserved s where
  lifecycle t := by
    by_cases ht : t ∈ s.transactionsList
    · obtain ⟨x, registered, hphase, -⟩ := hs.active t ht
      rw [hphase]
      rfl
    · obtain ⟨due, hphase⟩ := hs.idle t ht
      rw [hphase]
      rfl
  listed t := by
    constructor
    · intro ht
      obtain ⟨x, registered, hphase, -⟩ := hs.active t ht
      exact ⟨x, registered, hphase⟩
    · rintro ⟨x, registered, hphase⟩
      by_contra ht
      obtain ⟨due, hidle⟩ := hs.idle t ht
      rw [hphase] at hidle
      cases hidle
  allocated t := by
    constructor
    · intro ht
      rw [(hs.used t ht).2]
      decide
    · intro hcount
      by_contra ht
      exact hcount (hs.unused t ht)

/-- The pool, the list and the log are the same; the other variables do not matter. -/
structure SameBlocks (s s' : Engine) : Prop where
  memb : s'.transactionsMemb = s.transactionsMemb
  list : s'.transactionsList = s.transactionsList
  log : s'.log = s.log

theorem Accounted.of_same (hs : Accounted s) (hsame : SameBlocks s s') : Accounted s' := by
  obtain ⟨hmemb, hlist, hlog⟩ := hsame
  have hget : ∀ t, s'.get t = s.get t := fun t ↦ by rw [Engine.get, Engine.get, hmemb]
  refine ⟨by rw [hlist]; exact hs.nodup, ?_, ?_, ?_, ?_⟩
  · rw [hlist, hmemb]
    exact hs.used
  · rw [hlist, hmemb]
    exact hs.unused
  · intro t ht
    rw [hlist] at ht
    rw [hlog, hget]
    exact hs.active t ht
  · rw [hlist, hlog]
    exact hs.idle

variable {y : CoapTransaction} {message : Option ParseState}

theorem Accounted.store (hs : Accounted s) (hmid : y.mid = (s.get t).mid)
    (hpeer : y.peer = (s.get t).peer) : Accounted (s.store t y) where
  nodup := hs.nodup
  used := hs.used
  unused := hs.unused
  active u hu := by
    obtain ⟨x, registered, hphase, hxmid, hxpeer⟩ := hs.active u hu
    exact ⟨x, registered, hphase, hxmid.trans (store_field CoapTransaction.mid hmid u).symm,
      hxpeer.trans (store_field CoapTransaction.peer hpeer u).symm⟩
  idle := hs.idle

theorem coapNewTransaction_spec (hnew : s.coapNewTransaction mid peer origin = some (t, s')) :
    t < s.transactionsMemb.num ∧ s.transactionsMemb.count t = 0 ∧
      s'.transactionsMemb.num = s.transactionsMemb.num ∧
      s'.transactionsMemb.count = update s.transactionsMemb.count t 1 ∧
      s'.transactionsList = listAdd s.transactionsList t ∧
      s'.log = s.log ++ [.allocated t ⟨mid, peer, origin⟩] ∧
      (s'.get t).mid = mid ∧ (s'.get t).peer = peer ∧ (s'.get t).retransCounter = 0 ∧
      (s'.get t).callback = (s.get t).callback ∧ ∀ u, u ≠ t → s'.get u = s.get u := by
  obtain ⟨⟨i, memb⟩, halloc, hpair⟩ := map_eq_some_iff.mp hnew
  obtain ⟨rfl, rfl⟩ := Prod.mk.injEq .. ▸ hpair
  obtain ⟨hlt, hzero, hnum, hmem, hcount⟩ := alloc_spec halloc
  have hself : ∀ y, (memb.store i y).mem i = y := fun _ ↦ store_mem_self
  refine ⟨hlt, hzero, hnum, hcount, rfl, rfl, ?_, ?_, ?_, ?_, ?_⟩
  · exact congrArg CoapTransaction.mid (hself _)
  · exact congrArg CoapTransaction.peer (hself _)
  · exact congrArg CoapTransaction.retransCounter (hself _)
  · refine (congrArg CoapTransaction.callback (hself _)).trans ?_
    rw [hmem]
    rfl
  · intro u hu
    change (memb.store i _).mem u = s.transactionsMemb.mem u
    rw [store_mem_of_ne hu, hmem]

/-- Listed blocks stay as they are. -/
structure Extends (s s' : Engine) : Prop where
  list : ∀ t ∈ s.transactionsList, t ∈ s'.transactionsList
  phase : ∀ t ∈ s.transactionsList, phaseOf s'.log t = phaseOf s.log t
  get : ∀ t ∈ s.transactionsList, s'.get t = s.get t

theorem Extends.refl (s : Engine) : Extends s s := ⟨fun _ ht ↦ ht, fun _ _ ↦ rfl, fun _ _ ↦ rfl⟩

theorem Extends.trans {s'' : Engine} (hfirst : Extends s s') (hsecond : Extends s' s'') :
    Extends s s'' where
  list t ht := hsecond.list t (hfirst.list t ht)
  phase t ht := (hsecond.phase t (hfirst.list t ht)).trans (hfirst.phase t ht)
  get t ht := (hsecond.get t (hfirst.list t ht)).trans (hfirst.get t ht)

theorem SameBlocks.extends (hsame : SameBlocks s s') : Extends s s' := by
  obtain ⟨hmemb, hlist, hlog⟩ := hsame
  refine ⟨fun t ht ↦ by rwa [hlist], fun t _ ↦ by rw [hlog], fun t _ ↦ ?_⟩
  rw [Engine.get, Engine.get, hmemb]

theorem Accounted.not_listed (hs : Accounted s)
    (hnew : s.coapNewTransaction mid peer origin = some (t, s')) : t ∉ s.transactionsList := by
  obtain ⟨-, hzero, -⟩ := coapNewTransaction_spec hnew
  intro ht
  rw [(hs.used t ht).2] at hzero
  exact absurd hzero (by decide)

theorem Accounted.newTransaction (hs : Accounted s)
    (hnew : s.coapNewTransaction mid peer origin = some (t, s')) :
    Accounted s' ∧ Extends s s' ∧ t ∈ s'.transactionsList ∧
      phaseOf s'.log t = some (.active ⟨mid, peer, origin⟩ false) := by
  have hnot := hs.not_listed hnew
  obtain ⟨hlt, hzero, hnum, hcount, hlist, hlog, hmid, hpeer, -, -, hothers⟩ :=
    coapNewTransaction_spec hnew
  have hmem : ∀ u, u ∈ s'.transactionsList ↔ u ∈ s.transactionsList ∨ u = t := by
    intro u
    rw [hlist]
    exact mem_listAdd
  have hphase : phaseOf s'.log t = some (.active ⟨mid, peer, origin⟩ false) := by
    obtain ⟨due, hidle⟩ := hs.idle t hnot
    rw [hlog]
    exact phaseOf_append_self (e := .allocated t ⟨mid, peer, origin⟩) hidle
  have hphases : ∀ u, u ≠ t → phaseOf s'.log u = phaseOf s.log u := by
    intro u hu
    rw [hlog]
    exact phaseOf_append_of_ne (Ne.symm hu)
  have hne : ∀ u ∈ s.transactionsList, u ≠ t := fun u hu heq ↦ hnot (heq ▸ hu)
  refine ⟨⟨?_, ?_, ?_, ?_, ?_⟩, ⟨?_, ?_, ?_⟩, (hmem t).mpr (.inr rfl), hphase⟩
  · rw [hlist]
    exact nodup_listAdd hs.nodup
  · intro u hu
    rw [hnum, hcount]
    rcases (hmem u).mp hu with hold | rfl
    · rw [update_of_ne (hne u hold)]
      exact hs.used u hold
    · rw [update_self]
      exact ⟨hlt, rfl⟩
  · intro u hu
    obtain ⟨hold, hut⟩ := not_or.mp (fun h ↦ hu ((hmem u).mpr h))
    rw [hcount, update_of_ne hut]
    exact hs.unused u hold
  · intro u hu
    rcases (hmem u).mp hu with hold | rfl
    · rw [hphases u (hne u hold), hothers u (hne u hold)]
      exact hs.active u hold
    · exact ⟨_, _, hphase, hmid.symm, hpeer.symm⟩
  · intro u hu
    obtain ⟨hold, hut⟩ := not_or.mp (fun h ↦ hu ((hmem u).mpr h))
    rw [hphases u hut]
    exact hs.idle u hold
  · exact fun u hu ↦ (hmem u).mpr (.inl hu)
  · exact fun u hu ↦ hphases u (hne u hu)
  · exact fun u hu ↦ hothers u (hne u hu)

theorem clear_phase (hlisted : t ∈ s.transactionsList) {registered : Bool}
    (hphase : phaseOf s.log t = some (.active x registered)) (hends : x.EndsBy why) :
    phaseOf (s.coapClearTransaction t why).log t = some (.idle registered) := by
  change phaseOf (s.log ++ [.freed t (decide (t ∈ s.transactionsList)) why]) t = _
  rw [decide_eq_true hlisted]
  refine (phaseOf_append_self (e := .freed t true why) hphase).trans ?_
  change (if x.EndsBy why then some (Phase.idle registered) else none) = _
  rw [if_pos hends]

theorem clear_phase_of_ne (hu : u ≠ t) :
    phaseOf (s.coapClearTransaction t why).log u = phaseOf s.log u :=
  phaseOf_append_of_ne (Ne.symm hu)

theorem Accounted.clear (hs : Accounted s) (hlisted : t ∈ s.transactionsList) {registered : Bool}
    (hphase : phaseOf s.log t = some (.active x registered)) (hends : x.EndsBy why) :
    Accounted (s.coapClearTransaction t why) := by
  obtain ⟨hlt, hcount⟩ := hs.used t hlisted
  have hmem : ∀ u, u ∈ (s.coapClearTransaction t why).transactionsList ↔
      u ∈ s.transactionsList ∧ u ≠ t := fun u ↦ mem_listRemove hs.nodup
  have hget : ∀ u, (s.coapClearTransaction t why).get u = s.get u := by
    intro u
    change (s.transactionsMemb.free t).mem u = s.transactionsMemb.mem u
    rw [free_mem]
  refine ⟨nodup_listRemove hs.nodup, ?_, ?_, ?_, ?_⟩
  · intro u hu
    obtain ⟨hold, hut⟩ := (hmem u).mp hu
    change u < (s.transactionsMemb.free t).num ∧ (s.transactionsMemb.free t).count u = 1
    rw [free_num, free_count_of_ne hut]
    exact hs.used u hold
  · intro u hu
    change (s.transactionsMemb.free t).count u = 0
    by_cases hut : u = t
    · rw [hut, free_count_self hlt, hcount]
    · rw [free_count_of_ne hut]
      exact hs.unused u fun hold ↦ hu ((hmem u).mpr ⟨hold, hut⟩)
  · intro u hu
    obtain ⟨hold, hut⟩ := (hmem u).mp hu
    rw [clear_phase_of_ne hut, hget]
    exact hs.active u hold
  · intro u hu
    by_cases hut : u = t
    · rw [hut]
      exact ⟨registered, clear_phase hlisted hphase hends⟩
    · rw [clear_phase_of_ne hut]
      exact hs.idle u fun hold ↦ hu ((hmem u).mpr ⟨hold, hut⟩)

/-- What a block is in use for. -/
def originOf (log : List Entry) (t : ℕ) : Option Origin :=
  match phaseOf log t with
  | some (.active x _) => some x.origin
  | _ => none

/-- The callback field of a transaction is null, or the transaction is that of a request. -/
def OwnCallback (s : Engine) (t : ℕ) : Prop :=
  (s.get t).callback = none ∨ originOf s.log t = some .request

instance (s : Engine) (t : ℕ) : Decidable (OwnCallback s t) :=
  inferInstanceAs (Decidable (_ ∨ _))

theorem Accounted.invoke (hs : Accounted s)
    (hdue : (s.get t).callback = none ∨ phaseOf s.log t = some (.idle true)) :
    Accounted (s.invoke t message) := by
  unfold Engine.invoke
  cases hcallback : (s.get t).callback with
  | none => exact hs
  | some callback =>
    have hidle : phaseOf s.log t = some (.idle true) :=
      hdue.resolve_left (by rw [hcallback]; exact some_ne_none _)
    have hnot : t ∉ s.transactionsList := by
      intro ht
      obtain ⟨x, registered, hphase, -⟩ := hs.active t ht
      rw [hidle] at hphase
      cases hphase
    refine ⟨hs.nodup, hs.used, hs.unused, ?_, ?_⟩
    · intro u hu
      have hut : u ≠ t := fun heq ↦ hnot (heq ▸ hu)
      change ∃ x registered, phaseOf (s.log ++ [.invoked t]) u = _ ∧ _
      rw [phaseOf_append_of_ne (Ne.symm hut)]
      exact hs.active u hu
    · intro u hu
      change ∃ due, phaseOf (s.log ++ [.invoked t]) u = _
      by_cases hut : u = t
      · rw [hut]
        exact ⟨false, phaseOf_append_self (e := .invoked t) hidle⟩
      · rw [phaseOf_append_of_ne (Ne.symm hut)]
        exact hs.idle u hu

structure Orderly (s : Engine) : Prop where
  accounted : Accounted s
  registered : RequestsRegistered s

theorem Orderly.of_same (hs : Orderly s) (hsame : SameBlocks s s') : Orderly s' :=
  ⟨hs.accounted.of_same hsame, by rw [RequestsRegistered, hsame.log]; exact hs.registered⟩

theorem Orderly.store (hs : Orderly s) (hmid : y.mid = (s.get t).mid)
    (hpeer : y.peer = (s.get t).peer) : Orderly (s.store t y) :=
  ⟨hs.accounted.store hmid hpeer, hs.registered⟩

theorem Orderly.newTransaction (hs : Orderly s) (horigin : origin ≠ .request)
    (hnew : s.coapNewTransaction mid peer origin = some (t, s')) : Orderly s' := by
  obtain ⟨hs', -, -, hphase⟩ := hs.accounted.newTransaction hnew
  obtain ⟨-, -, -, -, -, hlog, -⟩ := coapNewTransaction_spec hnew
  refine ⟨hs', fun u x registered hactive hrequest ↦ ?_⟩
  by_cases hut : u = t
  · rw [hut, hphase] at hactive
    obtain ⟨rfl, -⟩ := Phase.active.inj (some.inj hactive)
    exact absurd hrequest horigin
  · rw [hlog, phaseOf_append_of_ne (Ne.symm hut)] at hactive
    exact hs.registered u x registered hactive hrequest

theorem RequestsRegistered.of_idle (hs : RequestsRegistered s)
    (hsame : ∀ u, u ≠ t → phaseOf s'.log u = phaseOf s.log u) {d : Bool}
    (hidle : phaseOf s'.log t = some (.idle d)) : RequestsRegistered s' := by
  intro u x registered hactive hrequest
  by_cases hut : u = t
  · rw [hut, hidle] at hactive
    cases hactive
  · rw [hsame u hut] at hactive
    exact hs u x registered hactive hrequest

section

variable (hs : Orderly s) (hlisted : t ∈ s.transactionsList) {registered : Bool}
  (hphase : phaseOf s.log t = some (.active x registered)) (hends : x.EndsBy why)

include hs hlisted hphase hends

theorem Orderly.clear : Orderly (s.coapClearTransaction t why) :=
  ⟨hs.accounted.clear hlisted hphase hends,
    hs.registered.of_idle (fun _ hu ↦ clear_phase_of_ne hu) (clear_phase hlisted hphase hends)⟩

theorem Orderly.clear_invoke (hown : OwnCallback s t) :
    Orderly ((s.coapClearTransaction t why).invoke t message) := by
  have hclear := hs.clear hlisted hphase hends
  have hidle := clear_phase hlisted hphase hends
  have hget : ((s.coapClearTransaction t why).get t).callback = (s.get t).callback := by
    change ((s.transactionsMemb.free t).mem t).callback = _
    rw [free_mem]
    rfl
  have hdue : ((s.coapClearTransaction t why).get t).callback = none ∨
      phaseOf (s.coapClearTransaction t why).log t = some (.idle true) := by
    rcases hown with hnone | hrequest
    · exact .inl (hget.trans hnone)
    · rw [originOf, hphase] at hrequest
      rw [hs.registered t x registered hphase (some.inj hrequest)] at hidle
      exact .inr hidle
  refine ⟨hclear.accounted.invoke hdue, ?_⟩
  unfold Engine.invoke
  cases hcallback : ((s.coapClearTransaction t why).get t).callback with
  | none => exact hclear.registered
  | some callback =>
    have hready := hdue.resolve_left (by rw [hcallback]; exact some_ne_none _)
    refine hclear.registered.of_idle (t := t) (d := false) (fun u hu ↦ ?_) ?_
    · exact phaseOf_append_of_ne (Ne.symm hu)
    · exact phaseOf_append_self (e := .invoked t) hready

end

end ContikiMaster.Coap
