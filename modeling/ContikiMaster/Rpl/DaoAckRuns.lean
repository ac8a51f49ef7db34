import ContikiMaster.Rpl.DaoAck
import ContikiMaster.Rpl.LinkUpdate

/-!
# Acknowledged DAOs

In every run at the root, an acknowledgement answers the DAO with the K flag that was
accepted last, and an accepted one has changed the link graph as far as this keeps its
sender reachable.
-/

namespace ContikiMaster.Rpl.DaoAck

open Lib RplNs Function List Option

variable {dagId source : UipIpaddr} {unit : UInt16} {linkNum : ℕ} {ops : List Op} {s t : State}
  {op : Op} {ns ns' : RplNs} {dao : RplDao} {e : Acceptance} {log : List Event}

/-- The link of a child is expired where it is the one to the given parent; nothing else changes. -/
structure Expired (dagId : UipIpaddr) (s t : RplNs) (child parent : UipIpaddr) : Prop where
  nodelist : t.nodelist = s.nodelist
  parents : t.parentOf = s.parentOf
  identifiers : t.linkIdentifier = s.linkIdentifier
  lifetimes : ∀ p, (t.node p).lifetime =
    if s.rplNsGetNode dagId child = some p ∧
        (s.parentOf p).any (fun q ↦ nodeMatchesAddress dagId (s.node q) parent) then
      rplNopathRemovalDelay
    else (s.node p).lifetime

/-- The link graph has what the DAO carries: for a No-path DAO the link is expired, for another
one it is installed. -/
def Carried (dagId : UipIpaddr) (unit : UInt16) (e : Acceptance) : Prop :=
  if e.dao.lifetime = 0 then Expired dagId e.before e.after e.source e.dao.parent
  else ∃ p q, e.before.rplNsUpdateNode dagId e.source (some e.dao.parent)
      (rplLifetime unit e.dao.lifetime) = (some p, e.after) ∧
    Installed dagId e.before e.after e.source e.dao.parent (rplLifetime unit e.dao.lifetime) p q

variable (dagId) in
theorem rplNsExpireParent_expired (s : RplNs) (child parent : UipIpaddr) :
    Expired dagId s (s.rplNsExpireParent dagId child parent) child parent := by
  unfold rplNsExpireParent
  cases hget : s.rplNsGetNode dagId child with
  | none => exact ⟨rfl, rfl, rfl, fun p ↦ by simp [hget]⟩
  | some l =>
    dsimp only
    by_cases hmatches : (s.node l).parent.any fun q ↦ nodeMatchesAddress dagId (s.node q) parent
    · rw [if_pos hmatches]
      refine ⟨rfl, ?_, ?_, fun p ↦ ?_⟩
      · rw [writeNode_parentOf]
        exact update_eq_self l s.parentOf
      · rw [writeNode_linkIdentifier]
        exact update_eq_self l s.linkIdentifier
      · by_cases hp : l = p
        · subst hp
          rw [writeNode_node, if_pos ⟨hget, hmatches⟩]
        · rw [if_neg fun hboth ↦ hp (some.inj (hget.symm.trans hboth.1))]
          simp [node, writeNode, Sys.Memb.store, Ne.symm hp]
    · rw [if_neg hmatches]
      refine ⟨rfl, rfl, rfl, fun p ↦ ?_⟩
      rw [if_neg]
      rintro ⟨hsome, hparent⟩
      rw [← some.inj (hget.symm.trans hsome)] at hparent
      exact hmatches hparent

theorem carried_of_updateLink (hlisting : ns.Listing)
    (hupdate : updateLink dagId unit ns source dao = some ns') :
    Carried dagId unit ⟨source, dao, ns, ns'⟩ := by
  unfold updateLink at hupdate
  unfold Carried
  dsimp only
  by_cases hlifetime : dao.lifetime = 0
  · rw [if_pos hlifetime] at hupdate ⊢
    rw [← some.inj hupdate]
    apply rplNsExpireParent_expired
  · rw [if_neg hlifetime] at hupdate ⊢
    split at hupdate
    · cases hupdate
    · rename_i p t heq
      rw [← some.inj hupdate]
      obtain ⟨q, hinstalled⟩ := rplNsUpdateNode_installed hlisting heq
      exact ⟨p, q, heq, hinstalled⟩

theorem listing_of_updateLink (hlisting : ns.Listing)
    (hupdate : updateLink dagId unit ns source dao = some ns') : ns'.Listing := by
  unfold updateLink at hupdate
  by_cases hlifetime : dao.lifetime = 0
  · rw [if_pos hlifetime] at hupdate
    rw [← some.inj hupdate]
    apply hlisting.rplNsExpireParent
  · rw [if_neg hlifetime] at hupdate
    split at hupdate
    · cases hupdate
    · rename_i p t heq
      rw [← some.inj hupdate]
      have hnext := hlisting.rplNsUpdateNode dagId source dao.parent (rplLifetime unit dao.lifetime)
      rwa [heq] at hnext

/-- The acknowledgement that an event leaves to be sent. -/
def Event.awaiting : Event → Option (UipIpaddr × UInt16)
  | .accepted e => some (e.source, e.dao.sequence)
  | .acked _ _ => none

/-- The event that answers an accepted DAO. -/
def Acceptance.ack (e : Acceptance) : Event := .acked e.source e.dao.sequence.toUInt8

/-- Every acknowledgement answers the DAO that was accepted right before it, and an accepted one is
answered unless another one is accepted first or the timer has not expired yet. -/
structure Answered (s : State) : Prop where
  each : ∀ l₁ target sequence l₂, s.log = l₁ ++ .acked target sequence :: l₂ →
    ∃ l e, l₁ = l ++ [.accepted e] ∧ .acked target sequence = e.ack
  once : ∀ l₁ e event l₂, s.log = l₁ ++ .accepted e :: event :: l₂ →
    event = e.ack ∨ ∃ e', event = .accepted e'
  pending : s.pending = s.log.getLast?.bind Event.awaiting

/-- What every step keeps. -/
structure Sound (dagId : UipIpaddr) (unit : UInt16) (s : State) : Prop where
  listing : s.ns.Listing
  carried : ∀ e, .accepted e ∈ s.log → Carried dagId unit e
  each : ∀ l₁ target sequence l₂, s.log = l₁ ++ .acked target sequence :: l₂ →
    ∃ l e, l₁ = l ++ [.accepted e] ∧ .acked target sequence = e.ack
  pending : s.pending = s.log.getLast?.bind Event.awaiting

theorem Sound.answered (hsound : Sound dagId unit s) : Answered s where
  each := hsound.each
  pending := hsound.pending
  once := by
    intro l₁ e event l₂ hlog
    cases event with
    | accepted e' => exact Or.inr ⟨e', rfl⟩
    | acked target sequence =>
      left
      have hsplit : s.log = (l₁ ++ [.accepted e]) ++ .acked target sequence :: l₂ := by
        rw [hlog, append_assoc]
        rfl
      obtain ⟨l, e', hl, hack⟩ := hsound.each _ _ _ _ hsplit
      have hlast := (append_inj' hl rfl).2
      obtain rfl : e = e' := by simpa using hlast
      exact hack

theorem append_event_cases {new event : Event} {l₁ l₂ : List Event}
    (hlog : log ++ [new] = l₁ ++ event :: l₂) :
    l₁ = log ∧ event = new ∨ ∃ l₃, log = l₁ ++ event :: l₃ := by
  rcases eq_nil_or_concat' l₂ with rfl | ⟨l₃, last, rfl⟩
  · obtain ⟨rfl, hlast⟩ := append_inj' hlog rfl
    exact Or.inl ⟨rfl, (singleton_inj.mp hlast).symm⟩
  · rw [← cons_append, ← append_assoc] at hlog
    exact Or.inr ⟨l₃, (append_inj' hlog rfl).1⟩

theorem each_accepted (heach : ∀ l₁ target sequence l₂, log = l₁ ++ .acked target sequence :: l₂ →
      ∃ l e, l₁ = l ++ [.accepted e] ∧ .acked target sequence = e.ack)
    (l₁ : List Event) (target : UipIpaddr) (sequence : UInt8) (l₂ : List Event)
    (hlog : log ++ [.accepted e] = l₁ ++ .acked target sequence :: l₂) :
    ∃ l e, l₁ = l ++ [.accepted e] ∧ .acked target sequence = e.ack := by
  rcases append_event_cases hlog with ⟨-, hevent⟩ | ⟨l₃, hlog⟩
  · cases hevent
  · exact heach _ _ _ l₃ hlog

theorem each_acked {target : UipIpaddr} {sequence : UInt16}
    (heach : ∀ l₁ target sequence l₂, log = l₁ ++ .acked target sequence :: l₂ →
      ∃ l e, l₁ = l ++ [.accepted e] ∧ .acked target sequence = e.ack)
    (hpending : log.getLast?.bind Event.awaiting = some (target, sequence))
    (l₁ : List Event) (target' : UipIpaddr) (sequence' : UInt8) (l₂ : List Event)
    (hlog : log ++ [.acked target sequence.toUInt8] = l₁ ++ .acked target' sequence' :: l₂) :
    ∃ l e, l₁ = l ++ [.accepted e] ∧ .acked target' sequence' = e.ack := by
  rcases append_event_cases hlog with ⟨rfl, hlast⟩ | ⟨l₃, hlog⟩
  · obtain ⟨rfl, rfl⟩ := Event.acked.inj hlast
    obtain ⟨event, hevent, hawaiting⟩ := bind_eq_some_iff.mp hpending
    obtain ⟨l, rfl⟩ := getLast?_eq_some_iff.mp hevent
    cases event with
    | acked => cases hawaiting
    | accepted e =>
      obtain ⟨rfl, rfl⟩ := Prod.mk.inj (some.inj hawaiting)
      exact ⟨l, e, rfl, rfl⟩
  · exact heach _ _ _ l₃ hlog

variable (source dao) in
theorem Sound.rplProcessDao (hsound : Sound dagId unit s) :
    Sound dagId unit (rplProcessDao dagId unit s source dao) := by
  unfold DaoAck.rplProcessDao
  cases hupdate : updateLink dagId unit s.ns source dao with
  | none =>
    exact ⟨hsound.listing.rplNsUpdateNode _ _ _ _, hsound.carried, hsound.each, hsound.pending⟩
  | some ns =>
    have hlisting := listing_of_updateLink hsound.listing hupdate
    dsimp only
    split
    · refine ⟨hlisting, fun e he ↦ ?_, each_accepted hsound.each, ?_⟩
      · rcases mem_append.mp he with hold | hnew
        · exact hsound.carried e hold
        · rw [Event.accepted.inj (mem_singleton.mp hnew)]
          exact carried_of_updateLink hsound.listing hupdate
      · change some _ = ((s.log ++ [_]).getLast?).bind _
        rw [getLast?_concat]
        rfl
    · exact ⟨hlisting, hsound.carried, hsound.each, hsound.pending⟩

theorem Sound.handleDaoAckTimer (hsound : Sound dagId unit s)
    (hstep : handleDaoAckTimer s = some t) : Sound dagId unit t := by
  obtain ⟨⟨target, sequence⟩, hpending, rfl⟩ := map_eq_some_iff.mp hstep
  refine ⟨hsound.listing, fun e he ↦ ?_, each_acked hsound.each (hsound.pending ▸ hpending), ?_⟩
  · rcases mem_append.mp he with hold | hnew
    · exact hsound.carried e hold
    · cases mem_singleton.mp hnew
  · change none = ((s.log ++ [_]).getLast?).bind _
    rw [getLast?_concat]
    rfl

theorem Sound.next (hsound : Sound dagId unit s) (hnext : StepOf (next dagId unit) s op t) :
    Sound dagId unit t := by
  cases op with
  | dao source dao =>
    rw [← some.inj hnext]
    exact hsound.rplProcessDao source dao
  | ackTimer => exact hsound.handleDaoAckTimer hnext
  | periodic seconds =>
    rw [← some.inj hnext]
    exact ⟨(shrinks_rplNsPeriodic seconds hsound.listing).listing, hsound.carried, hsound.each,
      hsound.pending⟩

theorem init_sound (dagId : UipIpaddr) (unit : UInt16) (linkNum : ℕ) :
    Sound dagId unit (init linkNum) where
  listing := (init_linked linkNum).toListing
  carried e he := by cases he
  each l₁ target sequence l₂ hlog := by
    have hlength := congrArg length hlog
    simp [init] at hlength
  pending := rfl

/-- In every run an accepted DAO with the K flag has changed the link graph as it says, and it is
answered once, unless another one is accepted before the timer expires. -/
theorem answered_of_run (hrun : Run (StepOf (next dagId unit)) (init linkNum) ops s) :
    Answered s ∧ ∀ e, .accepted e ∈ s.log → Carried dagId unit e := by
  have hsound := hrun.invariant (fun _ _ _ hsound hstep ↦ Sound.next hsound hstep)
    (init_sound dagId unit linkNum)
  exact ⟨hsound.answered, hsound.carried⟩

/-- The bytes of the address with this identifier in the prefix `0xfd00::`. -/
def nodeBytes (identifier : UInt8) : AddressBytes :=
  fun j ↦ if j = 0 then 0xfd else if j = 15 then identifier else 0

/-- A DAO with the K flag of a node for its parent. -/
def daoOf (node parent sequence : UInt8) : Op :=
  .dao (.ofBytes (nodeBytes node))
    ⟨nodeBytes parent, nodeBytes node, sequence.toUInt16, 0, 30, 128, 0x80⟩

/-- The root is node 1. Node 3 joins below node 2, and then node 2 moves below node 3. -/
def loopOps : List Op :=
  [daoOf 2 1 240, .ackTimer, daoOf 3 2 240, .ackTimer, .periodic 60, daoOf 2 3 241, .ackTimer]

/-- The entry of the sender has the lifetime and the parent of the DAO. -/
def holdsLink (dagId : UipIpaddr) (unit : UInt16) (e : Acceptance) : Bool :=
  (e.after.rplNsGetNode dagId e.source).any fun p ↦
    (e.after.node p).lifetime == rplLifetime unit e.dao.lifetime &&
      (e.after.parentOf p).any fun q ↦ nodeMatchesAddress dagId (e.after.node q) e.dao.parent

theorem answered_loop :
    ∃ s, Run (StepOf (next (nodeAddr 1) 60)) (init 16) loopOps s ∧
      s.log.length = 6 ∧ Answered s ∧ ∀ e, .accepted e ∈ s.log → Carried (nodeAddr 1) 60 e := by
  obtain ⟨s, hrun, hlength⟩ : ∃ s, Run (StepOf (next (nodeAddr 1) 60)) (init 16) loopOps s ∧
      s.log.length = 6 := exists_run (by decide +kernel)
  exact ⟨s, hrun, hlength, answered_of_run hrun⟩

/-- The DAO of node 2 is acknowledged although its entry keeps the old parent. -/
theorem not_holdsLink :
    ¬ ∀ dagId unit linkNum ops s, Run (StepOf (next dagId unit)) (init linkNum) ops s →
      ∀ e, .accepted e ∈ s.log → holdsLink dagId unit e := by
  intro hall
  have hsome : ((execute (next (nodeAddr 1) 60) (init 16) loopOps).any fun s ↦
      s.log.any fun event ↦ match event with
        | .accepted e => !holdsLink (nodeAddr 1) 60 e
        | .acked _ _ => false) = true := by
    decide +kernel
  obtain ⟨s, hexecute, hbad⟩ := (any_eq_true _ _).mp hsome
  obtain ⟨event, hmem, hevent⟩ := any_eq_true.mp hbad
  cases event with
  | acked => cases hevent
  | accepted e =>
    have hgood := hall (nodeAddr 1) 60 16 _ s (run_of_execute hexecute) e hmem
    dsimp only at hevent
    rw [hgood] at hevent
    cases hevent

end ContikiMaster.Rpl.DaoAck
