import ContikiMaster.Tsch.SlotPackets

/-!
# Conservation of packets at the yields of a slot

Every allocated packet block is in exactly one place and is freed as often as it was given out, as
long as `tsch_queue_reset` does not flush the queues while a transmit slot is between its yields,
which frees the packet that the slot still holds.
-/

namespace ContikiMaster.Tsch

open Sys Lib List Option

namespace Interleaved

/-- The dequeued packets, without the one that has been freed and is about to leave the ring. -/
def waiting (x : Interleaved) : List ℕ :=
  if x.processing then x.mac.dequeued.tail else x.mac.dequeued

/-- The packet that the slot in progress holds, if it is in no queue. -/
def held (x : Interleaved) : List ℕ :=
  (x.slot.map TxSlot.packet).toList.filter fun p ↦ decide (p ∉ x.mac.view.queued)

def places (x : Interleaved) : List ℕ := x.mac.view.queued ++ x.waiting ++ x.held

end Interleaved

/-- The allocated packets are the ones in the places, each of them in one; a packet on its way out
of the dequeued ring is not allocated; and every block was freed as often as it was given out,
but for the time it is allocated. -/
structure Conserved (x : Interleaved) : Prop where
  onePlace : ∀ p, x.places.count p = x.mac.packetMemb.count p
  single : ∀ p, x.mac.packetMemb.count p ≤ 1
  processed : x.processing = true →
    ∃ p rest, x.mac.dequeued = p :: rest ∧ x.mac.packetMemb.count p = 0
  freedOnce : ∀ p, x.given p = x.freed p + x.mac.packetMemb.count p

/-- The process context is about to flush all queues. -/
def Interleaved.flushes (x : Interleaved) : Bool :=
  x.removing.isNone && x.collecting.isEmpty && !x.processing &&
    match x.todo with
    | .queueReset :: _ => true
    | _ => false

/-- No flush of the queues while a transmit slot is between its yields. -/
def FlushesBetweenSlots (x : Interleaved) : YieldOp → Prop
  | .main => x.flushes = true → x.slot.isNone = true
  | _ => True

instance (x : Interleaved) : (op : YieldOp) → Decidable (FlushesBetweenSlots x op)
  | .main => inferInstanceAs (Decidable (x.flushes = true → x.slot.isNone = true))
  | .call _ | .slotBegin _ | .slotEnd _ => .isTrue trivial

/-- What the steps keep: conservation, with the packet of the slot still the head of its queue. -/
structure YieldInv (x : Interleaved) : Prop where
  wf : PacketQueuesWF x.mac
  onePlace : ∀ p, x.mac.view.queued.count p + x.waiting.count p = x.mac.packetMemb.count p
  single : ∀ p, x.mac.packetMemb.count p ≤ 1
  processed : x.processing = true →
    ∃ p rest, x.mac.dequeued = p :: rest ∧ x.mac.packetMemb.count p = 0
  freedOnce : ∀ p, x.given p = x.freed p + x.mac.packetMemb.count p
  removing : ∀ n, x.removing = some n →
    (x.mac.neighbor n).txArray = [] ∧ (x.mac.neighbor n).isBroadcast = false
  head : ∀ tx, x.slot = some tx → tx.IsHead x.mac

section Invariant

variable {x y : Interleaved}

variable {tx : TxSlot} {s t : Mac} {env : SlotEnv} {rest : List ℕ} {op : YieldOp}

theorem TxSlot.IsHead.mem_queued (hhead : tx.IsHead s) : tx.packet ∈ s.view.queued :=
  mem_allItems.mpr ⟨tx.neighbor, hhead.1, mem_of_head? hhead.2⟩

theorem YieldInv.conserved (hinv : YieldInv x) : Conserved x := by
  have hheld : x.held = [] := by
    unfold Interleaved.held
    cases hslot : x.slot with
    | none => rfl
    | some tx =>
      have hqueued := (hinv.head tx hslot).mem_queued
      simp [hqueued]
  refine ⟨fun p ↦ ?_, hinv.single, hinv.processed, hinv.freedOnce⟩
  unfold Interleaved.places
  rw [hheld, append_nil, count_append]
  exact hinv.onePlace p

theorem YieldInv.exchange {given freed : List ℕ} (hinv : YieldInv x)
    (hexchange : Exchange given freed freed x.mac y.mac) (hprocessing : y.processing = x.processing)
    (hgiven : y.given = noteAll x.given given) (hfreed : y.freed = noteAll x.freed freed)
    (hfresh : ∀ p ∈ given, x.mac.packetMemb.count p = 0) (hnodup : given.Nodup)
    (hbusy : x.processing = true → given = []) (hremoving : ∀ n, y.removing = some n →
      (y.mac.neighbor n).txArray = [] ∧ (y.mac.neighbor n).isBroadcast = false)
    (hhead : ∀ tx, y.slot = some tx → tx.IsHead y.mac) : YieldInv y := by
  have hwaiting : y.waiting = x.waiting := by
    unfold Interleaved.waiting
    rw [hprocessing, hexchange.dequeued]
  refine ⟨hexchange.wf, fun p ↦ ?_, fun p ↦ ?_, fun hbusy' ↦ ?_, fun p ↦ ?_, hremoving, hhead⟩
  · have hqueued := hexchange.queued p
    have hcounted := hexchange.counted p
    have hplace := hinv.onePlace p
    rw [hwaiting]
    omega
  · have hcounted := hexchange.counted p
    have hsingle := hinv.single p
    by_cases hp : p ∈ given
    · rw [hfresh p hp, count_eq_one_of_mem hnodup hp] at hcounted
      omega
    · rw [count_eq_zero_of_not_mem hp] at hcounted
      omega
  · rw [hprocessing] at hbusy'
    obtain ⟨p, rest, hdequeued, hzero⟩ := hinv.processed hbusy'
    refine ⟨p, rest, hexchange.dequeued.trans hdequeued, ?_⟩
    have hcounted := hexchange.counted p
    rw [hbusy hbusy', hzero, count_nil] at hcounted
    omega
  · have hcounted := hexchange.counted p
    have hbalance := hinv.freedOnce p
    rw [hgiven, hfreed]
    unfold noteAll
    omega

theorem TxSlot.IsHead.keeps (hhead : tx.IsHead s) (hheads : KeepsHeads s t) : tx.IsHead t :=
  hheads tx.neighbor hhead.1 tx.packet hhead.2

theorem YieldInv.same (hinv : YieldInv x) (hsame : SamePackets x.mac y.mac)
    (hslot : y.slot = x.slot) (hprocessing : y.processing = x.processing)
    (hgiven : y.given = x.given) (hfreed : y.freed = x.freed)
    (hremoving : ∀ n, y.removing = some n →
      (x.mac.neighbor n).txArray = [] ∧ (x.mac.neighbor n).isBroadcast = false) : YieldInv y := by
  refine hinv.exchange (hsame.exchange hinv.wf) hprocessing hgiven hfreed (fun p hp ↦ nomatch hp)
    nodup_nil (fun _ ↦ rfl) (fun n hn ↦ ?_) fun tx htx ↦ ?_
  · rw [hsame.ring, hsame.broadcast]
    exact hremoving n hn
  · rw [hslot] at htx
    exact (hinv.head tx htx).keeps hsame.keepsHeads

theorem YieldInv.slotBegin {tx : Option TxSlot} (hinv : YieldInv x)
    (hcall : Tsch.slotBegin x.mac env = .ok (tx, s)) :
    YieldInv { x with mac := s, slot := tx, freed := noteAll x.freed (droppedInSlot x.mac) } := by
  obtain ⟨hexchange, hempty, hhead⟩ := slotBegin_spec hinv.wf hcall
  refine hinv.exchange hexchange rfl rfl rfl (fun p hp ↦ nomatch hp) nodup_nil
    (fun _ ↦ rfl) (fun n hn ↦ ?_) hhead
  obtain ⟨hring, hbroadcast⟩ := hinv.removing n hn
  exact ⟨hempty.empty n hring, (hempty.broadcast n).trans hbroadcast⟩

theorem YieldInv.slotEnd (hinv : YieldInv x) (hslot : x.slot = some tx)
    (hcall : Tsch.slotEnd x.mac tx env = .ok s) :
    YieldInv { x with mac := s, slot := none } := by
  obtain ⟨gone, hgone⟩ := slotEnd_spec hinv.wf (hinv.head tx hslot) hcall
  have hwaiting : ({ x with mac := s, slot := none } : Interleaved).waiting =
      x.waiting ++ gone := by
    unfold Interleaved.waiting
    change (if x.processing = true then s.dequeued.tail else s.dequeued) = _
    rw [hgone.dequeued]
    split
    · rename_i hbusy
      obtain ⟨p, rest, hdequeued, -⟩ := hinv.processed hbusy
      rw [hdequeued]
      rfl
    · rfl
  refine ⟨hgone.wf, fun p ↦ ?_, fun p ↦ ?_, fun hbusy ↦ ?_, fun p ↦ ?_, fun n hn ↦ ?_,
    fun tx htx ↦ nomatch htx⟩
  · have hqueued := hgone.queued p
    have hplace := hinv.onePlace p
    rw [hwaiting, count_append]
    change s.view.queued.count p + _ = s.packetMemb.count p
    rw [hgone.counted]
    omega
  · exact (hgone.counted p).trans_le (hinv.single p)
  · obtain ⟨p, rest, hdequeued, hzero⟩ := hinv.processed hbusy
    refine ⟨p, rest ++ gone, ?_, (hgone.counted p).trans hzero⟩
    change s.dequeued = _
    rw [hgone.dequeued, hdequeued]
    rfl
  · change x.given p = x.freed p + s.packetMemb.count p
    rw [hgone.counted]
    exact hinv.freedOnce p
  · obtain ⟨hring, hbroadcast⟩ := hinv.removing n hn
    exact ⟨hgone.keepsEmpty.empty n hring, (hgone.keepsEmpty.broadcast n).trans hbroadcast⟩

/-! ## Steps of the process context -/

theorem YieldInv.freeDequeued {p : ℕ} (hinv : YieldInv x) (hidle : x.removing = none)
    (hprocessing : x.processing = false) (hdequeued : x.mac.dequeued = p :: rest) :
    YieldInv { x with
      mac := tschQueueFreePacket x.mac p, processing := true
      collecting := Interleaved.toCollect (tschQueueFreePacket x.mac p)
      freed := noteAll x.freed [p] } := by
  have hwaiting : x.waiting = p :: rest := by
    unfold Interleaved.waiting
    rw [if_neg (by simp [hprocessing]), hdequeued]
  have hplace := hinv.onePlace p
  rw [hwaiting, count_cons_self] at hplace
  have hfreed := tschQueueFreePacket_exchange (p := p) hinv.wf (by omega)
  refine ⟨hfreed.wf, fun q ↦ ?_, fun q ↦ ?_, fun _ ↦ ⟨p, rest, hdequeued, ?_⟩, fun q ↦ ?_,
    fun n hn ↦ ?_, fun tx htx ↦ ?_⟩
  · have hqueued := hfreed.queued q
    have hcounted := hfreed.counted q
    have hplace := hinv.onePlace q
    rw [hwaiting, ← singleton_append, count_append] at hplace
    have hrest : ({ x with
        mac := tschQueueFreePacket x.mac p, processing := true
        collecting := Interleaved.toCollect (tschQueueFreePacket x.mac p)
        freed := noteAll x.freed [p] } : Interleaved).waiting = rest :=
      congrArg tail hdequeued
    rw [hrest]
    change (tschQueueFreePacket x.mac p).view.queued.count q + _ =
      (tschQueueFreePacket x.mac p).packetMemb.count q
    simp only [count_nil, Nat.add_zero] at hqueued hcounted
    change (tschQueueFreePacket x.mac p).packetMemb.count q + _ = _ at hcounted
    omega
  · have hcounted := hfreed.counted q
    have hsingle := hinv.single q
    simp only [count_nil, Nat.add_zero] at hcounted
    change (tschQueueFreePacket x.mac p).packetMemb.count q ≤ 1
    omega
  · have hcounted := hfreed.counted p
    have hsingle := hinv.single p
    rw [count_singleton_self, count_nil] at hcounted
    change (tschQueueFreePacket x.mac p).packetMemb.count p = 0
    omega
  · have hcounted := hfreed.counted q
    have hbalance := hinv.freedOnce q
    rw [count_nil] at hcounted
    change x.given q = x.freed q + [p].count q + (tschQueueFreePacket x.mac p).packetMemb.count q
    omega
  · rw [show x.removing = some n from hn] at hidle
    cases hidle
  · exact hinv.head tx htx

theorem YieldInv.advance (hinv : YieldInv x) (hprocessing : x.processing = true) :
    YieldInv { x with
      mac := { x.mac with dequeued := x.mac.dequeued.tail }, processing := false } := by
  have hwaiting : x.waiting = x.mac.dequeued.tail := if_pos hprocessing
  refine ⟨⟨hinv.wf.unlocked, hinv.wf.nodup, hinv.wf.used, hinv.wf.eb, hinv.wf.bound,
    hinv.wf.backed⟩, fun p ↦ ?_, hinv.single, (fun hbusy ↦ nomatch hbusy), hinv.freedOnce,
    hinv.removing, hinv.head⟩
  have hplace := hinv.onePlace p
  rw [hwaiting] at hplace
  exact hplace

theorem YieldInv.collect {n : ℕ} (hinv : YieldInv x) :
    YieldInv { x with
      removing := if neighborUnused x.mac n then some n else none, collecting := rest } := by
  refine hinv.same (.refl x.mac) rfl rfl rfl rfl fun m hm ↦ ?_
  change (if neighborUnused x.mac n = true then some n else none) = some m at hm
  split at hm
  · rename_i hunused
    obtain rfl := Option.some.inj hm
    simp only [neighborUnused, tschQueueIsEmpty, Bool.and_eq_true, Bool.not_eq_true',
      List.isEmpty_iff] at hunused
    exact ⟨hunused.2.2, hunused.1.1.1⟩
  · cases hm

theorem YieldInv.remove {n : ℕ} (hinv : YieldInv x) (hremoving : x.removing = some n)
    (hcall : tschQueueRemoveNbr x.mac n = .ok s) :
    YieldInv { x with
      mac := s, removing := none, freed := noteAll x.freed (x.mac.neighbor n).txArray } := by
  obtain ⟨hempty, hbroadcast⟩ := hinv.removing n hremoving
  obtain ⟨hexchange, hheads⟩ := tschQueueRemoveNbr_exchange hinv.wf hempty hbroadcast hcall
  refine hinv.exchange hexchange rfl rfl ?_ (fun p hp ↦ nomatch hp) nodup_nil
    (fun _ ↦ rfl) (fun m hm ↦ nomatch hm) fun tx htx ↦ (hinv.head tx htx).keeps hheads
  change noteAll x.freed (x.mac.neighbor n).txArray = _
  rw [hempty]

theorem resetVariables_samePackets {updated : Bool}
    (hcall : tschQueueUpdateTimeSource s none = .ok (updated, t)) :
    SamePackets s { t with
      tschJoinPriority := 0xff, tschCurrentAsn := ⟨0, 0⟩, currentLink := none } := by
  have hsame : SamePackets s t := by
    unfold tschQueueUpdateTimeSource at hcall
    split at hcall
    · cases hcall
      exact .refl _
    · cases hcall
      exact switchTimeSource_moves .refl .trans (fun _ _ _ ↦ .setNeighbor rfl rfl) s _ _
  exact hsame.trans ⟨rfl, rfl, rfl, rfl, fun _ ↦ rfl, fun _ ↦ rfl, rfl, rfl, rfl⟩

theorem YieldInv.stepNext {step : MainStep} {todo : List MainStep} (hinv : YieldInv x)
    (hidle : x.removing = none) (hprocessing : x.processing = false)
    (hguard : step = .queueReset → x.slot = none) (hnext : x.stepNext step todo = some y) :
    YieldInv y := by
  have hnone : ∀ (n : ℕ) {P : Prop}, x.removing = some n → P := by
    intro n P hn
    rw [hn] at hidle
    cases hidle
  cases step with
  | addPacket addr maxTransmissions packetbuf available =>
    obtain ⟨⟨q, s⟩, hcall, rfl⟩ := map_eq_some_iff.mp hnext
    obtain ⟨hexchange, hheads, hfresh⟩ :=
      tschQueueAddPacket_exchange hinv.wf (toOption_eq_some hcall)
    refine hinv.exchange hexchange rfl rfl rfl (fun p hp ↦ hfresh p (mem_toList.mp hp)) ?_
      (fun hbusy ↦ ?_) (fun n hn ↦ hnone n hn) fun tx htx ↦ (hinv.head tx htx).keeps hheads
    · cases q <;> simp
    · rw [hprocessing] at hbusy
      cases hbusy
  | processPending =>
    unfold Interleaved.stepNext at hnext
    dsimp only at hnext
    split at hnext
    · cases hnext
      exact hinv.same (.refl x.mac) rfl rfl rfl rfl hinv.removing
    · rename_i p rest hdequeued
      cases hnext
      exact hinv.freeDequeued hidle hprocessing hdequeued
  | freeUnusedNeighbors =>
    cases hnext
    exact hinv.same (.refl x.mac) rfl rfl rfl rfl hinv.removing
  | queueReset =>
    obtain ⟨s, hcall, rfl⟩ := map_eq_some_iff.mp hnext
    obtain ⟨hexchange, -⟩ := tschQueueReset_exchange hinv.wf (toOption_eq_some hcall)
    refine hinv.exchange hexchange rfl rfl rfl (fun p hp ↦ nomatch hp) nodup_nil
      (fun _ ↦ rfl) (fun n hn ↦ hnone n hn) fun tx htx ↦ ?_
    rw [show x.slot = some tx from htx] at hguard
    cases hguard rfl
  | disassociate =>
    cases hnext
    exact hinv.same ⟨rfl, rfl, rfl, rfl, fun _ ↦ rfl, fun _ ↦ rfl, rfl, rfl, rfl⟩ rfl rfl rfl rfl
      hinv.removing
  | resetVariables =>
    obtain ⟨⟨updated, s⟩, hcall, rfl⟩ := map_eq_some_iff.mp hnext
    exact hinv.same (resetVariables_samePackets (toOption_eq_some hcall)) rfl rfl rfl rfl
      hinv.removing

theorem YieldInv.next (hinv : YieldInv x)
    (hstep : GuardedStepOf Interleaved.next FlushesBetweenSlots x op y) : YieldInv y := by
  obtain ⟨hguard, hnext⟩ := hstep
  cases op with
  | call c =>
    change (if x.isIdle && c.enabled x.mac then some { x with todo := c.steps } else none) =
      some y at hnext
    split at hnext
    · cases hnext
      exact hinv.same (.refl x.mac) rfl rfl rfl rfl hinv.removing
    · cases hnext
  | main =>
    change x.mainNext = some y at hnext
    unfold Interleaved.mainNext at hnext
    split at hnext
    · rename_i n _ _ _ hremoving
      obtain ⟨s, hcall, rfl⟩ := map_eq_some_iff.mp hnext
      exact hinv.remove hremoving (toOption_eq_some hcall)
    · cases hnext
      exact hinv.collect
    · rename_i hprocessing
      cases hnext
      exact hinv.advance hprocessing
    · rename_i step todo hremoving hcollecting hprocessing htodo
      refine hinv.stepNext hremoving hprocessing (fun hflush ↦ ?_) hnext
      apply isNone_iff_eq_none.mp
      apply hguard
      unfold Interleaved.flushes
      rw [hremoving, hcollecting, hprocessing, htodo, hflush]
      rfl
    · cases hnext
  | slotBegin env =>
    change (if x.slot.isSome then none else (Tsch.slotBegin x.mac env).toOption.map _) =
      some y at hnext
    split at hnext
    · cases hnext
    · obtain ⟨⟨tx, s⟩, hcall, rfl⟩ := map_eq_some_iff.mp hnext
      exact hinv.slotBegin (toOption_eq_some hcall)
  | slotEnd env =>
    obtain ⟨tx, hslot, hend⟩ := bind_eq_some_iff.mp hnext
    obtain ⟨s, hcall, rfl⟩ := map_eq_some_iff.mp hend
    exact hinv.slotEnd hslot (toOption_eq_some hcall)

/-- A flush while a slot holds a packet frees that packet. -/
theorem YieldInv.loses (hinv : YieldInv x) (hguard : ¬ FlushesBetweenSlots x op)
    (hnext : x.next op = some y) : ¬ Conserved y := by
  obtain ⟨rfl, hflushes, tx, htx⟩ : op = .main ∧ x.flushes = true ∧ ∃ tx, x.slot = some tx := by
    cases op with
    | main =>
      change ¬ (x.flushes = true → x.slot.isNone = true) at hguard
      push Not at hguard
      refine ⟨rfl, hguard.1, Option.ne_none_iff_exists'.mp fun hnone ↦ hguard.2 ?_⟩
      rw [hnone]
      rfl
    | call c => exact absurd trivial hguard
    | slotBegin env => exact absurd trivial hguard
    | slotEnd env => exact absurd trivial hguard
  obtain ⟨hremoving, hcollecting, hprocessing, todo, htodo⟩ : x.removing = none ∧
      x.collecting = [] ∧ x.processing = false ∧ ∃ todo, x.todo = .queueReset :: todo := by
    unfold Interleaved.flushes at hflushes
    simp only [Bool.and_eq_true, Option.isNone_iff_eq_none, List.isEmpty_iff,
      Bool.not_eq_true'] at hflushes
    obtain ⟨⟨⟨hremoving, hcollecting⟩, hprocessing⟩, hreset⟩ := hflushes
    refine ⟨hremoving, hcollecting, hprocessing, ?_⟩
    split at hreset
    · rename_i todo htodo
      exact ⟨todo, htodo⟩
    · cases hreset
  change x.mainNext = some y at hnext
  unfold Interleaved.mainNext at hnext
  rw [hremoving, hcollecting, hprocessing, htodo] at hnext
  obtain ⟨s, hcall, rfl⟩ := Option.map_eq_some_iff.mp hnext
  obtain ⟨hexchange, hempty⟩ := tschQueueReset_exchange hinv.wf (toOption_eq_some hcall)
  intro hconserved
  have hgone : s.packetMemb.count tx.packet = 0 := by
    have hcounted := hexchange.counted tx.packet
    have hsingle := hinv.single tx.packet
    have hqueued := List.count_pos_iff.mpr (hinv.head tx htx).mem_queued
    rw [List.count_nil] at hcounted
    omega
  have hheld : tx.packet ∈ ({ x with
      mac := s, todo := todo
      freed := noteAll x.freed x.mac.view.queued } : Interleaved).places := by
    apply List.mem_append_right
    apply List.mem_filter.mpr
    refine ⟨?_, ?_⟩
    · change tx.packet ∈ (x.slot.map TxSlot.packet).toList
      rw [htx]
      exact List.mem_singleton_self tx.packet
    · rw [hempty]
      exact decide_eq_true List.not_mem_nil
  have hpos := List.count_pos_iff.mpr hheld
  rw [hconserved.onePlace tx.packet] at hpos
  exact absurd hgone hpos.ne'

end Invariant

theorem yieldInv_start {config : MacConfig} {ops : List MacOp} {s : Mac}
    (hqueues : 0 < config.maxNeighborQueues) (hrun : MacRun config ops s)
    (hempty : ∀ p, s.packetMemb.count p = 0) : YieldInv (.start s) := by
  obtain ⟨ledger, hledger⟩ := exists_ledger hrun
  have hinv := macInv_ledgerRun hqueues hledger
  have hnothing : ∀ p, p ∉ s.view.queued ++ s.dequeued :=
    fun p hp ↦ hinv.packets.tracked_used p hp (hempty p)
  have hqueued : s.view.queued = [] := eq_nil_iff_forall_not_mem.mpr fun p hp ↦
    hnothing p (mem_append_left _ hp)
  have hdequeued : s.dequeued = [] := eq_nil_iff_forall_not_mem.mpr fun p hp ↦
    hnothing p (mem_append_right _ hp)
  have hwf : PacketQueuesWF s := by
    refine ⟨hinv.unlocked, hinv.packets.nodup, hinv.packets.used, fun n hn ↦ ?_,
      fun p hp ↦ absurd (hempty p) hp, fun p ↦ ?_⟩
    · obtain ⟨e, he, heb, -, hbroadcast⟩ := hinv.packets.eb
      obtain rfl := some.inj (heb.symm.trans hn)
      exact ⟨he, hbroadcast⟩
    · rw [hqueued]
      exact Nat.zero_le _
  refine ⟨hwf, fun p ↦ ?_, fun p ↦ ?_, (fun hbusy ↦ nomatch hbusy), fun p ↦ ?_,
    (fun n hn ↦ nomatch hn), (fun tx htx ↦ nomatch htx)⟩
  · change s.view.queued.count p + s.dequeued.count p = s.packetMemb.count p
    rw [hqueued, hdequeued, hempty]
    rfl
  · exact (hempty p).trans_le (Nat.zero_le 1)
  · change 0 = 0 + s.packetMemb.count p
    rw [hempty]

/-- From every state without packets that the TSCH layer reaches, packets are conserved all along a
run of slots, calls and their waits exactly if no flush comes while a slot holds a packet. -/
theorem conserved_iff_flushesBetweenSlots {config : MacConfig} {ops : List MacOp} {s : Mac}
    {steps : List YieldOp} {x : Interleaved} (hqueues : 0 < config.maxNeighborQueues)
    (hrun : MacRun config ops s) (hempty : ∀ p, s.packetMemb.count p = 0) :
    Run (KeepingStepOf Interleaved.next Conserved) (.start s) steps x ↔
      Run (GuardedStepOf Interleaved.next FlushesBetweenSlots) (.start s) steps x :=
  Run.keeping_iff_guarded (fun _ hinv ↦ hinv.conserved) (fun _ _ _ hinv hstep ↦ hinv.next hstep)
    (fun _ _ _ hinv hguard hstep ↦ hinv.loses hguard hstep)
    (yieldInv_start hqueues hrun hempty)

/-- In every state that such a run reaches between two slots, the parts of a slot, with no step of the
process context in between, do what `tsch_slot_operation` does. -/
theorem slotParts_of_run {config : MacConfig} {ops : List MacOp} {s t : Mac} {steps : List YieldOp}
    {x : Interleaved} {env : SlotEnv} (hqueues : 0 < config.maxNeighborQueues)
    (hrun : MacRun config ops s) (hempty : ∀ p, s.packetMemb.count p = 0)
    (hsteps : Run (GuardedStepOf Interleaved.next FlushesBetweenSlots) (.start s) steps x)
    (hidle : x.slot = none) (hslot : (tschSlotOperation x.mac env).map Prod.snd = .ok t) :
    ∃ parts, parts <+: [.slotBegin env, .slotEnd env] ∧ execute Interleaved.next x parts =
      some { x with mac := t, slot := none, freed := noteAll x.freed (droppedInSlot x.mac) } := by
  have hinv : YieldInv x := hsteps.invariant (fun _ _ _ hinv hstep ↦ hinv.next hstep)
    (yieldInv_start hqueues hrun hempty)
  obtain ⟨⟨tx, u⟩, hbegin, hend⟩ :=
    bind_eq_ok ((tschSlotOperation_eq_parts hinv.wf env).symm.trans hslot)
  have hfirst : x.next (.slotBegin env) = some { x with
      mac := u, slot := tx, freed := noteAll x.freed (droppedInSlot x.mac) } := by
    rw [Interleaved.next, hidle, if_neg (by decide), hbegin]
    rfl
  cases tx with
  | none =>
    cases hend
    exact ⟨[.slotBegin env], ⟨[.slotEnd env], rfl⟩, by rw [execute, hfirst]; rfl⟩
  | some tx =>
    have hend : slotEnd u tx env = .ok t := hend
    refine ⟨_, prefix_rfl, ?_⟩
    rw [execute, hfirst]
    change (((slotEnd u tx env).toOption.map _).bind _) = _
    rw [hend]
    rfl

def linkedOps : List MacOp :=
  [.addSlotframe 1 40, .addLink (some 0) ⟨1, .normal, nodeAddr 3, 5, 0⟩,
    .synchronize ⟨100, 0⟩ 1 true, .startSlots]

def queueFlow (flow : ℕ) : ProcessCall :=
  .tschQueueAddPacket (flowAddr flow) 1 ⟨[1, 2, 3], nodeAddr 3, 1, flow, 200, 100⟩ true

/-- The slot of the link begins and ends with an acknowledged frame, and the packet is freed. -/
def acknowledgedSteps : List YieldOp :=
  [.call (queueFlow 1), .main, .slotBegin ⟨0, 0, false, 0⟩, .slotEnd ⟨0, 0, false, 0⟩,
    .call .tschTxProcessPending, .main, .main, .main, .main, .main, .main]

/-- The node leaves the network while the slot waits for the acknowledgement. A packet of flow 7,
which has no link, is flushed with the one the slot holds, and the collector waits for the end
of the slot to remove its queue. -/
def leavingSteps : List YieldOp :=
  [.call (queueFlow 1), .main, .call (queueFlow 7), .main, .slotBegin ⟨0, 0, false, 0⟩,
    .call .tschDisassociate, .main, .call .tschReset, .main, .main, .main, .main, .main, .main,
    .main, .slotEnd ⟨0, 0, false, 0⟩, .main, .main, .call .tschTxProcessPending, .main]

theorem exists_linkedSteps (next : Interleaved → YieldOp → Option Interleaved)
    (steps : List YieldOp) (check : Interleaved → Bool)
    (hany : ((runOps Mac.next smallConfig linkedOps).bind fun s ↦
      execute next (.start s) steps).any check = true) :
    ∃ s x, MacRun smallConfig linkedOps s ∧ (∀ p, s.packetMemb.count p = 0) ∧
      execute next (.start s) steps = some x ∧ check x = true := by
  obtain ⟨x, hsteps, hcheck⟩ := (any_eq_true _ _).mp hany
  obtain ⟨s, hruns, hexecute⟩ := bind_eq_some_iff.mp hsteps
  have hcount : (runOps Mac.next smallConfig linkedOps).map (fun s ↦ s.packetMemb.count) =
      some fun _ ↦ 0 := rfl
  rw [hruns] at hcount
  exact ⟨s, x, initRun_of_runOps hruns, congrFun (some.inj hcount), hexecute, hcheck⟩

theorem conserved_acknowledgedSteps : ∃ s x, MacRun smallConfig linkedOps s ∧
    Run (KeepingStepOf Interleaved.next Conserved) (.start s) acknowledgedSteps x ∧
      x.given 0 = 1 ∧ x.freed 0 = 1 := by
  obtain ⟨s, x, hrun, hempty, hexecute, hcheck⟩ := exists_linkedSteps
    (guardedNext Interleaved.next FlushesBetweenSlots) acknowledgedSteps
    (fun x ↦ x.given 0 == 1 && x.freed 0 == 1) (by decide +kernel)
  rw [Bool.and_eq_true, beq_iff_eq, beq_iff_eq] at hcheck
  refine ⟨s, x, hrun, ?_, hcheck⟩
  exact (conserved_iff_flushesBetweenSlots (by decide) hrun hempty).mpr
    (guardedRun_of_execute hexecute)

theorem slotParts_acknowledgedSteps : ∃ s x t, MacRun smallConfig linkedOps s ∧
    (tschSlotOperation x.mac ⟨0, 0, false, 0⟩).map Prod.snd = .ok t ∧
      ∃ parts, execute Interleaved.next x parts = some { x with
        mac := t, slot := none, freed := noteAll x.freed (droppedInSlot x.mac) } := by
  obtain ⟨s, x, hrun, hempty, hexecute, hcheck⟩ := exists_linkedSteps
    (guardedNext Interleaved.next FlushesBetweenSlots) (acknowledgedSteps.take 2)
    (fun x ↦ x.slot.isNone &&
      ((tschSlotOperation x.mac ⟨0, 0, false, 0⟩).map Prod.snd).toOption.isSome) (by decide +kernel)
  rw [Bool.and_eq_true, isNone_iff_eq_none, isSome_iff_exists] at hcheck
  obtain ⟨hidle, t, hslot⟩ := hcheck
  have hslot := toOption_eq_some hslot
  obtain ⟨parts, -, hparts⟩ := slotParts_of_run (by decide) hrun hempty
    (guardedRun_of_execute hexecute) hidle hslot
  exact ⟨s, x, t, hrun, hslot, parts, hparts⟩

theorem freedTwice_leavingSteps : ∃ s x, MacRun smallConfig linkedOps s ∧
    (∀ p, s.packetMemb.count p = 0) ∧ Run (StepOf Interleaved.next) (.start s) leavingSteps x ∧
      x.given 0 = 1 ∧ x.freed 0 = 2 := by
  obtain ⟨s, x, hrun, hempty, hexecute, hcheck⟩ := exists_linkedSteps Interleaved.next
    leavingSteps (fun x ↦ x.given 0 == 1 && x.freed 0 == 2) (by decide +kernel)
  rw [Bool.and_eq_true, beq_iff_eq, beq_iff_eq] at hcheck
  exact ⟨s, x, hrun, hempty, run_of_execute hexecute, hcheck⟩

end ContikiMaster.Tsch
