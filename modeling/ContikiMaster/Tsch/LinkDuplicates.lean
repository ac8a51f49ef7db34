import ContikiMaster.Lib.Latest
import ContikiMaster.Tsch.Mac

/-!
# Duplicate detection on a link

One counter of a byte that skips zero numbers the packets of all queues of a node. A
receiver keeps the last number of each of the senders it heard last. It passes a packet on
once if no other packet of its sender comes between two receptions, and if its number, when
it first comes, is not that of the sender's last packet.
-/

namespace ContikiMaster.Tsch

open Lib List

/-- `struct seqno`; sender zero is the null address of an entry that was never written. -/
structure Seqno where
  sender : ℕ
  timestamp : ℕ
  seqno : ℕ
  deriving DecidableEq

def maxSeqnos : ℕ := 16

def Seqno.blank : Seqno := ⟨0, 0, 0⟩

/-- `mac_sequence_is_duplicate`, with `SEQNO_MAX_AGE`: the first entry of the sender decides. -/
def macSequenceIsDuplicate (seqnoMaxAge : ℕ) (receivedSeqnos : List Seqno)
    (sender seqno now : ℕ) : Bool :=
  match receivedSeqnos.find? fun entry ↦ entry.sender = sender with
  | none => false
  | some entry => seqno == entry.seqno && decide (now - entry.timestamp ≤ seqnoMaxAge)

/-- `mac_sequence_register_seqno`: the entries before the sender's, or before the last one, move
back. -/
def macSequenceRegisterSeqno (receivedSeqnos : List Seqno) (sender seqno now : ℕ) : List Seqno :=
  remember Seqno.sender receivedSeqnos ⟨sender, now, seqno⟩

/-! ## Nodes that send and receive -/

/-- A packet as its sender numbered it: how many it had numbered with it, its queue, its destination
(`none` for all neighbours) and the number it carries. -/
structure LinkPacket where
  sender : ℕ
  index : ℕ
  flowNumber : ℕ
  destination : Option ℕ
  seqno : ℕ
  deriving DecidableEq

/-- What a node keeps for sending and receiving. The packets passed to the network layer are noted
with their time, the latest first, and so are the acknowledged ones. -/
structure LinkNode where
  tschPacketSeqno : ℕ
  numbered : ℕ
  queue : ℕ → List LinkPacket
  inputRing : List LinkPacket
  receivedSeqnos : List Seqno
  passed : List (LinkPacket × ℕ)
  acked : List LinkPacket

structure LinkLayer where
  now : ℕ
  node : ℕ → LinkNode

/-- `send_packet` puts a packet into the queue of its flow, if there is room; the first packet of a
queue is transmitted, some nodes receive it, and an acknowledgement may arrive, without which the
packet stays; the first packet of a queue is dropped; a node processes a received packet. -/
inductive LinkOp
  | sendPacket (i flowNumber : ℕ) (destination : Option ℕ) (queued : Bool)
  | transmit (i flowNumber : ℕ) (receivers : List ℕ) (acked : Bool)
  | drop (i flowNumber : ℕ)
  | packetInput (j : ℕ)
  | tick (ticks : ℕ)

namespace LinkNode

/-- A node with a random first number. -/
def start (seqno : ℕ) : LinkNode where
  tschPacketSeqno := seqno
  numbered := 0
  queue := fun _ ↦ []
  inputRing := []
  receivedSeqnos := replicate maxSeqnos Seqno.blank
  passed := []
  acked := []

def nextPacket (n : LinkNode) (i flowNumber : ℕ) (destination : Option ℕ) : LinkPacket :=
  ⟨i, n.numbered + 1, flowNumber, destination, nextSeqno n.tschPacketSeqno⟩

/-- `send_packet`, from the numbering on. -/
def sendPacket (n : LinkNode) (i flowNumber : ℕ) (destination : Option ℕ) (queued : Bool) :
    LinkNode :=
  { n with
    tschPacketSeqno := nextSeqno n.tschPacketSeqno
    numbered := n.numbered + 1
    queue := if queued then
        Function.update n.queue flowNumber
          (n.queue flowNumber ++ [n.nextPacket i flowNumber destination])
      else n.queue }

def receive (n : LinkNode) (p : LinkPacket) : LinkNode :=
  { n with inputRing := n.inputRing ++ [p] }

def dequeue (n : LinkNode) (flowNumber : ℕ) : LinkNode :=
  { n with queue := Function.update n.queue flowNumber (n.queue flowNumber).tail }

/-- `packet_input` for a data packet. -/
def packetInput (seqnoMaxAge : ℕ) (n : LinkNode) (now : ℕ) (p : LinkPacket) : LinkNode :=
  if macSequenceIsDuplicate seqnoMaxAge n.receivedSeqnos p.sender p.seqno now then n
  else { n with
    receivedSeqnos := macSequenceRegisterSeqno n.receivedSeqnos p.sender p.seqno now
    passed := (p, now) :: n.passed }

end LinkNode

namespace LinkLayer

def start (seqno : ℕ → ℕ) : LinkLayer := ⟨0, fun i ↦ LinkNode.start (seqno i)⟩

/-- A node that may receive a packet. -/
def Addressed (p : LinkPacket) (j : ℕ) : Prop := p.destination = none ∨ p.destination = some j

instance (p : LinkPacket) (j : ℕ) : Decidable (Addressed p j) :=
  inferInstanceAs (Decidable (_ ∨ _))

def next (seqnoMaxAge : ℕ) (x : LinkLayer) : LinkOp → Option LinkLayer
  | .sendPacket i flowNumber destination queued =>
    -- the null address belongs to no node
    if i = 0 then none
    else some { x with
      node := Function.update x.node i ((x.node i).sendPacket i flowNumber destination queued) }
  | .transmit i flowNumber receivers acked =>
    match (x.node i).queue flowNumber with
    | [] => none
    | p :: _ =>
      -- the acknowledgement of a node that received the packet
      if (∀ j ∈ receivers, Addressed p j) ∧
          (acked → ∃ j ∈ receivers, p.destination = some j) then
        let received := fun j ↦ if j ∈ receivers then (x.node j).receive p else x.node j
        some { x with
          node := if acked then
              Function.update received i
                { (received i).dequeue flowNumber with acked := p :: (received i).acked }
            else received }
      else none
  | .drop i flowNumber =>
    some { x with node := Function.update x.node i ((x.node i).dequeue flowNumber) }
  | .packetInput j =>
    match (x.node j).inputRing with
    | [] => none
    | p :: rest => some { x with
        node := Function.update x.node j
          (LinkNode.packetInput seqnoMaxAge { x.node j with inputRing := rest } x.now p) }
  | .tick ticks => some { x with now := x.now + ticks }

/-- The latest packet of each sender that a node passed on, with its time. -/
def latestPassed (n : LinkNode) : List (LinkPacket × ℕ) :=
  latest (fun entry ↦ entry.1.sender) n.passed

/-- A processed packet is as young as the memory of its sender. If it was passed on before, it is
the last one of its sender that was, and its sender is among those heard last. If not, the last one
of its sender is not a multiple of 255 packets away. -/
def Told (seqnoMaxAge : ℕ) (x : LinkLayer) : LinkOp → Prop
  | .packetInput j =>
    ∀ p ∈ (x.node j).inputRing.head?,
      (∀ entry ∈ latestPassed (x.node j), entry.1.sender = p.sender →
        x.now - entry.2 ≤ seqnoMaxAge) ∧
      ((∃ entry ∈ (x.node j).passed, entry.1 = p) →
        ∃ entry ∈ (latestPassed (x.node j)).take maxSeqnos, entry.1 = p) ∧
      ((∀ entry ∈ (x.node j).passed, entry.1 ≠ p) →
        ∀ entry ∈ latestPassed (x.node j), entry.1.sender = p.sender →
          entry.1.index % 255 ≠ p.index % 255)
  | _ => True

end LinkLayer

theorem iterate_nextSeqno {first : ℕ} (hfirst : first ≤ 255) (k : ℕ) :
    nextSeqno^[k + 1] first = (first + k) % 255 + 1 := by
  induction k with
  | zero =>
    change nextSeqno first = _
    unfold nextSeqno
    split <;> omega
  | succ k ih =>
    rw [Function.iterate_succ_apply', ih]
    unfold nextSeqno
    split <;> omega

/-- A packet carries the number that its sender's counter had. -/
structure LinkPacket.Genuine (first : ℕ → ℕ) (p : LinkPacket) : Prop where
  sender : p.sender ≠ 0
  index : 1 ≤ p.index
  seqno : p.seqno = nextSeqno^[p.index] (first p.sender)

variable {first : ℕ → ℕ}

theorem LinkPacket.Genuine.seqno_eq_iff (hfirst : ∀ i, first i ≤ 255) {p q : LinkPacket}
    (hp : p.Genuine first) (hq : q.Genuine first) (hsender : p.sender = q.sender) :
    p.seqno = q.seqno ↔ p.index % 255 = q.index % 255 := by
  obtain ⟨k, hk⟩ := Nat.exists_eq_add_of_le' hp.index
  obtain ⟨l, hl⟩ := Nat.exists_eq_add_of_le' hq.index
  rw [hp.seqno, hq.seqno, hsender, hk, hl, iterate_nextSeqno (hfirst _),
    iterate_nextSeqno (hfirst _)]
  omega

/-! ## What one node keeps -/

/-- The entry of a packet that was passed on. -/
def seqnoEntry (entry : LinkPacket × ℕ) : Seqno := ⟨entry.1.sender, entry.2, entry.1.seqno⟩

/-- The counter, the packets and the memory of a node fit each other. -/
structure LinkNode.Sound (first : ℕ → ℕ) (i : ℕ) (n : LinkNode) : Prop where
  counter : n.tschPacketSeqno = nextSeqno^[n.numbered] (first i)
  queue : ∀ f, ∀ p ∈ n.queue f, p.Genuine first
  ring : ∀ p ∈ n.inputRing, p.Genuine first
  passed : ∀ entry ∈ n.passed, entry.1.Genuine first
  table : n.receivedSeqnos =
    ((LinkLayer.latestPassed n).map seqnoEntry ++ replicate maxSeqnos Seqno.blank).take
      maxSeqnos
  nodup : (n.passed.map Prod.fst).Nodup

namespace LinkNode.Sound

variable {i : ℕ} {n : LinkNode} {p : LinkPacket} {seqnoMaxAge now : ℕ}

theorem start (i : ℕ) : (LinkNode.start (first i)).Sound first i :=
  ⟨rfl, nofun, nofun, nofun, rfl, nodup_nil⟩

section

variable (hsound : n.Sound first i)

include hsound

theorem sendPacket (hi : i ≠ 0) (flowNumber : ℕ) (destination : Option ℕ) (queued : Bool) :
    (n.sendPacket i flowNumber destination queued).Sound first i := by
  have hcounter : nextSeqno n.tschPacketSeqno = nextSeqno^[n.numbered + 1] (first i) := by
    rw [Function.iterate_succ_apply', ← hsound.counter]
  refine ⟨hcounter, ?_, hsound.ring, hsound.passed, hsound.table, hsound.nodup⟩
  intro f p hp
  cases queued with
  | false => exact hsound.queue f p hp
  | true =>
    change p ∈ Function.update n.queue flowNumber _ f at hp
    by_cases hf : f = flowNumber
    · rw [hf, Function.update_self] at hp
      rcases mem_append.mp hp with hold | hnew
      · exact hsound.queue _ p hold
      · rw [mem_singleton.mp hnew]
        exact ⟨hi, Nat.le_add_left 1 _, hcounter⟩
    · rw [Function.update_of_ne hf] at hp
      exact hsound.queue f p hp

theorem receive (hp : p.Genuine first) : (n.receive p).Sound first i := by
  refine ⟨hsound.counter, hsound.queue, ?_, hsound.passed, hsound.table, hsound.nodup⟩
  intro q hq
  rcases mem_append.mp hq with hold | hnew
  · exact hsound.ring q hold
  · rw [mem_singleton.mp hnew]
    exact hp

theorem dequeue (flowNumber : ℕ) : (n.dequeue flowNumber).Sound first i := by
  refine ⟨hsound.counter, ?_, hsound.ring, hsound.passed, hsound.table, hsound.nodup⟩
  intro f p hp
  change p ∈ Function.update n.queue flowNumber _ f at hp
  by_cases hf : f = flowNumber
  · rw [hf, Function.update_self] at hp
    exact hsound.queue _ p (mem_of_mem_tail hp)
  · rw [Function.update_of_ne hf] at hp
    exact hsound.queue f p hp

theorem isDuplicate {entry : LinkPacket × ℕ}
    (hentry : entry ∈ (LinkLayer.latestPassed n).take maxSeqnos)
    (hage : now - entry.2 ≤ seqnoMaxAge) :
    macSequenceIsDuplicate seqnoMaxAge n.receivedSeqnos entry.1.sender entry.1.seqno now =
      true := by
  have hfind : n.receivedSeqnos.find? (fun e ↦ e.sender = entry.1.sender) =
      some (seqnoEntry entry) := by
    have hlatest := find?_latest_unique hentry
    rw [hsound.table, take_append, ← map_take, find?_append, find?_map]
    change (Option.map seqnoEntry (find? (fun e ↦ decide (e.1.sender = entry.1.sender))
      ((LinkLayer.latestPassed n).take maxSeqnos))).or _ = _
    unfold LinkLayer.latestPassed
    rw [hlatest]
    rfl
  unfold macSequenceIsDuplicate
  rw [hfind]
  simp [seqnoEntry, hage]

theorem not_isDuplicate (hfirst : ∀ i, first i ≤ 255) (hp : p.Genuine first)
    (hother : ∀ entry ∈ LinkLayer.latestPassed n, entry.1.sender = p.sender →
      entry.1.index % 255 ≠ p.index % 255) :
    macSequenceIsDuplicate seqnoMaxAge n.receivedSeqnos p.sender p.seqno now = false := by
  unfold macSequenceIsDuplicate
  cases hfind : n.receivedSeqnos.find? fun e ↦ e.sender = p.sender with
  | none => rfl
  | some e =>
    have hsender : e.sender = p.sender := by
      have hfound := find?_some hfind
      exact of_decide_eq_true hfound
    have hmem := mem_of_find?_eq_some hfind
    rw [hsound.table] at hmem
    rcases mem_append.mp (mem_of_mem_take hmem) with hlatest | hblank
    · obtain ⟨entry, hentry, rfl⟩ := mem_map.mp hlatest
      have hgenuine := hsound.passed entry (mem_of_mem_latest hentry)
      have hne : p.seqno ≠ entry.1.seqno := by
        intro heq
        apply hother entry hentry hsender
        exact ((hgenuine.seqno_eq_iff hfirst hp hsender).mp heq.symm)
      change (p.seqno == entry.1.seqno && _) = false
      rw [beq_false_of_ne hne]
      rfl
    · rw [eq_of_mem_replicate hblank] at hsender
      exact absurd hsender.symm hp.sender

theorem register (hp : p.Genuine first) (now : ℕ) :
    macSequenceRegisterSeqno n.receivedSeqnos p.sender p.seqno now =
      ((latest (fun entry ↦ entry.1.sender) ((p, now) :: n.passed)).map seqnoEntry ++
        replicate maxSeqnos Seqno.blank).take maxSeqnos := by
  have hkeys : ((LinkLayer.latestPassed n).map seqnoEntry).Pairwise
      fun x y ↦ x.sender ≠ y.sender := by
    rw [pairwise_map]
    exact latest_keys n.passed
  unfold macSequenceRegisterSeqno
  rw [hsound.table]
  change remember Seqno.sender (take (15 + 1) _) _ = _
  rw [remember_take (fun heq ↦ hp.sender heq.symm) (by decide) hkeys, latest, map_cons, filter_map]
  rfl

theorem packetInput (hfirst : ∀ i, first i ≤ 255) (hp : p.Genuine first)
    (hage : ∀ entry ∈ LinkLayer.latestPassed n, entry.1.sender = p.sender →
      now - entry.2 ≤ seqnoMaxAge) (hold : (∃ entry ∈ n.passed, entry.1 = p) →
      ∃ entry ∈ (LinkLayer.latestPassed n).take maxSeqnos, entry.1 = p)
    (hnew : (∀ entry ∈ n.passed, entry.1 ≠ p) →
      ∀ entry ∈ LinkLayer.latestPassed n, entry.1.sender = p.sender →
        entry.1.index % 255 ≠ p.index % 255) : (n.packetInput seqnoMaxAge now p).Sound first i ∧
      ∃ entry ∈ (n.packetInput seqnoMaxAge now p).passed, entry.1 = p := by
  unfold LinkNode.packetInput
  by_cases hseen : ∃ entry ∈ n.passed, entry.1 = p
  · obtain ⟨entry, hentry, rfl⟩ := hold hseen
    rw [if_pos (hsound.isDuplicate hentry (hage entry (mem_of_mem_take hentry) rfl))]
    exact ⟨hsound, hseen⟩
  · have hunseen : ∀ entry ∈ n.passed, entry.1 ≠ p := fun entry hentry heq ↦
      hseen ⟨entry, hentry, heq⟩
    have hfresh : macSequenceIsDuplicate seqnoMaxAge n.receivedSeqnos p.sender p.seqno now =
        false := hsound.not_isDuplicate hfirst hp (hnew hunseen)
    rw [hfresh]
    refine ⟨⟨hsound.counter, hsound.queue, hsound.ring, ?_, hsound.register hp now, ?_⟩,
      (p, now), mem_cons_self, rfl⟩
    · intro entry hentry
      rcases mem_cons.mp hentry with rfl | hentry
      · exact hp
      · exact hsound.passed entry hentry
    · change (p :: n.passed.map Prod.fst).Nodup
      refine nodup_cons.mpr ⟨fun hmem ↦ ?_, hsound.nodup⟩
      obtain ⟨entry, hentry, heq⟩ := mem_map.mp hmem
      exact hunseen entry hentry heq

end

end LinkNode.Sound

/-! ## Runs -/

namespace LinkLayer

/-- A packet waits in the input queue of a node or was passed on by it. -/
def Arrived (n : LinkNode) (p : LinkPacket) : Prop :=
  p ∈ n.inputRing ∨ ∃ entry ∈ n.passed, entry.1 = p

/-- Every node is sound, and acknowledged packets have arrived. -/
structure Exact (first : ℕ → ℕ) (x : LinkLayer) : Prop where
  sound : ∀ i, (x.node i).Sound first i
  acked : ∀ i, ∀ p ∈ (x.node i).acked, ∃ j, p.destination = some j ∧ Arrived (x.node j) p

variable {first : ℕ → ℕ} {seqnoMaxAge : ℕ} {x : LinkLayer} {i : ℕ} {n : LinkNode}

theorem exact_start (first : ℕ → ℕ) : (LinkLayer.start first).Exact first :=
  ⟨fun i ↦ .start i, nofun⟩

theorem Exact.update (hexact : x.Exact first) (hn : n.Sound first i)
    (hacked : n.acked = (x.node i).acked) (harrived : ∀ p, Arrived (x.node i) p → Arrived n p) :
    Exact first { x with node := Function.update x.node i n } := by
  have hkept : ∀ j p, Arrived (x.node j) p → Arrived (Function.update x.node i n j) p := by
    intro j p harrives
    by_cases hj : j = i
    · rw [hj] at harrives ⊢
      rw [Function.update_self]
      exact harrived p harrives
    · rwa [Function.update_of_ne hj]
  constructor
  · intro j
    change (Function.update x.node i n j).Sound first j
    by_cases hj : j = i
    · rw [hj, Function.update_self]
      exact hn
    · rw [Function.update_of_ne hj]
      exact hexact.sound j
  · intro j p hp
    change p ∈ (Function.update x.node i n j).acked at hp
    have hold : p ∈ (x.node j).acked := by
      by_cases hj : j = i
      · rw [hj, Function.update_self, hacked] at hp
        rwa [hj]
      · rwa [Function.update_of_ne hj] at hp
    obtain ⟨d, hd, harrives⟩ := hexact.acked j p hold
    exact ⟨d, hd, hkept d p harrives⟩

theorem Exact.receive (hexact : x.Exact first) {p : LinkPacket} (hp : p.Genuine first)
    (receivers : List ℕ) :
    Exact first { x with
      node := fun j ↦ if j ∈ receivers then (x.node j).receive p else x.node j } := by
  have hkept : ∀ j q, Arrived (x.node j) q →
      Arrived (if j ∈ receivers then (x.node j).receive p else x.node j) q := by
    intro j q harrives
    split
    · exact harrives.imp_left fun hmem ↦ mem_append_left _ hmem
    · exact harrives
  constructor
  · intro j
    change (if j ∈ receivers then (x.node j).receive p else x.node j).Sound first j
    split
    · exact (hexact.sound j).receive hp
    · exact hexact.sound j
  · intro j q hq
    have hold : q ∈ (x.node j).acked := by
      change q ∈ (if j ∈ receivers then (x.node j).receive p else x.node j).acked at hq
      split at hq
      · exact hq
      · exact hq
    obtain ⟨d, hd, harrives⟩ := hexact.acked j q hold
    exact ⟨d, hd, hkept d q harrives⟩

theorem Exact.acknowledge (hexact : x.Exact first) {p : LinkPacket} {j : ℕ}
    (hdestination : p.destination = some j) (harrived : Arrived (x.node j) p) (flowNumber : ℕ) :
    Exact first { x with
      node := Function.update x.node i
        { (x.node i).dequeue flowNumber with acked := p :: (x.node i).acked } } := by
  have hsame : ∀ d q, Arrived (x.node d) q → Arrived (Function.update x.node i
      { (x.node i).dequeue flowNumber with acked := p :: (x.node i).acked } d) q := by
    intro d q harrives
    by_cases hd : d = i
    · rw [hd] at harrives ⊢
      rw [Function.update_self]
      exact harrives
    · rwa [Function.update_of_ne hd]
  constructor
  · intro k
    change (Function.update x.node i _ k).Sound first k
    by_cases hk : k = i
    · rw [hk, Function.update_self]
      obtain ⟨hcounter, hqueue, hring, hpassed, htable, hnodup⟩ :=
        (hexact.sound i).dequeue flowNumber
      exact ⟨hcounter, hqueue, hring, hpassed, htable, hnodup⟩
    · rw [Function.update_of_ne hk]
      exact hexact.sound k
  · intro k q hq
    change q ∈ (Function.update x.node i _ k).acked at hq
    have hold : q = p ∨ q ∈ (x.node k).acked := by
      by_cases hk : k = i
      · rw [hk, Function.update_self] at hq
        rw [hk]
        exact mem_cons.mp hq
      · rw [Function.update_of_ne hk] at hq
        exact Or.inr hq
    rcases hold with rfl | hold
    · exact ⟨j, hdestination, hsame j q harrived⟩
    · obtain ⟨d, hd, harrives⟩ := hexact.acked k q hold
      exact ⟨d, hd, hsame d q harrives⟩

theorem exact_step (hfirst : ∀ i, first i ≤ 255) (x : LinkLayer) (op : LinkOp) (y : LinkLayer)
    (hexact : x.Exact first)
    (hstep : GuardedStepOf (next seqnoMaxAge) (Told seqnoMaxAge) x op y) : y.Exact first := by
  obtain ⟨htold, hstep⟩ := hstep
  cases op with
  | sendPacket i flowNumber destination queued =>
    change (if _ then none else some _) = some y at hstep
    split at hstep
    · cases hstep
    · rename_i hi
      cases hstep
      exact hexact.update ((hexact.sound i).sendPacket hi flowNumber destination queued) rfl
        fun _ harrives ↦ harrives
  | transmit i flowNumber receivers acked =>
    unfold StepOf next at hstep
    dsimp only at hstep
    split at hstep
    · cases hstep
    · rename_i p rest hqueue
      split at hstep
      · rename_i hallowed
        have hp : p.Genuine first := by
          apply (hexact.sound i).queue flowNumber
          rw [hqueue]
          exact mem_cons_self
        have hreceived := hexact.receive hp receivers
        cases hstep
        cases acked with
        | false => exact hreceived
        | true =>
          obtain ⟨j, hj, hdestination⟩ := hallowed.2 rfl
          refine hreceived.acknowledge hdestination ?_ flowNumber
          left
          change p ∈ (if j ∈ receivers then (x.node j).receive p else x.node j).inputRing
          rw [if_pos hj]
          exact mem_append_right _ mem_cons_self
      · cases hstep
  | drop i flowNumber =>
    cases hstep
    exact hexact.update ((hexact.sound i).dequeue flowNumber) rfl fun _ harrives ↦ harrives
  | packetInput j =>
    unfold StepOf next at hstep
    dsimp only at hstep
    split at hstep
    · cases hstep
    · rename_i p rest hring
      cases hstep
      obtain ⟨hage, hold, hnew⟩ := htold p (by rw [hring]; rfl)
      obtain ⟨hcounter, hqueue, hgenuine, hpassed, htable, hnodup⟩ := hexact.sound j
      rw [hring] at hgenuine
      have hpopped : LinkNode.Sound first j { x.node j with inputRing := rest } :=
        ⟨hcounter, hqueue, fun q hq ↦ hgenuine q (mem_cons_of_mem p hq), hpassed, htable, hnodup⟩
      obtain ⟨hsound, hdone⟩ := hpopped.packetInput hfirst (hgenuine p mem_cons_self)
        hage hold hnew
      have hmore : ∀ entry ∈ (x.node j).passed, entry ∈
          (LinkNode.packetInput seqnoMaxAge { x.node j with inputRing := rest } x.now p).passed := by
        intro entry hentry
        unfold LinkNode.packetInput
        split
        · exact hentry
        · exact mem_cons_of_mem _ hentry
      have hring' : (LinkNode.packetInput seqnoMaxAge { x.node j with inputRing := rest } x.now
          p).inputRing = rest := by
        unfold LinkNode.packetInput
        split
        · rfl
        · rfl
      refine hexact.update hsound ?_ ?_
      · unfold LinkNode.packetInput
        split
        · rfl
        · rfl
      · rintro q (hq | ⟨entry, hentry, heq⟩)
        · rw [hring] at hq
          rcases mem_cons.mp hq with rfl | hq
          · exact Or.inr hdone
          · left
            rw [hring']
            exact hq
        · exact Or.inr ⟨entry, hmore entry hentry, heq⟩
  | tick ticks =>
    cases hstep
    exact ⟨hexact.sound, hexact.acked⟩

/-- In a run in which every processed packet can be told from the last one of its sender, no packet
is passed to the network layer of a node twice, and an acknowledged one has been passed on by its
destination or waits in the input queue there. -/
theorem passedOnce_of_toldRun {first : ℕ → ℕ} {seqnoMaxAge : ℕ} {ops : List LinkOp}
    {x : LinkLayer} (hfirst : ∀ i, first i ≤ 255)
    (hrun : Run (GuardedStepOf (next seqnoMaxAge) (Told seqnoMaxAge)) (LinkLayer.start first)
      ops x) :
    (∀ j, ((x.node j).passed.map Prod.fst).Nodup) ∧
      ∀ i, ∀ p ∈ (x.node i).acked, ∃ j, p.destination = some j ∧
        (p ∈ (x.node j).inputRing ∨ p ∈ (x.node j).passed.map Prod.fst) := by
  have hexact : x.Exact first := Run.invariant (exact_step hfirst) hrun (exact_start first)
  refine ⟨fun j ↦ (hexact.sound j).nodup, fun i p hp ↦ ?_⟩
  obtain ⟨j, hdestination, hring | hpassed⟩ := hexact.acked i p hp
  · exact ⟨j, hdestination, Or.inl hring⟩
  · exact ⟨j, hdestination, Or.inr (mem_map.mpr hpassed)⟩

instance (seqnoMaxAge : ℕ) : (x : LinkLayer) → (op : LinkOp) → Decidable (Told seqnoMaxAge x op)
  | x, .packetInput j => by
    unfold Told
    infer_instance
  | _, .sendPacket .. => .isTrue trivial
  | _, .transmit .. => .isTrue trivial
  | _, .drop .. => .isTrue trivial
  | _, .tick .. => .isTrue trivial

/-- The first acknowledgement is lost. -/
def retransmitOps : List LinkOp :=
  [.sendPacket 1 1 (some 2) true, .transmit 1 1 [2] false, .packetInput 2, .tick 100,
    .transmit 1 1 [2] true, .packetInput 2]

theorem passedOnce_retransmit : ∃ x : LinkLayer,
    Run (GuardedStepOf (next 2560) (Told 2560)) (LinkLayer.start fun _ ↦ 7) retransmitOps x ∧
      (x.node 1).acked.length = 1 ∧ (∀ j, ((x.node j).passed.map Prod.fst).Nodup) ∧
      ∀ i, ∀ p ∈ (x.node i).acked, ∃ j, p.destination = some j ∧
        (p ∈ (x.node j).inputRing ∨ p ∈ (x.node j).passed.map Prod.fst) := by
  obtain ⟨x, hrun, hcount⟩ : ∃ x : LinkLayer, Run (GuardedStepOf (next 2560) (Told 2560))
      (LinkLayer.start fun _ ↦ 7) retransmitOps x ∧ (x.node 1).acked.length = 1 :=
    exists_guardedRun (by decide +kernel)
  exact ⟨x, hrun, hcount, passedOnce_of_toldRun (fun _ ↦ by decide) hrun⟩

/-- Packets of two queues to one node, the first one transmitted again after the second. -/
def twoQueuesOps : List LinkOp :=
  [.sendPacket 1 1 (some 2) true, .sendPacket 1 2 (some 2) true, .transmit 1 1 [2] false,
    .packetInput 2, .transmit 1 2 [2] true, .packetInput 2, .transmit 1 1 [2] true,
    .packetInput 2]

/-- Two packets to one node, 255 numbers apart: those in between are for another node. -/
def wrapOps : List LinkOp :=
  [.sendPacket 1 1 (some 2) true, .transmit 1 1 [2] true, .packetInput 2] ++
    replicate 254 (.sendPacket 1 2 (some 3) false) ++
    [.sendPacket 1 1 (some 2) true, .transmit 1 1 [2] true, .packetInput 2]

/-- Sixteen other senders are heard between two receptions of a packet. -/
def manySendersOps : List LinkOp :=
  [.sendPacket 1 1 (some 2) true, .transmit 1 1 [2] false, .packetInput 2] ++
    (range 16).flatMap (fun k ↦
      [.sendPacket (k + 3) 1 (some 2) true, .transmit (k + 3) 1 [2] true, .packetInput 2]) ++
    [.transmit 1 1 [2] true, .packetInput 2]

/-- Packets of two queues, or the packets of more senders than the table has entries, are passed on
twice; after 255 packets an acknowledged one is taken for a duplicate. No time passes. -/
theorem not_passedOnce :
    (∃ x : LinkLayer, Run (StepOf (next 2560)) (LinkLayer.start fun _ ↦ 7) twoQueuesOps x ∧
      ¬ ((x.node 2).passed.map Prod.fst).Nodup) ∧
    (∃ x : LinkLayer, Run (StepOf (next 2560)) (LinkLayer.start fun _ ↦ 7) manySendersOps x ∧
      ¬ ((x.node 2).passed.map Prod.fst).Nodup) ∧
    ∃ x : LinkLayer, Run (StepOf (next 2560)) (LinkLayer.start fun _ ↦ 7) wrapOps x ∧
      ∃ p ∈ (x.node 1).acked, p.destination = some 2 ∧ (x.node 2).inputRing = [] ∧
        p ∉ (x.node 2).passed.map Prod.fst := by
  refine ⟨exists_run ?_, exists_run ?_, exists_run ?_⟩
  · decide +kernel
  · decide +kernel
  · decide +kernel

end LinkLayer

/-! ## The array of `mac-sequence.c` -/

/-- A received packet and the time, which is counted without an end; a timestamp is its remainder
modulo `2 ^ w`. -/
structure SeqnoCall where
  sender : ℕ
  seqno : UInt8
  now : ℕ

def SeqnoCall.entry (call : SeqnoCall) : Seqno := ⟨call.sender, call.now, call.seqno.toNat⟩

namespace SeqnoArray

/-- The loop that moves the entries before an index back. -/
def moveBack (receivedSeqnos : ℕ → Seqno) : ℕ → ℕ → Seqno
  | 0 => receivedSeqnos
  | j + 1 => moveBack (Function.update receivedSeqnos (j + 1) (receivedSeqnos j)) j

/-- Where the search for a sender stops. -/
def position (receivedSeqnos : ℕ → Seqno) (sender : ℕ) : ℕ :=
  ((range maxSeqnos).map receivedSeqnos).findIdx fun entry ↦ entry.sender = sender

/-- `mac_sequence_register_seqno`. -/
def register (receivedSeqnos : ℕ → Seqno) (call : SeqnoCall) : ℕ → Seqno :=
  let found := position receivedSeqnos call.sender
  let i := if found < maxSeqnos then found + 1 else maxSeqnos
  Function.update (moveBack receivedSeqnos (i - 1)) 0 call.entry

/-- `mac_sequence_is_duplicate`. -/
def isDuplicate (w seqnoMaxAge : ℕ) (receivedSeqnos : ℕ → Seqno) (call : SeqnoCall) : Bool :=
  match ((range maxSeqnos).map receivedSeqnos).find? fun entry ↦ entry.sender = call.sender with
  | none => false
  | some entry => call.seqno.toNat == entry.seqno && (seqnoMaxAge == 0 ||
    decide ((BitVec.ofNat w call.now - BitVec.ofNat w entry.timestamp).toNat ≤ seqnoMaxAge))

/-- The array after some calls, the latest first. -/
def after : List SeqnoCall → ℕ → Seqno
  | [] => fun _ ↦ Seqno.blank
  | call :: calls => register (after calls) call

/-- The last registration of each sender, the most recent first. -/
def heard (calls : List SeqnoCall) : List Seqno := latest Seqno.sender (calls.map SeqnoCall.entry)

theorem moveBack_apply (receivedSeqnos : ℕ → Seqno) (k j : ℕ) :
    moveBack receivedSeqnos k (j + 1) = receivedSeqnos (if j < k then j else j + 1) := by
  induction k generalizing receivedSeqnos with
  | zero => rfl
  | succ k ih =>
    rw [moveBack, ih]
    by_cases hjk : j < k
    · rw [if_pos hjk, if_pos (by omega), Function.update_of_ne (by omega)]
    · rw [if_neg hjk]
      by_cases heq : j = k
      · rw [heq, Function.update_self, if_pos (by omega)]
      · rw [Function.update_of_ne (by omega), if_neg (by omega)]

theorem map_range_eraseIdx {α : Type} (f : ℕ → α) {n k : ℕ} (hk : k ≤ n) :
    ((range (n + 1)).map f).eraseIdx k =
      (range n).map fun j ↦ f (if j < k then j else j + 1) := by
  ext1 j
  rw [getElem?_eraseIdx, getElem?_map, getElem?_map, getElem?_map]
  by_cases hj : j < k
  · rw [if_pos hj, getElem?_range (by omega), getElem?_range (by omega)]
    simp [hj]
  · rw [if_neg hj]
    by_cases hn : j < n
    · rw [getElem?_range (by omega), getElem?_range hn]
      simp [hj]
    · rw [getElem?_eq_none (by simp; omega), getElem?_eq_none (by simp; omega)]
      rfl

theorem register_eq (receivedSeqnos : ℕ → Seqno) (call : SeqnoCall) :
    (range maxSeqnos).map (register receivedSeqnos call) =
      remember Seqno.sender ((range maxSeqnos).map receivedSeqnos) call.entry := by
  have hlast : ((range maxSeqnos).map receivedSeqnos).length - 1 = 15 := by
    rw [length_map, length_range]
    rfl
  unfold remember
  rw [hlast, maxSeqnos, map_range_eraseIdx _ (min_le_right _ 15), range_succ_eq_map, map_cons,
    map_map]
  congr 1
  apply map_congr_left
  intro j _
  have hmoved := moveBack_apply receivedSeqnos
    ((if position receivedSeqnos call.sender < maxSeqnos then
      position receivedSeqnos call.sender + 1 else maxSeqnos) - 1) j
  have hindex : (if position receivedSeqnos call.sender < maxSeqnos then
      position receivedSeqnos call.sender + 1 else maxSeqnos) - 1 =
        min (position receivedSeqnos call.sender) 15 := by
    unfold maxSeqnos
    split <;> omega
  rw [hindex] at hmoved
  change Function.update (moveBack receivedSeqnos _) 0 call.entry (j + 1) = _
  rw [Function.update_of_ne (Nat.succ_ne_zero j), hindex]
  exact hmoved

variable {calls : List SeqnoCall}

theorem after_eq (hsenders : ∀ call ∈ calls, call.sender ≠ 0) :
    (range maxSeqnos).map (after calls) =
      (heard calls ++ replicate maxSeqnos Seqno.blank).take maxSeqnos := by
  induction calls with
  | nil => rfl
  | cons call calls ih =>
    obtain ⟨hsender, hrest⟩ := forall_mem_cons.mp hsenders
    rw [after, register_eq, ih hrest]
    exact remember_take hsender.symm (by decide) (latest_keys _)

/-- The difference of two times whose distance the clock can count. -/
theorem age_eq {w t now : ℕ} (hle : t ≤ now) (hage : now - t < 2 ^ w) :
    (BitVec.ofNat w now - BitVec.ofNat w t).toNat = now - t := by
  have hnow : BitVec.ofNat w now = BitVec.ofNat w t + BitVec.ofNat w (now - t) := by
    rw [← BitVec.ofNat_add, Nat.add_sub_cancel' hle]
  rw [hnow, BitVec.add_comm, BitVec.add_sub_cancel, BitVec.toNat_ofNat, Nat.mod_eq_of_lt hage]

theorem isDuplicate_iff {w seqnoMaxAge : ℕ} {call : SeqnoCall}
    (hsenders : ∀ call ∈ calls, call.sender ≠ 0) (hsender : call.sender ≠ 0)
    (hages : ∀ entry ∈ heard calls, entry.sender = call.sender →
      entry.timestamp ≤ call.now ∧ call.now - entry.timestamp < 2 ^ (w - 1)) :
    isDuplicate w seqnoMaxAge (after calls) call = true ↔
      ∃ entry ∈ (heard calls).take maxSeqnos, entry.sender = call.sender ∧
        entry.seqno = call.seqno.toNat ∧
          (seqnoMaxAge = 0 ∨ call.now - entry.timestamp ≤ seqnoMaxAge) := by
  have hblank : ((replicate maxSeqnos Seqno.blank).take (maxSeqnos - (heard calls).length)).find?
      (fun entry ↦ entry.sender = call.sender) = none := by
    apply find?_eq_none.mpr
    intro entry hentry
    rw [eq_of_mem_replicate (mem_of_mem_take hentry), decide_eq_true_iff]
    exact hsender.symm
  have hsearch : ((range maxSeqnos).map (after calls)).find?
      (fun entry ↦ entry.sender = call.sender) =
        ((heard calls).take maxSeqnos).find? fun entry ↦ entry.sender = call.sender := by
    rw [after_eq hsenders, take_append, find?_append, hblank, Option.or_none]
  unfold isDuplicate
  rw [hsearch]
  cases hfind : ((heard calls).take maxSeqnos).find? fun entry ↦ entry.sender = call.sender with
  | none =>
    have hnone := find?_eq_none.mp hfind
    apply iff_of_false Bool.false_ne_true
    intro ⟨entry, hentry, hkey, _⟩
    exact hnone entry hentry (decide_eq_true hkey)
  | some entry =>
    have hmem := mem_of_find?_eq_some hfind
    have hkey : entry.sender = call.sender := of_decide_eq_true (find?_some hfind :)
    obtain ⟨hle, hage⟩ := hages entry (mem_of_mem_take hmem) hkey
    have hwidth : 2 ^ (w - 1) ≤ 2 ^ w := Nat.pow_le_pow_right (by decide) (Nat.sub_le w 1)
    have honly : ∀ other ∈ (heard calls).take maxSeqnos, other.sender = call.sender →
        other = entry := fun other hother hsame ↦
      latest_unique (mem_of_mem_take hother) (mem_of_mem_take hmem) (hsame.trans hkey.symm)
    dsimp only
    rw [age_eq hle (by omega)]
    simp only [Bool.and_eq_true, Bool.or_eq_true, beq_iff_eq, decide_eq_true_eq]
    constructor
    · intro ⟨hseqno, hyoung⟩
      exact ⟨entry, hmem, hkey, hseqno.symm, hyoung⟩
    · intro ⟨other, hother, hsame, hseqno, hyoung⟩
      rw [honly other hother hsame] at hseqno hyoung
      exact ⟨hseqno.symm, hyoung⟩

/-- The array holds the last registrations of the senders heard last, and only a packet with the
number of one of these that is not too old is a duplicate. -/
theorem after_leastRecentlyHeard {calls : List SeqnoCall}
    (hsenders : ∀ call ∈ calls, call.sender ≠ 0) :
    ((range maxSeqnos).map (after calls) =
      (heard calls ++ replicate maxSeqnos Seqno.blank).take maxSeqnos) ∧
    ((heard calls).Pairwise fun x y ↦ x.sender ≠ y.sender) ∧
    ∀ (w seqnoMaxAge : ℕ) (call : SeqnoCall), call.sender ≠ 0 →
      (∀ entry ∈ heard calls, entry.sender = call.sender →
        entry.timestamp ≤ call.now ∧ call.now - entry.timestamp < 2 ^ (w - 1)) →
      (isDuplicate w seqnoMaxAge (after calls) call = true ↔
        ∃ entry ∈ (heard calls).take maxSeqnos, entry.sender = call.sender ∧
          entry.seqno = call.seqno.toNat ∧
            (seqnoMaxAge = 0 ∨ call.now - entry.timestamp ≤ seqnoMaxAge)) :=
  ⟨after_eq hsenders, latest_keys _, fun _ _ _ hsender hages ↦
    isDuplicate_iff hsenders hsender hages⟩

/-- Two senders, the first of which is heard again, and its packet is repeated after 30 ticks. -/
theorem after_leastRecentlyHeard_pair :
    ((range maxSeqnos).map (after [⟨1, 8, 200⟩, ⟨2, 5, 150⟩, ⟨1, 7, 100⟩])).take 3 =
      [⟨1, 200, 8⟩, ⟨2, 150, 5⟩, .blank] ∧
    isDuplicate 16 2560 (after [⟨1, 8, 200⟩, ⟨2, 5, 150⟩, ⟨1, 7, 100⟩]) ⟨1, 8, 230⟩ = true := by
  obtain ⟨htable, -, hduplicate⟩ := @after_leastRecentlyHeard
    [⟨1, 8, 200⟩, ⟨2, 5, 150⟩, ⟨1, 7, 100⟩] (by decide)
  constructor
  · rw [htable]
    rfl
  · rw [hduplicate 16 2560 ⟨1, 8, 230⟩ (by decide) (by decide)]
    decide

end SeqnoArray

end ContikiMaster.Tsch
