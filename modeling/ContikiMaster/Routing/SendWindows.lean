import ContikiMaster.Lib.PeriodicWindows
import ContikiMaster.Routing.Duplicates
import ContikiMaster.Tsch.NextActiveLink

/-!
# The transmit windows of a sender

A packet of the application gets the earliest window of its flow that has not begun. A call that
would get the window of the packet before is refused, by a comparison of 16-bit slot numbers: the
first slot of the window with the last slot of the packet before. The two must be less than half
the circle apart, also at the first call; and a window of one slot does not come before its own
last slot, so that the next packet gets it too. With an `int` of 16 bits the window itself may be
a wrong one.
-/

namespace ContikiMaster.Routing

open Sys Tsch Lib List Option

variable {n m : Node} {W : PeriodicWindows} {env : OutputEnv} {out : Option NetworkOutput}

def Node.asn (n : Node) : ℕ := n.mac.tschCurrentAsn.value

/-- A node is a sender whose flow has these windows in its slotframe. -/
structure Node.SendsIn (n : Node) (W : PeriodicWindows) : Prop where
  own : n.ownTransmissionFlow ≠ 0
  slotframe : (tschScheduleGetSlotframeByHandle n.mac n.ownTransmissionFlow).map
    (fun sf ↦ (n.mac.slotframe sf).size) = some W.size
  /-- Sizes of slotframes are 16-bit numbers. -/
  size_lt : W.size < 65536
  count : W.size / n.scheduleLength = W.count
  first : ∀ i < W.count, n.firstTxSlotInFlow (n.ownTransmissionFlow - 1) i = W.first i
  last : ∀ i < W.count, n.lastTxSlotInFlow (n.ownTransmissionFlow - 1) i = W.last i

instance (n : Node) (W : PeriodicWindows) : Decidable (n.SendsIn W) :=
  decidable_of_iff
    (n.ownTransmissionFlow ≠ 0 ∧
      (tschScheduleGetSlotframeByHandle n.mac n.ownTransmissionFlow).map
        (fun sf ↦ (n.mac.slotframe sf).size) = some W.size ∧
      W.size < 65536 ∧ W.size / n.scheduleLength = W.count ∧
      (∀ i < W.count, n.firstTxSlotInFlow (n.ownTransmissionFlow - 1) i = W.first i) ∧
      ∀ i < W.count, n.lastTxSlotInFlow (n.ownTransmissionFlow - 1) i = W.last i)
    ⟨fun ⟨hown, hsf, hlt, hcount, hfirst, hlast⟩ ↦ ⟨hown, hsf, hlt, hcount, hfirst, hlast⟩,
      fun hsends ↦ ⟨hsends.own, hsends.slotframe, hsends.size_lt, hsends.count, hsends.first,
        hsends.last⟩⟩

/-- The numbers from which the next window is computed do not wrap: the remainder of the current
slot number is exact, and with an `int` of 16 bits the sums with the size are below 65536. -/
structure Node.Computes (n : Node) (W : PeriodicWindows) : Prop where
  remainder : n.mac.tschCurrentAsn.mod n.mac.intWidth W.size = n.asn % W.size
  sums : n.mac.intWidth = .bits16 → ∀ i < W.count, W.next n.asn = W.upcoming n.asn i →
    W.size + W.first i - n.asn % W.size < 65536 ∧ W.size + W.last i - W.first i < 65536

instance (n : Node) (W : PeriodicWindows) : Decidable (n.Computes W) :=
  decidable_of_iff
    (n.mac.tschCurrentAsn.mod n.mac.intWidth W.size = n.asn % W.size ∧
      (n.mac.intWidth = .bits16 → ∀ i < W.count, W.next n.asn = W.upcoming n.asn i →
        W.size + W.first i - n.asn % W.size < 65536 ∧ W.size + W.last i - W.first i < 65536))
    ⟨fun ⟨hremainder, hsums⟩ ↦ ⟨hremainder, hsums⟩,
      fun hcomputes ↦ ⟨hcomputes.remainder, hcomputes.sums⟩⟩

theorem Node.asn16_eq (n : Node) : n.asn16 = n.asn % 65536 := by
  unfold Node.asn16 Node.asn TschAsn.value
  omega

theorem firstNextIdx_cases (first : ℕ → ℕ) {count : ℕ} (hcount : 0 < count) (slot : ℕ) :
    (first (count - 1) < slot ∧ firstNextIdx first count slot = 0) ∨
      ∃ i < count, firstNextIdx first count slot = i ∧ slot ≤ first i ∧ ∀ j < i, first j < slot := by
  by_cases hwrap : first (count - 1) < slot
  · left
    unfold firstNextIdx
    exact ⟨hwrap, if_pos hwrap⟩
  · right
    have hsome : ((range count).find? fun index ↦ decide (slot ≤ first index)).isSome := by
      rw [find?_isSome]
      exact ⟨count - 1, mem_range.mpr (by omega), by simpa using hwrap⟩
    obtain ⟨i, hi⟩ := isSome_iff_exists.mp hsome
    have hidx : firstNextIdx first count slot = i := by
      unfold firstNextIdx
      rw [if_neg hwrap, hi, getD_some]
    obtain ⟨hle, hmem, hbefore⟩ := find?_range_eq_some.mp hi
    refine ⟨i, mem_range.mp hmem, hidx, of_decide_eq_true hle, fun j hj ↦ ?_⟩
    simpa using hbefore j hj

theorem exists_next_eq {first : ℕ → ℕ} (hfirst : ∀ i < W.count, first i = W.first i) (now : ℕ) :
    ∃ i < W.count, firstNextIdx first W.count (now % W.size) = i ∧
      W.next now = W.upcoming now i := by
  rcases firstNextIdx_cases first W.count_pos (now % W.size) with
    ⟨hwrap, hidx⟩ | ⟨i, hi, hidx, hle, hbefore⟩
  · refine ⟨0, W.count_pos, hidx, ?_⟩
    symm
    apply PeriodicWindows.IsNext.eq_next
    apply PeriodicWindows.isNext_of_forall_lt
    intro j hj
    have hend : W.count - 1 < W.count := Nat.sub_lt W.count_pos one_pos
    calc
      W.first j ≤ W.first (W.count - 1) := W.first_le (Nat.le_sub_one_of_lt hj) hend
      _ = first (W.count - 1) := (hfirst _ hend).symm
      _ < now % W.size := hwrap
  · refine ⟨i, hi, hidx, ?_⟩
    symm
    apply PeriodicWindows.IsNext.eq_next
    apply PeriodicWindows.isNext_of_le hi (hfirst i hi ▸ hle)
    intro j hj
    exact hfirst j (hj.trans hi) ▸ hbefore j hj

theorem Node.Computes.sums_eq {i : ℕ} (hcomputes : n.Computes W) (hsize : W.size < 65536)
    (hi : i < W.count) (hnext : W.next n.asn = W.upcoming n.asn i) :
    n.mac.intWidth.wrap (W.size + W.first i - n.asn % W.size) =
        W.size + W.first i - n.asn % W.size ∧
      n.mac.intWidth.value (W.size + W.last i - W.first i) = W.size + W.last i - W.first i := by
  have hwindow := W.le i hi
  have hround := W.lt_size i hi
  have hsums := hcomputes.sums
  unfold IntWidth.wrap
  cases hwidth : n.mac.intWidth with
  | bits32 => exact ⟨Nat.mod_eq_of_lt (by simp only [IntWidth.bits]; omega), rfl⟩
  | bits16 =>
    obtain ⟨hfirst, hlast⟩ := hsums hwidth i hi hnext
    refine ⟨Nat.mod_eq_of_lt hfirst, ?_⟩
    change (W.size + W.last i - W.first i : ℤ) % 65536 = _
    omega

theorem nextTxWindow_eq (hsends : n.SendsIn W) (hcomputes : n.Computes W) :
    nextTxWindow n = .ok ((W.next n.asn).1 % 65536, (W.next n.asn).2 % 65536) := by
  obtain ⟨sf, hsf, hsize⟩ := map_eq_some_iff.mp hsends.slotframe
  obtain ⟨i, hi, hidx, hnext⟩ := exists_next_eq hsends.first n.asn
  have hwindow := W.le i hi
  have hround := W.lt_size i hi
  have hlength : ((W.size : ℤ) + W.last i - W.first i).tmod W.size = W.last i - W.first i := by
    have hshift : (W.size : ℤ) + W.last i - W.first i = W.last i - W.first i + W.size := by omega
    rw [hshift, Int.tmod_eq_emod_of_nonneg (by omega), Int.add_emod_right,
      Int.emod_eq_of_lt (by omega) (by omega)]
  obtain ⟨huntil, hspan⟩ := hcomputes.sums_eq hsends.size_lt hi hnext
  unfold nextTxWindow
  rw [hsf]
  dsimp only
  rw [hsize, hsends.count, if_neg W.count_pos.ne', hcomputes.remainder]
  change Except.ok (_, _) = _
  rw [hidx, hsends.first i hi, hsends.last i hi, huntil, hspan, hlength, hnext, n.asn16_eq]
  change Except.ok ((n.asn % 65536 + W.untilFirst n.asn i) % 65536,
      ((((n.asn % 65536 + W.untilFirst n.asn i) % 65536 : ℕ) + ((W.last i : ℤ) - W.first i)) %
        65536).toNat) =
    Except.ok ((n.asn + W.untilFirst n.asn i) % 65536,
      (n.asn + W.untilFirst n.asn i + (W.last i - W.first i)) % 65536)
  congr 2
  · exact Nat.mod_add_mod _ _ _
  · omega

section Call

variable {data : PacketData} {datalen : ℕ}

theorem sendPrepared_keeps (hcall : sendPrepared n datalen env = .ok (out, m)) :
    m.mrp = n.mrp ∧ m.ownPacketNumber = n.ownPacketNumber ∧
      m.lastSentPacketTtl = n.lastSentPacketTtl := by
  unfold sendPrepared at hcall
  dsimp only at hcall
  split at hcall
  · cases hcall
    exact ⟨rfl, rfl, rfl⟩
  · obtain ⟨⟨o, u⟩, houtput, hdone⟩ := bind_eq_ok hcall
    cases hdone
    obtain ⟨-, mac, rfl⟩ := output_spec houtput
    exact ⟨rfl, rfl, rfl⟩

/-- The next window of a sender comes too early after its last packet, as the code sees it. -/
def Node.TooEarly (n : Node) (W : PeriodicWindows) : Prop :=
  SerialLt 32768 ((W.next n.asn).1 % 65536 : ℕ) n.lastSentPacketTtl

theorem masterRoutingSend_spec (hsends : n.SendsIn W) (hcomputes : n.Computes W)
    (hcall : masterRoutingSend n data datalen env = .ok (out, m)) :
    m.mrp.earliestTxSlot = (W.next n.asn).1 % 65536 ∧
      m.mrp.ttlSlotNumber = (W.next n.asn).2 % 65536 ∧
      (n.TooEarly W → m.ownPacketNumber = n.ownPacketNumber ∧
        m.lastSentPacketTtl = n.lastSentPacketTtl) ∧
      (¬ n.TooEarly W → m.ownPacketNumber = (n.ownPacketNumber + 1) % 65536 ∧
        m.lastSentPacketTtl = (W.next n.asn).2 % 65536) := by
  unfold masterRoutingSend at hcall
  rw [if_neg hsends.own] at hcall
  split at hcall
  · cases hcall
  rw [nextTxWindow_eq hsends hcomputes, ok_bind] at hcall
  dsimp only at hcall
  split at hcall
  · rename_i hearly
    cases hcall
    refine ⟨rfl, rfl, fun _ ↦ ⟨rfl, rfl⟩, fun hnot ↦ ?_⟩
    exact absurd (tschSlotnumLt_iff.mp hearly) hnot
  · rename_i hlate
    obtain ⟨hmrp, hnumber, httl⟩ := sendPrepared_keeps hcall
    rw [hmrp]
    refine ⟨rfl, rfl, fun hearly ↦ ?_, fun _ ↦ ⟨hnumber, httl⟩⟩
    exact absurd (tschSlotnumLt_iff.mpr hearly) hlate

end Call

/-- A call of `master_routing_send`, with the node it finds. -/
structure SendCall where
  node : Node
  data : PacketData
  datalen : ℕ
  env : OutputEnv

structure Attempt where
  before : Node
  after : Node

/-- The call took a packet number. -/
def Attempt.Accepted (a : Attempt) : Prop :=
  a.after.ownPacketNumber = (a.before.ownPacketNumber + 1) % 65536

instance (a : Attempt) : Decidable a.Accepted := inferInstanceAs (Decidable (_ = _))

/-- The earliest window that had not begun when the call was made. -/
def Attempt.window (W : PeriodicWindows) (a : Attempt) : ℕ × ℕ := W.next a.before.asn

/-- The call that took the last packet number, of those made, the latest first. -/
def lastAccepted (earlier : List Attempt) : Option Attempt := earlier.find? fun a ↦ a.Accepted

/-- A node is as the last call left it, except for what a send does not depend on or writes before
it reads; the slot number has not gone back. The first call finds no last TTL. -/
def Follows (n : Node) : List Attempt → Prop
  | [] => n.lastSentPacketTtl = 0
  | a :: _ => n.ownPacketNumber = a.after.ownPacketNumber ∧
      n.lastSentPacketTtl = a.after.lastSentPacketTtl ∧ a.before.asn ≤ n.asn

instance (n : Node) (earlier : List Attempt) : Decidable (Follows n earlier) := by
  cases earlier with
  | nil => exact inferInstanceAs (Decidable (_ = _))
  | cons a earlier => exact inferInstanceAs (Decidable (_ ∧ _))

/-- One more call of a sender with these windows. -/
def nextAttempt (W : PeriodicWindows) (earlier : List Attempt) (call : SendCall) :
    Option (List Attempt) :=
  if call.node.SendsIn W ∧ Follows call.node earlier then
    (masterRoutingSend call.node call.data call.datalen call.env).toOption.map fun result ↦
      ⟨call.node, result.2⟩ :: earlier
  else none

/-- The header of the packet has the earliest window that has not begun, and its length. -/
structure Attempt.GetsNext (a : Attempt) (W : PeriodicWindows) : Prop where
  isNext : W.IsNext a.before.asn (a.window W)
  earliest : a.after.mrp.earliestTxSlot = (a.window W).1 % 65536
  ttl : a.after.mrp.ttlSlotNumber = (a.window W).2 % 65536
  length : ((a.after.mrp.ttlSlotNumber : ℤ) - a.after.mrp.earliestTxSlot) % 65536 =
    (a.window W).2 - (a.window W).1

/-- What a sender promises of a call, given those before it. -/
structure Attempt.Honest (a : Attempt) (W : PeriodicWindows) (earlier : List Attempt) : Prop where
  getsNext : a.Accepted → a.GetsNext W
  disjoint : a.Accepted → ∀ b ∈ earlier, b.Accepted →
    Disjoint (Set.Icc (b.window W).1 (b.window W).2) (Set.Icc (a.window W).1 (a.window W).2)
  /-- A call is refused only if it would not get a later window than the last packet. -/
  refused : ¬ a.Accepted → ∃ b, lastAccepted earlier = some b ∧ (a.window W).1 ≤ (b.window W).1
  unchanged : ¬ a.Accepted → a.after.ownPacketNumber = a.before.ownPacketNumber ∧
    a.after.lastSentPacketTtl = a.before.lastSentPacketTtl

def HonestWindows (W : PeriodicWindows) : List Attempt → Prop
  | [] => True
  | a :: earlier => a.Honest W earlier ∧ HonestWindows W earlier

/-- The first window begins in the lower half of the 16-bit slot numbers, a later one less than
half of them after the end of the one before, and a window that a second call would get has more
than one slot. -/
def WindowFits (W : PeriodicWindows) (earlier : List Attempt) (call : SendCall) : Prop :=
  match lastAccepted earlier with
  | none => (W.next call.node.asn).1 % 65536 < 32768
  | some b =>
    if (b.window W).1 < (W.next call.node.asn).1 then
      ((W.next call.node.asn).1 - (b.window W).2) % 65536 < 32768
    else (b.window W).1 < (b.window W).2 ∧ (b.window W).2 - (b.window W).1 ≤ 32768

instance (W : PeriodicWindows) (earlier : List Attempt) (call : SendCall) :
    Decidable (WindowFits W earlier call) := by
  unfold WindowFits
  split <;> infer_instance

def CallFits (W : PeriodicWindows) (earlier : List Attempt) (call : SendCall) : Prop :=
  call.node.Computes W ∧ WindowFits W earlier call

instance (W : PeriodicWindows) (earlier : List Attempt) (call : SendCall) :
    Decidable (CallFits W earlier call) := inferInstanceAs (Decidable (_ ∧ _))

/-! ## The last TTL of a sender -/

section Runs

variable {a : Attempt} {earlier : List Attempt} {attempts : List Attempt} {call : SendCall}

def lastTtl (W : PeriodicWindows) (earlier : List Attempt) : ℕ :=
  (lastAccepted earlier).elim 0 fun b ↦ (b.window W).2 % 65536

/-- The node knows where the window of its last packet ends, and the calls come in order. -/
structure TracksTtl (W : PeriodicWindows) (attempts : List Attempt) : Prop where
  ttl : ∀ a ∈ attempts.head?, a.after.lastSentPacketTtl = lastTtl W attempts
  sorted : attempts.Pairwise fun a b ↦ b.before.asn ≤ a.before.asn

theorem TracksTtl.before (htracks : TracksTtl W earlier) (hfollows : Follows n earlier) :
    n.lastSentPacketTtl = lastTtl W earlier := by
  cases earlier with
  | nil => exact hfollows
  | cons b earlier => exact hfollows.2.1.trans (htracks.ttl b rfl)

theorem TracksTtl.asn_le (htracks : TracksTtl W earlier) (hfollows : Follows n earlier) :
    ∀ b ∈ earlier, b.before.asn ≤ n.asn := by
  cases earlier with
  | nil =>
    intro b hb
    cases hb
  | cons c earlier =>
    intro b hb
    rcases mem_cons.mp hb with rfl | hb
    · exact hfollows.2.2
    · exact (rel_of_pairwise_cons htracks.sorted hb).trans hfollows.2.2

theorem lastAccepted_spec {b : Attempt} (hlast : lastAccepted earlier = some b) :
    b ∈ earlier ∧ b.Accepted := by
  unfold lastAccepted at hlast
  exact ⟨mem_of_find?_eq_some hlast, by simpa using find?_some hlast⟩

theorem TracksTtl.window_le {b c : Attempt} (htracks : TracksTtl W earlier)
    (hlast : lastAccepted earlier = some b) (hc : c ∈ earlier) (haccepted : c.Accepted) :
    (c.window W).1 ≤ (b.window W).1 := by
  obtain ⟨-, later, before, rfl, hrefused⟩ := find?_eq_some_iff_append.mp hlast
  have hsorted := (pairwise_append.mp htracks.sorted).2.1
  rcases mem_append.mp hc with hlater | hrest
  · have hnot := hrefused c hlater
    simp [haccepted] at hnot
  · rcases mem_cons.mp hrest with rfl | hbefore
    · exact le_rfl
    · exact W.next_mono (rel_of_pairwise_cons hsorted hbefore)

theorem nextAttempt_spec (hcomputes : call.node.Computes W)
    (hstep : nextAttempt W earlier call = some attempts) :
    ∃ a, attempts = a :: earlier ∧ a.before = call.node ∧ Follows a.before earlier ∧ a.GetsNext W ∧
      (a.before.TooEarly W → ¬ a.Accepted ∧ a.after.ownPacketNumber = a.before.ownPacketNumber ∧
        a.after.lastSentPacketTtl = a.before.lastSentPacketTtl) ∧
      (¬ a.before.TooEarly W → a.Accepted ∧
        a.after.lastSentPacketTtl = (a.window W).2 % 65536) := by
  unfold nextAttempt at hstep
  split at hstep
  · rename_i hready
    obtain ⟨⟨out, m⟩, hcall, rfl⟩ := map_eq_some_iff.mp hstep
    obtain ⟨hearliest, httl, hrefused, haccepted⟩ :=
      masterRoutingSend_spec hready.1 hcomputes (toOption_eq_some hcall)
    refine ⟨_, rfl, rfl, hready.2, ⟨W.next_isNext _, hearliest, httl, ?_⟩, fun hearly ↦ ?_,
      haccepted⟩
    · have hwindow := (W.next_isNext call.node.asn).isWindow
      have hle := hwindow.le
      have hlt := hwindow.lt_add_size
      have hsize := hready.1.size_lt
      dsimp only
      rw [hearliest, httl]
      change _ = ((W.next call.node.asn).2 : ℤ) - (W.next call.node.asn).1
      omega
    · obtain ⟨hnumber, hlast⟩ := hrefused hearly
      refine ⟨fun htaken ↦ ?_, hnumber, hlast⟩
      have hnext : m.ownPacketNumber = (call.node.ownPacketNumber + 1) % 65536 := htaken
      omega
  · cases hstep

theorem nextAttempt_tracksTtl (htracks : TracksTtl W earlier) (hcomputes : call.node.Computes W)
    (hstep : nextAttempt W earlier call = some attempts) : TracksTtl W attempts := by
  obtain ⟨a, rfl, -, hfollows, -, hrefused, haccepted⟩ := nextAttempt_spec hcomputes hstep
  constructor
  · intro b hb
    cases hb
    unfold lastTtl lastAccepted
    by_cases hearly : a.before.TooEarly W
    · obtain ⟨hnot, -, hlast⟩ := hrefused hearly
      rw [find?_cons_of_neg (by simpa using hnot), hlast]
      exact htracks.before hfollows
    · obtain ⟨htaken, hlast⟩ := haccepted hearly
      rw [find?_cons_of_pos (by simpa using htaken)]
      exact hlast
  · exact pairwise_cons.mpr ⟨htracks.asn_le hfollows, htracks.sorted⟩

theorem serialLt_slots_iff {x y : ℤ} : SerialLt 32768 x y ↔ 32768 ≤ (x - y) % 65536 := by
  unfold SerialLt
  change Int.bmod _ 65536 < 0 ↔ _
  rw [Int.bmod_def]
  omega

theorem TracksTtl.tooEarly_iff {b : Attempt} (htracks : TracksTtl W earlier)
    (hfollows : Follows n earlier) (hlast : lastAccepted earlier = some b) :
    n.TooEarly W ↔ 32768 ≤ (((W.next n.asn).1 : ℤ) - (b.window W).2) % 65536 := by
  unfold Node.TooEarly
  rw [htracks.before hfollows, serialLt_slots_iff]
  unfold lastTtl
  rw [hlast]
  change 32768 ≤ ((((W.next n.asn).1 % 65536 : ℕ) : ℤ) - ((b.window W).2 % 65536 : ℕ)) % 65536 ↔ _
  omega

theorem honest_iff_windowFits (htracks : TracksTtl W earlier) (hcomputes : call.node.Computes W)
    (hstep : nextAttempt W earlier call = some (a :: earlier)) :
    a.Honest W earlier ↔ WindowFits W earlier call := by
  obtain ⟨a', heq, hbefore, hfollows, hgets, hrefused, haccepted⟩ := nextAttempt_spec hcomputes hstep
  obtain rfl : a = a' := (cons.inj heq).1
  rw [hbefore] at hfollows
  have hearly_iff : a.before.TooEarly W ↔ ¬ a.Accepted :=
    ⟨fun hearly ↦ (hrefused hearly).1, fun hnot ↦ by_contra fun hlate ↦ hnot (haccepted hlate).1⟩
  have hwindow : a.window W = W.next call.node.asn := congrArg (fun n : Node ↦ W.next n.asn) hbefore
  rw [hbefore] at hearly_iff
  unfold WindowFits
  cases hlast : lastAccepted earlier with
  | none =>
    have hnone : ∀ b ∈ earlier, ¬ b.Accepted := by
      intro b hb
      simpa using find?_eq_none.mp hlast b hb
    have hzero : call.node.TooEarly W ↔ 32768 ≤ (W.next call.node.asn).1 % 65536 := by
      unfold Node.TooEarly
      rw [htracks.before hfollows, serialLt_slots_iff]
      unfold lastTtl
      rw [hlast]
      change 32768 ≤ ((((W.next call.node.asn).1 % 65536 : ℕ) : ℤ) - (0 : ℕ)) % 65536 ↔ _
      omega
    calc
      a.Honest W earlier ↔ a.Accepted := by
        constructor
        · intro hhonest
          by_contra hnot
          obtain ⟨b, hb, -⟩ := hhonest.refused hnot
          rw [hlast] at hb
          cases hb
        · intro htaken
          exact ⟨fun _ ↦ hgets, fun _ b hb hpast ↦ absurd hpast (hnone b hb),
            fun hnot ↦ absurd htaken hnot, fun hnot ↦ absurd htaken hnot⟩
      _ ↔ (W.next call.node.asn).1 % 65536 < 32768 := by
        rw [← not_iff_not, ← hearly_iff, hzero, not_lt]
  | some b =>
    obtain ⟨hmem, hpast⟩ := lastAccepted_spec hlast
    have htoo := htracks.tooEarly_iff hfollows hlast
    have hisWindow : W.IsWindow (b.window W) := (W.next_isNext _).isWindow
    have hisWindow' : W.IsWindow (W.next call.node.asn) := (W.next_isNext _).isWindow
    dsimp only
    split
    · rename_i hlater
      have hend := hisWindow.separated hisWindow' hlater
      calc
        a.Honest W earlier ↔ a.Accepted := by
          constructor
          · intro hhonest
            by_contra hnot
            obtain ⟨c, hc, hle⟩ := hhonest.refused hnot
            rw [hlast] at hc
            cases hc
            rw [hwindow] at hle
            omega
          · intro htaken
            refine ⟨fun _ ↦ hgets, fun _ c hc hprevious ↦ ?_, fun hnot ↦ absurd htaken hnot,
              fun hnot ↦ absurd htaken hnot⟩
            rw [hwindow]
            exact (W.next_isNext _).isWindow.disjoint hisWindow'
              ((htracks.window_le hlast hc hprevious).trans_lt hlater)
        _ ↔ ((W.next call.node.asn).1 - (b.window W).2) % 65536 < 32768 := by
          rw [← not_iff_not, ← hearly_iff, htoo, not_lt]
          omega
    · rename_i hsame
      have hle : (b.window W).1 ≤ (W.next call.node.asn).1 :=
        W.next_mono (htracks.asn_le hfollows b hmem)
      have hrepeated : W.next call.node.asn = b.window W :=
        hisWindow'.eq_of_fst hisWindow (by omega)
      have hspan := hisWindow.le
      have hlength := hisWindow.lt_add_size
      have hsize : W.size < 65536 := by
        by_contra hlarge
        unfold nextAttempt at hstep
        rw [if_neg fun hready ↦ hlarge hready.1.size_lt] at hstep
        cases hstep
      rw [hrepeated] at htoo hwindow
      calc
        a.Honest W earlier ↔ ¬ a.Accepted := by
          constructor
          · intro hhonest htaken
            have hdisjoint := hhonest.disjoint htaken b hmem hpast
            rw [hwindow] at hdisjoint
            exact hisWindow.not_disjoint_self hdisjoint
          · intro hnot
            refine ⟨fun htaken ↦ absurd htaken hnot, fun htaken ↦ absurd htaken hnot,
              fun _ ↦ ⟨b, hlast, (congrArg Prod.fst hwindow).le⟩, fun _ ↦ ?_⟩
            exact (hrefused (hbefore ▸ hearly_iff.mpr hnot)).2
        _ ↔ (b.window W).1 < (b.window W).2 ∧ (b.window W).2 - (b.window W).1 ≤ 32768 := by
          rw [← hearly_iff, htoo]
          omega

theorem guardedNext_eq_some_iff : guardedNext (nextAttempt W) (fun _ call ↦ call.node.Computes W)
      earlier call = some attempts ↔
    call.node.Computes W ∧ nextAttempt W earlier call = some attempts := by
  unfold guardedNext
  split
  · rename_i hcomputes
    simp [hcomputes]
  · rename_i hnot
    simp [hnot]

/-- Where the windows are computed exactly, every call of a run is honest exactly if the windows fit
the comparison of 16-bit slot numbers. -/
theorem honestWindows_iff_of_computes {calls : List SendCall}
    (hrun : Run (GuardedStepOf (nextAttempt W) fun _ call ↦ call.node.Computes W) [] calls attempts) :
    HonestWindows W attempts ↔
      Run (GuardedStepOf (nextAttempt W) (CallFits W)) [] calls attempts := by
  have hstart : TracksTtl W [] := by
    refine ⟨fun a ha ↦ ?_, List.Pairwise.nil⟩
    cases ha
  have hexact : Run (StepOf (guardedNext (nextAttempt W) fun _ call ↦ call.node.Computes W)) [] calls
      attempts := hrun.mono fun _ _ _ hstep ↦ guardedNext_eq_some_iff.mpr hstep
  have hiff := hexact.good_iff_guarded_of_invariant (I := TracksTtl W) (P := HonestWindows W)
    (p := WindowFits W) (fun s call t htracks hstep ↦ ?_) (fun s call t htracks hstep ↦ ?_) hstart
  · refine hiff.trans ((and_iff_right trivial).trans ⟨fun hfits ↦ ?_, fun hfits ↦ ?_⟩)
    · refine hfits.mono fun _ _ _ ⟨hwindow, hstep⟩ ↦ ?_
      obtain ⟨hcomputes, hnext⟩ := guardedNext_eq_some_iff.mp hstep
      exact ⟨⟨hcomputes, hwindow⟩, hnext⟩
    · exact hfits.mono fun _ _ _ ⟨⟨hcomputes, hwindow⟩, hnext⟩ ↦
        ⟨hwindow, guardedNext_eq_some_iff.mpr ⟨hcomputes, hnext⟩⟩
  · obtain ⟨hcomputes, hnext⟩ := guardedNext_eq_some_iff.mp hstep
    exact nextAttempt_tracksTtl htracks hcomputes hnext
  · obtain ⟨hcomputes, hnext⟩ := guardedNext_eq_some_iff.mp hstep
    obtain ⟨a, rfl, -⟩ := nextAttempt_spec hcomputes hnext
    rw [← honest_iff_windowFits htracks hcomputes hnext]
    exact and_comm

/-- In every run whose calls all meet the condition, the packets get disjoint windows, each the
earliest, and only repeated windows are refused. Where the windows are computed exactly, the
condition is also necessary. -/
theorem honestWindows_of_callFits {calls : List SendCall} :
    (Run (GuardedStepOf (nextAttempt W) (CallFits W)) [] calls attempts → HonestWindows W attempts) ∧
      (Run (GuardedStepOf (nextAttempt W) fun _ call ↦ call.node.Computes W) [] calls attempts →
        HonestWindows W attempts →
          Run (GuardedStepOf (nextAttempt W) (CallFits W)) [] calls attempts) := by
  refine ⟨fun hfits ↦ ?_, fun hrun ↦ (honestWindows_iff_of_computes hrun).mp⟩
  have hrun := hfits.mono fun _ _ _ ⟨⟨hcomputes, _⟩, hnext⟩ ↦ And.intro hcomputes hnext
  exact (honestWindows_iff_of_computes hrun).mpr hfits

end Runs

/-- The windows of a flow in a slotframe of ten slots, from slot 3 to slot 5. -/
def oneWindow : PeriodicWindows where
  size := 10
  count := 1
  first := fun _ ↦ 3
  last := fun _ ↦ 5
  count_pos := one_pos
  le := fun _ _ ↦ by decide
  lt_size := fun _ _ ↦ by decide
  sorted := fun _ _ hlt hcount ↦ by omega

/-- Node 1 of two with the schedule of one flow, in some slot, after some packets. -/
def senderAt (asn packetNumber ttl : ℕ) : Node :=
  let n := ((execute (nextSending firstOfTwo) firstOfTwo.initial
    [.start, .installSchedule 11, .applyGeneratedSchedule oneFlow]).getD firstOfTwo.initial).1
  { n with
    ownPacketNumber := packetNumber
    lastSentPacketTtl := ttl
    mac := { n.mac with tschCurrentAsn := ⟨asn, 0⟩ } }

def closeCalls : List SendCall :=
  [⟨senderAt 100 0 0, .unknown [7], 68, framedEnv⟩, ⟨senderAt 102 1 105, .unknown [8], 68, framedEnv⟩,
    ⟨senderAt 104 1 105, .unknown [9], 68, framedEnv⟩]

theorem honestWindows_closeCalls :
    ∃ attempts, Run (StepOf (nextAttempt oneWindow)) [] closeCalls attempts ∧
      attempts.map (fun a ↦ (a.window oneWindow, decide a.Accepted)) =
        [((113, 115), true), ((103, 105), false), ((103, 105), true)] ∧
      HonestWindows oneWindow attempts := by
  obtain ⟨attempts, hguarded, hwindows⟩ : ∃ attempts,
      Run (GuardedStepOf (nextAttempt oneWindow) (CallFits oneWindow)) [] closeCalls attempts ∧
        attempts.map (fun a ↦ (a.window oneWindow, decide a.Accepted)) =
          [((113, 115), true), ((103, 105), false), ((103, 105), true)] :=
    exists_guardedRun (by decide +kernel)
  have hrun : Run (StepOf (nextAttempt oneWindow)) [] closeCalls attempts :=
    hguarded.mono fun _ _ _ hstep ↦ hstep.2
  exact ⟨attempts, hrun, hwindows, honestWindows_of_callFits.1 hguarded⟩

/-- The first call of a node, in slot 40000, is refused. -/
theorem not_honestWindows_first_call :
    ∃ attempts, Run (StepOf (nextAttempt oneWindow)) []
        [⟨senderAt 40000 0 0, .unknown [7], 68, framedEnv⟩] attempts ∧
      ¬ HonestWindows oneWindow attempts := by
  obtain ⟨attempts, hexecute, hrefused⟩ := (any_eq_true _ _).mp
    (show (execute (nextAttempt oneWindow) []
        [⟨senderAt 40000 0 0, .unknown [7], 68, framedEnv⟩]).any
      (fun attempts ↦ attempts.any fun a ↦ decide ¬ a.Accepted) = true by decide +kernel)
  have hrun := run_of_execute hexecute
  refine ⟨attempts, hrun, fun hhonest ↦ ?_⟩
  cases hrun with
  | cons hstep hrest =>
    cases hrest
    obtain ⟨a, rfl, -⟩ := nextAttempt_spec (by decide +kernel) hstep
    have hnot : ¬ a.Accepted := by simpa using hrefused
    obtain ⟨b, hb, -⟩ := hhonest.1.refused hnot
    cases hb

end ContikiMaster.Routing
