import ContikiMaster.Routing.Bounds

/-!
# Link strengths as proportions

`onReceivedNewBeacon` with the integers of the target: the sequence number of a beacon has 16 bits
and is stored in an `int`, which may have 16 bits. The strength is the number of beacons received
over the highest sequence number seen; `none` where the quotient is not finite.
-/

namespace ContikiMaster.Routing

open Sys Tsch Lib Function List

/-- An enhanced beacon as `neighbor_discovery_input` gets it: the byte `NODE_ID_INDEX` of the source
address and the sequence number. -/
structure EnhancedBeacon where
  source : UInt8
  seq : UInt16
  deriving DecidableEq

/-- The global variables of `strength-vector.c`. -/
structure StrengthTable where
  strengthVector : ℕ → Option ℚ
  receivedCounter : ℕ → ℤ
  highestSequence : ℤ
  highestNodeID : ℕ

namespace StrengthTable

/-- The variables after `set_own_node_id_as_highest`. -/
def start (nodeId : ℕ) : StrengthTable := ⟨fun _ ↦ some 0, fun _ ↦ 0, 0, nodeId⟩

variable (bits : ℕ) (quotient : ℤ → ℤ → Option ℚ)

/-- `onReceivedNewBeacon`, for `int` of that many bits and the quotient as the arithmetic rounds
it. -/
def onReceivedNewBeacon (x : StrengthTable) (receivedBeacon : Beacon) :
    Except Fault StrengthTable :=
  let currentSequence := Int.bmod receivedBeacon.seq (2 ^ bits)
  let highestSequence := if x.highestSequence < currentSequence then currentSequence
    else x.highestSequence
  let highestNodeID := max x.highestNodeID receivedBeacon.nodeID
  -- both the counter of the sender and the loop up to the highest node use an index of the arrays
  if maxExpectedNodesInNetwork ≤ highestNodeID then .error .invalidAccess
  else
    let receivedCounter := update x.receivedCounter receivedBeacon.nodeID
      (Int.bmod (x.receivedCounter receivedBeacon.nodeID + 1) (2 ^ bits))
    .ok {
      strengthVector := fun i ↦
        if 1 ≤ i ∧ i ≤ highestNodeID then quotient (receivedCounter i) highestSequence
        else x.strengthVector i
      receivedCounter := receivedCounter
      highestSequence := highestSequence
      highestNodeID := highestNodeID }

def neighborDiscoveryInput (x : StrengthTable) (b : EnhancedBeacon) : Except Fault StrengthTable :=
  onReceivedNewBeacon bits quotient x ⟨b.source.toNat, b.seq.toNat⟩

def receiveAll (x : StrengthTable) (beacons : List EnhancedBeacon) : Except Fault StrengthTable :=
  beacons.foldlM (neighborDiscoveryInput bits quotient) x

end StrengthTable

def receivedFrom (i : ℕ) (beacons : List EnhancedBeacon) : ℕ :=
  beacons.countP fun b ↦ b.source.toNat = i

def highestSeen (beacons : List EnhancedBeacon) : ℕ :=
  beacons.foldl (fun highest b ↦ max highest b.seq.toNat) 0

/-- The sequence numbers received from each node are strictly increasing and at least 1. -/
structure BeaconRun (beacons : List EnhancedBeacon) : Prop where
  increasing : beacons.Pairwise fun b c ↦ b.source = c.source → b.seq < c.seq
  seq_pos : ∀ b ∈ beacons, 0 < b.seq

/-- What the division of the target does: a division by zero has no finite result, a proportion lies
between 0 and 1 (both are numbers of every format), the sign is kept, and quotients of a number by
different divisors of at most 16 bits stay apart. -/
structure RoundedQuotient (quotient : ℤ → ℤ → Option ℚ) : Prop where
  div_zero : ∀ a, quotient a 0 = none
  proportion : ∀ a b, 0 ≤ a → a ≤ b → 0 < b → ∃ strength, quotient a b = some strength ∧
    0 ≤ strength ∧ strength ≤ 1
  negative : ∀ a b strength, a < 0 → 0 < b → quotient a b = some strength → strength < 0
  apart : ∀ a b c, 0 < a → a ≤ c → 0 < b → b < c → c < 65536 → quotient a b ≠ quotient a c

/-- Every strength is the proportion of the beacons received to the highest sequence number, between
0 and 1, and its encoding is not cut to its 16 bits. -/
def Proportions (quotient : ℤ → ℤ → Option ℚ) (beacons : List EnhancedBeacon)
    (x : StrengthTable) : Prop :=
  ∀ i, 1 ≤ i → i ≤ x.highestNodeID → ∃ strength, x.strengthVector i = some strength ∧
    quotient (receivedFrom i beacons) (highestSeen beacons) = some strength ∧
      0 ≤ strength ∧ strength ≤ 1 ∧ (strengthValue strength : ℤ) = ⌊strength * 10000⌋

/-- After each reception of a run the strengths are proportions. -/
def StrengthsCorrect (bits : ℕ) (quotient : ℤ → ℤ → Option ℚ) (nodeId : ℕ)
    (beacons : List EnhancedBeacon) : Prop :=
  ∀ earlier later, beacons = earlier ++ later → earlier ≠ [] →
    ∃ x, StrengthTable.receiveAll bits quotient (.start nodeId) earlier = .ok x ∧
      Proportions quotient earlier x

/-- A beacon that fits the tables and the integers of the target. -/
def BeaconFits (bits nodeId : ℕ) (b : EnhancedBeacon) : Prop :=
  nodeId < maxExpectedNodesInNetwork ∧ b.source.toNat < maxExpectedNodesInNetwork ∧
    b.seq.toNat < 2 ^ (bits - 1)

instance (bits nodeId : ℕ) (b : EnhancedBeacon) : Decidable (BeaconFits bits nodeId b) :=
  inferInstanceAs (Decidable (_ ∧ _ ∧ _))

section Counts

variable {beacons : List EnhancedBeacon} {b : EnhancedBeacon} {i k : ℕ}

theorem receivedFrom_snoc : receivedFrom i (beacons ++ [b]) =
    receivedFrom i beacons + if b.source.toNat = i then 1 else 0 := by
  unfold receivedFrom
  rw [countP_append, countP_singleton]
  simp only [decide_eq_true_eq]

theorem highestSeen_snoc :
    highestSeen (beacons ++ [b]) = max (highestSeen beacons) b.seq.toNat := by
  unfold highestSeen
  rw [foldl_append]
  rfl

theorem le_highestSeen (hb : b ∈ beacons) : b.seq.toNat ≤ highestSeen beacons := by
  induction beacons using reverseRecOn with
  | nil => cases hb
  | append_singleton beacons c ih =>
    rw [highestSeen_snoc]
    rcases mem_append.mp hb with hb | hb
    · exact (ih hb).trans (le_max_left _ _)
    · rw [mem_singleton.mp hb]
      exact le_max_right _ _

theorem highestSeen_lt (hk : 0 < k) (hall : ∀ b ∈ beacons, b.seq.toNat < k) :
    highestSeen beacons < k := by
  induction beacons using reverseRecOn with
  | nil => exact hk
  | append_singleton beacons c ih =>
    rw [highestSeen_snoc]
    exact max_lt (ih fun b hb ↦ hall b (mem_append_left _ hb))
      (hall c (mem_append_right _ mem_cons_self))

theorem BeaconRun.earlier {later : List EnhancedBeacon} (hrun : BeaconRun (beacons ++ later)) :
    BeaconRun beacons :=
  ⟨(pairwise_append.mp hrun.increasing).1, fun c hc ↦ hrun.seq_pos c (mem_append_left _ hc)⟩

theorem BeaconRun.receivedFrom_lt (hrun : BeaconRun beacons) (hk : 0 < k)
    (hbelow : ∀ b ∈ beacons, b.source.toNat = i → b.seq.toNat < k) :
    receivedFrom i beacons < k := by
  induction beacons using reverseRecOn generalizing k with
  | nil => exact hk
  | append_singleton beacons c ih =>
    rw [receivedFrom_snoc]
    by_cases hsource : c.source.toNat = i
    · -- the earlier ones lie below the last one
      have hearlier : receivedFrom i beacons < c.seq.toNat := by
        apply ih hrun.earlier
        · exact UInt16.lt_iff_toNat_lt.mp (hrun.seq_pos c (mem_append_right _ mem_cons_self))
        · intro b hb hbsource
          have hsame : b.source = c.source := UInt8.toNat_inj.mp (hbsource.trans hsource.symm)
          exact UInt16.lt_iff_toNat_lt.mp
            ((pairwise_append.mp hrun.increasing).2.2 b hb c mem_cons_self hsame)
      have hlast := hbelow c (mem_append_right _ mem_cons_self) hsource
      rw [if_pos hsource]
      omega
    · rw [if_neg hsource]
      exact ih hrun.earlier hk fun b hb ↦ hbelow b (mem_append_left _ hb)

theorem BeaconRun.receivedFrom_le (hrun : BeaconRun beacons) :
    receivedFrom i beacons ≤ highestSeen beacons := by
  apply Nat.le_of_lt_succ
  exact hrun.receivedFrom_lt (Nat.succ_pos _) fun b hb _ ↦ Nat.lt_succ_of_le (le_highestSeen hb)

end Counts

/-! ## The invariant -/

section Invariant

variable {bits nodeId : ℕ} {quotient : ℤ → ℤ → Option ℚ} {beacons : List EnhancedBeacon}
  {b : EnhancedBeacon} {x y : StrengthTable}

/-- The counters count the beacons, and the highest sequence number is the highest one seen. -/
structure Tracks (quotient : ℤ → ℤ → Option ℚ) (nodeId : ℕ) (beacons : List EnhancedBeacon)
    (x : StrengthTable) : Prop where
  own : nodeId ≤ x.highestNodeID
  counter : ∀ i, x.receivedCounter i = receivedFrom i beacons
  sequence : x.highestSequence = highestSeen beacons
  inTable : beacons ≠ [] → ∀ i, 1 ≤ i → i ≤ x.highestNodeID →
    x.strengthVector i = quotient (receivedFrom i beacons) (highestSeen beacons)

theorem tracks_start : Tracks quotient nodeId [] (.start nodeId) :=
  ⟨le_rfl, fun _ ↦ rfl, rfl, fun hne ↦ absurd rfl hne⟩

theorem two_pow_eq_double (hbits : 0 < bits) : 2 ^ bits = 2 ^ (bits - 1) + 2 ^ (bits - 1) := by
  calc
    2 ^ bits = 2 ^ (bits - 1 + 1) := by rw [Nat.sub_add_cancel hbits]
    _ = 2 ^ (bits - 1) + 2 ^ (bits - 1) := by rw [pow_succ, mul_two]

theorem bmod_of_lt {n : ℕ} (hbits : 0 < bits) (hn : n < 2 ^ (bits - 1)) :
    Int.bmod n (2 ^ bits) = n := by
  rw [two_pow_eq_double hbits]
  apply Int.bmod_eq_of_le_mul_two
  · omega
  · omega

theorem bmod_neg_of_le {n : ℕ} (hbits : 16 ≤ bits) (hle : 2 ^ (bits - 1) ≤ n) (hn : n < 65536) :
    Int.bmod n (2 ^ bits) < 0 := by
  have hlarge : 2 ^ 15 ≤ 2 ^ (bits - 1) := Nat.pow_le_pow_right (by decide) (by omega)
  rw [two_pow_eq_double (by omega : 0 < bits), Int.bmod_neg_iff]
  · right
    omega
  · omega
  · omega

theorem neighborDiscoveryInput_eq (hown : x.highestNodeID < maxExpectedNodesInNetwork)
    (hsource : b.source.toNat < maxExpectedNodesInNetwork) :
    ∃ y, StrengthTable.neighborDiscoveryInput bits quotient x b = .ok y ∧
      y.highestSequence = max x.highestSequence (Int.bmod b.seq.toNat (2 ^ bits)) ∧
      y.receivedCounter = update x.receivedCounter b.source.toNat
        (Int.bmod (x.receivedCounter b.source.toNat + 1) (2 ^ bits)) ∧
      y.highestNodeID = max x.highestNodeID b.source.toNat ∧ ∀ i, 1 ≤ i → i ≤ y.highestNodeID →
        y.strengthVector i = quotient (y.receivedCounter i) y.highestSequence := by
  unfold StrengthTable.neighborDiscoveryInput StrengthTable.onReceivedNewBeacon
  rw [if_neg (not_le.mpr (max_lt hown hsource))]
  refine ⟨_, rfl, ?_, rfl, rfl, fun i hone hle ↦ if_pos ⟨hone, hle⟩⟩
  exact (max_def_lt _ _).symm

theorem Tracks.receive (hbits : 0 < bits) (hrun : BeaconRun (beacons ++ [b]))
    (hx : Tracks quotient nodeId beacons x) (hown : x.highestNodeID < maxExpectedNodesInNetwork)
    (hsource : b.source.toNat < maxExpectedNodesInNetwork)
    (hseq : ∀ c ∈ beacons ++ [b], c.seq.toNat < 2 ^ (bits - 1)) :
    ∃ y, StrengthTable.neighborDiscoveryInput bits quotient x b = .ok y ∧
      y.highestNodeID < maxExpectedNodesInNetwork ∧ Tracks quotient nodeId (beacons ++ [b]) y := by
  obtain ⟨y, hcall, hsequence, hcounter, hhighest, hstrength⟩ :=
    @neighborDiscoveryInput_eq bits quotient _ _ hown hsource
  have hy : y.highestSequence = highestSeen (beacons ++ [b]) := by
    rw [hsequence, hx.sequence, highestSeen_snoc,
      bmod_of_lt hbits (hseq b (mem_append_right _ mem_cons_self)), Nat.cast_max]
  have hcounts : ∀ i, y.receivedCounter i = receivedFrom i (beacons ++ [b]) := by
    intro i
    rw [hcounter]
    by_cases hsame : b.source.toNat = i
    · have hfits : receivedFrom i (beacons ++ [b]) < 2 ^ (bits - 1) :=
        hrun.receivedFrom_le.trans_lt (highestSeen_lt (Nat.two_pow_pos _) hseq)
      rw [hsame, update_self, hx.counter i, ← bmod_of_lt hbits hfits, receivedFrom_snoc,
        if_pos hsame, Nat.cast_succ]
    · rw [update_of_ne (Ne.symm hsame), hx.counter i, receivedFrom_snoc, if_neg hsame, Nat.add_zero]
  refine ⟨y, hcall, ?_, ?_, hcounts, hy, fun _ i hone hle ↦ ?_⟩
  · rw [hhighest]
    exact max_lt hown hsource
  · rw [hhighest]
    exact hx.own.trans (le_max_left _ _)
  · rw [hstrength i hone hle, hcounts i, hy]

theorem Tracks.proportions (hquotient : RoundedQuotient quotient) (hrun : BeaconRun beacons)
    (hne : beacons ≠ []) (hx : Tracks quotient nodeId beacons x) :
    Proportions quotient beacons x := by
  intro i hone hle
  obtain ⟨b, hb⟩ := exists_mem_of_ne_nil beacons hne
  have hpos : 0 < highestSeen beacons :=
    (UInt16.lt_iff_toNat_lt.mp (hrun.seq_pos b hb)).trans_le (le_highestSeen hb)
  obtain ⟨strength, heq, hnonneg, hle_one⟩ := hquotient.proportion (receivedFrom i beacons)
    (highestSeen beacons) (Int.natCast_nonneg _) (Int.ofNat_le.mpr hrun.receivedFrom_le)
    (Int.natCast_pos.mpr hpos)
  refine ⟨strength, (hx.inTable hne i hone hle).trans heq, heq, hnonneg, hle_one, ?_⟩
  have hfloor_nonneg : 0 ≤ ⌊strength * 10000⌋ := Int.floor_nonneg.mpr (by positivity)
  have hfloor_lt : ⌊strength * 10000⌋ < 65536 := Int.floor_lt.mpr (by push_cast; linarith)
  unfold strengthValue
  omega

theorem receiveAll_snoc : StrengthTable.receiveAll bits quotient x (beacons ++ [b]) =
    StrengthTable.receiveAll bits quotient x beacons >>= fun y ↦
      StrengthTable.neighborDiscoveryInput bits quotient y b := by
  unfold StrengthTable.receiveAll
  rw [foldlM_append]
  apply bind_congr
  intro y
  rw [foldlM_cons]
  exact bind_pure _

variable (bits nodeId quotient) in
/-- A run of receptions that fit. -/
theorem receiveAll_of_fits (hbits : 0 < bits) (hrun : BeaconRun beacons)
    (hfits : ∀ b ∈ beacons, BeaconFits bits nodeId b) :
    ∃ x, StrengthTable.receiveAll bits quotient (.start nodeId) beacons = .ok x ∧
      Tracks quotient nodeId beacons x ∧
        (nodeId < maxExpectedNodesInNetwork → x.highestNodeID < maxExpectedNodesInNetwork) := by
  induction beacons using reverseRecOn with
  | nil => exact ⟨_, rfl, tracks_start, id⟩
  | append_singleton beacons b ih =>
    obtain ⟨x, hbefore, hx, hbound⟩ := ih hrun.earlier fun c hc ↦ hfits c (mem_append_left _ hc)
    obtain ⟨hown, hsource, -⟩ := hfits b (mem_append_right _ mem_cons_self)
    obtain ⟨y, hcall, hhighest, hy⟩ :=
      hx.receive hbits hrun (hbound hown) hsource fun c hc ↦ (hfits c hc).2.2
    refine ⟨y, ?_, hy, fun _ ↦ hhighest⟩
    rw [receiveAll_snoc, hbefore, ok_bind, hcall]

end Invariant

section Node

variable {bits : ℕ} {quotient : ℤ → ℤ → Option ℚ} {n : Node} {x y : StrengthTable}
  {receivedBeacon : Beacon}

/-- The variables of a node are those of the table. -/
structure Node.Shows (n : Node) (x : StrengthTable) : Prop where
  counter : ∀ i, x.receivedCounter i = n.receivedCounter i
  sequence : x.highestSequence = n.highestSequence
  nodes : x.highestNodeID = n.highestNodeID
  strength : ∀ i, (x.strengthVector i).getD 0 = n.strengthVector i

theorem Node.Shows.receive (hshows : n.Shows x) (hbits : 0 < bits)
    (hseq : receivedBeacon.seq < 2 ^ (bits - 1))
    (hcount : n.receivedCounter receivedBeacon.nodeID + 1 < 2 ^ (bits - 1))
    (hcall : x.onReceivedNewBeacon bits quotient receivedBeacon = .ok y) :
    (onReceivedNewBeacon (fun a b ↦ (quotient a b).getD 0) n receivedBeacon).Shows y := by
  unfold StrengthTable.onReceivedNewBeacon at hcall
  rw [bmod_of_lt hbits hseq, hshows.counter, ← Nat.cast_succ, bmod_of_lt hbits hcount] at hcall
  dsimp only at hcall
  rw [← max_def_lt, hshows.sequence, hshows.nodes, ← Nat.cast_max] at hcall
  have hcounter : ∀ i, update x.receivedCounter receivedBeacon.nodeID
      ((n.receivedCounter receivedBeacon.nodeID + 1 : ℕ) : ℤ) i =
        (update n.receivedCounter receivedBeacon.nodeID
          (n.receivedCounter receivedBeacon.nodeID + 1) i : ℕ) := by
    intro i
    by_cases hsame : i = receivedBeacon.nodeID
    · rw [hsame, update_self, update_self]
    · rw [update_of_ne hsame, update_of_ne hsame, hshows.counter]
  split at hcall
  · cases hcall
  · cases hcall
    refine ⟨hcounter, rfl, rfl, fun i ↦ ?_⟩
    unfold onReceivedNewBeacon
    dsimp only
    rw [hcounter, apply_ite (fun strength : Option ℚ ↦ strength.getD 0), hshows.strength]

end Node

/-! ## The runs in which the strengths are proportions -/

section Runs

variable {bits nodeId : ℕ} {quotient : ℤ → ℤ → Option ℚ} {beacons : List EnhancedBeacon}
  {b : EnhancedBeacon} {x y : StrengthTable}

theorem strengthsCorrect_of_fits (hbits : 0 < bits) (hquotient : RoundedQuotient quotient)
    (hrun : BeaconRun beacons) (hfits : ∀ b ∈ beacons, BeaconFits bits nodeId b) :
    StrengthsCorrect bits quotient nodeId beacons := by
  rintro earlier later rfl hne
  obtain ⟨x, hcall, hx, -⟩ := receiveAll_of_fits bits nodeId quotient hbits hrun.earlier
    fun b hb ↦ hfits b (mem_append_left _ hb)
  exact ⟨x, hcall, hx.proportions hquotient hrun.earlier hne⟩

theorem neighborDiscoveryInput_inRange
    (hcall : StrengthTable.neighborDiscoveryInput bits quotient x b = .ok y) :
    x.highestNodeID < maxExpectedNodesInNetwork ∧ b.source.toNat < maxExpectedNodesInNetwork := by
  unfold StrengthTable.neighborDiscoveryInput StrengthTable.onReceivedNewBeacon at hcall
  by_cases hpast : maxExpectedNodesInNetwork ≤ max x.highestNodeID b.source.toNat
  · rw [if_pos hpast] at hcall
    cases hcall
  · exact max_lt_iff.mp (not_le.mp hpast)

theorem not_proportions_of_large (hbits : 16 ≤ bits) (hquotient : RoundedQuotient quotient)
    (hrun : BeaconRun (beacons ++ [b])) (hid : 1 ≤ b.source.toNat)
    (hx : Tracks quotient nodeId beacons x)
    (hseq : ∀ c ∈ beacons, c.seq.toNat < 2 ^ (bits - 1)) (hlarge : 2 ^ (bits - 1) ≤ b.seq.toNat)
    (hcall : StrengthTable.neighborDiscoveryInput bits quotient x b = .ok y) :
    ¬ Proportions quotient (beacons ++ [b]) y := by
  intro hproportions
  obtain ⟨hown, hsource⟩ := neighborDiscoveryInput_inRange hcall
  obtain ⟨z, hcall', hsequence, hcounter, hhighest, hstrength⟩ :=
    @neighborDiscoveryInput_eq bits quotient _ _ hown hsource
  obtain rfl : y = z := Except.ok.inj (hcall.symm.trans hcall')
  have hle : b.source.toNat ≤ y.highestNodeID := by
    rw [hhighest]
    exact le_max_right _ _
  obtain ⟨strength, hentry, hexpected, hnonneg, -⟩ := hproportions _ hid hle
  have hsmall : b.seq.toNat < 65536 := UInt16.toNat_lt b.seq
  -- the highest sequence number stays the one of before
  have hbefore : highestSeen beacons < 2 ^ (bits - 1) := highestSeen_lt (Nat.two_pow_pos _) hseq
  have hseen : highestSeen (beacons ++ [b]) = b.seq.toNat := by
    rw [highestSeen_snoc]
    exact max_eq_right (hbefore.le.trans hlarge)
  have hneg := bmod_neg_of_le hbits hlarge hsmall
  have hkept : y.highestSequence = highestSeen beacons := by
    rw [hsequence, hx.sequence]
    exact max_eq_left (hneg.le.trans (Int.natCast_nonneg _))
  have hcount : receivedFrom b.source.toNat (beacons ++ [b]) =
      receivedFrom b.source.toNat beacons + 1 := by
    rw [receivedFrom_snoc, if_pos rfl]
  have hcounted := hrun.receivedFrom_le (i := b.source.toNat)
  have hcounted_before := hrun.earlier.receivedFrom_le (i := b.source.toNat)
  rw [hseen] at hcounted hexpected
  rw [hstrength _ hid hle, hkept, hcounter, update_self, hx.counter, ← Nat.cast_succ,
    Nat.succ_eq_add_one, ← hcount] at hentry
  rcases Nat.eq_zero_or_pos (highestSeen beacons) with hzero | hpos
  · rw [hzero, Nat.cast_zero, hquotient.div_zero] at hentry
    cases hentry
  rcases lt_or_ge (receivedFrom b.source.toNat (beacons ++ [b])) (2 ^ (bits - 1)) with hfits | hwraps
  · rw [bmod_of_lt (by omega) hfits] at hentry
    apply hquotient.apart _ _ _ _ _ _ _ _ (hentry.trans hexpected.symm) <;> omega
  · -- the counter overflows as well
    have hnegative := hquotient.negative _ _ strength
      (bmod_neg_of_le hbits hwraps (hcounted.trans_lt hsmall)) (Int.natCast_pos.mpr hpos) hentry
    exact absurd hnonneg (not_le.mpr hnegative)

theorem fits_of_strengthsCorrect (hbits : 16 ≤ bits) (hquotient : RoundedQuotient quotient)
    (hrun : BeaconRun beacons) (hids : ∀ b ∈ beacons, 1 ≤ b.source.toNat)
    (hcorrect : StrengthsCorrect bits quotient nodeId beacons) :
    ∀ b ∈ beacons, BeaconFits bits nodeId b := by
  induction beacons using reverseRecOn with
  | nil => exact fun b hb ↦ nomatch hb
  | append_singleton beacons b ih =>
    have hearlier : ∀ c ∈ beacons, BeaconFits bits nodeId c := by
      apply ih hrun.earlier fun c hc ↦ hids c (mem_append_left _ hc)
      rintro earlier later rfl hne
      exact hcorrect earlier (later ++ [b]) (append_assoc _ _ _) hne
    obtain ⟨x, hbefore, hx, -⟩ :=
      receiveAll_of_fits bits nodeId quotient (by omega) hrun.earlier hearlier
    obtain ⟨y, hall, hproportions⟩ := hcorrect (beacons ++ [b]) [] (append_nil _).symm
      (append_ne_nil_of_right_ne_nil _ (cons_ne_nil _ _))
    rw [receiveAll_snoc, hbefore, ok_bind] at hall
    obtain ⟨hown, hsource⟩ := neighborDiscoveryInput_inRange hall
    have hseq : b.seq.toNat < 2 ^ (bits - 1) := by
      by_contra hlarge
      exact not_proportions_of_large hbits hquotient hrun
        (hids b (mem_append_right _ mem_cons_self)) hx (fun c hc ↦ (hearlier c hc).2.2)
        (not_lt.mp hlarge) hall hproportions
    intro c hc
    rcases mem_append.mp hc with hc | hc
    · exact hearlier c hc
    · rw [mem_singleton.mp hc]
      exact ⟨hx.own.trans_lt hown, hsource, hseq⟩

/-- In a run of beacons the strengths are proportions all along if every beacon fits the tables and
the integers of the target, and for beacons of numbered nodes only then. -/
theorem strengthsCorrect_iff (hbits : 16 ≤ bits) (hquotient : RoundedQuotient quotient)
    (hrun : BeaconRun beacons) :
    ((∀ b ∈ beacons, BeaconFits bits nodeId b) → StrengthsCorrect bits quotient nodeId beacons) ∧
      ((∀ b ∈ beacons, 1 ≤ b.source.toNat) →
        (StrengthsCorrect bits quotient nodeId beacons ↔
          ∀ b ∈ beacons, BeaconFits bits nodeId b)) :=
  ⟨strengthsCorrect_of_fits (by omega) hquotient hrun, fun hids ↦
    ⟨fits_of_strengthsCorrect hbits hquotient hrun hids,
      strengthsCorrect_of_fits (by omega) hquotient hrun⟩⟩

def exactQuotient (a b : ℤ) : Option ℚ := if b = 0 then none else some (a / b)

theorem roundedQuotient_exact : RoundedQuotient exactQuotient where
  div_zero a := rfl
  proportion a b ha hle hb := by
    have hb' : (0 : ℚ) < b := Int.cast_pos.mpr hb
    refine ⟨a / b, if_neg hb.ne', div_nonneg (Int.cast_nonneg ha) hb'.le, ?_⟩
    exact (div_le_one hb').mpr (Int.cast_le.mpr hle)
  negative a b strength ha hb heq := by
    rw [exactQuotient, if_neg hb.ne'] at heq
    rw [← Option.some.inj heq]
    exact div_neg_of_neg_of_pos (Int.cast_lt_zero.mpr ha) (Int.cast_pos.mpr hb)
  apart a b c ha _ hb hlt _ heq := by
    rw [exactQuotient, exactQuotient, if_neg hb.ne', if_neg (hb.trans hlt).ne'] at heq
    have hquot := Option.some.inj heq
    have hdiv : (a : ℚ) / c < a / b :=
      div_lt_div_of_pos_left (Int.cast_pos.mpr ha) (Int.cast_pos.mpr hb) (Int.cast_lt.mpr hlt)
    exact absurd hquot hdiv.ne'

theorem strengthsCorrect_three :
    BeaconRun [⟨2, 1⟩, ⟨3, 4⟩, ⟨2, 3⟩] ∧
      StrengthsCorrect 16 exactQuotient 1 [⟨2, 1⟩, ⟨3, 4⟩, ⟨2, 3⟩] := by
  have hrun : BeaconRun [⟨2, 1⟩, ⟨3, 4⟩, ⟨2, 3⟩] := ⟨by decide, by decide⟩
  exact ⟨hrun, (strengthsCorrect_iff (by decide) roundedQuotient_exact hrun).1 (by decide)⟩

/-- One beacon from node 30, on a target with 32 bits, and one with the sequence number 32768 on a
Sky mote. -/
theorem not_strengthsCorrect_single :
    (BeaconRun [⟨30, 1⟩] ∧ ¬ StrengthsCorrect 32 exactQuotient 1 [⟨30, 1⟩]) ∧
      BeaconRun [⟨2, 32768⟩] ∧ ¬ StrengthsCorrect 16 exactQuotient 1 [⟨2, 32768⟩] := by
  have hthirty : BeaconRun [⟨30, 1⟩] := ⟨by decide, by decide⟩
  have hlarge : BeaconRun [⟨2, 32768⟩] := ⟨by decide, by decide⟩
  refine ⟨⟨hthirty, fun hcorrect ↦ ?_⟩, hlarge, fun hcorrect ↦ ?_⟩
  · have hfits := fits_of_strengthsCorrect (by decide) roundedQuotient_exact hthirty (by decide)
      hcorrect _ mem_cons_self
    exact absurd hfits (by decide)
  · have hfits := fits_of_strengthsCorrect (by decide) roundedQuotient_exact hlarge (by decide)
      hcorrect _ mem_cons_self
    exact absurd hfits (by decide)

end Runs

end ContikiMaster.Routing
