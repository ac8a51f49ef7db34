import ContikiMaster.Lib.Loop
import Mathlib

/-!
# The index of a micro log

`find_next_record` and `get_record_index` of `cfs-coffee.c` read the index, which holds for each
record of the log its region plus one, or zero, in batches. An `int` has at least 32 bits.
-/

namespace ContikiMaster.Storage

open Lib List

/-- The entry names the region; the code compares in an `int`. -/
def Designates (index : ℕ → UInt16) (region : UInt16) (j : ℕ) : Prop :=
  (index j).toNat = region.toNat + 1

instance (index : ℕ → UInt16) (region : UInt16) (j : ℕ) : Decidable (Designates index region j) :=
  inferInstanceAs (Decidable (_ = _))

section Batches

variable {α : Type} (n b : ℕ) (goesOn : α → Bool) (read : ℕ → ℕ → α → α)

/-- A turn of a loop that reads `n` entries in batches of `b`, the last of which may be shorter. -/
def batchTurn : ℕ × α → Turn (ℕ × α) α
  | (processed, x) =>
    if processed < n ∧ goesOn x then
      .goesOn (processed + min (n - processed) b, read processed (min (n - processed) b) x)
    else .returns x

def batches (x : α) : Option α := loop (batchTurn n b goesOn read) (n + 1) (0, x)

variable {n b goesOn read}

theorem batches_eq {P : ℕ → α → Prop} {Q : α → Prop} {x : α} (hb : 0 < n → 0 < b)
    (hread : ∀ processed x, processed < n → goesOn x → P processed x →
      P (processed + min (n - processed) b) (read processed (min (n - processed) b) x))
    (hdone : ∀ processed x, ¬ (processed < n ∧ goesOn x) → P processed x → Q x) (hx : P 0 x) :
    ∃ r, batches n b goesOn read x = some r ∧ Q r := by
  have hlowers : ∀ s t, batchTurn n b goesOn read s = .goesOn t → n - t.1 < n - s.1 := by
    intro s t hturn
    unfold batchTurn at hturn
    dsimp only at hturn
    split at hturn
    · cases hturn
      dsimp only
      omega
    · cases hturn
  obtain ⟨r, hloop⟩ := Option.isSome_iff_exists.mp
    (loop_isSome (s := (0, x)) hlowers (Nat.lt_succ_self n))
  refine ⟨r, hloop, loop_invariant (P := fun s ↦ P s.1 s.2) ?_ ?_ hx hloop⟩
  · intro s t hs hturn
    unfold batchTurn at hturn
    dsimp only at hturn
    split at hturn
    · rename_i hgoes
      cases hturn
      exact hread _ _ hgoes.1 hgoes.2 hs
    · cases hturn
  · intro s r hs hturn
    unfold batchTurn at hturn
    dsimp only at hturn
    split at hturn
    · cases hturn
    · rename_i hends
      cases hturn
      exact hdone _ _ hends hs

end Batches

/-- What one batch leaves in `log_record`: `break` ends the loop over the batch only. -/
def findInBatch (index : ℕ → UInt16) (processed batchSize : ℕ) : ℕ :=
  match (range batchSize).find? fun i ↦ index (processed + i) = 0 with
  | some logRecord => logRecord + processed
  | none => batchSize

/-- `find_next_record` for a file whose number of records is not known. -/
def findNextRecord (coffeeLogTableLimit : ℕ) (index : ℕ → UInt16) (logRecords : UInt16) : Option ℕ :=
  batches logRecords.toNat (min logRecords.toNat coffeeLogTableLimit) (fun _ ↦ true)
    (fun processed batchSize _ ↦ findInBatch index processed batchSize) logRecords.toNat

/-- The first entries of the index are used. -/
def Filled (index : ℕ → UInt16) (logRecords k : ℕ) : Prop :=
  k ≤ logRecords ∧ ∀ j < logRecords, index j ≠ 0 ↔ j < k

variable {index : ℕ → UInt16} {n k b : ℕ} {region : UInt16}

theorem findInBatch_eq {processed batchSize : ℕ} (hfilled : Filled index n k) (hpos : 0 < batchSize)
    (hle : processed + batchSize ≤ n) : findInBatch index processed batchSize =
      if k < processed + batchSize then max k processed else batchSize := by
  have hused : ∀ i < batchSize, index (processed + i) = 0 ↔ k ≤ processed + i := by
    intro i hi
    have hiff := hfilled.2 (processed + i) (by omega)
    rw [← not_lt, ← hiff, not_not]
  unfold findInBatch
  cases hfind : (range batchSize).find? fun i ↦ index (processed + i) = 0 with
  | none =>
    rw [if_neg]
    intro hlt
    have hfree := find?_range_eq_none.mp hfind (max k processed - processed) (by omega)
    rw [decide_eq_true ((hused _ (by omega)).mpr (by omega))] at hfree
    cases hfree
  | some i =>
    obtain ⟨hzero, hi, hbefore⟩ := find?_range_eq_some.mp hfind
    have hi := mem_range.mp hi
    have hk := (hused i hi).mp (of_decide_eq_true hzero)
    rw [if_pos (by omega)]
    dsimp only
    cases i with
    | zero => omega
    | succ i =>
      have hlast := (hused i (by omega)).not.mp (by simpa using hbefore i (Nat.lt_succ_self i))
      omega

/-- Before a turn, `p` is where the last batch began. -/
def Found (n b k processed logRecord : ℕ) : Prop :=
  processed = 0 ∧ logRecord = n ∨ ∃ p, b ∣ p ∧ p < n ∧ processed = p + min (n - p) b ∧
    logRecord = if k < processed then max k p else min (n - p) b

variable {limit : ℕ} {found : ℕ → Bool}

theorem findNextRecord_eq {logRecords : UInt16} (hlimit : 0 < limit)
    (hfilled : Filled index logRecords.toNat k) : ∃ r, findNextRecord limit index logRecords = some r ∧
      (r = k ↔ logRecords.toNat ≤ limit ∨
        (logRecords.toNat - 1) / limit * limit ≤ k ∧ k < logRecords.toNat) := by
  have hk := hfilled.1
  unfold findNextRecord
  generalize logRecords.toNat = n at hfilled hk ⊢
  apply batches_eq (P := Found n (min n limit) k) (by omega)
  · intro processed logRecord hlt _ hfound
    have hdvd : min n limit ∣ processed := by
      rcases hfound with ⟨hzero, -⟩ | ⟨p, hp, _, hprocessed, _⟩
      · exact hzero ▸ Nat.dvd_zero _
      · have hfull : processed = p + min n limit := by omega
        exact hfull ▸ (Nat.dvd_add_right hp).mpr (Nat.dvd_refl _)
    exact Or.inr ⟨processed, hdvd, hlt, rfl, findInBatch_eq hfilled (by omega) (by omega)⟩
  · intro processed logRecord hdone hfound
    simp only [and_true] at hdone
    rcases hfound with hstart | ⟨p, ⟨q, rfl⟩, hp, hprocessed, hr⟩
    · omega
    · by_cases hsmall : n ≤ limit
      · rw [min_eq_left hsmall] at hp hprocessed hr
        have hq : q = 0 := by
          by_contra hq
          exact absurd hp (Nat.not_lt.mpr (Nat.le_mul_of_pos_right n (Nat.pos_of_ne_zero hq)))
        rw [hq, Nat.mul_zero] at hprocessed hr
        split at hr <;> omega
      · rw [min_eq_right (by omega)] at hp hprocessed hr
        have hlast : (n - 1) / limit = q := by
          apply Nat.div_eq_of_lt_le
          · rw [Nat.mul_comm]
            omega
          · rw [Nat.succ_mul, Nat.mul_comm]
            omega
        have hpos : 0 < limit * q := by omega
        rw [hlast, Nat.mul_comm]
        split at hr <;> omega
  · exact Or.inl ⟨rfl, rfl⟩

/-- A conversion to `int16_t`. -/
def int16 (z : ℤ) : ℤ := z.bmod (2 ^ 16)

/-- The loop over a batch, from an index down to zero. -/
def matchInBatch (found : ℕ → Bool) : ℕ → Option ℕ
  | 0 => none
  | i + 1 => if found i then some i else matchInBatch found i

def getRecordIndex (coffeeLogTableLimit : ℕ) (index : ℕ → UInt16) (searchRecords region : UInt16) :
    Option ℤ :=
  batches searchRecords.toNat (min searchRecords.toNat coffeeLogTableLimit) (fun m ↦ decide (m < 0))
    (fun processed batchSize matchIndex ↦
      let base := searchRecords.toNat - processed - batchSize
      -- the index of the inner loop is an `int16_t` as well
      match matchInBatch (fun i ↦ decide (Designates index region (base + i)))
          (int16 (batchSize - 1) + 1).toNat with
      | some i => int16 (base + i : ℕ)
      | none => matchIndex) (-1)

/-- The last entry for the region, or minus one. -/
def LastRecord (index : ℕ → UInt16) (searchRecords : ℕ) (region : UInt16) (r : ℤ) : Prop :=
  (r = -1 ∧ ∀ j < searchRecords, ¬ Designates index region j) ∨
    ∃ j < searchRecords, r = j ∧ Designates index region j ∧
      ∀ i < searchRecords, Designates index region i → i ≤ j

/-- How far the entries are found: the first batch is passed over if its last index is negative. -/
def reach (searchRecords batchSize : ℕ) : ℕ :=
  if batchSize ≤ 2 ^ 15 then 2 ^ 15 else searchRecords - batchSize

theorem matchInBatch_eq_some {i : ℕ} (hmatch : matchInBatch found n = some i) :
    found i = true ∧ i < n ∧ ∀ j < n, found j = true → j ≤ i := by
  induction n with
  | zero => cases hmatch
  | succ n ih =>
    rw [matchInBatch] at hmatch
    split at hmatch
    · rename_i hfound
      cases hmatch
      exact ⟨hfound, Nat.lt_succ_self _, fun j hj _ ↦ Nat.le_of_lt_succ hj⟩
    · rename_i hnot
      obtain ⟨hfound, hi, hlast⟩ := ih hmatch
      refine ⟨hfound, Nat.lt_succ_of_lt hi, fun j hj hj' ↦ ?_⟩
      rcases Nat.lt_succ_iff_lt_or_eq.mp hj with hlt | rfl
      · exact hlast j hlt hj'
      · exact absurd hj' hnot

theorem matchInBatch_eq_none (hmatch : matchInBatch found n = none) : ∀ j < n, found j = false := by
  induction n with
  | zero => exact fun j hj ↦ absurd hj (Nat.not_lt_zero j)
  | succ n ih =>
    rw [matchInBatch] at hmatch
    split at hmatch
    · cases hmatch
    · rename_i hnot
      intro j hj
      rcases Nat.lt_succ_iff_lt_or_eq.mp hj with hlt | rfl
      · exact ih hmatch j hlt
      · exact Bool.eq_false_of_not_eq_true hnot

theorem int16_lt (z : ℤ) : int16 z < 2 ^ 15 := by
  unfold int16
  rw [Int.bmod_def]
  omega

theorem int16_of_lt {j : ℕ} (hj : j < 2 ^ 15) : int16 j = j := by
  unfold int16
  rw [Int.bmod_def]
  omega

theorem scanned_eq {c : ℕ} (hpos : 0 < c) (hc : c < 2 ^ 16) :
    (int16 (c - 1) + 1).toNat = if c ≤ 2 ^ 15 then c else 0 := by
  unfold int16
  rw [Int.bmod_def]
  split <;> split <;> omega

/-- Before a turn nothing beyond the reach was found. If nothing is there, either no entry so far
matches or the last one was found. -/
structure Sought (index : ℕ → UInt16) (n : ℕ) (region : UInt16) (b processed : ℕ) (m : ℤ) : Prop where
  first : processed = 0 ∨ b ≤ processed
  below : m < reach n b
  found : (∀ j < n, Designates index region j → j < reach n b) →
    (m = -1 ∧ ∀ j < n, Designates index region j → j + processed < n) ∨
      ∃ j < n, m = j ∧ Designates index region j ∧ ∀ i < n, Designates index region i → i ≤ j

theorem getRecordIndex_eq (hlimit : 0 < limit) (index : ℕ → UInt16)
    (searchRecords region : UInt16) : ∃ r, getRecordIndex limit index searchRecords region = some r ∧
      (LastRecord index searchRecords.toNat region r ↔
        ∀ j < searchRecords.toNat, Designates index region j →
          j < reach searchRecords.toNat (min searchRecords.toNat limit)) := by
  have hn := searchRecords.toNat_lt
  unfold getRecordIndex
  generalize searchRecords.toNat = n at hn ⊢
  have hb : 0 < n → 0 < min n limit := by omega
  have hbn : min n limit ≤ n := min_le_left _ _
  generalize min n limit = b at hb hbn ⊢
  have hreach : reach n b = if b ≤ 2 ^ 15 then 2 ^ 15 else n - b := rfl
  apply batches_eq (P := Sought index n region b) hb
  · intro processed matchIndex hlt hnegative ⟨hfirst, hbelow, hfound⟩
    have hnegative := of_decide_eq_true hnegative
    generalize hc : min (n - processed) b = c
    have hfirst' : processed + c = 0 ∨ b ≤ processed + c := by omega
    dsimp only
    rw [scanned_eq (by omega) (by omega)]
    cases hmatch : matchInBatch (fun i ↦ decide (Designates index region (n - processed - c + i)))
        (if c ≤ 2 ^ 15 then c else 0) with
    | none =>
      refine ⟨hfirst', hbelow, fun hall ↦ ?_⟩
      rcases hfound hall with ⟨hstart, hrest⟩ | ⟨j, _, hj, _⟩
      · refine Or.inl ⟨hstart, fun j hj hdesignates ↦ ?_⟩
        have hbefore := hrest j hj hdesignates
        have hnear := hall j hj hdesignates
        by_contra hbatch
        obtain ⟨i, rfl⟩ : ∃ i, j = n - processed - c + i := ⟨j - (n - processed - c), by omega⟩
        have hclear := matchInBatch_eq_none hmatch i (by split at hreach <;> split <;> omega)
        exact of_decide_eq_false hclear hdesignates
      · omega
    | some i =>
      obtain ⟨hdesignates, hi, hlast⟩ := matchInBatch_eq_some hmatch
      have hsmall : c ≤ 2 ^ 15 ∧ i < c := by
        split at hi <;> omega
      have hj : n - processed - c + i < n := by omega
      refine ⟨hfirst', ?_, fun hall ↦ ?_⟩
      · dsimp only
        split at hreach
        · rw [hreach]
          exact int16_lt _
        · have hlow : n - processed - c + i < 2 ^ 15 := by omega
          rw [int16_of_lt hlow, hreach]
          omega
      · have hdesignates := of_decide_eq_true hdesignates
        have hnear := hall _ hj hdesignates
        dsimp only
        rw [int16_of_lt (by split at hreach <;> omega)]
        refine Or.inr ⟨_, hj, rfl, hdesignates, fun i' hi' hdesignates' ↦ ?_⟩
        by_contra hlater
        obtain ⟨o, rfl⟩ : ∃ o, i' = n - processed - c + o := ⟨i' - (n - processed - c), by omega⟩
        rcases hfound hall with ⟨_, hrest⟩ | ⟨j, _, hj, _⟩
        · have hbefore := hrest _ hi' hdesignates'
          have hle := hlast o (by rw [if_pos hsmall.1]; omega) (decide_eq_true hdesignates')
          omega
        · omega
  · intro processed matchIndex hdone ⟨_, hbelow, hfound⟩
    rw [decide_eq_true_iff] at hdone
    constructor
    · rintro (⟨-, hnone⟩ | ⟨k, _, rfl, _, hmax⟩) j hj hdesignates
      · exact absurd hdesignates (hnone j hj)
      · exact Nat.lt_of_le_of_lt (hmax j hj hdesignates) (Int.ofNat_lt.mp hbelow)
    · intro hall
      refine (hfound hall).imp_left fun ⟨hstart, hnone⟩ ↦ ⟨hstart, fun j hj hdesignates ↦ ?_⟩
      have hbefore := hnone j hj hdesignates
      omega
  · exact ⟨Or.inl rfl, by omega, fun _ ↦ Or.inl ⟨rfl, fun _ hj _ ↦ hj⟩⟩

/-- `find_next_record` is exact for a log of one batch, or if the last batch holds the first free
record; `get_record_index` is exact if it reaches all records of the region. -/
theorem recordSearch_iff {limit : ℕ} (hlimit : 1 ≤ limit) (index : ℕ → UInt16) :
    (∀ (logRecords : UInt16) (k : ℕ), Filled index logRecords.toNat k →
      (findNextRecord limit index logRecords = some k ↔ logRecords.toNat ≤ limit ∨
        (logRecords.toNat - 1) / limit * limit ≤ k ∧ k < logRecords.toNat)) ∧
    ∀ searchRecords region : UInt16,
      (∃ r, getRecordIndex limit index searchRecords region = some r ∧
        LastRecord index searchRecords.toNat region r) ↔
      ∀ j < searchRecords.toNat, Designates index region j →
        j < reach searchRecords.toNat (min searchRecords.toNat limit) := by
  constructor
  · intro logRecords k hfilled
    obtain ⟨r, hr, hiff⟩ := findNextRecord_eq hlimit hfilled
    rw [hr, Option.some_inj, hiff]
  · intro searchRecords region
    obtain ⟨r, hr, hiff⟩ := getRecordIndex_eq hlimit index searchRecords region
    rw [hr, ← hiff]
    simp

/-- A log with four records, read in batches of two. -/
theorem recordSearch_iff_four :
    Filled (fun j ↦ if j < 2 then 5 else 0) 4 2 ∧
      findNextRecord 2 (fun j ↦ if j < 2 then 5 else 0) 4 = some 2 ∧
      ∃ r, getRecordIndex 2 (fun j ↦ if j < 2 then 5 else 0) 4 4 = some r ∧
        LastRecord (fun j ↦ if j < 2 then 5 else 0) 4 4 r := by
  have hfilled : Filled (fun j ↦ if j < 2 then 5 else 0) 4 2 := by
    unfold Filled
    decide
  obtain ⟨hfind, hget⟩ := @recordSearch_iff 2 (by decide) fun j ↦ if j < 2 then 5 else 0
  exact ⟨hfilled, (hfind 4 2 hfilled).mpr (by decide), (hget 4 4).mpr (by decide)⟩

/-- The first of four records is used, or all are; the last of 40000 is of the region. -/
theorem recordSearch_fails :
    (Filled (fun j ↦ if j < 1 then 5 else 0) 4 1 ∧
      findNextRecord 2 (fun j ↦ if j < 1 then 5 else 0) 4 = some 2) ∧
    (Filled (fun _ ↦ 5) 4 4 ∧ findNextRecord 2 (fun _ ↦ 5) 4 = some 2) ∧
    Designates (fun _ ↦ 5) 4 39999 ∧ getRecordIndex 40000 (fun _ ↦ 5) 40000 4 = some (-1) := by
  unfold Filled
  decide +kernel

end ContikiMaster.Storage
