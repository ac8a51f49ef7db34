import ContikiMaster.Lib.Loop
import Mathlib.Data.List.Flatten
import Mathlib.Data.List.Infix
import Mathlib.Data.List.Nodup

/-!
# Segments of a list

The segment of a list between two positions, its pairs of neighbours, and the pieces between the
multiples of a width. Records whose lengths stand in them tile the offsets up to a bound when they
end exactly there.
-/

namespace ContikiMaster.Lib

open List

variable {α : Type}

/-- The elements from position `first` on and before position `last`. -/
def sliceOf (l : List α) (first last : ℕ) : List α := (l.take last).drop first

theorem length_sliceOf (l : List α) (first last : ℕ) :
    (sliceOf l first last).length = min last l.length - first := by
  unfold sliceOf
  rw [length_drop, length_take]

theorem sliceOf_isInfix (l : List α) (first last : ℕ) : sliceOf l first last <:+: l :=
  (drop_suffix _ _).isInfix.trans ( take_prefix _ _).isInfix

/-- Filtering the positions of a list by an interval leaves a segment. -/
theorem filter_zipIdx_eq_sliceOf (l : List α) (first last start : ℕ) :
    ((l.zipIdx start).filter fun x ↦ decide (first ≤ x.2) && decide (x.2 < last)).map Prod.fst =
      sliceOf l (first - start) (last - start) := by
  induction l generalizing start with
  | nil => simp [sliceOf]
  | cons a l ih =>
    rw [zipIdx_cons, filter_cons]
    by_cases hlast : start < last
    · have htake : last - start = (last - (start + 1)) + 1 := by omega
      by_cases hfirst : first ≤ start
      · have hdrop : first - start = 0 := by omega
        have hdrop' : first - (start + 1) = 0 := by omega
        simp [hfirst, hlast, ih, sliceOf, htake, hdrop, hdrop']
      · have hdrop : first - start = (first - (start + 1)) + 1 := by omega
        simp [hfirst, ih, sliceOf, htake, hdrop]
    · have htake : last - start = 0 := by omega
      have htake' : last - (start + 1) = 0 := by omega
      simp [hlast, ih, sliceOf, htake, htake']

/-- In a list without repetitions, a segment holds the elements at its positions. -/
theorem getElem_mem_sliceOf {l : List α} (hl : l.Nodup) {first last i : ℕ} (hi : i < l.length) :
    l[i] ∈ sliceOf l first last ↔ first ≤ i ∧ i < last := by
  unfold sliceOf
  rw [mem_drop_iff_getElem]
  constructor
  · rintro ⟨j, hj, hget⟩
    rw [length_take] at hj
    rw [getElem_take] at hget
    have hij := (List.Nodup.getElem_inj_iff hl).mp hget
    omega
  · rintro ⟨hfirst, hlast⟩
    refine ⟨i - first, ?_, ?_⟩
    · rw [length_take]
      omega
    · rw [getElem_take]
      congr 1
      omega

/-- The numbers of an interval below a bound. -/
theorem filter_range_eq_range' {n first last : ℕ} (hlast : last ≤ n) :
    (range n).filter (fun s ↦ decide (first ≤ s) && decide (s < last)) =
      range' first (last - first) := by
  have hmap := filter_zipIdx_eq_sliceOf (range n) first last 0
  rw [zipIdx_eq_zip_range', length_range, ← range_eq_range'] at hmap
  have hzip : (range n).zip (range n) = (range n).map fun s ↦ (s, s) := by
    rw [zip_eq_zipWith, zipWith_self]
  rw [hzip, filter_map, map_map, Nat.sub_zero, Nat.sub_zero] at hmap
  have hid : (Prod.fst ∘ fun s : ℕ ↦ (s, s)) = id := rfl
  rw [hid, map_id] at hmap
  change filter _ _ = _ at hmap
  unfold sliceOf at hmap
  rw [take_range, min_eq_left hlast] at hmap
  calc
    _ = (range last).drop first := hmap
    _ = _ := by
      rw [range_eq_range', drop_range', Nat.zero_add, Nat.mul_one]

/-- The pairs of neighbours in a segment. -/
theorem zip_tail_sliceOf (l : List α) (first last : ℕ) :
    (sliceOf l first last).zip (sliceOf l first last).tail =
      sliceOf (l.zip l.tail) first (last - 1) := by
  unfold sliceOf
  rw [tail_drop, zip_eq_zipWith, zip_eq_zipWith, take_zipWith, drop_zipWith]
  apply ext_getElem?
  intro i
  simp only [getElem?_zipWith, getElem?_drop, getElem?_take, getElem?_tail]
  by_cases hlast : first + i < last - 1
  · have hfirst : first + i < last := by omega
    have hsucc : first + i + 1 < last := by omega
    simp [hlast, hfirst, hsucc, Nat.add_right_comm first 1 i]
  · have hnext : ¬ first + 1 + i < last := by omega
    simp [hlast, hnext]

/-- The pieces of a width, each without its first element, and of the first piece the whole. -/
theorem flatMap_sliceOf (l : List α) (cut : ℕ → ℕ) (hcut : Monotone cut) (num : ℕ) :
    ((range num).flatMap fun idx ↦ sliceOf l (cut idx) (cut (idx + 1))) =
      sliceOf l (cut 0) (cut num) := by
  induction num with
  | zero => simp [sliceOf]
  | succ num ih =>
    rw [range_succ, flatMap_append, flatMap_singleton, ih]
    have hmono : cut num ≤ cut (num + 1) := hcut (Nat.le_succ num)
    have hzero : cut 0 ≤ cut num := hcut (Nat.zero_le num)
    unfold sliceOf
    have hsplit : l.take (cut (num + 1)) = l.take (cut num) ++
        (l.take (cut (num + 1))).drop (cut num) := by
      conv_lhs => rw [← take_append_drop (cut num) (l.take (cut (num + 1)))]
      rw [take_take, min_eq_left hmono]
    conv_rhs => rw [hsplit, drop_append]
    by_cases hlong : cut num ≤ l.length
    · have hnone : cut 0 - (l.take (cut num)).length = 0 := by
        rw [length_take]
        omega
      rw [hnone, drop_zero]
    · have hnil : (l.take (cut (num + 1))).drop (cut num) = [] := by
        rw [drop_eq_nil_iff, length_take]
        omega
      rw [hnil, drop_nil]

section Records

variable {len : ℕ → ℕ} {valid : ℕ → Prop} {n m i : ℕ}

/-- From an offset on, valid records stand one behind the other up to `n`. -/
inductive Tiled (len : ℕ → ℕ) (valid : ℕ → Prop) (n : ℕ) : ℕ → Prop
  | nil : Tiled len valid n n
  | record {i : ℕ} (hvalid : valid i) (hrest : Tiled len valid n (i + len i)) :
      Tiled len valid n i

theorem Tiled.le (htiled : Tiled len valid n i) : i ≤ n := by
  induction htiled with
  | nil => exact Nat.le_refl n
  | record _ _ ih => exact Nat.le_trans (Nat.le_add_right _ _) ih

/-- Before the end there is a record, and the rest is tiled, too. -/
theorem tiled_iff_of_lt (hi : i < n) :
    Tiled len valid n i ↔ valid i ∧ Tiled len valid n (i + len i) := by
  constructor
  · intro htiled
    cases htiled with
    | nil => exact absurd hi (Nat.lt_irrefl n)
    | record hvalid hrest => exact ⟨hvalid, hrest⟩
  · intro htiled
    exact .record htiled.1 htiled.2

end Records

end ContikiMaster.Lib
