import Mathlib

/-!
# Windows that recur

Every round of time has the same sorted windows. From any moment on there is a first window
that has not begun yet, in the running round or the next. Windows that begin at different
times have no moment in common.
-/

namespace ContikiMaster.Lib

open List

/-- Sorted windows inside a round. -/
structure PeriodicWindows where
  size : ℕ
  count : ℕ
  first : ℕ → ℕ
  last : ℕ → ℕ
  count_pos : 0 < count
  le : ∀ i < count, first i ≤ last i
  lt_size : ∀ i < count, last i < size
  sorted : ∀ i j, i < j → j < count → last i < first j

namespace PeriodicWindows

variable {W : PeriodicWindows} {now later : ℕ} {v w : ℕ × ℕ}

theorem size_pos (W : PeriodicWindows) : 0 < W.size :=
  (Nat.zero_le _).trans_lt (W.lt_size 0 W.count_pos)

variable {i j : ℕ}

theorem first_lt_size (W : PeriodicWindows) (hi : i < W.count) : W.first i < W.size :=
  (W.le i hi).trans_lt (W.lt_size i hi)

theorem first_lt (W : PeriodicWindows) (hij : i < j) (hj : j < W.count) : W.first i < W.first j :=
  (W.le i (hij.trans hj)).trans_lt (W.sorted i j hij hj)

theorem first_le (W : PeriodicWindows) (hij : i ≤ j) (hj : j < W.count) :
    W.first i ≤ W.first j := by
  rcases hij.eq_or_lt with heq | hlt
  · rw [heq]
  · exact (W.first_lt hlt hj).le

def occurrence (W : PeriodicWindows) (round i : ℕ) : ℕ × ℕ :=
  (round * W.size + W.first i, round * W.size + W.last i)

def IsWindow (W : PeriodicWindows) (w : ℕ × ℕ) : Prop :=
  ∃ round, ∃ i < W.count, w = W.occurrence round i

theorem IsWindow.le (hw : W.IsWindow w) : w.1 ≤ w.2 := by
  obtain ⟨round, i, hi, rfl⟩ := hw
  exact Nat.add_le_add_left (W.le i hi) _

theorem IsWindow.lt_add_size (hw : W.IsWindow w) : w.2 < w.1 + W.size := by
  obtain ⟨round, i, hi, rfl⟩ := hw
  have hlast := W.lt_size i hi
  change round * W.size + W.last i < round * W.size + W.first i + W.size
  omega

/-- Rounds do not overlap. -/
theorem round_succ_le {r r' : ℕ} (hlt : r < r') : r * W.size + W.size ≤ r' * W.size := by
  calc r * W.size + W.size = (r + 1) * W.size := (Nat.succ_mul _ _).symm
    _ ≤ r' * W.size := Nat.mul_le_mul_right _ hlt

/-- A window that begins earlier ends before. -/
theorem IsWindow.separated (hw : W.IsWindow w) (hv : W.IsWindow v) (hlt : w.1 < v.1) :
    w.2 < v.1 := by
  obtain ⟨r, i, hi, rfl⟩ := hw
  obtain ⟨r', j, hj, rfl⟩ := hv
  change r * W.size + W.first i < r' * W.size + W.first j at hlt
  change r * W.size + W.last i < r' * W.size + W.first j
  have hlast := W.lt_size i hi
  have hfirst := W.first_lt_size hj
  rcases lt_trichotomy r r' with hround | hround | hround
  · have hle := round_succ_le (W := W) hround
    omega
  · subst hround
    have hij : i < j := by
      by_contra hge
      have hback := W.first_le (not_lt.mp hge) hi
      omega
    have hsorted := W.sorted i j hij hj
    omega
  · have hle := round_succ_le (W := W) hround
    omega

/-- Windows that begin at different times have no moment in common. -/
theorem IsWindow.disjoint (hw : W.IsWindow w) (hv : W.IsWindow v) (hlt : w.1 < v.1) :
    Disjoint (Set.Icc w.1 w.2) (Set.Icc v.1 v.2) := by
  have hsep := hw.separated hv hlt
  rw [Set.disjoint_left]
  intro moment hmem hmem'
  have hlast := hmem.2.trans_lt hsep
  exact absurd hmem'.1 (not_le.mpr hlast)

theorem IsWindow.not_disjoint_self (hw : W.IsWindow w) :
    ¬ Disjoint (Set.Icc w.1 w.2) (Set.Icc w.1 w.2) := by
  rw [disjoint_self]
  exact (Set.nonempty_Icc.mpr hw.le).ne_empty

/-- A window is known by its beginning. -/
theorem IsWindow.eq_of_fst (hw : W.IsWindow w) (hv : W.IsWindow v) (heq : w.1 = v.1) : w = v := by
  obtain ⟨r, i, hi, rfl⟩ := hw
  obtain ⟨r', j, hj, rfl⟩ := hv
  change r * W.size + W.first i = r' * W.size + W.first j at heq
  have hfirst := W.first_lt_size hi
  have hfirst' := W.first_lt_size hj
  have hround : r = r' := by
    rcases lt_trichotomy r r' with hlt | heq' | hgt
    · have hle := round_succ_le (W := W) hlt
      omega
    · exact heq'
    · have hle := round_succ_le (W := W) hgt
      omega
  subst hround
  have hij : i = j := by
    rcases lt_trichotomy i j with hlt | heq' | hgt
    · have hbefore := W.first_lt hlt hj
      omega
    · exact heq'
    · have hbefore := W.first_lt hgt hi
      omega
  rw [hij]

/-- The time until a window begins again. -/
def untilFirst (W : PeriodicWindows) (now i : ℕ) : ℕ :=
  (W.size + W.first i - now % W.size) % W.size

/-- The window that begins after this time, as long as it lasts. -/
def upcoming (W : PeriodicWindows) (now i : ℕ) : ℕ × ℕ :=
  (now + W.untilFirst now i, now + W.untilFirst now i + (W.last i - W.first i))

theorem upcoming_of_le (hi : i < W.count) (hle : now % W.size ≤ W.first i) :
    W.upcoming now i = W.occurrence (now / W.size) i := by
  have hnow := Nat.div_add_mod' now W.size
  have hlt := W.first_lt_size hi
  have hwindow := W.le i hi
  have hwait : W.untilFirst now i = W.first i - now % W.size := by
    have hshift : W.size + W.first i - now % W.size = W.first i - now % W.size + W.size := by
      omega
    unfold untilFirst
    rw [hshift, Nat.add_mod_right, Nat.mod_eq_of_lt (by omega)]
  unfold upcoming occurrence
  rw [hwait]
  apply Prod.ext
  · change now + (W.first i - now % W.size) = now / W.size * W.size + W.first i
    omega
  · change now + (W.first i - now % W.size) + (W.last i - W.first i) =
      now / W.size * W.size + W.last i
    omega

theorem upcoming_of_lt (hi : i < W.count) (hlt : W.first i < now % W.size) :
    W.upcoming now i = W.occurrence (now / W.size + 1) i := by
  have hnow := Nat.div_add_mod' now W.size
  have hmod := Nat.mod_lt now W.size_pos
  have hwindow := W.le i hi
  have hwait : W.untilFirst now i = W.size + W.first i - now % W.size := Nat.mod_eq_of_lt (by omega)
  have hround : (now / W.size + 1) * W.size = now / W.size * W.size + W.size := Nat.succ_mul _ _
  unfold upcoming occurrence
  rw [hwait, hround]
  apply Prod.ext
  · change now + (W.size + W.first i - now % W.size) = now / W.size * W.size + W.size + W.first i
    omega
  · change now + (W.size + W.first i - now % W.size) + (W.last i - W.first i) =
      now / W.size * W.size + W.size + W.last i
    omega

/-- The earliest window that begins now or later. -/
structure IsNext (W : PeriodicWindows) (now : ℕ) (w : ℕ × ℕ) : Prop where
  isWindow : W.IsWindow w
  le : now ≤ w.1
  earliest : ∀ v, W.IsWindow v → now ≤ v.1 → w.1 ≤ v.1

theorem IsNext.eq (hw : W.IsNext now w) (hv : W.IsNext now v) : w = v :=
  hw.isWindow.eq_of_fst hv.isWindow
    ((hw.earliest v hv.isWindow hv.le).antisymm (hv.earliest w hw.isWindow hw.le))

theorem IsNext.mono (hle : now ≤ later) (hw : W.IsNext now w) (hv : W.IsNext later v) : w.1 ≤ v.1 :=
  hw.earliest v hv.isWindow (hle.trans hv.le)

/-- A window of the running round that is the first not to have begun. -/
theorem isNext_of_le (hi : i < W.count) (hle : now % W.size ≤ W.first i)
    (hbefore : ∀ j < i, W.first j < now % W.size) : W.IsNext now (W.upcoming now i) := by
  rw [upcoming_of_le hi hle]
  have hnow := Nat.div_add_mod' now W.size
  refine ⟨⟨_, i, hi, rfl⟩, ?_, fun v hv hlater ↦ ?_⟩
  · change now ≤ now / W.size * W.size + W.first i
    omega
  · obtain ⟨r, j, hj, rfl⟩ := hv
    change now ≤ r * W.size + W.first j at hlater
    change now / W.size * W.size + W.first i ≤ r * W.size + W.first j
    have hfirst := W.first_lt_size hi
    have hfirst' := W.first_lt_size hj
    rcases lt_trichotomy r (now / W.size) with hlt | heq | hgt
    · have hround := round_succ_le (W := W) hlt
      omega
    · subst heq
      have hij : i ≤ j := by
        by_contra hlt
        have hbegun := hbefore j (not_le.mp hlt)
        omega
      have hsorted := W.first_le hij hj
      omega
    · have hround := round_succ_le (W := W) hgt
      omega

/-- When all windows of the running round have begun, the first of the next round. -/
theorem isNext_of_forall_lt (hbegun : ∀ j < W.count, W.first j < now % W.size) :
    W.IsNext now (W.upcoming now 0) := by
  rw [upcoming_of_lt W.count_pos (hbegun 0 W.count_pos)]
  have hnow := Nat.div_add_mod' now W.size
  have hmod := Nat.mod_lt now W.size_pos
  have hround : (now / W.size + 1) * W.size = now / W.size * W.size + W.size := Nat.succ_mul _ _
  refine ⟨⟨_, 0, W.count_pos, rfl⟩, ?_, fun v hv hlater ↦ ?_⟩
  · change now ≤ (now / W.size + 1) * W.size + W.first 0
    omega
  · obtain ⟨r, j, hj, rfl⟩ := hv
    change now ≤ r * W.size + W.first j at hlater
    change (now / W.size + 1) * W.size + W.first 0 ≤ r * W.size + W.first j
    have hsorted := W.first_le (Nat.zero_le j) hj
    have hpast := hbegun j hj
    have hfirst' := W.first_lt_size hj
    have hgt : now / W.size < r := by
      by_contra hle
      have hmul : r * W.size ≤ now / W.size * W.size := Nat.mul_le_mul_right _ (not_lt.mp hle)
      omega
    have hnext := round_succ_le (W := W) hgt
    omega

/-- The search for the next window. -/
def next (W : PeriodicWindows) (now : ℕ) : ℕ × ℕ :=
  match (range W.count).find? fun i ↦ decide (now % W.size ≤ W.first i) with
  | some i => W.upcoming now i
  | none => W.upcoming now 0

theorem next_isNext (W : PeriodicWindows) (now : ℕ) : W.IsNext now (W.next now) := by
  unfold next
  split
  · rename_i i hfind
    obtain ⟨hle, hmem, hbefore⟩ := find?_range_eq_some.mp hfind
    refine isNext_of_le (mem_range.mp hmem) (of_decide_eq_true hle) fun j hj ↦ ?_
    simpa using hbefore j hj
  · rename_i hfind
    refine isNext_of_forall_lt fun j hj ↦ ?_
    simpa using find?_eq_none.mp hfind j (mem_range.mpr hj)

theorem IsNext.eq_next (hw : W.IsNext now w) : w = W.next now := hw.eq (W.next_isNext now)

theorem next_mono (W : PeriodicWindows) (hle : now ≤ later) : (W.next now).1 ≤ (W.next later).1 :=
  (W.next_isNext now).mono hle (W.next_isNext later)

end PeriodicWindows

end ContikiMaster.Lib
