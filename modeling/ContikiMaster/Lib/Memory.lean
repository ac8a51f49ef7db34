import ContikiMaster.Lib.Cursor
import Mathlib.Data.List.Basic
import Mathlib.Data.Vector.Defs

/-!
# Memory without an end, and buffers of a fixed size

Memory from a pointer on, as a function of the offset: pieces of it, and what writing a
list of elements makes of it. A buffer of fixed size holds a message in its first places
and anything after it.
-/

namespace ContikiMaster.Lib

open Cursor
open List hiding Vector

variable {β : Type} {mem mem' : ℕ → β} {p q n i : ℕ} {l m : List β}

/-- The `n` elements from an offset on. -/
def slice (mem : ℕ → β) (p n : ℕ) : List β := (range' p n).map mem

/-- The memory after a list was written from an offset on. -/
def writeAt (mem : ℕ → β) (p : ℕ) (l : List β) (i : ℕ) : β :=
  if p ≤ i then l.getD (i - p) (mem i) else mem i

@[simp]
theorem length_slice (mem : ℕ → β) (p n : ℕ) : (slice mem p n).length = n := by
  simp [slice]

@[simp]
theorem slice_zero (mem : ℕ → β) (p : ℕ) : slice mem p 0 = [] := rfl

theorem slice_succ (mem : ℕ → β) (p n : ℕ) : slice mem p (n + 1) = mem p :: slice mem (p + 1) n := rfl

theorem slice_add (mem : ℕ → β) (p n k : ℕ) :
    slice mem p (n + k) = slice mem p n ++ slice mem (p + n) k := by
  rw [slice, slice, slice, ← map_append]
  congr 1
  have hrange := @range'_append p n k 1
  rw [Nat.one_mul] at hrange
  exact hrange.symm

theorem take_slice (mem : ℕ → β) (p n k : ℕ) : (slice mem p n).take k = slice mem p (min k n) := by
  rw [slice, slice, ← map_take]
  rcases le_total n k with hle | hle
  · rw [take_range'_of_length_le hle, Nat.min_eq_right hle]
  · rw [take_range'_of_length_ge hle, Nat.min_eq_left hle]

theorem slice_congr (hsame : ∀ i, p ≤ i → i < p + n → mem i = mem' i) :
    slice mem p n = slice mem' p n := by
  apply map_congr_left
  intro i hi
  obtain ⟨hle, hlt⟩ := mem_range'_1.mp hi
  exact hsame i hle hlt

theorem getElem_slice (hi : i < (slice mem p n).length) : (slice mem p n)[i] = mem (p + i) := by
  simp [slice]

theorem holds_iff_slice : Holds mem p l ↔ slice mem p l.length = l := by
  constructor
  · intro hholds
    apply ext_getElem
    · exact length_slice mem p l.length
    · intro i hslice hi
      rw [getElem_slice]
      exact hholds i hi
  · intro hslice i hi
    have hlength : i < (slice mem p l.length).length := by rwa [length_slice]
    calc
      mem (p + i) = (slice mem p l.length)[i] := (getElem_slice hlength).symm
      _ = l[i] := by simp only [hslice]

theorem writeAt_of_lt (hi : i < p) : writeAt mem p l i = mem i := by
  rw [writeAt, if_neg (by omega)]

theorem writeAt_of_le (hi : p + l.length ≤ i) : writeAt mem p l i = mem i := by
  unfold writeAt
  split
  · exact getD_eq_default _ _ (by omega)
  · rfl

/-- What was written stands in the memory. -/
theorem holds_writeAt (mem : ℕ → β) (p : ℕ) (l : List β) : Holds (writeAt mem p l) p l := by
  intro i hi
  rw [writeAt, if_pos (Nat.le_add_right p i), Nat.add_sub_cancel_left, getD_eq_getElem _ _ hi]

/-- What stands beside a write is not changed by it. -/
theorem slice_writeAt (hapart : q + n ≤ p ∨ p + l.length ≤ q) :
    slice (writeAt mem p l) q n = slice mem q n := by
  apply slice_congr
  intro i hle hlt
  rcases hapart with hbefore | hbehind
  · exact writeAt_of_lt (by omega)
  · exact writeAt_of_le (by omega)

theorem slice_writeAt_self (mem : ℕ → β) (p : ℕ) (l : List β) :
    slice (writeAt mem p l) p l.length = l :=
  holds_iff_slice.mp (holds_writeAt mem p l)

section Buffers

variable {α : Type} {n : ℕ}

/-- The buffer with a list written from an index on; what lies past its end is lost. -/
def overwrite (v : Vector α n) (index : ℕ) (items : List α) : Vector α n :=
  Vector.ofFn fun i ↦ if index ≤ i.val then items.getD (i.val - index) v[i] else v[i]

theorem overwrite_getElem (v : Vector α n) (index : ℕ) (items : List α) (hi : i < n) :
    (overwrite v index items)[i] =
      if index ≤ i then items.getD (i - index) v[i] else v[i] := by
  unfold overwrite
  rw [Vector.getElem_ofFn]
  rfl

section

variable (v : Vector α n) {index : ℕ} {items : List α} {i : ℕ} (hi : i < n)

include hi

theorem overwrite_getElem_of_mem (hindex : index ≤ i) (hlt : i - index < items.length) :
    (overwrite v index items)[i] = items[i - index] := by
  rw [overwrite_getElem, if_pos hindex, getD_eq_getElem _ _ hlt]

theorem overwrite_getElem_of_lt (hlt : i < index) : (overwrite v index items)[i] = v[i] := by
  rw [overwrite_getElem, if_neg (not_le.mpr hlt)]

theorem overwrite_getElem_of_le
    (hle : index + items.length ≤ i) : (overwrite v index items)[i] = v[i] := by
  rw [overwrite_getElem, if_pos (by omega), getD_eq_default _ _ (by omega)]

end

/-- The first places of the buffer hold the list. -/
structure StartsWith (v : Vector α n) (items : List α) : Prop where
  length_le : items.length ≤ n
  getElem : ∀ (i : ℕ) (hi : i < items.length), v[i] = items[i]

namespace StartsWith

variable {v : Vector α n} {items more : List α}

theorem nil (v : Vector α n) : StartsWith v [] :=
  ⟨Nat.zero_le n, fun i hi ↦ absurd hi (Nat.not_lt_zero i)⟩

section

variable (hv : StartsWith v items)

include hv

/-- Writing behind the message. -/
theorem append (hfits : items.length + more.length ≤ n) :
    StartsWith (overwrite v items.length more) (items ++ more) := by
  refine ⟨by rw [length_append]; exact hfits, fun i hi ↦ ?_⟩
  rw [length_append] at hi
  by_cases hlt : i < items.length
  · rw [overwrite_getElem_of_lt v (by omega) hlt, getElem_append_left hlt]
    exact hv.getElem i hlt
  · rw [overwrite_getElem_of_mem v (by omega) (by omega) (by omega),
      getElem_append_right (by omega)]

/-- Writing one place of the message. -/
theorem set (index : ℕ) (a : α) : StartsWith (overwrite v index [a]) (items.set index a) := by
  refine ⟨by rw [length_set]; exact hv.length_le, fun i hi ↦ ?_⟩
  rw [length_set] at hi
  have hn : i < n := hi.trans_le hv.length_le
  rw [getElem_set]
  by_cases heq : index = i
  · subst heq
    rw [if_pos rfl, overwrite_getElem_of_mem v hn le_rfl (by simp)]
    simp
  · rw [if_neg heq, ← hv.getElem i hi]
    rcases Nat.lt_or_gt_of_ne heq with hlt | hgt
    · exact overwrite_getElem_of_le v hn hlt
    · exact overwrite_getElem_of_lt v hn hgt

/-- Reading a place of the message. -/
theorem getD (hi : i < items.length) (d : α) : v.getD i d = items[i] := by
  have hn : i < n := hi.trans_le hv.length_le
  rw [← hv.getElem i hi]
  simp [Vector.getD, Array.getD, hn]

/-- The message is what the first places hold. -/
theorem toList_take : v.toList.take items.length = items := by
  have hlength : (v.toList.take items.length).length = items.length := by
    rw [length_take, Vector.length_toList, Nat.min_eq_left hv.length_le]
  refine ext_getElem hlength fun i hi hi' ↦ ?_
  rw [getElem_take, Vector.getElem_toList]
  exact hv.getElem i hi'

end

end StartsWith

end Buffers

end ContikiMaster.Lib
