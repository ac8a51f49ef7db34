import Mathlib.Data.List.Sort

/-!
# The last element of a stable sort

Insertion sort is stable: of the elements that could all be last, the one that was
last in the list before ends the sorted list.
-/

namespace ContikiMaster.Lib

open List

variable {α β : Type}

variable {l : List α}

/-- A list whose elements are related to those of a list with a marked element is marked itself. -/
theorem forall₂_append_cons {r : α → β → Prop} {before after : List β} {y : β}
    (hall : List.Forall₂ r l (before ++ y :: after)) :
    ∃ before' x after', l = before' ++ x :: after' ∧ List.Forall₂ r before' before ∧ r x y ∧
      List.Forall₂ r after' after := by
  induction before generalizing l with
  | nil =>
    cases hall with
    | cons hfirst hrest => exact ⟨[], _, _, rfl, .nil, hfirst, hrest⟩
  | cons z before ih =>
    cases hall with
    | cons hfirst hrest =>
      obtain ⟨before', x, after', rfl, hbefore, hmark, hafter⟩ := ih hrest
      exact ⟨_ :: before', x, after', rfl, .cons hfirst hbefore, hmark, hafter⟩

theorem forall₂_exists_right {r : α → β → Prop} {l' : List β} {x : α} (hall : List.Forall₂ r l l')
    (hx : x ∈ l) : ∃ y ∈ l', r x y := by
  induction hall with
  | nil => cases hx
  | cons hfirst hrest ih =>
    rcases mem_cons.mp hx with rfl | hmem
    · exact ⟨_, mem_cons_self, hfirst⟩
    · obtain ⟨y, hy, hrel⟩ := ih hmem
      exact ⟨y, mem_cons_of_mem _ hy, hrel⟩

section Last

variable (r : α → α → Prop) [DecidableRel r]

/-- An element that may precede a later one does not end the sorted list. -/
theorem getLast?_insertionSort_ne {a b : α} (hnodup : l.Nodup) (hsub : [a, b].Sublist l)
    (hrel : r a b) : (l.insertionSort r).getLast? ≠ some a := by
  intro hlast
  have hpair := pair_sublist_insertionSort hrel hsub
  obtain ⟨front, hfront⟩ := getLast?_eq_some_iff.mp hlast
  have hsorted : (front ++ [a]).Nodup := by
    rw [← hfront]
    exact (perm_insertionSort r l).nodup_iff.mpr hnodup
  rw [hfront] at hpair
  obtain ⟨left, right, hsplit, hleft, hright⟩ := sublist_append_iff.mp hpair
  cases left with
  | nil =>
    rw [nil_append] at hsplit
    have hlength := hright.length_le
    rw [← hsplit] at hlength
    simp at hlength
  | cons c left =>
    obtain ⟨rfl, -⟩ := cons.inj hsplit
    have ha : a ∈ front := hleft.subset mem_cons_self
    exact disjoint_of_nodup_append hsorted ha mem_cons_self

variable [Std.Total r] [IsTrans α r]

/-- In the sorted list every other element may precede the last one. -/
theorem rel_getLast?_insertionSort {x y : α} (hlast : (l.insertionSort r).getLast? = some x)
    (hy : y ∈ l) (hne : y ≠ x) : r y x := by
  obtain ⟨front, hfront⟩ := getLast?_eq_some_iff.mp hlast
  have hsorted := pairwise_insertionSort r l
  rw [← mem_insertionSort r, hfront] at hy
  rw [hfront, pairwise_append] at hsorted
  rcases mem_append.mp hy with hmem | hmem
  · exact hsorted.2.2 y hmem x mem_cons_self
  · exact absurd (mem_singleton.mp hmem) hne

/-- The element that ends the sorted list: those before it may precede it, and it may precede none
of those after it. -/
theorem getLast?_insertionSort_iff {before after : List α} {x : α}
    (hnodup : (before ++ x :: after).Nodup) :
    ((before ++ x :: after).insertionSort r).getLast? = some x ↔
      (∀ y ∈ before, r y x) ∧ ∀ y ∈ after, ¬ r x y := by
  have hx : x ∉ before ∧ x ∉ after := by
    rw [nodup_middle, nodup_cons, mem_append, not_or] at hnodup
    exact hnodup.1
  have hbefore : ∀ y ∈ before, [y, x].Sublist (before ++ x :: after) := fun y hy ↦
    (singleton_sublist.mpr hy).append (singleton_sublist.mpr mem_cons_self)
  have hafter : ∀ y ∈ after, [x, y].Sublist (before ++ x :: after) := fun y hy ↦
    ((singleton_sublist.mpr hy).cons_cons x).trans (sublist_append_right _ _)
  constructor
  · intro hlast
    refine ⟨fun y hy ↦ ?_, fun y hy hrel ↦ ?_⟩
    · apply rel_getLast?_insertionSort r hlast (mem_append_left _ hy)
      rintro rfl
      exact hx.1 hy
    · exact getLast?_insertionSort_ne r hnodup (hafter y hy) hrel hlast
  · rintro ⟨hprecede, hfollow⟩
    have hne : (before ++ x :: after).insertionSort r ≠ [] := by
      rw [← length_pos_iff, length_insertionSort, length_append, length_cons]
      omega
    have hlast := getLast?_eq_some_getLast hne
    generalize ((before ++ x :: after).insertionSort r).getLast hne = z at hlast
    have hz : z ∈ before ++ x :: after := (mem_insertionSort r).mp (mem_of_getLast? hlast)
    rcases mem_append.mp hz with hmem | hmem
    · exact absurd hlast (getLast?_insertionSort_ne r hnodup (hbefore z hmem) (hprecede z hmem))
    · rcases mem_cons.mp hmem with heq | hmem
      · rw [hlast, heq]
      · refine absurd (rel_getLast?_insertionSort r hlast ?_ fun heq ↦ ?_) (hfollow z hmem)
        · exact mem_append_right _ mem_cons_self
        · rw [heq] at hx
          exact hx.2 hmem

end Last

end ContikiMaster.Lib
