import Mathlib.Data.List.Pairwise
import Mathlib.Data.List.Perm.Basic
import Mathlib.Data.Set.Basic
import Mathlib.Data.List.Induction

/-!
# Orders in which every item touches an earlier one

The items of a list are added one after the other, each next to one that is there already. Unless
every two items touch, or they fall into two groups that do not, this depends on the order.
-/

namespace ContikiMaster.Lib

open List

universe u

variable {α : Type u} {touches : α → α → Prop} {items order seen rest : List α} {x : α}

/-- Every item but the first touches an earlier one. -/
def Grows (touches : α → α → Prop) (items : List α) : Prop :=
  ∀ earlier x later, items = earlier ++ x :: later → earlier ≠ [] → ∃ y ∈ earlier, touches y x

/-- The items fall into two groups that do not touch. -/
def Splits (touches : α → α → Prop) (items : List α) : Prop :=
  ∃ group : Set α, (∃ x ∈ items, x ∈ group) ∧ (∃ x ∈ items, x ∉ group) ∧
    ∀ x ∈ items, ∀ y ∈ items, x ∈ group → y ∉ group → ¬ touches x y

theorem grows_nil : Grows touches [] := by
  intro earlier x later heq
  exact absurd heq.symm (append_ne_nil_of_right_ne_nil _ (cons_ne_nil _ _))

theorem grows_snoc_iff :
    Grows touches (items ++ [x]) ↔ Grows touches items ∧ (items ≠ [] → ∃ y ∈ items, touches y x) := by
  constructor
  · intro hgrows
    refine ⟨fun earlier y later heq ↦ ?_, hgrows items x [] rfl⟩
    apply hgrows earlier y (later ++ [x])
    rw [heq, append_assoc]
    rfl
  · rintro ⟨hgrows, hlast⟩ earlier y later heq
    cases later using reverseRecOn with
    | nil =>
      obtain ⟨rfl, hsame⟩ := append_inj' heq rfl
      rw [← singleton_inj.mp hsame]
      exact hlast
    | append_singleton front z =>
      apply hgrows earlier y front
      have hend : items ++ [x] = (earlier ++ y :: front) ++ [z] := by
        rw [heq, append_assoc]
        rfl
      exact (append_inj' hend rfl).1

theorem grows_of_pairwise (hall : items.Pairwise touches) : Grows touches items := by
  rintro earlier x later rfl hne
  obtain ⟨y, hy⟩ := exists_mem_of_ne_nil earlier hne
  exact ⟨y, hy, (pairwise_append.mp hall).2.2 y hy x mem_cons_self⟩

theorem Splits.perm (hsplits : Splits touches items) (hperm : order.Perm items) :
    Splits touches order := by
  obtain ⟨group, ⟨x, hx, hxin⟩, ⟨y, hy, hyout⟩, happart⟩ := hsplits
  exact ⟨group, ⟨x, hperm.mem_iff.mpr hx, hxin⟩, ⟨y, hperm.mem_iff.mpr hy, hyout⟩,
    fun x hx y hy ↦ happart x (hperm.mem_iff.mp hx) y (hperm.mem_iff.mp hy)⟩

/-- An order that grows stays within a group that no touching leaves. -/
theorem Grows.one_group {group : Set α} (hgrows : Grows touches items)
    (hsame : ∀ x ∈ items, ∀ y ∈ items, touches x y → (x ∈ group ↔ y ∈ group)) :
    ∀ x ∈ items, ∀ y ∈ items, (x ∈ group ↔ y ∈ group) := by
  induction items using reverseRecOn with
  | nil => exact fun x hx ↦ nomatch hx
  | append_singleton items z ih =>
    obtain ⟨hearlier, hlast⟩ := grows_snoc_iff.mp hgrows
    have hitems := ih hearlier fun x hx y hy ↦
      hsame x (mem_append_left _ hx) y (mem_append_left _ hy)
    have hz : z ∈ items ++ [z] := mem_append_right _ mem_cons_self
    have hjoins : ∀ x ∈ items, (x ∈ group ↔ z ∈ group) := by
      intro x hx
      obtain ⟨y, hy, htouches⟩ := hlast (ne_nil_of_mem hx)
      exact (hitems x hx y hy).trans (hsame y (mem_append_left _ hy) z hz htouches)
    intro x hx y hy
    rcases mem_append.mp hx with hx | hx <;> rcases mem_append.mp hy with hy | hy
    · exact hitems x hx y hy
    · rw [mem_singleton.mp hy]
      exact hjoins x hx
    · rw [mem_singleton.mp hx]
      exact (hjoins y hy).symm
    · rw [mem_singleton.mp hx, mem_singleton.mp hy]

/-- An order that grows can be continued with the rest, or the items split. -/
theorem exists_grows_append (hrefl : ∀ x ∈ rest, touches x x) (hgrows : Grows touches seen) :
    (∃ order, order.Perm (seen ++ rest) ∧ Grows touches order) ∨ Splits touches (seen ++ rest) := by
  induction hlength : rest.length generalizing seen rest with
  | zero =>
    rw [length_eq_zero_iff.mp hlength, append_nil]
    exact Or.inl ⟨seen, .refl _, hgrows⟩
  | succ n ih =>
    by_cases hnext : seen = [] ∨ ∃ x ∈ rest, ∃ y ∈ seen, touches y x
    · -- the next item is any one, or one that touches
      obtain ⟨x, hx, hjoins⟩ : ∃ x ∈ rest, seen ≠ [] → ∃ y ∈ seen, touches y x := by
        rcases hnext with hnil | ⟨x, hx, hjoins⟩
        · obtain ⟨x, hx⟩ := exists_mem_of_length_pos (by omega : 0 < rest.length)
          exact ⟨x, hx, fun hne ↦ absurd hnil hne⟩
        · exact ⟨x, hx, fun _ ↦ hjoins⟩
      obtain ⟨front, back, rfl⟩ := append_of_mem hx
      have hperm : (seen ++ [x] ++ (front ++ back)).Perm (seen ++ (front ++ x :: back)) := by
        rw [append_assoc]
        have hmiddle : (x :: (front ++ back)).Perm (front ++ x :: back) := perm_middle.symm
        exact hmiddle.append_left seen
      have hshorter : (front ++ back).length = n := by
        simp only [length_append, length_cons] at hlength ⊢
        omega
      have hrefl' : ∀ y ∈ front ++ back, touches y y := by
        intro y hy
        exact hrefl y (perm_middle.mem_iff.mpr (mem_cons_of_mem x hy))
      rcases ih hrefl' (grows_snoc_iff.mpr ⟨hgrows, hjoins⟩) hshorter with
        ⟨order, horder, hall⟩ | hsplits
      · exact Or.inl ⟨order, horder.trans hperm, hall⟩
      · exact Or.inr (hsplits.perm hperm.symm)
    · obtain ⟨hne, hnone⟩ := not_or.mp hnext
      obtain ⟨y, hy⟩ := exists_mem_of_ne_nil seen hne
      obtain ⟨x, hx⟩ := exists_mem_of_length_pos (by omega : 0 < rest.length)
      refine Or.inr ⟨{z | z ∈ seen}, ⟨y, mem_append_left _ hy, hy⟩,
        ⟨x, mem_append_right _ hx, fun hseen ↦ hnone ⟨x, hx, x, hseen, hrefl x hx⟩⟩, ?_⟩
      intro z _ w hw hz hnew htouches
      rcases mem_append.mp hw with hw | hw
      · exact hnew hw
      · exact hnone ⟨w, hw, z, hz, htouches⟩

section Symmetric

variable (hsymm : ∀ x y, touches x y → touches y x)
include hsymm

theorem not_grows_of_splits (hsplits : Splits touches items) : ¬ Grows touches items := by
  obtain ⟨group, ⟨x, hx, hxin⟩, ⟨y, hy, hyout⟩, hapart⟩ := hsplits
  intro hgrows
  have hsame : ∀ x ∈ items, ∀ y ∈ items, touches x y → (x ∈ group ↔ y ∈ group) := by
    intro x hx y hy htouches
    constructor
    · intro hin
      by_contra hout
      exact hapart x hx y hy hin hout htouches
    · intro hin
      by_contra hout
      exact hapart y hy x hx hin hout (hsymm x y htouches)
  exact hyout ((hgrows.one_group hsame x hx y hy).mp hxin)

/-- Whether every item touches an earlier one does not depend on the order exactly if every two
items touch, or the items split. -/
theorem grows_perm_iff (hrefl : ∀ x ∈ items, touches x x) :
    (∀ order, order.Perm items → (Grows touches order ↔ Grows touches items)) ↔
      items.Pairwise touches ∨ Splits touches items := by
  constructor
  · intro hany
    by_cases hgrows : Grows touches items
    · left
      rw [pairwise_iff_forall_sublist]
      intro x y hsub
      obtain ⟨others, hperm⟩ := hsub.exists_perm_append
      -- the order that starts with the two
      have hfirst := (hany _ hperm.symm).mpr hgrows
      obtain ⟨z, hz, htouches⟩ := hfirst [x] y others rfl (cons_ne_nil _ _)
      rwa [mem_singleton.mp hz] at htouches
    · right
      rcases exists_grows_append hrefl grows_nil with ⟨order, hperm, horder⟩ | hsplits
      · exact absurd ((hany order hperm).mp horder) hgrows
      · exact hsplits
  · rintro (hall | hsplits) order hperm
    · have horder : order.Pairwise touches :=
        (hperm.pairwise_iff fun htouches ↦ hsymm _ _ htouches).mpr hall
      exact iff_of_true (grows_of_pairwise horder) (grows_of_pairwise hall)
    · exact iff_of_false (not_grows_of_splits hsymm (hsplits.perm hperm))
        (not_grows_of_splits hsymm hsplits)

end Symmetric

end ContikiMaster.Lib
