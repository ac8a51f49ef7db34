import Mathlib.Data.List.Pairwise
import Mathlib.Data.List.Perm.Basic
import Mathlib.Data.List.Perm.Lattice

/-!
# Lists of buckets

A table keeps, for every key of a duplicate-free list, a bucket of items.
Appending an item to one bucket, or erasing one from it, changes the
concatenation of all buckets by exactly that item, up to order.
-/

namespace ContikiMaster.Lib

open Function List

universe u v

variable {κ : Type u} {ι : Type v}

variable {k : κ}

/-- Labels stay distinct when a key with a fresh one comes in. -/
theorem label_inj {P P' : κ → Prop} {label label' : κ → ι} (hkeys : ∀ j, P' j ↔ P j ∨ j = k)
    (hold : ∀ j, P j → label' j = label j) (hfresh : ∀ j, P j → label j ≠ label' k)
    (hinj : ∀ a, P a → ∀ b, P b → label a = label b → a = b) :
    ∀ a, P' a → ∀ b, P' b → label' a = label' b → a = b := by
  intro a ha b hb heq
  rcases (hkeys a).mp ha with ha | rfl
  · rw [hold a ha] at heq
    rcases (hkeys b).mp hb with hb | rfl
    · rw [hold b hb] at heq
      exact hinj a ha b hb heq
    · exact absurd heq (hfresh a ha)
  · rcases (hkeys b).mp hb with hb | rfl
    · rw [hold b hb] at heq
      exact absurd heq.symm (hfresh b hb)
    · rfl

/-- Every item of the table, bucket by bucket. -/
def allItems (keys : List κ) (bucket : κ → List ι) : List ι := keys.flatMap bucket

variable {keys : List κ} {bucket bucket' : κ → List ι} {i : ι}

theorem mem_allItems : i ∈ allItems keys bucket ↔ ∃ k ∈ keys, i ∈ bucket k := by
  simp [allItems]

theorem allItems_congr (heq : ∀ k ∈ keys, bucket' k = bucket k) :
    allItems keys bucket' = allItems keys bucket := by
  induction keys with
  | nil => rfl
  | cons k keys ih =>
    have hhead := heq k mem_cons_self
    have htail := ih fun j hj ↦ heq j (mem_cons_of_mem _ hj)
    unfold allItems at htail ⊢
    rw [flatMap_cons, flatMap_cons, hhead, htail]

/-- Two tables that differ in one bucket differ by what that bucket gained. -/
theorem allItems_perm (hkeys : keys.Nodup) (hk : k ∈ keys)
    (hbucket : (bucket' k).Perm (i :: bucket k)) (hother : ∀ j, j ≠ k → bucket' j = bucket j) :
    (allItems keys bucket').Perm (i :: allItems keys bucket) := by
  induction keys with
  | nil => cases hk
  | cons j keys ih =>
    obtain ⟨hj, hrest⟩ := nodup_cons.mp hkeys
    have hcons : ∀ b : κ → List ι, allItems (j :: keys) b = b j ++ allItems keys b := fun b ↦ by
      unfold allItems
      rw [flatMap_cons]
    rw [hcons, hcons]
    rcases mem_cons.mp hk with rfl | hk
    · have htail : allItems keys bucket' = allItems keys bucket :=
        allItems_congr fun m hm ↦ hother m fun heq ↦ hj (heq ▸ hm)
      rw [htail]
      exact hbucket.append_right _
    · have hne : j ≠ k := fun heq ↦ hj (heq ▸ hk)
      rw [hother j hne]
      calc (bucket j ++ allItems keys bucket').Perm (bucket j ++ (i :: allItems keys bucket)) :=
            (ih hrest hk).append_left _
        _ |>.Perm (i :: (bucket j ++ allItems keys bucket)) := perm_middle

theorem allItems_erase [DecidableEq κ] [DecidableEq ι] (hkeys : keys.Nodup) (hk : k ∈ keys) (hi : i ∈ bucket k) :
    (allItems keys bucket).Perm (i :: allItems keys (update bucket k ((bucket k).erase i))) := by
  apply allItems_perm hkeys hk
  · rw [update_self]
    exact perm_cons_erase hi
  · intro j hj
    rw [update_of_ne hj]

/-- Dropping a key whose bucket is empty drops no item. -/
theorem allItems_erase_key [DecidableEq κ] (hkeys : keys.Nodup) (hempty : bucket k = []) :
    allItems (keys.erase k) bucket = allItems keys bucket := by
  induction keys with
  | nil => rfl
  | cons j keys ih =>
    obtain ⟨-, hrest⟩ := nodup_cons.mp hkeys
    by_cases hjk : j = k
    · subst hjk
      unfold allItems
      rw [erase_cons_head, flatMap_cons, hempty, nil_append]
    · have htail := ih hrest
      unfold allItems at htail ⊢
      rw [erase_cons_tail (by simpa using hjk), flatMap_cons, flatMap_cons, htail]

theorem allItems_append_key (hempty : bucket k = []) :
    allItems (keys ++ [k]) bucket = allItems keys bucket := by
  unfold allItems
  rw [flatMap_append, flatMap_singleton, hempty, append_nil]

/-- Buckets without duplicates that share no item concatenate without duplicates. -/
theorem nodup_allItems (hkeys : keys.Nodup) (hbucket : ∀ k ∈ keys, (bucket k).Nodup)
    (hdisjoint : ∀ j ∈ keys, ∀ k ∈ keys, ∀ i, i ∈ bucket j → i ∈ bucket k → j = k) :
    (allItems keys bucket).Nodup := by
  unfold allItems
  rw [nodup_flatMap]
  refine ⟨hbucket, ?_⟩
  refine hkeys.pairwise_of_forall_ne fun j hj k hk hne i hij hik ↦ ?_
  exact hne (hdisjoint j hj k hk i hij hik)

/-- In a table without duplicates an item determines its key. -/
theorem eq_of_mem_of_nodup {j : κ} (hitems : (allItems keys bucket).Nodup) (hj : j ∈ keys)
    (hk : k ∈ keys) (hij : i ∈ bucket j) (hik : i ∈ bucket k) : j = k := by
  by_contra hne
  unfold allItems at hitems
  have : Std.Symm (onFun List.Disjoint bucket) := ⟨fun _ _ hab ↦ List.Disjoint.symm hab⟩
  exact (nodup_flatMap.mp hitems).2.forall hj hk hne hij hik

end ContikiMaster.Lib
