import Mathlib.Data.List.Induction
import Mathlib.Order.Lattice

/-!
# Selecting the earliest item in one pass

A pass over a list keeps the earliest item so far, among equally early ones the one of the
lowest rank, and a backup: an equally early item that can spare for it. An item that is
replaced is remembered as the backup.
-/

namespace ContikiMaster.Lib

open List Option

universe u v

/-- What the pass carries: the best time, the best item and its backup. -/
structure Candidate (α : Type u) where
  time : ℕ
  best : Option α
  backup : Option α

section Selection

variable {α : Type u} {β : Type v} [LinearOrder β] (time : α → ℕ) (rank : α → β) (spare : α → Bool)

/-- The backup after an item as early as the best one: the first that turns up is kept, and the
best item so far counts before the new one. -/
def Candidate.nextBackup (c : Candidate α) (b x : α) : Option α :=
  match c.backup with
  | some backup => some backup
  | none =>
    if spare b then some b
    else if ¬ rank x < rank b ∧ spare x then some x
    else none

/-- One item against the candidate. -/
def Candidate.step (c : Candidate α) (x : α) : Candidate α :=
  match c.best with
  | none => ⟨time x, some x, none⟩
  | some b =>
    if time x < c.time then ⟨time x, some x, none⟩
    else if time x = c.time then
      ⟨c.time, some (if rank x < rank b then x else b), c.nextBackup rank spare b x⟩
    else c

def select (items : List α) : Candidate α :=
  items.foldl (Candidate.step time rank spare) ⟨0, none, none⟩

structure Selected (items : List α) (c : Candidate α) (b : α) : Prop where
  best : c.best = some b
  mem : b ∈ items
  time_eq : c.time = time b
  earliest : ∀ x ∈ items, time b ≤ time x
  lowest : ∀ x ∈ items, time x = time b → rank b ≤ rank x
  backup_spare : ∀ k, c.backup = some k → k ∈ items ∧ time k = time b ∧ spare k = true
  no_backup : c.backup = none → ∀ x ∈ items, time x = time b → spare x = true → x = b

variable {time rank spare} {items : List α} {c : Candidate α} {b x : α}

/-- An item earlier than all before it starts over. -/
theorem selected_restart (hearlier : ∀ y ∈ items, time x < time y) :
    Selected time rank spare (items ++ [x]) ⟨time x, some x, none⟩ x where
  best := rfl
  mem := mem_append_right _ (mem_singleton_self x)
  time_eq := rfl
  earliest y hy := by
    obtain hy | hy := mem_append.mp hy
    · exact (hearlier y hy).le
    · rw [mem_singleton.mp hy]
  lowest y hy htime := by
    obtain hy | hy := mem_append.mp hy
    · exact absurd htime (hearlier y hy).ne'
    · rw [mem_singleton.mp hy]
  backup_spare k hk := by cases hk
  no_backup _ y hy htime _ := by
    obtain hy | hy := mem_append.mp hy
    · exact absurd htime (hearlier y hy).ne'
    · exact mem_singleton.mp hy

section

variable (hselected : Selected time rank spare items c b)

include hselected

/-- A later item changes nothing. -/
theorem Selected.skip (hlater : time b < time x) :
    Selected time rank spare (items ++ [x]) c b where
  best := hselected.best
  mem := mem_append_left _ hselected.mem
  time_eq := hselected.time_eq
  earliest y hy := by
    obtain hy | hy := mem_append.mp hy
    · exact hselected.earliest y hy
    · rw [mem_singleton.mp hy]
      exact hlater.le
  lowest y hy htime := by
    obtain hy | hy := mem_append.mp hy
    · exact hselected.lowest y hy htime
    · rw [mem_singleton.mp hy] at htime
      exact absurd htime hlater.ne'
  backup_spare k hk := by
    obtain ⟨hmem, hkept⟩ := hselected.backup_spare k hk
    exact ⟨mem_append_left _ hmem, hkept⟩
  no_backup hnone y hy htime hspare := by
    obtain hy | hy := mem_append.mp hy
    · exact hselected.no_backup hnone y hy htime hspare
    · rw [mem_singleton.mp hy] at htime
      exact absurd htime hlater.ne'

theorem nextBackup_spare (htie : time x = time b)
    {k : α} (hk : c.nextBackup rank spare b x = some k) :
    k ∈ items ++ [x] ∧ time k = time b ∧ spare k = true := by
  unfold Candidate.nextBackup at hk
  cases hbackup : c.backup with
  | some backup =>
    rw [hbackup] at hk
    obtain rfl := some.inj hk
    obtain ⟨hmem, hkept⟩ := hselected.backup_spare backup hbackup
    exact ⟨mem_append_left _ hmem, hkept⟩
  | none =>
    rw [hbackup] at hk
    dsimp only at hk
    split at hk
    · rename_i hspare
      obtain rfl := some.inj hk
      exact ⟨mem_append_left _ hselected.mem, rfl, hspare⟩
    · split at hk
      · rename_i hboth
        obtain rfl := some.inj hk
        exact ⟨mem_append_right _ (mem_singleton_self x), htie, hboth.2⟩
      · cases hk

/-- Without a backup only the new best item can be one. -/
theorem eq_of_nextBackup_none
    (hnone : c.nextBackup rank spare b x = none) {y : α} (hy : y ∈ items ++ [x]) (htime : time y = time b) (hspare : spare y = true) :
    rank x < rank b ∧ y = x := by
  unfold Candidate.nextBackup at hnone
  cases hbackup : c.backup with
  | some backup =>
    rw [hbackup] at hnone
    cases hnone
  | none =>
    rw [hbackup] at hnone
    dsimp only at hnone
    split at hnone
    · cases hnone
    · rename_i hbest
      split at hnone
      · cases hnone
      · rename_i hnew
        obtain hy | hy := mem_append.mp hy
        · have heq := hselected.no_backup hbackup y hy htime hspare
          rw [heq] at hspare
          exact absurd hspare hbest
        · have heq := mem_singleton.mp hy
          rw [heq] at hspare
          refine ⟨?_, heq⟩
          by_contra hlt
          exact hnew ⟨hlt, hspare⟩

/-- An equally early item takes the place of the best one if its rank is lower. -/
theorem Selected.tie (htie : time x = time b) : Selected time rank spare (items ++ [x])
      ⟨c.time, some (if rank x < rank b then x else b), c.nextBackup rank spare b x⟩
      (if rank x < rank b then x else b) := by
  have htime : time (if rank x < rank b then x else b) = time b := by
    split
    · exact htie
    · rfl
  refine ⟨rfl, ?_, hselected.time_eq.trans htime.symm, fun y hy ↦ ?_, fun y hy hsame ↦ ?_,
    fun k hk ↦ ?_, fun hnone y hy hsame hspare ↦ ?_⟩
  · split
    · exact mem_append_right _ (mem_singleton_self x)
    · exact mem_append_left _ hselected.mem
  · rw [htime]
    obtain hy | hy := mem_append.mp hy
    · exact hselected.earliest y hy
    · rw [mem_singleton.mp hy, htie]
  · rw [htime] at hsame
    obtain hy | hy := mem_append.mp hy
    · have hle := hselected.lowest y hy hsame
      split
      · rename_i hlt
        exact hlt.le.trans hle
      · exact hle
    · rw [mem_singleton.mp hy]
      split
      · exact le_rfl
      · rename_i hlt
        exact not_lt.mp hlt
  · rw [htime]
    exact nextBackup_spare hselected htie hk
  · rw [htime] at hsame
    obtain ⟨hlt, heq⟩ := eq_of_nextBackup_none hselected hnone hy hsame hspare
    rw [if_pos hlt]
    exact heq

/-- The candidate after one more item. -/
theorem Selected.step (x : α) :
    ∃ b', Selected time rank spare (items ++ [x]) (c.step time rank spare x) b' := by
  unfold Candidate.step
  rw [hselected.best]
  dsimp only
  split
  · rename_i hlt
    rw [hselected.time_eq] at hlt
    exact ⟨x, selected_restart fun y hy ↦ hlt.trans_le (hselected.earliest y hy)⟩
  · split
    · rename_i heq
      exact ⟨_, hselected.tie (heq.trans hselected.time_eq)⟩
    · refine ⟨b, hselected.skip ?_⟩
      rw [← hselected.time_eq]
      omega

end

variable (time rank spare) in
/-- The pass selects from a list that is not empty. -/
theorem exists_selected (hne : items ≠ []) :
    ∃ b, Selected time rank spare items (select time rank spare items) b := by
  induction items using reverseRecOn with
  | nil => exact absurd rfl hne
  | append_singleton items x ih =>
    unfold select
    rw [foldl_append]
    change ∃ b, Selected time rank spare (items ++ [x])
      ((select time rank spare items).step time rank spare x) b
    by_cases hnil : items = []
    · subst hnil
      exact ⟨x, selected_restart fun y hy ↦ by cases hy⟩
    · obtain ⟨b, hselected⟩ := ih hnil
      exact hselected.step x

/-- What the pass returns is selected. -/
theorem select_selected (hbest : (select time rank spare items).best = some b) :
    Selected time rank spare items (select time rank spare items) b := by
  have hne : items ≠ [] := by
    rintro rfl
    cases hbest
  obtain ⟨b', hselected⟩ := @exists_selected α β _ time rank spare items hne
  obtain rfl := some.inj (hbest.symm.trans hselected.best)
  exact hselected

end Selection

end ContikiMaster.Lib
