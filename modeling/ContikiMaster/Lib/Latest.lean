import Mathlib.Data.List.Basic
import Mathlib.Data.List.Induction
import Mathlib.Data.List.Pairwise

/-!
# The latest of each kind

A table of fixed length that puts every new item in front, in the place of the one with its
key or of the last one, holds the latest items of the keys that came last. A register holds
after a run what the last step that overwrites it has written.
-/

namespace ContikiMaster.Lib

open List

universe u v

variable {α : Type u} {κ : Type v} [DecidableEq κ] {key : α → κ}

/-- The latest item of each key, in the order of the history. -/
def latest (key : α → κ) : List α → List α
  | [] => []
  | x :: history => x :: (latest key history).filter fun y ↦ key y ≠ key x

/-- A new item in front, in the place of the first one with its key or of the last one. -/
def remember (key : α → κ) (table : List α) (x : α) : List α :=
  x :: table.eraseIdx (min (table.findIdx fun y ↦ key y = key x) (table.length - 1))

variable {x : α} {history : List α}

theorem mem_of_mem_latest (hmem : x ∈ latest key history) : x ∈ history := by
  induction history with
  | nil => exact hmem
  | cons y history ih =>
    rcases mem_cons.mp hmem with rfl | hold
    · exact mem_cons_self
    · exact mem_cons_of_mem y (ih (mem_filter.mp hold).1)

/-- No key has two latest items. -/
theorem latest_keys (history : List α) :
    (latest key history).Pairwise fun x y ↦ key x ≠ key y := by
  induction history with
  | nil => exact List.Pairwise.nil
  | cons x history ih =>
    refine List.Pairwise.cons (fun y hy ↦ ?_) (ih.filter _)
    exact (of_decide_eq_true (mem_filter.mp hy).2).symm

theorem latest_unique {y : α} (hx : x ∈ latest key history) (hy : y ∈ latest key history)
    (hkey : key x = key y) : x = y := by
  have hsymm : Std.Symm fun x y ↦ key x ≠ key y := ⟨fun _ _ hne ↦ hne.symm⟩
  by_contra hne
  exact (latest_keys history).forall hx hy hne hkey

theorem find?_latest_unique {n : ℕ} (hx : x ∈ (latest key history).take n) :
    ((latest key history).take n).find? (fun y ↦ key y = key x) = some x := by
  cases hfind : ((latest key history).take n).find? fun y ↦ key y = key x with
  | none =>
    have hnone := find?_eq_none.mp hfind x hx
    simp at hnone
  | some y =>
    have hkey : key y = key x := of_decide_eq_true (find?_some hfind :)
    have hy := mem_of_mem_take (mem_of_find?_eq_some hfind)
    rw [latest_unique hy (mem_of_mem_take hx) hkey]

/-- The table after an item, with places that were never used at its end. -/
theorem remember_take {blank : α} (hblank : key blank ≠ key x) {m r : ℕ} (hr : m < r)
    {items : List α} (hkeys : items.Pairwise fun x y ↦ key x ≠ key y) :
    remember key ((items ++ replicate r blank).take (m + 1)) x =
      ((x :: items.filter fun y ↦ key y ≠ key x) ++ replicate r blank).take (m + 1) := by
  have hlength : ((items ++ replicate r blank).take (m + 1)).length - 1 = m := by
    rw [length_take, length_append, length_replicate]
    omega
  unfold remember
  rw [hlength, cons_append, take_succ_cons]
  congr 1
  clear hlength
  induction m generalizing items with
  | zero =>
    rw [Nat.min_zero, take_zero]
    cases hlist : items ++ replicate r blank with
    | nil => rfl
    | cons y rest => rfl
  | succ m ih =>
    cases items with
    | nil =>
      have hnone : ((replicate r blank).take (m + 2)).findIdx (fun y ↦ key y = key x) =
          ((replicate r blank).take (m + 2)).length := by
        rw [findIdx_eq_length]
        intro y hy
        rw [eq_of_mem_replicate (mem_of_mem_take hy)]
        exact decide_eq_false hblank
      have hlength : ((replicate r blank).take (m + 2)).length = m + 2 := by
        rw [length_take, length_replicate]
        omega
      rw [nil_append, hnone, hlength, take_replicate]
      have hmin : min (m + 2) (m + 1) = m + 1 := by omega
      rw [hmin, filter_nil, nil_append, take_replicate, eraseIdx_replicate]
      have hsome : m + 1 < min (m + 2) r := by omega
      rw [if_pos hsome]
      congr 1
      omega
    | cons y items =>
      obtain ⟨hfresh, hrest⟩ := pairwise_cons.mp hkeys
      rw [cons_append, take_succ_cons]
      by_cases hsame : key y = key x
      · have hothers : items.filter (fun z ↦ key z ≠ key x) = items := by
          rw [filter_eq_self]
          intro z hz
          rw [← hsame]
          exact decide_eq_true (hfresh z hz).symm
        rw [findIdx_cons, filter_cons_of_neg (by simpa using hsame), hothers]
        simp [hsame]
      · rw [findIdx_cons, filter_cons_of_pos (by simpa using hsame), cons_append,
          take_succ_cons, ← ih (by omega) hrest]
        simp only [hsame, decide_false, cond_false]
        rw [Nat.add_min_add_right, eraseIdx_cons_succ]

section LastWrite

variable {σ α β : Type}

/-- What the last element of `l` that satisfies `p` writes over `b`. -/
def lastWrite (p : α → Bool) (f : α → β) (l : List α) (b : β) : β :=
  ((l.filter p).getLast?.map f).getD b

theorem lastWrite_append_singleton (p : α → Bool) (f : α → β) (l : List α) (a : α) (b : β) :
    lastWrite p f (l ++ [a]) b = if p a then f a else lastWrite p f l b := by
  rw [lastWrite, filter_append]
  cases hp : p a with
  | true => simp [hp]
  | false => simp [hp, lastWrite]

variable {p : α → Bool} {l : List α}

/-- A register that each step overwrites where `p` holds. -/
theorem foldl_lastWrite (step : σ → α → σ) (register : σ → β) {f : α → β}
    (hstep : ∀ s a, register (step s a) = if p a then f a else register s) (s : σ) (l : List α) :
    register (l.foldl step s) = lastWrite p f l (register s) := by
  induction l using reverseRecOn with
  | nil => rfl
  | append_singleton l a ih =>
    rw [foldl_append, foldl_cons, foldl_nil, hstep, ih, lastWrite_append_singleton]

theorem lastWrite_of_getLast {a : α} (hlast : (l.filter p).getLast? = some a) (f : α → β) (b : β) :
    lastWrite p f l b = f a := by
  rw [lastWrite, hlast]
  rfl

theorem lastWrite_of_none (hnone : (l.filter p).getLast? = none) (f : α → β) (b : β) :
    lastWrite p f l b = b := by
  rw [lastWrite, hnone]
  rfl

/-- The register holds what some element has written, or no element has written. -/
theorem lastWrite_cases (p : α → Bool) (f : α → β) (l : List α) (b : β) :
    (∃ a ∈ l, p a = true ∧ lastWrite p f l b = f a) ∨
      (∀ a ∈ l, p a = false) ∧ lastWrite p f l b = b := by
  cases hlast : (l.filter p).getLast? with
  | none =>
    right
    constructor
    · intro a ha
      rw [getLast?_eq_none_iff, filter_eq_nil_iff] at hlast
      simpa using hlast a ha
    · exact lastWrite_of_none hlast f b
  | some a =>
    left
    obtain ⟨hmem, hp⟩ := mem_filter.mp (mem_of_getLast? hlast)
    exact ⟨a, hmem, hp, lastWrite_of_getLast hlast f b⟩

end LastWrite

end ContikiMaster.Lib
