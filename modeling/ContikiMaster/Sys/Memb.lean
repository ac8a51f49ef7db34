import Mathlib.Data.List.Perm.Basic

/-!
# Fixed pools of memory blocks and intrusive lists

The pools of `memb.c`: blocks with a reference count each. A pointer into a pool is the
index of its block; a freed block keeps its content, so a dangling pointer still reads it.
Intrusive lists (`list.c`) are lists of indices. When the list of the blocks that are held
names every used block once, none is leaked or handed out twice.
-/

namespace ContikiMaster.Sys

open Function List Option

universe u

/-- A pool of `num` blocks; indices past the end are never handed out. -/
structure Memb (α : Type u) where
  num : ℕ
  count : ℕ → ℕ
  mem : ℕ → α

namespace Memb

variable {α : Type u}

/-- `memb_init`: every block unused and zeroed. -/
def init (num : ℕ) (zero : α) : Memb α where
  num := num
  count := fun _ ↦ 0
  mem := fun _ ↦ zero

def firstFree (m : Memb α) : Option ℕ := (range m.num).find? fun i ↦ m.count i == 0

/-- `memb_alloc`: take the first unused block, leaving its content as it is. -/
def alloc (m : Memb α) : Option (ℕ × Memb α) :=
  m.firstFree.map fun i ↦ (i, { m with count := update m.count i (m.count i + 1) })

/-- `memb_free`: decrement the count of the block the pointer designates. -/
def free (m : Memb α) (p : ℕ) : Memb α :=
  if p < m.num then { m with count := update m.count p (m.count p - 1) } else m

/-- `memb_numfree`. -/
def numfree (m : Memb α) : ℕ := (range m.num).countP fun i ↦ m.count i == 0

def store (m : Memb α) (p : ℕ) (v : α) : Memb α := { m with mem := update m.mem p v }

variable {m m' : Memb α} {p q i : ℕ} {v : α}

@[simp] theorem store_num : (m.store p v).num = m.num := rfl

@[simp] theorem store_count : (m.store p v).count = m.count := rfl

@[simp] theorem store_mem_self : (m.store p v).mem p = v := by
  simp [store]

theorem store_mem_of_ne (hne : q ≠ p) : (m.store p v).mem q = m.mem q := by
  simp [store, hne]

/-- A field that the new contents leave alone. -/
theorem store_field {β : Type*} (f : α → β) (hv : f v = f (m.mem p)) (q : ℕ) :
    f ((m.store p v).mem q) = f (m.mem q) := by
  by_cases hq : q = p
  · rw [hq, store_mem_self, hv]
  · rw [store_mem_of_ne hq]

theorem store_mem (m : Memb α) (p : ℕ) (v : α) : (m.store p v).mem = update m.mem p v := rfl

@[simp] theorem free_num : (m.free p).num = m.num := by
  unfold free
  split <;> rfl

@[simp] theorem free_mem : (m.free p).mem = m.mem := by
  unfold free
  split <;> rfl

theorem free_count_of_ne (hne : q ≠ p) : (m.free p).count q = m.count q := by
  unfold free
  split
  · simp [hne]
  · rfl

theorem free_count_self (hp : p < m.num) : (m.free p).count p = m.count p - 1 := by
  simp [free, hp]

/-- A block that is in use at most once is not in use any more. -/
theorem free_count (hp : p < m.num ∧ m.count p = 1 ∨ m.count p = 0) :
    (m.free p).count q = if q = p then 0 else m.count q := by
  by_cases hq : q = p
  · rw [if_pos hq, hq]
    rcases hp with ⟨hlt, hone⟩ | hzero
    · rw [free_count_self hlt, hone]
    · by_cases hlt : p < m.num
      · rw [free_count_self hlt, hzero]
      · rw [free, if_neg hlt, hzero]
  · rw [if_neg hq, free_count_of_ne hq]

/-- The blocks with a property are in use once, and no other block is. -/
def Exactly (m : Memb α) (P : ℕ → Prop) : Prop :=
  (∀ i, P i ↔ i < m.num ∧ m.count i = 1) ∧ ∀ i, ¬ P i → m.count i = 0

variable {P P' : ℕ → Prop}

theorem Exactly.free (huses : m.Exactly P) (p : ℕ) (hP : ∀ i, P' i ↔ P i ∧ i ≠ p) :
    (m.free p).Exactly P' := by
  have hcount : ∀ i, (m.free p).count i = if i = p then 0 else m.count i := by
    intro i
    apply free_count
    by_cases hp : P p
    · exact Or.inl ((huses.1 p).mp hp)
    · exact Or.inr (huses.2 p hp)
  constructor
  · intro i
    rw [hP, hcount, free_num, huses.1]
    by_cases hi : i = p
    · simp [hi]
    · simp [hi]
  · intro i hi
    rw [hcount]
    split
    · rfl
    · rename_i hne
      exact huses.2 i fun hold ↦ hi ((hP i).mpr ⟨hold, hne⟩)

theorem firstFree_spec (hfree : m.firstFree = some i) : i < m.num ∧ m.count i = 0 := by
  have hfound := find?_some hfree
  have hmem := mem_of_find?_eq_some hfree
  exact ⟨mem_range.mp hmem, by simpa using hfound⟩

theorem alloc_spec (halloc : m.alloc = some (i, m')) :
    i < m.num ∧ m.count i = 0 ∧ m'.num = m.num ∧ m'.mem = m.mem ∧
      m'.count = update m.count i 1 := by
  obtain ⟨j, hfree, hpair⟩ := map_eq_some_iff.mp halloc
  obtain ⟨rfl, rfl⟩ := Prod.mk.injEq .. ▸ hpair
  obtain ⟨hlt, hzero⟩ := firstFree_spec hfree
  exact ⟨hlt, hzero, rfl, rfl, by rw [hzero]⟩

theorem Exactly.take (huses : m.Exactly P) (hlt : p < m.num) (hnum : m'.num = m.num)
    (hcount : m'.count = update m.count p 1) (hP : ∀ i, P' i ↔ P i ∨ i = p) : m'.Exactly P' := by
  constructor
  · intro i
    rw [hP, hnum, hcount, update_apply, huses.1]
    by_cases hi : i = p
    · simp [hi, hlt]
    · simp [hi]
  · intro i hi
    rw [hP, not_or] at hi
    rw [hcount, update_of_ne hi.2]
    exact huses.2 i hi.1

theorem firstFree_isSome (hp : p < m.num) (hzero : m.count p = 0) : m.firstFree.isSome := by
  rw [firstFree, find?_isSome]
  exact ⟨p, mem_range.mpr hp, by simp [hzero]⟩

theorem alloc_isSome (hp : p < m.num) (hzero : m.count p = 0) : m.alloc.isSome := by
  rw [alloc, isSome_map]
  exact firstFree_isSome hp hzero

theorem alloc_eq_none : m.alloc = none ↔ ∀ p < m.num, m.count p ≠ 0 := by
  constructor
  · intro hnone p hp hzero
    have hsome := alloc_isSome hp hzero
    simp [hnone] at hsome
  · intro hused
    rcases halloc : m.alloc with _ | ⟨i, m'⟩
    · rfl
    · obtain ⟨hlt, hzero, -⟩ := alloc_spec halloc
      exact absurd hzero (hused i hlt)

end Memb

/-- `list_add`: a block already on the list is taken off first, then appended. -/
def listAdd (l : List ℕ) (p : ℕ) : List ℕ := l.erase p ++ [p]

def listRemove (l : List ℕ) (p : ℕ) : List ℕ := l.erase p

/-- The blocks after a block of the list, which `list_item_next` leads down; none when the block
is on no list. -/
def listFollowing (l : List ℕ) (p : ℕ) : List ℕ := (l.dropWhile fun q ↦ q ≠ p).tail

theorem listFollowing_append {front rest : List ℕ} {p : ℕ} (hp : p ∉ front) :
    listFollowing (front ++ p :: rest) p = rest := by
  induction front with
  | nil => simp [listFollowing]
  | cons q front ih =>
    obtain ⟨hne, hnot⟩ := not_or.mp (mem_cons.not.mp hp)
    have hdrop : listFollowing (q :: (front ++ p :: rest)) p =
        listFollowing (front ++ p :: rest) p := by
      simp [listFollowing, Ne.symm hne]
    exact hdrop.trans (ih hnot)

variable {l : List ℕ}

theorem listAdd_of_notMem {p : ℕ} (hp : p ∉ l) : listAdd l p = l ++ [p] := by
  rw [listAdd, erase_of_not_mem hp]

theorem mem_listAdd {p q : ℕ} : q ∈ listAdd l p ↔ q ∈ l ∨ q = p := by
  by_cases hq : q = p
  · simp [listAdd, hq]
  · simp [listAdd, mem_erase_of_ne hq, hq]

theorem nodup_listAdd {p : ℕ} (hl : l.Nodup) : (listAdd l p).Nodup := by
  rw [listAdd, nodup_append]
  refine ⟨hl.erase p, by simp, fun a ha b hb ↦ ?_⟩
  obtain rfl := mem_singleton.mp hb
  rintro rfl
  exact hl.not_mem_erase ha

theorem mem_listRemove {p q : ℕ} (hl : l.Nodup) : q ∈ listRemove l p ↔ q ∈ l ∧ q ≠ p := by
  rw [listRemove, hl.mem_erase_iff, and_comm]

theorem nodup_listRemove {p : ℕ} (hl : l.Nodup) : (listRemove l p).Nodup := hl.erase p

namespace Memb

variable {α : Type u} {m m' : Memb α} {used used' : List ℕ} {i : ℕ}

/-- A new block goes on the list, and those on it keep their contents. -/
theorem alloc_listAdd (halloc : m.alloc = some (i, m')) (hused : ∀ q ∈ used, m.count q ≠ 0) :
    i ∉ used ∧ (∀ q ∈ listAdd used i, m'.count q ≠ 0) ∧
      ∀ v, ∀ q ∈ used, (m'.store i v).mem q = m.mem q := by
  obtain ⟨-, hzero, -, hmem, hcount⟩ := alloc_spec halloc
  have hfresh : i ∉ used := fun hi ↦ hused i hi hzero
  have hne : ∀ q ∈ used, q ≠ i := fun q hq heq ↦ hfresh (heq ▸ hq)
  refine ⟨hfresh, fun q hq ↦ ?_, fun v q hq ↦ ?_⟩
  · rw [hcount]
    rcases mem_listAdd.mp hq with hq | rfl
    · rw [update_of_ne (hne q hq)]
      exact hused q hq
    · simp
  · rw [store_mem_of_ne (hne q hq), hmem]

/-- The blocks of the list are in use, once each, and no other block is. -/
structure Uses (m : Memb α) (used : List ℕ) : Prop where
  nodup : used.Nodup
  count : ∀ i, m.count i = if i ∈ used then 1 else 0
  lt : ∀ i ∈ used, i < m.num

theorem uses_init (num : ℕ) (zero : α) : (init num zero).Uses [] where
  nodup := nodup_nil
  count _ := (if_neg not_mem_nil).symm
  lt i hi := by cases hi

namespace Uses

section

variable (huses : m.Uses used)

include huses

theorem perm (hperm : used.Perm used') : m.Uses used' where
  nodup := hperm.nodup_iff.mp huses.nodup
  count i := (huses.count i).trans (if_congr hperm.mem_iff rfl rfl)
  lt i hi := huses.lt i (hperm.mem_iff.mpr hi)

theorem store (p : ℕ) (v : α) : (m.store p v).Uses used where
  nodup := huses.nodup
  count := huses.count
  lt := huses.lt

theorem count_of_mem (hi : i ∈ used) : m.count i = 1 := by
  rw [huses.count, if_pos hi]

theorem notMem_of_alloc (halloc : m.alloc = some (i, m')) : i ∉ used := by
  intro hi
  have hzero := (alloc_spec halloc).2.1
  rw [huses.count_of_mem hi] at hzero
  exact Nat.one_ne_zero hzero

theorem alloc (halloc : m.alloc = some (i, m')) : m'.Uses (i :: used) := by
  have hi := huses.notMem_of_alloc halloc
  obtain ⟨hlt, -, hnum, -, hcount⟩ := alloc_spec halloc
  refine ⟨nodup_cons.mpr ⟨hi, huses.nodup⟩, fun j ↦ ?_, fun j hj ↦ ?_⟩
  · rw [hcount]
    by_cases hj : j = i
    · rw [hj, update_self, if_pos mem_cons_self]
    · rw [update_of_ne hj, huses.count]
      exact if_congr (by rw [mem_cons, or_iff_right hj]) rfl rfl
  · rw [hnum]
    rcases mem_cons.mp hj with rfl | hj
    · exact hlt
    · exact huses.lt j hj

end

theorem free (huses : m.Uses (i :: used)) : (m.free i).Uses used := by
  obtain ⟨hi, hnodup⟩ := nodup_cons.mp huses.nodup
  have hlt := huses.lt i mem_cons_self
  refine ⟨hnodup, fun j ↦ ?_, fun j hj ↦ ?_⟩
  · by_cases hj : j = i
    · rw [hj, free_count_self hlt, huses.count_of_mem mem_cons_self, if_neg hi]
    · rw [free_count_of_ne hj, huses.count]
      exact if_congr (by rw [mem_cons, or_iff_right hj]) rfl rfl
  · rw [free_num]
    exact huses.lt j (mem_cons_of_mem i hj)

end Uses

end Memb

end ContikiMaster.Sys
