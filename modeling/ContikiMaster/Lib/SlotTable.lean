import Mathlib.Order.Interval.Finset.Nat

/-!
# Tables of numbered slots

Tasks are put into numbered slots of a fixed capacity such that no two tasks of a slot are
in conflict. A grid, one row for each place of a slot, represents a table when the tasks of
every slot fill its first places in order. A search finds a free slot as long as fewer slots
are busy than lie behind its start.
-/

namespace ContikiMaster.Lib

open Function List

variable {α : Type}

/-- Tasks in numbered slots: at most `capacity` in a slot, no two of them in conflict. -/
structure SlotTable (conflict : α → α → Prop) (capacity : ℕ) where
  slot : ℕ → List α
  length_le : ∀ t, (slot t).length ≤ capacity
  compatible : ∀ t, (slot t).Pairwise fun a b ↦ ¬ conflict a b

namespace SlotTable

variable {conflict : α → α → Prop} {capacity : ℕ}

def empty (conflict : α → α → Prop) (capacity : ℕ) : SlotTable conflict capacity where
  slot := fun _ ↦ []
  length_le := fun _ ↦ Nat.zero_le _
  compatible := fun _ ↦ List.Pairwise.nil

/-- A slot has room for a task and holds nothing in conflict with it. -/
def Accepts (T : SlotTable conflict capacity) (t : ℕ) (a : α) : Prop :=
  (T.slot t).length < capacity ∧ ∀ b ∈ T.slot t, ¬ conflict b a

def place (T : SlotTable conflict capacity) (t : ℕ) (a : α) (haccepts : T.Accepts t a) :
    SlotTable conflict capacity where
  slot := update T.slot t (T.slot t ++ [a])
  length_le := by
    intro u
    by_cases hu : u = t
    · subst hu
      rw [update_self, length_append]
      exact haccepts.1
    · rw [update_of_ne hu]
      exact T.length_le u
  compatible := by
    intro u
    by_cases hu : u = t
    · subst hu
      rw [update_self, pairwise_append]
      refine ⟨T.compatible u, pairwise_singleton _ _, fun b hb c hc ↦ ?_⟩
      rw [mem_singleton.mp hc]
      exact haccepts.2 b hb
    · rw [update_of_ne hu]
      exact T.compatible u

theorem place_slot (T : SlotTable conflict capacity) (t : ℕ) (a : α)
    (haccepts : T.Accepts t a) (u : ℕ) :
    (T.place t a haccepts).slot u = if u = t then T.slot t ++ [a] else T.slot u := by
  change update T.slot t (T.slot t ++ [a]) u = _
  by_cases hu : u = t
  · rw [if_pos hu, hu, update_self]
  · rw [if_neg hu, update_of_ne hu]

end SlotTable

/-- A grid of cells: the entry in a row at a slot. -/
abbrev Grid (α : Type) := ℕ → ℕ → Option α

namespace Grid

variable {conflict : α → α → Prop} {capacity : ℕ} {grid : Grid α} {T : SlotTable conflict capacity}

def write (grid : Grid α) (row t : ℕ) (a : α) : Grid α :=
  update grid row (update (grid row) t (some a))

theorem write_apply (grid : Grid α) (row t : ℕ) (a : α) (r u : ℕ) :
    grid.write row t a r u = if r = row ∧ u = t then some a else grid r u := by
  unfold write
  by_cases hr : r = row
  · subst hr
    rw [update_self]
    by_cases hu : u = t
    · rw [if_pos ⟨rfl, hu⟩, hu, update_self]
    · rw [if_neg fun hboth ↦ hu hboth.2, update_of_ne hu]
  · rw [if_neg fun hboth ↦ hr hboth.1, update_of_ne hr]

/-- The tasks of every slot fill its first rows in order. -/
def Represents (grid : Grid α) (T : SlotTable conflict capacity) : Prop :=
  ∀ row t, grid row t = (T.slot t)[row]?

theorem represents_empty : Represents (fun _ _ ↦ none) (SlotTable.empty conflict capacity) :=
  fun _ _ ↦ rfl

section

variable (hgrid : grid.Represents T)

include hgrid

variable {t row : ℕ}

/-- Writing a task into the first free row of a slot that accepts it. -/
theorem Represents.write {a : α} (haccepts : T.Accepts t a) :
    (grid.write (T.slot t).length t a).Represents (T.place t a haccepts) := by
  intro row u
  rw [write_apply, SlotTable.place_slot, hgrid row u]
  by_cases hu : u = t
  · subst hu
    rw [if_pos rfl]
    rcases lt_trichotomy row (T.slot u).length with hlt | heq | hgt
    · rw [if_neg fun hboth ↦ hlt.ne hboth.1, getElem?_append_left hlt]
    · rw [if_pos ⟨heq, rfl⟩, heq, getElem?_concat_length]
    · rw [if_neg fun hboth ↦ hgt.ne' hboth.1, getElem?_eq_none hgt.le,
        getElem?_eq_none (by rw [length_append]; exact hgt)]
  · rw [if_neg fun hboth ↦ hu hboth.2, if_neg hu]

theorem Represents.row_lt (hused : grid row t ≠ none) : row < capacity := by
  rw [hgrid row t] at hused
  by_contra hge
  exact hused (getElem?_eq_none ((T.length_le t).trans (not_lt.mp hge)))

/-- Two entries of a slot are not in conflict. -/
theorem Represents.compatible {row' : ℕ} {a b : α} (hlt : row < row') (ha : grid row t = some a)
    (hb : grid row' t = some b) : ¬ conflict a b := by
  rw [hgrid row t] at ha
  rw [hgrid row' t] at hb
  obtain ⟨hrow, rfl⟩ := List.getElem?_eq_some_iff.mp ha
  obtain ⟨hrow', rfl⟩ := List.getElem?_eq_some_iff.mp hb
  exact List.pairwise_iff_getElem.mp (T.compatible t) row row' hrow hrow' hlt

/-- The first free row of a slot follows its tasks. -/
theorem Represents.length_eq (hfree : grid row t = none)
    (hfilled : ∀ row' < row, grid row' t ≠ none) : (T.slot t).length = row := by
  rw [hgrid row t] at hfree
  have hle : (T.slot t).length ≤ row := getElem?_eq_none_iff.mp hfree
  refine hle.antisymm (not_lt.mp fun hlt ↦ ?_)
  have hused := hfilled _ hlt
  rw [hgrid] at hused
  exact hused (getElem?_eq_none le_rfl)

theorem Represents.mem_slot {a : α} : a ∈ T.slot t ↔ ∃ row, grid row t = some a := by
  rw [mem_iff_getElem?]
  exact exists_congr fun row ↦ by rw [hgrid row t]

end

end Grid

section BusySlots

def busySlots (length : ℕ) (busy : ℕ → Bool) : Finset ℕ :=
  (Finset.range length).filter fun t ↦ busy t = true

variable {length : ℕ} {busy busy' : ℕ → Bool}

theorem mem_busySlots {t : ℕ} : t ∈ busySlots length busy ↔ t < length ∧ busy t = true := by
  unfold busySlots
  rw [Finset.mem_filter, Finset.mem_range]

theorem exists_free_slot {start placed : ℕ} (hcount : (busySlots length busy).card ≤ placed)
    (hroom : start + placed < length) : ∃ t, start ≤ t ∧ t < length ∧ busy t = false := by
  by_contra hnone
  have hall : Finset.Ico start length ⊆ busySlots length busy := by
    intro t ht
    obtain ⟨hstart, hlt⟩ := Finset.mem_Ico.mp ht
    rw [mem_busySlots]
    refine ⟨hlt, ?_⟩
    by_contra hfree
    exact hnone ⟨t, hstart, hlt, Bool.eq_false_iff.mpr hfree⟩
  have hcard := Finset.card_le_card hall
  rw [Nat.card_Ico] at hcard
  omega

/-- One more task makes at most one more slot busy. -/
theorem card_busySlots_succ_le {slot : ℕ} (hwrite : ∀ t, busy' t = true → busy t = true ∨ t = slot) :
    (busySlots length busy').card ≤ (busySlots length busy).card + 1 := by
  have hsubset : busySlots length busy' ⊆ insert slot (busySlots length busy) := by
    intro t ht
    obtain ⟨hlt, hbusy⟩ := mem_busySlots.mp ht
    rw [Finset.mem_insert, mem_busySlots]
    rcases hwrite t hbusy with hold | hnew
    · exact .inr ⟨hlt, hold⟩
    · exact .inl hnew
  exact (Finset.card_le_card hsubset).trans (Finset.card_insert_le _ _)

end BusySlots

end ContikiMaster.Lib
