import ContikiMaster.Net.NbrTableRuns

/-!
# The entries and the locks of one neighbour table

What the calls do to the bits of one table. Only the removal of a key takes an entry away, and a
call for another table leaves the entries and the locks of this one as they are.
-/

namespace ContikiMaster.Net

open Lib Sys Tsch Function Option NbrTables

universe u

theorem bit_ne_zero_iff (bits : BitVec 8) {index : ℕ} (hindex : index < 8) :
    (bits &&& 1#8 <<< index != 0#8) = bits.getLsbD index := by
  rw [← BitVec.twoPow_eq, BitVec.and_twoPow]
  cases hbit : bits.getLsbD index with
  | false => simp
  | true =>
    have hne : BitVec.twoPow 8 index ≠ 0#8 := by
      intro hzero
      have hsame := congrArg (fun b : BitVec 8 ↦ b.getLsbD index) hzero
      simp [hindex] at hsame
    simpa using hne

variable {bitmap : ℕ → BitVec 8} {index index' item i : ℕ} {value : Bool}

theorem nbrGetBit_some (hindex : index < 8) :
    nbrGetBit bitmap index (some i) = (bitmap i).getLsbD index := bit_ne_zero_iff _ hindex

theorem nbrGetBit_nbrSetBit (hindex : index < 8) (hindex' : index' < 8) :
    nbrGetBit (nbrSetBit bitmap index (some item) value).2 index' (some i) =
      if i = item ∧ index' = index then value else nbrGetBit bitmap index' (some i) := by
  rw [nbrGetBit_some hindex', nbrGetBit_some hindex']
  by_cases hi : i = item
  · subst hi
    by_cases hsame : index' = index
    · subst hsame
      cases value <;> simp [nbrSetBit, hindex]
    · cases value <;> simp [nbrSetBit, hindex', hsame, ← BitVec.twoPow_eq]
  · simp [nbrSetBit, hi]

theorem nbrSetBit_self : (nbrSetBit bitmap index (some item) value).2 item =
      if value then bitmap item ||| 1#8 <<< index else bitmap item &&& ~~~(1#8 <<< index) :=
  update_self item _ bitmap

theorem nbrGetBit_of_nbrSetBit_false {cleared : Option ℕ}
    (hbit : nbrGetBit (nbrSetBit bitmap index cleared false).2 index' (some i) = true) :
    nbrGetBit bitmap index' (some i) = true := by
  cases cleared with
  | none => exact hbit
  | some item =>
    by_cases hi : i = item
    · subst hi
      by_cases hindex' : index' < 8
      · rw [nbrGetBit_some hindex'] at hbit ⊢
        rw [nbrSetBit_self, if_neg Bool.false_ne_true, BitVec.getLsbD_and, Bool.and_eq_true] at hbit
        exact hbit.1
      · have hzero : 1#8 <<< index' = 0#8 := BitVec.shiftLeft_eq_zero (Nat.le_of_not_lt hindex')
        simp [nbrGetBit, hzero] at hbit
    · simpa [nbrGetBit, nbrSetBit, hi] using hbit

theorem nbrGetBit_nbrSetBit_true {set : Option ℕ} (hbit : nbrGetBit bitmap index' (some i) = true) :
    nbrGetBit (nbrSetBit bitmap index set true).2 index' (some i) = true := by
  cases set with
  | none => exact hbit
  | some item =>
    by_cases hi : i = item
    · subst hi
      by_cases hindex' : index' < 8
      · rw [nbrGetBit_some hindex'] at hbit ⊢
        rw [nbrSetBit_self, if_pos rfl, BitVec.getLsbD_or, hbit, Bool.true_or]
      · have hzero : 1#8 <<< index' = 0#8 := BitVec.shiftLeft_eq_zero (Nat.le_of_not_lt hindex')
        simp [nbrGetBit, hzero] at hbit
    · simpa [nbrGetBit, nbrSetBit, hi] using hbit

/-- The callback of every table takes the item off the table. -/
def removesItem : Reaction := fun table key ↦ [.remove table key]

namespace NbrTables

variable {α : Type u} {s t r : NbrTables α} {table other key : ℕ} {gone : Option ℕ}
  {removable : Option (Option Linkaddr)} {address : Option Linkaddr} {react : Reaction}

def locks (s : NbrTables α) (table item : ℕ) : Bool :=
  nbrGetBit s.lockedMap (s.table table).index (some item)

/-- The key that is removed to make room for a neighbour. -/
def evictedKey (s : NbrTables α) (lladdr : Option Linkaddr) (removable : Option (Option Linkaddr))
    (react : Reaction) : Option ℕ :=
  match s.indexFromLladdr lladdr, s.neighborAddrMem.alloc with
  | none, none => (s.nbrTableAllocate removable react).map Prod.fst
  | _, _ => none

/-- The key that is removed as a duplicate when an address is updated. -/
def duplicateKey (s : NbrTables α) (oldAddr : Option Linkaddr) (newAddr : Linkaddr)
    (removeIfDuplicate : Bool) : Option ℕ :=
  match s.indexFromLladdr oldAddr, s.indexFromLladdr (some newAddr) with
  | some index, some newIndex =>
    if newIndex = index then none else if removeIfDuplicate then some index else none
  | _, _ => none

/-- Two tables have different bits. -/
def Distinct (s : NbrTables α) (table other : ℕ) : Prop :=
  (s.table table).index < 8 ∧ (s.table other).index < 8 ∧
    (s.table table).index ≠ (s.table other).index

/-- The entries and the locks of a table are kept, but for an item that is gone. -/
structure Keeps (table : ℕ) (gone : Option ℕ) (s t : NbrTables α) : Prop where
  index : ∀ other, (t.table other).index = (s.table other).index
  uses : ∀ i, gone ≠ some i → s.uses table i = true → t.uses table i = true
  locks : ∀ i, gone ≠ some i → t.locks table i = s.locks table i
  unlocked : ∀ i, t.locks table i = true → s.locks table i = true

theorem Keeps.refl (s : NbrTables α) : Keeps table gone s s :=
  ⟨fun _ ↦ rfl, fun _ _ ↦ id, fun _ _ ↦ rfl, fun _ ↦ id⟩

theorem Keeps.trans (hst : Keeps table gone s t) (htr : Keeps table gone t r) :
    Keeps table gone s r where
  index other := (htr.index other).trans (hst.index other)
  uses i hne huses := htr.uses i hne (hst.uses i hne huses)
  locks i hne := (htr.locks i hne).trans (hst.locks i hne)
  unlocked i hlocks := hst.unlocked i (htr.unlocked i hlocks)

theorem Keeps.weaken (hst : Keeps table none s t) : Keeps table gone s t :=
  ⟨hst.index, fun i _ ↦ hst.uses i nofun, fun i _ ↦ hst.locks i nofun, hst.unlocked⟩

section

variable (hdistinct : s.Distinct table other) (item : Option ℕ)

include hdistinct

theorem nbrTableRemove_keeps : Keeps table none s (s.nbrTableRemove other item).2 := by
  obtain ⟨hindex, hother, hne⟩ := hdistinct
  refine ⟨fun _ ↦ rfl, fun i _ huses ↦ ?_, fun i _ ↦ ?_, fun i ↦ nbrGetBit_of_nbrSetBit_false⟩
  · cases item with
    | none => exact huses
    | some item =>
      refine (nbrGetBit_nbrSetBit hother hindex).trans ?_
      rw [if_neg fun hand ↦ hne hand.2]
      exact huses
  · cases item with
    | none => rfl
    | some item => exact (nbrGetBit_nbrSetBit hother hindex).trans (if_neg fun hand ↦ hne hand.2)

theorem nbrTableLock_keeps : Keeps table none s (s.nbrTableLock other item).2 := by
  obtain ⟨hindex, hother, hne⟩ := hdistinct
  have hlocks : ∀ i, (s.nbrTableLock other item).2.locks table i = s.locks table i := by
    intro i
    cases item with
    | none => rfl
    | some item => exact (nbrGetBit_nbrSetBit hother hindex).trans (if_neg fun hand ↦ hne hand.2)
  exact ⟨fun _ ↦ rfl, fun i _ ↦ id, fun i _ ↦ hlocks i, fun i hi ↦ (hlocks i) ▸ hi⟩

theorem nbrTableUnlock_keeps : Keeps table none s (s.nbrTableUnlock other item).2 := by
  obtain ⟨hindex, hother, hne⟩ := hdistinct
  refine ⟨fun _ ↦ rfl, fun i _ ↦ id, fun i _ ↦ ?_, fun i ↦ nbrGetBit_of_nbrSetBit_false⟩
  cases item with
  | none => rfl
  | some item => exact (nbrGetBit_nbrSetBit hother hindex).trans (if_neg fun hand ↦ hne hand.2)

end

theorem callCallback_keeps : Keeps table (some key) s (s.callCallback removesItem key other) := by
  rw [callCallback]
  split
  · refine ⟨fun _ ↦ rfl, fun i hne huses ↦ ?_, fun i hne ↦ ?_, fun i ↦ nbrGetBit_of_nbrSetBit_false⟩
    · have hi : i ≠ key := fun heq ↦ hne (congrArg some heq.symm)
      simpa [removesItem, release, nbrTableRemove, uses, nbrSetBit, nbrGetBit, hi]
        using huses
    · have hi : i ≠ key := fun heq ↦ hne (congrArg some heq.symm)
      simp [removesItem, release, nbrTableRemove, locks, nbrSetBit, nbrGetBit, hi]
  · exact Keeps.refl s

theorem removeKey_keeps : Keeps table (some key) s (s.removeKey removesItem key) := by
  have hcallbacks : ∀ (tables : List ℕ) (s : NbrTables α), Keeps table (some key) s
      (tables.foldl (fun s table ↦ s.callCallback removesItem key table) s) := by
    intro tables
    induction tables with
    | nil => exact fun s ↦ Keeps.refl s
    | cons other tables ih => exact fun s ↦ callCallback_keeps.trans (ih _)
  obtain ⟨hindex, huses, hlocks, hunlocked⟩ := hcallbacks s.allTables s
  refine ⟨hindex, fun i hne hi ↦ ?_, hlocks, hunlocked⟩
  have hikey : i ≠ key := fun heq ↦ hne (congrArg some heq.symm)
  have hbefore := huses i hne hi
  simpa [removeKey, uses, nbrGetBit, hikey] using hbefore

theorem clearLocks_keeps :
    Keeps table (some key) s { s with lockedMap := update s.lockedMap key 0 } := by
  refine ⟨fun _ ↦ rfl, fun _ _ ↦ id, fun i hne ↦ ?_, fun i hlocks ↦ ?_⟩
  · have hi : i ≠ key := fun heq ↦ hne (congrArg some heq.symm)
    simp [locks, nbrGetBit, hi]
  · by_cases hi : i = key
    · simp [locks, nbrGetBit, hi] at hlocks
    · simpa [locks, nbrGetBit, hi] using hlocks

theorem reuseLeastUsed_keeps (hreuse : s.reuseLeastUsed removesItem = some (key, t)) :
    Keeps table (some key) s t := by
  obtain ⟨found, -, hpair⟩ := map_eq_some_iff.mp hreuse
  obtain ⟨rfl, rfl⟩ := Prod.mk.injEq .. ▸ hpair
  exact removeKey_keeps

variable (table) in
theorem nbrTableAllocate_keeps (hallocate : s.nbrTableAllocate removable removesItem = some (key, t)) :
    Keeps table (match s.neighborAddrMem.alloc with | none => some key | some _ => none) s t := by
  unfold nbrTableAllocate at hallocate
  cases halloc : s.neighborAddrMem.alloc with
  | some fresh =>
    rw [halloc] at hallocate
    obtain ⟨rfl, rfl⟩ := Prod.mk.injEq .. ▸ some.inj hallocate
    exact ⟨fun _ ↦ rfl, fun _ _ ↦ id, fun _ _ ↦ rfl, fun _ ↦ id⟩
  | none =>
    rw [halloc] at hallocate
    dsimp only at hallocate ⊢
    split at hallocate
    · cases hallocate
    · split at hallocate
      · obtain ⟨rfl, rfl⟩ := Prod.mk.injEq .. ▸ some.inj hallocate
        exact clearLocks_keeps.trans removeKey_keeps
      · exact reuseLeastUsed_keeps hallocate
    · exact reuseLeastUsed_keeps hallocate

theorem useItem_keeps [Zero α] (other index : ℕ) : Keeps table none s (s.useItem other index) := by
  have hindex : ∀ k, ((s.useItem other index).table k).index = (s.table k).index := by
    intro k
    by_cases hk : k = other
    · simp [useItem, hk]
    · simp [useItem, hk]
  refine ⟨hindex, fun i _ huses ↦ ?_, fun i _ ↦ ?_, fun i hlocks ↦ ?_⟩
  · rw [uses, hindex]
    exact nbrGetBit_nbrSetBit_true huses
  · rw [locks, hindex]
    rfl
  · rw [locks, hindex] at hlocks
    exact hlocks

theorem nbrTableAddLladdr_keeps [Zero α] (s : NbrTables α) (other : ℕ) (address : Option Linkaddr)
    (removable : Option (Option Linkaddr)) :
    Keeps table (s.evictedKey address removable removesItem) s
      (s.nbrTableAddLladdr other address removable removesItem).2 := by
  unfold nbrTableAddLladdr evictedKey
  cases hindex : s.indexFromLladdr address with
  | some index => exact useItem_keeps other index
  | none =>
    cases hallocate : s.nbrTableAllocate removable removesItem with
    | none => exact Keeps.refl s
    | some ready =>
      obtain ⟨key, t⟩ := ready
      have hready := nbrTableAllocate_keeps table hallocate
      have hadd : Keeps table none t (t.addKey key (address.getD linkaddrNull)) :=
        ⟨fun _ ↦ rfl, fun _ _ ↦ id, fun _ _ ↦ rfl, fun _ ↦ id⟩
      have hput := hadd.trans (useItem_keeps other key)
      cases halloc : s.neighborAddrMem.alloc with
      | some fresh =>
        rw [halloc] at hready
        exact hready.trans hput
      | none =>
        rw [halloc] at hready
        exact hready.trans hput.weaken

theorem reuseLeastUsed_unlocked (hreuse : s.reuseLeastUsed react = some (key, t)) :
    s.lockedMap key = 0 := by
  obtain ⟨found, hfound, hpair⟩ := map_eq_some_iff.mp hreuse
  obtain ⟨rfl, rfl⟩ := Prod.mk.injEq .. ▸ hpair
  exact (leastUsedKey_spec hfound (by simp) (fun _ ↦ id)).1

theorem evictedKey_spec (hevicted : s.evictedKey address removable react = some key) :
    s.lockedMap key = 0 ∨ ∃ named, removable = some (some named) ∧
      s.indexFromLladdr (some named) = some key := by
  unfold evictedKey at hevicted
  cases hindex : s.indexFromLladdr address with
  | some index =>
    rw [hindex] at hevicted
    cases hevicted
  | none =>
    cases halloc : s.neighborAddrMem.alloc with
    | some fresh =>
      rw [hindex, halloc] at hevicted
      cases hevicted
    | none =>
      rw [hindex, halloc] at hevicted
      obtain ⟨⟨_, t⟩, hallocate, rfl⟩ := map_eq_some_iff.mp hevicted
      unfold nbrTableAllocate at hallocate
      rw [halloc] at hallocate
      dsimp only at hallocate
      split at hallocate
      · cases hallocate
      · split at hallocate
        next named _ index hnamed =>
          obtain ⟨rfl, rfl⟩ := Prod.mk.injEq .. ▸ some.inj hallocate
          exact Or.inr ⟨named, rfl, hnamed⟩
        · exact Or.inl (reuseLeastUsed_unlocked hallocate)
      · exact Or.inl (reuseLeastUsed_unlocked hallocate)

theorem nbrTableUpdateLladdr_keeps (oldAddr : Option Linkaddr) (newAddr : Linkaddr)
    (removeIfDuplicate : Bool) : Keeps table (s.duplicateKey oldAddr newAddr removeIfDuplicate) s
      (s.nbrTableUpdateLladdr oldAddr newAddr removeIfDuplicate removesItem).2 := by
  unfold nbrTableUpdateLladdr duplicateKey
  cases hindex : s.indexFromLladdr oldAddr with
  | none => exact Keeps.refl s
  | some index =>
    cases hnew : s.indexFromLladdr (some newAddr) with
    | none => exact ⟨fun _ ↦ rfl, fun _ _ ↦ id, fun _ _ ↦ rfl, fun _ ↦ id⟩
    | some newIndex =>
      dsimp only
      by_cases hsame : newIndex = index
      · rw [if_pos hsame, if_pos hsame]
        exact Keeps.refl s
      · rw [if_neg hsame, if_neg hsame]
        cases removeIfDuplicate with
        | true => exact removeKey_keeps
        | false => exact Keeps.refl s

/-- No entry of a table appears, and no item of the tables changes. -/
structure Shrinks (table : ℕ) (s t : NbrTables α) : Prop where
  index : ∀ other, (t.table other).index = (s.table other).index
  data : ∀ i, (t.table table).data i = (s.table table).data i
  uses : ∀ i, t.uses table i = true → s.uses table i = true

theorem Shrinks.refl (s : NbrTables α) : Shrinks table s s := ⟨fun _ ↦ rfl, fun _ ↦ rfl, fun _ ↦ id⟩

theorem Shrinks.trans (hst : Shrinks table s t) (htr : Shrinks table t r) : Shrinks table s r where
  index other := (htr.index other).trans (hst.index other)
  data i := (htr.data i).trans (hst.data i)
  uses i huses := hst.uses i (htr.uses i huses)

theorem nbrTableRemove_shrinks (item : Option ℕ) :
    Shrinks table s (s.nbrTableRemove other item).2 :=
  ⟨fun _ ↦ rfl, fun _ ↦ rfl, fun _ ↦ nbrGetBit_of_nbrSetBit_false⟩

theorem nbrTableLock_shrinks (item : Option ℕ) : Shrinks table s (s.nbrTableLock other item).2 :=
  ⟨fun _ ↦ rfl, fun _ ↦ rfl, fun _ ↦ id⟩

theorem nbrTableUnlock_shrinks (item : Option ℕ) :
    Shrinks table s (s.nbrTableUnlock other item).2 :=
  ⟨fun _ ↦ rfl, fun _ ↦ rfl, fun _ ↦ id⟩

theorem callCallback_shrinks : Shrinks table s (s.callCallback removesItem key other) := by
  unfold callCallback
  split
  · exact nbrTableRemove_shrinks (some key)
  · exact Shrinks.refl s

theorem removeKey_shrinks : Shrinks table s (s.removeKey removesItem key) := by
  have hcallbacks : ∀ (tables : List ℕ) (s : NbrTables α), Shrinks table s
      (tables.foldl (fun s table ↦ s.callCallback removesItem key table) s) := by
    intro tables
    induction tables with
    | nil => exact fun s ↦ Shrinks.refl s
    | cons other tables ih => exact fun s ↦ callCallback_shrinks.trans (ih _)
  obtain ⟨hindex, hdata, huses⟩ := hcallbacks s.allTables s
  refine ⟨hindex, hdata, fun i hi ↦ huses i ?_⟩
  by_cases hikey : i = key
  · simp [removeKey, uses, nbrGetBit, hikey] at hi
  · simpa [removeKey, uses, nbrGetBit, hikey] using hi

theorem nbrTableAllocate_shrinks (hallocate : s.nbrTableAllocate removable removesItem = some (key, t)) :
    Shrinks table s t := by
  have hreuse : ∀ {u : NbrTables α}, u.reuseLeastUsed removesItem = some (key, t) →
      Shrinks table u t := by
    intro u hsome
    obtain ⟨found, -, hpair⟩ := map_eq_some_iff.mp hsome
    obtain ⟨rfl, rfl⟩ := Prod.mk.injEq .. ▸ hpair
    exact removeKey_shrinks
  have hclear : ∀ key, Shrinks table s { s with lockedMap := update s.lockedMap key 0 } :=
    fun _ ↦ ⟨fun _ ↦ rfl, fun _ ↦ rfl, fun _ ↦ id⟩
  unfold nbrTableAllocate at hallocate
  split at hallocate
  · obtain ⟨rfl, rfl⟩ := Prod.mk.injEq .. ▸ some.inj hallocate
    exact ⟨fun _ ↦ rfl, fun _ ↦ rfl, fun _ ↦ id⟩
  · split at hallocate
    · cases hallocate
    · split at hallocate
      · obtain ⟨rfl, rfl⟩ := Prod.mk.injEq .. ▸ some.inj hallocate
        exact (hclear _).trans removeKey_shrinks
      · exact hreuse hallocate
    · exact hreuse hallocate

/-- An entry is the one that was added or was there before, with its data. -/
def AppearsOnly (table : ℕ) (added : Option ℕ) (s t : NbrTables α) : Prop :=
  ∀ i, t.uses table i = true → added = some i ∨
    s.uses table i = true ∧ (t.table table).data i = (s.table table).data i

theorem useItem_appearsOnly [Zero α] (index : ℕ) (hindex : (s.table table).index < 8) :
    AppearsOnly table (some index) s (s.useItem table index) := by
  intro i hi
  by_cases hitem : i = index
  · exact Or.inl (congrArg some hitem.symm)
  · refine Or.inr ⟨?_, by simp [useItem, hitem]⟩
    have hbit : nbrGetBit (nbrSetBit s.usedMap (s.table table).index (some index) true).2
        (s.table table).index (some i) = true := by
      simpa [useItem, uses] using hi
    rw [nbrGetBit_nbrSetBit hindex hindex, if_neg fun hand ↦ hitem hand.1] at hbit
    exact hbit

theorem useItem_shrinks [Zero α] (index : ℕ) (hdistinct : s.Distinct table other) :
    Shrinks table s (s.useItem other index) := by
  obtain ⟨hindex, hother, hne⟩ := hdistinct
  have htable : table ≠ other := fun heq ↦ hne (by rw [heq])
  refine ⟨fun k ↦ ?_, fun i ↦ by simp [useItem, htable], fun i hi ↦ ?_⟩
  · by_cases hk : k = other
    · simp [useItem, hk]
    · simp [useItem, hk]
  · have hbit : nbrGetBit (nbrSetBit s.usedMap (s.table other).index (some index) true).2
        (s.table table).index (some i) = true := by
      simpa [useItem, uses, htable] using hi
    rw [nbrGetBit_nbrSetBit hother hindex, if_neg fun hand ↦ hne hand.2] at hbit
    exact hbit

theorem nbrTableAddLladdr_appearsOnly [Zero α] (s : NbrTables α) (address : Option Linkaddr)
    (removable : Option (Option Linkaddr)) (hindex : (s.table table).index < 8) :
    AppearsOnly table (s.nbrTableAddLladdr table address removable removesItem).1 s
      (s.nbrTableAddLladdr table address removable removesItem).2 := by
  unfold nbrTableAddLladdr
  cases s.indexFromLladdr address with
  | some index => exact useItem_appearsOnly index hindex
  | none =>
    cases hallocate : s.nbrTableAllocate removable removesItem with
    | none => exact fun i hi ↦ Or.inr ⟨hi, rfl⟩
    | some ready =>
      obtain ⟨key, t⟩ := ready
      have hshrinks : Shrinks table s t := nbrTableAllocate_shrinks hallocate
      intro i hi
      have hused := useItem_appearsOnly (s := t.addKey key (address.getD linkaddrNull)) key
        ((congrArg (· < 8) (hshrinks.index table)).mpr hindex) i hi
      refine hused.imp id fun ⟨huses, hdata⟩ ↦ ?_
      exact ⟨hshrinks.uses i huses, hdata.trans (hshrinks.data i)⟩

theorem nbrTableAddLladdr_shrinks [Zero α] (address : Option Linkaddr)
    (removable : Option (Option Linkaddr)) (hdistinct : s.Distinct table other) :
    Shrinks table s (s.nbrTableAddLladdr other address removable removesItem).2 := by
  unfold nbrTableAddLladdr
  cases s.indexFromLladdr address with
  | some index => exact useItem_shrinks index hdistinct
  | none =>
    cases hallocate : s.nbrTableAllocate removable removesItem with
    | none => exact Shrinks.refl s
    | some ready =>
      obtain ⟨key, t⟩ := ready
      have hshrinks : Shrinks table s t := nbrTableAllocate_shrinks hallocate
      have hadd : Shrinks table t (t.addKey key (address.getD linkaddrNull)) :=
        ⟨fun _ ↦ rfl, fun _ ↦ rfl, fun _ ↦ id⟩
      have hready := hshrinks.trans hadd
      refine hready.trans (useItem_shrinks key ?_)
      rw [Distinct, hready.index, hready.index]
      exact hdistinct

theorem nbrTableUpdateLladdr_shrinks (oldAddr : Option Linkaddr) (newAddr : Linkaddr)
    (removeIfDuplicate : Bool) :
    Shrinks table s (s.nbrTableUpdateLladdr oldAddr newAddr removeIfDuplicate removesItem).2 := by
  unfold nbrTableUpdateLladdr
  split
  · exact Shrinks.refl s
  · split
    · split
      · exact Shrinks.refl s
      · split
        · exact removeKey_shrinks
        · exact Shrinks.refl s
    · exact ⟨fun _ ↦ rfl, fun _ ↦ rfl, fun _ ↦ id⟩

end NbrTables

end ContikiMaster.Net
