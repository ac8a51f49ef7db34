import ContikiMaster.Net.NbrTable

/-!
# The integrity of the neighbour tables

The listed keys have different addresses and are taken blocks of the pool, only listed keys
are used and only taken blocks locked, so a loop over a table visits each item once. A key
that is removed as a duplicate stays taken, so its block is lost.
-/

namespace ContikiMaster.Net.NbrTables

open Lib Sys Tsch Function List Option

universe u

variable {α : Type u} {s s' t : NbrTables α} {key table i : ℕ}
  {address : Option Linkaddr} {removable : Option (Option Linkaddr)} {react : Reaction}

/-- What every call keeps. -/
structure Sound (s : NbrTables α) : Prop where
  nodup : s.nbrTableKeys.Nodup
  allocated : ∀ key ∈ s.nbrTableKeys, s.Allocated key
  lladdrs : s.nbrTableKeys.Pairwise fun i j ↦ s.lladdr i ≠ s.lladdr j
  used : ∀ key, s.usedMap key ≠ 0 → key ∈ s.nbrTableKeys
  locked : ∀ key, s.lockedMap key ≠ 0 → s.Allocated key

def NoneLost (s : NbrTables α) : Prop := ∀ key, s.Allocated key → key ∈ s.nbrTableKeys

theorem init_sound [Zero α] (num : ℕ) : (init num : NbrTables α).Sound where
  nodup := nodup_nil
  allocated := by simp [init]
  lladdrs := List.Pairwise.nil
  used := by simp [init]
  locked := by simp [init]

theorem init_noneLost [Zero α] (num : ℕ) : (init num : NbrTables α).NoneLost := by
  intro key hallocated
  exact absurd rfl hallocated.2

variable {bitmap : ℕ → BitVec 8} {index k num : ℕ} {item : Option ℕ} {addr newAddr : Linkaddr}
  {removeIfDuplicate policy : Bool} {op : Op} {ops : List Op}

theorem nbrSetBit_false_eq_zero (hzero : bitmap k = 0) :
    (nbrSetBit bitmap index item false).2 k = 0 := by
  cases item with
  | none => exact hzero
  | some item =>
    by_cases hk : k = item
    · subst hk
      simp [nbrSetBit, hzero]
    · simp [nbrSetBit, hk, hzero]

theorem nbrSetBit_true_of_ne (hne : item ≠ some k) :
    (nbrSetBit bitmap index item true).2 k = bitmap k := by
  cases item with
  | none => rfl
  | some item =>
    have hk : k ≠ item := fun heq ↦ hne (congrArg some heq.symm)
    simp [nbrSetBit, hk]

/-- Nothing has changed but bits that were cleared. -/
structure Releases (s t : NbrTables α) : Prop where
  mem : t.neighborAddrMem = s.neighborAddrMem
  keys : t.nbrTableKeys = s.nbrTableKeys
  used : ∀ key, s.usedMap key = 0 → t.usedMap key = 0
  locked : ∀ key, s.lockedMap key = 0 → t.lockedMap key = 0

namespace Releases

theorem refl (s : NbrTables α) : Releases s s := ⟨rfl, rfl, fun _ ↦ id, fun _ ↦ id⟩

theorem trans {r : NbrTables α} (hleft : Releases r s) (hright : Releases s t) : Releases r t where
  mem := hright.mem.trans hleft.mem
  keys := hright.keys.trans hleft.keys
  used key hzero := hright.used key (hleft.used key hzero)
  locked key hzero := hright.locked key (hleft.locked key hzero)

theorem lladdr (hreleases : Releases s t) : t.lladdr = s.lladdr := by
  ext key
  simp [NbrTables.lladdr, hreleases.mem]

theorem allocated (hreleases : Releases s t) : t.Allocated key ↔ s.Allocated key := by
  rw [Allocated, Allocated, hreleases.mem]

theorem sound (hreleases : Releases s t) (hsound : s.Sound) : t.Sound where
  nodup := by
    rw [hreleases.keys]
    exact hsound.nodup
  allocated key hkey := by
    rw [hreleases.keys] at hkey
    exact hreleases.allocated.mpr (hsound.allocated key hkey)
  lladdrs := by
    rw [hreleases.keys, hreleases.lladdr]
    exact hsound.lladdrs
  used key hused := by
    rw [hreleases.keys]
    exact hsound.used key fun hzero ↦ hused (hreleases.used key hzero)
  locked key hlocked :=
    hreleases.allocated.mpr (hsound.locked key fun hzero ↦ hlocked (hreleases.locked key hzero))

theorem noneLost (hreleases : Releases s t) (hnone : s.NoneLost) : t.NoneLost := by
  intro key hallocated
  rw [hreleases.keys]
  exact hnone key (hreleases.allocated.mp hallocated)

end Releases

theorem nbrTableRemove_releases (table : ℕ) (item : Option ℕ) :
    Releases s (s.nbrTableRemove table item).2 :=
  ⟨rfl, rfl, fun _ ↦ nbrSetBit_false_eq_zero, fun _ ↦ nbrSetBit_false_eq_zero⟩

theorem nbrTableUnlock_releases (table : ℕ) (item : Option ℕ) :
    Releases s (s.nbrTableUnlock table item).2 :=
  ⟨rfl, rfl, fun _ ↦ id, fun _ ↦ nbrSetBit_false_eq_zero⟩

theorem release_releases (r : Release) : Releases s (s.release r) := by
  cases r with
  | remove table item => exact nbrTableRemove_releases table (some item)
  | unlock table item => exact nbrTableUnlock_releases table (some item)

theorem foldl_releases {β : Type*} {f : NbrTables α → β → NbrTables α}
    (hf : ∀ s b, Releases s (f s b)) (l : List β) (s : NbrTables α) : Releases s (l.foldl f s) := by
  induction l generalizing s with
  | nil => exact Releases.refl s
  | cons b l ih => exact (hf s b).trans (ih (f s b))

theorem callCallback_releases : Releases s (s.callCallback react key table) := by
  unfold callCallback
  split
  · exact foldl_releases (fun _ r ↦ release_releases r) _ s
  · exact Releases.refl s

theorem removeKey_eq (s : NbrTables α) (react : Reaction) (key : ℕ) :
    ∃ t, Releases s t ∧ s.removeKey react key =
      { t with
        usedMap := update t.usedMap key 0
        nbrTableKeys := s.nbrTableKeys.erase key } := by
  have hreleases : Releases s
      (s.allTables.foldl (fun s table ↦ s.callCallback react key table) s) :=
    foldl_releases (fun _ _ ↦ callCallback_releases) _ s
  refine ⟨_, hreleases, ?_⟩
  rw [removeKey, listRemove, hreleases.keys]

theorem removeKey_mem : (s.removeKey react key).neighborAddrMem = s.neighborAddrMem := by
  obtain ⟨t, hreleases, heq⟩ := removeKey_eq s react key
  rw [heq]
  exact hreleases.mem

theorem removeKey_keys : (s.removeKey react key).nbrTableKeys = s.nbrTableKeys.erase key := by
  obtain ⟨t, -, heq⟩ := removeKey_eq s react key
  rw [heq]

theorem removeKey_lladdr : (s.removeKey react key).lladdr = s.lladdr := by
  ext k
  simp [NbrTables.lladdr, removeKey_mem]

theorem removeKey_allocated : (s.removeKey react key).Allocated i ↔ s.Allocated i := by
  rw [Allocated, Allocated, removeKey_mem]

theorem removeKey_locked (hzero : s.lockedMap i = 0) : (s.removeKey react key).lockedMap i = 0 := by
  obtain ⟨t, hreleases, heq⟩ := removeKey_eq s react key
  rw [heq]
  exact hreleases.locked i hzero

theorem removeKey_used_self : (s.removeKey react key).usedMap key = 0 := by
  obtain ⟨t, -, heq⟩ := removeKey_eq s react key
  simp [heq]

theorem removeKey_used (hzero : s.usedMap i = 0) : (s.removeKey react key).usedMap i = 0 := by
  obtain ⟨t, hreleases, heq⟩ := removeKey_eq s react key
  by_cases hi : i = key
  · subst hi
    exact removeKey_used_self
  · simp [heq, hi, hreleases.used i hzero]

theorem Sound.removeKey (hsound : s.Sound) : (s.removeKey react key).Sound where
  nodup := by
    rw [removeKey_keys]
    exact hsound.nodup.erase key
  allocated k hk := by
    rw [removeKey_keys] at hk
    exact removeKey_allocated.mpr (hsound.allocated k (mem_of_mem_erase hk))
  lladdrs := by
    rw [removeKey_keys, removeKey_lladdr]
    exact hsound.lladdrs.sublist erase_sublist
  used k hused := by
    have hkept : s.usedMap k ≠ 0 := fun hzero ↦ hused (removeKey_used hzero)
    have hne : k ≠ key := by
      rintro rfl
      exact hused removeKey_used_self
    rw [removeKey_keys]
    exact (mem_erase_of_ne hne).mpr (hsound.used k hkept)
  locked k hlocked := by
    have hkept : s.lockedMap k ≠ 0 := fun hzero ↦ hlocked (removeKey_locked hzero)
    exact removeKey_allocated.mpr (hsound.locked k hkept)

theorem indexFromLladdr_some (hindex : s.indexFromLladdr address = some key) :
    key ∈ s.nbrTableKeys ∧ address.getD linkaddrNull = s.lladdr key :=
  ⟨mem_of_find?_eq_some hindex, of_decide_eq_true (find?_some hindex :)⟩

theorem indexFromLladdr_none (hindex : s.indexFromLladdr address = none) :
    ∀ k ∈ s.nbrTableKeys, s.lladdr k ≠ address.getD linkaddrNull := by
  intro k hk heq
  have hnot := find?_eq_none.mp hindex k hk
  simp [heq] at hnot

theorem leastUsedKey_spec {keys : List ℕ} {leastUsed : Option (ℕ × ℕ)}
    (hfound : s.leastUsedKey keys leastUsed = some key)
    (hleast : ∀ least ∈ leastUsed, s.lockedMap least.1 = 0 ∧ least.1 ∈ s.nbrTableKeys)
    (hkeys : ∀ k ∈ keys, k ∈ s.nbrTableKeys) : s.lockedMap key = 0 ∧ key ∈ s.nbrTableKeys := by
  induction keys generalizing leastUsed with
  | nil =>
    obtain ⟨least, hmem, rfl⟩ := map_eq_some_iff.mp hfound
    exact hleast least hmem
  | cons k keys ih =>
    have hk := hkeys k mem_cons_self
    have hrest : ∀ k ∈ keys, k ∈ s.nbrTableKeys := fun j hj ↦ hkeys j (mem_cons_of_mem k hj)
    rw [leastUsedKey] at hfound
    split at hfound
    · exact ih hfound hleast hrest
    next hunlocked =>
      have hzero : s.lockedMap k = 0 := not_not.mp hunlocked
      dsimp only at hfound
      split at hfound
      · split at hfound
        · obtain rfl := some.inj hfound
          exact ⟨hzero, hk⟩
        · refine ih hfound (fun least hmem ↦ ?_) hrest
          obtain rfl := some.inj hmem
          exact ⟨hzero, hk⟩
      · exact ih hfound hleast hrest

/-- A key is ready to be put on the list: it was taken from the pool, or it was a neighbour that
is evicted now, one that is not locked or that the removal policy named. -/
structure Ready (removable : Option (Option Linkaddr)) (s t : NbrTables α) (key : ℕ) : Prop where
  sound : t.Sound
  allocated : t.Allocated key
  keys : t.nbrTableKeys = s.nbrTableKeys.erase key
  lladdr : t.lladdr = s.lladdr
  unlocked : t.lockedMap key = 0
  others : ∀ k, t.Allocated k → k = key ∨ s.Allocated k
  evicted : key ∈ s.nbrTableKeys →
    s.lockedMap key = 0 ∨ removable = some (some (s.lladdr key))

theorem ready_of_alloc {mem : Memb Linkaddr} (hsound : s.Sound) (hnum : key < s.neighborAddrMem.num)
    (hzero : s.neighborAddrMem.count key = 0) (hmem_num : mem.num = s.neighborAddrMem.num)
    (hmem_mem : mem.mem = s.neighborAddrMem.mem)
    (hmem_count : mem.count = update s.neighborAddrMem.count key 1) :
    Ready removable s { s with neighborAddrMem := mem } key := by
  have hnot : ¬ s.Allocated key := fun hallocated ↦ hallocated.2 hzero
  have hunlisted : key ∉ s.nbrTableKeys := fun hmem ↦ hnot (hsound.allocated key hmem)
  have hmore : ∀ k, s.Allocated k → ({ s with neighborAddrMem := mem } : NbrTables α).Allocated k := by
    intro k hk
    have hne : k ≠ key := by
      rintro rfl
      exact hnot hk
    refine ⟨hmem_num ▸ hk.1, ?_⟩
    rw [hmem_count, update_of_ne hne]
    exact hk.2
  have hlladdr : ({ s with neighborAddrMem := mem } : NbrTables α).lladdr = s.lladdr := hmem_mem
  constructor
  case sound =>
    exact ⟨hsound.nodup, fun k hk ↦ hmore k (hsound.allocated k hk), hlladdr ▸ hsound.lladdrs,
      hsound.used, fun k hk ↦ hmore k (hsound.locked k hk)⟩
  case allocated =>
    refine ⟨hmem_num ▸ hnum, ?_⟩
    rw [hmem_count, update_self]
    exact one_ne_zero
  case keys => exact (erase_of_not_mem hunlisted).symm
  case lladdr => exact hlladdr
  case unlocked =>
    by_contra hlocked
    exact hnot (hsound.locked key hlocked)
  case others =>
    intro k hk
    by_cases hne : k = key
    · exact Or.inl hne
    · refine Or.inr ⟨hmem_num ▸ hk.1, ?_⟩
      have hcount := hk.2
      rw [hmem_count, update_of_ne hne] at hcount
      exact hcount
  case evicted => exact fun hmem ↦ absurd hmem hunlisted

theorem ready_of_evict {r : NbrTables α} (hreleases : Releases s r) (hsound : s.Sound)
    (hkey : key ∈ s.nbrTableKeys) (hunlocked : r.lockedMap key = 0)
    (hwhy : s.lockedMap key = 0 ∨ removable = some (some (s.lladdr key))) :
    Ready removable s (r.removeKey react key) key where
  sound := (hreleases.sound hsound).removeKey
  allocated := removeKey_allocated.mpr (hreleases.allocated.mpr (hsound.allocated key hkey))
  keys := by rw [removeKey_keys, hreleases.keys]
  lladdr := by rw [removeKey_lladdr, hreleases.lladdr]
  unlocked := removeKey_locked hunlocked
  others k hk := Or.inr (hreleases.allocated.mp (removeKey_allocated.mp hk))
  evicted _ := hwhy

theorem reuseLeastUsed_ready (hsound : s.Sound)
    (hreuse : s.reuseLeastUsed react = some (key, t)) : Ready removable s t key := by
  obtain ⟨k, hfound, hpair⟩ := map_eq_some_iff.mp hreuse
  obtain ⟨rfl, rfl⟩ := Prod.mk.injEq .. ▸ hpair
  obtain ⟨hunlocked, hkey⟩ := leastUsedKey_spec hfound (by simp) (fun _ ↦ id)
  exact ready_of_evict (Releases.refl s) hsound hkey hunlocked (Or.inl hunlocked)

theorem clearLocks_releases (s : NbrTables α) (key : ℕ) :
    Releases s { s with lockedMap := update s.lockedMap key 0 } := by
  refine ⟨rfl, rfl, fun _ ↦ id, fun k hzero ↦ ?_⟩
  by_cases hk : k = key
  · subst hk
    exact update_self ..
  · exact (update_of_ne hk ..).trans hzero

theorem nbrTableAllocate_ready (hsound : s.Sound)
    (hallocate : s.nbrTableAllocate removable react = some (key, t)) : Ready removable s t key := by
  unfold nbrTableAllocate at hallocate
  split at hallocate
  next k mem halloc =>
    obtain ⟨rfl, rfl⟩ := Prod.mk.injEq .. ▸ some.inj hallocate
    obtain ⟨hnum, hzero, hmem_num, hmem_mem, hmem_count⟩ := Memb.alloc_spec halloc
    exact ready_of_alloc hsound hnum hzero hmem_num hmem_mem hmem_count
  · split at hallocate
    · cases hallocate
    next named =>
      split at hallocate
      next index hindex =>
        obtain ⟨rfl, rfl⟩ := Prod.mk.injEq .. ▸ some.inj hallocate
        obtain ⟨hkey, hnamed⟩ := indexFromLladdr_some hindex
        refine ready_of_evict (clearLocks_releases s index) hsound hkey ?_ (Or.inr ?_)
        · exact update_self ..
        · exact congrArg (fun a ↦ some (some a)) hnamed
      · exact reuseLeastUsed_ready hsound hallocate
    · exact reuseLeastUsed_ready hsound hallocate

/-! ### Adding a neighbour -/

theorem addKey_lladdr_self (addr : Linkaddr) : (s.addKey key addr).lladdr key = addr :=
  update_self ..

theorem addKey_lladdr_of_ne (hne : i ≠ key) : (s.addKey key addr).lladdr i = s.lladdr i :=
  update_of_ne hne ..

theorem addKey_keys (hkey : key ∉ s.nbrTableKeys) :
    (s.addKey key addr).nbrTableKeys = s.nbrTableKeys ++ [key] :=
  listAdd_of_notMem hkey

theorem Sound.addKey (hsound : s.Sound) (hkey : key ∉ s.nbrTableKeys)
    (hallocated : s.Allocated key) (hfree : ∀ k ∈ s.nbrTableKeys, s.lladdr k ≠ addr) :
    (s.addKey key addr).Sound where
  nodup := nodup_listAdd hsound.nodup
  allocated k hk := by
    rcases mem_listAdd.mp hk with hold | rfl
    · exact hsound.allocated k hold
    · exact hallocated
  lladdrs := by
    rw [addKey_keys hkey, pairwise_append]
    have hne : ∀ k ∈ s.nbrTableKeys, k ≠ key := fun k hk heq ↦ hkey (heq ▸ hk)
    refine ⟨hsound.lladdrs.imp_of_mem fun {i j} hi hj hij ↦ ?_, pairwise_singleton _ _,
      fun k hk j hj ↦ ?_⟩
    · rwa [addKey_lladdr_of_ne (hne i hi), addKey_lladdr_of_ne (hne j hj)]
    · obtain rfl := mem_singleton.mp hj
      rw [addKey_lladdr_self, addKey_lladdr_of_ne (hne k hk)]
      exact hfree k hk
  used k hk := mem_listAdd.mpr (Or.inl (hsound.used k hk))
  locked k hk := hsound.locked k hk

theorem Sound.useItem [Zero α] (hsound : s.Sound) (hkey : key ∈ s.nbrTableKeys) :
    (s.useItem table key).Sound where
  nodup := hsound.nodup
  allocated := hsound.allocated
  lladdrs := hsound.lladdrs
  used k hused := by
    by_cases hk : k = key
    · rw [hk]
      exact hkey
    · have hsame : (s.useItem table key).usedMap k = s.usedMap k :=
        nbrSetBit_true_of_ne fun heq ↦ hk (some.inj heq).symm
      exact hsound.used k (hsame ▸ hused)
  locked := hsound.locked

variable (table address removable react) in
/-- What a call that adds a neighbour does: it finds the key of the neighbour, or it gets a key
ready and puts it on the list, or it fails and changes nothing. -/
theorem nbrTableAddLladdr_cases [Zero α] (hsound : s.Sound) :
    (∃ key, s.indexFromLladdr address = some key ∧
      s.nbrTableAddLladdr table address removable react = (some key, s.useItem table key)) ∨
    (∃ key t, s.indexFromLladdr address = none ∧ Ready removable s t key ∧
      s.nbrTableAddLladdr table address removable react =
        (some key, (t.addKey key (address.getD linkaddrNull)).useItem table key)) ∨
    s.nbrTableAddLladdr table address removable react = (none, s) := by
  unfold nbrTableAddLladdr
  cases hindex : s.indexFromLladdr address with
  | some key => exact Or.inl ⟨key, rfl, rfl⟩
  | none =>
    cases hallocate : s.nbrTableAllocate removable react with
    | none => exact Or.inr (Or.inr rfl)
    | some ready =>
      exact Or.inr (Or.inl
        ⟨ready.1, ready.2, rfl, nbrTableAllocate_ready hsound hallocate, rfl⟩)

namespace Ready

theorem unlisted (hready : Ready removable s t key) (hsound : s.Sound) : key ∉ t.nbrTableKeys := by
  rw [hready.keys]
  exact hsound.nodup.not_mem_erase

theorem free (hready : Ready removable s t key) (hindex : s.indexFromLladdr address = none) :
    ∀ k ∈ t.nbrTableKeys, t.lladdr k ≠ address.getD linkaddrNull := by
  intro k hk
  rw [hready.lladdr]
  rw [hready.keys] at hk
  exact indexFromLladdr_none hindex k (mem_of_mem_erase hk)

theorem sound_addKey (hready : Ready removable s t key) (hsound : s.Sound)
    (hindex : s.indexFromLladdr address = none) :
    (t.addKey key (address.getD linkaddrNull)).Sound :=
  hready.sound.addKey (hready.unlisted hsound) hready.allocated (hready.free hindex)

theorem noneLost_addKey (hready : Ready removable s t key) (hnone : s.NoneLost) :
    (t.addKey key addr).NoneLost := by
  intro k hk
  refine mem_listAdd.mpr ?_
  by_cases hne : k = key
  · exact Or.inr hne
  · have hold : s.Allocated k := (hready.others k hk).resolve_left hne
    rw [hready.keys]
    exact Or.inl ((mem_erase_of_ne hne).mpr (hnone k hold))

theorem kept (hready : Ready removable s t key) (hkey : i ∈ s.nbrTableKeys)
    (hlocked : s.lockedMap i ≠ 0) (hnamed : removable ≠ some (some (s.lladdr i))) :
    i ∈ (t.addKey key addr).nbrTableKeys ∧ (t.addKey key addr).lladdr i = s.lladdr i := by
  have hne : i ≠ key := by
    rintro rfl
    exact (hready.evicted hkey).elim hlocked hnamed
  refine ⟨mem_listAdd.mpr (Or.inl ?_), ?_⟩
  · rw [hready.keys]
    exact (mem_erase_of_ne hne).mpr hkey
  · rw [addKey_lladdr_of_ne hne, hready.lladdr]

end Ready

theorem Sound.nbrTableAddLladdr [Zero α] (hsound : s.Sound) :
    (s.nbrTableAddLladdr table address removable react).2.Sound := by
  rcases nbrTableAddLladdr_cases table address removable react hsound with ⟨key, hindex, heq⟩ | ⟨key, t, hindex, hready, heq⟩ | heq
  · rw [heq]
    exact hsound.useItem (indexFromLladdr_some hindex).1
  · rw [heq]
    have hadded := hready.sound_addKey hsound hindex
    exact hadded.useItem (mem_listAdd.mpr (Or.inr rfl))
  · rw [heq]
    exact hsound

theorem NoneLost.nbrTableAddLladdr [Zero α] (hsound : s.Sound) (hnone : s.NoneLost) :
    (s.nbrTableAddLladdr table address removable react).2.NoneLost := by
  rcases nbrTableAddLladdr_cases table address removable react hsound with ⟨key, hindex, heq⟩ | ⟨key, t, hindex, hready, heq⟩ | heq
  · rw [heq]
    exact hnone
  · rw [heq]
    exact hready.noneLost_addKey hnone
  · rw [heq]
    exact hnone

/-- The call removes a neighbour as a duplicate: both addresses are listed, under two keys. -/
def RemovesDuplicate (s : NbrTables α) : Op → Prop
  | .updateLladdr oldAddr newAddr removeIfDuplicate _ =>
    removeIfDuplicate = true ∧ (s.indexFromLladdr oldAddr).isSome ∧
      (s.indexFromLladdr (some newAddr)).isSome ∧
      s.indexFromLladdr oldAddr ≠ s.indexFromLladdr (some newAddr)
  | _ => False

instance (s : NbrTables α) (op : Op) : Decidable (s.RemovesDuplicate op) :=
  match op with
  | .updateLladdr .. => inferInstanceAs (Decidable (_ ∧ _ ∧ _ ∧ _))
  | .register .. | .addLladdr .. | .remove .. | .lock .. | .unlock .. => isFalse id

theorem Sound.store (hsound : s.Sound) (hfree : ∀ k ∈ s.nbrTableKeys, s.lladdr k ≠ addr) :
    ({ s with neighborAddrMem := s.neighborAddrMem.store key addr } : NbrTables α).Sound where
  nodup := hsound.nodup
  allocated := hsound.allocated
  lladdrs := by
    refine (pairwise_and_iff.mpr ⟨hsound.lladdrs, hsound.nodup⟩).imp_of_mem
      fun {i j} hi hj hij ↦ ?_
    change update s.neighborAddrMem.mem key addr i ≠
      update s.neighborAddrMem.mem key addr j
    by_cases hik : i = key
    · have hjk : j ≠ key := fun heq ↦ hij.2 (hik.trans heq.symm)
      rw [hik, update_self, update_of_ne hjk]
      exact (hfree j hj).symm
    · by_cases hjk : j = key
      · rw [hjk, update_self, update_of_ne hik]
        exact hfree i hi
      · rw [update_of_ne hik, update_of_ne hjk]
        exact hij.1
  used := hsound.used
  locked := hsound.locked

theorem Sound.nbrTableUpdateLladdr (hsound : s.Sound) :
    (s.nbrTableUpdateLladdr address newAddr removeIfDuplicate react).2.Sound := by
  unfold NbrTables.nbrTableUpdateLladdr
  split
  · exact hsound
  next index hindex =>
    split
    · split
      · exact hsound
      · split
        · exact hsound.removeKey
        · exact hsound
    next hnew => exact hsound.store (indexFromLladdr_none hnew)

theorem NoneLost.nbrTableUpdateLladdr (hnone : s.NoneLost)
    (hduplicate : ¬ s.RemovesDuplicate (.updateLladdr address newAddr removeIfDuplicate react)) :
    (s.nbrTableUpdateLladdr address newAddr removeIfDuplicate react).2.NoneLost := by
  unfold NbrTables.nbrTableUpdateLladdr
  split
  · exact hnone
  next index hindex =>
    split
    next newIndex hnew =>
      split
      · exact hnone
      next hne =>
        split
        next hremove =>
          refine absurd ⟨hremove, ?_, ?_, ?_⟩ hduplicate
          · rw [hindex]
            rfl
          · rw [hnew]
            rfl
          · rw [hindex, hnew]
            exact fun heq ↦ hne (some.inj heq).symm
        · exact hnone
    · exact hnone

theorem iterates_suffix {front rest : List ℕ} (hnodup : s.nbrTableKeys.Nodup)
    (hsplit : s.nbrTableKeys = front ++ rest) :
    Iterates s table (rest.find? (s.uses table)) (rest.filter (s.uses table)) := by
  induction rest generalizing front with
  | nil => exact Iterates.done
  | cons k rest ih =>
    have htail := @ih (front ++ [k]) (by rw [hsplit, append_assoc]; rfl)
    by_cases huses : s.uses table k
    · rw [find?_cons_of_pos huses, filter_cons_of_pos huses]
      apply Iterates.visit
      have hk : k ∉ front := by
        rw [hsplit, nodup_append] at hnodup
        exact fun hmem ↦ hnodup.2.2 k hmem k mem_cons_self rfl
      rw [nbrTableNext, hsplit, listFollowing_append hk]
      exact htail
    · rw [find?_cons_of_neg huses, filter_cons_of_neg huses]
      exact htail

theorem nbrTableHead_eq (s : NbrTables α) (table : ℕ) :
    s.nbrTableHead table = s.nbrTableKeys.find? (s.uses table) := by
  unfold nbrTableHead
  cases hkeys : s.nbrTableKeys with
  | nil => rfl
  | cons k rest =>
    by_cases huses : s.uses table k
    · rw [find?_cons_of_pos huses]
      exact if_pos huses
    · rw [find?_cons_of_neg huses]
      refine (if_neg huses).trans ?_
      change (listFollowing s.nbrTableKeys k).find? (s.uses table) = _
      rw [hkeys, ← nil_append (k :: rest), listFollowing_append not_mem_nil]

theorem mem_of_uses (hsound : s.Sound) (huses : s.uses table key) : key ∈ s.nbrTableKeys := by
  apply hsound.used
  intro hzero
  simp [uses, nbrGetBit, hzero] at huses

/-- A loop over a table visits every item the table uses, and none twice. -/
def VisitsEachOnce (s : NbrTables α) (table : ℕ) : Prop :=
  ∃ items, Iterates s table (s.nbrTableHead table) items ∧ items.Nodup ∧
    ∀ item, item ∈ items ↔ s.uses table item

theorem Sound.visitsEachOnce (hsound : s.Sound) (table : ℕ) : s.VisitsEachOnce table := by
  refine ⟨s.nbrTableKeys.filter (s.uses table), ?_, hsound.nodup.filter _, fun item ↦ ?_⟩
  · rw [nbrTableHead_eq]
    exact iterates_suffix hsound.nodup (nil_append _).symm
  · rw [mem_filter]
    exact and_iff_right_of_imp (mem_of_uses hsound)

/-- No item has been written but those that were cleared. -/
def ClearsData [Zero α] (s t : NbrTables α) : Prop :=
  ∀ table item, (t.table table).data item = (s.table table).data item ∨
    (t.table table).data item = 0

theorem ClearsData.of_eq [Zero α] (htable : t.table = s.table) : ClearsData s t :=
  fun table item ↦ Or.inl (by rw [htable])

theorem callCallback_table (s : NbrTables α) (react : Reaction) (key table : ℕ) :
    (s.callCallback react key table).table = s.table := by
  have hrelease : ∀ (rs : List Release) (s : NbrTables α), (rs.foldl release s).table = s.table := by
    intro rs
    induction rs with
    | nil => exact fun s ↦ rfl
    | cons r rs ih =>
      intro s
      rw [foldl_cons, ih]
      cases r <;> rfl
  unfold callCallback
  split
  · exact hrelease _ s
  · rfl

theorem removeKey_table (s : NbrTables α) (react : Reaction) (key : ℕ) :
    (s.removeKey react key).table = s.table := by
  have hcallbacks : ∀ (tables : List ℕ) (s : NbrTables α),
      (tables.foldl (fun s table ↦ s.callCallback react key table) s).table = s.table := by
    intro tables
    induction tables with
    | nil => exact fun s ↦ rfl
    | cons table tables ih =>
      intro s
      rw [foldl_cons, ih, callCallback_table]
  exact hcallbacks s.allTables s

theorem nbrTableAllocate_table (hallocate : s.nbrTableAllocate removable react = some (key, t)) :
    t.table = s.table := by
  have hreuse : ∀ {u : NbrTables α}, u.reuseLeastUsed react = some (key, t) → t.table = u.table := by
    intro u hsome
    obtain ⟨found, -, hpair⟩ := map_eq_some_iff.mp hsome
    obtain ⟨rfl, rfl⟩ := Prod.mk.injEq .. ▸ hpair
    exact removeKey_table u react found
  unfold nbrTableAllocate at hallocate
  split at hallocate
  · obtain ⟨rfl, rfl⟩ := Prod.mk.injEq .. ▸ some.inj hallocate
    rfl
  · split at hallocate
    · cases hallocate
    · split at hallocate
      · obtain ⟨rfl, rfl⟩ := Prod.mk.injEq .. ▸ some.inj hallocate
        rw [removeKey_table]
      · exact hreuse hallocate
    · exact hreuse hallocate

theorem useItem_clearsData [Zero α] (s : NbrTables α) (table index : ℕ) :
    ClearsData s (s.useItem table index) := by
  intro other item
  by_cases hother : other = table
  · subst hother
    by_cases hitem : item = index
    · exact Or.inr (by simp [useItem, hitem])
    · exact Or.inl (by simp [useItem, hitem])
  · exact Or.inl (by simp [useItem, hother])

theorem nbrTableAddLladdr_clearsData [Zero α] (s : NbrTables α) (table : ℕ)
    (lladdr : Option Linkaddr) (removable : Option (Option Linkaddr)) (react : Reaction) :
    ClearsData s (s.nbrTableAddLladdr table lladdr removable react).2 := by
  unfold nbrTableAddLladdr
  split
  · exact useItem_clearsData s table _
  · split
    · exact ClearsData.of_eq rfl
    · rename_i key t hallocate
      have hsame := nbrTableAllocate_table hallocate
      intro other item
      have hclears := useItem_clearsData (t.addKey key (lladdr.getD linkaddrNull)) table key
      have hadd : (t.addKey key (lladdr.getD linkaddrNull)).table = s.table := hsame
      rw [← hadd]
      exact hclears other item

theorem next_clearsData [Zero α] (hnext : s.next policy op = some t) : ClearsData s t := by
  cases op with
  | register table callback =>
    obtain rfl := some.inj hnext
    unfold nbrTableRegister
    split
    · intro other item
      by_cases hother : other = table
      · exact Or.inl (by simp [hother])
      · exact Or.inl (by simp [hother])
    · exact ClearsData.of_eq rfl
  | addLladdr table address removable react =>
    obtain rfl := some.inj hnext
    exact nbrTableAddLladdr_clearsData s table address _ react
  | remove table item | lock table item | unlock table item =>
    obtain ⟨-, ⟨⟩⟩ := ite_none_right_eq_some.mp hnext
    exact ClearsData.of_eq rfl
  | updateLladdr oldAddr newAddr removeIfDuplicate react =>
    obtain rfl := some.inj hnext
    apply ClearsData.of_eq
    unfold nbrTableUpdateLladdr
    split
    · rfl
    · split
      · split
        · rfl
        · split
          · exact removeKey_table ..
          · rfl
      · rfl

/-! ### Runs -/

theorem nbrTableRegister_releases (table : ℕ) (callback : Bool) :
    Releases s (s.nbrTableRegister table callback).2 := by
  unfold nbrTableRegister
  split
  · exact ⟨rfl, rfl, fun _ ↦ id, fun _ ↦ id⟩
  · exact Releases.refl s

theorem Sound.nbrTableLock (hsound : s.Sound) (hitem : ∀ i ∈ item, s.Allocated i) :
    (s.nbrTableLock table item).2.Sound where
  nodup := hsound.nodup
  allocated := hsound.allocated
  lladdrs := hsound.lladdrs
  used := hsound.used
  locked k hlocked := by
    by_cases hk : item = some k
    · exact hitem k hk
    · have hsame : (s.nbrTableLock table item).2.lockedMap k = s.lockedMap k :=
        nbrSetBit_true_of_ne hk
      exact hsound.locked k (hsame ▸ hlocked)

theorem Sound.next [Zero α] (hsound : s.Sound) (hnext : s.next policy op = some s') : s'.Sound := by
  cases op with
  | register table callback =>
    obtain rfl := some.inj hnext
    exact (nbrTableRegister_releases table callback).sound hsound
  | addLladdr table address removable react =>
    obtain rfl := some.inj hnext
    exact hsound.nbrTableAddLladdr
  | remove table item =>
    obtain ⟨-, ⟨⟩⟩ := ite_none_right_eq_some.mp hnext
    exact (nbrTableRemove_releases table item).sound hsound
  | lock table item =>
    obtain ⟨hitem, ⟨⟩⟩ := ite_none_right_eq_some.mp hnext
    exact hsound.nbrTableLock hitem
  | unlock table item =>
    obtain ⟨-, ⟨⟩⟩ := ite_none_right_eq_some.mp hnext
    exact (nbrTableUnlock_releases table item).sound hsound
  | updateLladdr oldAddr newAddr removeIfDuplicate react =>
    obtain rfl := some.inj hnext
    exact hsound.nbrTableUpdateLladdr

theorem NoneLost.next [Zero α] (hsound : s.Sound) (hnone : s.NoneLost)
    (hduplicate : ¬ s.RemovesDuplicate op) (hnext : s.next policy op = some s') : s'.NoneLost := by
  cases op with
  | register table callback =>
    obtain rfl := some.inj hnext
    exact (nbrTableRegister_releases table callback).noneLost hnone
  | addLladdr table address removable react =>
    obtain rfl := some.inj hnext
    exact hnone.nbrTableAddLladdr hsound
  | remove table item =>
    obtain ⟨-, ⟨⟩⟩ := ite_none_right_eq_some.mp hnext
    exact (nbrTableRemove_releases table item).noneLost hnone
  | lock table item =>
    obtain ⟨-, ⟨⟩⟩ := ite_none_right_eq_some.mp hnext
    exact hnone
  | unlock table item =>
    obtain ⟨-, ⟨⟩⟩ := ite_none_right_eq_some.mp hnext
    exact (nbrTableUnlock_releases table item).noneLost hnone
  | updateLladdr oldAddr newAddr removeIfDuplicate react =>
    obtain rfl := some.inj hnext
    exact hnone.nbrTableUpdateLladdr hduplicate

theorem sound_of_run [Zero α] (hrun : Run (StepOf (next policy)) (init num : NbrTables α) ops s) :
    s.Sound :=
  hrun.invariant (fun _ _ _ hsound hstep ↦ hsound.next hstep) (init_sound num)

/-- The call removes no neighbour as a duplicate. -/
def KeepsDuplicates (s : NbrTables α) (op : Op) : Prop := ¬ s.RemovesDuplicate op

instance (s : NbrTables α) (op : Op) : Decidable (s.KeepsDuplicates op) := instDecidableNot

theorem noneLost_of_run [Zero α]
    (hrun : Run (GuardedStepOf (next policy) KeepsDuplicates) (init num : NbrTables α) ops s) :
    s.NoneLost := by
  have hboth := hrun.invariant (P := fun s ↦ s.Sound ∧ s.NoneLost)
    (fun _ _ _ hkept hstep ↦ ⟨hkept.1.next hstep.2, hkept.2.next hkept.1 hstep.1 hstep.2⟩)
    ⟨init_sound num, init_noneLost num⟩
  exact hboth.2

/-- The keys that are locked stay where they are. -/
def KeepsLocked (locked : ℕ → Prop) (s t : NbrTables α) : Prop :=
  ∀ key ∈ s.nbrTableKeys, s.lockedMap key ≠ 0 → locked key →
    key ∈ t.nbrTableKeys ∧ t.lladdr key = s.lladdr key

theorem nbrTableAddLladdr_keepsLocked [Zero α] (hsound : s.Sound) :
    KeepsLocked (fun key ↦ removable ≠ some (some (s.lladdr key))) s
      (s.nbrTableAddLladdr table address removable react).2 := by
  intro k hk hlocked hnamed
  rcases nbrTableAddLladdr_cases table address removable react hsound with ⟨key, hindex, heq⟩ | ⟨key, t, hindex, hready, heq⟩ | heq
  · rw [heq]
    exact ⟨hk, rfl⟩
  · rw [heq]
    exact hready.kept hk hlocked hnamed
  · rw [heq]
    exact ⟨hk, rfl⟩

theorem nbrTableAddLladdr_unlocked [Zero α] (hsound : s.Sound)
    (hindex : s.indexFromLladdr address = none)
    (hadded : (s.nbrTableAddLladdr table address removable react).1 = some key) :
    (s.nbrTableAddLladdr table address removable react).2.lockedMap key = 0 := by
  rcases nbrTableAddLladdr_cases table address removable react hsound with ⟨k, hfound, -⟩ | ⟨k, t, -, hready, heq⟩ | heq
  · cases hindex.symm.trans hfound
  · rw [heq] at hadded ⊢
    obtain rfl := some.inj hadded
    exact hready.unlocked
  · rw [heq] at hadded
    cases hadded

/-- Tables that lose no block of the pool and evict no locked neighbour. -/
structure Integrity [Zero α] (policy : Bool) (s : NbrTables α) : Prop where
  nodup : s.nbrTableKeys.Nodup
  lladdrs : s.nbrTableKeys.Pairwise fun i j ↦ s.lladdr i ≠ s.lladdr j
  listed : ∀ key, key ∈ s.nbrTableKeys ↔ s.Allocated key
  used : ∀ key, s.usedMap key ≠ 0 → key ∈ s.nbrTableKeys
  locked : ∀ table address removable react, KeepsLocked (fun _ ↦ True) s
    (s.nbrTableAddLladdr table address (answer policy removable) react).2
  unlocked : ∀ table address removable react key, s.indexFromLladdr address = none →
    (s.nbrTableAddLladdr table address (answer policy removable) react).1 = some key →
    (s.nbrTableAddLladdr table address (answer policy removable) react).2.lockedMap key = 0
  visits : ∀ table, s.VisitsEachOnce table

/-- The integrity of the tables with a policy that may name a locked neighbour, which is evicted.
The blocks that `remove_key` loses are a slip, which is left out. -/
structure WeakIntegrity [Zero α] (policy : Bool) (s : NbrTables α) : Prop where
  nodup : s.nbrTableKeys.Nodup
  lladdrs : s.nbrTableKeys.Pairwise fun i j ↦ s.lladdr i ≠ s.lladdr j
  listed : ∀ key ∈ s.nbrTableKeys, s.Allocated key
  used : ∀ key, s.usedMap key ≠ 0 → key ∈ s.nbrTableKeys
  locked : ∀ table address removable react,
    KeepsLocked (fun key ↦ answer policy removable ≠ some (some (s.lladdr key))) s
      (s.nbrTableAddLladdr table address (answer policy removable) react).2
  unlocked : ∀ table address removable react key, s.indexFromLladdr address = none →
    (s.nbrTableAddLladdr table address (answer policy removable) react).1 = some key →
    (s.nbrTableAddLladdr table address (answer policy removable) react).2.lockedMap key = 0
  visits : ∀ table, s.VisitsEachOnce table

theorem Sound.weakIntegrity [Zero α] (policy : Bool) (hsound : s.Sound) :
    s.WeakIntegrity policy where
  nodup := hsound.nodup
  lladdrs := hsound.lladdrs
  listed := hsound.allocated
  used := hsound.used
  locked _ _ _ _ := nbrTableAddLladdr_keepsLocked hsound
  unlocked _ _ _ _ _ hindex hadded := nbrTableAddLladdr_unlocked hsound hindex hadded
  visits := hsound.visitsEachOnce

/-- Whatever is called, the listed keys are taken blocks with different addresses, only they are
used, only a neighbour that is unlocked or named by the removal policy is evicted, a new key
starts unlocked, and a loop visits each item once; and as long as no neighbour is removed as a
duplicate, every taken block is listed. -/
theorem weakIntegrity_of_run [Zero α] {policy : Bool} {num : ℕ} {ops : List Op}
    (hrun : Run (StepOf (next policy)) (init num : NbrTables α) ops s) :
    s.WeakIntegrity policy ∧
      (Run (GuardedStepOf (next policy) KeepsDuplicates) (init num : NbrTables α) ops s →
        ∀ key, s.Allocated key → key ∈ s.nbrTableKeys) :=
  ⟨(sound_of_run hrun).weakIntegrity policy, noneLost_of_run⟩

/-- Two neighbours, the first of which is given the address of the second one. -/
def duplicateOps (remove : Bool) : List Op :=
  [.register 0 false, .addLladdr 0 (some fun _ ↦ 1) none fun _ _ ↦ [],
    .addLladdr 0 (some fun _ ↦ 2) none fun _ _ ↦ [],
    .updateLladdr (some fun _ ↦ 1) (fun _ ↦ 2) remove fun _ _ ↦ []]

def lockedOps : List Op :=
  [.register 0 false, .addLladdr 0 (some fun _ ↦ 1) none fun _ _ ↦ [], .lock 0 (some 0)]

theorem weakIntegrity_duplicate :
    ∃ s : NbrTables ℕ, s.WeakIntegrity false ∧ (∀ key, s.Allocated key → key ∈ s.nbrTableKeys) ∧
      s.nbrTableKeys = [0, 1] := by
  obtain ⟨s, hguarded, hkeys⟩ : ∃ s, Run (GuardedStepOf (next false) KeepsDuplicates)
      (init 2 : NbrTables ℕ) (duplicateOps false) s ∧ s.nbrTableKeys = [0, 1] :=
    exists_guardedRun (by decide +kernel)
  have hrun := hguarded.mono fun _ _ _ hstep ↦ hstep.2
  have hboth := weakIntegrity_of_run hrun
  exact ⟨s, hboth.1, hboth.2 hguarded, hkeys⟩

/-- A neighbour that is removed as a duplicate keeps its block; a locked neighbour that the
removal policy names is evicted. -/
theorem not_integrity :
    (¬ ∀ num ops, ∀ s : NbrTables ℕ, Run (StepOf (next false)) (init num) ops s →
      s.Integrity false) ∧
    (¬ ∀ num ops, ∀ s : NbrTables ℕ, Run (StepOf (next true)) (init num) ops s →
      s.Integrity true) := by
  constructor
  · intro hall
    obtain ⟨s, hrun, hunlisted, hallocated⟩ : ∃ s, Run (StepOf (next false)) (init 2 : NbrTables ℕ)
        (duplicateOps true) s ∧ 0 ∉ s.nbrTableKeys ∧ s.Allocated 0 := exists_run (by decide +kernel)
    have hintegrity := hall 2 _ s hrun
    exact hunlisted ((hintegrity.listed 0).mpr hallocated)
  · intro hall
    obtain ⟨s, hrun, hlisted, hlocked, hchanged⟩ : ∃ s, Run (StepOf (next true))
        (init 1 : NbrTables ℕ) lockedOps s ∧ 0 ∈ s.nbrTableKeys ∧ s.lockedMap 0 ≠ 0 ∧
          (s.nbrTableAddLladdr 0 (some fun _ ↦ 2) (answer true (some fun _ ↦ 1))
            fun _ _ ↦ []).2.lladdr 0 ≠ s.lladdr 0 := exists_run (by decide +kernel)
    have hintegrity := hall 1 _ s hrun
    have hkept := hintegrity.locked 0 (some fun _ ↦ 2) (some fun _ ↦ 1) (fun _ _ ↦ [])
    exact hchanged (hkept 0 hlisted hlocked trivial).2

end ContikiMaster.Net.NbrTables
