import ContikiMaster.Lib.Loop
import ContikiMaster.Sys.HashMapStore
import Mathlib.Data.Finmap

/-!
# The hash map is a bounded finite map

The loops of `hash-map.c` with the pointers followed until a chain ends. On a table that was filled
by inserting only they return what a finite map with room for as many keys as the table has nodes
gives.
-/

namespace ContikiMaster.Sys

open Lib Function List Option

/-- What the loop of `hash_map_insert` finds: the node of the key, or the end of the chain. -/
inductive ChainEnd
  | found (pos : ℕ)
  | ended (prev : ℕ)

namespace HashTable

variable (t : HashTable) (key val fuel : ℕ)

/-- A turn of the loop in `hash_map_lookup`. -/
def lookupTurn : Option ℕ → Turn (Option ℕ) ℕ
  | none => .returns 0
  | some pos => if t.key pos = key then .returns (t.val pos) else .goesOn (t.next pos)

def hashMapLookup : Option ℕ := loop (t.lookupTurn key) fuel (some (t.hashCode key))

/-- A turn of the loop in `hash_map_insert`. -/
def searchTurn (pos : ℕ) : Turn ℕ ChainEnd :=
  if t.key pos = key then .returns (.found pos)
  else
    match t.next pos with
    | none => .returns (.ended pos)
    | some next => .goesOn next

/-- The part of `hash_map_insert` after its loop. -/
def storeAt : ChainEnd → Bool × HashTable
  | .found i => (true, { t with val := update t.val i val })
  | .ended prev =>
    if t.size ≤ t.numberEntries then (false, t)
    else
      match t.freeFrom (t.hashCode key) with
      | none => (false, t)
      | some i => (true, { t with
          key := update t.key i key
          val := update t.val i val
          next := update t.next prev (some i)
          numberEntries := (t.numberEntries + 1) % 256 })

def hashMapInsert : Option (Bool × HashTable) :=
  let pos := t.hashCode key
  if t.key pos = 0 then
    some (true, { t with
      key := update t.key pos key
      val := update t.val pos val
      numberEntries := (t.numberEntries + 1) % 256 })
  else (loop (t.searchTurn key) fuel pos).map (t.storeAt key val)

/-- Calls of `hash_map_insert`, each with a key and a value: what they return, and the table. -/
def insertAll (t : HashTable) : List (ℕ × ℕ) → ℕ → Option (List Bool × HashTable)
  | [], _ => some ([], t)
  | call :: calls, fuel =>
    (t.hashMapInsert call.1 call.2 fuel).bind fun stored ↦
      (insertAll stored.2 calls fuel).map fun rest ↦ (stored.1 :: rest.1, rest.2)

end HashTable

/-- A finite map from keys to values. -/
abbrev FiniteMap := Finmap fun _ : ℕ ↦ ℕ

/-- A key that is new is not taken when there is no room for it. -/
def boundedInsert (bound : ℕ) (m : FiniteMap) (key val : ℕ) : Bool × FiniteMap :=
  if key ∈ m ∨ m.keys.card < bound then (true, m.insert key val) else (false, m)

def boundedInserts (bound : ℕ) (m : FiniteMap) : List (ℕ × ℕ) → List Bool × FiniteMap
  | [] => ([], m)
  | call :: calls =>
    let stored := boundedInsert bound m call.1 call.2
    let rest := boundedInserts bound stored.2 calls
    (stored.1 :: rest.1, rest.2)

namespace HashTable

variable {t : HashTable} {k v pos last fuel bound : ℕ} {m : FiniteMap}

theorem chain_succ_none (hnext : t.next pos = none) : t.chain (fuel + 1) pos = [pos] := by
  rw [chain, hnext]
  rfl

theorem chain_succ_some {next : ℕ} (hnext : t.next pos = some next) :
    t.chain (fuel + 1) pos = pos :: t.chain fuel next := by
  rw [chain, hnext]
  rfl

theorem getLast_chain_tail {next : ℕ} (hnext : t.next pos = some next) (hend : t.next last = none)
    (hlast : (t.chain (fuel + 1) pos).getLast? = some last) :
    (t.chain fuel next).getLast? = some last := by
  rw [chain_succ_some hnext, getLast?_cons] at hlast
  cases hrest : (t.chain fuel next).getLast? with
  | some other =>
    rw [hrest] at hlast
    exact hlast
  | none =>
    rw [hrest] at hlast
    obtain rfl : pos = last := some.inj hlast
    rw [hnext] at hend
    cases hend

theorem find_cons_of_key (hkey : t.key pos = k) (rest : List ℕ) :
    ((pos :: rest).find? fun i ↦ t.key i == k) = some pos := by
  simp [hkey]

theorem find_cons_of_ne (hkey : t.key pos ≠ k) (rest : List ℕ) :
    ((pos :: rest).find? fun i ↦ t.key i == k) = rest.find? fun i ↦ t.key i == k := by
  simp [hkey]

theorem lookupTurn_goes (hlast : (t.chain fuel pos).getLast? = some last) (hend : t.next last = none) :
    ∃ s, Goes (t.lookupTurn k) (some pos) s ∧ t.lookupTurn k s =
      .returns (((t.chain fuel pos).find? fun i ↦ t.key i == k).elim 0 t.val) := by
  induction fuel generalizing pos with
  | zero => cases hlast
  | succ fuel ih =>
    by_cases hkey : t.key pos = k
    · refine ⟨some pos, Goes.refl _, ?_⟩
      rw [chain, find_cons_of_key hkey]
      exact if_pos hkey
    · have hturn : t.lookupTurn k (some pos) = .goesOn (t.next pos) := if_neg hkey
      cases hnext : t.next pos with
      | none =>
        rw [chain_succ_none hnext, find_cons_of_ne hkey]
        exact ⟨none, goes_single (hnext ▸ hturn), rfl⟩
      | some next =>
        obtain ⟨s, hgoes, hreturns⟩ := ih (getLast_chain_tail hnext hend hlast)
        rw [chain_succ_some hnext, find_cons_of_ne hkey]
        exact ⟨s, (goes_single (hnext ▸ hturn)).trans hgoes, hreturns⟩

theorem searchTurn_goes (hlast : (t.chain fuel pos).getLast? = some last) (hend : t.next last = none) :
    ∃ i, Goes (t.searchTurn k) pos i ∧ t.searchTurn k i =
      .returns (((t.chain fuel pos).find? fun i ↦ t.key i == k).elim (.ended last) .found) := by
  induction fuel generalizing pos with
  | zero => cases hlast
  | succ fuel ih =>
    by_cases hkey : t.key pos = k
    · refine ⟨pos, Goes.refl _, ?_⟩
      rw [chain, find_cons_of_key hkey]
      exact if_pos hkey
    · have hne : ¬ (t.key pos == k) = true := fun heq ↦ hkey (beq_iff_eq.mp heq)
      cases hnext : t.next pos with
      | none =>
        rw [chain_succ_none hnext] at hlast ⊢
        obtain rfl : pos = last := some.inj hlast
        refine ⟨pos, Goes.refl _, ?_⟩
        rw [find_cons_of_ne hkey, searchTurn, if_neg hkey, hnext]
        rfl
      | some next =>
        have hturn : t.searchTurn k pos = .goesOn next := by rw [searchTurn, if_neg hkey, hnext]
        obtain ⟨i, hgoes, hreturns⟩ := ih (getLast_chain_tail hnext hend hlast)
        rw [chain_succ_some hnext, find_cons_of_ne hkey]
        exact ⟨i, (goes_single hturn).trans hgoes, hreturns⟩

theorem Wf.returns_lookup (hwf : t.Wf) (k : ℕ) : Returns (t.hashMapLookup k) (t.lookup k) := by
  obtain ⟨last, hlast, hend, -⟩ := hwf.getLast_chainOf k
  obtain ⟨s, hgoes, hreturns⟩ := lookupTurn_goes hlast hend
  exact returns_loop hgoes hreturns

theorem Wf.returns_insert (hwf : t.Wf) (k v : ℕ) : Returns (t.hashMapInsert k v) (t.insert k v) := by
  by_cases hfree : t.key (t.hashCode k) = 0
  · have hinsert : t.insert k v = (true, { t with
        key := update t.key (t.hashCode k) k
        val := update t.val (t.hashCode k) v
        numberEntries := (t.numberEntries + 1) % 256 }) := by
      unfold HashTable.insert
      exact if_pos hfree
    rw [hinsert]
    exact ⟨0, fun fuel _ ↦ if_pos hfree⟩
  · obtain ⟨last, hlast, hend, -⟩ := hwf.getLast_chainOf k
    obtain ⟨i, hgoes, hreturns⟩ := searchTurn_goes hlast hend
    have hinsert : t.insert k v =
        t.storeAt k v (((t.chainOf k).find? fun i ↦ t.key i == k).elim (.ended last) .found) := by
      unfold HashTable.insert
      dsimp only
      rw [if_neg hfree]
      cases (t.chainOf k).find? fun i ↦ t.key i == k with
      | some i => rfl
      | none =>
        dsimp only [Option.elim, storeAt]
        by_cases hfull : t.size ≤ t.numberEntries
        · rw [if_pos hfull, if_pos hfull]
        · rw [if_neg hfull, if_neg hfull, hlast]
          cases t.freeFrom (t.hashCode k) with
          | some i => rfl
          | none => rfl
    rw [hinsert]
    have hloop := (returns_loop hgoes hreturns).map (t.storeAt k v)
    obtain ⟨bound, hbound⟩ := hloop
    exact ⟨bound, fun fuel hfuel ↦ (if_neg hfree).trans (hbound fuel hfuel)⟩

theorem card_keys_lt_of_free (hlt : pos < t.size) (hfree : t.key pos = 0) :
    t.keys.card < t.size := by
  have hsubset : t.keys ⊆ ((Finset.range t.size).erase pos).image t.key := by
    intro key hkey
    obtain ⟨hne, i, hi, rfl⟩ := mem_keys.mp hkey
    have hipos : i ≠ pos := by
      rintro rfl
      exact hne hfree
    exact Finset.mem_image_of_mem _ (Finset.mem_erase.mpr ⟨hipos, Finset.mem_range.mpr hi⟩)
  calc
    t.keys.card ≤ (((Finset.range t.size).erase pos).image t.key).card := Finset.card_le_card hsubset
    _ ≤ ((Finset.range t.size).erase pos).card := Finset.card_image_le
    _ = t.size - 1 := by rw [Finset.card_erase_of_mem (Finset.mem_range.mpr hlt), Finset.card_range]
    _ < t.size := Nat.sub_one_lt (Nat.ne_zero_of_lt hlt)

theorem Wf.insert_full (hwf : t.Wf) (hk : k ≠ 0) (habsent : k ∉ t.keys)
    (hfull : t.size ≤ t.keys.card) (v : ℕ) : t.insert k v = (false, t) := by
  have hused : t.key (t.hashCode k) ≠ 0 := fun hfree ↦
    Nat.not_lt.mpr hfull (card_keys_lt_of_free (hwf.hashCode_lt k) hfree)
  have hentries : t.size ≤ t.numberEntries := by rwa [hwf.numberEntries]
  unfold HashTable.insert
  dsimp only
  rw [if_neg hused, hwf.find_chainOf_none hk habsent]
  exact if_pos hentries

theorem Wf.insert_fst (hwf : t.Wf) (hk : k ≠ 0) (hroom : k ∈ t.keys ∨ t.keys.card < t.size) (v : ℕ) :
    (t.insert k v).1 = true := by
  unfold HashTable.insert
  dsimp only
  split
  · rfl
  · split
    · rfl
    next hnone =>
      have habsent : k ∉ t.keys := by
        intro hmem
        obtain ⟨-, i, hlt, hkey⟩ := mem_keys.mp hmem
        rw [hwf.find_chainOf hk hlt hkey] at hnone
        cases hnone
      have hfew := hroom.resolve_left habsent
      have hentries : ¬ t.size ≤ t.numberEntries := by
        rw [hwf.numberEntries]
        exact Nat.not_le.mpr hfew
      obtain ⟨i, hfrom, -, -⟩ := hwf.freeFrom_of_room hfew (hwf.hashCode_lt k)
      obtain ⟨prev, hlast, -, -⟩ := hwf.getLast_chainOf k
      rw [if_neg hentries, hfrom, hlast]

/-- The table stands for the finite map, and free nodes have no value. -/
structure Represents (t : HashTable) (bound : ℕ) (m : FiniteMap) : Prop where
  wf : t.Wf
  size : t.size = bound
  keys : t.keys = m.keys
  blank : ∀ i < t.size, t.key i = 0 → t.val i = 0
  lookup : ∀ k, k ≠ 0 → t.lookup k = (m.lookup k).getD 0

theorem clear_represents (hpos : 1 ≤ bound) (hle : bound ≤ 255) :
    (clear bound).Represents bound ∅ where
  wf := wf_clear hpos hle
  size := rfl
  keys := by rw [keys_clear, Finmap.keys_empty]
  blank _ _ _ := rfl
  lookup k hk := by
    rw [(wf_clear hpos hle).lookup_of_absent hk (by rw [keys_clear]; exact Finset.notMem_empty k),
      Finmap.lookup_empty]
    rfl

namespace Represents

section

variable (ht : t.Represents bound m)

include ht

theorem insert (hk : k ≠ 0) (v : ℕ) : (t.insert k v).1 = (boundedInsert bound m k v).1 ∧
      (t.insert k v).2.Represents bound (boundedInsert bound m k v).2 := by
  have hmem : k ∈ t.keys ↔ k ∈ m := by rw [ht.keys, Finmap.mem_keys]
  by_cases hroom : k ∈ m ∨ m.keys.card < bound
  · have hfits : k ∈ t.keys ∨ t.keys.card < t.size := by rwa [hmem, ht.keys, ht.size]
    obtain ⟨i, hwrites, hwf⟩ := exists_writes_insert ht.wf hk hfits v
    rw [boundedInsert, if_pos hroom]
    refine ⟨ht.wf.insert_fst hk hfits v, hwf, hwrites.size.trans ht.size, ?_, ?_, ?_⟩
    · ext key
      rw [hwrites.keys hk, Finset.mem_insert, ht.keys, Finmap.mem_keys, Finmap.mem_keys,
        Finmap.mem_insert]
    · intro j hj hfree
      have hne : j ≠ i := by
        rintro rfl
        exact hk (hwrites.key_self.symm.trans hfree)
      rw [hwrites.key_of_ne hne] at hfree
      rw [hwrites.val, update_of_ne hne]
      exact ht.blank j (hwrites.size ▸ hj) hfree
    · intro k' hk'
      rw [hwrites.lookup ht.wf hwf hk hk']
      by_cases hsame : k' = k
      · rw [if_pos hsame, hsame, Finmap.lookup_insert]
        rfl
      · rw [if_neg hsame, Finmap.lookup_insert_of_ne m hsame, ht.lookup k' hk']
  · rw [boundedInsert, if_neg hroom]
    have habsent : k ∉ t.keys := fun hkey ↦ hroom (Or.inl (hmem.mp hkey))
    have hfull : t.size ≤ t.keys.card := by
      rw [ht.size, ht.keys]
      exact Nat.le_of_not_lt fun hlt ↦ hroom (Or.inr hlt)
    rw [ht.wf.insert_full hk habsent hfull]
    exact ⟨rfl, ht⟩

theorem insertAll {calls : List (ℕ × ℕ)} (hkeys : ∀ call ∈ calls, call.1 ≠ 0) :
    ∃ t', Returns (t.insertAll calls) ((boundedInserts bound m calls).1, t') ∧
      t'.Represents bound (boundedInserts bound m calls).2 := by
  induction calls generalizing t m with
  | nil => exact ⟨t, returns_some _, ht⟩
  | cons call calls ih =>
    obtain ⟨hanswer, hstored⟩ := ht.insert (hkeys call mem_cons_self) call.2
    obtain ⟨t', hrest, ht'⟩ := ih hstored fun other hother ↦
      hkeys other (mem_cons_of_mem call hother)
    refine ⟨t', ?_, ht'⟩
    have hfirst := ht.wf.returns_insert call.1 call.2
    rw [boundedInserts, ← hanswer]
    exact hfirst.bind (hrest.map fun rest ↦ ((t.insert call.1 call.2).1 :: rest.1, rest.2))

theorem returns_lookup (hzero : 0 ∉ m) (k : ℕ) :
    Returns (t.hashMapLookup k) ((m.lookup k).getD 0) := by
  by_cases hk : k = 0
  · have hlookup : t.lookup 0 = 0 := by
      rw [HashTable.lookup]
      cases hfind : (t.chainOf 0).find? fun pos ↦ t.key pos == 0 with
      | none => rfl
      | some i =>
        have hfree : t.key i = 0 := eq_of_beq (find?_some hfind :)
        have hfollows := ht.wf.mem_chainOf_iff.mp (mem_of_find?_eq_some hfind)
        exact ht.blank i (ht.wf.lt_of_follows (ht.wf.hashCode_lt 0) hfollows) hfree
    have hreturns := ht.wf.returns_lookup 0
    rw [hlookup] at hreturns
    rw [hk, Finmap.lookup_eq_none.mpr hzero]
    exact hreturns
  · rw [← ht.lookup k hk]
    exact ht.wf.returns_lookup k

theorem chains_end (i : ℕ) : ∃ last, Follows t.next i last ∧ t.next last = none := by
  obtain ⟨rank, hranked, -⟩ := ht.wf.ranked
  obtain ⟨last, -, hend, hfollows⟩ := hranked.getLast_chain (i := i) ht.wf.size_pos fun _ _ ↦
    ht.wf.card_keys_le.trans (Nat.le_add_right _ _)
  exact ⟨last, hfollows, hend⟩

end

end Represents

theorem zero_notMem_boundedInserts {calls : List (ℕ × ℕ)} (hkeys : ∀ call ∈ calls, call.1 ≠ 0)
    (hzero : 0 ∉ m) : 0 ∉ (boundedInserts bound m calls).2 := by
  induction calls generalizing m with
  | nil => exact hzero
  | cons call calls ih =>
    refine ih (fun other hother ↦ hkeys other (mem_cons_of_mem call hother)) ?_
    rw [boundedInsert]
    split
    · rw [Finmap.mem_insert]
      exact not_or.mpr ⟨(hkeys call mem_cons_self).symm, hzero⟩
    · exact hzero

/-- Whatever keys other than zero are inserted into a cleared table, the calls return what a finite
map with as much room gives, the values that are found afterwards are those of the map, and no
chain runs in a circle. -/
theorem insertAll_refines {size : ℕ} (hpos : 1 ≤ size) (hle : size ≤ 255) (calls : List (ℕ × ℕ))
    (hkeys : ∀ call ∈ calls, call.1 ≠ 0) :
    ∃ t, Returns ((clear size).insertAll calls) ((boundedInserts size ∅ calls).1, t) ∧
      (∀ k, Returns (t.hashMapLookup k) (((boundedInserts size ∅ calls).2.lookup k).getD 0)) ∧
        ∀ i, ∃ last, Follows t.next i last ∧ t.next last = none := by
  obtain ⟨t, hreturns, ht⟩ := (clear_represents hpos hle).insertAll hkeys
  have hzero : 0 ∉ (boundedInserts size ∅ calls).2 :=
    zero_notMem_boundedInserts hkeys Finmap.notMem_empty
  exact ⟨t, hreturns, fun k ↦ ht.returns_lookup hzero k, ht.chains_end⟩

theorem insertAll_refines_two :
    ∃ t, Returns ((clear 2).insertAll [(1, 7), (3, 9), (1, 8), (2, 5)])
        ((boundedInserts 2 ∅ [(1, 7), (3, 9), (1, 8), (2, 5)]).1, t) ∧
      (∀ k, Returns (t.hashMapLookup k)
        (((boundedInserts 2 ∅ [(1, 7), (3, 9), (1, 8), (2, 5)]).2.lookup k).getD 0)) ∧
          ∀ i, ∃ last, Follows t.next i last ∧ t.next last = none :=
  insertAll_refines (by decide) (by decide) _ (by decide)

end HashTable

end ContikiMaster.Sys
