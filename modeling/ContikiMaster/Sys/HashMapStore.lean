import ContikiMaster.Lib.Chain
import ContikiMaster.Sys.HashMap

/-!
# The hash map stores what it is given

A chain starts at the home of its keys, and a key that finds its home taken goes to a free
node that is hung onto the end of the chain. Every used node can be reached from the home
of its key, and as long as there are no more keys than nodes a stored value is found again.
-/

namespace ContikiMaster.Sys.HashTable

open Lib Function List

variable {t t' : HashTable} {i j k v : ℕ}

theorem chain_eq (fuel pos : ℕ) : t.chain fuel pos = Lib.chain t.next fuel pos := by
  induction fuel generalizing pos with
  | zero => rfl
  | succ fuel ih =>
    rw [HashTable.chain, Lib.chain]
    cases t.next pos with
    | none => rfl
    | some next => exact congrArg (pos :: ·) (ih next)

def keys (t : HashTable) : Finset ℕ := ((Finset.range t.size).image t.key).erase 0

theorem mem_keys : k ∈ t.keys ↔ k ≠ 0 ∧ ∃ i < t.size, t.key i = k := by
  simp [keys]

/-- What inserting keeps. -/
structure Wf (t : HashTable) : Prop where
  size_pos : 0 < t.size
  size_le : t.size ≤ 255
  numberEntries : t.numberEntries = t.keys.card
  key_inj : ∀ i < t.size, ∀ j < t.size, t.key i ≠ 0 → t.key i = t.key j → i = j
  /-- A pointer leads from a used node to a used node. -/
  linked : ∀ i j, t.next i = some j → t.key i ≠ 0 ∧ j < t.size ∧ t.key j ≠ 0
  /-- Chains end. -/
  ranked : ∃ rank, Ranked t.next rank t.keys.card ∧
    ∀ i < t.size, t.key i ≠ 0 → rank i < t.keys.card
  /-- Each used node is in the chain of its key. -/
  reachable : ∀ i < t.size, t.key i ≠ 0 → Follows t.next (t.hashCode (t.key i)) i

theorem keys_clear (size : ℕ) : (clear size).keys = ∅ := by
  ext k
  simp only [mem_keys, clear, Finset.notMem_empty, iff_false]
  rintro ⟨hne, i, -, hkey⟩
  exact hne hkey.symm

theorem wf_clear {size : ℕ} (hpos : 0 < size) (hle : size ≤ 255) : (clear size).Wf where
  size_pos := hpos
  size_le := hle
  numberEntries := by
    rw [keys_clear]
    rfl
  key_inj := fun _ _ _ _ hne ↦ absurd rfl hne
  linked := nofun
  ranked := ⟨fun _ ↦ 0, nofun, fun _ _ hne ↦ absurd rfl hne⟩
  reachable := fun _ _ hne ↦ absurd rfl hne

namespace Wf

theorem hashCode_lt (hwf : t.Wf) (k : ℕ) : t.hashCode k < t.size := Nat.mod_lt _ hwf.size_pos

theorem card_keys_le (_ : t.Wf) : t.keys.card ≤ t.size := by
  calc
    t.keys.card ≤ ((Finset.range t.size).image t.key).card := Finset.card_erase_le
    _ ≤ (Finset.range t.size).card := Finset.card_image_le
    _ = t.size := Finset.card_range t.size

section

variable (hwf : t.Wf)

include hwf

theorem mem_chainOf_iff : i ∈ t.chainOf k ↔ Follows t.next (t.hashCode k) i := by
  obtain ⟨rank, hranked, -⟩ := hwf.ranked
  rw [chainOf, chain_eq]
  exact hranked.mem_chain_iff hwf.size_pos hwf.card_keys_le

theorem lt_of_follows (hlt : i < t.size) (hfollows : Follows t.next i j) : j < t.size := by
  induction hfollows with
  | refl => exact hlt
  | tail _ hstep _ => exact (hwf.linked _ _ hstep).2.1

theorem used_of_follows (hused : t.key i ≠ 0) (hfollows : Follows t.next i j) : t.key j ≠ 0 := by
  induction hfollows with
  | refl => exact hused
  | tail _ hstep _ => exact (hwf.linked _ _ hstep).2.2

theorem find_chainOf (hk : k ≠ 0) (hlt : i < t.size) (hkey : t.key i = k) :
    ((t.chainOf k).find? fun pos ↦ t.key pos == k) = some i := by
  have hmem : i ∈ t.chainOf k := by
    rw [hwf.mem_chainOf_iff, ← hkey]
    apply hwf.reachable i hlt
    rwa [hkey]
  cases hfind : (t.chainOf k).find? fun pos ↦ t.key pos == k with
  | none =>
    have hnone := find?_eq_none.mp hfind i hmem
    rw [hkey, beq_self_eq_true] at hnone
    exact absurd rfl hnone
  | some j =>
    have hj : t.key j = k := by
      have hfound := find?_some hfind
      exact eq_of_beq hfound
    have hjlt : j < t.size := by
      have hchain := mem_of_find?_eq_some hfind
      rw [hwf.mem_chainOf_iff] at hchain
      exact hwf.lt_of_follows (hwf.hashCode_lt k) hchain
    rw [hwf.key_inj i hlt j hjlt (by rwa [hkey]) (hkey.trans hj.symm)]

theorem find_chainOf_none (hk : k ≠ 0) (habsent : k ∉ t.keys) :
    ((t.chainOf k).find? fun pos ↦ t.key pos == k) = none := by
  rw [find?_eq_none]
  intro i hmem hfound
  rw [hwf.mem_chainOf_iff] at hmem
  apply habsent
  rw [mem_keys]
  exact ⟨hk, i, hwf.lt_of_follows (hwf.hashCode_lt k) hmem, eq_of_beq hfound⟩

theorem lookup_of_key (hk : k ≠ 0) (hlt : i < t.size) (hkey : t.key i = k) :
    t.lookup k = t.val i := by
  rw [lookup, hwf.find_chainOf hk hlt hkey]
  rfl

theorem lookup_of_absent (hk : k ≠ 0) (habsent : k ∉ t.keys) : t.lookup k = 0 := by
  rw [lookup, hwf.find_chainOf_none hk habsent]
  rfl

theorem exists_free (hroom : t.keys.card < t.size) : ∃ i < t.size, t.key i = 0 := by
  by_contra hall
  push Not at hall
  have hzero : 0 ∉ (Finset.range t.size).image t.key := by
    rw [Finset.mem_image]
    rintro ⟨i, hi, hkey⟩
    exact hall i (Finset.mem_range.mp hi) hkey
  have hcard : t.keys.card = t.size := by
    calc
      t.keys.card = ((Finset.range t.size).image t.key).card := by
        rw [keys, Finset.erase_eq_of_notMem hzero]
      _ = (Finset.range t.size).card := by
        apply Finset.card_image_of_injOn
        intro i hi j hj heq
        rw [Finset.coe_range, Set.mem_Iio] at hi hj
        exact hwf.key_inj i hi j hj (hall i hi) heq
      _ = t.size := Finset.card_range t.size
  omega

theorem freeFrom_of_room (hroom : t.keys.card < t.size) {pos : ℕ}
    (hpos : pos < t.size) : ∃ i, t.freeFrom pos = some i ∧ i < t.size ∧ t.key i = 0 := by
  obtain ⟨j, hj, hfree⟩ := hwf.exists_free hroom
  have hmem : j ∈ (range t.size).map fun i ↦ (pos + i) % t.size := by
    rw [mem_map]
    by_cases hle : pos ≤ j
    · refine ⟨j - pos, mem_range.mpr (by omega), ?_⟩
      rw [Nat.add_sub_cancel' hle, Nat.mod_eq_of_lt hj]
    · refine ⟨j + t.size - pos, mem_range.mpr (by omega), ?_⟩
      rw [Nat.add_sub_cancel' (by omega), Nat.add_mod_right, Nat.mod_eq_of_lt hj]
  cases hfind : t.freeFrom pos with
  | none =>
    have hnone := find?_eq_none.mp hfind j hmem
    rw [hfree] at hnone
    exact absurd rfl hnone
  | some i =>
    have hfound := @find?_some _ (fun i ↦ t.key i == 0) _ _ hfind
    refine ⟨i, rfl, ?_, eq_of_beq hfound⟩
    obtain ⟨n, -, rfl⟩ := mem_map.mp (mem_of_find?_eq_some hfind)
    exact Nat.mod_lt _ hwf.size_pos

theorem getLast_chainOf (k : ℕ) : ∃ prev, (t.chainOf k).getLast? = some prev ∧ t.next prev = none ∧
      Follows t.next (t.hashCode k) prev := by
  obtain ⟨rank, hranked, -⟩ := hwf.ranked
  rw [chainOf, chain_eq]
  exact hranked.getLast_chain hwf.size_pos fun _ _ ↦
    Nat.le_trans hwf.card_keys_le (Nat.le_add_right _ _)

end

end Wf

/-! ## Writing a node -/

/-- One node is written: a free one, or the one of the key. -/
structure Writes (t t' : HashTable) (i k v : ℕ) : Prop where
  size : t'.size = t.size
  key : t'.key = update t.key i k
  val : t'.val = update t.val i v
  lt : i < t.size
  free : t.key i = 0 ∨ t.key i = k

namespace Writes

section

variable (hwrites : Writes t t' i k v)

include hwrites

theorem key_self : t'.key i = k := by
  rw [hwrites.key, update_self]

theorem key_of_ne (hne : j ≠ i) : t'.key j = t.key j := by
  rw [hwrites.key, update_of_ne hne]

theorem keys (hk : k ≠ 0) : t'.keys = Insert.insert k t.keys := by
  ext k'
  rw [Finset.mem_insert, mem_keys, mem_keys, hwrites.size]
  constructor
  · rintro ⟨hne, j, hlt, hkey⟩
    by_cases hj : j = i
    · left
      rw [← hkey, hj, hwrites.key_self]
    · right
      rw [hwrites.key_of_ne hj] at hkey
      exact ⟨hne, j, hlt, hkey⟩
  · rintro (rfl | ⟨hne, j, hlt, hkey⟩)
    · exact ⟨hk, i, hwrites.lt, hwrites.key_self⟩
    · refine ⟨hne, j, hlt, ?_⟩
      by_cases hj : j = i
      · rw [hj] at hkey ⊢
        rw [hwrites.key_self]
        exact (hwrites.free.resolve_left (by rwa [hkey])).symm.trans hkey
      · rwa [hwrites.key_of_ne hj]

theorem lookup (hwf : t.Wf) (hwf' : t'.Wf) (hk : k ≠ 0) {k' : ℕ}
    (hk' : k' ≠ 0) : t'.lookup k' = if k' = k then v else t.lookup k' := by
  have hlt : i < t'.size := by
    rw [hwrites.size]
    exact hwrites.lt
  by_cases hsame : k' = k
  · rw [if_pos hsame, hsame, hwf'.lookup_of_key hk hlt hwrites.key_self, hwrites.val, update_self]
  · rw [if_neg hsame]
    by_cases hmem : k' ∈ t.keys
    · obtain ⟨-, j, hj, hkey⟩ := mem_keys.mp hmem
      have hne : j ≠ i := by
        rintro rfl
        rcases hwrites.free with hfree | hown
        · exact hk' (hkey.symm.trans hfree)
        · exact hsame (hkey.symm.trans hown)
      have hj' : j < t'.size := by rwa [hwrites.size]
      rw [hwf.lookup_of_key hk' hj hkey, hwf'.lookup_of_key hk' hj'
        ((hwrites.key_of_ne hne).trans hkey), hwrites.val, update_of_ne hne]
    · have hmem' : k' ∉ t'.keys := by
        rw [hwrites.keys hk, Finset.mem_insert]
        exact fun hor ↦ hor.elim hsame hmem
      rw [hwf.lookup_of_absent hk' hmem, hwf'.lookup_of_absent hk' hmem']

theorem key_inj (hwf : t.Wf) (habsent : k ∉ t.keys)
    (hk : k ≠ 0) : ∀ a < t'.size, ∀ b < t'.size, t'.key a ≠ 0 → t'.key a = t'.key b → a = b := by
  have hfresh : ∀ a < t.size, t.key a ≠ k := by
    intro a ha hkey
    exact habsent (mem_keys.mpr ⟨hk, a, ha, hkey⟩)
  rw [hwrites.size]
  intro a ha b hb hne heq
  by_cases hai : a = i
  · by_cases hbi : b = i
    · exact hai.trans hbi.symm
    · rw [hai, hwrites.key_self, hwrites.key_of_ne hbi] at heq
      exact absurd heq.symm (hfresh b hb)
  · by_cases hbi : b = i
    · rw [hbi, hwrites.key_self, hwrites.key_of_ne hai] at heq
      exact absurd heq (hfresh a ha)
    · rw [hwrites.key_of_ne hai] at hne heq
      rw [hwrites.key_of_ne hbi] at heq
      exact hwf.key_inj a ha b hb hne heq

end

end Writes

theorem Wf.extend (hwf : t.Wf) (hwrites : Writes t t' i k v) (hk : k ≠ 0) (habsent : k ∉ t.keys)
    (hroom : t.keys.card < t.size) (hfree : t.key i = 0)
    (hentries : t'.numberEntries = (t.numberEntries + 1) % 256)
    (hlinks : ∀ a b, t'.next a = some b → t.next a = some b ∨ a < t.size ∧ t.key a ≠ 0 ∧ b = i)
    (hfollows : ∀ a b, Follows t.next a b → Follows t'.next a b)
    (hhome : Follows t'.next (t.hashCode k) i) : t'.Wf := by
  have hused : ∀ a, t.key a ≠ 0 → t'.key a = t.key a := by
    intro a ha
    apply hwrites.key_of_ne
    rintro rfl
    exact ha hfree
  have hcard : t'.keys.card = t.keys.card + 1 := by
    rw [hwrites.keys hk, Finset.card_insert_of_notMem habsent]
  have hhash : ∀ k, t'.hashCode k = t.hashCode k := by
    intro k
    rw [hashCode, hashCode, hwrites.size]
  have hsize := hwf.size_le
  constructor
  case size_pos =>
    rw [hwrites.size]
    exact hwf.size_pos
  case size_le =>
    rw [hwrites.size]
    exact hsize
  case numberEntries =>
    rw [hentries, hwf.numberEntries, hcard, Nat.mod_eq_of_lt (by omega)]
  case key_inj => exact hwrites.key_inj hwf habsent hk
  case linked =>
    intro a b hnext
    rw [hwrites.size]
    rcases hlinks a b hnext with hold | ⟨-, ha, rfl⟩
    · obtain ⟨ha, hlt, hb⟩ := hwf.linked a b hold
      rw [hused a ha, hused b hb]
      exact ⟨ha, hlt, hb⟩
    · rw [hused a ha, hwrites.key_self]
      exact ⟨ha, hwrites.lt, hk⟩
  case ranked =>
    obtain ⟨rank, hranked, hbound⟩ := hwf.ranked
    -- the new node comes after all others
    have hrank : ∀ a, t.key a ≠ 0 → update rank i t.keys.card a = rank a := by
      intro a ha
      apply update_of_ne
      rintro rfl
      exact ha hfree
    refine ⟨update rank i t.keys.card, ?_, ?_⟩
    · intro a b hnext
      rw [hcard]
      rcases hlinks a b hnext with hold | ⟨hlt, ha, rfl⟩
      · obtain ⟨ha, -, hb⟩ := hwf.linked a b hold
        rw [hrank a ha, hrank b hb]
        have hgrows := hranked a b hold
        omega
      · rw [hrank a ha, update_self]
        have ha := hbound a hlt ha
        omega
    · intro a hlt ha
      rw [hcard]
      by_cases hai : a = i
      · rw [hai, update_self]
        exact Nat.lt_succ_self _
      · rw [hwrites.key_of_ne hai] at ha
        rw [hwrites.size] at hlt
        rw [hrank a ha]
        exact Nat.lt_succ_of_lt (hbound a hlt ha)
  case reachable =>
    intro a hlt ha
    rw [hhash]
    by_cases hai : a = i
    · rw [hai, hwrites.key_self]
      exact hhome
    · rw [hwrites.key_of_ne hai] at ha ⊢
      rw [hwrites.size] at hlt
      exact hfollows _ _ (hwf.reachable a hlt ha)

theorem Wf.overwrite (hwf : t.Wf) (i v : ℕ) :
    { t with val := update t.val i v }.Wf :=
  ⟨hwf.size_pos, hwf.size_le, hwf.numberEntries, hwf.key_inj, hwf.linked, hwf.ranked, hwf.reachable⟩

section

variable (hwf : t.Wf) (hk : k ≠ 0) (hroom : k ∈ t.keys ∨ t.keys.card < t.size) (v : ℕ)

include hwf hk hroom

theorem exists_writes_insert : ∃ i, Writes t (t.insert k v).2 i k v ∧ (t.insert k v).2.Wf := by
  have hhome := hwf.hashCode_lt k
  by_cases hmem : k ∈ t.keys
  · -- the key is found in its chain
    obtain ⟨-, i, hlt, hkey⟩ := mem_keys.mp hmem
    have hfind := hwf.find_chainOf hk hlt hkey
    have hused : t.key (t.hashCode k) ≠ 0 := by
      intro hfree
      have hreach := hwf.reachable i hlt (by rwa [hkey])
      rw [hkey] at hreach
      rcases Relation.ReflTransGen.cases_head hreach with heq | ⟨j, hnext, -⟩
      · rw [heq, hkey] at hfree
        exact hk hfree
      · exact (hwf.linked _ _ hnext).1 hfree
    have hinsert : (t.insert k v).2 = { t with val := update t.val i v } := by
      unfold HashTable.insert
      dsimp only
      rw [if_neg hused, hfind]
    rw [hinsert]
    refine ⟨i, ⟨rfl, ?_, rfl, hlt, Or.inr hkey⟩, hwf.overwrite i v⟩
    change t.key = _
    rw [← hkey, update_eq_self]
  · have hroom := hroom.resolve_left hmem
    by_cases hfree : t.key (t.hashCode k) = 0
    · -- the home of the key is free
      have hwrites : Writes t (t.insert k v).2 (t.hashCode k) k v := by
        unfold HashTable.insert
        dsimp only
        rw [if_pos hfree]
        exact ⟨rfl, rfl, rfl, hhome, Or.inl hfree⟩
      have hnext : (t.insert k v).2.next = t.next := by
        unfold HashTable.insert
        dsimp only
        rw [if_pos hfree]
      refine ⟨_, hwrites, hwf.extend hwrites hk hmem hroom hfree ?_ ?_ ?_ ?_⟩
      · unfold HashTable.insert
        dsimp only
        rw [if_pos hfree]
      · rw [hnext]
        exact fun _ _ hold ↦ Or.inl hold
      · rw [hnext]
        exact fun _ _ hfollows ↦ hfollows
      · exact Relation.ReflTransGen.refl
    · -- a free node is hung onto the end of the chain
      have hfind := hwf.find_chainOf_none hk hmem
      have hentries : ¬ t.size ≤ t.numberEntries := by
        rw [hwf.numberEntries]
        omega
      obtain ⟨i, hfrom, hlt, hcell⟩ := hwf.freeFrom_of_room hroom hhome
      obtain ⟨prev, hlast, hend, hreach⟩ := hwf.getLast_chainOf k
      have hinsert : (t.insert k v).2 = { t with
          key := update t.key i k
          val := update t.val i v
          next := update t.next prev (some i)
          numberEntries := (t.numberEntries + 1) % 256 } := by
        unfold HashTable.insert
        dsimp only
        rw [if_neg hfree, hfind]
        dsimp only
        rw [if_neg hentries, hfrom, hlast]
      have hwrites : Writes t (t.insert k v).2 i k v := by
        rw [hinsert]
        exact ⟨rfl, rfl, rfl, hlt, Or.inl hcell⟩
      rw [hinsert] at hwrites ⊢
      refine ⟨i, hwrites, hwf.extend hwrites hk hmem hroom hcell rfl ?_ ?_ ?_⟩
      · intro a b hnext
        change update t.next prev (some i) a = some b at hnext
        by_cases ha : a = prev
        · right
          rw [ha] at hnext ⊢
          have hb : some i = some b := by rw [← hnext, update_self]
          exact ⟨hwf.lt_of_follows hhome hreach, hwf.used_of_follows hfree hreach,
            (Option.some.inj hb).symm⟩
        · left
          rwa [update_of_ne ha] at hnext
      · exact fun _ _ hfollows ↦ hfollows.hang hend i
      · exact hreach.hang_end hend i

theorem insert_spec : (t.insert k v).2.Wf ∧ (t.insert k v).2.size = t.size ∧
      (t.insert k v).2.keys = Insert.insert k t.keys ∧
      ∀ k', k' ≠ 0 → (t.insert k v).2.lookup k' = if k' = k then v else t.lookup k' := by
  obtain ⟨i, hwrites, hwf'⟩ := exists_writes_insert hwf hk hroom v
  exact ⟨hwf', hwrites.size, hwrites.keys hk, fun k' hk' ↦ hwrites.lookup hwf hwf' hk hk'⟩

end

/-- The table is well formed and its keys are from a set that fits into it. -/
structure Within (bound : Finset ℕ) (t : HashTable) : Prop where
  wf : t.Wf
  keys : t.keys ⊆ bound
  room : bound.card ≤ t.size

namespace Within

variable {bound : Finset ℕ}

theorem clear {size : ℕ} (hpos : 0 < size) (hle : size ≤ 255) (hroom : bound.card ≤ size) :
    Within bound (HashTable.clear size) where
  wf := wf_clear hpos hle
  keys := by
    rw [keys_clear]
    exact Finset.empty_subset bound
  room := hroom

theorem insert (hwithin : t.Within bound) (hzero : 0 ∉ bound) (hk : k ∈ bound) (v : ℕ) :
    (t.insert k v).2.Within bound ∧
      ∀ k' ∈ bound, (t.insert k v).2.lookup k' = if k' = k then v else t.lookup k' := by
  have hne : ∀ k ∈ bound, k ≠ 0 := by
    rintro k hk rfl
    exact hzero hk
  have hroom : k ∈ t.keys ∨ t.keys.card < t.size := by
    by_cases hmem : k ∈ t.keys
    · exact Or.inl hmem
    · right
      have hproper : t.keys ⊂ bound := (Finset.ssubset_iff_of_subset hwithin.keys).mpr ⟨k, hk, hmem⟩
      exact (Finset.card_lt_card hproper).trans_le hwithin.room
  obtain ⟨hwf, hsize, hkeys, hlookup⟩ := insert_spec hwithin.wf (hne k hk) hroom v
  refine ⟨⟨hwf, ?_, ?_⟩, fun k' hk' ↦ hlookup k' (hne k' hk')⟩
  · rw [hkeys]
    exact Finset.insert_subset hk hwithin.keys
  · rw [hsize]
    exact hwithin.room

theorem foldl_insert (hwithin : t.Within bound) (hzero : 0 ∉ bound) {entries : List (ℕ × ℕ)}
    (hentries : ∀ entry ∈ entries, entry.1 ∈ bound) :
    (entries.foldl (fun t entry ↦ (t.insert entry.1 entry.2).2) t).Within bound := by
  induction entries generalizing t with
  | nil => exact hwithin
  | cons entry entries ih =>
    apply ih (hwithin.insert hzero (hentries entry mem_cons_self) entry.2).1
    exact fun other hother ↦ hentries other (mem_cons_of_mem entry hother)

end Within

end ContikiMaster.Sys.HashTable
