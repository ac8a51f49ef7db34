import ContikiMaster.Tsch.InstalledLinks
import Mathlib.Data.List.Find

/-!
# Handles and sizes of slotframes

The handle and the size of a slotframe never change. Removing and adding one change what is found
under its handle and under no other. So what a lookup finds has the size it was created with.
-/

namespace ContikiMaster.Tsch

open Sys Lib Function List Option Memb

section Calls

variable {s t : Mac} {slotframe link : Option ℕ} {sf : ℕ} {request : LinkRequest}

theorem tschQueueUpdateTimeSource_keepsSlotframes {newAddr : Option Linkaddr} {updated : Bool}
    (hcall : tschQueueUpdateTimeSource s newAddr = .ok (updated, t)) : KeepsSlotframes s t :=
  keepsSlotframes_moves.updateTimeSource (fun _ _ _ ↦ .of_same rfl rfl) hcall

end Calls

def slotframeSize (s : Mac) (handle : ℕ) : Option ℕ :=
  (tschScheduleGetSlotframeByHandle s handle).map fun sf ↦ (s.slotframe sf).size

/-- Between calls: the lock is free, and the slotframes of the pool that are in use are those on
the list, with distinct handles. -/
structure SlotframesWF (s : Mac) : Prop where
  unlocked : s.tschLocked = false
  nodup : s.slotframeList.Nodup
  used : ∀ sf, s.slotframeMemb.count sf ≠ 0 → sf ∈ s.slotframeList
  listed : ∀ sf ∈ s.slotframeList, sf < s.slotframeMemb.num ∧ s.slotframeMemb.count sf = 1
  handle_inj : ∀ sf ∈ s.slotframeList, ∀ sf' ∈ s.slotframeList,
    (s.slotframe sf).handle = (s.slotframe sf').handle → sf = sf'

section Lookup

variable {s t : Mac} {handle : ℕ}

theorem slotframeSize_unlocked (hs : s.tschLocked = false) (handle : ℕ) :
    slotframeSize s handle = (s.slotframeList.find? fun sf ↦
      (s.slotframe sf).handle == handle).map fun sf ↦ (s.slotframe sf).size := by
  unfold slotframeSize tschScheduleGetSlotframeByHandle
  rw [hs]
  rfl

theorem KeepsSlotframes.slotframeSize (hkept : KeepsSlotframes s t) (hs : s.tschLocked = false)
    (ht : t.tschLocked = false) (handle : ℕ) :
    Tsch.slotframeSize t handle = Tsch.slotframeSize s handle := by
  rw [slotframeSize_unlocked hs, slotframeSize_unlocked ht, hkept.slotframeList, funext hkept.size]
  simp only [hkept.handle]

theorem KeepsSlotframes.wf (hkept : KeepsSlotframes s t) (hwf : SlotframesWF s)
    (ht : t.tschLocked = false) : SlotframesWF t := by
  refine ⟨ht, ?_, fun sf hsf ↦ ?_, fun sf hsf ↦ ?_, fun x hx y hy heq ↦ ?_⟩
  · rw [hkept.slotframeList]
    exact hwf.nodup
  · rw [hkept.count] at hsf
    rw [hkept.slotframeList]
    exact hwf.used sf hsf
  · rw [hkept.slotframeList] at hsf
    rw [hkept.num, hkept.count]
    exact hwf.listed sf hsf
  · rw [hkept.slotframeList] at hx hy
    rw [hkept.handle, hkept.handle] at heq
    exact hwf.handle_inj x hx y hy heq

theorem find?_erase_of_neg {p : ℕ → Bool} {x : ℕ} (hx : p x = false) (l : List ℕ) :
    (l.erase x).find? p = l.find? p := by
  induction l with
  | nil => rfl
  | cons y l ih =>
    by_cases hyx : y = x
    · rw [hyx, erase_cons_head, find?_cons_of_neg (by simp [hx])]
    · rw [erase_cons_tail (by simpa using hyx), find?_cons, find?_cons, ih]

theorem handle_of_found {sf : ℕ} (hfound : tschScheduleGetSlotframeByHandle s handle = some sf) :
    sf ∈ s.slotframeList ∧ (s.slotframe sf).handle = handle := by
  unfold tschScheduleGetSlotframeByHandle at hfound
  split at hfound
  · cases hfound
  · exact ⟨mem_of_find?_eq_some hfound, by simpa using find?_some hfound⟩

theorem SlotframesWF.alloc_isSome (hwf : SlotframesWF s)
    (hroom : s.slotframeList.length < s.slotframeMemb.num) : s.slotframeMemb.alloc.isSome := by
  by_contra hnone
  have hfull := alloc_eq_none.mp (not_isSome_iff_eq_none.mp hnone)
  have hsub : range s.slotframeMemb.num ⊆ s.slotframeList := fun p hp ↦
    hwf.used p (hfull p (mem_range.mp hp))
  have hle := (nodup_range.subperm hsub).length_le
  rw [length_range] at hle
  omega

end Lookup

/-- The table of slotframes after a change under one handle. -/
structure SlotframeChanged (s t : Mac) (handle : ℕ) (found : Option ℕ) : Prop where
  wf : SlotframesWF t
  num : t.slotframeMemb.num = s.slotframeMemb.num
  self : slotframeSize t handle = found
  other : ∀ other, other ≠ handle → slotframeSize t other = slotframeSize s other

section Changes

variable {s t : Mac} {handle size : ℕ}

theorem SlotframesWF.freeSlotframe (hwf : SlotframesWF s) {sf : ℕ} (hsf : sf ∈ s.slotframeList)
    (hhandle : (s.slotframe sf).handle = handle) :
    SlotframeChanged s (freeSlotframe s sf) handle none ∧
      (freeSlotframe s sf).slotframeList.length ≤ s.slotframeList.length := by
  have hmem : (s.slotframeMemb.free sf).mem = s.slotframeMemb.mem := free_mem
  have hrecord : ∀ x, (Tsch.freeSlotframe s sf).slotframe x = s.slotframe x := congrFun hmem
  have hlist : ∀ x, x ∈ (Tsch.freeSlotframe s sf).slotframeList ↔ x ∈ s.slotframeList ∧ x ≠ sf :=
    fun x ↦ mem_listRemove hwf.nodup
  have hcount : ∀ x, x ≠ sf → (s.slotframeMemb.free sf).count x = s.slotframeMemb.count x :=
    fun x hx ↦ free_count_of_ne hx
  have hunlocked : (Tsch.freeSlotframe s sf).tschLocked = false := hwf.unlocked
  refine ⟨⟨⟨hunlocked, nodup_listRemove hwf.nodup, fun x hx ↦ ?_, fun x hx ↦ ?_,
    fun x hx y hy heq ↦ ?_⟩, free_num, ?_, fun other hother ↦ ?_⟩, ?_⟩
  · have hne : x ≠ sf := by
      rintro rfl
      apply hx
      calc (s.slotframeMemb.free x).count x = s.slotframeMemb.count x - 1 :=
            free_count_self (hwf.listed x hsf).1
        _ = 0 := by rw [(hwf.listed x hsf).2]
    refine (hlist x).mpr ⟨hwf.used x fun hzero ↦ hx ?_, hne⟩
    exact (hcount x hne).trans hzero
  · obtain ⟨hx, hne⟩ := (hlist x).mp hx
    obtain ⟨hlt, hone⟩ := hwf.listed x hx
    refine ⟨lt_of_lt_of_eq hlt free_num.symm, (hcount x hne).trans hone⟩
  · rw [hrecord, hrecord] at heq
    exact hwf.handle_inj x ((hlist x).mp hx).1 y ((hlist y).mp hy).1 heq
  · rw [slotframeSize_unlocked hunlocked, map_eq_none_iff, find?_eq_none]
    intro x hx
    obtain ⟨hx, hne⟩ := (hlist x).mp hx
    rw [hrecord, beq_iff_eq]
    exact fun heq ↦ hne (hwf.handle_inj x hx sf hsf (heq.trans hhandle.symm))
  · rw [slotframeSize_unlocked hunlocked, slotframeSize_unlocked hwf.unlocked, funext hrecord]
    have hneg : ((s.slotframe sf).handle == other) = false := by
      rw [hhandle, beq_eq_false_iff_ne]
      exact hother.symm
    exact congrArg _ (find?_erase_of_neg (p := fun x ↦ (s.slotframe x).handle == other) hneg _)
  · exact length_erase_le

theorem tschGetLock_unlocked {got : Bool} (hs : s.tschLocked = false)
    (hlock : tschGetLock s = .ok (got, t)) : got = true ∧ t = { s with tschLocked := true } := by
  unfold tschGetLock at hlock
  rw [hs, if_neg (by simp)] at hlock
  split at hlock
  · cases hlock
  · cases hlock
    exact ⟨rfl, rfl⟩

theorem tschScheduleRemoveSlotframe_changed {removed : Bool} (hwf : SlotframesWF s)
    (hcall : tschScheduleRemoveSlotframe s (tschScheduleGetSlotframeByHandle s handle) =
      .ok (removed, t)) :
    SlotframeChanged s t handle none ∧ t.slotframeList.length ≤ s.slotframeList.length := by
  cases hfound : tschScheduleGetSlotframeByHandle s handle with
  | none =>
    rw [hfound] at hcall
    cases hcall
    refine ⟨⟨hwf, rfl, ?_, fun _ _ ↦ rfl⟩, le_rfl⟩
    unfold slotframeSize
    rw [hfound]
    rfl
  | some sf =>
    rw [hfound] at hcall
    obtain ⟨hsf, hhandle⟩ := handle_of_found hfound
    obtain ⟨u, hloop, hrest⟩ := bind_eq_ok hcall
    have hkept := keepsSlotframes_moves.removeLinks hloop
    have hunlocked := (keepsPackets_moves.removeLinks hloop).unlocked hwf.unlocked
    have hu := hkept.wf hwf hunlocked
    obtain ⟨⟨got, w⟩, hlock, hdone⟩ := bind_eq_ok hrest
    obtain ⟨rfl, rfl⟩ := tschGetLock_unlocked hunlocked hlock
    obtain rfl : tschReleaseLock (freeSlotframe { u with tschLocked := true } sf) = t := by
      cases hdone
      rfl
    rw [freeSlotframe_release hunlocked]
    obtain ⟨hchanged, hlength⟩ := hu.freeSlotframe (hkept.slotframeList ▸ hsf)
      ((hkept.handle sf).trans hhandle)
    refine ⟨⟨hchanged.wf, hchanged.num.trans hkept.num, hchanged.self, fun other hother ↦ ?_⟩,
      hlength.trans_eq (congrArg _ hkept.slotframeList)⟩
    exact (hchanged.other other hother).trans
      (hkept.slotframeSize hwf.unlocked hunlocked other)

theorem SlotframesWF.allocSlotframe (hwf : SlotframesWF s)
    (hfresh : ∀ x ∈ s.slotframeList, (s.slotframe x).handle ≠ handle)
    (hroom : s.slotframeList.length < s.slotframeMemb.num) :
    SlotframeChanged s (allocSlotframe s handle size).2 handle (some size) ∧
      (Tsch.allocSlotframe s handle size).2.slotframeList.length = s.slotframeList.length + 1 := by
  obtain ⟨⟨sf, pool⟩, hpool⟩ := isSome_iff_exists.mp (hwf.alloc_isSome hroom)
  obtain ⟨hlt, hzero, hnum, hmem, hcount⟩ := alloc_spec hpool
  have hnew : sf ∉ s.slotframeList := fun hsf ↦ by
    rw [(hwf.listed sf hsf).2] at hzero
    cases hzero
  set t := (Tsch.allocSlotframe s handle size).2 with ht
  have hlist : t.slotframeList = s.slotframeList ++ [sf] := by
    rw [ht, Tsch.allocSlotframe, hpool]
    exact listAdd_of_notMem hnew
  have hmemb : t.slotframeMemb = pool.store sf ⟨handle, size, []⟩ := by
    rw [ht, Tsch.allocSlotframe, hpool]
  have hunlocked : t.tschLocked = false := by
    rw [ht, Tsch.allocSlotframe, hpool]
    exact hwf.unlocked
  have hself : t.slotframe sf = ⟨handle, size, []⟩ := by
    rw [Mac.slotframe, hmemb, store_mem_self]
  have hold : ∀ x, x ≠ sf → t.slotframe x = s.slotframe x := by
    intro x hx
    rw [Mac.slotframe, hmemb, store_mem_of_ne hx, hmem]
  have hkept : ∀ x ∈ s.slotframeList, t.slotframe x = s.slotframe x := fun x hx ↦
    hold x fun heq ↦ hnew (heq ▸ hx)
  have hcount' : t.slotframeMemb.count = update s.slotframeMemb.count sf 1 := by
    rw [hmemb, store_count, hcount]
  have hnum' : t.slotframeMemb.num = s.slotframeMemb.num := by
    rw [hmemb, store_num, hnum]
  have hin : ∀ x, x ∈ t.slotframeList ↔ x ∈ s.slotframeList ∨ x = sf := by
    intro x
    rw [hlist, mem_append, mem_singleton]
  have hfind : ∀ other, s.slotframeList.find? (fun x ↦ (t.slotframe x).handle == other) =
      s.slotframeList.find? fun x ↦ (s.slotframe x).handle == other := by
    intro other
    apply find?_congr
    intro x hx
    rw [hkept x hx]
  refine ⟨⟨⟨hunlocked, ?_, fun x hx ↦ ?_, fun x hx ↦ ?_, ?_⟩, hnum', ?_, fun other hother ↦ ?_⟩, ?_⟩
  · rw [hlist]
    exact hwf.nodup.append (nodup_singleton sf) (by simpa using hnew)
  · rw [hin]
    by_cases hxs : x = sf
    · exact .inr hxs
    · rw [hcount', update_of_ne hxs] at hx
      exact .inl (hwf.used x hx)
  · rw [hnum', hcount']
    rcases (hin x).mp hx with hx | rfl
    · have hxs : x ≠ sf := by
        rintro rfl
        exact hnew hx
      rw [update_of_ne hxs]
      exact hwf.listed x hx
    · exact ⟨hlt, update_self ..⟩
  · apply label_inj hin _ _ hwf.handle_inj
    · exact fun x hx ↦ congrArg TschSlotframe.handle (hkept x hx)
    · rw [hself]
      exact hfresh
  · rw [slotframeSize_unlocked hunlocked, hlist, find?_append, hfind,
      find?_eq_none.mpr (by simpa using hfresh)]
    simp [hself]
  · rw [slotframeSize_unlocked hunlocked, slotframeSize_unlocked hwf.unlocked, hlist,
      find?_append, hfind]
    cases hfound : s.slotframeList.find? fun x ↦ (s.slotframe x).handle == other with
    | none => simp [hself, hother.symm]
    | some x =>
      simp only [some_or, map_some]
      rw [hkept x (mem_of_find?_eq_some hfound)]
  · rw [hlist, length_append, length_singleton]

theorem tschScheduleAddSlotframe_changed {sf : Option ℕ} (hwf : SlotframesWF s) (hsize : size ≠ 0)
    (hnone : slotframeSize s handle = none) (hroom : s.slotframeList.length < s.slotframeMemb.num)
    (hcall : tschScheduleAddSlotframe s handle size = .ok (sf, t)) :
    SlotframeChanged s t handle (some size) ∧
      t.slotframeList.length = s.slotframeList.length + 1 := by
  have hfound : tschScheduleGetSlotframeByHandle s handle = none := map_eq_none_iff.mp hnone
  have hfresh : ∀ x ∈ s.slotframeList, (s.slotframe x).handle ≠ handle := by
    unfold tschScheduleGetSlotframeByHandle at hfound
    rw [if_neg (by simp [hwf.unlocked]), find?_eq_none] at hfound
    simpa using hfound
  unfold tschScheduleAddSlotframe at hcall
  rw [if_neg hsize, hfound, if_neg (by simp)] at hcall
  obtain ⟨⟨got, u⟩, hlock, hdone⟩ := bind_eq_ok hcall
  obtain ⟨rfl, rfl⟩ := tschGetLock_unlocked hwf.unlocked hlock
  have hrelease := allocSlotframe_release hwf.unlocked handle size
  have halloc := @SlotframesWF.allocSlotframe s handle size hwf hfresh hroom
  rw [← hrelease] at halloc
  cases hdone
  exact halloc

theorem tschInit_slotframesWF {config : MacConfig} (hinit : tschInit config = .ok s) :
    SlotframesWF s ∧ s.slotframeList = [] ∧ s.slotframeMemb.num = config.maxSlotframes := by
  obtain ⟨u, hqueues, hrest⟩ := bind_eq_ok hinit
  obtain ⟨⟨done, w⟩, hschedule, hdone⟩ := bind_eq_ok hrest
  cases hdone
  obtain ⟨⟨eb, v⟩, heb, hrest⟩ := bind_eq_ok hqueues
  obtain ⟨⟨broadcast, x⟩, hbroadcast, hdone⟩ := bind_eq_ok hrest
  cases hdone
  have hnum : x.slotframeMemb.num = config.maxSlotframes :=
    (keepsSlotframes_moves.addNbr hbroadcast).num.trans (keepsSlotframes_moves.addNbr heb).num
  have hunlocked : ({ x with nBroadcast := broadcast } : Mac).tschLocked = false :=
    (keepsPackets_moves.addNbr hbroadcast).unlocked ((keepsPackets_moves.addNbr heb).unlocked rfl)
  obtain ⟨⟨got, y⟩, hlock, hdone⟩ := bind_eq_ok hschedule
  obtain ⟨rfl, rfl⟩ := tschGetLock_unlocked hunlocked hlock
  cases hdone
  refine ⟨⟨rfl, nodup_nil, fun sf hsf ↦ absurd rfl hsf, fun sf hsf ↦ ?_, fun sf hsf ↦ ?_⟩,
    rfl, hnum⟩
  · cases hsf
  · cases hsf

end Changes

end ContikiMaster.Tsch
