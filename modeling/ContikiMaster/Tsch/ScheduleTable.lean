import ContikiMaster.Tsch.NextActiveLink

/-!
# The table of slotframes and links

The schedule is a list of slotframes, each with a list of links, over two pools. The moves
keep the lists and the pools in step as long as a link is only appended to, or taken off, a
slotframe that is installed.
-/

namespace ContikiMaster.Tsch

open Sys Lib Function List Memb

structure ScheduleView where
  linkMemb : Memb TschLink
  slotframeMemb : Memb TschSlotframe
  slotframeList : List ℕ
  currentLink : Option ℕ

def Mac.schedule (s : Mac) : ScheduleView :=
  ⟨s.linkMemb, s.slotframeMemb, s.slotframeList, s.currentLink⟩

namespace ScheduleView

abbrev link (v : ScheduleView) (l : ℕ) : TschLink := v.linkMemb.mem l

abbrev slotframe (v : ScheduleView) (sf : ℕ) : TschSlotframe := v.slotframeMemb.mem sf

/-- A link on the list of an installed slotframe. -/
def Installed (v : ScheduleView) (l : ℕ) : Prop :=
  ∃ sf ∈ v.slotframeList, l ∈ (v.slotframe sf).linksList

/-- The slotframes on the list are the allocated blocks; their handles are distinct and their sizes
positive. A block that is not on the list has no links left. -/
structure SlotframesExact (v : ScheduleView) : Prop where
  nodup : v.slotframeList.Nodup
  allocated : ∀ sf, sf ∈ v.slotframeList ↔ sf < v.slotframeMemb.num ∧ v.slotframeMemb.count sf = 1
  unused : ∀ sf, sf ∉ v.slotframeList → v.slotframeMemb.count sf = 0
  emptied : ∀ sf, sf ∉ v.slotframeList → (v.slotframe sf).linksList = []
  handle_inj : ∀ x ∈ v.slotframeList, ∀ y ∈ v.slotframeList,
    (v.slotframe x).handle = (v.slotframe y).handle → x = y
  size_pos : ∀ sf ∈ v.slotframeList, 0 < (v.slotframe sf).size

/-- The installed links are the allocated blocks, at most one of them in each timeslot of a
slotframe, in a cell that exists and under the handle of the slotframe. -/
structure LinksExact (v : ScheduleView) : Prop where
  nodup : ∀ sf ∈ v.slotframeList, (v.slotframe sf).linksList.Nodup
  allocated : ∀ l, v.Installed l ↔ l < v.linkMemb.num ∧ v.linkMemb.count l = 1
  unused : ∀ l, ¬ v.Installed l → v.linkMemb.count l = 0
  timeslot_inj : ∀ sf ∈ v.slotframeList, ∀ l ∈ (v.slotframe sf).linksList,
    ∀ l' ∈ (v.slotframe sf).linksList, (v.link l).timeslot = (v.link l').timeslot → l = l'
  timeslot_lt : ∀ sf ∈ v.slotframeList, ∀ l ∈ (v.slotframe sf).linksList,
    (v.link l).timeslot < (v.slotframe sf).size
  channelOffset_le : ∀ sf ∈ v.slotframeList, ∀ l ∈ (v.slotframe sf).linksList,
    (v.link l).channelOffset ≤ 15
  slotframeHandle : ∀ sf ∈ v.slotframeList, ∀ l ∈ (v.slotframe sf).linksList,
    (v.link l).slotframeHandle = (v.slotframe sf).handle

structure WellFormed (v : ScheduleView) : Prop where
  slotframes : v.SlotframesExact
  links : v.LinksExact
  current : ∀ l, v.currentLink = some l → v.Installed l

/-! ## Moves -/

def unlink (v : ScheduleView) (sf l : ℕ) : ScheduleView where
  linkMemb := v.linkMemb.free l
  slotframeMemb := v.slotframeMemb.store sf
    { v.slotframe sf with linksList := listRemove (v.slotframe sf).linksList l }
  slotframeList := v.slotframeList
  currentLink := if some l = v.currentLink then none else v.currentLink

def append (v : ScheduleView) (sf l : ℕ) (pool : Memb TschLink) (k : TschLink) : ScheduleView :=
  { v with
    linkMemb := pool.store l k
    slotframeMemb := v.slotframeMemb.store sf
      { v.slotframe sf with linksList := listAdd (v.slotframe sf).linksList l } }

def addSlotframe (v : ScheduleView) (sf : ℕ) (pool : Memb TschSlotframe) (handle size : ℕ) :
    ScheduleView :=
  { v with
    slotframeMemb := pool.store sf { handle := handle, size := size, linksList := [] }
    slotframeList := listAdd v.slotframeList sf }

def dropSlotframe (v : ScheduleView) (sf : ℕ) : ScheduleView :=
  { v with
    slotframeMemb := v.slotframeMemb.free sf
    slotframeList := listRemove v.slotframeList sf }

section Moves

variable {v : ScheduleView} {sf l : ℕ}

theorem WellFormed.mem_of_handle (hv : v.WellFormed) (hsf : sf ∈ v.slotframeList)
    (hhandle : (v.link l).slotframeHandle = (v.slotframe sf).handle) {x : ℕ}
    (hx : x ∈ v.slotframeList) (hl : l ∈ (v.slotframe x).linksList) : x = sf :=
  hv.slotframes.handle_inj x hx sf hsf
    ((hv.links.slotframeHandle x hx l hl).symm.trans hhandle)

theorem slotframe_unlink (v : ScheduleView) (sf l x : ℕ) :
    (v.unlink sf l).slotframe x = { v.slotframe x with
      linksList := if x = sf then (v.slotframe x).linksList.erase l
        else (v.slotframe x).linksList } := by
  change update v.slotframeMemb.mem sf _ x = _
  rw [update_apply]
  split
  · rename_i heq
    rw [heq]
    rfl
  · rfl

theorem link_unlink (v : ScheduleView) (sf l j : ℕ) : (v.unlink sf l).link j = v.link j :=
  congrFun free_mem j

section

variable (hv : v.WellFormed) (hsf : sf ∈ v.slotframeList)
  (hhandle : (v.link l).slotframeHandle = (v.slotframe sf).handle)

include hv hsf hhandle

theorem WellFormed.mem_unlink {x j : ℕ} (hx : x ∈ v.slotframeList) :
    j ∈ ((v.unlink sf l).slotframe x).linksList ↔ j ∈ (v.slotframe x).linksList ∧ j ≠ l := by
  rw [slotframe_unlink]
  dsimp only
  split
  · rw [(hv.links.nodup x hx).mem_erase_iff, and_comm]
  · rename_i hne
    refine ⟨fun hj ↦ ⟨hj, fun hjl ↦ hne ?_⟩, And.left⟩
    rw [hjl] at hj
    exact hv.mem_of_handle hsf hhandle hx hj

theorem WellFormed.installed_unlink {j : ℕ} :
    (v.unlink sf l).Installed j ↔ v.Installed j ∧ j ≠ l := by
  constructor
  · intro hj
    obtain ⟨x, hx, hjx⟩ := hj
    obtain ⟨hjx, hne⟩ := (hv.mem_unlink hsf hhandle hx).mp hjx
    exact ⟨⟨x, hx, hjx⟩, hne⟩
  · intro hj
    obtain ⟨⟨x, hx, hjx⟩, hne⟩ := hj
    exact ⟨x, hx, (hv.mem_unlink hsf hhandle hx).mpr ⟨hjx, hne⟩⟩

end

theorem WellFormed.unlink (hv : v.WellFormed) (hsf : sf ∈ v.slotframeList)
    (hhandle : (v.link l).slotframeHandle = (v.slotframe sf).handle) :
    (v.unlink sf l).WellFormed := by
  have hhandles : ∀ x, ((v.unlink sf l).slotframe x).handle = (v.slotframe x).handle := fun x ↦ by
    rw [slotframe_unlink]
  have hsizes : ∀ x, ((v.unlink sf l).slotframe x).size = (v.slotframe x).size := fun x ↦ by
    rw [slotframe_unlink]
  have hmem : ∀ x ∈ v.slotframeList, ∀ j, j ∈ ((v.unlink sf l).slotframe x).linksList →
      j ∈ (v.slotframe x).linksList := fun x hx j hj ↦ ((hv.mem_unlink hsf hhandle hx).mp hj).1
  have hinstalled : ∀ j, (v.unlink sf l).Installed j ↔ v.Installed j ∧ j ≠ l :=
    fun j ↦ hv.installed_unlink hsf hhandle
  obtain ⟨hallocated, hunused⟩ := Exactly.free ⟨hv.links.allocated, hv.links.unused⟩ l hinstalled
  refine ⟨⟨hv.slotframes.nodup, hv.slotframes.allocated, hv.slotframes.unused, fun x hx ↦ ?_,
    fun x hx y hy heq ↦ ?_, fun x hx ↦ ?_⟩, ⟨fun x hx ↦ ?_, hallocated, hunused,
    fun x hx j hj j' hj' heq ↦ ?_, fun x hx j hj ↦ ?_, fun x hx j hj ↦ ?_, fun x hx j hj ↦ ?_⟩,
    fun j hj ↦ ?_⟩
  · have hne : x ≠ sf := fun heq ↦ hx (heq ▸ hsf)
    rw [slotframe_unlink, if_neg hne]
    exact hv.slotframes.emptied x hx
  · rw [hhandles, hhandles] at heq
    exact hv.slotframes.handle_inj x hx y hy heq
  · rw [hsizes]
    exact hv.slotframes.size_pos x hx
  · rw [slotframe_unlink]
    dsimp only
    split
    · exact (hv.links.nodup x hx).erase l
    · exact hv.links.nodup x hx
  · rw [link_unlink, link_unlink] at heq
    exact hv.links.timeslot_inj x hx j (hmem x hx j hj) j' (hmem x hx j' hj') heq
  · rw [link_unlink, hsizes]
    exact hv.links.timeslot_lt x hx j (hmem x hx j hj)
  · rw [link_unlink]
    exact hv.links.channelOffset_le x hx j (hmem x hx j hj)
  · rw [link_unlink, hhandles]
    exact hv.links.slotframeHandle x hx j (hmem x hx j hj)
  · change (if some l = v.currentLink then none else v.currentLink) = some j at hj
    split at hj
    · cases hj
    · rename_i hne
      refine (hinstalled j).mpr ⟨hv.current j hj, fun hjl ↦ hne ?_⟩
      rw [hj, hjl]

theorem WellFormed.append (hv : v.WellFormed) (hsf : sf ∈ v.slotframeList) {pool : Memb TschLink}
    {k : TschLink} (halloc : v.linkMemb.alloc = some (l, pool))
    (hhandle : k.slotframeHandle = (v.slotframe sf).handle)
    (hslot : k.timeslot < (v.slotframe sf).size) (hchannel : k.channelOffset ≤ 15)
    (hfree : ∀ j ∈ (v.slotframe sf).linksList, (v.link j).timeslot ≠ k.timeslot) :
    (v.append sf l pool k).WellFormed := by
  obtain ⟨hlt, hzero, hnum, hmem, hcount⟩ := alloc_spec halloc
  have hfresh : ¬ v.Installed l := by
    intro hl
    have hone := ((hv.links.allocated l).mp hl).2
    omega
  have hlist : listAdd (v.slotframe sf).linksList l = (v.slotframe sf).linksList ++ [l] :=
    listAdd_of_notMem fun hl ↦ hfresh ⟨sf, hsf, hl⟩
  have hrecord : ∀ x, (v.append sf l pool k).slotframe x = { v.slotframe x with
      linksList := if x = sf then (v.slotframe x).linksList ++ [l]
        else (v.slotframe x).linksList } := by
    intro x
    change update v.slotframeMemb.mem sf _ x = _
    rw [update_apply]
    split
    · rename_i heq
      rw [heq, hlist]
    · rfl
  have hlink : ∀ j, (v.append sf l pool k).link j = if j = l then k else v.link j := by
    intro j
    change update pool.mem l k j = _
    rw [update_apply, hmem]
  have hlinks : ∀ x j, j ∈ ((v.append sf l pool k).slotframe x).linksList ↔
      j ∈ (v.slotframe x).linksList ∨ x = sf ∧ j = l := by
    intro x j
    rw [hrecord]
    dsimp only
    split
    · rename_i heq
      rw [mem_append, mem_singleton, and_iff_right heq]
    · rename_i hne
      simp [hne]
  have hold : ∀ x ∈ v.slotframeList, ∀ j ∈ (v.slotframe x).linksList,
      (v.append sf l pool k).link j = v.link j := by
    intro x hx j hj
    have hne : j ≠ l := fun heq ↦ hfresh ⟨x, hx, heq ▸ hj⟩
    rw [hlink, if_neg hne]
  have hself : (v.append sf l pool k).link l = k := by rw [hlink, if_pos rfl]
  have hinstalled : ∀ j, (v.append sf l pool k).Installed j ↔ v.Installed j ∨ j = l := by
    intro j
    constructor
    · intro hj
      obtain ⟨x, hx, hjx⟩ := hj
      rcases (hlinks x j).mp hjx with hjx | ⟨-, hjl⟩
      · exact .inl ⟨x, hx, hjx⟩
      · exact .inr hjl
    · intro hj
      rcases hj with ⟨x, hx, hjx⟩ | hjl
      · exact ⟨x, hx, (hlinks x j).mpr (.inl hjx)⟩
      · exact ⟨sf, hsf, (hlinks sf j).mpr (.inr ⟨rfl, hjl⟩)⟩
  obtain ⟨hallocated, hunused⟩ :=
    Exactly.take ⟨hv.links.allocated, hv.links.unused⟩ hlt hnum hcount hinstalled
  refine ⟨⟨hv.slotframes.nodup, hv.slotframes.allocated, hv.slotframes.unused, fun x hx ↦ ?_,
    fun x hx y hy heq ↦ ?_, fun x hx ↦ ?_⟩, ⟨fun x hx ↦ ?_, hallocated, hunused,
    fun x hx j hj j' hj' heq ↦ ?_, fun x hx j hj ↦ ?_, fun x hx j hj ↦ ?_, fun x hx j hj ↦ ?_⟩,
    fun j hj ↦ (hinstalled j).mpr (.inl (hv.current j hj))⟩
  · have hne : x ≠ sf := fun heq ↦ hx (heq ▸ hsf)
    rw [hrecord, if_neg hne]
    exact hv.slotframes.emptied x hx
  · rw [hrecord, hrecord] at heq
    exact hv.slotframes.handle_inj x hx y hy heq
  · rw [hrecord]
    exact hv.slotframes.size_pos x hx
  · rw [hrecord]
    dsimp only
    split
    · rename_i heq
      rw [heq, ← hlist]
      exact nodup_listAdd (hv.links.nodup sf hsf)
    · exact hv.links.nodup x hx
  · rcases (hlinks x j).mp hj with hjx | ⟨hxsf, hjl⟩
    · rcases (hlinks x j').mp hj' with hjx' | ⟨hxsf, hjl'⟩
      · rw [hold x hx j hjx, hold x hx j' hjx'] at heq
        exact hv.links.timeslot_inj x hx j hjx j' hjx' heq
      · rw [hold x hx j hjx, hjl', hself] at heq
        rw [hxsf] at hjx
        exact absurd heq (hfree j hjx)
    · rcases (hlinks x j').mp hj' with hjx' | ⟨-, hjl'⟩
      · rw [hold x hx j' hjx', hjl, hself] at heq
        rw [hxsf] at hjx'
        exact absurd heq.symm (hfree j' hjx')
      · exact hjl.trans hjl'.symm
  · rw [hrecord]
    rcases (hlinks x j).mp hj with hjx | ⟨hxsf, hjl⟩
    · rw [hold x hx j hjx]
      exact hv.links.timeslot_lt x hx j hjx
    · rw [hjl, hself, hxsf]
      exact hslot
  · rcases (hlinks x j).mp hj with hjx | ⟨-, hjl⟩
    · rw [hold x hx j hjx]
      exact hv.links.channelOffset_le x hx j hjx
    · rw [hjl, hself]
      exact hchannel
  · rw [hrecord]
    rcases (hlinks x j).mp hj with hjx | ⟨hxsf, hjl⟩
    · rw [hold x hx j hjx]
      exact hv.links.slotframeHandle x hx j hjx
    · rw [hjl, hself, hxsf]
      exact hhandle

/-- Slotframes without links come and go. -/
theorem LinksExact.of_kept (hv : v.LinksExact) {w : ScheduleView} (hpool : w.linkMemb = v.linkMemb)
    (hinstalled : ∀ j, w.Installed j ↔ v.Installed j)
    (hkept : ∀ x ∈ w.slotframeList, (w.slotframe x).linksList = [] ∨
      x ∈ v.slotframeList ∧ w.slotframe x = v.slotframe x) : w.LinksExact := by
  have hold : ∀ x ∈ w.slotframeList, ∀ j ∈ (w.slotframe x).linksList,
      x ∈ v.slotframeList ∧ w.slotframe x = v.slotframe x := by
    intro x hx j hj
    rcases hkept x hx with hempty | hsame
    · rw [hempty] at hj
      cases hj
    · exact hsame
  have hlink : ∀ j, w.link j = v.link j := by
    intro j
    rw [link, hpool]
  refine ⟨fun x hx ↦ ?_, fun j ↦ ?_, fun j hj ↦ ?_, fun x hx j hj j' hj' heq ↦ ?_,
    fun x hx j hj ↦ ?_, fun x hx j hj ↦ ?_, fun x hx j hj ↦ ?_⟩
  · rcases hkept x hx with hempty | ⟨hxin, hsame⟩
    · rw [hempty]
      exact nodup_nil
    · rw [hsame]
      exact hv.nodup x hxin
  · rw [hinstalled, hpool]
    exact hv.allocated j
  · rw [hpool]
    exact hv.unused j fun hj' ↦ hj ((hinstalled j).mpr hj')
  all_goals
    obtain ⟨hxin, hsame⟩ := hold x hx j hj
    rw [hsame] at hj
  · rw [hlink, hlink] at heq
    rw [hsame] at hj'
    exact hv.timeslot_inj x hxin j hj j' hj' heq
  · rw [hlink, hsame]
    exact hv.timeslot_lt x hxin j hj
  · rw [hlink]
    exact hv.channelOffset_le x hxin j hj
  · rw [hlink, hsame]
    exact hv.slotframeHandle x hxin j hj

theorem WellFormed.addSlotframe (hv : v.WellFormed) {pool : Memb TschSlotframe} {handle size : ℕ}
    (halloc : v.slotframeMemb.alloc = some (sf, pool)) (hsize : size ≠ 0)
    (hfresh : ∀ x ∈ v.slotframeList, (v.slotframe x).handle ≠ handle) :
    (v.addSlotframe sf pool handle size).WellFormed := by
  obtain ⟨hlt, hzero, hnum, hmem, hcount⟩ := alloc_spec halloc
  set w := v.addSlotframe sf pool handle size with hw
  have hnew : sf ∉ v.slotframeList := by
    intro hsf
    have hone := ((hv.slotframes.allocated sf).mp hsf).2
    omega
  have hself : w.slotframe sf = { handle := handle, size := size, linksList := [] } :=
    store_mem_self
  have hother : ∀ x, x ≠ sf → w.slotframe x = v.slotframe x := by
    intro x hx
    change (pool.store sf _).mem x = v.slotframeMemb.mem x
    rw [store_mem_of_ne hx, hmem]
  have hold : ∀ x ∈ v.slotframeList, w.slotframe x = v.slotframe x :=
    fun x hx ↦ hother x fun heq ↦ hnew (heq ▸ hx)
  have hlist : ∀ x, x ∈ w.slotframeList ↔ x ∈ v.slotframeList ∨ x = sf := fun x ↦ mem_listAdd
  obtain ⟨hallocated, hunused⟩ :=
    Exactly.take ⟨hv.slotframes.allocated, hv.slotframes.unused⟩ hlt hnum hcount hlist
  have hinstalled : ∀ j, w.Installed j ↔ v.Installed j := by
    intro j
    constructor
    · intro hj
      obtain ⟨x, hx, hjx⟩ := hj
      rcases (hlist x).mp hx with hxin | hxsf
      · rw [hold x hxin] at hjx
        exact ⟨x, hxin, hjx⟩
      · rw [hxsf, hself] at hjx
        cases hjx
    · intro hj
      obtain ⟨x, hx, hjx⟩ := hj
      rw [← hold x hx] at hjx
      exact ⟨x, (hlist x).mpr (.inl hx), hjx⟩
  refine ⟨⟨nodup_listAdd hv.slotframes.nodup, hallocated, hunused, fun x hx ↦ ?_,
    ?_, fun x hx ↦ ?_⟩, hv.links.of_kept rfl hinstalled fun x hx ↦ ?_,
    fun j hj ↦ (hinstalled j).mpr (hv.current j hj)⟩
  · rw [hlist, not_or] at hx
    rw [hother x hx.2]
    exact hv.slotframes.emptied x hx.1
  · apply label_inj hlist _ _ hv.slotframes.handle_inj
    · exact fun x hx ↦ congrArg TschSlotframe.handle (hold x hx)
    · rw [hself]
      exact hfresh
  · rcases (hlist x).mp hx with hxin | hxsf
    · rw [hold x hxin]
      exact hv.slotframes.size_pos x hxin
    · rw [hxsf, hself]
      exact Nat.pos_of_ne_zero hsize
  · rcases (hlist x).mp hx with hxin | hxsf
    · exact Or.inr ⟨hxin, hold x hxin⟩
    · rw [hxsf, hself]
      exact Or.inl rfl

theorem WellFormed.dropSlotframe (hv : v.WellFormed)
    (hempty : (v.slotframe sf).linksList = []) : (v.dropSlotframe sf).WellFormed := by
  set w := v.dropSlotframe sf with hw
  have hrecord : ∀ x, w.slotframe x = v.slotframe x := congrFun free_mem
  have hlist : ∀ x, x ∈ w.slotframeList ↔ x ∈ v.slotframeList ∧ x ≠ sf :=
    fun x ↦ mem_listRemove hv.slotframes.nodup
  obtain ⟨hallocated, hunused⟩ :=
    Exactly.free ⟨hv.slotframes.allocated, hv.slotframes.unused⟩ sf hlist
  have hinstalled : ∀ j, w.Installed j ↔ v.Installed j := by
    intro j
    constructor
    · intro hj
      obtain ⟨x, hx, hjx⟩ := hj
      rw [hrecord] at hjx
      exact ⟨x, ((hlist x).mp hx).1, hjx⟩
    · intro hj
      obtain ⟨x, hx, hjx⟩ := hj
      have hne : x ≠ sf := by
        intro heq
        rw [heq, hempty] at hjx
        cases hjx
      rw [← hrecord] at hjx
      exact ⟨x, (hlist x).mpr ⟨hx, hne⟩, hjx⟩
  refine ⟨⟨nodup_listRemove hv.slotframes.nodup, hallocated, hunused, fun x hx ↦ ?_,
    fun x hx y hy heq ↦ ?_, fun x hx ↦ ?_⟩, hv.links.of_kept rfl hinstalled
      fun x hx ↦ Or.inr ⟨((hlist x).mp hx).1, hrecord x⟩,
    fun j hj ↦ (hinstalled j).mpr (hv.current j hj)⟩
  · rw [hrecord]
    by_cases hxsf : x = sf
    · rw [hxsf]
      exact hempty
    · exact hv.slotframes.emptied x fun hxin ↦ hx ((hlist x).mpr ⟨hxin, hxsf⟩)
  · rw [hrecord, hrecord] at heq
    exact hv.slotframes.handle_inj x ((hlist x).mp hx).1 y ((hlist y).mp hy).1 heq
  · rw [hrecord]
    exact hv.slotframes.size_pos x ((hlist x).mp hx).1

end Moves

end ScheduleView

end ContikiMaster.Tsch
