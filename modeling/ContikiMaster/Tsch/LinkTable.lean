import ContikiMaster.Tsch.ScheduleRuns

/-!
# The links in the table

The schedule is a table of links: under a handle there is at most one link in every timeslot.
`tsch_schedule_add_link` writes one entry, over the link in its place, and leaves all others. As
long as the pool has a free block, it writes whatever fits into the slotframe and has one of the
sixteen channel offsets.
-/

namespace ContikiMaster.Sys.Memb

variable {α : Type} {m m' : Memb α} {p i : ℕ}

theorem numfree_alloc (halloc : m.alloc = some (i, m')) : m'.numfree + 1 = m.numfree := by
  obtain ⟨hlt, hzero, hnum, -, hcount⟩ := alloc_spec halloc
  unfold numfree
  rw [List.countP_eq_length_filter, List.countP_eq_length_filter, hnum, hcount]
  have hmem : i ∈ (List.range m.num).filter fun j ↦ m.count j == 0 :=
    List.mem_filter.mpr ⟨List.mem_range.mpr hlt, by simp [hzero]⟩
  have herase : (List.range m.num).filter (fun j ↦ Function.update m.count i 1 j == 0) =
      ((List.range m.num).filter fun j ↦ m.count j == 0).erase i := by
    rw [(List.nodup_range.filter _).erase_eq_filter, List.filter_filter]
    apply List.filter_congr
    intro j _
    by_cases hji : j = i
    · simp [hji]
    · simp [hji]
  rw [herase, List.length_erase_of_mem hmem]
  have := List.length_pos_of_mem hmem
  omega

theorem numfree_le_free : m.numfree ≤ (m.free p).numfree := by
  unfold numfree
  rw [free_num]
  apply List.countP_mono_left
  intro j _ hj
  rw [beq_iff_eq] at hj ⊢
  by_cases hjp : j = p
  · subst hjp
    by_cases hlt : j < m.num
    · rw [free_count_self hlt, hj]
    · unfold free
      rw [if_neg hlt, hj]
  · rw [free_count_of_ne hjp, hj]

theorem alloc_isSome_of_numfree (hfree : 0 < m.numfree) : m.alloc.isSome := by
  obtain ⟨j, hj, hzero⟩ := List.countP_pos_iff.mp hfree
  exact alloc_isSome (List.mem_range.mp hj) (beq_iff_eq.mp hzero)

end ContikiMaster.Sys.Memb

namespace ContikiMaster.Tsch

open Sys Lib Function

namespace ScheduleView

/-- A link with this record is installed under the handle of a slotframe. -/
def HasLink (v : ScheduleView) (handle : ℕ) (k : TschLink) : Prop :=
  ∃ sf ∈ v.slotframeList, (v.slotframe sf).handle = handle ∧
    ∃ l ∈ (v.slotframe sf).linksList, v.link l = k

/-- A slotframe of this size is installed under the handle. -/
def HasSlotframe (v : ScheduleView) (handle size : ℕ) : Prop :=
  ∃ sf ∈ v.slotframeList, (v.slotframe sf).handle = handle ∧ (v.slotframe sf).size = size

section Moves

variable {v : ScheduleView} {sf l handle : ℕ} {k : TschLink}

theorem WellFormed.hasLink_unlink (hv : v.WellFormed) (hsf : sf ∈ v.slotframeList)
    (hl : l ∈ (v.slotframe sf).linksList) : (v.unlink sf l).HasLink handle k ↔ v.HasLink handle k ∧
      ¬ (handle = (v.slotframe sf).handle ∧ k.timeslot = (v.link l).timeslot) := by
  have hhandle := hv.links.slotframeHandle sf hsf l hl
  constructor
  · intro hlink
    obtain ⟨x, hx, hxhandle, j, hj, hrecord⟩ := hlink
    rw [slotframe_unlink] at hxhandle
    obtain ⟨hjx, hne⟩ := (hv.mem_unlink hsf hhandle hx).mp hj
    rw [link_unlink] at hrecord
    refine ⟨⟨x, hx, hxhandle, j, hjx, hrecord⟩, fun hplace ↦ hne ?_⟩
    obtain rfl : x = sf := hv.slotframes.handle_inj x hx sf hsf (hxhandle.trans hplace.1)
    apply hv.links.timeslot_inj x hx j hjx l hl
    rw [hrecord, hplace.2]
  · intro hlink
    obtain ⟨⟨x, hx, hxhandle, j, hj, hrecord⟩, hother⟩ := hlink
    refine ⟨x, hx, ?_, j, (hv.mem_unlink hsf hhandle hx).mpr ⟨hj, fun hjl ↦ hother ?_⟩, ?_⟩
    · rw [slotframe_unlink]
      exact hxhandle
    · rw [hjl] at hj hrecord
      rw [← hxhandle, ← hrecord, hv.mem_of_handle hsf hhandle hx hj]
      exact ⟨rfl, rfl⟩
    · rw [link_unlink]
      exact hrecord

theorem slotframe_append (v : ScheduleView) (sf l : ℕ) (pool : Memb TschLink) (k : TschLink)
    (x : ℕ) : (v.append sf l pool k).slotframe x = { v.slotframe x with
      linksList := if x = sf then listAdd (v.slotframe x).linksList l
        else (v.slotframe x).linksList } := by
  change update v.slotframeMemb.mem sf _ x = _
  rw [update_apply]
  split
  · rename_i heq
    rw [heq]
  · rfl

variable {pool : Memb TschLink} {new : TschLink} {size : ℕ}

theorem WellFormed.hasLink_append (hv : v.WellFormed) (hsf : sf ∈ v.slotframeList)
    (halloc : v.linkMemb.alloc = some (l, pool)) : (v.append sf l pool new).HasLink handle k ↔
      (handle = (v.slotframe sf).handle ∧ k = new) ∨ v.HasLink handle k := by
  obtain ⟨-, hzero, -, hmem, -⟩ := Memb.alloc_spec halloc
  have hfresh : ¬ v.Installed l := by
    intro hl
    have hone := ((hv.links.allocated l).mp hl).2
    omega
  have hnew : (v.append sf l pool new).link l = new := Memb.store_mem_self
  have hold : ∀ j, j ≠ l → (v.append sf l pool new).link j = v.link j := by
    intro j hne
    change (pool.store l new).mem j = v.linkMemb.mem j
    rw [Memb.store_mem_of_ne hne, hmem]
  constructor
  · intro hlink
    obtain ⟨x, hx, hxhandle, j, hj, hrecord⟩ := hlink
    rw [slotframe_append] at hxhandle hj
    by_cases hjl : j = l
    · rw [hjl, hnew] at hrecord
      refine .inl ⟨?_, hrecord.symm⟩
      by_cases hxsf : x = sf
      · rw [← hxhandle, hxsf]
      · dsimp only at hj
        rw [if_neg hxsf, hjl] at hj
        exact absurd ⟨x, hx, hj⟩ hfresh
    · rw [hold j hjl] at hrecord
      refine .inr ⟨x, hx, hxhandle, j, ?_, hrecord⟩
      dsimp only at hj
      split at hj
      · exact (mem_listAdd.mp hj).resolve_right hjl
      · exact hj
  · rintro (⟨rfl, rfl⟩ | ⟨x, hx, hxhandle, j, hj, hrecord⟩)
    · refine ⟨sf, hsf, ?_, l, ?_, hnew⟩
      · rw [slotframe_append]
      · rw [slotframe_append]
        dsimp only
        rw [if_pos rfl]
        exact mem_listAdd.mpr (.inr rfl)
    · refine ⟨x, hx, ?_, j, ?_, ?_⟩
      · rw [slotframe_append]
        exact hxhandle
      · rw [slotframe_append]
        dsimp only
        split
        · exact mem_listAdd.mpr (.inl hj)
        · exact hj
      · rw [hold j fun hjl ↦ hfresh ⟨x, hx, hjl ▸ hj⟩]
        exact hrecord

theorem hasSlotframe_unlink :
    (v.unlink sf l).HasSlotframe handle size ↔ v.HasSlotframe handle size := by
  unfold HasSlotframe
  simp only [slotframe_unlink]
  exact Iff.rfl

theorem hasSlotframe_append :
    (v.append sf l pool new).HasSlotframe handle size ↔ v.HasSlotframe handle size := by
  unfold HasSlotframe
  simp only [slotframe_append]
  exact Iff.rfl

end Moves

end ScheduleView

section Add

variable {s t : Mac} {sf handle : ℕ} {request : LinkRequest} {k : TschLink}

/-- A record holds what a request asks for. -/
structure LinkRequest.Fulfilled (request : LinkRequest) (k : TschLink) : Prop where
  addr : k.addr = request.address
  timeslot : k.timeslot = request.timeslot
  channelOffset : k.channelOffset = request.channelOffset
  linkOptions : k.linkOptions = request.linkOptions
  linkType : k.linkType = request.linkType

/-- A link was written into the table, over the one in its timeslot. -/
structure LinkAdded (handle : ℕ) (request : LinkRequest) (s t : Mac) : Prop where
  ready : ScheduleReady t
  slotframes : ∀ other size,
    t.schedule.HasSlotframe other size ↔ s.schedule.HasSlotframe other size
  links : ∃ new, request.Fulfilled new ∧ ∀ other k, t.schedule.HasLink other k ↔
    (other = handle ∧ k = new) ∨
      (s.schedule.HasLink other k ∧ ¬ (other = handle ∧ k.timeslot = request.timeslot))
  room : s.linkMemb.numfree ≤ t.linkMemb.numfree + 1

/-- A table without the link of a timeslot. -/
structure SlotCleared (sf timeslot : ℕ) (s t : Mac) : Prop where
  slotframes : ∀ other size,
    t.schedule.HasSlotframe other size ↔ s.schedule.HasSlotframe other size
  links : ∀ other k, t.schedule.HasLink other k ↔ s.schedule.HasLink other k ∧
    ¬ (other = (s.slotframe sf).handle ∧ k.timeslot = timeslot)
  room : s.linkMemb.numfree ≤ t.linkMemb.numfree

theorem tschScheduleRemoveLinkByTimeslot_cleared (hs : ScheduleReady s)
    (hsf : sf ∈ s.slotframeList) {timeslot : ℕ} {removed : Bool}
    (hcall : tschScheduleRemoveLinkByTimeslot s sf timeslot = .ok (removed, t)) :
    SlotCleared sf timeslot s t := by
  unfold tschScheduleRemoveLinkByTimeslot at hcall
  cases hfound : tschScheduleGetLinkByTimeslot s sf timeslot with
  | none =>
    rw [hfound] at hcall
    cases hcall
    refine ⟨fun _ _ ↦ Iff.rfl, fun other k ↦ (and_iff_left_of_imp ?_).symm, le_rfl⟩
    rintro ⟨x, hx, hhandle, j, hj, hrecord⟩ ⟨rfl, hslot⟩
    obtain rfl : x = sf := hs.wf.slotframes.handle_inj x hx sf hsf hhandle
    rw [tschScheduleGetLinkByTimeslot_idle hs.idle, List.find?_eq_none] at hfound
    apply hfound j hj
    rw [beq_iff_eq, ← hslot, ← hrecord]
    rfl
  | some l =>
    rw [hfound] at hcall
    obtain ⟨hl, rfl⟩ := mem_of_getLinkByTimeslot hfound
    rcases tschScheduleRemoveLink_view hs.idle sf l with
      ⟨hne, -⟩ | ⟨-, u, hcall', -, hview⟩
    · exact absurd (hs.wf.links.slotframeHandle sf hsf l hl) hne
    rw [hcall] at hcall'
    obtain ⟨-, rfl⟩ := Prod.mk.inj (Except.ok.inj hcall')
    refine ⟨fun other size ↦ ?_, fun other k ↦ ?_, ?_⟩
    · rw [hview]
      exact ScheduleView.hasSlotframe_unlink
    · rw [hview]
      exact hs.wf.hasLink_unlink hsf hl
    · have hmemb : t.linkMemb = s.linkMemb.free l := congrArg ScheduleView.linkMemb hview
      rw [hmemb]
      exact Memb.numfree_le_free

theorem tschScheduleAddLink_added (hs : ScheduleReady s) (hsf : sf ∈ s.slotframeList)
    (hslot : request.timeslot < (s.slotframe sf).size) (hchannel : request.channelOffset ≤ 15)
    (hroom : 0 < s.linkMemb.numfree) :
    ∃ l t, tschScheduleAddLink s (some sf) request = .ok (some l, t) ∧
      LinkAdded (s.slotframe sf).handle request s t := by
  obtain ⟨removed, u, hremove, hu, hfree⟩ :=
    tschScheduleRemoveLinkByTimeslot_ready hs hsf request.timeslot
  have hcleared := tschScheduleRemoveLinkByTimeslot_cleared hs hsf hremove
  have hsf' : sf ∈ u.slotframeList := hu.list ▸ hsf
  have hsome : u.linkMemb.alloc.isSome :=
    Memb.alloc_isSome_of_numfree (hroom.trans_le hcleared.room)
  rcases tschScheduleAddLink_view hsf hslot hchannel hremove hu hfree with
    ⟨hnone, -⟩ | ⟨l, pool, t, halloc, hcall, ht, hview⟩
  · rw [hnone] at hsome
    cases hsome
  refine ⟨l, t, hcall, ⟨ht, fun other size ↦ ?_, ⟨newLink u sf request, ?_, fun other k ↦ ?_⟩, ?_⟩⟩
  · rw [hview, ScheduleView.hasSlotframe_append]
    exact hcleared.slotframes other size
  · exact ⟨rfl, rfl, rfl, rfl, rfl⟩
  · rw [hview, hu.ready.wf.hasLink_append hsf' halloc, hcleared.links]
    change (other = (u.slotframe sf).handle ∧ _) ∨ _ ↔ _
    rw [hu.handle]
  · have hmemb : t.linkMemb = pool.store l (newLink u sf request) :=
      congrArg ScheduleView.linkMemb hview
    have htaken := Memb.numfree_alloc halloc
    have hle := hcleared.room
    rw [hmemb]
    change _ ≤ pool.numfree + 1
    omega

theorem slotframe_of_hasSlotframe (hs : ScheduleReady s) {size : ℕ}
    (hslotframe : s.schedule.HasSlotframe handle size) :
    ∃ sf ∈ s.slotframeList, tschScheduleGetSlotframeByHandle s handle = some sf ∧
      (s.slotframe sf).handle = handle ∧ (s.slotframe sf).size = size := by
  obtain ⟨sf, hsf, hhandle, hsize⟩ := hslotframe
  have hfind : tschScheduleGetSlotframeByHandle s handle =
      s.slotframeList.find? fun x ↦ (s.slotframe x).handle == handle := by
    unfold tschScheduleGetSlotframeByHandle
    rw [hs.idle.1]
    rfl
  have hsome : (s.slotframeList.find? fun x ↦ (s.slotframe x).handle == handle).isSome := by
    rw [List.find?_isSome]
    exact ⟨sf, hsf, beq_iff_eq.mpr hhandle⟩
  obtain ⟨x, hx⟩ := Option.isSome_iff_exists.mp hsome
  have hxhandle : (s.slotframe x).handle = handle := by simpa using List.find?_some hx
  have hxmem := List.mem_of_find?_eq_some hx
  obtain rfl : x = sf := hs.wf.slotframes.handle_inj x hxmem sf hsf (hxhandle.trans hhandle.symm)
  exact ⟨x, hsf, hfind.trans hx, hhandle, hsize⟩

end Add

end ContikiMaster.Tsch
