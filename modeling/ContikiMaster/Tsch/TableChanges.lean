import ContikiMaster.Tsch.LinkTable
import ContikiMaster.Tsch.SlotframeSizes

/-!
# Which handle a call writes under

Whether or not a call of `tsch-schedule.c` succeeds, it changes the table of links under one handle
only. Adding a link leaves no more under it than what was there and what was asked for, removing
one no more than was there, and a slotframe created anew starts without links.
-/

namespace ContikiMaster.Tsch

open Sys Lib List Option Memb

namespace ScheduleView

/-- A slotframe of the table, with its handle and its size. -/
def Places (v : ScheduleView) (handle size sf : ℕ) : Prop :=
  sf ∈ v.slotframeList ∧ (v.slotframe sf).handle = handle ∧ (v.slotframe sf).size = size

variable {v : ScheduleView} {sf l handle size : ℕ} {k : TschLink}

theorem HasLink.hasSlotframe (hlink : v.HasLink handle k) : ∃ size, v.HasSlotframe handle size := by
  obtain ⟨sf, hsf, hhandle, -⟩ := hlink
  exact ⟨(v.slotframe sf).size, sf, hsf, hhandle, rfl⟩

theorem WellFormed.hasLink_unlink_of_handle (hv : v.WellFormed) (hsf : sf ∈ v.slotframeList)
    (hhandle : (v.link l).slotframeHandle = (v.slotframe sf).handle) :
    ((v.unlink sf l).HasLink handle k → v.HasLink handle k) ∧
      (handle ≠ (v.slotframe sf).handle → v.HasLink handle k → (v.unlink sf l).HasLink handle k) := by
  constructor
  · intro hlink
    obtain ⟨x, hx, hxhandle, j, hj, hrecord⟩ := hlink
    rw [slotframe_unlink] at hxhandle
    rw [link_unlink] at hrecord
    exact ⟨x, hx, hxhandle, j, ((hv.mem_unlink hsf hhandle hx).mp hj).1, hrecord⟩
  · intro hother hlink
    obtain ⟨x, hx, hxhandle, j, hj, hrecord⟩ := hlink
    refine ⟨x, hx, ?_, j, (hv.mem_unlink hsf hhandle hx).mpr ⟨hj, fun hjl ↦ hother ?_⟩, ?_⟩
    · rw [slotframe_unlink]
      exact hxhandle
    · rw [hjl] at hj
      rw [← hxhandle, hv.mem_of_handle hsf hhandle hx hj]
    · rw [link_unlink]
      exact hrecord

theorem WellFormed.places_dropSlotframe (hv : v.WellFormed) {x : ℕ} :
    (v.dropSlotframe sf).Places handle size x ↔ v.Places handle size x ∧ x ≠ sf := by
  have hmem : (v.dropSlotframe sf).slotframe x = v.slotframe x := congrFun free_mem x
  unfold Places
  rw [hmem]
  change x ∈ v.slotframeList.erase sf ∧ _ ↔ _
  rw [hv.slotframes.nodup.mem_erase_iff]
  tauto

theorem hasLink_dropSlotframe (hother : handle ≠ (v.slotframe sf).handle) :
    (v.dropSlotframe sf).HasLink handle k ↔ v.HasLink handle k := by
  have hmem : (v.dropSlotframe sf).slotframe = v.slotframe := free_mem
  unfold HasLink
  rw [hmem]
  change (∃ x ∈ v.slotframeList.erase sf, _) ↔ _
  constructor
  · intro hlink
    obtain ⟨x, hx, hrest⟩ := hlink
    exact ⟨x, mem_of_mem_erase hx, hrest⟩
  · intro hlink
    obtain ⟨x, hx, hxhandle, hrest⟩ := hlink
    refine ⟨x, (mem_erase_of_ne fun hxsf ↦ hother ?_).mpr hx, hxhandle, hrest⟩
    rw [← hxhandle, hxsf]

theorem WellFormed.notMem_of_alloc (hv : v.WellFormed) {pool : Memb TschSlotframe}
    (halloc : v.slotframeMemb.alloc = some (sf, pool)) : sf ∉ v.slotframeList := by
  intro hsf
  obtain ⟨-, hzero, -⟩ := alloc_spec halloc
  have hone := ((hv.slotframes.allocated sf).mp hsf).2
  omega

theorem slotframe_addSlotframe {pool : Memb TschSlotframe}
    (halloc : v.slotframeMemb.alloc = some (sf, pool)) {x : ℕ} :
    (v.addSlotframe sf pool handle size).slotframe x =
      if x = sf then ⟨handle, size, []⟩ else v.slotframe x := by
  obtain ⟨-, -, -, hmem, -⟩ := alloc_spec halloc
  change (pool.store sf _).mem x = if x = sf then _ else v.slotframeMemb.mem x
  rw [store_mem, Function.update_apply, hmem]

section

variable (hv : v.WellFormed) {pool : Memb TschSlotframe}
  (halloc : v.slotframeMemb.alloc = some (sf, pool))

include hv halloc

theorem WellFormed.places_addSlotframe {other size' x : ℕ} :
    (v.addSlotframe sf pool handle size).Places other size' x ↔
      v.Places other size' x ∨ (x = sf ∧ other = handle ∧ size' = size) := by
  unfold Places
  rw [slotframe_addSlotframe halloc]
  change x ∈ listAdd v.slotframeList sf ∧ _ ↔ _
  rw [mem_listAdd]
  have hfresh := hv.notMem_of_alloc halloc
  by_cases hx : x = sf
  · rw [if_pos hx, hx]
    constructor
    · intro hplaces
      exact .inr ⟨rfl, hplaces.2.1.symm, hplaces.2.2.symm⟩
    · rintro (hold | ⟨-, rfl, rfl⟩)
      · exact absurd hold.1 hfresh
      · exact ⟨.inr rfl, rfl, rfl⟩
  · rw [if_neg hx]
    tauto

theorem WellFormed.hasLink_addSlotframe {other : ℕ} :
    (v.addSlotframe sf pool handle size).HasLink other k ↔ v.HasLink other k := by
  have hfresh := hv.notMem_of_alloc halloc
  constructor
  · intro hlink
    obtain ⟨x, hx, hxhandle, j, hj, hrecord⟩ := hlink
    rw [slotframe_addSlotframe halloc] at hxhandle hj
    by_cases hxsf : x = sf
    · rw [if_pos hxsf] at hj
      cases hj
    · rw [if_neg hxsf] at hxhandle hj
      exact ⟨x, (mem_listAdd.mp hx).resolve_right hxsf, hxhandle, j, hj, hrecord⟩
  · intro hlink
    obtain ⟨x, hx, hxhandle, j, hj, hrecord⟩ := hlink
    have hne : x ≠ sf := fun hxsf ↦ hfresh (hxsf ▸ hx)
    refine ⟨x, mem_listAdd.mpr (.inl hx), ?_, j, ?_, hrecord⟩
    · rw [slotframe_addSlotframe halloc, if_neg hne]
      exact hxhandle
    · rw [slotframe_addSlotframe halloc, if_neg hne]
      exact hj

end

end ScheduleView

theorem KeepsSlotframes.places {s t : Mac} (hkept : KeepsSlotframes s t) {handle size sf : ℕ} :
    t.schedule.Places handle size sf ↔ s.schedule.Places handle size sf := by
  change sf ∈ t.slotframeList ∧ (t.slotframe sf).handle = handle ∧ (t.slotframe sf).size = size ↔ _
  rw [hkept.slotframeList, hkept.handle, hkept.size]
  exact Iff.rfl

/-! ## Links -/

section Links

variable {s t u : Mac} {sf handle : ℕ} {slotframe : Option ℕ} {request : LinkRequest}
  {new : TschLink → Prop}

/-- A call wrote under one handle at most, and what is there now was there or is new. -/
structure WritesUnder (handle : ℕ) (new : TschLink → Prop) (s t : Mac) : Prop where
  ready : ScheduleReady t
  kept : KeepsSlotframes s t
  others : ∀ other k, other ≠ handle → (t.schedule.HasLink other k ↔ s.schedule.HasLink other k)
  links : ∀ k, t.schedule.HasLink handle k → s.schedule.HasLink handle k ∨ new k

namespace WritesUnder

theorem refl (hs : ScheduleReady s) : WritesUnder handle new s s :=
  ⟨hs, .refl s, fun _ _ _ ↦ Iff.rfl, fun _ hk ↦ .inl hk⟩

theorem trans (hst : WritesUnder handle new s t) (htu : WritesUnder handle new t u) :
    WritesUnder handle new s u := by
  refine ⟨htu.ready, hst.kept.trans htu.kept, fun other k hother ↦ ?_, fun k hk ↦ ?_⟩
  · exact (htu.others other k hother).trans (hst.others other k hother)
  · rcases htu.links k hk with hold | hnew
    · exact hst.links k hold
    · exact .inr hnew

theorem mono {more : TschLink → Prop} (hst : WritesUnder handle new s t)
    (hmore : ∀ k, new k → more k) : WritesUnder handle more s t :=
  ⟨hst.ready, hst.kept, hst.others, fun k hk ↦ (hst.links k hk).imp_right (hmore k)⟩

end WritesUnder

section

variable (hs : ScheduleReady s) (hsf : sf ∈ s.slotframeList)

include hs hsf

theorem tschScheduleRemoveLink_writes {link : Option ℕ} {removed : Bool}
    (hcall : tschScheduleRemoveLink s (some sf) link = .ok (removed, t)) :
    WritesUnder (s.slotframe sf).handle (fun _ ↦ False) s t := by
  have hkept := keepsSlotframes_moves.removeLink hcall
  cases link with
  | none =>
    cases hcall
    exact .refl hs
  | some l =>
    rcases tschScheduleRemoveLink_view hs.idle sf l with
      ⟨-, hcall'⟩ | ⟨hhandle, u, hcall', hidle, hview⟩
    · rw [hcall] at hcall'
      obtain ⟨-, rfl⟩ := Prod.mk.inj (Except.ok.inj hcall')
      exact .refl hs
    · rw [hcall] at hcall'
      obtain ⟨-, rfl⟩ := Prod.mk.inj (Except.ok.inj hcall')
      have hunlink : ∀ {other : ℕ} {k : TschLink}, _ := fun {other k} ↦
        @ScheduleView.WellFormed.hasLink_unlink_of_handle s.schedule sf l other k hs.wf hsf hhandle
      refine ⟨⟨hidle, ?_⟩, hkept, fun other k hother ↦ ?_, fun k hk ↦ ?_⟩
      · rw [hview]
        exact hs.wf.unlink hsf hhandle
      · rw [hview]
        exact ⟨hunlink.1, hunlink.2 hother⟩
      · rw [hview] at hk
        exact .inl (hunlink.1 hk)

theorem tschScheduleRemoveLinkByTimeslot_writes {timeslot : ℕ} {removed : Bool}
    (hcall : tschScheduleRemoveLinkByTimeslot s sf timeslot = .ok (removed, t)) :
    WritesUnder (s.slotframe sf).handle (fun _ ↦ False) s t := by
  unfold tschScheduleRemoveLinkByTimeslot at hcall
  cases hfound : tschScheduleGetLinkByTimeslot s sf timeslot with
  | none =>
    rw [hfound] at hcall
    cases hcall
    exact .refl hs
  | some l =>
    rw [hfound] at hcall
    exact tschScheduleRemoveLink_writes hs hsf hcall

theorem tschScheduleAddLink_writes
    {link : Option ℕ} (hcall : tschScheduleAddLink s (some sf) request = .ok (link, t)) :
    WritesUnder (s.slotframe sf).handle request.Fulfilled s t := by
  have hkept := keepsSlotframes_moves.addLink hcall
  by_cases hinvalid : (s.slotframe sf).size ≤ request.timeslot ∨ 15 < request.channelOffset
  · have hrefused : tschScheduleAddLink s (some sf) request = .ok (none, s) := by
      apply tschScheduleAddLink_refused
      intro x hx
      rwa [← some.inj hx]
    rw [hcall] at hrefused
    obtain ⟨-, rfl⟩ := Prod.mk.inj (Except.ok.inj hrefused)
    exact .refl hs
  · rw [not_or, not_le, not_lt] at hinvalid
    obtain ⟨removed, u, hremove, hu, hfree⟩ :=
      tschScheduleRemoveLinkByTimeslot_ready hs hsf request.timeslot
    have hcleared := tschScheduleRemoveLinkByTimeslot_writes hs hsf hremove
    rcases tschScheduleAddLink_view hsf hinvalid.1 hinvalid.2 hremove hu hfree with
      ⟨-, hcall'⟩ | ⟨l, pool, w, halloc, hcall', hw, hview⟩
    · rw [hcall] at hcall'
      obtain ⟨-, rfl⟩ := Prod.mk.inj (Except.ok.inj hcall')
      exact hcleared.mono fun _ hfalse ↦ hfalse.elim
    · rw [hcall] at hcall'
      obtain ⟨-, rfl⟩ := Prod.mk.inj (Except.ok.inj hcall')
      have hsf' : sf ∈ u.slotframeList := hu.list ▸ hsf
      have hlinks : ∀ {other : ℕ} {k : TschLink}, t.schedule.HasLink other k ↔
          (other = (s.slotframe sf).handle ∧ k = newLink u sf request) ∨
            u.schedule.HasLink other k := by
        intro other k
        rw [hview, ← hu.handle]
        exact hu.ready.wf.hasLink_append hsf' halloc
      refine ⟨hw, hkept, fun other k hother ↦ ?_, fun k hk ↦ ?_⟩
      · rw [hlinks, or_iff_right fun hnew ↦ hother hnew.1]
        exact hcleared.others other k hother
      · rcases hlinks.mp hk with ⟨-, rfl⟩ | hk
        · exact .inr ⟨rfl, rfl, rfl, rfl, rfl⟩
        · exact .inl ((hcleared.links k hk).resolve_right id)

end

/-- A pointer to a slotframe, `NULL` or live. -/
def LiveUnder (s : Mac) (handle : ℕ) (slotframe : Option ℕ) : Prop :=
  ∀ sf, slotframe = some sf → ∃ size, s.schedule.Places handle size sf

theorem LiveUnder.of_places (hlive : LiveUnder s handle slotframe)
    (hplaces : ∀ size sf, s.schedule.Places handle size sf → t.schedule.Places handle size sf) :
    LiveUnder t handle slotframe := by
  intro sf hsf
  obtain ⟨size, hsize⟩ := hlive sf hsf
  exact ⟨size, hplaces size sf hsize⟩

section

variable (hs : ScheduleReady s) {link : Option ℕ} (hlive : LiveUnder s handle slotframe)

include hs hlive

theorem tschScheduleAddLink_writesUnder
    (hcall : tschScheduleAddLink s slotframe request = .ok (link, t)) :
    WritesUnder handle request.Fulfilled s t := by
  cases slotframe with
  | none =>
    cases hcall
    exact .refl hs
  | some sf =>
    obtain ⟨size, hsf, rfl, -⟩ := hlive sf rfl
    exact tschScheduleAddLink_writes hs hsf hcall

theorem tschScheduleRemoveLink_writesUnder {removed : Bool}
    (hcall : tschScheduleRemoveLink s slotframe link = .ok (removed, t)) :
    WritesUnder handle (fun _ ↦ False) s t := by
  cases slotframe with
  | none =>
    cases hcall
    exact .refl hs
  | some sf =>
    obtain ⟨size, hsf, rfl, -⟩ := hlive sf rfl
    exact tschScheduleRemoveLink_writes hs hsf hcall

end

theorem liveUnder_found (hfound : tschScheduleGetSlotframeByHandle s handle = slotframe) :
    LiveUnder s handle slotframe := by
  intro sf hsf
  obtain ⟨hmem, hhandle⟩ := handle_of_found (hfound.trans hsf)
  exact ⟨_, hmem, hhandle, rfl⟩

theorem removeLinksLoop_writes {fuel : ℕ} (hs : ScheduleReady s) (hsf : sf ∈ s.slotframeList)
    (hcall : removeLinksLoop fuel s sf = .ok t) :
    WritesUnder (s.slotframe sf).handle (fun _ ↦ False) s t := by
  refine removeLinksLoop_invariant (fun u l removed w hu hremove ↦ ?_) (.refl hs) hcall
  have hsf' : sf ∈ u.slotframeList := hu.kept.slotframeList ▸ hsf
  have hremoved := tschScheduleRemoveLink_writes hu.ready hsf' hremove
  rw [hu.kept.handle] at hremoved
  exact hu.trans hremoved

theorem fits_of_hasLink {size : ℕ} {k : TschLink} (hs : ScheduleReady s)
    (hk : s.schedule.HasLink handle k) (hsize : s.schedule.HasSlotframe handle size) :
    k.timeslot < size ∧ k.channelOffset ≤ 15 := by
  obtain ⟨x, hx, hxhandle, l, hl, rfl⟩ := hk
  obtain ⟨y, hy, hyhandle, rfl⟩ := hsize
  obtain rfl := hs.wf.slotframes.handle_inj x hx y hy (hxhandle.trans hyhandle.symm)
  exact ⟨hs.wf.links.timeslot_lt x hx l hl, hs.wf.links.channelOffset_le x hx l hl⟩

end Links

section Slotframes

variable {s t u : Mac} {sf handle size : ℕ} {sizes : ℕ → Prop}

/-- The slotframe of a handle was removed, or created anew in one of some sizes. It has no links, and
under the other handles everything is as it was. -/
structure HandleChanged (handle : ℕ) (sizes : ℕ → Prop) (s t : Mac) : Prop where
  ready : ScheduleReady t
  slotframes : ∀ other size sf, other ≠ handle →
    (t.schedule.Places other size sf ↔ s.schedule.Places other size sf)
  others : ∀ other k, other ≠ handle → (t.schedule.HasLink other k ↔ s.schedule.HasLink other k)
  empty : ∀ k, ¬ t.schedule.HasLink handle k
  sizes : ∀ size, t.schedule.HasSlotframe handle size → sizes size

theorem HandleChanged.trans {former : ℕ → Prop} (hst : HandleChanged handle former s t)
    (htu : HandleChanged handle sizes t u) : HandleChanged handle sizes s u := by
  refine ⟨htu.ready, fun other size sf hother ↦ ?_, fun other k hother ↦ ?_, htu.empty, htu.sizes⟩
  · exact (htu.slotframes other size sf hother).trans (hst.slotframes other size sf hother)
  · exact (htu.others other k hother).trans (hst.others other k hother)

variable {removed : Bool} {result : Option ℕ}

theorem tschScheduleRemoveSlotframe_handleChanged (hs : ScheduleReady s)
    (hsf : sf ∈ s.slotframeList)
    (hcall : tschScheduleRemoveSlotframe s (some sf) = .ok (removed, t)) :
    HandleChanged (s.slotframe sf).handle (fun _ ↦ False) s t := by
  obtain ⟨u, hloop, hu, hempty⟩ := removeLinksLoop_ready _ hs hsf rfl
  have hcall' := tschScheduleRemoveSlotframe_idle hloop hu.ready.idle
  rw [hcall] at hcall'
  obtain ⟨-, rfl⟩ := Prod.mk.inj (Except.ok.inj hcall')
  have hwrites := removeLinksLoop_writes hs hsf hloop
  have hsf' : sf ∈ u.slotframeList := hu.list ▸ hsf
  have hwf : (u.schedule.dropSlotframe sf).WellFormed := hu.ready.wf.dropSlotframe hempty
  have hnone : ∀ size, ¬ (u.schedule.dropSlotframe sf).HasSlotframe (s.slotframe sf).handle size := by
    intro size hslotframe
    obtain ⟨x, hx⟩ := hslotframe
    obtain ⟨⟨hx, hhandle, -⟩, hne⟩ := hu.ready.wf.places_dropSlotframe.mp hx
    have hsame := hu.ready.wf.slotframes.handle_inj x hx sf hsf'
    exact hne (hsame (hhandle.trans (hu.handle sf).symm))
  refine ⟨⟨hu.ready.idle, hwf⟩, fun other size x hother ↦ ?_, fun other k hother ↦ ?_,
    fun k hk ↦ ?_, hnone⟩
  · change (u.schedule.dropSlotframe sf).Places other size x ↔ _
    rw [hu.ready.wf.places_dropSlotframe, ← hwrites.kept.places]
    refine and_iff_left_of_imp fun hplaces hx ↦ hother ?_
    rw [← hplaces.2.1, hx]
    exact hu.handle sf
  · rw [← hwrites.others other k hother]
    have hother' : other ≠ (u.schedule.slotframe sf).handle :=
      fun heq ↦ hother (heq.trans (hu.handle sf))
    exact ScheduleView.hasLink_dropSlotframe hother'
  · obtain ⟨size, hslotframe⟩ := hk.hasSlotframe
    exact hnone size hslotframe

theorem tschScheduleGetSlotframeByHandle_eq_none (hs : ScheduleReady s) :
    tschScheduleGetSlotframeByHandle s handle = none ↔
      ∀ size, ¬ s.schedule.HasSlotframe handle size := by
  unfold tschScheduleGetSlotframeByHandle
  rw [if_neg (by simp [hs.idle.1]), find?_eq_none]
  constructor
  · intro hnone size hslotframe
    obtain ⟨sf, hsf, hhandle, -⟩ := hslotframe
    exact hnone sf hsf (beq_iff_eq.mpr hhandle)
  · intro hnone sf hsf hhandle
    exact hnone _ ⟨sf, hsf, beq_iff_eq.mp hhandle, rfl⟩

theorem tschScheduleAddSlotframe_handleChanged (hs : ScheduleReady s)
    (hnone : ∀ size, ¬ s.schedule.HasSlotframe handle size)
    (hcall : tschScheduleAddSlotframe s handle size = .ok (result, t)) :
    HandleChanged handle (· = size) s t ∧
      ∀ sf, result = some sf → t.schedule.Places handle size sf := by
  have hempty : ∀ k, ¬ s.schedule.HasLink handle k := by
    intro k hk
    obtain ⟨size, hslotframe⟩ := hk.hasSlotframe
    exact hnone size hslotframe
  have hrefl : HandleChanged handle (· = size) s s :=
    ⟨hs, fun _ _ _ _ ↦ Iff.rfl, fun _ _ _ ↦ Iff.rfl, hempty,
      fun size' hslotframe ↦ absurd hslotframe (hnone size')⟩
  by_cases hsize : size = 0
  · rw [tschScheduleAddSlotframe_refused hs (.inl hsize)] at hcall
    cases hcall
    exact ⟨hrefl, fun sf hsf ↦ nomatch hsf⟩
  rw [tschScheduleAddSlotframe_idle hs.idle hsize
    ((tschScheduleGetSlotframeByHandle_eq_none hs).mpr hnone)] at hcall
  unfold allocSlotframe at hcall
  cases halloc : s.slotframeMemb.alloc with
  | none =>
    rw [halloc] at hcall
    cases hcall
    exact ⟨hrefl, fun sf hsf ↦ nomatch hsf⟩
  | some block =>
    obtain ⟨sf, pool⟩ := block
    rw [halloc] at hcall
    cases hcall
    have halloc' : s.schedule.slotframeMemb.alloc = some (sf, pool) := halloc
    have hfresh : ∀ x ∈ s.slotframeList, (s.slotframe x).handle ≠ handle :=
      fun x hx hhandle ↦ hnone _ ⟨x, hx, hhandle, rfl⟩
    have hplaces : ∀ {other size' x : ℕ},
        (s.schedule.addSlotframe sf pool handle size).Places other size' x ↔
          s.schedule.Places other size' x ∨ (x = sf ∧ other = handle ∧ size' = size) :=
      hs.wf.places_addSlotframe halloc'
    have hlinks : ∀ {other : ℕ} {k : TschLink},
        (s.schedule.addSlotframe sf pool handle size).HasLink other k ↔
          s.schedule.HasLink other k := hs.wf.hasLink_addSlotframe halloc'
    refine ⟨⟨⟨hs.idle, hs.wf.addSlotframe halloc' hsize hfresh⟩, fun other size' x hother ↦ ?_,
      fun other k _ ↦ hlinks, fun k hk ↦ hempty k (hlinks.mp hk), fun size' hslotframe ↦ ?_⟩,
      fun x hx ↦ ?_⟩
    · exact hplaces.trans (or_iff_left fun hnew ↦ hother hnew.2.1)
    · obtain ⟨x, hx⟩ := hslotframe
      rcases hplaces.mp hx with hold | hnew
      · exact absurd ⟨x, hold⟩ (hnone size')
      · exact hnew.2.2
    · obtain rfl := some.inj hx
      exact hplaces.mpr (.inr ⟨rfl, rfl, rfl⟩)

theorem handleChanged_of_recreate (hs : ScheduleReady s)
    (hremove : tschScheduleRemoveSlotframe s (tschScheduleGetSlotframeByHandle s handle) =
      .ok (removed, u)) (hadd : tschScheduleAddSlotframe u handle size = .ok (result, t)) :
    HandleChanged handle (· = size) s t ∧ LiveUnder t handle result := by
  cases hfound : tschScheduleGetSlotframeByHandle s handle with
  | none =>
    rw [hfound] at hremove
    cases hremove
    have hnone := (tschScheduleGetSlotframeByHandle_eq_none hs).mp hfound
    obtain ⟨hadded, hresult⟩ := tschScheduleAddSlotframe_handleChanged hs hnone hadd
    exact ⟨hadded, fun sf hsf ↦ ⟨size, hresult sf hsf⟩⟩
  | some sf =>
    rw [hfound] at hremove
    obtain ⟨hsf, rfl⟩ := handle_of_found hfound
    have hremoved := tschScheduleRemoveSlotframe_handleChanged hs hsf hremove
    obtain ⟨hadded, hresult⟩ :=
      tschScheduleAddSlotframe_handleChanged hremoved.ready (fun size hsize ↦
        hremoved.sizes size hsize) hadd
    exact ⟨hremoved.trans hadded, fun sf hsf ↦ ⟨size, hresult sf hsf⟩⟩

end Slotframes

section Room

variable {s t u : Mac} {sf handle size : ℕ} {slotframe : Option ℕ} {request : LinkRequest}

/-- A link was written if it fits, and the links of other slots are still there. -/
structure LinkPut (handle : ℕ) (slotframe : Option ℕ) (request : LinkRequest) (s t : Mac) : Prop where
  writes : WritesUnder handle request.Fulfilled s t
  room : s.linkMemb.numfree ≤ t.linkMemb.numfree + 1
  slotframes : t.slotframeMemb.numfree = s.slotframeMemb.numfree
  put : ∀ sf, slotframe = some sf → request.timeslot < (s.slotframe sf).size →
    request.channelOffset ≤ 15 → ∃ k, t.schedule.HasLink handle k ∧ request.Fulfilled k
  others : ∀ other k, s.schedule.HasLink other k → t.schedule.HasLink other k ∨
    other = handle ∧ k.timeslot = request.timeslot ∧
      ∃ new, t.schedule.HasLink handle new ∧ request.Fulfilled new

theorem tschScheduleAddLink_put (hs : ScheduleReady s) (hlive : LiveUnder s handle slotframe)
    (hroom : 0 < s.linkMemb.numfree) (request : LinkRequest) :
    ∃ link t, tschScheduleAddLink s slotframe request = .ok (link, t) ∧
      LinkPut handle slotframe request s t := by
  by_cases hinvalid : ∀ sf, slotframe = some sf →
      (s.slotframe sf).size ≤ request.timeslot ∨ 15 < request.channelOffset
  · refine ⟨none, s, tschScheduleAddLink_refused s hinvalid, .refl hs, Nat.le_succ _, rfl,
      fun sf hsf hslot hchannel ↦ ?_, fun _ _ hk ↦ .inl hk⟩
    have := hinvalid sf hsf
    omega
  · push Not at hinvalid
    obtain ⟨sf, rfl, hslot, hchannel⟩ := hinvalid
    obtain ⟨size, hsf, rfl, -⟩ := hlive sf rfl
    obtain ⟨l, t, hcall, hadded⟩ := tschScheduleAddLink_added hs hsf hslot hchannel hroom
    have hkept := keepsSlotframes_moves.addLink hcall
    obtain ⟨new, hnew, hlinks⟩ := hadded.links
    have hput : t.schedule.HasLink (s.slotframe sf).handle new := (hlinks _ _).mpr (.inl ⟨rfl, rfl⟩)
    refine ⟨some l, t, hcall, tschScheduleAddLink_writes hs hsf hcall, hadded.room, ?_,
      fun _ _ _ _ ↦ ⟨new, hput, hnew⟩, fun other k hk ↦ ?_⟩
    · unfold numfree
      rw [hkept.num, hkept.count]
    · by_cases hplace : other = (s.slotframe sf).handle ∧ k.timeslot = request.timeslot
      · exact .inr ⟨hplace.1, hplace.2, new, hput, hnew⟩
      · exact .inl ((hlinks other k).mpr (.inr ⟨hk, hplace⟩))

theorem tschScheduleRemoveSlotframe_room (hs : ScheduleReady s) (hsf : sf ∈ s.slotframeList) :
    ∃ t, tschScheduleRemoveSlotframe s (some sf) = .ok (true, t) ∧
      s.linkMemb.numfree ≤ t.linkMemb.numfree ∧
        s.slotframeMemb.numfree ≤ t.slotframeMemb.numfree := by
  obtain ⟨t, hloop, ht, -⟩ := removeLinksLoop_ready _ hs hsf rfl
  have hkept := keepsSlotframes_moves.removeLinks hloop
  have hlinks : Idle t ∧ s.linkMemb.numfree ≤ t.linkMemb.numfree := by
    have hstep : ∀ u l removed w, (Idle u ∧ s.linkMemb.numfree ≤ u.linkMemb.numfree) →
        tschScheduleRemoveLink u (some sf) (some l) = .ok (removed, w) →
          Idle w ∧ s.linkMemb.numfree ≤ w.linkMemb.numfree := by
      intro u l removed w hu hremove
      rcases tschScheduleRemoveLink_view hu.1 sf l with ⟨-, hcall⟩ | ⟨-, w', hcall, hidle, hview⟩
      · rw [hremove] at hcall
        obtain ⟨-, rfl⟩ := Prod.mk.inj (Except.ok.inj hcall)
        exact hu
      · rw [hremove] at hcall
        obtain ⟨-, rfl⟩ := Prod.mk.inj (Except.ok.inj hcall)
        have hmemb : w.linkMemb = u.linkMemb.free l := congrArg ScheduleView.linkMemb hview
        rw [hmemb]
        exact ⟨hidle, hu.2.trans numfree_le_free⟩
    exact removeLinksLoop_invariant hstep ⟨hs.idle, le_rfl⟩ hloop
  refine ⟨freeSlotframe t sf, tschScheduleRemoveSlotframe_idle hloop ht.ready.idle, hlinks.2, ?_⟩
  calc s.slotframeMemb.numfree = t.slotframeMemb.numfree := by
        unfold numfree
        rw [hkept.num, hkept.count]
    _ ≤ (t.slotframeMemb.free sf).numfree := numfree_le_free

theorem recreate_placed (hs : ScheduleReady s) (hsize : size ≠ 0)
    (hroom : 0 < s.slotframeMemb.numfree) : ∃ removed sf u t,
      tschScheduleRemoveSlotframe s (tschScheduleGetSlotframeByHandle s handle) = .ok (removed, u) ∧
      tschScheduleAddSlotframe u handle size = .ok (some sf, t) ∧
      t.schedule.Places handle size sf ∧ s.linkMemb.numfree ≤ t.linkMemb.numfree ∧
      s.slotframeMemb.numfree ≤ t.slotframeMemb.numfree + 1 := by
  have hadd : ∀ u : Mac, ScheduleReady u → (∀ size, ¬ u.schedule.HasSlotframe handle size) →
      0 < u.slotframeMemb.numfree → ∃ sf t,
        tschScheduleAddSlotframe u handle size = .ok (some sf, t) ∧
        t.schedule.Places handle size sf ∧ t.linkMemb = u.linkMemb ∧
        t.slotframeMemb.numfree + 1 = u.slotframeMemb.numfree := by
    intro u hu hnone hfree
    obtain ⟨⟨sf, pool⟩, halloc⟩ := isSome_iff_exists.mp (alloc_isSome_of_numfree hfree)
    have hcall := tschScheduleAddSlotframe_idle hu.idle hsize
      ((tschScheduleGetSlotframeByHandle_eq_none hu).mpr hnone)
    unfold allocSlotframe at hcall
    rw [halloc] at hcall
    have htaken := numfree_alloc halloc
    have hplaces := (tschScheduleAddSlotframe_handleChanged hu hnone hcall).2 sf rfl
    exact ⟨sf, _, hcall, hplaces, rfl, htaken⟩
  cases hfound : tschScheduleGetSlotframeByHandle s handle with
  | none =>
    obtain ⟨sf, t, hcall, hplaces, hlinks, hcount⟩ :=
      hadd s hs ((tschScheduleGetSlotframeByHandle_eq_none hs).mp hfound) hroom
    exact ⟨false, sf, s, t, rfl, hcall, hplaces, hlinks ▸ le_rfl, hcount.ge⟩
  | some sf =>
    obtain ⟨hsf, rfl⟩ := handle_of_found hfound
    obtain ⟨u, hremove, hlinks, hslotframes⟩ := tschScheduleRemoveSlotframe_room hs hsf
    have hremoved := tschScheduleRemoveSlotframe_handleChanged hs hsf hremove
    obtain ⟨x, t, hcall, hplaces, hsame, hcount⟩ :=
      hadd u hremoved.ready (fun size hsize ↦ hremoved.sizes size hsize) (by omega)
    exact ⟨true, x, u, t, hremove, hcall, hplaces, hsame ▸ hlinks, by omega⟩

end Room

theorem tschQueueUpdateTimeSource_view {s : Mac} (hs : Idle s) (newAddr : Option Linkaddr) :
    ∃ updated t, tschQueueUpdateTimeSource s newAddr = .ok (updated, t) ∧ Idle t ∧
      t.schedule = s.schedule := by
  have hswitch : ∀ (u : Mac) (new old : Option ℕ), Idle u →
      Idle (switchTimeSource u new old) ∧ (switchTimeSource u new old).schedule = u.schedule := by
    intro u new old hu
    unfold switchTimeSource
    split
    · exact ⟨hu, rfl⟩
    · cases new <;> cases old <;> exact ⟨hu, rfl⟩
  unfold tschQueueUpdateTimeSource
  split
  · exact ⟨false, s, rfl, hs, rfl⟩
  · cases newAddr with
    | none => exact ⟨true, _, rfl, hswitch s none _ hs⟩
    | some addr =>
      dsimp only
      rw [tschQueueAddNbr_idle hs]
      cases hnbr : tschQueueGetNbr s addr with
      | some n => exact ⟨true, _, rfl, hswitch s (some n) _ hs⟩
      | none =>
        have hidle := idle_allocNeighbor hs addr
        have hview := allocNeighbor_view s addr
        rcases halloc : allocNeighbor s addr with ⟨_ | n, t⟩
        · rw [halloc] at hidle hview
          exact ⟨false, t, rfl, hidle, hview⟩
        · rw [halloc] at hidle hview
          obtain ⟨hidle', hview'⟩ := hswitch t (some n) (tschQueueGetTimeSource s) hidle
          exact ⟨true, _, rfl, hidle', hview'.trans hview⟩

end ContikiMaster.Tsch
