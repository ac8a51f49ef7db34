import ContikiMaster.Tsch.PacketMoves

/-!
# What an installed link looks like

A call that returns a link or a slotframe has written the record that was asked
for, whatever the state before. Between slots, with a block left in the pool, the
call returns one.
-/

namespace ContikiMaster.Tsch

open Sys Lib

/-- A link of a slotframe in some cell, and the size of the slotframe. -/
structure LinkAt (s : Mac) (sf l slot channel size : ℕ) : Prop where
  mem : l ∈ (s.slotframe sf).linksList
  timeslot : (s.link l).timeslot = slot
  channelOffset : (s.link l).channelOffset = channel
  size : (s.slotframe sf).size = size

section Records

variable {s t : Mac} {slotframe : Option ℕ} {sf l handle size : ℕ} {request : LinkRequest}

theorem schedule_moves : CountMoves fun s t ↦
    t.linkMemb = s.linkMemb ∧ t.slotframeMemb = s.slotframeMemb where
  refl _ := ⟨rfl, rfl⟩
  trans hst htu := ⟨htu.1.trans hst.1, htu.2.trans hst.2⟩
  create _ halloc := by
    unfold allocNeighbor at halloc
    split at halloc <;> cases halloc <;> exact ⟨rfl, rfl⟩
  adjust _ _ _ _ := ⟨rfl, rfl⟩

theorem tschScheduleAddLink_linkAt (hcall : tschScheduleAddLink s slotframe request = .ok (some l, t)) :
    ∃ sf, slotframe = some sf ∧ request.timeslot < (s.slotframe sf).size ∧
      LinkAt t sf l request.timeslot request.channelOffset (s.slotframe sf).size ∧
      (t.link l).linkOptions = request.linkOptions := by
  rcases tschScheduleAddLink_cases hcall with
    ⟨hnone, -⟩ | ⟨sf, removed, u, rfl, hslot, hremove, ⟨hnone, -⟩ | ⟨i, w, halloc, hi, hcount⟩⟩
  · cases hnone
  · cases hnone
  obtain rfl := Option.some.inj hi
  have hsize := (keepsSlotframes_moves.removeLink hremove).size sf
  obtain ⟨hlinks, hslotframes⟩ := schedule_moves.count hcount
  obtain ⟨hrecord, hlisted⟩ := allocLink_some halloc
  have hlink : t.link l = newLink u sf request := by
    rw [Mac.link, hlinks]
    exact hrecord
  have hsf : t.slotframe sf =
      { u.slotframe sf with linksList := listAdd (u.slotframe sf).linksList l } := by
    rw [Mac.slotframe, hslotframes]
    exact hlisted
  refine ⟨sf, rfl, hslot, ⟨?_, ?_, ?_, ?_⟩, ?_⟩
  · rw [hsf]
    exact mem_listAdd.mpr (.inr rfl)
  · rw [hlink]
    rfl
  · rw [hlink]
    rfl
  · rw [hsf]
    exact hsize
  · rw [hlink]
    rfl

theorem tschScheduleRemoveLinkByTimeslot_empty (hempty : (s.slotframe sf).linksList = [])
    (timeslot : ℕ) : tschScheduleRemoveLinkByTimeslot s sf timeslot = .ok (false, s) := by
  have hnone : tschScheduleGetLinkByTimeslot s sf timeslot = none := by
    unfold tschScheduleGetLinkByTimeslot
    rw [hempty]
    split <;> rfl
  unfold tschScheduleRemoveLinkByTimeslot
  rw [hnone]
  rfl

theorem tschScheduleAddLink_of_empty {link : Option ℕ} (hempty : (s.slotframe sf).linksList = [])
    (hcall : tschScheduleAddLink s (some sf) request = .ok (link, t))
    (hl : l ∈ (t.slotframe sf).linksList) : link = some l := by
  have habsent : ∀ {u : Mac}, u.slotframeMemb = s.slotframeMemb →
      l ∉ (u.slotframe sf).linksList := by
    intro u hsame hmem
    change l ∈ (u.slotframeMemb.mem sf).linksList at hmem
    rw [hsame] at hmem
    change l ∈ (s.slotframe sf).linksList at hmem
    rw [hempty] at hmem
    cases hmem
  rcases tschScheduleAddLink_cases hcall with
    ⟨-, rfl⟩ | ⟨x, removed, u, hx, -, hremove, hrest⟩
  · exact absurd hl (habsent rfl)
  obtain rfl := Option.some.inj hx
  rw [tschScheduleRemoveLinkByTimeslot_empty hempty] at hremove
  cases hremove
  rcases hrest with ⟨-, rfl⟩ | ⟨i, w, halloc, rfl, hcount⟩
  · exact absurd hl (habsent rfl)
  have hsf : t.slotframe sf = { s.slotframe sf with
      linksList := listAdd (s.slotframe sf).linksList i } := by
    rw [Mac.slotframe, (schedule_moves.count hcount).2]
    exact (allocLink_some halloc).2
  rw [hsf, mem_listAdd, hempty] at hl
  rcases hl with hnil | rfl
  · cases hnil
  · rfl

theorem tschScheduleAddSlotframe_record
    (hcall : tschScheduleAddSlotframe s handle size = .ok (some sf, t)) :
    (t.slotframe sf).linksList = [] ∧ (t.slotframe sf).size = size := by
  unfold tschScheduleAddSlotframe at hcall
  split at hcall
  · cases hcall
  split at hcall
  · cases hcall
  obtain ⟨⟨got, u⟩, hlock, hrest⟩ := bind_eq_ok hcall
  rcases tschGetLock_cases hlock with ⟨rfl, -, rfl⟩ | ⟨rfl, rfl⟩
  · unfold allocSlotframe at hrest
    cases halloc : s.slotframeMemb.alloc with
    | none =>
      simp only [if_pos, halloc] at hrest
      cases hrest
    | some result =>
      obtain ⟨i, pool⟩ := result
      simp only [if_pos, halloc] at hrest
      cases hrest
      have hsf : (tschReleaseLock { { s with tschLocked := true } with
          slotframeMemb := pool.store sf { handle := handle, size := size, linksList := [] }
          slotframeList := listAdd s.slotframeList sf }).slotframe sf =
            { handle := handle, size := size, linksList := [] } := Memb.store_mem_self
      exact ⟨congrArg TschSlotframe.linksList hsf, congrArg TschSlotframe.size hsf⟩
  · cases hrest

end Records

section Room

variable {s t : Mac} {sf : ℕ} {request : LinkRequest}

theorem countTxLink_idle_ok (hs : Idle s) (options delta : ℕ) (addr : Linkaddr) :
    ∃ t, countTxLink s options addr delta = .ok t := by
  by_cases htx : linkOptionTx options = true
  · cases hnbr : tschQueueGetNbr s addr with
    | some n => exact ⟨_, countTxLink_found hs htx hnbr⟩
    | none =>
      rcases halloc : allocNeighbor s addr with ⟨_ | n, t⟩
      · refine ⟨t, ?_⟩
        unfold countTxLink
        rw [if_pos htx, tschQueueAddNbr_idle hs, hnbr]
        simp only [halloc]
        rfl
      · exact ⟨_, countTxLink_created hs htx hnbr halloc⟩
  · exact ⟨s, countTxLink_skipped htx⟩

theorem tschScheduleAddLink_isSome (hs : Idle s) (hslot : request.timeslot < (s.slotframe sf).size)
    (hchannel : request.channelOffset ≤ 15)
    (hfree : tschScheduleGetLinkByTimeslot s sf request.timeslot = none)
    (hroom : s.linkMemb.alloc.isSome = true) :
    ∃ l t, tschScheduleAddLink s (some sf) request = .ok (some l, t) := by
  have hremove : tschScheduleRemoveLinkByTimeslot s sf request.timeslot = .ok (false, s) := by
    unfold tschScheduleRemoveLinkByTimeslot
    rw [hfree]
    rfl
  rw [tschScheduleAddLink_idle hslot hchannel hremove hs]
  obtain ⟨⟨i, pool⟩, halloc⟩ := Option.isSome_iff_exists.mp hroom
  have hidle := idle_allocLink hs sf request
  unfold installLink
  rcases hresult : allocLink s sf request with ⟨_ | l, t⟩
  · unfold allocLink at hresult
    rw [halloc] at hresult
    cases hresult
  · rw [hresult] at hidle
    obtain ⟨u, hu⟩ := countTxLink_idle_ok hidle request.linkOptions 1
      (flowAddr (t.link l).slotframeHandle)
    refine ⟨l, u, ?_⟩
    simp only [hu]
    rfl

end Room

end ContikiMaster.Tsch
