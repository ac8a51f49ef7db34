import ContikiMaster.Routing.GeneratedArrays
import ContikiMaster.Routing.LinkInstallation
import ContikiMaster.Scheduler.CollectionSlots
import ContikiMaster.Scheduler.PlacedCells
import Mathlib.Data.List.GetD

/-!
# The links of a generated schedule

The generator sorts the links of a node by neighbor and timeslot and writes down where the neighbor
changes. `add_links` installs every link towards its neighbor, except for the channels that TSCH
does not have. The links of the two nodes of a hop are in one cell.
-/

namespace ContikiMaster.Routing

open Sys Tsch Lib Scheduler List Option

/-- The links of a node, each with the neighbor that `sorted_list_of_links` assigns to it. -/
def assignedLinks (args : GenerateArgs) (s : Schedule) (nodeId : ℕ) : List (ScheduledLink × ℕ) :=
  (sortedListOfLinks s nodeId (getNodeSchedule args s nodeId)).toOption.getD []

/-- A link of a flow in a cell of the slotframes, as the fields of `scheduled_link_t` hold it. -/
structure ScheduledLink.InCell (link : ScheduledLink) (flowNumber timeslot channel : ℕ) : Prop where
  slotframeHandle : link.slotframeHandle = flowNumber
  timeslot : link.timeslot = timeslot % 65536
  channelOffset : link.channelOffset = channel % 65536

section Generated

variable {args : GenerateArgs} {s : Schedule} {file : GeneratedFile} {nodeId : ℕ} {cell : Cell}
  {link : ScheduledLink × ℕ}

theorem mem_getNodeSchedule : cell ∈ getNodeSchedule args s nodeId ↔ nodeId ∈ args.nodeIds ∧
    nodeId ∈ cell.participants ∧ ∃ timeslot < s.length, ∃ channel < s.numChannels,
      s.schedule channel timeslot = some cell := by
  unfold getNodeSchedule
  constructor
  · intro hcell
    obtain ⟨timeslot, hslot, hcell⟩ := mem_flatMap.mp hcell
    obtain ⟨channel, hchannel, hcell⟩ := mem_flatMap.mp hcell
    split at hcell
    · cases hcell
    · rename_i other hentry
      obtain ⟨participant, hparticipant, rfl⟩ := mem_map.mp hcell
      obtain ⟨hmem, hnode⟩ := mem_filter.mp hparticipant
      rw [Bool.and_eq_true, beq_iff_eq, decide_eq_true_eq] at hnode
      obtain ⟨rfl, hnode⟩ := hnode
      exact ⟨hnode, hmem, timeslot, mem_range.mp hslot, channel, mem_range.mp hchannel, hentry⟩
  · intro hcell
    obtain ⟨hnode, hmem, timeslot, hslot, channel, hchannel, hentry⟩ := hcell
    refine mem_flatMap.mpr ⟨timeslot, mem_range.mpr hslot, ?_⟩
    refine mem_flatMap.mpr ⟨channel, mem_range.mpr hchannel, ?_⟩
    rw [hentry]
    refine mem_map.mpr ⟨nodeId, mem_filter.mpr ⟨hmem, ?_⟩, rfl⟩
    rw [Bool.and_eq_true, beq_iff_eq, decide_eq_true_eq]
    exact ⟨rfl, hnode⟩

theorem getNodeSchedule_of_notMem (hnode : nodeId ∉ args.nodeIds) :
    getNodeSchedule args s nodeId = [] := by
  rw [eq_nil_iff_forall_not_mem]
  exact fun cell hcell ↦ hnode (mem_getNodeSchedule.mp hcell).1

theorem sortedListOfLinks_eq_ok (hgenerate : generate args s = .ok file) (nodeId : ℕ) :
    sortedListOfLinks s nodeId (getNodeSchedule args s nodeId) =
      .ok (assignedLinks args s nodeId) := by
  have hok : ∃ links, sortedListOfLinks s nodeId (getNodeSchedule args s nodeId) = .ok links := by
    by_cases hcells : getNodeSchedule args s nodeId = []
    · rw [hcells]
      exact ⟨[], rfl⟩
    · have hnode : nodeId ∈ args.nodeIds := by
        by_contra hnode
        exact hcells (getNodeSchedule_of_notMem hnode)
      obtain ⟨part, hpart⟩ := (generate_spec hgenerate).1 nodeId hnode
      unfold generateNodePart at hpart
      rw [if_neg hcells] at hpart
      obtain ⟨links, hlinks, -⟩ := bind_eq_ok hpart
      exact ⟨links, hlinks⟩
  obtain ⟨links, hlinks⟩ := hok
  unfold assignedLinks
  rw [hlinks]
  rfl

theorem neighborChanges_eq {linkIndex : ℕ} {lastNeighbor : Option ℕ}
    {links : List (ScheduledLink × ℕ)} : neighborChanges linkIndex lastNeighbor links =
      changesFrom linkIndex lastNeighbor (links.map Prod.snd) := by
  induction links generalizing linkIndex lastNeighbor with
  | nil => rfl
  | cons link links ih =>
    unfold neighborChanges
    rw [ih]
    rfl

theorem nodePart_links (hgenerate : generate args s = .ok file) (nodeId : ℕ) :
    (file.schedule.nodePart nodeId).links = (assignedLinks args s nodeId).map Prod.fst ∧
      (file.schedule.nodePart nodeId).changes =
        changesFrom 0 none ((assignedLinks args s nodeId).map Prod.snd) := by
  obtain ⟨-, -, -, hpart, -⟩ := generate_spec hgenerate
  have hlinks := sortedListOfLinks_eq_ok hgenerate nodeId
  rw [hpart]
  unfold nodePartOf generateNodePart
  dsimp only
  by_cases hcells : getNodeSchedule args s nodeId = []
  · rw [hcells] at hlinks
    rw [if_pos hcells, ← Except.ok.inj hlinks]
    exact ⟨rfl, rfl⟩
  · rw [if_neg hcells, hlinks, ← neighborChanges_eq]
    exact ⟨rfl, rfl⟩

theorem mem_assignedLinks (hgenerate : generate args s = .ok file) :
    link ∈ assignedLinks args s nodeId ↔
      ∃ cell ∈ getNodeSchedule args s nodeId, linkOf s nodeId cell = .ok link := by
  have hlinks := sortedListOfLinks_eq_ok hgenerate nodeId
  unfold sortedListOfLinks at hlinks
  obtain ⟨links, hmap, hsorted⟩ := bind_eq_ok hlinks
  have hall := mapM_forall₂ hmap
  rw [← Except.ok.inj hsorted, mem_insertionSort]
  constructor
  · intro hlink
    exact forall₂_exists_right hall.flip hlink
  · intro hcell
    obtain ⟨cell, hcell, hlink⟩ := hcell
    obtain ⟨other, hother, hsame⟩ := forall₂_exists_right hall hcell
    rw [hlink] at hsame
    rw [Except.ok.inj hsame]
    exact hother

variable {createArgs : CreateArgs} {fuel : ℕ} {flows : List Flow}

theorem linkOf_inCell {timeslot channel : ℕ} (hplace : s.attributes cell = some (timeslot, channel))
    (hlink : linkOf s nodeId cell = .ok link) : link.1.InCell cell.flowNumber timeslot channel := by
  have hslot : asUint16 (cellTimeslot s cell) = timeslot % 65536 := by
    unfold asUint16 cellTimeslot
    rw [hplace]
    simp only [elim_some]
    omega
  have hchannel : asUint16 (cellChannel s cell) = channel % 65536 := by
    unfold asUint16 cellChannel
    rw [hplace]
    simp only [elim_some]
    omega
  unfold linkOf at hlink
  rw [hslot, hchannel] at hlink
  dsimp only at hlink
  split at hlink
  · cases hlink
  · split at hlink
    · rw [← Except.ok.inj hlink]
      exact ⟨rfl, rfl, rfl⟩
    · split at hlink
      · rw [← Except.ok.inj hlink]
        exact ⟨rfl, rfl, rfl⟩
      · rw [← Except.ok.inj hlink]
        exact ⟨rfl, rfl, rfl⟩

section

variable (hcreate : create createArgs fuel flows = .ok s) (hgenerate : generate args s = .ok file)

include hcreate hgenerate

theorem place_of_mem_assignedLinks (hlink : link ∈ assignedLinks args s nodeId) :
    ∃ cell timeslot channel, linkOf s nodeId cell = .ok link ∧ nodeId ∈ cell.participants ∧
      s.schedule channel timeslot = some cell ∧ link.1.InCell cell.flowNumber timeslot channel := by
  obtain ⟨cell, hcell, hlinkOf⟩ := (mem_assignedLinks hgenerate).mp hlink
  obtain ⟨-, hmem, slot, -, row, -, hentry⟩ := mem_getNodeSchedule.mp hcell
  obtain ⟨timeslot, channel, hplace, hentry'⟩ := attributes_of_create hcreate hentry
  exact ⟨cell, timeslot, channel, hlinkOf, hmem, hentry', linkOf_inCell hplace hlinkOf⟩

theorem timeslot_lt_of_mem_assignedLinks (hlink : link ∈ assignedLinks args s nodeId) :
    link.1.timeslot < s.length := by
  obtain ⟨cell, timeslot, channel, -, -, hentry, hcell⟩ :=
    place_of_mem_assignedLinks hcreate hgenerate hlink
  obtain ⟨-, hslot, -⟩ := entry_of_create hcreate hentry
  rw [hcell.timeslot]
  exact (Nat.mod_le _ _).trans_lt hslot

end

end Generated

end ContikiMaster.Routing
