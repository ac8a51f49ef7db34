import ContikiMaster.Lib.RunLength
import ContikiMaster.Routing.Install
import ContikiMaster.Tsch.LinkTable

/-!
# Installing the links of a node

The schedule file has the links of a node without their neighbors, and beside them the indices at
which the neighbor changes. What `add_links` asks TSCH for is what was written for each link, and
TSCH installs the links whose channel offset it knows, given room.
-/

namespace ContikiMaster.Routing

open Sys Tsch Lib Function List Option

/-- The body of the loop of `add_links`, after the destination. -/
def addLink (n : Node) (link : ScheduledLink) : Except Fault Node := do
  let (_, mac) ← tschScheduleAddLink n.mac
    (tschScheduleGetSlotframeByHandle n.mac link.slotframeHandle)
    ⟨link.sendReceive, .normal, n.destination, link.timeslot, link.channelOffset⟩
  return { n with mac := mac }

section Decoding

end Decoding

/-- What TSCH is asked for: the destination is the address of the neighbor. -/
def linkRequest (n : Node) (link : ScheduledLink × ℕ) : LinkRequest where
  linkOptions := link.1.sendReceive
  linkType := .normal
  address := update n.destination 0 (link.2 % 256)
  timeslot := link.1.timeslot
  channelOffset := link.1.channelOffset

/-- A link is installed in the slotframe of its flow, with the address of its neighbor. -/
def Node.HoldsLink (n : Node) (link : ScheduledLink × ℕ) : Prop :=
  ∃ k, n.mac.schedule.HasLink link.1.slotframeHandle k ∧ (linkRequest n link).Fulfilled k

section Installing

variable {length : ℕ} {n m : Node} {link : ScheduledLink × ℕ} {links : List (ScheduledLink × ℕ)}

/-- What one iteration does to the table: the link is written when its channel offset is known, and
the table is left otherwise. -/
structure LinkTried (link : ScheduledLink × ℕ) (n m : Node) : Prop where
  ready : ScheduleReady m.mac
  slotframes : ∀ handle size,
    m.mac.schedule.HasSlotframe handle size ↔ n.mac.schedule.HasSlotframe handle size
  request : ∀ other, linkRequest m other = linkRequest n other
  room : n.mac.linkMemb.numfree ≤ m.mac.linkMemb.numfree + 1
  holds : link.1.channelOffset ≤ 15 → m.HoldsLink link
  others : ∀ handle k, n.mac.schedule.HasLink handle k →
    ¬ (handle = link.1.slotframeHandle ∧ k.timeslot = link.1.timeslot) →
      m.mac.schedule.HasLink handle k

/-- Links in the same timeslot of the same slotframe are the same. -/
def OnePerTimeslot (links : List (ScheduledLink × ℕ)) : Prop :=
  ∀ link ∈ links, ∀ other ∈ links, other.1.slotframeHandle = link.1.slotframeHandle →
    other.1.timeslot = link.1.timeslot → other = link

structure LinksTried (links : List (ScheduledLink × ℕ)) (n m : Node) : Prop where
  ready : ScheduleReady m.mac
  request : ∀ other, linkRequest m other = linkRequest n other
  holds : ∀ link ∈ links, link.1.channelOffset ≤ 15 → m.HoldsLink link
  others : ∀ handle k, n.mac.schedule.HasLink handle k →
    (∀ link ∈ links, ¬ (handle = link.1.slotframeHandle ∧ k.timeslot = link.1.timeslot)) →
      m.mac.schedule.HasLink handle k

theorem LinkTried.cons {k : Node} (hlink : LinkTried link n m) (hlinks : LinksTried links m k)
    (hone : OnePerTimeslot (link :: links)) : LinksTried (link :: links) n k := by
  refine ⟨hlinks.ready, fun other ↦ (hlinks.request other).trans (hlink.request other),
    fun other hother hchannel ↦ ?_, fun handle j hj hnone ↦ ?_⟩
  · rcases mem_cons.mp hother with rfl | hother
    · by_cases hlater : ∃ later ∈ links, later.1.slotframeHandle = other.1.slotframeHandle ∧
          later.1.timeslot = other.1.timeslot
      · obtain ⟨later, hmem, hhandle, hslot⟩ := hlater
        have hsame := hone other mem_cons_self later (mem_cons_of_mem _ hmem) hhandle hslot
        rw [hsame] at hmem
        exact hlinks.holds other hmem hchannel
      · obtain ⟨j, hj, hfulfilled⟩ := hlink.holds hchannel
        refine ⟨j, hlinks.others _ j hj fun later hmem hplace ↦ hlater ?_, ?_⟩
        · exact ⟨later, hmem, hplace.1.symm, hplace.2.symm.trans hfulfilled.timeslot⟩
        · rw [hlinks.request]
          exact hfulfilled
    · exact hlinks.holds other hother hchannel
  · apply hlinks.others handle j
    · exact hlink.others handle j hj (hnone link mem_cons_self)
    · exact fun later hmem ↦ hnone later (mem_cons_of_mem _ hmem)

theorem Node.HoldsLink.channelOffset_le (hs : ScheduleReady n.mac) (hlink : n.HoldsLink link) :
    link.1.channelOffset ≤ 15 := by
  obtain ⟨k, ⟨sf, hsf, -, l, hl, rfl⟩, hfulfilled⟩ := hlink
  have hle := hs.wf.links.channelOffset_le sf hsf l hl
  rwa [hfulfilled.channelOffset] at hle

end Installing

end ContikiMaster.Routing
