import ContikiMaster.Routing.LinkInstallation
import ContikiMaster.Routing.Rendezvous
import ContikiMaster.Tsch.TableChanges

/-!
# What a schedule leaves in the table of links

A schedule file creates the slotframes of its flows anew and fills them with the links of the node;
the discovery slotframe has a link to receive and one to the best node. Whatever room there is, no
other links get into these slotframes but that of the beacons.
-/

namespace ContikiMaster.Routing

open Sys Tsch Lib Function List

/-- The pointers of `sf` are `NULL` or lead to the slotframe with their index for its handle. -/
def LivePointers (mac : Mac) (sf : ℕ → Option ℕ) : Prop := ∀ i, LiveUnder mac i (sf i)

/-- Between slots, with a well-formed schedule and no stale pointer to a slotframe. -/
structure Installable (n : Node) : Prop where
  ready : ScheduleReady n.mac
  pointers : LivePointers n.mac n.sf

/-- The links that `add_links` goes through. -/
def NodePart.tableLinks (part : NodePart) : List ScheduledLink :=
  part.links.take (part.links.length % 256)

/-- A link of the table is the one of a scheduled link. -/
structure ScheduledLink.WrittenAs (link : ScheduledLink) (handle : ℕ) (k : TschLink) : Prop where
  slotframeHandle : link.slotframeHandle = handle
  timeslot : link.timeslot = k.timeslot
  channelOffset : link.channelOffset = k.channelOffset

/-! ## The flows of a file -/

section Flows

variable {n m : Node} {s t : Mac} {handle size : ℕ} {slotframe : Option ℕ}

theorem LivePointers.writes {sf : ℕ → Option ℕ} {new : TschLink → Prop} (hlive : LivePointers s sf)
    (hwrites : WritesUnder handle new s t) : LivePointers t sf :=
  fun i ↦ (hlive i).of_places fun _ _ hplaces ↦ hwrites.kept.places.mpr hplaces

theorem recreateSlotframe_table (hn : Installable n) (hcall : recreateSlotframe n handle size = .ok m) :
    Installable m ∧ HandleChanged handle (· = size) n.mac m.mac := by
  obtain ⟨⟨removed, u⟩, hremove, hrest⟩ := bind_eq_ok hcall
  obtain ⟨⟨sf, mac⟩, hadd, hdone⟩ := bind_eq_ok hrest
  cases hdone
  obtain ⟨hchanged, hlive⟩ := handleChanged_of_recreate hn.ready hremove hadd
  refine ⟨⟨hchanged.ready, fun i ↦ ?_⟩, hchanged⟩
  change LiveUnder mac i (update n.sf handle sf i)
  by_cases hi : i = handle
  · rw [hi, update_self]
    exact hlive
  · rw [update_of_ne hi]
    exact (hn.pointers i).of_places fun size sf hplaces ↦
      (hchanged.slotframes i size sf hi).mpr hplaces

/-- The slotframes of some flows are new and empty. -/
structure FlowsCleared (n : Node) (done : List ScheduledFlow) (m : Node) : Prop where
  installable : Installable m
  empty : ∀ flow ∈ done, ∀ k, ¬ m.mac.schedule.HasLink flow.flowNumber k
  sizes : ∀ flow ∈ done, ∀ size, m.mac.schedule.HasSlotframe flow.flowNumber size →
    size = n.scheduleLength
  frame : ∃ sf mac, m = { n with sf := sf, mac := mac }

theorem FlowsCleared.step {done : List ScheduledFlow} {k : Node} {flow : ScheduledFlow}
    (hdone : FlowsCleared n done m)
    (hcall : recreateSlotframe m flow.flowNumber m.scheduleLength = .ok k) :
    FlowsCleared n (done ++ [flow]) k := by
  obtain ⟨hk, hchanged⟩ := recreateSlotframe_table hdone.installable hcall
  obtain ⟨sf, mac, rfl, -⟩ := recreateSlotframe_frame hcall
  obtain ⟨sf', mac', rfl⟩ := hdone.frame
  have hold : ∀ other ∈ done ++ [flow], other.flowNumber ≠ flow.flowNumber → other ∈ done := by
    intro other hother hne
    rcases mem_append.mp hother with hold | hnew
    · exact hold
    · exact absurd (congrArg ScheduledFlow.flowNumber (mem_singleton.mp hnew)) hne
  refine ⟨hk, fun other hother j ↦ ?_, fun other hother size hsize ↦ ?_, _, mac, rfl⟩
  · by_cases hsame : other.flowNumber = flow.flowNumber
    · rw [hsame]
      exact hchanged.empty j
    · rw [hchanged.others _ j hsame]
      exact hdone.empty other (hold other hother hsame) j
  · by_cases hsame : other.flowNumber = flow.flowNumber
    · rw [hsame] at hsize
      exact hchanged.sizes size hsize
    · obtain ⟨x, hx⟩ := hsize
      exact hdone.sizes other (hold other hother hsame) size
        ⟨x, (hchanged.slotframes _ size x hsame).mp hx⟩

/-- A step that creates and removes no slotframe, and after which every link was there or is new. -/
structure NodeWrites (new : ℕ → TschLink → Prop) (n m : Node) : Prop where
  installable : Installable m
  slotframes : ∀ handle size sf,
    m.mac.schedule.Places handle size sf ↔ n.mac.schedule.Places handle size sf
  links : ∀ handle k, m.mac.schedule.HasLink handle k →
    n.mac.schedule.HasLink handle k ∨ new handle k
  sf : m.sf = n.sf
  nodeId : m.nodeId = n.nodeId
  deploymentNodeCount : m.deploymentNodeCount = n.deploymentNodeCount

namespace NodeWrites

variable {k : Node} {new more : ℕ → TschLink → Prop}

theorem refl (hn : Installable n) : NodeWrites new n n :=
  ⟨hn, fun _ _ _ ↦ Iff.rfl, fun _ _ hk ↦ .inl hk, rfl, rfl, rfl⟩

theorem trans (hnm : NodeWrites new n m) (hmk : NodeWrites more m k) :
    NodeWrites (fun handle j ↦ new handle j ∨ more handle j) n k := by
  refine ⟨hmk.installable, fun handle size sf ↦ ?_, fun handle j hj ↦ ?_, hmk.sf.trans hnm.sf,
    hmk.nodeId.trans hnm.nodeId, hmk.deploymentNodeCount.trans hnm.deploymentNodeCount⟩
  · exact (hmk.slotframes handle size sf).trans (hnm.slotframes handle size sf)
  · rcases hmk.links handle j hj with hold | hnew
    · exact (hnm.links handle j hold).imp_right .inl
    · exact .inr (.inr hnew)

theorem mono (hnm : NodeWrites new n m) (hmore : ∀ handle j, new handle j → more handle j) :
    NodeWrites more n m :=
  { hnm with links := fun handle j hj ↦ (hnm.links handle j hj).imp_right (hmore handle j) }

theorem of_writes {written : TschLink → Prop} (hn : Installable n)
    (hwrites : WritesUnder handle written n.mac m.mac) (hsf : m.sf = n.sf)
    (hnode : m.nodeId = n.nodeId) (hcount : m.deploymentNodeCount = n.deploymentNodeCount) :
    NodeWrites (fun other k ↦ other = handle ∧ written k) n m := by
  refine ⟨⟨hwrites.ready, ?_⟩, fun other size sf ↦ hwrites.kept.places, fun other j hj ↦ ?_, hsf,
    hnode, hcount⟩
  · rw [hsf]
    exact hn.pointers.writes hwrites
  · by_cases hother : other = handle
    · subst hother
      exact (hwrites.links j hj).imp_right fun hnew ↦ ⟨rfl, hnew⟩
    · exact .inl ((hwrites.others other j hother).mp hj)

theorem of_same (hn : Installable n) (hidle : Idle m.mac)
    (hview : m.mac.schedule = n.mac.schedule) (hsf : m.sf = n.sf) (hnode : m.nodeId = n.nodeId)
    (hcount : m.deploymentNodeCount = n.deploymentNodeCount) : NodeWrites new n m := by
  refine ⟨⟨⟨hidle, ?_⟩, fun i sf hi ↦ ?_⟩, fun handle size sf ↦ ?_, fun handle j hj ↦ ?_, hsf, hnode,
    hcount⟩
  · rw [hview]
    exact hn.ready.wf
  · rw [hsf] at hi
    rw [hview]
    exact hn.pointers i sf hi
  · rw [hview]
  · rw [hview] at hj
    exact .inl hj

end NodeWrites

/-- A link under a handle comes from a list of scheduled links. -/
def FromLinks (links : List ScheduledLink) (handle : ℕ) (k : TschLink) : Prop :=
  ∃ link ∈ links, link.WrittenAs handle k

theorem addLinks_writes {links : List ScheduledLink} :
    ∀ {linkIdx : ℕ} {changes : List (ℕ × ℕ)} {n m : Node}, Installable n →
      addLinks linkIdx links changes n = .ok m → NodeWrites (FromLinks links) n m := by
  induction links with
  | nil =>
    intro linkIdx changes n m hn hcall
    cases hcall
    exact .refl hn
  | cons link links ih =>
    intro linkIdx changes n m hn hcall
    -- the destination decides on no more than the address
    have hstep : ∀ destination rest, (tschScheduleAddLink n.mac
          (tschScheduleGetSlotframeByHandle n.mac link.slotframeHandle)
          ⟨link.sendReceive, .normal, destination, link.timeslot, link.channelOffset⟩ >>= fun x ↦
            addLinks (linkIdx + 1) links rest
              { n with destination := destination, mac := x.2 }) = .ok m →
        NodeWrites (FromLinks (link :: links)) n m := by
      intro destination rest hcall
      obtain ⟨⟨l, mac⟩, hadd, hrest⟩ := bind_eq_ok hcall
      have hwrites := tschScheduleAddLink_writesUnder hn.ready (liveUnder_found rfl) hadd
      have hadded : NodeWrites _ n { n with destination := destination, mac := mac } :=
        .of_writes hn hwrites rfl rfl rfl
      refine (hadded.trans (ih hadded.installable hrest)).mono fun handle k hnew ↦ ?_
      rcases hnew with ⟨rfl, hnew⟩ | ⟨other, hother, hwritten⟩
      · exact ⟨link, mem_cons_self, rfl, hnew.timeslot.symm, hnew.channelOffset.symm⟩
      · exact ⟨other, mem_cons_of_mem _ hother, hwritten⟩
    unfold addLinks at hcall
    dsimp only at hcall
    split at hcall
    · exact hstep _ _ hcall
    · exact hstep n.destination _ hcall

theorem runNodePart_writes {part : NodePart} (hn : Installable n)
    (hcall : runNodePart n part = .ok m) : NodeWrites (FromLinks part.tableLinks) n m := by
  unfold runNodePart at hcall
  obtain ⟨k, hlinks, hrest⟩ := bind_eq_ok hcall
  have hk : NodeWrites (FromLinks part.tableLinks) n k := by
    have hstart : ∃ start, addLinksCall part start = .ok k ∧ start.mac = n.mac ∧ start.sf = n.sf ∧
        start.nodeId = n.nodeId ∧ start.deploymentNodeCount = n.deploymentNodeCount := by
      refine ⟨_, hlinks, ?_⟩
      cases part.own with
      | none => exact ⟨rfl, rfl, rfl, rfl⟩
      | some own => exact ⟨rfl, rfl, rfl, rfl⟩
    obtain ⟨start, hadd, hmac, hsf, hnode, hcount⟩ := hstart
    have hsame : NodeWrites (FromLinks part.tableLinks) n start :=
      .of_same hn (hmac ▸ hn.ready.idle) (congrArg Mac.schedule hmac) hsf hnode hcount
    have hadded : NodeWrites (FromLinks part.tableLinks) start k :=
      addLinks_writes hsame.installable hadd
    exact (hsame.trans hadded).mono fun _ _ hnew ↦ or_self_iff.mp hnew
  split at hrest
  · cases hrest
    exact hk
  · rename_i id htime
    obtain ⟨updated, mac, hupdate, hidle, hview⟩ := tschQueueUpdateTimeSource_view
      hk.installable.ready.idle (some (setDestinationLinkAddr k id).destination)
    change (tschQueueUpdateTimeSource k.mac _ >>= _) = _ at hrest
    rw [hupdate] at hrest
    cases hrest
    have hsame : NodeWrites (FromLinks part.tableLinks) k
        { setDestinationLinkAddr k id with mac := mac } :=
      .of_same hk.installable hidle hview rfl rfl rfl
    exact (hk.trans hsame).mono fun _ _ hnew ↦ or_self_iff.mp hnew

structure FileTable (schedule : GeneratedSchedule) (n m : Node) : Prop where
  installable : Installable m
  links : ∀ flow ∈ schedule.flows, ∀ k, m.mac.schedule.HasLink flow.flowNumber k →
    FromLinks (schedule.nodePart n.nodeId).tableLinks flow.flowNumber k ∨ k.linkType = .advertising
  sizes : ∀ flow ∈ schedule.flows, ∀ size, m.mac.schedule.HasSlotframe flow.flowNumber size →
    size = schedule.scheduleLength % 65536
  nodeId : m.nodeId = n.nodeId
  deploymentNodeCount : m.deploymentNodeCount = n.deploymentNodeCount
  maxSlotFrameUsed : m.maxSlotFrameUsed = schedule.maxSlotFrameUsed % 256

theorem generatedSchedule_table {schedule : GeneratedSchedule} (hn : Installable n)
    (hcall : generatedSchedule schedule n = .ok m) : FileTable schedule n m := by
  obtain ⟨u, hflows, hrest⟩ := bind_eq_ok hcall
  obtain ⟨w, hpart, hrest⟩ := bind_eq_ok hrest
  obtain ⟨⟨l, mac⟩, hbeacon, hmatrix⟩ := bind_eq_ok hrest
  set start : Node := { n with scheduleLength := schedule.scheduleLength % 65536 } with hstart
  have hu : FlowsCleared start schedule.flows u := by
    refine foldlM_invariant_done (fun done flow rest hitems a b ha hstep ↦ ha.step hstep) hflows ?_
    exact ⟨⟨hn.ready, hn.pointers⟩, fun _ hflow ↦ absurd hflow not_mem_nil,
      fun _ hflow ↦ absurd hflow not_mem_nil, n.sf, n.mac, rfl⟩
  obtain ⟨hinstallable, hempty, hsizes, sf, mac', hframe⟩ := hu
  have hnode : u.nodeId = n.nodeId := by rw [hframe]
  have hcount : u.deploymentNodeCount = n.deploymentNodeCount := by rw [hframe]
  have hset : Installable (setFlowTables u schedule) := ⟨hinstallable.ready, hinstallable.pointers⟩
  have htables : NodeWrites (FromLinks (schedule.nodePart u.nodeId).tableLinks)
      (setFlowTables u schedule) w := runNodePart_writes hset hpart
  have hadded : NodeWrites (fun _ k ↦ k.linkType = .advertising) w { w with mac := mac } := by
    cases hslot : schedule.beaconSlot with
    | none =>
      rw [hslot] at hbeacon
      cases hbeacon
      exact .refl htables.installable
    | some timeslot =>
      rw [hslot] at hbeacon
      have hwrites := tschScheduleAddLink_writesUnder htables.installable.ready
        (htables.installable.pointers 1) hbeacon
      have hnew : NodeWrites _ w { w with mac := mac } :=
        .of_writes htables.installable hwrites rfl rfl rfl
      exact hnew.mono fun _ _ hk ↦ hk.2.linkType
  have hall := htables.trans hadded
  obtain ⟨matrix, rfl⟩ := copyAvailableSlotMatrix_frame hmatrix
  refine ⟨⟨hall.installable.ready, hall.installable.pointers⟩, fun flow hflow k hk ↦ ?_,
    fun flow hflow size hsize ↦ ?_, hall.nodeId.trans hnode, hall.deploymentNodeCount.trans hcount,
    rfl⟩
  · rw [← hnode]
    exact (hall.links flow.flowNumber k hk).resolve_left (hempty flow hflow k)
  · obtain ⟨x, hx⟩ := hsize
    exact hsizes flow hflow size ⟨x, (hall.slotframes _ size x).mp hx⟩

end Flows

section Discovery

variable {n m k : Node}

/-- A link of the discovery slotframe is the one to the best node or the one to receive, and a slot
that the matrix names is its timeslot. -/
def DiscoveryLink (n : Node) (k : TschLink) : Prop :=
  (k.linkOptions = 1 ∧ (n.matrix n.nodeId 1 ≠ 0 → k.timeslot = n.matrix n.nodeId 1)) ∨
    (k.linkOptions = 2 ∧ (n.matrix n.nodeId 3 ≠ 0 → k.timeslot = n.matrix n.nodeId 3))

theorem discoveryLink_of_best {j : TschLink} (hj : (bestLinkRequest n).Fulfilled j) :
    DiscoveryLink n j := by
  unfold bestLinkRequest at hj
  split at hj
  · exact .inl ⟨hj.linkOptions, fun _ ↦ hj.timeslot⟩
  · rename_i hzero
    exact .inl ⟨hj.linkOptions, fun hne ↦ absurd hne hzero⟩

theorem discoveryLink_of_discovery {j : TschLink} (hj : (discoveryLinkRequest n).Fulfilled j) :
    DiscoveryLink n j := by
  unfold discoveryLinkRequest at hj
  split at hj
  · exact .inr ⟨hj.linkOptions, fun _ ↦ hj.timeslot⟩
  · rename_i hzero
    exact .inr ⟨hj.linkOptions, fun hne ↦ absurd hne hzero⟩

/-- What the discovery schedule leaves: its own slotframe with the two links, and the slotframes of
the other handles as they were. -/
structure DiscoveryTable (n m : Node) : Prop where
  installable : Installable m
  slotframes : ∀ handle size sf, handle ≠ n.maxSlotFrameUsed + 1 →
    (m.mac.schedule.Places handle size sf ↔ n.mac.schedule.Places handle size sf)
  others : ∀ handle j, handle ≠ n.maxSlotFrameUsed + 1 →
    (m.mac.schedule.HasLink handle j ↔ n.mac.schedule.HasLink handle j)
  links : ∀ j, m.mac.schedule.HasLink (n.maxSlotFrameUsed + 1) j → DiscoveryLink n j
  sizes : ∀ size, m.mac.schedule.HasSlotframe (n.maxSlotFrameUsed + 1) size → size = discoverySize
  nodeId : m.nodeId = n.nodeId
  matrix : m.matrix = n.matrix
  maxSlotFrameUsed : m.maxSlotFrameUsed = n.maxSlotFrameUsed

theorem DiscoveryTable.writes {new : TschLink → Prop} {mac : Mac} (hm : DiscoveryTable n m)
    (hwrites : WritesUnder (n.maxSlotFrameUsed + 1) new m.mac mac)
    (hnew : ∀ j, new j → DiscoveryLink n j) (hmac : k.mac = mac) (hsf : k.sf = m.sf)
    (hnode : k.nodeId = m.nodeId) (hmatrix : k.matrix = m.matrix)
    (hused : k.maxSlotFrameUsed = m.maxSlotFrameUsed) : DiscoveryTable n k := by
  subst hmac
  refine ⟨⟨hwrites.ready, ?_⟩, fun handle size sf hhandle ↦ ?_, fun handle j hhandle ↦ ?_,
    fun j hj ↦ ?_, fun size hsize ↦ ?_, hnode.trans hm.nodeId, hmatrix.trans hm.matrix,
    hused.trans hm.maxSlotFrameUsed⟩
  · rw [hsf]
    exact hm.installable.pointers.writes hwrites
  · exact hwrites.kept.places.trans (hm.slotframes handle size sf hhandle)
  · exact (hwrites.others handle j hhandle).trans (hm.others handle j hhandle)
  · rcases hwrites.links j hj with hold | hadded
    · exact hm.links j hold
    · exact hnew j hadded
  · obtain ⟨x, hx⟩ := hsize
    exact hm.sizes size ⟨x, hwrites.kept.places.mp hx⟩

theorem installDiscoverySchedule_table (hn : Installable n)
    (hcall : installDiscoverySchedule n = .ok m) : DiscoveryTable n m := by
  obtain ⟨u, hrecreate, hrest⟩ := bind_eq_ok hcall
  obtain ⟨⟨l, mac⟩, hadd, hdone⟩ := bind_eq_ok hrest
  cases hdone
  obtain ⟨hu, hchanged⟩ := recreateSlotframe_table hn hrecreate
  obtain ⟨sf, mac', rfl, -⟩ := recreateSlotframe_frame hrecreate
  have hcreated : DiscoveryTable n { n with
      sf := update n.sf (n.maxSlotFrameUsed + 1) sf, mac := mac' } :=
    ⟨hu, hchanged.slotframes, hchanged.others, fun j hj ↦ absurd hj (hchanged.empty j),
      hchanged.sizes, rfl, rfl, rfl⟩
  have hwrites := tschScheduleAddLink_writesUnder hu.ready
    (hu.pointers (n.maxSlotFrameUsed + 1)) hadd
  exact hcreated.writes hwrites (fun j hj ↦ discoveryLink_of_discovery hj) rfl rfl rfl rfl rfl

theorem DiscoveryTable.addLinkToBestNode (hm : DiscoveryTable n m)
    (hcall : addLinkToBestNode m = .ok k) : DiscoveryTable n k := by
  obtain ⟨⟨removed, u⟩, hremove, hrest⟩ := bind_eq_ok hcall
  obtain ⟨⟨link, mac⟩, hadd, hdone⟩ := bind_eq_ok hrest
  cases hdone
  have hlive : LiveUnder m.mac (n.maxSlotFrameUsed + 1) (m.sf (m.maxSlotFrameUsed + 1)) := by
    rw [hm.maxSlotFrameUsed]
    exact hm.installable.pointers _
  have hremoved : WritesUnder (n.maxSlotFrameUsed + 1) (fun _ ↦ False) m.mac u := by
    unfold removeBestLink at hremove
    split at hremove
    · cases hremove
      exact .refl hm.installable.ready
    · exact tschScheduleRemoveLink_writesUnder hm.installable.ready hlive hremove
  have hadded := tschScheduleAddLink_writesUnder hremoved.ready
    (hlive.of_places fun _ _ hplaces ↦ hremoved.kept.places.mpr hplaces) hadd
  have hboth := (hremoved.mono fun _ hfalse ↦ hfalse.elim).trans hadded
  refine hm.writes hboth (fun j hj ↦ ?_) rfl rfl rfl rfl rfl
  have hlink := discoveryLink_of_best hj
  unfold DiscoveryLink at hlink ⊢
  rwa [hm.nodeId, hm.matrix] at hlink

theorem DiscoveryTable.selectBestNode {adv : Advertisement} {currentStrength : ℚ}
    (hm : DiscoveryTable n m) (hcall : selectBestNode m adv currentStrength = .ok k) :
    DiscoveryTable n k := by
  have hsame : ∀ bestNode, DiscoveryTable n { m with
      maxMasterStrength := currentStrength, bestNode := bestNode } := fun bestNode ↦
    ⟨⟨hm.installable.ready, hm.installable.pointers⟩, hm.slotframes, hm.others, hm.links, hm.sizes,
      hm.nodeId, hm.matrix, hm.maxSlotFrameUsed⟩
  unfold Routing.selectBestNode at hcall
  split at hcall
  · dsimp only at hcall
    split at hcall
    · cases hcall
      exact hsame m.bestNode
    · exact (hsame adv.nodeId).addLinkToBestNode hcall
  · cases hcall
    exact hm

end Discovery

end ContikiMaster.Routing
