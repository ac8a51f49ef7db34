import ContikiMaster.Routing.InstalledFlows
import ContikiMaster.Routing.ScheduleTables

/-!
# A schedule on a node with room

On a node with enough free blocks, the calls of a schedule file and of the discovery schedule all
return. The links of the file whose cells exist are installed, and so are the two links of the
discovery slotframe.
-/

namespace ContikiMaster.Routing

open Sys Tsch Lib Function List

/-- A normal link is in a slot of the slotframe of a handle. -/
def Occupied (n : Node) (handle slot : ℕ) : Prop :=
  ∃ k, n.mac.schedule.HasLink handle k ∧ k.timeslot = slot ∧ k.linkType = .normal

/-! ## The links of the file -/

section Links

variable {n m : Node}

theorem occupied_of_put {handle : ℕ} {slotframe : Option ℕ} {request : LinkRequest}
    (hput : LinkPut handle slotframe request n.mac m.mac) (hnormal : request.linkType = .normal)
    {other slot : ℕ} (hslot : Occupied n other slot) : Occupied m other slot := by
  obtain ⟨k, hk, rfl, hktype⟩ := hslot
  rcases hput.others other k hk with hold | ⟨rfl, hsame, new, hnew, hfulfilled⟩
  · exact ⟨k, hold, rfl, hktype⟩
  · exact ⟨new, hnew, hfulfilled.timeslot.trans hsame.symm, hfulfilled.linkType.trans hnormal⟩

/-- What the loop of `add_links` leaves on a node with room. -/
structure LinksOccupy (links : List ScheduledLink) (n m : Node) : Prop where
  occupied : ∀ handle slot, Occupied n handle slot → Occupied m handle slot
  added : ∀ link ∈ links, link.channelOffset ≤ 15 → ∀ size,
    n.mac.schedule.HasSlotframe link.slotframeHandle size → link.timeslot < size →
      Occupied m link.slotframeHandle link.timeslot
  linkRoom : n.mac.linkMemb.numfree ≤ m.mac.linkMemb.numfree + links.length
  slotframeRoom : m.mac.slotframeMemb.numfree = n.mac.slotframeMemb.numfree
  frame : ∃ destination mac, m = { n with destination := destination, mac := mac }

theorem addLinks_occupies {links : List ScheduledLink} :
    ∀ {linkIdx : ℕ} {changes : List (ℕ × ℕ)} {n : Node}, Installable n →
      links.length ≤ n.mac.linkMemb.numfree →
        ∃ m, addLinks linkIdx links changes n = .ok m ∧ LinksOccupy links n m := by
  induction links with
  | nil =>
    intro linkIdx changes n hn _
    exact ⟨n, rfl, fun _ _ hslot ↦ hslot, nofun, Nat.le_refl _, rfl, n.destination, n.mac, rfl⟩
  | cons link links ih =>
    intro linkIdx changes n hn hroom
    rw [length_cons] at hroom
    have hstep : ∀ destination rest, ∃ m, (tschScheduleAddLink n.mac
          (tschScheduleGetSlotframeByHandle n.mac link.slotframeHandle)
          ⟨link.sendReceive, .normal, destination, link.timeslot, link.channelOffset⟩ >>= fun x ↦
            addLinks (linkIdx + 1) links rest
              { n with destination := destination, mac := x.2 }) = .ok m ∧
        LinksOccupy (link :: links) n m := by
      intro destination rest
      have hlive : LiveUnder n.mac link.slotframeHandle
          (tschScheduleGetSlotframeByHandle n.mac link.slotframeHandle) := liveUnder_found rfl
      obtain ⟨l, mac, hadd, hput⟩ := tschScheduleAddLink_put hn.ready hlive
        (by omega : 0 < n.mac.linkMemb.numfree)
        ⟨link.sendReceive, .normal, destination, link.timeslot, link.channelOffset⟩
      have hnext : Installable { n with destination := destination, mac := mac } :=
        ⟨hput.writes.ready, hn.pointers.writes hput.writes⟩
      have hcount := hput.room
      obtain ⟨m, hcall, hm⟩ := @ih (linkIdx + 1) rest _ hnext (by
        change _ ≤ mac.linkMemb.numfree
        omega)
      obtain ⟨d, mac', hframe⟩ := hm.frame
      refine ⟨m, ?_, fun handle slot hslot ↦ hm.occupied handle slot ?_, fun other hother hchannel size hsize hlt ↦ ?_, ?_, ?_, d, mac', hframe⟩
      · rw [hadd]
        exact hcall
      · exact occupied_of_put hput rfl hslot
      · rcases mem_cons.mp hother with rfl | hother
        · obtain ⟨sf, -, hfound, -, hsf⟩ := slotframe_of_hasSlotframe hn.ready hsize
          obtain ⟨k, hk, hfulfilled⟩ := hput.put sf hfound (hsf ▸ hlt) hchannel
          exact hm.occupied _ _ ⟨k, hk, hfulfilled.timeslot, hfulfilled.linkType⟩
        · obtain ⟨x, hx⟩ := hsize
          exact hm.added other hother hchannel size ⟨x, hput.writes.kept.places.mpr hx⟩ hlt
      · have hrest := hm.linkRoom
        rw [length_cons]
        change mac.linkMemb.numfree ≤ _ at hrest
        omega
      · exact hm.slotframeRoom.trans hput.slotframes
    unfold addLinks
    dsimp only
    split
    · exact hstep _ _
    · exact hstep n.destination _

theorem recreateSlotframe_placed {handle size : ℕ} (hn : Installable n) (hsize : size ≠ 0)
    (hroom : 0 < n.mac.slotframeMemb.numfree) : ∃ sf mac, recreateSlotframe n handle size =
        .ok { n with sf := update n.sf handle (some sf), mac := mac } ∧
      mac.schedule.Places handle size sf ∧
      n.mac.linkMemb.numfree ≤ mac.linkMemb.numfree ∧
      n.mac.slotframeMemb.numfree ≤ mac.slotframeMemb.numfree + 1 := by
  obtain ⟨removed, sf, u, t, hremove, hadd, hplaces, hrooms⟩ := recreate_placed hn.ready hsize hroom
  refine ⟨sf, t, ?_, hplaces, hrooms⟩
  unfold recreateSlotframe
  rw [hremove]
  change (tschScheduleAddSlotframe u handle size >>= _) = _
  rw [hadd]
  rfl

/-- What creating the slotframes of the flows leaves on a node with room. -/
structure FlowsPlaced (flows : List ScheduledFlow) (n m : Node) : Prop where
  installable : Installable m
  kept : ∀ handle, n.mac.schedule.HasSlotframe handle n.scheduleLength →
    m.mac.schedule.HasSlotframe handle n.scheduleLength
  placed : ∀ flow ∈ flows, m.mac.schedule.HasSlotframe flow.flowNumber n.scheduleLength
  linkRoom : n.mac.linkMemb.numfree ≤ m.mac.linkMemb.numfree
  slotframeRoom : n.mac.slotframeMemb.numfree ≤ m.mac.slotframeMemb.numfree + flows.length
  frame : ∃ sf mac, m = { n with sf := sf, mac := mac }

theorem recreateFlows_placed {flows : List ScheduledFlow} (hn : Installable n)
    (hlength : n.scheduleLength ≠ 0) (hroom : flows.length ≤ n.mac.slotframeMemb.numfree) :
    ∃ m, flows.foldlM (fun n flow ↦ recreateSlotframe n flow.flowNumber n.scheduleLength) n = .ok m ∧
      FlowsPlaced flows n m := by
  induction flows generalizing n with
  | nil => exact ⟨n, rfl, hn, fun _ hsize ↦ hsize, nofun, le_rfl, le_rfl, n.sf, n.mac, rfl⟩
  | cons flow flows ih =>
    rw [length_cons] at hroom
    obtain ⟨sf, mac, hcall, hplaces, hlinks, hslotframes⟩ :=
      recreateSlotframe_placed hn hlength (by omega : 0 < n.mac.slotframeMemb.numfree)
    obtain ⟨hnext, hchanged⟩ := recreateSlotframe_table hn hcall
    set k : Node := { n with sf := update n.sf flow.flowNumber (some sf), mac := mac }
    obtain ⟨m, hrest, hm⟩ := ih hnext hlength (by
      change _ ≤ mac.slotframeMemb.numfree
      omega)
    obtain ⟨sf', mac', hframe⟩ := hm.frame
    have hfirst : m.mac.schedule.HasSlotframe flow.flowNumber n.scheduleLength :=
      hm.kept _ ⟨sf, hplaces⟩
    refine ⟨m, ?_, hm.installable, fun handle hsize ↦ ?_, fun other hother ↦ ?_,
      hlinks.trans hm.linkRoom, ?_, sf', mac', hframe⟩
    · rw [foldlM_cons, hcall]
      exact hrest
    · by_cases hsame : handle = flow.flowNumber
      · rw [hsame]
        exact hfirst
      · obtain ⟨x, hx⟩ := hsize
        exact hm.kept handle ⟨x, (hchanged.slotframes _ _ x hsame).mpr hx⟩
    · rcases mem_cons.mp hother with rfl | hother
      · exact hfirst
      · exact hm.placed other hother
    · have hcount := hm.slotframeRoom
      change mac.slotframeMemb.numfree ≤ _ at hcount
      rw [length_cons]
      omega

/-- What the block of a node leaves on a node with room. -/
structure PartOccupies (part : NodePart) (n m : Node) : Prop where
  added : ∀ link ∈ part.tableLinks, link.channelOffset ≤ 15 → ∀ size,
    n.mac.schedule.HasSlotframe link.slotframeHandle size → link.timeslot < size →
      Occupied m link.slotframeHandle link.timeslot
  linkRoom : n.mac.linkMemb.numfree ≤ m.mac.linkMemb.numfree + part.tableLinks.length
  slotframeRoom : m.mac.slotframeMemb.numfree = n.mac.slotframeMemb.numfree
  bestNode : m.bestNode = n.bestNode
  bestTschSheduleLink : m.bestTschSheduleLink = n.bestTschSheduleLink

theorem runNodePart_occupies {part : NodePart} (hn : Installable n)
    (hroom : part.tableLinks.length ≤ n.mac.linkMemb.numfree) :
    ∃ m, runNodePart n part = .ok m ∧ PartOccupies part n m := by
  have hstart : ∀ start : Node, start.mac = n.mac → start.sf = n.sf → start.bestNode = n.bestNode →
      start.bestTschSheduleLink = n.bestTschSheduleLink → ∃ m, (addLinksCall part start >>=
        fun k ↦ runNodePart k ⟨none, [], [], [], part.timeSource⟩) = .ok m ∧
      PartOccupies part n m := by
    intro start hmac hsf hbest hlink
    have hs : Installable start := by
      refine ⟨hmac ▸ hn.ready, ?_⟩
      rw [hmac, hsf]
      exact hn.pointers
    obtain ⟨k, hadd, hk⟩ := @addLinks_occupies part.tableLinks 0
      ((part.changes.map fun change ↦ (change.1 % 256, change.2 % 256)).take
        (part.changes.length % 256)) start hs (hmac ▸ hroom)
    have hcall : addLinksCall part start = .ok k := hadd
    have hinstallable := (addLinks_writes hs hadd).installable
    obtain ⟨destination, mac, hframe⟩ := hk.frame
    have hresult : PartOccupies part n k := by
      have hadded := hk.added
      have hroom' := hk.linkRoom
      have hslotframes := hk.slotframeRoom
      rw [hmac] at hadded hroom' hslotframes
      refine ⟨hadded, hroom', hslotframes, ?_, ?_⟩
      · rw [hframe]
        exact hbest
      · rw [hframe]
        exact hlink
    rw [hcall]
    cases part.timeSource with
    | none => exact ⟨k, rfl, hresult⟩
    | some id =>
      obtain ⟨updated, mac', hupdate, -, hview⟩ := tschQueueUpdateTimeSource_view
        hinstallable.ready.idle (some (setDestinationLinkAddr k id).destination)
      refine ⟨{ setDestinationLinkAddr k id with mac := mac' }, ?_, fun link hlink hchannel size hsize
        hlt ↦ ?_, ?_, ?_, hresult.bestNode, hresult.bestTschSheduleLink⟩
      · change (tschQueueUpdateTimeSource k.mac
          (some (setDestinationLinkAddr k id).destination) >>= _) = _
        rw [hupdate]
        rfl
      · obtain ⟨j, hj, hplace⟩ := hresult.added link hlink hchannel size hsize hlt
        exact ⟨j, (congrArg (fun v ↦ ScheduleView.HasLink v _ j) hview).mpr hj, hplace⟩
      · have hlinks : mac'.linkMemb = k.mac.linkMemb := congrArg ScheduleView.linkMemb hview
        change _ ≤ mac'.linkMemb.numfree + _
        rw [hlinks]
        exact hresult.linkRoom
      · have hslotframes : mac'.slotframeMemb = k.mac.slotframeMemb :=
          congrArg ScheduleView.slotframeMemb hview
        change mac'.slotframeMemb.numfree = _
        rw [hslotframes]
        exact hresult.slotframeRoom
  unfold runNodePart
  cases part.own with
  | none => exact hstart _ rfl rfl rfl rfl
  | some own => exact hstart _ rfl rfl rfl rfl

theorem addBeaconLink_occupies {beaconSlot : Option ℕ} (hn : Installable n)
    (hroom : 0 < n.mac.linkMemb.numfree) : ∃ link mac, addBeaconLink n beaconSlot = .ok (link, mac) ∧
      (∀ handle slot, beaconSlot ≠ some slot → Occupied n handle slot →
        Occupied { n with mac := mac } handle slot) ∧
      n.mac.linkMemb.numfree ≤ mac.linkMemb.numfree + 1 ∧
      mac.slotframeMemb.numfree = n.mac.slotframeMemb.numfree := by
  cases beaconSlot with
  | none => exact ⟨none, n.mac, rfl, fun _ _ _ hslot ↦ hslot, Nat.le_succ _, rfl⟩
  | some timeslot =>
    obtain ⟨link, mac, hadd, hput⟩ := tschScheduleAddLink_put hn.ready (hn.pointers 1) hroom
      ⟨beaconLinkOptions, .advertising, tschBroadcastAddress, timeslot, 0⟩
    refine ⟨link, mac, hadd, fun handle slot hne hslot ↦ ?_, hput.room, hput.slotframes⟩
    obtain ⟨k, hk, rfl, htype⟩ := hslot
    rcases hput.others handle k hk with hold | ⟨-, hsame, -⟩
    · exact ⟨k, hold, rfl, htype⟩
    · exact absurd (congrArg some hsame.symm) hne

structure FileOccupies (schedule : GeneratedSchedule) (n m : Node) : Prop where
  added : ∀ link ∈ (schedule.nodePart n.nodeId).tableLinks, link.channelOffset ≤ 15 →
    link.timeslot < schedule.scheduleLength % 65536 →
    (∃ flow ∈ schedule.flows, flow.flowNumber = link.slotframeHandle) →
    schedule.beaconSlot ≠ some link.timeslot → Occupied m link.slotframeHandle link.timeslot
  placed : ∀ flow ∈ schedule.flows,
    m.mac.schedule.HasSlotframe flow.flowNumber (schedule.scheduleLength % 65536)
  linkRoom : n.mac.linkMemb.numfree ≤
    m.mac.linkMemb.numfree + (schedule.nodePart n.nodeId).tableLinks.length + 1
  slotframeRoom :
    n.mac.slotframeMemb.numfree ≤ m.mac.slotframeMemb.numfree + schedule.flows.length
  bestNode : m.bestNode = n.bestNode
  bestTschSheduleLink : m.bestTschSheduleLink = n.bestTschSheduleLink

theorem generatedSchedule_occupies {schedule : GeneratedSchedule} (hn : Installable n)
    (hlength : schedule.scheduleLength % 65536 ≠ 0)
    (hlinks : (schedule.nodePart n.nodeId).tableLinks.length < n.mac.linkMemb.numfree)
    (hslotframes : schedule.flows.length ≤ n.mac.slotframeMemb.numfree)
    (hmatrix : (n.deploymentNodeCount + 1) * 5 ≤ schedule.availableSlotMatrix.length) :
    ∃ m, generatedSchedule schedule n = .ok m ∧ FileOccupies schedule n m := by
  have hstart : Installable { n with scheduleLength := schedule.scheduleLength % 65536 } :=
    ⟨hn.ready, hn.pointers⟩
  obtain ⟨u, hflows, hu⟩ := recreateFlows_placed hstart hlength hslotframes
  obtain ⟨sf, mac₁, hframe⟩ := hu.frame
  have hnode : u.nodeId = n.nodeId := by rw [hframe]
  have hset : Installable (setFlowTables u schedule) := ⟨hu.installable.ready, hu.installable.pointers⟩
  have hlinkRoom : n.mac.linkMemb.numfree ≤ u.mac.linkMemb.numfree := hu.linkRoom
  obtain ⟨w, hpart, hw⟩ := @runNodePart_occupies (setFlowTables u schedule)
    (schedule.nodePart u.nodeId) hset (by
      rw [hnode]
      exact hlinks.le.trans hlinkRoom)
  have hwrites := runNodePart_writes hset hpart
  have hpartRoom : u.mac.linkMemb.numfree ≤ w.mac.linkMemb.numfree +
      (schedule.nodePart u.nodeId).tableLinks.length := hw.linkRoom
  rw [hnode] at hpartRoom
  obtain ⟨link, mac₂, hbeacon, hkept, hbeaconRoom, hbeaconSlotframes⟩ :=
    @addBeaconLink_occupies w schedule.beaconSlot hwrites.installable (by omega)
  have hcount : w.deploymentNodeCount = n.deploymentNodeCount := by
    rw [hwrites.deploymentNodeCount]
    change u.deploymentNodeCount = _
    rw [hframe]
  obtain ⟨m, hcopy⟩ : ∃ m, copyAvailableSlotMatrix { w with
      mac := mac₂, maxSlotFrameUsed := schedule.maxSlotFrameUsed % 256 }
      schedule.availableSlotMatrix = .ok m := by
    unfold copyAvailableSlotMatrix
    dsimp only
    rw [hcount, if_neg (not_lt.mpr hmatrix)]
    exact ⟨_, rfl⟩
  refine ⟨m, ?_, ?_⟩
  · unfold generatedSchedule
    change (schedule.flows.foldlM _ _ >>= _) = _
    rw [hflows]
    change (runNodePart _ _ >>= _) = _
    rw [hpart]
    change (addBeaconLink _ _ >>= _) = _
    rw [hbeacon]
    exact hcopy
  · obtain ⟨matrix, rfl⟩ := copyAvailableSlotMatrix_frame hcopy
    refine ⟨fun other hother hchannel hlt hflow hslot ↦ ?_, fun flow hflow ↦ ?_, ?_, ?_, ?_, ?_⟩
    · obtain ⟨flow, hflow, hhandle⟩ := hflow
      apply hkept _ _ hslot
      rw [← hnode] at hother
      exact hw.added other hother hchannel _ (hhandle ▸ hu.placed flow hflow) hlt
    · obtain ⟨x, hx⟩ := hu.placed flow hflow
      have hw' := (hwrites.slotframes flow.flowNumber _ x).mpr hx
      exact ⟨x, (addBeaconLink_keepsTable hbeacon).1.places.mpr hw'⟩
    · change _ ≤ mac₂.linkMemb.numfree + _ + 1
      omega
    · have hroom := hu.slotframeRoom
      have hpartSlotframes := hw.slotframeRoom
      change n.mac.slotframeMemb.numfree ≤ _ at hroom
      change w.mac.slotframeMemb.numfree = u.mac.slotframeMemb.numfree at hpartSlotframes
      change _ ≤ mac₂.slotframeMemb.numfree + _
      omega
    · change w.bestNode = _
      rw [hw.bestNode]
      change u.bestNode = _
      rw [hframe]
    · change w.bestTschSheduleLink = _
      rw [hw.bestTschSheduleLink]
      change u.bestTschSheduleLink = _
      rw [hframe]

end Links

section Discovery

variable {n m k : Node}

/-- What the discovery schedule and the first link to the best node leave on a node with room. -/
structure DiscoveryOccupies (n m : Node) : Prop where
  table : DiscoveryTable n m
  placed : m.mac.schedule.HasSlotframe (n.maxSlotFrameUsed + 1) discoverySize
  best : (bestLinkRequest n).timeslot < discoverySize → (bestLinkRequest n).channelOffset ≤ 15 →
    ∃ j, m.mac.schedule.HasLink (n.maxSlotFrameUsed + 1) j ∧ (bestLinkRequest n).Fulfilled j
  discovery : (discoveryLinkRequest n).timeslot < discoverySize →
    (discoveryLinkRequest n).channelOffset ≤ 15 →
    (bestLinkRequest n).timeslot ≠ (discoveryLinkRequest n).timeslot →
    ∃ j, m.mac.schedule.HasLink (n.maxSlotFrameUsed + 1) j ∧ (discoveryLinkRequest n).Fulfilled j

theorem installDiscovery_occupies (hn : Installable n) (hbest : n.bestTschSheduleLink = none)
    (hlinks : 2 ≤ n.mac.linkMemb.numfree) (hslotframes : 0 < n.mac.slotframeMemb.numfree) :
    ∃ k m, installDiscoverySchedule n = .ok k ∧ addLinkToBestNode k = .ok m ∧
      DiscoveryOccupies n m := by
  obtain ⟨sf, mac, hrecreate, hplaces, hroom, -⟩ :=
    @recreateSlotframe_placed n (n.maxSlotFrameUsed + 1) discoverySize hn (by decide) hslotframes
  obtain ⟨hu, -⟩ := recreateSlotframe_table hn hrecreate
  set u : Node := { n with
    sf := update n.sf (n.maxSlotFrameUsed + 1) (some sf), mac := mac }
  have hsize : (mac.slotframe sf).size = discoverySize := hplaces.2.2
  have hself : u.sf (n.maxSlotFrameUsed + 1) = some sf := update_self ..
  have hlive : LiveUnder u.mac (n.maxSlotFrameUsed + 1) (some sf) := hself ▸ hu.pointers _
  obtain ⟨l, mac₁, hadd, hput⟩ := tschScheduleAddLink_put hu.ready hlive
    (show 0 < mac.linkMemb.numfree by omega) (discoveryLinkRequest n)
  have hlive₁ : LiveUnder mac₁ (n.maxSlotFrameUsed + 1) (some sf) :=
    hlive.of_places fun _ _ hplaces ↦ hput.writes.kept.places.mpr hplaces
  have hroom₁ := hput.room
  obtain ⟨l₂, mac₂, hadd₂, hput₂⟩ := tschScheduleAddLink_put hput.writes.ready hlive₁
    (show 0 < mac₁.linkMemb.numfree by
      change mac.linkMemb.numfree ≤ _ at hroom₁
      omega) (bestLinkRequest n)
  have hinstall : installDiscoverySchedule n = .ok { u with mac := mac₁, ownReceiver := 0 } := by
    unfold installDiscoverySchedule
    rw [hrecreate]
    change (tschScheduleAddLink u.mac (u.sf (n.maxSlotFrameUsed + 1)) (discoveryLinkRequest n) >>=
      _) = _
    rw [hself, hadd]
    rfl
  have hchoose : addLinkToBestNode { u with mac := mac₁, ownReceiver := 0 } =
      .ok { u with mac := mac₂, ownReceiver := 0, bestTschSheduleLink := l₂ } := by
    have hremove : removeBestLink { u with mac := mac₁, ownReceiver := 0 } = .ok (false, mac₁) := by
      unfold removeBestLink
      simp only [show u.bestTschSheduleLink = none from hbest]
    unfold addLinkToBestNode
    rw [hremove]
    change (tschScheduleAddLink mac₁ (u.sf (n.maxSlotFrameUsed + 1)) (bestLinkRequest n) >>= _) = _
    rw [hself, hadd₂]
    rfl
  refine ⟨_, _, hinstall, hchoose,
    (installDiscoverySchedule_table hn hinstall).addLinkToBestNode hchoose, ?_, ?_, ?_⟩
  · exact ⟨sf, hput₂.writes.kept.places.mpr (hput.writes.kept.places.mpr hplaces)⟩
  · intro hslot hchannel
    apply hput₂.put sf rfl _ hchannel
    rw [hput.writes.kept.size]
    change _ < (mac.slotframe sf).size
    rwa [hsize]
  · intro hslot hchannel hne
    obtain ⟨j, hj, hfulfilled⟩ := hput.put sf rfl (by
      change _ < (mac.slotframe sf).size
      rwa [hsize]) hchannel
    rcases hput₂.others _ j hj with hold | ⟨-, hsame, -⟩
    · exact ⟨j, hold, hfulfilled⟩
    · exact absurd (hsame.symm.trans hfulfilled.timeslot) hne

end Discovery

end ContikiMaster.Routing
