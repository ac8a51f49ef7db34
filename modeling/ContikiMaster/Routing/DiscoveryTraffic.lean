import ContikiMaster.Routing.DecodedLinks
import ContikiMaster.Routing.ScheduleRoom
import ContikiMaster.Scheduler.CollectionSlots
import Mathlib.Data.Nat.ChineseRemainder

/-!
# Discovery traffic beside flow traffic

The slots that a schedule leaves free are those of one round of its slotframes; a node sends and
receives its neighbor data in two of them, in a slotframe of the fixed length 40. The rounds drift
apart, and a discovery link meets a link of a flow exactly when their timeslots are congruent
modulo the greatest common divisor of the lengths.
-/

namespace ContikiMaster.Routing

open Sys Tsch Lib Scheduler List Option

variable {slot : ℕ}

theorem exists_meeting_iff {size size' slot' : ℕ} (hslot : slot < size) (hslot' : slot' < size') :
    (∃ asn, asn % size = slot ∧ asn % size' = slot') ↔ slot ≡ slot' [MOD Nat.gcd size size'] := by
  constructor
  · intro hmeet
    obtain ⟨asn, hmod, hmod'⟩ := hmeet
    have hfirst : asn ≡ slot [MOD Nat.gcd size size'] := by
      rw [← hmod]
      exact (Nat.mod_modEq asn size).symm.of_dvd (Nat.gcd_dvd_left _ _)
    have hsecond : asn ≡ slot' [MOD Nat.gcd size size'] := by
      rw [← hmod']
      exact (Nat.mod_modEq asn size').symm.of_dvd (Nat.gcd_dvd_right _ _)
    exact hfirst.symm.trans hsecond
  · intro hmod
    obtain ⟨asn, hfirst, hsecond⟩ := Nat.chineseRemainder' hmod
    refine ⟨asn, ?_, ?_⟩
    · rw [← Nat.mod_eq_of_lt hslot]
      exact hfirst
    · rw [← Nat.mod_eq_of_lt hslot']
      exact hsecond

/-- A link under a handle is active in a slot. -/
def Node.Active (n : Node) (handle asn : ℕ) (k : TschLink) : Prop :=
  n.mac.schedule.HasLink handle k ∧
    ∃ size, n.mac.schedule.HasSlotframe handle size ∧ asn % size = k.timeslot

/-- A link of a flow is active: one in the slotframe of a flow that is not the beacons'. -/
def FlowActive (schedule : GeneratedSchedule) (n : Node) (asn : ℕ) : Prop :=
  ∃ flow ∈ schedule.flows, flow.flowNumber ≠ n.maxSlotFrameUsed + 1 ∧
    ∃ k, n.Active flow.flowNumber asn k ∧ k.linkType = .normal

/-- A link of the discovery slotframe is active whose slot is taken from the matrix. -/
def DiscoveryActive (n : Node) (asn : ℕ) : Prop :=
  ∃ k, n.Active (n.maxSlotFrameUsed + 1) asn k ∧
    ((linkOptionTx k.linkOptions = true ∧ n.matrix n.nodeId 1 ≠ 0) ∨
      (linkOptionRx k.linkOptions = true ∧ n.matrix n.nodeId 3 ≠ 0))

/-- A node applies a schedule, and chooses its best nodes after that. -/
def RunsSchedule (schedule : GeneratedSchedule) (n m : Node) : Prop :=
  ∃ (k : Node) (advs : List (Advertisement × ℚ)), applyGeneratedSchedule schedule n = .ok k ∧
    advs.foldlM (fun n adv ↦ selectBestNode n adv.1 adv.2) k = .ok m

/-- In no slot does the node have both a flow link and a discovery link active. -/
def NeverOverlaps (schedule : GeneratedSchedule) (numNodes nodeId : ℕ) : Prop :=
  ∀ n m, Installable n → n.nodeId = nodeId → n.deploymentNodeCount = numNodes →
    RunsSchedule schedule n m → ∀ asn, ¬ (FlowActive schedule m asn ∧ DiscoveryActive m asn)

/-- The links of a node's table that are installed and stay installed: they are in a cell that TSCH
has, in a slotframe that is not taken for the discovery. -/
def flowLinks (args : GenerateArgs) (s : Schedule) (nodeId : ℕ) : List ScheduledLink :=
  let links := (assignedLinks args s nodeId).map Prod.fst
  (links.take (links.length % 256)).filter fun link ↦
    link.channelOffset ≤ 15 ∧ link.timeslot < slotframeLength args s % 65536 ∧
      link.slotframeHandle ≠ maxSlotUsed s.flows % 256 + 1

/-- The two slots of a node's row, as bytes, as far as the discovery slotframe has them. -/
def discoverySlots (s : Schedule) (nodeId : ℕ) : List ℕ :=
  [slotEntry s.availableSlotMatrix nodeId 1 % 256,
    slotEntry s.availableSlotMatrix nodeId 3 % 256].filter fun slot ↦
      slot ≠ 0 ∧ slot < discoverySize

/-- No flow link is in a slot that is congruent to a discovery slot. -/
def SlotsApart (args : GenerateArgs) (s : Schedule) (nodeId : ℕ) : Prop :=
  ∀ link ∈ flowLinks args s nodeId, ∀ slot ∈ discoverySlots s nodeId,
    ¬ link.timeslot ≡ slot [MOD Nat.gcd (slotframeLength args s % 65536) discoverySize]

instance (args : GenerateArgs) (s : Schedule) (nodeId : ℕ) : Decidable (SlotsApart args s nodeId) :=
  inferInstanceAs (Decidable (∀ _ ∈ _, ∀ _ ∈ _, ¬ _))

section Generated

variable {createArgs : CreateArgs} {fuel : ℕ} {flows : List Flow} {s : Schedule}
  {args : GenerateArgs} {file : GeneratedFile} {nodeId : ℕ} {n m : Node}

theorem length_availableRow_le (length : ℕ) (used : ℕ → Bool) (node : ℕ) :
    (availableRow length used node).2.length ≤ 5 := by
  unfold availableRow
  dsimp only
  rcases takeSlot_spec used (range' 1 (length - 1)) [] [node] with ⟨tx, -, -, heq⟩ | heq
  · rw [heq]
    rcases takeSlot_spec (Function.update used tx true) (range' 1 (length - 1)).reverse
      ([] ++ [node] ++ [tx, 0]) [] with ⟨rx, -, -, heq⟩ | heq
    · rw [heq]
      exact le_rfl
    · rw [heq]
      exact Nat.le_add_right 3 2
  · rw [heq]
    rcases takeSlot_spec used (range' 1 (length - 1)).reverse [] [] with ⟨rx, -, -, heq⟩ | heq
    · rw [heq]
      exact Nat.le_add_right 2 3
    · rw [heq]
      exact Nat.zero_le 5

theorem matrix_of_generate (hgenerate : generate args s = .ok file) :
    (∀ row ∈ s.availableSlotMatrix, 5 ≤ row.length) ∧
      file.schedule.availableSlotMatrix = s.availableSlotMatrix.flatMap (fun row ↦ row.take 5) ∧
      file.schedule.beaconSlot = if s.length < args.minimalScheduleLength then
        some (slotframeLength args s - 1) else none := by
  unfold generate at hgenerate
  split at hgenerate
  · cases hgenerate
  split at hgenerate
  · cases hgenerate
  rename_i hshort
  obtain ⟨parts, -, hdone⟩ := bind_eq_ok hgenerate
  cases hdone
  refine ⟨fun row hrow ↦ ?_, rfl, rfl⟩
  rw [Bool.not_eq_true, List.any_eq_false] at hshort
  simpa using hshort row hrow

theorem rows_of_generate (hcreate : create createArgs fuel flows = .ok s)
    (hgenerate : generate args s = .ok file) : ∀ row ∈ s.availableSlotMatrix, row.length = 5 := by
  intro row hrow
  have hge := (matrix_of_generate hgenerate).1 row hrow
  have hle : row.length ≤ 5 := by
    have hrows : ∀ (nodes : List ℕ) (used : ℕ → Bool), row ∈ rowsFrom s.length used nodes →
        row.length ≤ 5 := by
      intro nodes
      induction nodes with
      | nil => exact fun used hmem ↦ absurd hmem not_mem_nil
      | cons node nodes ih =>
        intro used hmem
        rcases mem_cons.mp hmem with rfl | hmem
        · exact length_availableRow_le _ _ _
        · exact ih _ hmem
    rw [availableSlotMatrix_tail hcreate] at hrow
    rcases mem_cons.mp hrow with rfl | hrow
    · exact le_rfl
    · exact hrows _ _ hrow
  exact le_antisymm hle hge

variable {matrix : List (List ℕ)}

theorem flatMap_take_five (hrows : ∀ row ∈ matrix, row.length = 5) :
    matrix.flatMap (fun row ↦ row.take 5) = matrix.flatten := by
  rw [← flatMap_id]
  apply flatMap_congr
  intro row hrow
  rw [take_of_length_le (hrows row hrow).le]
  rfl

theorem length_flatten_rows (hrows : ∀ row ∈ matrix, row.length = 5) :
    matrix.flatten.length = matrix.length * 5 := by
  have hall : ∀ count ∈ matrix.map length, count = 5 := by
    intro count hcount
    obtain ⟨row, hrow, rfl⟩ := mem_map.mp hcount
    exact hrows row hrow
  rw [length_flatten, sum_eq_card_nsmul _ 5 hall, length_map]
  rfl

theorem matrixInstalled_of_generate (hcreate : create createArgs fuel flows = .ok s)
    (hgenerate : generate args s = .ok file) (hcall : generatedSchedule file.schedule n = .ok m)
    (hcount : m.deploymentNodeCount = createArgs.numCoojaNodes) :
    MatrixInstalled s.availableSlotMatrix m := by
  have hrows := rows_of_generate hcreate hgenerate
  have hmatrix : file.schedule.availableSlotMatrix = s.availableSlotMatrix.flatten :=
    (matrix_of_generate hgenerate).2.1.trans (flatMap_take_five hrows)
  apply generatedSchedule_matrixInstalled hcall hmatrix hrows
  rw [availableSlotMatrix_tail hcreate, length_cons, length_rowsFrom, length_range', hcount]

theorem exists_flow_of_link (hcreate : create createArgs fuel flows = .ok s)
    (hgenerate : generate args s = .ok file) {link : ScheduledLink × ℕ}
    (hlink : link ∈ assignedLinks args s nodeId) :
    ∃ flow ∈ file.schedule.flows, flow.flowNumber = link.1.slotframeHandle := by
  obtain ⟨-, hflows, -⟩ := generate_spec hgenerate
  obtain ⟨cell, timeslot, channel, -, -, hentry, hcell⟩ :=
    place_of_mem_assignedLinks hcreate hgenerate hlink
  obtain ⟨flow, hflow, hnumber⟩ := flowNumber_of_create hcreate hentry
  obtain ⟨first, hfirst, hsame⟩ := (oneOfEach_firstOfEachNumber s.flows).covered flow hflow
  refine ⟨⟨first.flowNumber, first.source, first.destination⟩, ?_, ?_⟩
  · rw [hflows]
    exact mem_map_of_mem hfirst
  · exact (hsame.trans hnumber).trans hcell.slotframeHandle.symm

theorem beaconSlot_ne_of_lt (hgenerate : generate args s = .ok file) (hslot : slot < s.length) :
    file.schedule.beaconSlot ≠ some slot := by
  rw [(matrix_of_generate hgenerate).2.2]
  unfold slotframeLength
  split
  · intro heq
    have := some.inj heq
    omega
  · exact (some_ne_none slot).symm

theorem tables_of_runsSchedule {schedule : GeneratedSchedule} (hn : Installable n)
    (hrun : RunsSchedule schedule n m) : ∃ k, generatedSchedule schedule n = .ok k ∧
      FileTable schedule n k ∧ DiscoveryTable k m := by
  obtain ⟨w, advs, happly, hadvs⟩ := hrun
  obtain ⟨k, hgenerated, hrest⟩ := bind_eq_ok happly
  obtain ⟨u, hdiscovery, hbest⟩ := bind_eq_ok hrest
  have hfile := generatedSchedule_table hn hgenerated
  have hinstalled := installDiscoverySchedule_table hfile.installable hdiscovery
  refine ⟨k, hgenerated, hfile, ?_⟩
  refine foldlM_invariant (fun adv _ a b ha hstep ↦ ?_) hadvs
    (hinstalled.addLinkToBestNode hbest)
  exact ha.selectBestNode hstep

theorem neverOverlaps_of_slotsApart (hcreate : create createArgs fuel flows = .ok s)
    (hgenerate : generate args s = .ok file)
    (hnode : 1 ≤ nodeId ∧ nodeId ≤ createArgs.numCoojaNodes) (hapart : SlotsApart args s nodeId) :
    NeverOverlaps file.schedule createArgs.numCoojaNodes nodeId := by
  intro n m hn hid hcount hrun asn hboth
  obtain ⟨⟨flow, hflow, hhandle, j, ⟨hj, size, hsize, hasn⟩, hnormal⟩,
    k, ⟨hk, size', hsize', hasn'⟩, hmatrix⟩ := hboth
  obtain ⟨u, hgenerated, hfile, hdiscovery⟩ := tables_of_runsSchedule hn hrun
  obtain ⟨-, -, -, -, hlength, hused, -⟩ := generate_spec hgenerate
  rw [hdiscovery.maxSlotFrameUsed] at hhandle hk hsize'
  -- the flow link is one of the node's table
  have hju := (hdiscovery.others _ j hhandle).mp hj
  have hsizeu : u.mac.schedule.HasSlotframe flow.flowNumber size := by
    obtain ⟨x, hx⟩ := hsize
    exact ⟨x, (hdiscovery.slotframes _ size x hhandle).mp hx⟩
  obtain rfl := hfile.sizes flow hflow size hsizeu
  obtain ⟨hslot, hchannel⟩ := fits_of_hasLink hfile.installable.ready hju hsizeu
  have hlink : ∃ link ∈ flowLinks args s nodeId, link.timeslot = j.timeslot := by
    rcases hfile.links flow hflow j hju with ⟨link, hlink, hwritten⟩ | hbeacon
    · refine ⟨link, mem_filter.mpr ⟨?_, ?_⟩, hwritten.timeslot⟩
      · rw [hid] at hlink
        unfold NodePart.tableLinks at hlink
        rwa [(nodePart_links hgenerate nodeId).1] at hlink
      · rw [decide_eq_true_eq, hwritten.channelOffset, hwritten.timeslot, hwritten.slotframeHandle,
          ← hlength, ← hused, ← hfile.maxSlotFrameUsed]
        exact ⟨hchannel, hslot, hhandle⟩
    · rw [hnormal] at hbeacon
      cases hbeacon
  -- the discovery link is in a slot of the node's row
  obtain rfl := hdiscovery.sizes size' hsize'
  have hfits := (fits_of_hasLink hdiscovery.installable.ready hk hsize').1
  have hbytes := matrixInstalled_of_generate hcreate hgenerate hgenerated
    (hfile.deploymentNodeCount.trans hcount)
  have hid' : u.nodeId = nodeId := hfile.nodeId.trans hid
  have hrow : nodeId < s.availableSlotMatrix.length := by
    rw [availableSlotMatrix_tail hcreate, length_cons, length_rowsFrom, length_range']
    omega
  have hentry : ∀ col, col < 5 →
      u.matrix u.nodeId col = slotEntry s.availableSlotMatrix nodeId col % 256 := fun col hcol ↦ by
    rw [hid']
    exact hbytes nodeId col hnode.1 hrow hcol
  have hdiscoverySlot : k.timeslot ∈ discoverySlots s nodeId := by
    unfold discoverySlots
    rw [hdiscovery.matrix, hdiscovery.nodeId, hentry 1 (by omega), hentry 3 (by omega)] at hmatrix
    have hlinks := hdiscovery.links k hk
    unfold DiscoveryLink at hlinks
    rw [hentry 1 (by omega), hentry 3 (by omega)] at hlinks
    rw [mem_filter, decide_eq_true_eq, mem_pair]
    rcases hlinks with ⟨hoption, htx⟩ | ⟨hoption, hrx⟩
    · rw [hoption] at hmatrix
      have hne := (hmatrix.resolve_right fun hrx ↦ absurd hrx.1 (by decide)).2
      rw [htx hne] at hfits ⊢
      exact ⟨.inl rfl, hne, hfits⟩
    · rw [hoption] at hmatrix
      have hne := (hmatrix.resolve_left fun htx ↦ absurd htx.1 (by decide)).2
      rw [hrx hne] at hfits ⊢
      exact ⟨.inr rfl, hne, hfits⟩
  obtain ⟨link, hlink, htimeslot⟩ := hlink
  apply hapart link hlink _ hdiscoverySlot
  rw [htimeslot, ← hlength, ← exists_meeting_iff hslot hfits]
  exact ⟨asn, hasn, hasn'⟩

theorem exists_started (nodeId numNodes links slotframes : ℕ) : ∃ n : Node, Installable n ∧
    n.nodeId = nodeId ∧ n.deploymentNodeCount = numNodes ∧ n.bestNode = 0 ∧
    n.bestTschSheduleLink = none ∧ n.mac.linkMemb.numfree = links ∧
      n.mac.slotframeMemb.numfree = slotframes := by
  have hfree : ∀ {α : Type} (count : ℕ) (zero : α), (Memb.init count zero).numfree = count := by
    intro α count zero
    calc (Memb.init count zero).numfree = (range count).length :=
          countP_eq_length.mpr fun _ _ ↦ rfl
      _ = count := length_range
  set config : MacConfig := ⟨links, slotframes, 1, 1, 1, 1, false, .bits32⟩
  set mac : Mac := tschReleaseLock { Mac.zero config with tschLocked := true }
  have hready : ScheduleReady mac := @tschScheduleInit_ready (Mac.zero config) mac ⟨rfl, rfl⟩ rfl rfl
  refine ⟨Node.zero nodeId numNodes 8 mac, ⟨hready, fun i sf hsf ↦ nomatch hsf⟩, rfl, rfl, rfl, rfl,
    hfree links TschLink.zero, hfree slotframes TschSlotframe.zero⟩

theorem exists_discoveryLink {k : Node} (hdiscovery : DiscoveryOccupies k m)
    (hmatrix : MatrixInstalled s.availableSlotMatrix k)
    (hrows : ∀ row ∈ s.availableSlotMatrix, row.length = 5)
    (hcreate : create createArgs fuel flows = .ok s)
    (hnode : 1 ≤ k.nodeId ∧ k.nodeId ≤ createArgs.numCoojaNodes) (hbest : k.bestNode = 0)
    (hslot : slot ∈ discoverySlots s k.nodeId) :
    ∃ j, m.mac.schedule.HasLink (k.maxSlotFrameUsed + 1) j ∧ j.timeslot = slot ∧
      ((linkOptionTx j.linkOptions = true ∧ k.matrix k.nodeId 1 ≠ 0) ∨
        (linkOptionRx j.linkOptions = true ∧ k.matrix k.nodeId 3 ≠ 0)) := by
  have hlength : k.nodeId < s.availableSlotMatrix.length := by
    rw [availableSlotMatrix_tail hcreate, length_cons, length_rowsFrom, length_range']
    omega
  obtain ⟨x, -, hfinal⟩ := placeCells_of_create hcreate
  obtain ⟨-, -, -, -, -, -, -, hmade⟩ := finalise_spec hfinal
  obtain ⟨tx, rx, hrow, -⟩ := availableSlotMatrix_row (hmade ▸ hrows) hnode
  rw [← hmade] at hrow
  obtain ⟨htx, htxChannel, htxOption, hrx, hrxChannel, hrxOption⟩ :=
    requests_of_matrixInstalled hmatrix ⟨hnode.1, hlength⟩ hrow
  have hentry : ∀ col, col < 5 →
      k.matrix k.nodeId col = slotEntry s.availableSlotMatrix k.nodeId col % 256 :=
    fun col hcol ↦ hmatrix k.nodeId col hnode.1 hlength hcol
  unfold discoverySlots at hslot
  rw [mem_filter, decide_eq_true_eq, mem_pair] at hslot
  obtain ⟨hslot, hne, hlt⟩ := hslot
  rw [hbest] at htx
  unfold installedSlot at htx hrx
  by_cases hsame : (bestLinkRequest k).timeslot = slot
  · -- the link to the best node, whose slot is not that of its number
    have htxEntry : slotEntry s.availableSlotMatrix k.nodeId 1 % 256 ≠ 0 := by
      intro hzero
      rw [if_neg (not_not.mpr hzero)] at htx
      exact hne (hsame.symm.trans htx)
    obtain ⟨j, hj, hfulfilled⟩ := hdiscovery.best (hsame ▸ hlt) (htxChannel ▸ Nat.zero_le 15)
    refine ⟨j, hj, hfulfilled.timeslot.trans hsame, .inl ⟨?_, ?_⟩⟩
    · rw [hfulfilled.linkOptions, htxOption]
      rfl
    · rw [hentry 1 (by omega)]
      exact htxEntry
  · have hrxSlot : slotEntry s.availableSlotMatrix k.nodeId 3 % 256 = slot := by
      rcases hslot with heq | heq
      · rw [← heq, if_pos (heq ▸ hne)] at htx
        exact absurd (heq ▸ htx) (heq ▸ hsame)
      · exact heq.symm
    rw [if_pos (hrxSlot ▸ hne), hrxSlot] at hrx
    obtain ⟨j, hj, hfulfilled⟩ := hdiscovery.discovery (hrx ▸ hlt) (hrxChannel ▸ Nat.zero_le 15)
      (hrx ▸ hsame)
    refine ⟨j, hj, hfulfilled.timeslot.trans hrx, .inr ⟨?_, ?_⟩⟩
    · rw [hfulfilled.linkOptions, hrxOption]
      rfl
    · rw [hentry 3 (by omega), hrxSlot]
      exact hne

theorem not_neverOverlaps_of_congruent (hcreate : create createArgs fuel flows = .ok s)
    (hgenerate : generate args s = .ok file)
    (hnode : 1 ≤ nodeId ∧ nodeId ≤ createArgs.numCoojaNodes) {link : ScheduledLink}
    (hlink : link ∈ flowLinks args s nodeId) (hslot : slot ∈ discoverySlots s nodeId)
    (hmod : link.timeslot ≡ slot [MOD Nat.gcd (slotframeLength args s % 65536) discoverySize]) :
    ¬ NeverOverlaps file.schedule createArgs.numCoojaNodes nodeId := by
  intro hnever
  obtain ⟨-, -, -, -, hlength, hused, -⟩ := generate_spec hgenerate
  have hrows := rows_of_generate hcreate hgenerate
  obtain ⟨-, hmatrix, -⟩ := matrix_of_generate hgenerate
  unfold flowLinks at hlink
  rw [mem_filter, decide_eq_true_eq] at hlink
  obtain ⟨hlink, hchannel, hlt, hhandle⟩ := hlink
  have hdiscoverySlot := hslot
  unfold discoverySlots at hdiscoverySlot
  rw [mem_filter, decide_eq_true_eq] at hdiscoverySlot
  obtain ⟨asn, hasn, hasn'⟩ := (exists_meeting_iff hlt hdiscoverySlot.2.2).mpr hmod
  obtain ⟨n, hn, hid, hcount, hbest, hnone, hlinkRoom, hslotframeRoom⟩ := exists_started nodeId
    createArgs.numCoojaNodes ((file.schedule.nodePart nodeId).tableLinks.length + 3)
    (file.schedule.flows.length + 1)
  obtain ⟨k, hgenerated, hk⟩ := @generatedSchedule_occupies n file.schedule hn
    (by rw [hlength]; omega) (by rw [hid]; omega) (by omega) (by
      rw [hcount, hmatrix, flatMap_take_five hrows, length_flatten_rows hrows,
        availableSlotMatrix_tail hcreate, length_cons, length_rowsFrom, length_range'])
  have hfile := generatedSchedule_table hn hgenerated
  have hlinkRoom' := hk.linkRoom
  rw [hid] at hlinkRoom'
  have hslotframeRoom' := hk.slotframeRoom
  obtain ⟨u, m, hinstall, hchoose, hdiscovery⟩ := @installDiscovery_occupies k hfile.installable
    (hk.bestTschSheduleLink.trans hnone) (by omega) (by omega)
  have hrun : RunsSchedule file.schedule n m := by
    refine ⟨m, [], ?_, rfl⟩
    unfold applyGeneratedSchedule
    rw [hgenerated]
    change (installDiscoverySchedule k >>= _) = _
    rw [hinstall]
    exact hchoose
  have hid' : k.nodeId = nodeId := hfile.nodeId.trans hid
  apply hnever n m hn hid hcount hrun asn
  rw [FlowActive, DiscoveryActive, hdiscovery.table.maxSlotFrameUsed, hdiscovery.table.nodeId,
    hdiscovery.table.matrix]
  constructor
  · obtain ⟨flow, hflow, hnumber⟩ : ∃ flow ∈ file.schedule.flows,
        flow.flowNumber = link.slotframeHandle := by
      obtain ⟨assigned, hassigned, rfl⟩ := mem_map.mp (mem_of_mem_take hlink)
      exact exists_flow_of_link hcreate hgenerate hassigned
    have hnotBeacon : file.schedule.beaconSlot ≠ some link.timeslot := by
      obtain ⟨assigned, hassigned, rfl⟩ := mem_map.mp (mem_of_mem_take hlink)
      exact beaconSlot_ne_of_lt hgenerate
        (timeslot_lt_of_mem_assignedLinks hcreate hgenerate hassigned)
    have htable : link ∈ (file.schedule.nodePart n.nodeId).tableLinks := by
      unfold NodePart.tableLinks
      rwa [hid, (nodePart_links hgenerate nodeId).1]
    obtain ⟨j, hj, htimeslot, hnormal⟩ := hk.added link htable hchannel (hlength ▸ hlt)
      ⟨flow, hflow, hnumber⟩ hnotBeacon
    have hother : flow.flowNumber ≠ k.maxSlotFrameUsed + 1 := by
      rw [hfile.maxSlotFrameUsed, hused, hnumber]
      exact hhandle
    rw [← hnumber] at hj
    obtain ⟨x, hx⟩ := hk.placed flow hflow
    refine ⟨flow, hflow, hother, j, ⟨(hdiscovery.table.others _ j hother).mpr hj,
      file.schedule.scheduleLength % 65536,
      ⟨x, (hdiscovery.table.slotframes _ _ x hother).mpr hx⟩, ?_⟩, hnormal⟩
    rw [hlength, htimeslot]
    exact hasn
  · obtain ⟨j, hj, rfl, hoption⟩ := exists_discoveryLink hdiscovery
      (matrixInstalled_of_generate hcreate hgenerate hgenerated
        (hfile.deploymentNodeCount.trans hcount)) hrows hcreate (hid' ▸ hnode)
      (hk.bestNode.trans hbest) (hid' ▸ hslot)
    exact ⟨j, ⟨hj, discoverySize, hdiscovery.placed, hasn'⟩, hoption⟩

/-- Discovery traffic and flow traffic never overlap exactly when no flow link of the node is in a
timeslot congruent to one of its discovery slots, modulo the greatest common divisor of the two
lengths: for every created schedule and its file, and every node. -/
theorem neverOverlaps_iff (hcreate : create createArgs fuel flows = .ok s)
    (hgenerate : generate args s = .ok file)
    (hnode : 1 ≤ nodeId ∧ nodeId ≤ createArgs.numCoojaNodes) :
    NeverOverlaps file.schedule createArgs.numCoojaNodes nodeId ↔ SlotsApart args s nodeId := by
  constructor
  · intro hnever link hlink slot hslot hmod
    exact not_neverOverlaps_of_congruent hcreate hgenerate hnode hlink hslot hmod hnever
  · exact neverOverlaps_of_slotsApart hcreate hgenerate hnode

end Generated

theorem neverOverlaps_of_twentyFour : ∃ s file, scheduledFlow 24 = .ok s ∧
    generate scheduledFlowArgs s = .ok file ∧
      ∀ nodeId, 1 ≤ nodeId ∧ nodeId ≤ 3 → NeverOverlaps file.schedule 3 nodeId := by
  obtain ⟨s, hs, hfile, hapart⟩ : ∃ s, scheduledFlow 24 = .ok s ∧
      (generate scheduledFlowArgs s).toOption.isSome ∧
        ∀ nodeId ∈ range' 1 3, SlotsApart scheduledFlowArgs s nodeId :=
    exists_ok (by decide +kernel)
  obtain ⟨file, hgenerate⟩ := exists_eq_ok hfile
  refine ⟨s, file, hs, hgenerate, fun nodeId hnode ↦ ?_⟩
  apply (neverOverlaps_iff hs hgenerate hnode).mpr
  apply hapart
  rw [mem_range'_1]
  omega

/-- The same flow in a round of 10 slots, padded to 21: in slot 42 node 1 has both the link of the
flow, in timeslot 0, and the one to its best node, in slot 2 of 40. -/
theorem not_neverOverlaps_of_ten : ∃ s file, scheduledFlow 10 = .ok s ∧
    generate scheduledFlowArgs s = .ok file ∧ ¬ NeverOverlaps file.schedule 3 1 := by
  obtain ⟨s, hs, hfile, hlength, ⟨link, hlink, hslot⟩, hdiscovery⟩ :
      ∃ s, scheduledFlow 10 = .ok s ∧ (generate scheduledFlowArgs s).toOption.isSome ∧
        slotframeLength scheduledFlowArgs s = 21 ∧
          (∃ link ∈ flowLinks scheduledFlowArgs s 1, link.timeslot = 0) ∧ 2 ∈ discoverySlots s 1 :=
    exists_ok (by decide +kernel)
  obtain ⟨file, hgenerate⟩ := exists_eq_ok hfile
  refine ⟨s, file, hs, hgenerate, ?_⟩
  apply not_neverOverlaps_of_congruent hs hgenerate (by decide) hlink hdiscovery
  rw [hlength, hslot]
  decide

end ContikiMaster.Routing
