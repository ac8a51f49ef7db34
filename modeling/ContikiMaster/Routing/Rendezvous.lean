import ContikiMaster.Routing.Install
import ContikiMaster.Scheduler.ConflictFree
import ContikiMaster.Scheduler.SlotMatrix
import ContikiMaster.Tsch.InstalledLinks
import Mathlib.Data.List.GetD

/-!
# The meeting of sender and receiver

A node sends its data in the slot that its row of the matrix names for sending; its best
node listens in the slot that its own row names for receiving. The matrix never hands out a
slot twice, so the two agree only where the matrix does not fit into bytes.
-/

namespace ContikiMaster.Routing

open Sys Tsch Lib Scheduler Function List Option

/-- The link that `add_link_to_best_node` installs is in this cell of a slotframe of this size. -/
def TxInstalled (n : Node) (slot channel size : ℕ) : Prop :=
  ∃ m sf l, addLinkToBestNode n = .ok m ∧ m.sf (m.maxSlotFrameUsed + 1) = some sf ∧
    m.bestTschSheduleLink = some l ∧ linkOptionTx (m.mac.link l).linkOptions = true ∧
    LinkAt m.mac sf l slot channel size

/-- The link that `install_discovery_schedule` installs is in this cell of a slotframe of this
size. -/
def RxInstalled (n : Node) (slot channel size : ℕ) : Prop :=
  ∃ m sf l, installDiscoverySchedule n = .ok m ∧ m.sf (m.maxSlotFrameUsed + 1) = some sf ∧
    linkOptionRx (m.mac.link l).linkOptions = true ∧ LinkAt m.mac sf l slot channel size

/-- Both installations succeed, in the same cell of slotframes of the same size. -/
def Rendezvous (sender receiver : Node) : Prop :=
  ∃ slot channel size, TxInstalled sender slot channel size ∧ RxInstalled receiver slot channel size

/-- The matrix of the schedule tool is on the node, in bytes. -/
def MatrixInstalled (matrix : List (List ℕ)) (n : Node) : Prop :=
  ∀ row col, 1 ≤ row → row < matrix.length → col < 5 →
    n.matrix row col = slotEntry matrix row col % 256

/-- The slot in which a link is installed for an entry of the matrix. -/
def installedSlot (entry otherwise : ℕ) : ℕ := if entry % 256 ≠ 0 then entry % 256 else otherwise

/-- The sender's own slot and the receiver's own slot come out the same, within the slotframe. -/
def CellsAgree (matrix : List (List ℕ)) (a b : ℕ) : Prop :=
  installedSlot (slotEntry matrix a 1) b = installedSlot (slotEntry matrix b 3) b ∧
    installedSlot (slotEntry matrix b 3) b < discoverySize

/-- Between slots, with no link to a best node yet, its cell free in the discovery slotframe, and
memory for a link. -/
structure RoomForBestLink (n : Node) : Prop where
  idle : Idle n.mac
  first : n.bestTschSheduleLink = none
  slotframe : ∃ sf, n.sf (n.maxSlotFrameUsed + 1) = some sf ∧
    (n.mac.slotframe sf).size = discoverySize ∧
    tschScheduleGetLinkByTimeslot n.mac sf (bestLinkRequest n).timeslot = none
  link : n.mac.linkMemb.alloc.isSome = true

/-- Between slots, with no discovery slotframe yet, and memory for it and a link. -/
structure RoomForDiscovery (n : Node) : Prop where
  idle : Idle n.mac
  first : tschScheduleGetSlotframeByHandle n.mac (n.maxSlotFrameUsed + 1) = none
  slotframe : n.mac.slotframeMemb.alloc.isSome = true
  link : n.mac.linkMemb.alloc.isSome = true

section Matrix

variable {matrix : List (List ℕ)} {row col : ℕ}

theorem getD_flatten (hrows : ∀ row ∈ matrix, row.length = 5) (hcol : col < 5) :
    matrix.flatten.getD (5 * row + col) 0 = slotEntry matrix row col := by
  induction matrix generalizing row with
  | nil => rfl
  | cons first rest ih =>
    have hfirst := hrows first mem_cons_self
    rw [flatten_cons]
    cases row with
    | zero =>
      rw [getD_append _ _ _ _ (by omega)]
      simp [slotEntry]
    | succ row =>
      rw [getD_append_right _ _ _ _ (by omega), hfirst,
        show 5 * (row + 1) + col - 5 = 5 * row + col by omega,
        ih fun r hr ↦ hrows r (mem_cons_of_mem _ hr)]
      rfl

theorem copyAvailableSlotMatrix_apply {n m : Node} {availableSlotMatrix : List ℕ}
    (hcall : copyAvailableSlotMatrix n availableSlotMatrix = .ok m)
    (hrow : 1 ≤ row ∧ row ≤ m.deploymentNodeCount) (hcol : col < 5) :
    m.matrix row col = availableSlotMatrix.getD (5 * row + col) 0 % 256 := by
  unfold copyAvailableSlotMatrix at hcall
  split at hcall
  · cases hcall
  · cases hcall
    exact if_pos ⟨hrow.1, hrow.2, hcol⟩

theorem generatedSchedule_matrixInstalled {schedule : GeneratedSchedule} {n m : Node}
    (hcall : generatedSchedule schedule n = .ok m)
    (hmatrix : schedule.availableSlotMatrix = matrix.flatten)
    (hrows : ∀ row ∈ matrix, row.length = 5) (hcount : matrix.length = m.deploymentNodeCount + 1) :
    MatrixInstalled matrix m := by
  obtain ⟨k, -, hrest⟩ := bind_eq_ok hcall
  obtain ⟨u, -, hrest⟩ := bind_eq_ok hrest
  obtain ⟨⟨l, mac⟩, -, hcopy⟩ := bind_eq_ok hrest
  intro row col hrow hlt hcol
  rw [← getD_flatten hrows hcol, ← hmatrix]
  exact copyAvailableSlotMatrix_apply hcopy ⟨hrow, by omega⟩ hcol

theorem recreateSlotframe_frame {n m : Node} {i size : ℕ} (hcall : recreateSlotframe n i size = .ok m) :
    ∃ sf mac, m = { n with sf := update n.sf i sf, mac := mac } ∧
      ∀ x, sf = some x → (mac.slotframe x).linksList = [] ∧ (mac.slotframe x).size = size := by
  unfold recreateSlotframe at hcall
  obtain ⟨⟨removed, mac⟩, -, hrest⟩ := bind_eq_ok hcall
  obtain ⟨⟨sf, mac'⟩, hadd, hdone⟩ := bind_eq_ok hrest
  cases hdone
  refine ⟨sf, mac', rfl, fun x hx ↦ ?_⟩
  subst hx
  exact tschScheduleAddSlotframe_record hadd

end Matrix

section Links

variable {n : Node} {slot channel size : ℕ}

theorem TxInstalled.cell (htx : TxInstalled n slot channel size) :
    slot = (bestLinkRequest n).timeslot ∧ channel = (bestLinkRequest n).channelOffset ∧
      slot < size := by
  obtain ⟨m, sf, l, hcall, hsf, hbest, -, hat⟩ := htx
  obtain ⟨⟨removed, mac⟩, -, hrest⟩ := bind_eq_ok hcall
  obtain ⟨⟨link, mac'⟩, hadd, hdone⟩ := bind_eq_ok hrest
  cases hdone
  obtain rfl : link = some l := hbest
  obtain ⟨x, hx, hlt, hnew, -⟩ := tschScheduleAddLink_linkAt hadd
  obtain rfl : x = sf := some.inj (hx.symm.trans hsf)
  refine ⟨hat.timeslot.symm.trans hnew.timeslot,
    hat.channelOffset.symm.trans hnew.channelOffset, ?_⟩
  rw [← hat.size, hnew.size, ← hat.timeslot, hnew.timeslot]
  exact hlt

theorem RxInstalled.cell (hrx : RxInstalled n slot channel size) :
    slot = (discoveryLinkRequest n).timeslot ∧ channel = (discoveryLinkRequest n).channelOffset ∧
      size = discoverySize ∧ slot < size := by
  obtain ⟨m, sf, l, hcall, hsf, -, hat⟩ := hrx
  obtain ⟨k, hrecreate, hrest⟩ := bind_eq_ok hcall
  obtain ⟨⟨link, mac⟩, hadd, hdone⟩ := bind_eq_ok hrest
  cases hdone
  obtain ⟨sf', mac', rfl, hrecord⟩ := recreateSlotframe_frame hrecreate
  have hsf' : sf' = some sf := by
    rw [← hsf]
    exact (update_self (n.maxSlotFrameUsed + 1) sf' n.sf).symm
  obtain ⟨hempty, hsize⟩ := hrecord sf hsf'
  have hnow : update n.sf (n.maxSlotFrameUsed + 1) sf' (n.maxSlotFrameUsed + 1) = some sf := hsf
  change tschScheduleAddLink mac' (update n.sf (n.maxSlotFrameUsed + 1) sf'
    (n.maxSlotFrameUsed + 1)) (discoveryLinkRequest n) = _ at hadd
  rw [hnow] at hadd
  obtain rfl := tschScheduleAddLink_of_empty hempty hadd hat.mem
  obtain ⟨x, hx, hlt, hnew, -⟩ := tschScheduleAddLink_linkAt hadd
  obtain rfl := some.inj hx
  refine ⟨hat.timeslot.symm.trans hnew.timeslot,
    hat.channelOffset.symm.trans hnew.channelOffset, ?_, ?_⟩
  · rw [← hat.size, hnew.size, hsize]
  · rw [← hat.size, hnew.size, ← hat.timeslot, hnew.timeslot]
    exact hlt

theorem RoomForBestLink.txInstalled (hroom : RoomForBestLink n)
    (hslot : (bestLinkRequest n).timeslot < discoverySize)
    (hchannel : (bestLinkRequest n).channelOffset ≤ 15)
    (htx : linkOptionTx (bestLinkRequest n).linkOptions = true) :
    TxInstalled n (bestLinkRequest n).timeslot (bestLinkRequest n).channelOffset discoverySize := by
  obtain ⟨sf, hsf, hsize, hfree⟩ := hroom.slotframe
  obtain ⟨l, t, hadd⟩ := tschScheduleAddLink_isSome hroom.idle
    (lt_of_lt_of_eq hslot hsize.symm) hchannel hfree hroom.link
  obtain ⟨x, hx, -, hnew, hoptions⟩ := tschScheduleAddLink_linkAt hadd
  obtain rfl := some.inj hx
  refine ⟨{ n with bestTschSheduleLink := some l, mac := t }, sf, l, ?_, hsf, rfl, ?_, ?_⟩
  · unfold addLinkToBestNode removeBestLink
    rw [hroom.first]
    change (tschScheduleAddLink n.mac (n.sf (n.maxSlotFrameUsed + 1)) (bestLinkRequest n) >>=
      fun x ↦ _) = _
    rw [hsf, hadd]
    rfl
  · rw [← htx]
    exact congrArg linkOptionTx hoptions
  · rw [← hsize]
    exact hnew

theorem RoomForDiscovery.rxInstalled (hroom : RoomForDiscovery n)
    (hslot : (discoveryLinkRequest n).timeslot < discoverySize)
    (hchannel : (discoveryLinkRequest n).channelOffset ≤ 15)
    (hrx : linkOptionRx (discoveryLinkRequest n).linkOptions = true) :
    RxInstalled n (discoveryLinkRequest n).timeslot (discoveryLinkRequest n).channelOffset
      discoverySize := by
  obtain ⟨⟨sf, pool⟩, halloc⟩ := isSome_iff_exists.mp hroom.slotframe
  set mac := (allocSlotframe n.mac (n.maxSlotFrameUsed + 1) discoverySize).2 with hmac
  have hslotframe : tschScheduleAddSlotframe n.mac (n.maxSlotFrameUsed + 1) discoverySize =
      .ok (some sf, mac) := by
    rw [tschScheduleAddSlotframe_idle hroom.idle (by decide) hroom.first, hmac]
    unfold allocSlotframe
    rw [halloc]
  have hidle : Idle mac := by
    rw [hmac]
    unfold allocSlotframe
    rw [halloc]
    exact hroom.idle
  have hlinks : mac.linkMemb = n.mac.linkMemb := by
    rw [hmac]
    unfold allocSlotframe
    rw [halloc]
  obtain ⟨hempty, hsize⟩ := tschScheduleAddSlotframe_record hslotframe
  have hfree : tschScheduleGetLinkByTimeslot mac sf (discoveryLinkRequest n).timeslot = none := by
    rw [tschScheduleGetLinkByTimeslot_idle hidle, hempty]
    rfl
  obtain ⟨l, t, hadd⟩ := tschScheduleAddLink_isSome hidle (lt_of_lt_of_eq hslot hsize.symm)
    hchannel hfree (by rw [hlinks]; exact hroom.link)
  obtain ⟨x, hx, -, hnew, hoptions⟩ := tschScheduleAddLink_linkAt hadd
  obtain rfl := some.inj hx
  set k : Node := { n with
    sf := update n.sf (n.maxSlotFrameUsed + 1) (some sf), mac := mac } with hk
  have hrecreate : recreateSlotframe n (n.maxSlotFrameUsed + 1) discoverySize = .ok k := by
    unfold recreateSlotframe
    rw [hroom.first]
    change (tschScheduleAddSlotframe n.mac (n.maxSlotFrameUsed + 1) discoverySize >>= fun x ↦ _) = _
    rw [hslotframe]
    rfl
  have hself : k.sf (k.maxSlotFrameUsed + 1) = some sf := update_self ..
  refine ⟨{ k with mac := t, ownReceiver := 0 }, sf, l, ?_, hself, ?_, ?_⟩
  · unfold installDiscoverySchedule
    rw [hrecreate]
    change (tschScheduleAddLink mac (k.sf (k.maxSlotFrameUsed + 1)) (discoveryLinkRequest n) >>=
      fun x ↦ _) = _
    rw [hself, hadd]
    rfl
  · rw [← hrx]
    exact congrArg linkOptionRx hoptions
  · rw [← hsize]
    exact hnew

end Links

section Meeting

variable {args : CreateArgs} {fuel : ℕ} {flows : List Flow} {s : Schedule} {sender receiver : Node}

theorem requests_of_matrixInstalled {matrix : List (List ℕ)} {n : Node}
    (hmatrix : MatrixInstalled matrix n) (hnode : 1 ≤ n.nodeId ∧ n.nodeId < matrix.length)
    {tx rx : ℕ} (hrow : matrix.getD n.nodeId [] = [n.nodeId, tx, 0, rx, 0]) :
    (bestLinkRequest n).timeslot = installedSlot (slotEntry matrix n.nodeId 1) n.bestNode ∧
      (bestLinkRequest n).channelOffset = 0 ∧ (bestLinkRequest n).linkOptions = 1 ∧
      (discoveryLinkRequest n).timeslot = installedSlot (slotEntry matrix n.nodeId 3) n.nodeId ∧
      (discoveryLinkRequest n).channelOffset = 0 ∧ (discoveryLinkRequest n).linkOptions = 2 := by
  have hcol : ∀ col, col < 5 → n.matrix n.nodeId col = slotEntry matrix n.nodeId col % 256 :=
    fun col hlt ↦ hmatrix n.nodeId col hnode.1 hnode.2 hlt
  have hchannel : slotEntry matrix n.nodeId 2 = 0 ∧ slotEntry matrix n.nodeId 4 = 0 := by
    unfold slotEntry
    rw [hrow]
    exact ⟨rfl, rfl⟩
  unfold bestLinkRequest discoveryLinkRequest installedSlot
  rw [hcol 1 (by omega), hcol 2 (by omega), hcol 3 (by omega), hcol 4 (by omega), hchannel.1,
    hchannel.2]
  refine ⟨?_, ?_, ?_, ?_, ?_, ?_⟩ <;> split <;> rfl

theorem availableSlotMatrix_length (numCoojaNodes length : ℕ) (schedule : Grid Cell) :
    (availableSlotMatrix numCoojaNodes length schedule).length = numCoojaNodes + 1 := by
  have hrows : ∀ (nodes : List ℕ) (used : ℕ → Bool),
      (rowsFrom length used nodes).length = nodes.length := by
    intro nodes
    induction nodes with
    | nil => exact fun used ↦ rfl
    | cons node nodes ih => exact fun used ↦ congrArg Nat.succ (ih _)
  rw [availableSlotMatrix_eq, length_cons, hrows, length_range']

/-- A sender and its best node meet only where their slots agree as bytes; they do meet there, given
room, and never in a schedule of at most 256 slots. -/
theorem rendezvous_cellsAgree (hcreate : create args fuel flows = .ok s)
    (hrows : ∀ row ∈ s.availableSlotMatrix, row.length = 5)
    (hsender : MatrixInstalled s.availableSlotMatrix sender)
    (hreceiver : MatrixInstalled s.availableSlotMatrix receiver)
    (ha : 1 ≤ sender.nodeId ∧ sender.nodeId ≤ args.numCoojaNodes)
    (hb : 1 ≤ receiver.nodeId ∧ receiver.nodeId ≤ args.numCoojaNodes)
    (hbest : sender.bestNode = receiver.nodeId) :
    (Rendezvous sender receiver →
      CellsAgree s.availableSlotMatrix sender.nodeId receiver.nodeId) ∧
    (RoomForBestLink sender → RoomForDiscovery receiver →
      CellsAgree s.availableSlotMatrix sender.nodeId receiver.nodeId →
      Rendezvous sender receiver) ∧
    (s.length ≤ 256 → ¬ Rendezvous sender receiver) := by
  obtain ⟨x, -, hfinal⟩ := placeCells_of_create hcreate
  obtain ⟨-, -, -, -, -, -, -, hmatrix⟩ := finalise_spec hfinal
  rw [hmatrix] at hrows hsender hreceiver ⊢
  have hlength := availableSlotMatrix_length args.numCoojaNodes s.length s.schedule
  obtain ⟨txA, rxA, hrowA, htxA, -, htxA', -⟩ := availableSlotMatrix_row hrows ha
  obtain ⟨txB, rxB, hrowB, -, hrxB, -, hrxB'⟩ := availableSlotMatrix_row hrows hb
  have hdistinct := availableSlotMatrix_distinct hrows ha hb
  set matrix := availableSlotMatrix args.numCoojaNodes s.length s.schedule
  obtain ⟨htxSlot, htxChannel, htxOptions, -⟩ :=
    requests_of_matrixInstalled hsender ⟨ha.1, by omega⟩ hrowA
  obtain ⟨-, -, -, hrxSlot, hrxChannel, hrxOptions⟩ :=
    requests_of_matrixInstalled hreceiver ⟨hb.1, by omega⟩ hrowB
  rw [hbest] at htxSlot
  have hagree : Rendezvous sender receiver → CellsAgree matrix sender.nodeId receiver.nodeId := by
    rintro ⟨slot, channel, size, htx, hrx⟩
    obtain ⟨hslot, -, -⟩ := htx.cell
    obtain ⟨hslot', -, hsize, hlt⟩ := hrx.cell
    refine ⟨?_, ?_⟩
    · rw [← htxSlot, ← hrxSlot, ← hslot, hslot']
    · rw [← hrxSlot, ← hslot', ← hsize]
      exact hlt
  refine ⟨hagree, fun hroomA hroomB hcells ↦ ?_, fun hshort hmeet ↦ ?_⟩
  · obtain ⟨hsame, hlt⟩ := hcells
    have htx := hroomA.txInstalled (by rw [htxSlot, hsame]; exact hlt)
      (by rw [htxChannel]; exact Nat.zero_le _) (by rw [htxOptions]; rfl)
    have hrx := hroomB.rxInstalled (by rw [hrxSlot]; exact hlt)
      (by rw [hrxChannel]; exact Nat.zero_le _) (by rw [hrxOptions]; rfl)
    rw [htxSlot, htxChannel, hsame] at htx
    rw [hrxSlot, hrxChannel] at hrx
    exact ⟨_, _, _, htx, hrx⟩
  · -- the entries fit into a byte and differ
    obtain ⟨hsame, -⟩ := hagree hmeet
    have hentryA : slotEntry matrix sender.nodeId 1 = txA := by
      unfold slotEntry
      rw [hrowA]
      rfl
    have hentryB : slotEntry matrix receiver.nodeId 3 = rxB := by
      unfold slotEntry
      rw [hrowB]
      rfl
    rw [hentryA, hentryB] at hdistinct hsame
    unfold installedSlot at hsame
    rw [Nat.mod_eq_of_lt (by omega : txA < 256), Nat.mod_eq_of_lt (by omega : rxB < 256),
      if_pos (by omega), if_pos (by omega)] at hsame
    exact hdistinct hsame

def cycleArgs : CreateArgs := { plainArgs .edf with shortestRepeatingCycle := 20 }

/-- A node at the beginning, with a matrix and a best node. -/
def nodeWithMatrix (matrix : List (List ℕ)) (nodeId bestNode : ℕ) : Node :=
  { Node.zero nodeId 5 8 (Mac.zero smallConfig) with
    matrix := fun row col ↦ slotEntry matrix row col % 256
    bestNode := bestNode }

theorem nodeWithMatrix_installed (matrix : List (List ℕ)) (nodeId bestNode : ℕ) :
    MatrixInstalled matrix (nodeWithMatrix matrix nodeId bestNode) := fun _ _ _ _ _ ↦ rfl

theorem rendezvous_cellsAgree_cycle :
    ∃ s, create cycleArgs 0 [pathFlow 1 1 3 [2]] = .ok s ∧
      let sender := nodeWithMatrix s.availableSlotMatrix 3 2
      let receiver := nodeWithMatrix s.availableSlotMatrix 2 1
      (Rendezvous sender receiver → CellsAgree s.availableSlotMatrix 3 2) ∧
      (RoomForBestLink sender → RoomForDiscovery receiver →
        CellsAgree s.availableSlotMatrix 3 2 → Rendezvous sender receiver) ∧
      (s.length ≤ 256 → ¬ Rendezvous sender receiver) := by
  obtain ⟨s, hcreate, hrows⟩ : ∃ s, create cycleArgs 0 [pathFlow 1 1 3 [2]] = .ok s ∧
      ∀ row ∈ s.availableSlotMatrix, row.length = 5 := exists_ok (by decide +kernel)
  exact ⟨s, hcreate, rendezvous_cellsAgree hcreate hrows
    (nodeWithMatrix_installed _ 3 2) (nodeWithMatrix_installed _ 2 1)
    (show 1 ≤ 3 ∧ 3 ≤ 5 by decide) (show 1 ≤ 2 ∧ 2 ≤ 5 by decide) rfl⟩

/-- There node 3 sends in slot 4, and node 2 listens in slot 18. -/
theorem not_rendezvous_cycle :
    ∃ s, create cycleArgs 0 [pathFlow 1 1 3 [2]] = .ok s ∧
      (∀ row ∈ s.availableSlotMatrix, row.length = 5) ∧
      MatrixInstalled s.availableSlotMatrix (nodeWithMatrix s.availableSlotMatrix 3 2) ∧
      MatrixInstalled s.availableSlotMatrix (nodeWithMatrix s.availableSlotMatrix 2 1) ∧
      ¬ Rendezvous (nodeWithMatrix s.availableSlotMatrix 3 2)
        (nodeWithMatrix s.availableSlotMatrix 2 1) := by
  obtain ⟨s, hs, hrows, htxSlot, hrxSlot⟩ : ∃ s, create cycleArgs 0 [pathFlow 1 1 3 [2]] = .ok s ∧
      (∀ row ∈ s.availableSlotMatrix, row.length = 5) ∧
      (bestLinkRequest (nodeWithMatrix s.availableSlotMatrix 3 2)).timeslot = 4 ∧
      (discoveryLinkRequest (nodeWithMatrix s.availableSlotMatrix 2 1)).timeslot = 18 :=
    exists_ok (by decide +kernel)
  refine ⟨s, hs, hrows, nodeWithMatrix_installed _ 3 2,
    nodeWithMatrix_installed _ 2 1, ?_⟩
  rintro ⟨slot, channel, size, htx, hrx⟩
  have hfour := htx.cell.1.trans htxSlot
  have heighteen := hrx.cell.1.trans hrxSlot
  omega

end Meeting

end ContikiMaster.Routing
