import ContikiMaster.Tsch.JoinedParameters
import ContikiMaster.Tsch.NeighborTable

/-!
# What a rejected beacon leaves behind

`tsch_associate` rejects a beacon between its writes. The time source and the PAN stay as they are;
the slot number and the join priority are taken over first, the timing and the hopping sequence
before the tests of the links and of the join priority. What a late rejection does to the schedule
is left out here.
-/

namespace ContikiMaster.Tsch

open Lib Option
open Framer (Frame Ies ParsedPacket tschHoppingSequenceMaxLen tschPacketParseEb)

def Mac.TimeSource (s : Mac) (addr : Linkaddr) : Prop :=
  ∃ n ∈ s.neighborList, (s.neighbor n).isTimeSource = true ∧ (s.neighbor n).addr = addr

structure KeepsTimeSource (s t : Mac) : Prop extends KeepsTable s t where
  timeSource : NeighborsWF s → ∀ addr, t.TimeSource addr ↔ s.TimeSource addr

theorem SameRoles.keepsTimeSource {s t : Mac} (hst : SameRoles s t) : KeepsTimeSource s t := by
  refine ⟨hst.keepsTable, fun _ addr ↦ ?_⟩
  simp only [Mac.TimeSource, hst.list, hst.isTimeSource, hst.addr]

theorem Created.keepsTimeSource {s t : Mac} {addr : Linkaddr} {i : ℕ} (hst : Created s addr i t)
    (other : Linkaddr) : t.TimeSource other ↔ s.TimeSource other := by
  constructor
  · rintro ⟨n, hn, htime, haddr⟩
    obtain ⟨hold, htime'⟩ := hst.timeSource hn htime
    rw [hst.old n hold] at haddr
    exact ⟨n, hold, htime', haddr⟩
  · rintro ⟨n, hn, htime, haddr⟩
    rw [← hst.old n hn] at htime haddr
    exact ⟨n, hst.mem.mpr (.inl hn), htime, haddr⟩

theorem keepsTimeSource_moves : SlotframeMoves KeepsTimeSource where
  refl s := ⟨.refl s, fun _ _ ↦ Iff.rfl⟩
  trans hst htu := ⟨hst.toKeepsTable.trans htu.toKeepsTable, fun hs addr ↦
    (htu.timeSource (hst.wf hs) addr).trans (hst.timeSource hs addr)⟩
  create {s t _ n} hnone halloc := by
    refine ⟨keepsTable_moves.create hnone halloc, fun hs addr ↦ ?_⟩
    cases n with
    | none =>
      unfold allocNeighbor at halloc
      split at halloc
      · cases halloc
        rfl
      · cases halloc
    | some i => exact (allocNeighbor_created hs.toListWF halloc).keepsTimeSource addr
  adjust s n options delta := by
    have hsame : SameRoles s (s.setNeighbor n (adjustTxLinks options delta (s.neighbor n))) :=
      .setNeighbor rfl rfl rfl
    exact hsame.keepsTimeSource
  unlink s sf l := by
    apply SameRoles.keepsTimeSource
    unfold unlinkLink
    dsimp only
    split
    · exact .of_same rfl rfl rfl rfl
    · exact .of_same rfl rfl rfl rfl
  allocate s sf request := by
    apply SameRoles.keepsTimeSource
    unfold allocLink
    split
    · exact .of_same rfl rfl rfl rfl
    · exact .of_same rfl rfl rfl rfl
  add s handle size := by
    apply SameRoles.keepsTimeSource
    unfold allocSlotframe
    split
    · exact .of_same rfl rfl rfl rfl
    · exact .of_same rfl rfl rfl rfl
  free s sf := by
    have hsame : SameRoles s (freeSlotframe s sf) := .of_same rfl rfl rfl rfl
    exact hsame.keepsTimeSource

/-- The slot number and the join priority stay. -/
structure SameClock (s t : Mac) : Prop where
  asn : t.tschCurrentAsn = s.tschCurrentAsn
  joinPriority : t.tschJoinPriority = s.tschJoinPriority

theorem sameClock_moves : SlotframeMoves SameClock where
  refl _ := ⟨rfl, rfl⟩
  trans hst htu := ⟨htu.asn.trans hst.asn, htu.joinPriority.trans hst.joinPriority⟩
  create _ halloc := by
    unfold allocNeighbor at halloc
    split at halloc
    · cases halloc
      exact ⟨rfl, rfl⟩
    · cases halloc
      exact ⟨rfl, rfl⟩
  adjust _ _ _ _ := ⟨rfl, rfl⟩
  unlink s sf l := by
    unfold unlinkLink
    dsimp only
    split
    · exact ⟨rfl, rfl⟩
    · exact ⟨rfl, rfl⟩
  allocate s sf request := by
    unfold allocLink
    split
    · exact ⟨rfl, rfl⟩
    · exact ⟨rfl, rfl⟩
  add s handle size := by
    unfold allocSlotframe
    split
    · exact ⟨rfl, rfl⟩
    · exact ⟨rfl, rfl⟩
  free _ _ := ⟨rfl, rfl⟩

theorem SlotframeMoves.adoptSchedule {R : Mac → Mac → Prop} (hR : SlotframeMoves R)
    {conf : JoinConf} {ies : Ies} {s t : Mac} {fits : Bool}
    (hadopt : Tsch.adoptSchedule conf ies s = .ok (fits, t)) : R s t := by
  unfold Tsch.adoptSchedule at hadopt
  split at hadopt
  · cases hadopt
    exact hR.refl s
  split at hadopt
  · split at hadopt
    · obtain ⟨u, hcreate, hdone⟩ := bind_eq_ok hadopt
      cases hdone
      obtain ⟨⟨removed, v⟩, hremove, hrest⟩ := bind_eq_ok hcreate
      obtain ⟨⟨sf, w⟩, hslotframe, hlast⟩ := bind_eq_ok hrest
      obtain ⟨⟨l, x⟩, hlink, hdone⟩ := bind_eq_ok hlast
      cases hdone
      have hv := hR.removeSlotframes _ hremove
      exact hR.trans hv (hR.trans (hR.addSlotframe hslotframe) (hR.addLink hlink))
    · cases hadopt
      exact hR.refl s
  · obtain ⟨⟨removed, u⟩, hremove, hrest⟩ := bind_eq_ok hadopt
    have hu := hR.removeSlotframes _ hremove
    dsimp only at hrest
    split at hrest
    · obtain ⟨⟨sf, v⟩, hslotframe, hlinks⟩ := bind_eq_ok hrest
      obtain ⟨w, hloop, hdone⟩ := bind_eq_ok hlinks
      cases hdone
      refine foldlM_invariant (P := fun w ↦ R s w) (fun link _ w x hw hstep ↦ ?_) hloop
        (hR.trans hu (hR.addSlotframe hslotframe))
      obtain ⟨⟨l, y⟩, hlink, hdone⟩ := bind_eq_ok hstep
      cases hdone
      exact hR.trans hw (hR.addLink hlink)
    · cases hrest
      exact hu

/-- The node with the slot number and the join priority of a beacon. -/
def Joiner.hear (ies : Ies) (s : Joiner) : Joiner :=
  { s with mac := { s.mac with
    tschCurrentAsn := ⟨ies.asnLs4b.toNat, ies.asnMs1b.toNat⟩
    tschJoinPriority := (ies.joinPriority + 1).toNat } }

/-- A beacon that is secured, of another PAN or without a join priority. -/
def Refuses (conf : JoinConf) (packet : ParsedPacket) : Prop :=
  packet.frame.fcf.securityEnabled = true ∨
    (conf.joinMyPanidOnly = true ∧ packet.frame.srcPid ≠ conf.ieee802154Panid) ∨
    packet.ies.joinPriority = 0xff

/-- The state that a rejected beacon leaves behind; nothing is said of the schedule behind the test
of the hopping sequence. -/
inductive Rejected (conf : JoinConf) (packet : ParsedPacket) (s : Joiner) : Joiner → Prop
  | unparsed (hret : packet.ret = 0) : Rejected conf packet s s
  | refused (hret : packet.ret ≠ 0) (hrefuses : Refuses conf packet) :
      Rejected conf packet s (s.hear packet.ies)
  | sequenceTooLong (hret : packet.ret ≠ 0) (hrefuses : ¬Refuses conf packet)
      (hlong : packet.ies.channelHoppingSequenceId ≠ 0 ∧
        tschHoppingSequenceMaxLen < packet.ies.hoppingSequenceLen.toNat) :
      Rejected conf packet s (adoptTiming conf packet.ies (s.hear packet.ies))
  | late {u : Joiner} {mac : Mac} (hret : packet.ret ≠ 0)
      (hrefuses : ¬Refuses conf packet)
      (hhopping : adoptHoppingSequence conf packet.ies
        (adoptTiming conf packet.ies (s.hear packet.ies)) = some (true, u))
      (htime : KeepsTimeSource u.mac mac) (hclock : SameClock u.mac mac) :
      Rejected conf packet s { u with mac := mac }

section Stages

variable {conf : JoinConf} {ies : Ies} {s t : Joiner}

theorem adoptTimeSource_failed {frame : Frame} (hadopt : adoptTimeSource frame s = .ok (false, t)) :
    t = s := by
  rw [adoptTimeSource] at hadopt
  obtain ⟨⟨n, mac⟩, hadd, hrest⟩ := bind_eq_ok hadopt
  cases n with
  | none =>
    cases hrest
    rcases tschQueueAddNbr_cases hadd with hsame | ⟨-, -, halloc⟩
    · rw [hsame]
    · unfold allocNeighbor at halloc
      split at halloc
      · cases halloc
        rfl
      · cases halloc
  | some n =>
    obtain ⟨⟨updated, mac'⟩, -, hreturn⟩ := bind_eq_ok hrest
    cases hreturn

theorem adoptHoppingSequence_keeps {fits : Bool}
    (hadopt : adoptHoppingSequence conf ies s = some (fits, t)) :
    t.mac = s.mac ∧ t.macPanId = s.macPanId ∧ t.tschIsPanSecured = s.tschIsPanSecured := by
  rw [adoptHoppingSequence] at hadopt
  unfold setHoppingSequence at hadopt
  split_ifs at hadopt
  · simp only [map_map, map_eq_some_iff] at hadopt
    obtain ⟨div, -, heq⟩ := hadopt
    cases heq
    exact ⟨rfl, rfl, rfl⟩
  · simp only [map_map, map_eq_some_iff] at hadopt
    obtain ⟨div, -, heq⟩ := hadopt
    cases heq
    exact ⟨rfl, rfl, rfl⟩
  · cases hadopt
    exact ⟨rfl, rfl, rfl⟩

end Stages

theorem Rejected.keeps {conf : JoinConf} {packet : ParsedPacket} {s t : Joiner}
    (hrejected : Rejected conf packet s t) :
    t.macPanId = s.macPanId ∧ t.tschIsPanSecured = s.tschIsPanSecured ∧
      (NeighborsWF s.mac → ∀ addr, t.mac.TimeSource addr ↔ s.mac.TimeSource addr) := by
  have hheard : KeepsTimeSource s.mac (s.hear packet.ies).mac :=
    SameRoles.keepsTimeSource (.of_same rfl rfl rfl rfl)
  cases hrejected with
  | unparsed => exact ⟨rfl, rfl, fun _ _ ↦ Iff.rfl⟩
  | refused => exact ⟨rfl, rfl, hheard.timeSource⟩
  | sequenceTooLong => exact ⟨rfl, rfl, hheard.timeSource⟩
  | late _ _ hhopping htime =>
    obtain ⟨hmac, hpan, hsecured⟩ := adoptHoppingSequence_keeps hhopping
    rw [hmac] at htime
    exact ⟨hpan, hsecured, (keepsTimeSource_moves.trans hheard htime).timeSource⟩

/-- A rejected beacon leaves the time source and the PAN as they were; what else it leaves depends on
how far it got. -/
theorem tschAssociate_rejected {conf : JoinConf} {fuel len : ℕ} {payload : ℕ → UInt8} {frame : Frame}
    {ies : Ies} {s t : Joiner}
    (hrejected : tschAssociate conf fuel payload len frame ies s = some (false, t)) :
    t.macPanId = s.macPanId ∧ t.tschIsPanSecured = s.tschIsPanSecured ∧
      (NeighborsWF s.mac → ∀ addr, t.mac.TimeSource addr ↔ s.mac.TimeSource addr) ∧
      ∃ packet, Cursor.value (tschPacketParseEb conf.packetConf fuel len frame ies) payload 0 =
        some packet ∧ Rejected conf packet s t := by
  have hstage : ∃ packet, Cursor.value (tschPacketParseEb conf.packetConf fuel len frame ies)
      payload 0 = some packet ∧ Rejected conf packet s t := by
    rw [tschAssociate, bind_eq_bind, bind_eq_some_iff] at hrejected
    obtain ⟨packet, hparsed, hrejected⟩ := hrejected
    refine ⟨packet, hparsed, ?_⟩
    dsimp only at hrejected
    split_ifs at hrejected with hret hsecured hpanid hjoin
    · cases hrejected
      exact .unparsed hret
    · cases hrejected
      exact .refused hret (.inl hsecured)
    · cases hrejected
      exact .refused hret (.inr (.inl hpanid))
    · cases hrejected
      exact .refused hret (.inr (.inr hjoin))
    have hrefuses : ¬Refuses conf packet := by
      rintro (hsecured' | hpanid' | hjoin')
      · exact hsecured hsecured'
      · exact hpanid hpanid'
      · exact hjoin hjoin'
    rw [bind_eq_bind, bind_eq_some_iff] at hrejected
    obtain ⟨⟨fits, u⟩, hhopping, hrejected⟩ := hrejected
    cases fits with
    | false =>
      cases hrejected
      rw [adoptHoppingSequence] at hhopping
      split_ifs at hhopping with hdefault hfits
      · simp at hhopping
      · simp at hhopping
      · cases hhopping
        exact .sequenceTooLong hret hrefuses ⟨hdefault, Nat.lt_of_not_le hfits⟩
    | true =>
      simp only [not_true_eq_false, if_false, bind_eq_bind, bind_eq_some_iff]
        at hrejected
      obtain ⟨⟨fits, mac⟩, hschedule, hrejected⟩ := hrejected
      have hadopted := toOption_eq_some hschedule
      have hlate := Rejected.late hret hrefuses hhopping
        (keepsTimeSource_moves.adoptSchedule hadopted) (sameClock_moves.adoptSchedule hadopted)
      cases fits with
      | false =>
        cases hrejected
        exact hlate
      | true =>
        simp only [not_true_eq_false, if_false] at hrejected
        split_ifs at hrejected
        · rw [adoptTimeSource_failed (toOption_eq_some hrejected)]
          exact hlate
        · cases hrejected
          exact hlate
  obtain ⟨packet, hparsed, hstage⟩ := hstage
  obtain ⟨hpan, hsecured, htime⟩ := hstage.keeps
  exact ⟨hpan, hsecured, htime, packet, hparsed, hstage⟩

/-- The default options in another PAN. -/
def foreignJoin : JoinConf := { defaultJoin with ieee802154Panid := 0x1234 }

theorem foreignJoin_rejects :
    (tschAssociate foreignJoin 8 (fun i ↦ Framer.plainBeacon.getD i 0) 35 Frame.zero Ies.zero
      firstJoiner).map (fun r ↦ (r.1, r.2.mac.tschJoinPriority)) = some (false, 1) := by
  decide +kernel

theorem tschAssociate_rejected_foreign :
    ∃ t, t.macPanId = firstJoiner.macPanId ∧ t.tschIsPanSecured = firstJoiner.tschIsPanSecured ∧
      (NeighborsWF firstJoiner.mac →
        ∀ addr, t.mac.TimeSource addr ↔ firstJoiner.mac.TimeSource addr) ∧
      ∃ packet, Cursor.value (tschPacketParseEb foreignJoin.packetConf 8 35 Frame.zero Ies.zero)
        (fun i ↦ Framer.plainBeacon.getD i 0) 0 = some packet ∧
          Rejected foreignJoin packet firstJoiner t := by
  obtain ⟨⟨flag, t⟩, hrejected, hresult⟩ := map_eq_some_iff.mp foreignJoin_rejects
  simp only [Prod.mk.injEq] at hresult
  obtain ⟨rfl, -⟩ := hresult
  exact ⟨t, tschAssociate_rejected hrejected⟩

/-- A beacon of another PAN is rejected, and its join priority stays. -/
theorem not_unchanged_foreign :
    ∃ t, tschAssociate foreignJoin 8 (fun i ↦ Framer.plainBeacon.getD i 0) 35 Frame.zero Ies.zero
        firstJoiner = some (false, t) ∧
      firstJoiner.mac.tschJoinPriority = 0xff ∧ t.mac.tschJoinPriority = 1 := by
  obtain ⟨⟨flag, t⟩, hrejected, hresult⟩ := map_eq_some_iff.mp foreignJoin_rejects
  simp only [Prod.mk.injEq] at hresult
  obtain ⟨rfl, hpriority⟩ := hresult
  exact ⟨t, hrejected, rfl, hpriority⟩

end ContikiMaster.Tsch
