import ContikiMaster.Framer.TschPacket
import ContikiMaster.Tsch.SlotYields

/-!
# The status of a transmission

`tsch_tx_slot` keeps the status in a static variable and assigns it on the branches that reach the
radio. When the driver fails to prepare the frame the status of an earlier slot, at first
`MAC_TX_OK`, is reported. A frame of any kind is taken for the acknowledgement by its sequence
number and addresses, and so is a negative length.
-/

namespace ContikiMaster.Tsch

open Lib List Option
open Framer (Addr8 Fcf Frame Ies PacketConf ParsedPacket ackFrame ieee802154_2015 parsePacketIes
  tschPacketParseEack)

/-- The values that `NETSTACK_RADIO.transmit` returns. -/
inductive RadioTx
  | ok
  | err
  | collision
  | noack
  deriving DecidableEq

def macTxNoack : ℕ := 2

/-- What the radio driver answers in a transmit slot: the results of `prepare`, of `transmit` and
of `read`, and the buffer that was read. With it, what the stack holds where `tsch_tx_slot` puts the
parsed frame, and a bound on the iterations of its parser. -/
structure RadioAnswers where
  prepare : ℤ
  transmit : RadioTx
  read : ℤ
  ackbuf : ℕ → UInt8
  frame : Frame
  fuel : ℕ

structure AckReceiver where
  conf : PacketConf
  macPanId : UInt16
  nodeAddr : Addr8

/-- The call of `tsch_packet_parse_eack`; `none` when it does not return. -/
def parseAck (node : AckReceiver) (seqno : UInt8) (radio : RadioAnswers) : Option ParsedPacket :=
  Cursor.value (tschPacketParseEack node.conf node.macPanId node.nodeAddr radio.fuel
    radio.read.toNat seqno radio.frame Ies.zero) radio.ackbuf 0

/-- `ack_len` after the acknowledgement was parsed. -/
def ackLen (node : AckReceiver) (seqno : UInt8) (radio : RadioAnswers) : Option ℤ :=
  if 0 < radio.read then
    (parseAck node seqno radio).map fun packet ↦ if packet.ret = 0 then 0 else radio.read
  else some radio.read

/-- `mac_tx_status` at the end of `tsch_tx_slot`; `none` when the slot does not end. -/
def txStatus (node : AckReceiver) (macTxStatus : ℕ) (isBroadcast : Bool) (seqno : UInt8)
    (radio : RadioAnswers) : Option ℕ :=
  if radio.prepare = 0 then
    if radio.transmit = .ok then
      if isBroadcast then some macTxOk
      else (ackLen node seqno radio).map fun len ↦ if len ≠ 0 then macTxOk else macTxNoack
    else some macTxErr
  else some macTxStatus

/-- The header of an enhanced acknowledgement that carries a sequence number. -/
def IsEack (fcf : Fcf) : Prop :=
  fcf.frameType = ackFrame ∧ fcf.frameVersion = ieee802154_2015 ∧
    fcf.sequenceNumberSuppression = false

instance (fcf : Fcf) : Decidable (IsEack fcf) := inferInstanceAs (Decidable (_ ∧ _ ∧ _))

/-- A valid enhanced acknowledgement with the sequence number was received. -/
def ValidEack (node : AckReceiver) (seqno : UInt8) (radio : RadioAnswers) : Prop :=
  0 < radio.read ∧ ∃ packet, parseAck node seqno radio = some packet ∧ packet.ret ≠ 0 ∧
    IsEack packet.frame.fcf ∧ packet.frame.seq = seqno

/-- What is passed to `tsch_queue_packet_sent` for a packet, with what the radio answered in that
slot. -/
structure TxReport where
  isBroadcast : Bool
  seqno : UInt8
  radio : RadioAnswers
  status : ℕ

/-- The packet was transmitted and, for a unicast queue, acknowledged. -/
structure TxReport.Transmitted (node : AckReceiver) (r : TxReport) : Prop where
  prepared : r.radio.prepare = 0
  transmitted : r.radio.transmit = .ok
  acknowledged : r.isBroadcast = false → ValidEack node r.seqno r.radio

/-- A success is a transmission, and what is reported does not depend on an earlier slot. -/
def TxReport.Honest (node : AckReceiver) (r : TxReport) : Prop :=
  (r.status = macTxOk → r.Transmitted node) ∧
    ∀ earlier, txStatus node earlier r.isBroadcast r.seqno r.radio = some r.status

/-- The driver prepares the frame; after a transmission to a unicast queue it returns no negative
length, and a frame that the parser accepts is an enhanced acknowledgement with a sequence
number. -/
def CleanAnswers (node : AckReceiver) (isBroadcast : Bool) (seqno : UInt8)
    (radio : RadioAnswers) : Prop :=
  radio.prepare = 0 ∧ (radio.transmit = .ok → isBroadcast = false →
    0 ≤ radio.read ∧ (0 < radio.read →
      ∀ packet ∈ parseAck node seqno radio, packet.ret ≠ 0 → IsEack packet.frame.fcf))

section Transmission

variable {node : AckReceiver} {seqno : UInt8} {radio : RadioAnswers} {packet : ParsedPacket}
  {r : TxReport} {earlier : ℕ}

theorem frame_of_parsePacketIes {conf : PacketConf} {fuel bufSize ret p : ℕ} {frame : Frame}
    {ies : Ies} {mem : ℕ → UInt8}
    (hparse : Cursor.value (parsePacketIes conf fuel bufSize ret frame ies) mem p = some packet) :
    packet.frame = frame := by
  unfold parsePacketIes at hparse
  dsimp only at hparse
  split at hparse
  · rw [Cursor.value_bind] at hparse
    split at hparse
    · cases hparse
    · cases hparse
      rfl
    · cases hparse
      rfl
  · cases hparse
    rfl

theorem seq_of_parseAck (hparse : parseAck node seqno radio = some packet)
    (hret : packet.ret ≠ 0) : packet.frame.seq = seqno := by
  unfold parseAck tschPacketParseEack at hparse
  rw [Cursor.value_bind] at hparse
  split at hparse
  rename_i ret frame _
  dsimp only at hparse
  split at hparse
  · cases hparse
    exact absurd rfl hret
  split at hparse
  · cases hparse
    exact absurd rfl hret
  rename_i hseq
  split at hparse
  · cases hparse
    exact absurd rfl hret
  split at hparse
  · cases hparse
    exact absurd rfl hret
  split at hparse
  · cases hparse
    exact absurd rfl hret
  · rw [frame_of_parsePacketIes hparse]
    exact (not_not.mp hseq).symm

theorem validEack_of_acked_iff {len : ℤ} (hlen : ackLen node seqno radio = some len) :
    (len ≠ 0 → ValidEack node seqno radio) ↔ 0 ≤ radio.read ∧ (0 < radio.read →
      ∀ packet ∈ parseAck node seqno radio, packet.ret ≠ 0 → IsEack packet.frame.fcf) := by
  unfold ackLen at hlen
  by_cases hread : 0 < radio.read
  · rw [if_pos hread] at hlen
    obtain ⟨packet, hparse, rfl⟩ := map_eq_some_iff.mp hlen
    by_cases hret : packet.ret = 0
    · rw [if_pos hret]
      refine iff_of_true (fun hne ↦ absurd rfl hne) ⟨hread.le, fun _ other hother hne ↦ ?_⟩
      obtain rfl : packet = other := some.inj (hparse.symm.trans hother)
      exact absurd hret hne
    · rw [if_neg hret]
      constructor
      · intro hvalid
        obtain ⟨-, other, hother, -, heack, -⟩ := hvalid hread.ne'
        refine ⟨hread.le, fun _ again hagain _ ↦ ?_⟩
        obtain rfl : other = again := some.inj (hother.symm.trans hagain)
        exact heack
      · intro hkind _
        exact ⟨hread, packet, hparse, hret, hkind.2 hread packet hparse hret,
          seq_of_parseAck hparse hret⟩
  · rw [if_neg hread] at hlen
    obtain rfl : radio.read = len := some.inj hlen
    constructor
    · intro hvalid
      refine ⟨?_, fun hpositive ↦ absurd hpositive hread⟩
      by_contra hnegative
      exact hread (hvalid (by omega)).1
    · intro hkind hne
      exact absurd (lt_of_le_of_ne hkind.1 hne.symm) hread

theorem txStatus_of_prepared {isBroadcast : Bool} (hprepared : radio.prepare = 0)
    (earlier earlier' : ℕ) : txStatus node earlier isBroadcast seqno radio =
      txStatus node earlier' isBroadcast seqno radio := by
  unfold txStatus
  rw [if_pos hprepared, if_pos hprepared]

theorem honest_iff_clean
    (hstatus : txStatus node earlier r.isBroadcast r.seqno r.radio = some r.status) :
    r.Honest node ↔ CleanAnswers node r.isBroadcast r.seqno r.radio := by
  by_cases hprepared : r.radio.prepare = 0
  · have hsame : ∀ other, txStatus node other r.isBroadcast r.seqno r.radio = some r.status :=
      fun other ↦ (txStatus_of_prepared hprepared other earlier).trans hstatus
    unfold txStatus at hstatus
    rw [if_pos hprepared] at hstatus
    by_cases htransmit : r.radio.transmit = .ok
    · rw [if_pos htransmit] at hstatus
      cases hbroadcast : r.isBroadcast with
      | true =>
        refine iff_of_true ⟨fun _ ↦ ⟨hprepared, htransmit, fun hunicast ↦ ?_⟩, hsame⟩
          ⟨hprepared, fun _ hunicast ↦ by cases hunicast⟩
        rw [hbroadcast] at hunicast
        cases hunicast
      | false =>
        rw [hbroadcast, if_neg Bool.false_ne_true] at hstatus
        obtain ⟨len, hlen, hassign⟩ := map_eq_some_iff.mp hstatus
        have hacked : r.status = macTxOk ↔ len ≠ 0 := by
          rw [← hassign]
          split
          · rename_i hne
            exact iff_of_true rfl hne
          · rename_i hzero
            exact iff_of_false (by decide) hzero
        constructor
        · intro hhonest
          refine ⟨hprepared, fun _ _ ↦ (validEack_of_acked_iff hlen).mp fun hne ↦ ?_⟩
          exact (hhonest.1 (hacked.mpr hne)).acknowledged hbroadcast
        · intro hclean
          refine ⟨fun hok ↦ ⟨hprepared, htransmit, fun _ ↦ ?_⟩, hsame⟩
          exact (validEack_of_acked_iff hlen).mpr (hclean.2 htransmit rfl) (hacked.mp hok)
    · rw [if_neg htransmit] at hstatus
      refine iff_of_true ⟨fun hok ↦ ?_, hsame⟩ ⟨hprepared, fun hok ↦ absurd hok htransmit⟩
      rw [← some.inj hstatus] at hok
      exact absurd hok (by decide)
  · refine iff_of_false (fun hhonest ↦ ?_) (fun hclean ↦ hprepared hclean.1)
    have hother := hhonest.2 (r.status + 1)
    unfold txStatus at hother
    rw [if_neg hprepared] at hother
    exact absurd (some.inj hother) (Nat.succ_ne_self _)

end Transmission

/-- The TSCH layer with `mac_tx_status` and with what was reported, oldest first. -/
structure TxMac where
  mac : Mac
  macTxStatus : ℕ
  reports : List TxReport

/-- The queue and the sequence number of the packet that the next slot transmits, if any. -/
def TxMac.outgoing (s : TxMac) (env : SlotEnv) : Option (Bool × UInt8) :=
  (slotBegin s.mac env).toOption.bind fun (tx, mac) ↦ tx.map fun tx ↦
    ((mac.neighbor tx.neighbor).isBroadcast,
      UInt8.ofNat ((s.mac.packet tx.packet).qb.data.getD 2 0))

/-- `tsch_slot_operation` with the answers of the radio driver; the status in `env` is not used. -/
def TxMac.slot (node : AckReceiver) (s : TxMac) (radio : RadioAnswers) (env : SlotEnv) :
    Option TxMac :=
  (slotBegin s.mac env).toOption.bind fun (tx, mac) ↦
    match tx with
    | none => some { s with mac := mac }
    | some tx =>
      let isBroadcast := (mac.neighbor tx.neighbor).isBroadcast
      let seqno := UInt8.ofNat ((s.mac.packet tx.packet).qb.data.getD 2 0)
      (txStatus node s.macTxStatus isBroadcast seqno radio).bind fun status ↦
        (slotEnd mac tx { env with macTxStatus := status }).toOption.map fun mac ↦
          ⟨mac, status, s.reports ++ [⟨isBroadcast, seqno, radio, status⟩]⟩

inductive TxOp
  | call (op : MacOp)
  | slot (radio : RadioAnswers) (env : SlotEnv)

def TxMac.next (node : AckReceiver) (s : TxMac) : TxOp → Option TxMac
  | .call (.slot _) => none
  | .call op => (s.mac.next op).map fun mac ↦ { s with mac := mac }
  | .slot radio env => s.slot node radio env

/-- The radio's answers are clean in a slot that transmits. -/
def SlotClean (node : AckReceiver) (s : TxMac) : TxOp → Prop
  | .call _ => True
  | .slot radio env => ∀ out ∈ s.outgoing env, CleanAnswers node out.1 out.2 radio

def AllHonest (node : AckReceiver) (s : TxMac) : Prop := ∀ r ∈ s.reports, r.Honest node

section Runs

variable {node : AckReceiver} {s t : TxMac} {op : TxOp}

theorem reports_of_call {op : MacOp} (hstep : StepOf (TxMac.next node) s (.call op) t) :
    t.reports = s.reports := by
  unfold StepOf TxMac.next at hstep
  split at hstep
  · cases hstep
  · obtain ⟨mac, -, rfl⟩ := map_eq_some_iff.mp hstep
    rfl
  · rename_i heq
    cases heq

theorem reports_of_slot {radio : RadioAnswers} {env : SlotEnv}
    (hstep : StepOf (TxMac.next node) s (.slot radio env) t) :
    (s.outgoing env = none ∧ t.reports = s.reports) ∨
      ∃ r earlier, s.outgoing env = some (r.isBroadcast, r.seqno) ∧ r.radio = radio ∧
        txStatus node earlier r.isBroadcast r.seqno r.radio = some r.status ∧
        t.reports = s.reports ++ [r] := by
  change s.slot node radio env = some t at hstep
  unfold TxMac.slot at hstep
  obtain ⟨⟨tx, mac⟩, hbegin, hrest⟩ := bind_eq_some_iff.mp hstep
  unfold TxMac.outgoing
  rw [hbegin]
  cases tx with
  | none =>
    cases hrest
    exact .inl ⟨rfl, rfl⟩
  | some tx =>
    obtain ⟨status, hstatus, hend⟩ := bind_eq_some_iff.mp hrest
    obtain ⟨mac', -, rfl⟩ := map_eq_some_iff.mp hend
    exact .inr ⟨⟨_, _, radio, status⟩, s.macTxStatus, rfl, rfl, hstatus, rfl⟩

theorem allHonest_step (hstep : StepOf (TxMac.next node) s op t) :
    AllHonest node t ↔ AllHonest node s ∧ SlotClean node s op := by
  unfold AllHonest
  cases op with
  | call op =>
    rw [reports_of_call hstep]
    exact (and_iff_left trivial).symm
  | slot radio env =>
    change _ ↔ _ ∧ ∀ out ∈ s.outgoing env, CleanAnswers node out.1 out.2 radio
    rcases reports_of_slot hstep with ⟨hnone, hreports⟩ | ⟨r, earlier, hout, hradio, hstatus, hreports⟩
    · rw [hreports, hnone]
      refine (and_iff_left fun out hout ↦ ?_).symm
      cases hout
    · have hclean := honest_iff_clean hstatus
      rw [hradio] at hclean
      rw [hreports, hout]
      constructor
      · intro hall
        refine ⟨fun q hq ↦ hall q (mem_append_left _ hq), fun out hsame ↦ ?_⟩
        obtain rfl := some.inj hsame
        exact hclean.mp (hall r (mem_append_right _ mem_cons_self))
      · rintro ⟨hold, hnew⟩ q hq
        rcases mem_append.mp hq with hq | hq
        · exact hold q hq
        · obtain rfl := mem_singleton.mp hq
          exact hclean.mpr (hnew _ rfl)

/-- The runs of the TSCH layer with its transmit slots, from the initialized layer; the static
status is `MAC_TX_OK` at first. -/
def TxRun (step : TxMac → TxOp → TxMac → Prop) (config : MacConfig) (ops : List TxOp) (s : TxMac) :
    Prop :=
  ∃ mac, tschInit config = .ok mac ∧ Run step ⟨mac, macTxOk, []⟩ ops s

/-- Every success that is reported in a run is a transmission of its own slot, and no report depends
on an earlier slot, exactly if the radio's answers are clean in every slot of the run that
transmits. -/
theorem allHonest_iff {config : MacConfig} {ops : List TxOp}
    (hrun : TxRun (StepOf (TxMac.next node)) config ops s) :
    AllHonest node s ↔ TxRun (GuardedStepOf (TxMac.next node) (SlotClean node)) config ops s := by
  obtain ⟨mac, hinit, hrun⟩ := hrun
  have hnone : AllHonest node ⟨mac, macTxOk, []⟩ := fun r hr ↦ absurd hr not_mem_nil
  have hiff : AllHonest node s ↔
      Run (GuardedStepOf (TxMac.next node) (SlotClean node)) ⟨mac, macTxOk, []⟩ ops s :=
    (hrun.good_iff_guarded fun _ _ _ hstep ↦ allHonest_step hstep).trans (and_iff_right hnone)
  rw [hiff]
  constructor
  · exact fun hguarded ↦ ⟨mac, hinit, hguarded⟩
  · rintro ⟨mac', hinit', hguarded⟩
    obtain rfl : mac' = mac := Except.ok.inj (hinit'.symm.trans hinit)
    exact hguarded

/-- Initialize TSCH and take the steps of a list. -/
def runTxOps (next : TxMac → TxOp → Option TxMac) (config : MacConfig) (ops : List TxOp) :
    Option TxMac :=
  (tschInit config).toOption.bind fun mac ↦ execute next ⟨mac, macTxOk, []⟩ ops

theorem exists_txRun (next : TxMac → TxOp → Option TxMac) (config : MacConfig) (ops : List TxOp)
    (check : TxMac → Bool) (hany : (runTxOps next config ops).any check = true) :
    ∃ s, TxRun (StepOf next) config ops s ∧ check s = true := by
  obtain ⟨s, hruns, hcheck⟩ := (any_eq_true _ _).mp hany
  obtain ⟨mac, hinit, hexecute⟩ := bind_eq_some_iff.mp hruns
  exact ⟨s, ⟨mac, toOption_eq_some hinit, run_of_execute hexecute⟩, hcheck⟩

/-- A node with the address `9...` in the PAN `0xabcd`. -/
def ackReceiver : AckReceiver :=
  ⟨⟨false, false, false, true, false, true, false⟩, 0xabcd, fun _ ↦ 9⟩

/-- The first packet of a queue, with the sequence number 5, is transmitted. -/
def transmittingOps (radio : RadioAnswers) : List TxOp :=
  [.call (.addSlotframe 1 10), .call (.addLink (some 0) ⟨1, .normal, nodeAddr 2, 0, 0⟩),
    .call (.synchronize ⟨0, 0⟩ 1 true),
    .call (.sendPacket ⟨[], nodeAddr 2, 5, 1, 100, 0⟩ (some ⟨[0x61, 0xdc, 5], 3⟩) true),
    .call .startSlots, .slot radio ⟨0, 0, false, 0⟩]

def prepareFails : RadioAnswers := ⟨1, .err, 0, fun _ ↦ 0, Framer.Frame.zero, 0⟩

/-- The success of a transmission that never took place is reported. -/
theorem not_allHonest_prepareFails : ∃ s,
    TxRun (StepOf (TxMac.next ackReceiver)) smallConfig (transmittingOps prepareFails) s ∧
      ¬ AllHonest ackReceiver s := by
  obtain ⟨s, hrun, hcheck⟩ := exists_txRun (TxMac.next ackReceiver) smallConfig
    (transmittingOps prepareFails)
    (fun s ↦ s.reports.any fun r ↦ decide (r.status = macTxOk ∧ r.radio.prepare = 1))
    (by decide +kernel)
  obtain ⟨r, hr, hreport⟩ := any_eq_true.mp hcheck
  obtain ⟨hok, hprepare⟩ := of_decide_eq_true hreport
  refine ⟨s, hrun, fun hhonest ↦ ?_⟩
  have hprepared := ((hhonest r hr).1 hok).prepared
  rw [hprepare] at hprepared
  cases hprepared

def eack : List UInt8 :=
  (Framer.tschPacketCreateEack ackReceiver.conf 0xabcd (fun _ ↦ 2) 127 (fun _ ↦ 9) 5 0 false).getD []

def acknowledged : RadioAnswers :=
  ⟨0, .ok, eack.length, fun i ↦ eack.getD i 0, Framer.Frame.zero, 8⟩

theorem allHonest_acknowledged : ∃ s,
    TxRun (StepOf (TxMac.next ackReceiver)) smallConfig (transmittingOps acknowledged) s ∧
      s.macTxStatus = macTxOk ∧
      (AllHonest ackReceiver s ↔
        TxRun (GuardedStepOf (TxMac.next ackReceiver) (SlotClean ackReceiver)) smallConfig
          (transmittingOps acknowledged) s) := by
  obtain ⟨s, hrun, hcheck⟩ := exists_txRun (TxMac.next ackReceiver) smallConfig
    (transmittingOps acknowledged)
    (fun s ↦ s.macTxStatus == macTxOk && s.reports.length == 1) (by decide +kernel)
  exact ⟨s, hrun, eq_of_beq (Bool.and_eq_true_iff.mp hcheck).1, allHonest_iff hrun⟩

end Runs

end ContikiMaster.Tsch
