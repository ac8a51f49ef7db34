import ContikiMaster.Sixtop.TransactionRuns

/-!
# What a failed send leaves behind

`sixp_output` checks the transaction, chooses the neighbour and takes a sequence number, and
creates the packet and the transaction after that. A failure at the end leaves the
transactions as they were, but not the neighbour.
-/

namespace ContikiMaster.Sixtop.Sixp

open Lib Sys Net Framer Tsch

variable {s t u : Sixp} {args : OutputArgs} {removable : Option (Option Linkaddr)} {react : Reaction}
  {item p : ℕ}

theorem sixpTransTransitState_nbrs (s : Sixp) (p : ℕ) (newState : TransState) :
    (s.sixpTransTransitState p newState).2.nbrs = s.nbrs := by
  unfold sixpTransTransitState
  split
  · rfl
  · rfl

theorem macCallback_nbrs (s : Sixp) (p : ℕ) (ok : Bool) : (s.macCallback p ok).nbrs = s.nbrs := by
  unfold macCallback
  dsimp only
  split
  · rfl
  · split_ifs
    · exact sixpTransTransitState_nbrs s p _
    · rw [sixpTransTransitState_nbrs, sixpTransTransitState_nbrs]
    · rfl
    · exact sixpTransTransitState_nbrs s p _

variable {addr : Addr8} {pkt : SixpPkt}

theorem outputPacket_nbrs {callback : Option ℕ}
    (houtput : s.outputPacket p callback addr pkt = .ok t) : t.nbrs = s.nbrs := by
  rcases outputPacket_cases houtput with rfl | rfl | ⟨packetbuf, rfl⟩
  · rfl
  · exact macCallback_nbrs _ p false
  · rfl

theorem sixpTransAlloc_nbrs (halloc : s.sixpTransAlloc pkt addr = some (p, t)) :
    t.nbrs = s.nbrs := by
  unfold sixpTransAlloc at halloc
  split at halloc
  · cases halloc
  split at halloc
  · cases halloc
  split at halloc
  · cases halloc
  · cases halloc
    rfl

/-- No transaction was added or changed. -/
structure SameTransactions (s t : Sixp) : Prop where
  transMemb : t.transMemb = s.transMemb
  transList : t.transList = s.transList
  timer : t.timer = s.timer

theorem toNat_increment {w : Sixp} (hlt : (w.nbr item).nextSeqno < 16) :
    ((w.sixpNbrIncrementNextSeqno item).nbr item).nextSeqno.toNat =
      ((w.nbr item).nextSeqno.toNat + 1) % 16 := by
  unfold sixpNbrIncrementNextSeqno
  rw [setNbr_nbr, if_pos rfl]
  generalize (w.nbr item).nextSeqno = seqno at hlt
  dsimp only
  have hbound : seqno.toNat < 16 := UInt8.lt_iff_toNat_lt.mp hlt
  have hsum : (seqno + 1).toNat = seqno.toNat + 1 := by
    rw [UInt8.toNat_add]
    exact Nat.mod_eq_of_lt (by change seqno.toNat + 1 < 256; omega)
  split
  · rename_i hwrap
    have hwrap : 15 < (seqno + 1).toNat := UInt8.lt_iff_toNat_lt.mp hwrap
    have hlast : seqno.toNat = 15 := by omega
    rw [hlast]
    rfl
  · rename_i hwrap
    have hwrap : ¬ 15 < (seqno + 1).toNat := fun hlt ↦ hwrap (UInt8.lt_iff_toNat_lt.mpr hlt)
    rw [hsum, Nat.mod_eq_of_lt (by omega)]

/-- A failed send leaves the transactions as they were, and everything where it fails before the
choice of the neighbour; behind that a request has taken a sequence number, and of the other packets
exactly the successful responses to an ADD or DELETE have created a missing entry. A request that is
sent carries the next sequence number. -/
theorem sixpOutputResult_spec {done : Bool} (hsmall : s.SmallNbrs)
    (hcall : s.sixpOutputResult args removable react = .ok (done, t)) :
    (done = false → SameTransactions s t ∧ (¬ s.ChoosesNbr args removable react → t = s) ∧
      (s.ChoosesNbr args removable react → args.type = .request →
        ∃ item w, s.Entry args.destAddr removable react item w ∧
          t.nbrs = (w.sixpNbrIncrementNextSeqno item).nbrs) ∧
      (s.ChoosesNbr args removable react → args.type ≠ .request →
        ∀ trans, s.outputTrans args.type args.destAddr = some trans →
          (¬ s.CreatesEntry args.type args.code trans args.destAddr ∧ t.nbrs = s.nbrs) ∨
          (s.CreatesEntry args.type args.code trans args.destAddr ∧ ∃ item w,
            s.sixpNbrAlloc args.destAddr removable react = (some item, w) ∧ t.nbrs = w.nbrs))) ∧
    (done = true → args.type = .request → ∃ item w p v, ∃ pkt : SixpPkt,
      s.Entry args.destAddr removable react item w ∧
      (s.sixpNbrFind args.destAddr = none → (w.nbr item).nextSeqno = 0) ∧
      Sixp.outputPacket v p args.callback args.destAddr pkt = .ok t ∧
      pkt.seqno = (w.nbr item).nextSeqno ∧
      (t.nbr item).nextSeqno.toNat = (pkt.seqno.toNat + 1) % 16) := by
  rcases sixpOutputResult_cases hcall with ⟨rfl, hnot, rfl⟩ | ⟨trans, nbr, seqno, u, htrans,
    hchoice, hend⟩
  · exact ⟨fun _ ↦ ⟨⟨rfl, rfl, rfl⟩, fun _ ↦ rfl, fun hchooses _ ↦ absurd hchooses hnot,
      fun hchooses ↦ absurd hchooses hnot⟩, nofun⟩
  · have hnbrs := s.outputNbr_snd args.type args.code trans args.destAddr removable react
    rw [hchoice] at hnbrs
    obtain ⟨hnone, -⟩ | ⟨nbr', seqno', hsome, hused⟩ := outputNbr_cases hchoice
    · cases hnone
    cases hsome
    rcases hend with ⟨rfl, packetbuf, rfl⟩ | ⟨rfl, packetbuf, p, v, hv, houtput⟩
    · refine ⟨fun _ ↦ ⟨?_, fun hnot ↦ ?_, fun _ hrequest ↦ ?_,
        fun _ hne other hother ↦ ?_⟩, nofun⟩
      · obtain ⟨nbrs, rfl⟩ := hnbrs
        exact ⟨rfl, rfl, rfl⟩
      · exact absurd ⟨trans, _, u, htrans, hchoice⟩ hnot
      · obtain ⟨-, item, w, hentry, -, rfl⟩ := hused.resolve_right fun hother ↦ hother.1 hrequest
        exact ⟨item, w, hentry, rfl⟩
      · obtain rfl := Option.some.inj (htrans.symm.trans hother)
        rcases (hused.resolve_left fun hother ↦ hne hother.1).2.2 with ⟨hnot, rfl⟩ |
          ⟨hcreates, item, halloc⟩
        · exact .inl ⟨hnot, rfl⟩
        · exact .inr ⟨hcreates, item, u, halloc, rfl⟩
    · refine ⟨nofun, fun _ hrequest ↦ ?_⟩
      obtain ⟨-, item, w, hentry, hnext, rfl⟩ := hused.resolve_right fun hother ↦ hother.1 hrequest
      have hlt := (hsmall.entry hentry item).1
      have hkept : t.nbrs = (w.sixpNbrIncrementNextSeqno item).nbrs := by
        rw [outputPacket_nbrs houtput]
        rcases hv with ⟨-, rfl⟩ | ⟨-, halloc⟩
        · rfl
        · exact (sixpTransAlloc_nbrs halloc).trans rfl
      refine ⟨item, w, p, v, _, hentry, fun hnone ↦ ?_, houtput, hnext, ?_⟩
      · rcases hentry with ⟨hfind, -⟩ | ⟨-, halloc⟩
        · rw [hnone] at hfind
          cases hfind
        · obtain ⟨nbrs, -, rfl⟩ := sixpNbrAlloc_some halloc
          rw [setNbr_nbr, if_pos rfl]
      · change _ = (seqno.toNat + 1) % 16
        rw [hnext, ← toNat_increment hlt, Sixp.nbr, hkept]
        rfl

def bareNode : Sixp := init linkaddrNull false [] 1 1

def addRequest : OutputArgs := ⟨.request, cmdAdd, 0, [], fun _ ↦ 1, none⟩

theorem bareNode_fails : ∃ t, bareNode.sixpOutputResult addRequest none (fun _ _ ↦ []) =
    .ok (false, t) ∧ (t.sixpNbrFind addRequest.destAddr).map (fun item ↦ t.nbr item) = some ⟨1, 0⟩ := by
  have hfails : (bareNode.sixpOutputResult addRequest none (fun _ _ ↦ [])).toOption.map (fun r ↦
      (r.1, (r.2.sixpNbrFind addRequest.destAddr).map fun item ↦ r.2.nbr item)) =
        some (false, some ⟨1, 0⟩) := by decide +kernel
  obtain ⟨⟨done, t⟩, hresult, heq⟩ := Option.map_eq_some_iff.mp hfails
  simp only [Prod.mk.injEq] at heq
  obtain ⟨rfl, hentry⟩ := heq
  exact ⟨t, toOption_eq_some hresult, hentry⟩

theorem sixpOutputResult_spec_bareNode : ∃ t, bareNode.sixpOutputResult addRequest none
    (fun _ _ ↦ []) = .ok (false, t) ∧ SameTransactions bareNode t := by
  obtain ⟨t, hfails, -⟩ := bareNode_fails
  exact ⟨t, hfails, ((sixpOutputResult_spec (small_init _ _ _ _ _) hfails).1 rfl).1⟩

/-- A request that fails for want of a scheduling function leaves an entry of the peer, and the next
sequence number is 1. -/
theorem not_unchanged_bareNode : ∃ t,
    bareNode.sixpOutputResult addRequest none (fun _ _ ↦ []) = .ok (false, t) ∧
      bareNode.sixpNbrFind addRequest.destAddr = none ∧
      (t.sixpNbrFind addRequest.destAddr).map (fun item ↦ t.nbr item) = some ⟨1, 0⟩ := by
  obtain ⟨t, hfails, hentry⟩ := bareNode_fails
  exact ⟨t, hfails, rfl, hentry⟩

end ContikiMaster.Sixtop.Sixp
