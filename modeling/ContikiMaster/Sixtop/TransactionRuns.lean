import ContikiMaster.Sixtop.TransactionTable

/-!
# Runs of the 6P protocol

The table of transactions is sound after any calls, packets, reports and timers. A
report reaches through the pointer of its frame, so nobody uses a transaction that has
ended as long as none is freed while the MAC holds one of its frames.
-/

namespace ContikiMaster.Sixtop.Sixp

open Lib Sys Net Framer Tsch List Option

variable {s t u : Sixp} {p i : ℕ}

/-! ### Sending -/

variable {callback trans : Option ℕ} {destAddr srcAddr : Addr8} {pkt : SixpPkt} {args : OutputArgs}
  {removable : Option (Option Linkaddr)} {react : Reaction} {label : Label}

theorem outputPacket_cases (houtput : s.outputPacket p callback destAddr pkt = .ok t) :
    t = s.sixpTransSetCallback p callback ∨
      t = (s.sixpTransSetCallback p callback).macCallback p false ∨
      ∃ packetbuf, t = { s.sixpTransSetCallback p callback with
        packetbuf
        frames := s.frames ++
          [⟨p, ((s.sixpTransSetCallback p callback).trans p).ident, destAddr,
            sixpHeader pkt ++ pkt.body⟩] } := by
  unfold outputPacket at houtput
  rcases hsixtop : sixtopOutput s.withTermination s.nodeAddr destAddr s.packetbuf with fault | output
  · change (sixtopOutput s.withTermination s.nodeAddr destAddr s.packetbuf >>= _) = _ at houtput
    rw [hsixtop] at houtput
    cases houtput
  · change (sixtopOutput s.withTermination s.nodeAddr destAddr s.packetbuf >>= _) = _ at houtput
    rw [hsixtop] at houtput
    cases output with
    | dropped => exact Or.inl (Except.ok.inj houtput).symm
    | failed => exact Or.inr (Or.inl (Except.ok.inj houtput).symm)
    | sent packetbuf => exact Or.inr (Or.inr ⟨packetbuf, (Except.ok.inj houtput).symm⟩)

theorem Extends.send (hsound : s.Sound) (hp : p ∈ s.transList) (packetbuf : Packetbuf)
    (destAddr : Addr8) (packet : List UInt8) :
    Extends s { s with
      packetbuf
      frames := s.frames ++ [⟨p, (s.trans p).ident, destAddr, packet⟩] } := by
  constructor
  case sound => exact hsound.congr rfl rfl rfl rfl fun q ↦ Iff.rfl
  case live => exact fun q ident hlive ↦ hlive
  case held =>
    intro hheld
    refine ⟨fun frame hframe ↦ ?_, hheld.calls⟩
    rcases mem_append.mp hframe with hframe | hframe
    · exact hheld.frames frame hframe
    · rw [mem_singleton.mp hframe]
      exact ⟨hp, rfl⟩
  case small => exact fun hsmall ↦ hsmall.of_nbrs rfl

theorem Extends.outputPacket (hsound : s.Sound) (hp : p ∈ s.transList)
    (houtput : s.outputPacket p callback destAddr pkt = .ok t) : Extends s t := by
  have hset := Extends.sixpTransSetCallback hsound p callback
  rcases outputPacket_cases houtput with rfl | rfl | ⟨packetbuf, rfl⟩
  · exact hset
  · exact hset.trans (macCallback hset.sound hp false)
  · exact hset.trans (send hset.sound hp packetbuf destAddr _)

theorem mem_of_outputTrans {type : SixpPktType}
    (houtput : s.outputTrans type destAddr = some trans) :
    ∀ p, trans = some p → p ∈ s.transList := by
  rintro p rfl
  have hfound : s.sixpTransFind destAddr = some p := by
    unfold outputTrans at houtput
    cases type with
    | request => simp at houtput
    | reserved => cases houtput
    | response | confirmation =>
      obtain ⟨q, hfilter, hq⟩ := map_eq_some_iff.mp houtput
      exact some.inj hq ▸ (filter_eq_some_iff.mp hfilter).1
  exact (mem_of_sixpTransFind hfound).1

/-- The checks of the transaction pass, and there is memory for the neighbour. -/
def ChoosesNbr (s : Sixp) (args : OutputArgs) (removable : Option (Option Linkaddr))
    (react : Reaction) : Prop :=
  ∃ trans choice u, s.outputTrans args.type args.destAddr = some trans ∧
    s.outputNbr args.type args.code trans args.destAddr removable react = (some choice, u)

theorem sixpOutputResult_cases {done : Bool}
    (hcall : s.sixpOutputResult args removable react = .ok (done, t)) :
    (done = false ∧ ¬ s.ChoosesNbr args removable react ∧ t = s) ∨
    ∃ trans nbr seqno u, s.outputTrans args.type args.destAddr = some trans ∧
      s.outputNbr args.type args.code trans args.destAddr removable react = (some (nbr, seqno), u) ∧
      ((done = false ∧ ∃ packetbuf, t = { u with packetbuf }) ∨
        (done = true ∧ ∃ packetbuf p v,
          (trans = some p ∧ v = { u with packetbuf } ∨ trans = none ∧
            Sixp.sixpTransAlloc { u with packetbuf } (u.outputPkt args nbr seqno) args.destAddr =
              some (p, v)) ∧
          v.outputPacket p args.callback args.destAddr (u.outputPkt args nbr seqno) = .ok t)) := by
  unfold sixpOutputResult at hcall
  cases htrans : s.outputTrans args.type args.destAddr with
  | none =>
    rw [htrans] at hcall
    cases hcall
    refine .inl ⟨rfl, ?_, rfl⟩
    rintro ⟨trans, choice, u, hother, -⟩
    rw [htrans] at hother
    cases hother
  | some trans =>
    simp only [htrans] at hcall
    rcases hchoice : s.outputNbr args.type args.code trans args.destAddr removable react with
      ⟨_ | ⟨nbr, seqno⟩, u⟩
    · rw [hchoice] at hcall
      cases hcall
      obtain rfl : t = s := by
        rcases outputNbr_cases hchoice with ⟨-, hsame⟩ | ⟨nbr, seqno, hsome, -⟩
        · exact hsame
        · cases hsome
      refine .inl ⟨rfl, ?_, rfl⟩
      rintro ⟨other, choice, v, hother, hchosen⟩
      obtain rfl := some.inj (htrans.symm.trans hother)
      rw [hchoice] at hchosen
      cases hchosen
    rw [hchoice] at hcall
    dsimp only at hcall
    obtain ⟨created, -, hcall⟩ := bind_eq_ok hcall
    refine .inr ⟨trans, nbr, seqno, u, rfl, hchoice, ?_⟩
    cases created with
    | none =>
      cases hcall
      exact .inl ⟨rfl, t.packetbuf, rfl⟩
    | some packetbuf =>
      dsimp only at hcall
      split at hcall
      · obtain ⟨v, houtput, hdone⟩ := bind_eq_ok hcall
        cases hdone
        exact .inr ⟨rfl, packetbuf, _, _, .inl ⟨rfl, rfl⟩, houtput⟩
      · split at hcall
        · cases hcall
          exact .inl ⟨rfl, packetbuf, rfl⟩
        · rename_i halloc
          obtain ⟨v, houtput, hdone⟩ := bind_eq_ok hcall
          cases hdone
          exact .inr ⟨rfl, packetbuf, _, _, .inr ⟨rfl, halloc⟩, houtput⟩

theorem exists_result (houtput : s.sixpOutput args removable react = .ok t) :
    ∃ done, s.sixpOutputResult args removable react = .ok (done, t) := by
  unfold Sixp.sixpOutput at houtput
  cases hresult : s.sixpOutputResult args removable react with
  | error fault =>
    rw [hresult] at houtput
    cases houtput
  | ok result =>
    rw [hresult] at houtput
    cases houtput
    exact ⟨result.1, rfl⟩

theorem Extends.outputNbr {choice : Option (Option ℕ × UInt8)} (hsound : s.Sound)
    (hchoice : s.outputNbr args.type args.code trans args.destAddr removable react = (choice, u)) :
    Extends s u := by
  obtain ⟨nbrs, hnbrs⟩ := s.outputNbr_snd args.type args.code trans args.destAddr removable react
  have hchosen := fun hsmall : s.SmallNbrs ↦
    (hsmall.outputNbr args.type args.code trans args.destAddr removable react).1
  rw [hchoice] at hnbrs hchosen
  obtain rfl : u = { s with nbrs } := hnbrs
  exact ⟨hsound.congr rfl rfl rfl rfl fun q ↦ Iff.rfl, fun _ _ h ↦ h,
    fun hheld ↦ ⟨hheld.frames, hheld.calls⟩, hchosen⟩

theorem Extends.sixpOutput (hsound : s.Sound)
    (houtput : s.sixpOutput args removable react = .ok t) : Extends s t := by
  obtain ⟨done, hresult⟩ := exists_result houtput
  rcases sixpOutputResult_cases hresult with ⟨-, -, rfl⟩ | ⟨trans, nbr, seqno, u, htrans,
    hchoice, hend⟩
  · exact refl hsound
  have hextends := outputNbr hsound hchoice
  have hlist : u.transList = s.transList := by
    obtain ⟨nbrs, hnbrs⟩ := s.outputNbr_snd args.type args.code trans args.destAddr removable react
    rw [hchoice] at hnbrs
    rw [show u = _ from hnbrs]
  have hbuf : ∀ packetbuf, Extends s { u with packetbuf } := fun packetbuf ↦
    hextends.trans (of_eq hextends.sound rfl rfl rfl rfl rfl rfl rfl)
  rcases hend with ⟨-, packetbuf, rfl⟩ | ⟨-, packetbuf, p, v, ⟨rfl, rfl⟩ | ⟨-, halloc⟩, houtput⟩
  · exact hbuf packetbuf
  · have hp : p ∈ u.transList := hlist ▸ mem_of_outputTrans htrans p rfl
    exact (hbuf packetbuf).trans (outputPacket (hbuf packetbuf).sound hp houtput)
  · have hnew := (hbuf packetbuf).sound.allocated halloc
    have hextends := (hbuf packetbuf).trans (hnew.toExtends (hbuf packetbuf).sound)
    exact hextends.trans (outputPacket hextends.sound (hnew.mem.mpr (Or.inr rfl)) houtput)

theorem Extends.sendBackError {code sfid seqno : UInt8} (hsound : s.Sound)
    (hsend : s.sendBackError code sfid seqno destAddr = .ok t) : Extends s t := by
  unfold Sixp.sendBackError at hsend
  rcases hcreate : sixpPktCreate ⟨.response, code, sfid, seqno, 0, []⟩ s.packetbuf with
    fault | packetbuf
  · rw [hcreate] at hsend
    cases hsend
  rw [hcreate] at hsend
  cases packetbuf with
  | none => exact Except.ok.inj hsend ▸ refl hsound
  | some packetbuf =>
    change (sixtopOutput s.withTermination s.nodeAddr destAddr packetbuf >>= _) = _ at hsend
    rcases hsixtop : sixtopOutput s.withTermination s.nodeAddr destAddr packetbuf with
      fault | output
    · rw [hsixtop] at hsend
      cases hsend
    · rw [hsixtop] at hsend
      cases output with
      | dropped | failed => exact Except.ok.inj hsend ▸ refl hsound
      | sent packetbuf =>
        exact Except.ok.inj hsend ▸ of_eq hsound rfl rfl rfl rfl rfl rfl rfl

theorem Extends.inputTransit {sf : SchedulingFunction} (hsound : s.Sound) (hp : p ∈ s.transList) :
    Extends s (s.inputTransit sf p pkt srcAddr) := by
  unfold Sixp.inputTransit
  simp only
  by_cases hmay : mayTransit (s.trans p) (receivedState pkt.type) = true
  · have htransit : s.sixpTransTransitState p (receivedState pkt.type) =
        (true, s.enter p (receivedState pkt.type)) := if_pos hmay
    rw [htransit]
    have henter := enter hsound hp (receivedState pkt.type)
    exact henter.trans (of_eq henter.sound rfl rfl rfl rfl rfl rfl rfl)
  · have htransit : s.sixpTransTransitState p (receivedState pkt.type) = (false, s) := if_neg hmay
    rw [htransit]
    exact sixpTransTransitState hsound hp .terminating

theorem Extends.inputPacket (hsound : s.Sound) (hinput : s.inputPacket pkt srcAddr = .ok t) :
    Extends s t := by
  unfold Sixp.inputPacket at hinput
  by_cases hreserved : pkt.type = .reserved
  · rw [if_pos hreserved] at hinput
    exact Except.ok.inj hinput ▸ refl hsound
  rw [if_neg hreserved] at hinput
  cases hsf : s.sixtopFindSf pkt.sfid with
  | none =>
    rw [hsf] at hinput
    exact sendBackError hsound hinput
  | some sf =>
    simp only [hsf] at hinput
    by_cases hvalid : s.validGeneration pkt srcAddr = true
    case neg =>
      rw [if_neg hvalid] at hinput
      exact Except.ok.inj hinput ▸ refl hsound
    rw [if_pos hvalid] at hinput
    by_cases hrequest : pkt.type = .request
    · rw [if_pos hrequest] at hinput
      by_cases hfind : (s.sixpTransFind srcAddr).isSome
      · rw [if_pos hfind] at hinput
        exact sendBackError hsound hinput
      rw [if_neg hfind] at hinput
      cases halloc : s.sixpTransAlloc pkt srcAddr with
      | none =>
        rw [halloc] at hinput
        exact sendBackError hsound hinput
      | some new =>
        rw [halloc] at hinput
        have hnew := hsound.allocated halloc
        have hextends := hnew.toExtends hsound
        exact Except.ok.inj hinput ▸
          hextends.trans (inputTransit hextends.sound (hnew.mem.mpr (Or.inr rfl)))
    · rw [if_neg hrequest] at hinput
      cases hfind : s.sixpTransFind srcAddr with
      | none =>
        rw [hfind] at hinput
        exact Except.ok.inj hinput ▸ refl hsound
      | some p =>
        simp only [hfind] at hinput
        by_cases hseqno : (s.trans p).seqno ≠ pkt.seqno
        · rw [if_pos hseqno] at hinput
          exact Except.ok.inj hinput ▸ refl hsound
        · rw [if_neg hseqno] at hinput
          exact Except.ok.inj hinput ▸ inputTransit hsound (mem_of_sixpTransFind hfind).1

theorem Extends.sixpInput {buf : List UInt8} (hsound : s.Sound)
    (hinput : s.sixpInput buf srcAddr = .ok t) : Extends s t := by
  unfold Sixp.sixpInput at hinput
  cases hparse : sixpPktParse buf with
  | none =>
    rw [hparse] at hinput
    exact Except.ok.inj hinput ▸ refl hsound
  | some pkt =>
    rw [hparse] at hinput
    exact inputPacket hsound hinput

/-! ### Steps and runs -/

theorem sound_init (nodeAddr : Addr8) (withTermination : Bool)
    (schedulingFunctions : List SchedulingFunction) (num numNbrs : ℕ) :
    (init nodeAddr withTermination schedulingFunctions num numNbrs).Sound := by
  constructor
  case nodup => exact nodup_nil
  case listed => exact fun p ↦ ⟨fun hp ↦ absurd hp not_mem_nil, fun hp ↦ absurd rfl hp.2⟩
  case counts => exact fun p ↦ Nat.zero_le 1
  case idle => exact fun p _ ↦ Or.inl rfl
  case timers => exact fun p hp ↦ absurd rfl hp
  case waiting => exact fun p hp ↦ absurd hp not_mem_nil
  case peers | idents => exact List.Pairwise.nil
  all_goals exact fun p hp ↦ absurd hp not_mem_nil

theorem Sound.next (hsound : s.Sound) (hnext : s.next label = some t) : t.Sound := by
  unfold Sixp.next at hnext
  cases label with
  | output args removable react =>
    exact (Extends.sixpOutput hsound (toOption_eq_some hnext)).sound
  | input buf srcAddr =>
    obtain ⟨-, hinput⟩ := ite_none_right_eq_some.mp hnext
    exact (Extends.sixpInput hsound (toOption_eq_some hinput)).sound
  | macCallback i ok =>
    obtain ⟨frame, -, rfl⟩ := map_eq_some_iff.mp hnext
    have hreported : ({ s with frames := s.frames.eraseIdx i } : Sixp).Sound :=
      hsound.congr rfl rfl rfl rfl fun q ↦ Iff.rfl
    exact hreported.macCallback frame.trans ok
  | timer p =>
    obtain ⟨hpending, hfire⟩ := ite_none_right_eq_some.mp hnext
    exact hsound.fire hpending hfire
  | resume =>
    cases hpending : s.pending with
    | nil => simp [hpending] at hnext
    | cons call pending =>
      simp only [hpending, some.injEq] at hnext
      exact hnext ▸ hsound.resume hpending
  | nbrTables policy op =>
    obtain ⟨nbrs, -, rfl⟩ := map_eq_some_iff.mp hnext
    exact hsound.congr rfl rfl rfl rfl fun q ↦ Iff.rfl

theorem small_init (nodeAddr : Addr8) (withTermination : Bool)
    (schedulingFunctions : List SchedulingFunction) (num numNbrs : ℕ) :
    (init nodeAddr withTermination schedulingFunctions num numNbrs).SmallNbrs := by
  intro item
  have hzero : (init nodeAddr withTermination schedulingFunctions num numNbrs).nbr item = 0 := rfl
  rw [hzero]
  exact ⟨by decide, by decide⟩

/-- No transaction is freed while the MAC holds one of its frames. -/
def FreesReported (s : Sixp) : Label → Prop
  | .timer p => (s.trans p).state = .terminating → ∀ frame ∈ s.frames, frame.trans ≠ p
  | _ => True

instance (s : Sixp) : (label : Label) → Decidable (s.FreesReported label)
  | .timer _ => inferInstanceAs (Decidable (_ → _))
  | .output .. | .input .. | .macCallback .. | .resume | .nbrTables .. => .isTrue trivial

theorem held_init (nodeAddr : Addr8) (withTermination : Bool)
    (schedulingFunctions : List SchedulingFunction) (num numNbrs : ℕ) :
    (init nodeAddr withTermination schedulingFunctions num numNbrs).Held :=
  ⟨fun _ h ↦ absurd h not_mem_nil, fun _ _ h ↦ absurd h not_mem_nil⟩

theorem Held.freeTrans (hheld : s.Held) (hsound : s.Sound) (hpending : s.pending = [])
    (hframes : ∀ frame ∈ s.frames, frame.trans ≠ p) :
    ({ s with timer := Function.update s.timer p none }.freeTrans p : Sixp).Held := by
  constructor
  case frames =>
    intro frame hframe
    obtain ⟨hmem, hident⟩ := hheld.frames frame hframe
    refine ⟨(mem_listRemove hsound.nodup).mpr ⟨hmem, hframes frame hframe⟩, ?_⟩
    change ((s.transMemb.free p).mem frame.trans).ident = frame.ident
    rw [Memb.free_mem]
    exact hident
  case calls =>
    intro q ident hcall
    change .clearCallback q ident ∈ s.pending at hcall
    rw [hpending] at hcall
    exact absurd hcall not_mem_nil

theorem Held.fire (hheld : s.Held) (hsound : s.Sound) (hpending : s.pending = [])
    (hguard : s.FreesReported (.timer p)) (hfire : s.fire p = some t) : t.Held := by
  unfold Sixp.fire at hfire
  cases htimer : s.timer p with
  | none => simp [htimer] at hfire
  | some timer =>
    cases timer with
    | timeout =>
      obtain rfl : _ = t := by simpa only [htimer, some.injEq] using hfire
      exact hheld.of_live (fun q ident hlive ↦ hlive) (fun frame hframe ↦ hframe)
        fun q ident hcall ↦ (mem_cons.mp hcall).resolve_left (by simp)
    | process =>
      have hp : p ∈ s.transList := hsound.timers p (by rw [htimer]; exact some_ne_none _)
      obtain rfl : _ = t := by simpa only [htimer, some.injEq] using hfire
      rcases processTrans_cases s p with ⟨hstate, heq⟩ | ⟨hstate, ⟨-, heq⟩ | ⟨-, heq⟩⟩ <;> rw [heq]
      · exact hheld.freeTrans hsound hpending (hguard hstate)
      · exact (Extends.enter hsound hp _).held hheld
      · exact hheld.of_live (fun q ident hlive ↦ hlive) (fun _ h ↦ h) fun _ _ h ↦ h

theorem Held.resume {call : Pending} {pending : List Pending} (hheld : s.Held)
    (hpending : s.pending = call :: pending) : ({ s with pending }.resume call : Sixp).Held := by
  have hpopped : ({ s with pending } : Sixp).Held :=
    hheld.of_live (fun q ident hlive ↦ hlive) (fun _ h ↦ h)
      fun _ _ h ↦ hpending ▸ mem_cons_of_mem _ h
  cases call with
  | terminate p =>
    have hlive : ∀ q ident, ({ s with pending } : Sixp).Live q ident →
        (({ s with pending } : Sixp).enter p .terminating).Live q ident := fun _ _ hlive ↦ hlive.enter
    exact hpopped.of_live hlive (fun _ h ↦ h) fun _ _ h ↦ h
  | clearCallback p ident =>
    exact hpopped.of_live (fun _ _ hlive ↦ hlive.setCallback none) (fun _ h ↦ h) fun _ _ h ↦ h

theorem Held.next (hheld : s.Held) (hsound : s.Sound) (hguard : s.FreesReported label)
    (hnext : s.next label = some t) : t.Held := by
  unfold Sixp.next at hnext
  cases label with
  | output args removable react =>
    exact (Extends.sixpOutput hsound (toOption_eq_some hnext)).held hheld
  | input buf srcAddr =>
    obtain ⟨-, hinput⟩ := ite_none_right_eq_some.mp hnext
    exact (Extends.sixpInput hsound (toOption_eq_some hinput)).held hheld
  | macCallback i ok =>
    obtain ⟨frame, hframe, rfl⟩ := map_eq_some_iff.mp hnext
    let u : Sixp := { s with frames := s.frames.eraseIdx i }
    have hsound' : u.Sound := hsound.congr rfl rfl rfl rfl fun q ↦ Iff.rfl
    have hheld' : u.Held := hheld.of_live (fun _ _ h ↦ h)
      (fun _ h ↦ mem_of_mem_eraseIdx h) fun _ _ h ↦ h
    have hlive := hheld.frames frame (mem_of_getElem? hframe)
    exact (Extends.macCallback hsound' hlive.1 ok).held hheld'
  | timer p =>
    obtain ⟨hpending, hfire⟩ := ite_none_right_eq_some.mp hnext
    exact hheld.fire hsound hpending hguard hfire
  | resume =>
    cases hpending : s.pending with
    | nil => simp [hpending] at hnext
    | cons call pending =>
      simp only [hpending, some.injEq] at hnext
      exact hnext ▸ hheld.resume hpending
  | nbrTables policy op =>
    obtain ⟨nbrs, -, rfl⟩ := map_eq_some_iff.mp hnext
    exact hheld.of_live (fun _ _ h ↦ h) (fun _ h ↦ h) fun _ _ h ↦ h

theorem held_of_run {nodeAddr : Addr8} {withTermination : Bool}
    {schedulingFunctions : List SchedulingFunction} {num numNbrs : ℕ} {labels : List Label}
    (hrun : Run (GuardedStepOf next FreesReported)
      (init nodeAddr withTermination schedulingFunctions num numNbrs) labels s) :
    s.Sound ∧ s.Held :=
  hrun.invariant
    (P := fun s ↦ s.Sound ∧ s.Held)
    (fun _ _ _ hboth hstep ↦ ⟨hboth.1.next hstep.2, hboth.2.next hboth.1 hstep.1 hstep.2⟩)
    ⟨sound_init .., held_init ..⟩

/-- What the table of transactions promises: one transaction for a peer, the listed transactions
are the taken blocks, each with its one timer pending unless its timeout is being handled, those
that terminate about to be freed, no timer of any other block, and nobody left with a pointer to a
transaction that has ended. -/
structure TableKept (s : Sixp) : Prop where
  listedOnce : s.transList.Nodup
  onePerPeer : ∀ p ∈ s.transList, ∀ q ∈ s.transList,
    (s.trans p).peerAddr = (s.trans q).peerAddr → p = q
  allocated : ∀ p, p ∈ s.transList ↔ p < s.transMemb.num ∧ s.transMemb.count p ≠ 0
  oneTimer : ∀ p ∈ s.transList, (s.timer p).isSome ∨ .terminate p ∈ s.pending
  terminating : ∀ p ∈ s.transList, (s.trans p).state = .terminating → s.timer p = some .process
  noTimer : ∀ p, p ∉ s.transList → s.timer p = none
  frames : ∀ frame ∈ s.frames, s.Live frame.trans frame.ident
  calls : ∀ p ident, .clearCallback p ident ∈ s.pending → s.Live p ident

theorem Sound.tableKept (hsound : s.Sound) (hheld : s.Held) : s.TableKept where
  listedOnce := hsound.nodup
  onePerPeer := by
    intro p hp q hq hpeer
    exact inj_on_of_nodup_map (pairwise_map.mpr hsound.peers) hp hq hpeer
  allocated := hsound.listed
  oneTimer := fun p hp ↦ (hsound.armed p hp).imp_left isSome_iff_ne_none.mpr
  terminating := hsound.terminating
  noTimer := fun p hp ↦ by
    by_contra htimer
    exact hp (hsound.timers p htimer)
  frames := hheld.frames
  calls := hheld.calls

/-- The table keeps its promise in every run in which no transaction is freed while the MAC holds
one of its frames. -/
theorem tableKept_of_run {nodeAddr : Addr8} {withTermination : Bool}
    {schedulingFunctions : List SchedulingFunction} {num numNbrs : ℕ} {labels : List Label}
    (hrun : Run (GuardedStepOf next FreesReported)
      (init nodeAddr withTermination schedulingFunctions num numNbrs) labels s) :
    s.TableKept := by
  obtain ⟨hsound, hheld⟩ := held_of_run hrun
  exact hsound.tableKept hheld

def node (withTermination : Bool) : Sixp :=
  init (fun _ ↦ 1) withTermination [⟨0xf0, true, true⟩] 1 4

def requestTo (dest : UInt8) : Label :=
  .output ⟨.request, cmdClear, 0xf0, [0, 0], fun _ ↦ dest, some dest.toNat⟩ none fun _ _ ↦ []

def timeoutOf (p : ℕ) : List Label := [.timer p, .resume, .timer p]

theorem tableKept_reported :
    ∃ s : Sixp, s.TableKept ∧ s.transList = [] ∧ Event.callback 0 2 true ∈ s.log := by
  obtain ⟨s, hrun, hend⟩ : ∃ s, Run (GuardedStepOf next FreesReported) (node true)
      ([requestTo 2, .macCallback 0 true, .resume, .timer 0] ++ timeoutOf 0) s ∧
        s.transList = [] ∧ Event.callback 0 2 true ∈ s.log := exists_guardedRun (by decide +kernel)
  exact ⟨s, tableKept_of_run hrun, hend⟩

/-- A request times out before the MAC reports it: its transaction is freed, and then called back
through the pointer of the frame. -/
theorem not_tableKept :
    (¬ ∀ labels s, Run (StepOf next) (node true) labels s → s.TableKept) ∧
      ∃ labels s t, Run (StepOf next) (node true) labels s ∧ s.transList = [] ∧
        s.next (.macCallback 0 false) = some t ∧ Event.callback 0 2 false ∈ t.log := by
  obtain ⟨s, hrun, hlist, hframes, hreport⟩ : ∃ s, Run (StepOf next) (node true)
      ([requestTo 2] ++ timeoutOf 0) s ∧ s.transList = [] ∧ s.frames ≠ [] ∧
        (s.next (.macCallback 0 false)).any fun t ↦ Event.callback 0 2 false ∈ t.log :=
    exists_run (by decide +kernel)
  obtain ⟨t, hnext, hlog⟩ := (any_eq_true _ _).mp hreport
  constructor
  · intro hall
    obtain ⟨frame, hframe⟩ := exists_mem_of_ne_nil _ hframes
    have hlive := (hall _ s hrun).frames frame hframe
    exact absurd (hlist ▸ hlive.1) not_mem_nil
  · exact ⟨_, s, t, hrun, hlist, hnext, of_decide_eq_true hlog⟩

end ContikiMaster.Sixtop.Sixp
