import ContikiMaster.Net.NbrTableRuns
import ContikiMaster.Sixtop.Protocol

/-!
# The table of 6P transactions

Whatever is called, received, reported or timed: there is one transaction for a peer, the
listed transactions are the taken blocks, each of them has one pending timer unless its
timeout is being handled, and no other block has one.
-/

namespace ContikiMaster.Sixtop.Sixp

open Lib Sys Net Framer Tsch Function List Option Memb

variable {s s' t : Sixp} {p q i : ℕ} {newState : TransState}

/-- What every step keeps. -/
structure Sound (s : Sixp) : Prop where
  nodup : s.transList.Nodup
  listed : ∀ p, p ∈ s.transList ↔ p < s.transMemb.num ∧ s.transMemb.count p ≠ 0
  counts : ∀ p, s.transMemb.count p ≤ 1
  peers : s.transList.Pairwise fun p q ↦ (s.trans p).peerAddr ≠ (s.trans q).peerAddr
  timers : ∀ p, s.timer p ≠ none → p ∈ s.transList
  armed : ∀ p ∈ s.transList, s.timer p ≠ none ∨ .terminate p ∈ s.pending
  terminating : ∀ p ∈ s.transList, (s.trans p).state = .terminating → s.timer p = some .process
  idle : ∀ p, p ∉ s.transList → (s.trans p).state = .unavailable ∨ (s.trans p).state = .terminating
  waiting : ∀ p, .terminate p ∈ s.pending → p ∈ s.transList
  idents : s.transList.Pairwise fun p q ↦ (s.trans p).ident ≠ (s.trans q).ident
  identsLt : ∀ p ∈ s.transList, (s.trans p).ident < s.nextIdent

/-- The transaction numbered `ident` is going on in the block `p`. -/
def Live (s : Sixp) (p ident : ℕ) : Prop := p ∈ s.transList ∧ (s.trans p).ident = ident

instance (s : Sixp) (p ident : ℕ) : Decidable (s.Live p ident) := instDecidableAnd

theorem Sound.congr (hsound : s.Sound) (hmemb : t.transMemb = s.transMemb)
    (hlist : t.transList = s.transList) (htimer : t.timer = s.timer)
    (hident : t.nextIdent = s.nextIdent)
    (hpending : ∀ p, .terminate p ∈ t.pending ↔ .terminate p ∈ s.pending) : t.Sound := by
  have htrans : ∀ p, t.trans p = s.trans p := fun p ↦ by rw [Sixp.trans, Sixp.trans, hmemb]
  constructor
  case nodup => exact hlist ▸ hsound.nodup
  case listed => exact fun p ↦ hlist ▸ hmemb ▸ hsound.listed p
  case counts => exact fun p ↦ hmemb ▸ hsound.counts p
  case peers => simpa only [htrans, hlist] using hsound.peers
  case timers => exact fun p ↦ hlist ▸ htimer ▸ hsound.timers p
  case armed => simpa only [hlist, htimer, hpending] using hsound.armed
  case terminating => simpa only [hlist, htimer, htrans] using hsound.terminating
  case idle => simpa only [hlist, htrans] using hsound.idle
  case waiting => simpa only [hlist, hpending] using hsound.waiting
  case idents => simpa only [htrans, hlist] using hsound.idents
  case identsLt => simpa only [htrans, hlist, hident] using hsound.identsLt

/-- The counters of the neighbours are four bits long. -/
def SmallNbrs (s : Sixp) : Prop := ∀ item, (s.nbr item).nextSeqno < 16 ∧ (s.nbr item).gen < 16

theorem SmallNbrs.of_nbrs (hsmall : s.SmallNbrs) (hnbrs : t.nbrs = s.nbrs) : t.SmallNbrs := by
  intro item
  have hnbr : t.nbr item = s.nbr item := by rw [nbr, nbr, hnbrs]
  rw [hnbr]
  exact hsmall item

theorem SmallNbrs.clears (hsmall : s.SmallNbrs) {nbrs : NbrTables Nbr}
    (hclears : NbrTables.ClearsData s.nbrs nbrs) : ({ s with nbrs } : Sixp).SmallNbrs := by
  intro item
  rcases hclears 0 item with hsame | hzero
  · have hnbr : ({ s with nbrs } : Sixp).nbr item = s.nbr item := hsame
    rw [hnbr]
    exact hsmall item
  · have hnbr : ({ s with nbrs } : Sixp).nbr item = ⟨0, 0⟩ := hzero
    rw [hnbr]
    exact ⟨by decide, by decide⟩

theorem setNbr_nbr (s : Sixp) (item : ℕ) (v : Nbr) (i : ℕ) :
    (s.setNbr item v).nbr i = if i = item then v else s.nbr i := by
  unfold setNbr nbr
  by_cases hi : i = item
  · simp [hi]
  · simp [hi]

theorem SmallNbrs.setNbr (hsmall : s.SmallNbrs) {v : Nbr} (hseqno : v.nextSeqno < 16)
    (hgen : v.gen < 16) (item : ℕ) : (s.setNbr item v).SmallNbrs := by
  intro i
  rw [setNbr_nbr]
  split
  · exact ⟨hseqno, hgen⟩
  · exact hsmall i

theorem nextSeqno_lt (seqno : UInt8) : (if seqno + 1 > 0x0f then 0 else seqno + 1) < 16 := by
  split
  · decide
  · rename_i hle
    have hle := UInt8.not_lt.mp hle
    exact UInt8.lt_of_le_of_lt hle (by decide)

theorem SmallNbrs.increment (hsmall : s.SmallNbrs) (item : ℕ) :
    (s.sixpNbrIncrementNextSeqno item).SmallNbrs := by
  let seqno := (s.nbr item).nextSeqno + 1
  exact hsmall.setNbr (v := ⟨if seqno > 0x0f then 0 else seqno, (s.nbr item).gen⟩)
    (nextSeqno_lt _) (hsmall item).2 item

/-! ### The choice of a neighbour -/

section Choice

variable {u : Sixp} {type : SixpPktType} {code : UInt8} {trans : Option ℕ} {addr : Addr8}
  {removable : Option (Option Linkaddr)} {react : Reaction} {item : ℕ}
  {choice : Option (Option ℕ × UInt8)}

/-- The entry that `sixp_output` uses for the peer, and the state with it: it is found or created. -/
def Entry (s : Sixp) (addr : Addr8) (removable : Option (Option Linkaddr)) (react : Reaction)
    (item : ℕ) (u : Sixp) : Prop :=
  (s.sixpNbrFind addr = some item ∧ u = s) ∨
    (s.sixpNbrFind addr = none ∧ s.sixpNbrAlloc addr removable react = (some item, u))

theorem sixpNbrAlloc_cases {created : Option ℕ}
    (halloc : s.sixpNbrAlloc addr removable react = (created, u)) :
    (created = none ∧ u = s) ∨ ∃ item nbrs, created = some item ∧
      NbrTables.ClearsData s.nbrs nbrs ∧ u = Sixp.setNbr { s with nbrs } item ⟨0, 0⟩ := by
  unfold sixpNbrAlloc at halloc
  split at halloc
  · cases halloc
    exact .inl ⟨rfl, rfl⟩
  · have hclears := NbrTables.nbrTableAddLladdr_clearsData s.nbrs 0 (some (nbrKey addr)) removable
      react
    rcases hadd : s.nbrs.nbrTableAddLladdr 0 (some (nbrKey addr)) removable react with ⟨_ | item, nbrs⟩
    · rw [hadd] at halloc
      cases halloc
      unfold NbrTables.nbrTableAddLladdr at hadd
      split at hadd
      · cases hadd
      · split at hadd
        · cases hadd
          exact .inl ⟨rfl, rfl⟩
        · cases hadd
    · rw [hadd] at halloc hclears
      cases halloc
      exact .inr ⟨item, nbrs, rfl, hclears, rfl⟩

theorem sixpNbrAlloc_some (halloc : s.sixpNbrAlloc addr removable react = (some item, u)) :
    ∃ nbrs, NbrTables.ClearsData s.nbrs nbrs ∧ u = Sixp.setNbr { s with nbrs } item ⟨0, 0⟩ := by
  rcases sixpNbrAlloc_cases halloc with ⟨hnone, -⟩ | ⟨other, nbrs, hsome, hclears, hu⟩
  · cases hnone
  · cases hsome
    exact ⟨nbrs, hclears, hu⟩

theorem SmallNbrs.alloc (hsmall : s.SmallNbrs)
    (halloc : s.sixpNbrAlloc addr removable react = (some item, u)) : u.SmallNbrs := by
  obtain ⟨nbrs, hclears, rfl⟩ := sixpNbrAlloc_some halloc
  exact (hsmall.clears hclears).setNbr (by decide) (by decide) item

theorem SmallNbrs.entry (hsmall : s.SmallNbrs) (hentry : s.Entry addr removable react item u) :
    u.SmallNbrs := by
  rcases hentry with ⟨-, rfl⟩ | ⟨-, halloc⟩
  · exact hsmall
  · exact hsmall.alloc halloc

/-- A response with success to an ADD or a DELETE, to a peer without an entry. -/
def CreatesEntry (s : Sixp) (type : SixpPktType) (code : UInt8) (trans : Option ℕ)
    (addr : Addr8) : Prop :=
  s.sixpNbrFind addr = none ∧ type = .response ∧ code = rcSuccess ∧
    (trans.map fun p ↦ (s.trans p).cmd).getD 0 ∈ [cmdAdd, cmdDelete]

theorem outputNbr_cases (hchoice : s.outputNbr type code trans addr removable react = (choice, u)) :
    (choice = none ∧ u = s) ∨ ∃ nbr seqno, choice = some (nbr, seqno) ∧
      ((type = .request ∧ ∃ item w, s.Entry addr removable react item w ∧
          seqno = (w.nbr item).nextSeqno ∧ u = w.sixpNbrIncrementNextSeqno item) ∨
        (type ≠ .request ∧ seqno = (trans.map fun p ↦ (s.trans p).seqno).getD 0 ∧
          ((¬ s.CreatesEntry type code trans addr ∧ u = s) ∨ (s.CreatesEntry type code trans addr ∧
            ∃ item, s.sixpNbrAlloc addr removable react = (some item, u))))) := by
  unfold outputNbr at hchoice
  cases hfind : s.sixpNbrFind addr with
  | some item =>
    simp only [hfind] at hchoice
    split at hchoice
    · rename_i hrequest
      cases hchoice
      exact .inr ⟨_, _, rfl, .inl ⟨hrequest, item, s, .inl ⟨hfind, rfl⟩, rfl, rfl⟩⟩
    · rename_i hrequest
      cases hchoice
      refine .inr ⟨_, _, rfl, .inr ⟨hrequest, rfl, .inl ⟨fun hcreates ↦ ?_, rfl⟩⟩⟩
      exact Option.some_ne_none _ (hfind.symm.trans hcreates.1)
  | none =>
    simp only [hfind] at hchoice
    split at hchoice
    · rename_i hallocates
      rcases halloc : s.sixpNbrAlloc addr removable react with ⟨_ | item, w⟩
      · rw [halloc] at hchoice
        cases hchoice
        rcases sixpNbrAlloc_cases halloc with ⟨-, rfl⟩ | ⟨item, nbrs, hsome, -⟩
        · exact .inl ⟨rfl, rfl⟩
        · cases hsome
      rw [halloc] at hchoice
      dsimp only at hchoice
      split at hchoice
      · rename_i hrequest
        cases hchoice
        exact .inr ⟨_, _, rfl, .inl ⟨hrequest, item, w, .inr ⟨hfind, halloc⟩, rfl, rfl⟩⟩
      · rename_i hrequest
        cases hchoice
        obtain ⟨hresponse, hcode, hcmd⟩ := (of_decide_eq_true hallocates).resolve_left hrequest
        have hcreates : s.CreatesEntry type code trans addr :=
          ⟨hfind, hresponse, hcode, by simpa using hcmd⟩
        refine .inr ⟨_, _, rfl, .inr ⟨hrequest, ?_, .inr ⟨hcreates, item, rfl⟩⟩⟩
        obtain ⟨nbrs, -, rfl⟩ := sixpNbrAlloc_some halloc
        rfl
    · rename_i hallocates
      cases hchoice
      refine .inr ⟨_, _, rfl, .inr ⟨fun hrequest ↦ hallocates ?_, rfl,
        .inl ⟨fun hcreates ↦ hallocates ?_, rfl⟩⟩⟩
      · simp [hrequest]
      · obtain ⟨-, hresponse, hcode, hcmd⟩ := hcreates
        exact decide_eq_true (.inr ⟨hresponse, hcode, by simpa using hcmd⟩)

theorem SmallNbrs.outputNbr (hsmall : s.SmallNbrs) (type : SixpPktType) (code : UInt8)
    (trans : Option ℕ) (destAddr : Addr8) (removable : Option (Option Linkaddr))
    (react : Reaction) : (s.outputNbr type code trans destAddr removable react).2.SmallNbrs ∧
      ∀ choice ∈ (s.outputNbr type code trans destAddr removable react).1,
        (type = .request → choice.2 < 16) ∧
        (type ≠ .request → choice.2 = (trans.map fun p ↦ (s.trans p).seqno).getD 0) := by
  rcases hchoice : s.outputNbr type code trans destAddr removable react with ⟨choice, u⟩
  rcases outputNbr_cases hchoice with ⟨rfl, rfl⟩ | ⟨nbr, seqno, rfl, hused⟩
  · exact ⟨hsmall, nofun⟩
  rcases hused with ⟨hrequest, item, w, hentry, hseqno, rfl⟩ | ⟨hrequest, hseqno, hu⟩
  · have hw := hsmall.entry hentry
    refine ⟨hw.increment item, fun choice hsome ↦ ?_⟩
    obtain rfl := some.inj hsome
    exact ⟨fun _ ↦ hseqno ▸ (hw item).1, fun hne ↦ absurd hrequest hne⟩
  · refine ⟨?_, fun choice hsome ↦ ?_⟩
    · rcases hu with ⟨-, rfl⟩ | ⟨-, item, halloc⟩
      · exact hsmall
      · exact hsmall.alloc halloc
    · obtain rfl := some.inj hsome
      exact ⟨fun heq ↦ absurd heq hrequest, fun _ ↦ hseqno⟩

theorem outputNbr_snd (s : Sixp) (type : SixpPktType) (code : UInt8) (trans : Option ℕ)
    (destAddr : Addr8) (removable : Option (Option Linkaddr)) (react : Reaction) :
    ∃ nbrs, (s.outputNbr type code trans destAddr removable react).2 = { s with nbrs } := by
  rcases hchoice : s.outputNbr type code trans destAddr removable react with ⟨choice, u⟩
  rcases outputNbr_cases hchoice with ⟨-, rfl⟩ | ⟨nbr, seqno, -, ⟨-, item, w, hentry, -, rfl⟩ |
    ⟨-, -, ⟨-, rfl⟩ | ⟨-, item, halloc⟩⟩⟩
  · exact ⟨u.nbrs, rfl⟩
  · rcases hentry with ⟨-, rfl⟩ | ⟨-, halloc⟩
    · exact ⟨_, rfl⟩
    · obtain ⟨nbrs, -, rfl⟩ := sixpNbrAlloc_some halloc
      exact ⟨_, rfl⟩
  · exact ⟨u.nbrs, rfl⟩
  · obtain ⟨nbrs, -, rfl⟩ := sixpNbrAlloc_some halloc
    exact ⟨_, rfl⟩

end Choice

/-- The transactions that the MAC and the waiting calls still point to are going on. -/
structure Held (s : Sixp) : Prop where
  frames : ∀ frame ∈ s.frames, s.Live frame.trans frame.ident
  calls : ∀ p ident, .clearCallback p ident ∈ s.pending → s.Live p ident

theorem Held.of_live (hheld : s.Held) (hlive : ∀ p ident, s.Live p ident → t.Live p ident)
    (hframes : ∀ frame ∈ t.frames, frame ∈ s.frames)
    (hcalls : ∀ p ident, .clearCallback p ident ∈ t.pending → .clearCallback p ident ∈ s.pending) :
    t.Held :=
  ⟨fun frame hframe ↦ hlive _ _ (hheld.frames frame (hframes frame hframe)),
    fun p ident hcall ↦ hlive _ _ (hheld.calls p ident (hcalls p ident hcall))⟩

/-- What a call makes of a table: it stays sound, no transaction ends, nobody points to a
transaction that has ended, and the counters of the neighbours stay four bits long. -/
structure Extends (s t : Sixp) : Prop where
  sound : t.Sound
  live : ∀ p ident, s.Live p ident → t.Live p ident
  held : s.Held → t.Held
  small : s.SmallNbrs → t.SmallNbrs

namespace Extends

theorem refl (hsound : s.Sound) : Extends s s := ⟨hsound, fun _ _ h ↦ h, fun h ↦ h, fun h ↦ h⟩

theorem trans {r : Sixp} (hleft : Extends r s) (hright : Extends s t) : Extends r t :=
  ⟨hright.sound, fun p ident h ↦ hright.live p ident (hleft.live p ident h),
    fun h ↦ hright.held (hleft.held h), fun h ↦ hright.small (hleft.small h)⟩

theorem of_live (hsound : t.Sound) (hlive : ∀ p ident, s.Live p ident → t.Live p ident)
    (hframes : t.frames = s.frames) (hpending : t.pending = s.pending) (hnbrs : t.nbrs = s.nbrs) :
    Extends s t :=
  ⟨hsound, hlive, fun hheld ↦ hheld.of_live hlive (fun _ h ↦ hframes ▸ h)
    fun _ _ h ↦ hpending ▸ h, fun hsmall ↦ hsmall.of_nbrs hnbrs⟩

theorem of_eq (hsound : s.Sound) (hmemb : t.transMemb = s.transMemb)
    (hlist : t.transList = s.transList) (htimer : t.timer = s.timer)
    (hident : t.nextIdent = s.nextIdent) (hframes : t.frames = s.frames)
    (hpending : t.pending = s.pending) (hnbrs : t.nbrs = s.nbrs) : Extends s t := by
  have hlive : ∀ p ident, s.Live p ident → t.Live p ident := fun p ident ↦ by
    rw [Live, Live, Sixp.trans, Sixp.trans, hmemb, hlist]
    exact id
  exact of_live (hsound.congr hmemb hlist htimer hident fun p ↦ by rw [hpending]) hlive
    hframes hpending hnbrs

end Extends

/-! ### Steps of a transaction -/

@[simp]
theorem enter_trans_self : (s.enter p newState).trans p = { s.trans p with state := newState } :=
  store_mem_self

theorem enter_trans_of_ne (hne : q ≠ p) : (s.enter p newState).trans q = s.trans q :=
  store_mem_of_ne hne

theorem enter_peerAddr (q : ℕ) : ((s.enter p newState).trans q).peerAddr = (s.trans q).peerAddr ∧
      ((s.enter p newState).trans q).ident = (s.trans q).ident :=
  ⟨store_field Trans.peerAddr (by rfl) q, store_field Trans.ident (by rfl) q⟩

@[simp]
theorem enter_transList : (s.enter p newState).transList = s.transList := rfl

@[simp]
theorem enter_nextIdent : (s.enter p newState).nextIdent = s.nextIdent := rfl

theorem enter_timer_self : (s.enter p newState).timer p = some .process := update_self ..

theorem enter_timer_of_ne (hne : q ≠ p) : (s.enter p newState).timer q = s.timer q :=
  update_of_ne hne ..

theorem Sound.enter (hsound : s.Sound) (hp : p ∈ s.transList) (newState : TransState) :
    (s.enter p newState).Sound := by
  constructor
  case nodup => exact hsound.nodup
  case listed => exact hsound.listed
  case counts => exact hsound.counts
  case peers => simpa only [enter_transList, (enter_peerAddr _).1] using hsound.peers
  case timers =>
    intro q hq
    by_cases hqp : q = p
    · exact hqp ▸ hp
    · exact hsound.timers q (by rwa [enter_timer_of_ne hqp] at hq)
  case armed =>
    intro q hq
    by_cases hqp : q = p
    · subst hqp
      rw [enter_timer_self]
      exact Or.inl (some_ne_none _)
    · rw [enter_timer_of_ne hqp]
      exact hsound.armed q hq
  case terminating =>
    intro q hq hstate
    by_cases hqp : q = p
    · subst hqp
      exact enter_timer_self
    · rw [enter_trans_of_ne hqp] at hstate
      rw [enter_timer_of_ne hqp]
      exact hsound.terminating q hq hstate
  case idle =>
    intro q hq
    have hqp : q ≠ p := fun heq ↦ hq (heq ▸ hp)
    rw [enter_trans_of_ne hqp]
    exact hsound.idle q hq
  case waiting => exact hsound.waiting
  case idents => simpa only [enter_transList, (enter_peerAddr _).2] using hsound.idents
  case identsLt =>
    simpa only [enter_transList, enter_nextIdent, (enter_peerAddr _).2] using hsound.identsLt

theorem setCallback_trans (callback : Option ℕ) (q : ℕ) :
    ∃ c, (s.sixpTransSetCallback p callback).trans q = { s.trans q with callback := c } := by
  by_cases hq : q = p
  · subst hq
    exact ⟨callback, store_mem_self⟩
  · exact ⟨(s.trans q).callback, store_mem_of_ne hq⟩

theorem setCallback_peerAddr (callback : Option ℕ) (q : ℕ) :
    ((s.sixpTransSetCallback p callback).trans q).peerAddr = (s.trans q).peerAddr ∧
      ((s.sixpTransSetCallback p callback).trans q).ident = (s.trans q).ident ∧
      ((s.sixpTransSetCallback p callback).trans q).state = (s.trans q).state :=
  ⟨store_field Trans.peerAddr (by rfl) q, store_field Trans.ident (by rfl) q, store_field Trans.state (by rfl) q⟩

@[simp]
theorem setCallback_transList (callback : Option ℕ) :
    (s.sixpTransSetCallback p callback).transList = s.transList := rfl

@[simp]
theorem setCallback_timer (callback : Option ℕ) :
    (s.sixpTransSetCallback p callback).timer = s.timer := rfl

@[simp]
theorem setCallback_nextIdent (callback : Option ℕ) :
    (s.sixpTransSetCallback p callback).nextIdent = s.nextIdent := rfl

theorem Sound.sixpTransSetCallback (hsound : s.Sound) (p : ℕ) (callback : Option ℕ) :
    (s.sixpTransSetCallback p callback).Sound := by
  constructor
  case nodup => exact hsound.nodup
  case listed => exact hsound.listed
  case counts => exact hsound.counts
  case peers => simpa only [setCallback_transList, (setCallback_peerAddr _ _).1] using hsound.peers
  case timers => exact hsound.timers
  case armed => exact hsound.armed
  case terminating =>
    simpa only [setCallback_transList, setCallback_timer, (setCallback_peerAddr _ _).2.2]
      using hsound.terminating
  case idle =>
    simpa only [setCallback_transList, (setCallback_peerAddr _ _).2.2] using hsound.idle
  case waiting => exact hsound.waiting
  case idents =>
    simpa only [setCallback_transList, (setCallback_peerAddr _ _).2.1] using hsound.idents
  case identsLt =>
    simpa only [setCallback_transList, setCallback_nextIdent, (setCallback_peerAddr _ _).2.1]
      using hsound.identsLt

variable {pending : List Pending} {ident : ℕ}

theorem Sound.wait (hsound : s.Sound) (hwaiting : ∀ p, .terminate p ∈ pending → p ∈ s.transList)
    (harmed : ∀ p, .terminate p ∈ s.pending → .terminate p ∈ pending ∨ s.timer p ≠ none) :
    ({ s with pending } : Sixp).Sound where
  nodup := hsound.nodup
  listed := hsound.listed
  counts := hsound.counts
  peers := hsound.peers
  timers := hsound.timers
  armed := fun p hp ↦ (hsound.armed p hp).elim Or.inl fun hwait ↦ (harmed p hwait).symm
  terminating := hsound.terminating
  idle := hsound.idle
  waiting := hwaiting
  idents := hsound.idents
  identsLt := hsound.identsLt

theorem Live.enter (hlive : s.Live q ident) : (s.enter p newState).Live q ident :=
  ⟨hlive.1, (enter_peerAddr q).2.trans hlive.2⟩

theorem Live.setCallback (hlive : s.Live q ident) (callback : Option ℕ) :
    (s.sixpTransSetCallback p callback).Live q ident :=
  ⟨hlive.1, (setCallback_peerAddr callback q).2.1.trans hlive.2⟩

theorem Extends.enter (hsound : s.Sound) (hp : p ∈ s.transList) (newState : TransState) :
    Extends s (s.enter p newState) :=
  of_live (hsound.enter hp newState) (fun _ _ hlive ↦ hlive.enter) rfl rfl rfl

theorem Extends.sixpTransTransitState (hsound : s.Sound) (hp : p ∈ s.transList)
    (newState : TransState) : Extends s (s.sixpTransTransitState p newState).2 := by
  unfold Sixp.sixpTransTransitState
  split
  · exact enter hsound hp newState
  · exact refl hsound

theorem Extends.sixpTransSetCallback (hsound : s.Sound) (p : ℕ) (callback : Option ℕ) :
    Extends s (s.sixpTransSetCallback p callback) :=
  of_live (hsound.sixpTransSetCallback p callback) (fun _ _ hlive ↦ hlive.setCallback callback)
    rfl rfl rfl

/-- What `mac_callback` hands to the caller's callback, and what waits for it. -/
def callBack (s : Sixp) (p : ℕ) (ok : Bool) : Sixp :=
  { s with
    log := s.log ++
      ((s.trans p).callback.toList.map fun callback ↦ Event.callback (s.trans p).ident callback ok)
    pending := .clearCallback p (s.trans p).ident :: s.pending }

theorem macCallback_cases (s : Sixp) (p : ℕ) (ok : Bool) :
    s.macCallback p ok = s ∨ s.macCallback p ok = s.callBack p ok ∨
      ((s.trans p).state ≠ .unavailable ∧ (s.trans p).state ≠ .terminating ∧
        (s.macCallback p ok = s.enter p .terminating ∨
          ∃ newState, s.macCallback p ok = (s.enter p newState).callBack p ok)) := by
  unfold Sixp.macCallback
  cases ok
  case false =>
    by_cases hinit : (s.trans p).state = .init
    · refine Or.inr (Or.inr ⟨by rw [hinit]; decide, by rw [hinit]; decide,
        Or.inr ⟨.terminating, ?_⟩⟩)
      simp [hinit, Sixp.sixpTransTransitState, mayTransit, callBack]
    · refine Or.inr (Or.inl ?_)
      simp [hinit, callBack]
  case true =>
    cases hstate : (s.trans p).state
    case init =>
      refine Or.inr (Or.inr ⟨by decide, by decide, Or.inr ⟨.requestSent, ?_⟩⟩)
      simp [Sixp.sixpTransTransitState, mayTransit, hstate, callBack]
    case requestReceived =>
      refine Or.inr (Or.inr ⟨by decide, by decide, Or.inr ⟨.responseSent, ?_⟩⟩)
      simp [Sixp.sixpTransTransitState, mayTransit, hstate, callBack]
    case responseReceived =>
      by_cases hmode : (s.trans p).mode = .threeStep
      · refine Or.inr (Or.inr ⟨by decide, by decide, Or.inr ⟨.confirmationSent, ?_⟩⟩)
        simp [Sixp.sixpTransTransitState, mayTransit, hstate, hmode, callBack]
      · refine Or.inr (Or.inr ⟨by decide, by decide, Or.inl ?_⟩)
        simp [Sixp.sixpTransTransitState, mayTransit, hstate, hmode]
    all_goals exact Or.inl (by simp)

theorem Sound.callBack (hsound : s.Sound) (p : ℕ) (ok : Bool) : (s.callBack p ok).Sound := by
  apply Sound.congr (t := s.callBack p ok) hsound rfl rfl rfl rfl
  intro q
  simp [Sixp.callBack]

theorem Extends.callBack (hsound : s.Sound) (hp : p ∈ s.transList) (ok : Bool) :
    Extends s (s.callBack p ok) := by
  constructor
  case sound => exact hsound.callBack p ok
  case live => exact fun q ident hlive ↦ hlive
  case held =>
    intro hheld
    constructor
    case frames => exact hheld.frames
    case calls =>
      intro q ident hcall
      rcases mem_cons.mp hcall with heq | hcall
      · obtain ⟨rfl, rfl⟩ := Pending.clearCallback.inj heq
        exact ⟨hp, rfl⟩
      · exact hheld.calls q ident hcall
  case small => exact fun hsmall ↦ hsmall.of_nbrs rfl

theorem Sound.mem_of_state (hsound : s.Sound) (hunavailable : (s.trans p).state ≠ .unavailable)
    (hterminating : (s.trans p).state ≠ .terminating) : p ∈ s.transList := by
  by_contra hp
  exact (hsound.idle p hp).elim hunavailable hterminating

theorem Sound.macCallback (hsound : s.Sound) (p : ℕ) (ok : Bool) : (s.macCallback p ok).Sound := by
  rcases macCallback_cases s p ok with heq | heq | ⟨hunavailable, hterminating, heq | ⟨_, heq⟩⟩
  · rw [heq]
    exact hsound
  · rw [heq]
    exact hsound.callBack p ok
  all_goals
    have hp := hsound.mem_of_state hunavailable hterminating
    rw [heq]
  · exact hsound.enter hp _
  · exact (hsound.enter hp _).callBack p ok

theorem Extends.macCallback (hsound : s.Sound) (hp : p ∈ s.transList) (ok : Bool) :
    Extends s (s.macCallback p ok) := by
  rcases macCallback_cases s p ok with heq | heq | ⟨-, -, heq | ⟨newState, heq⟩⟩ <;> rw [heq]
  · exact refl hsound
  · exact callBack hsound hp ok
  · exact enter hsound hp _
  · exact (enter hsound hp newState).trans (callBack (hsound.enter hp newState) hp ok)

/-! ### Timers -/

/-- The states in which the processing step ends a transaction. -/
def Finishes (mode : TransMode) (state : TransState) : Prop :=
  (state = .responseSent ∨ state = .responseReceived) ∧ mode = .twoStep ∨
    state = .confirmationSent ∨ state = .confirmationReceived

instance (mode : TransMode) (state : TransState) : Decidable (Finishes mode state) :=
  instDecidableOr

theorem processTrans_cases (s : Sixp) (p : ℕ) :
    ((s.trans p).state = .terminating ∧ s.processTrans p =
        { s with timer := update s.timer p none }.freeTrans p) ∨
      ((s.trans p).state ≠ .terminating ∧
        (Finishes (s.trans p).mode (s.trans p).state ∧ s.processTrans p = s.enter p .terminating ∨
          ¬ Finishes (s.trans p).mode (s.trans p).state ∧
            s.processTrans p = s.startTransTimer p)) := by
  by_cases hstate : (s.trans p).state = .terminating
  · refine Or.inl ⟨hstate, ?_⟩
    unfold processTrans
    exact if_pos hstate
  · refine Or.inr ⟨hstate, ?_⟩
    have hstate' : ({ s with timer := update s.timer p none } : Sixp).trans p = s.trans p := rfl
    unfold processTrans
    simp only [hstate', hstate, if_false]
    by_cases hfinishes : Finishes (s.trans p).mode (s.trans p).state
    · refine Or.inl ⟨hfinishes, ?_⟩
      unfold Finishes at hfinishes
      rw [if_pos hfinishes]
      simp [Sixp.sixpTransTransitState, mayTransit, Sixp.enter, scheduleTransProcess, Sixp.trans]
    · refine Or.inr ⟨hfinishes, ?_⟩
      unfold Finishes at hfinishes
      rw [if_neg hfinishes]
      simp [hstate', hstate, startTransTimer]

theorem Sound.startTransTimer (hsound : s.Sound) (hp : p ∈ s.transList)
    (hstate : (s.trans p).state ≠ .terminating) : (s.startTransTimer p).Sound := by
  have htimer : ∀ q, q ≠ p → (s.startTransTimer p).timer q = s.timer q :=
    fun q hq ↦ update_of_ne hq ..
  constructor
  case nodup => exact hsound.nodup
  case listed => exact hsound.listed
  case counts => exact hsound.counts
  case peers => exact hsound.peers
  case timers =>
    intro q hq
    by_cases hqp : q = p
    · exact hqp ▸ hp
    · exact hsound.timers q (by rwa [htimer q hqp] at hq)
  case armed =>
    intro q hq
    by_cases hqp : q = p
    · have hself : (s.startTransTimer p).timer p = some .timeout := update_self ..
      rw [hqp, hself]
      exact Or.inl (some_ne_none _)
    · rw [htimer q hqp]
      exact hsound.armed q hq
  case terminating =>
    intro q hq hterminating
    have hqp : q ≠ p := fun heq ↦ hstate (heq ▸ hterminating)
    rw [htimer q hqp]
    exact hsound.terminating q hq hterminating
  case idle => exact hsound.idle
  case waiting => exact hsound.waiting
  case idents => exact hsound.idents
  case identsLt => exact hsound.identsLt

theorem Sound.freeTrans (hsound : s.Sound) (hpending : s.pending = []) (hp : p ∈ s.transList)
    (hstate : (s.trans p).state = .terminating) :
    ({ s with timer := update s.timer p none }.freeTrans p : Sixp).Sound := by
  let s' : Sixp := { s with timer := update s.timer p none }.freeTrans p
  have hmem : ∀ q, q ∈ s'.transList ↔ q ∈ s.transList ∧ q ≠ p := fun q ↦ mem_listRemove hsound.nodup
  have htrans : ∀ q, s'.trans q = s.trans q := fun q ↦ by
    change (s.transMemb.free p).mem q = s.transMemb.mem q
    rw [free_mem]
  have htimer : ∀ q, q ≠ p → s'.timer q = s.timer q := fun q hq ↦ update_of_ne hq ..
  have hsub : s'.transList.Sublist s.transList := erase_sublist
  constructor
  case nodup => exact nodup_listRemove hsound.nodup
  case listed =>
    intro q
    have hnum : (s.transMemb.free p).num = s.transMemb.num := free_num
    rw [hmem q, hsound.listed q]
    change _ ↔ q < (s.transMemb.free p).num ∧ (s.transMemb.free p).count q ≠ 0
    rw [hnum]
    by_cases hqp : q = p
    · have hcount := hsound.counts p
      have hlt := ((hsound.listed p).mp hp).1
      rw [hqp, free_count_self hlt]
      grind
    · rw [free_count_of_ne hqp]
      simp [hqp]
  case counts =>
    intro q
    change (s.transMemb.free p).count q ≤ 1
    by_cases hqp : q = p
    · have hlt := ((hsound.listed p).mp hp).1
      rw [hqp, free_count_self hlt]
      exact (Nat.sub_le ..).trans (hsound.counts p)
    · rw [free_count_of_ne hqp]
      exact hsound.counts q
  case peers =>
    have hpeers := hsound.peers.sublist hsub
    exact hpeers.imp fun {q r} hne ↦ by rwa [htrans, htrans]
  case timers =>
    intro q hq
    by_cases hqp : q = p
    · have hnone : s'.timer q = none := hqp ▸ update_self ..
      exact absurd hnone hq
    · exact (hmem q).mpr ⟨hsound.timers q (htimer q hqp ▸ hq), hqp⟩
  case armed =>
    intro q hq
    obtain ⟨hq, hqp⟩ := (hmem q).mp hq
    change s'.timer q ≠ none ∨ .terminate q ∈ s.pending
    rw [htimer q hqp]
    exact hsound.armed q hq
  case terminating =>
    intro q hq hterminating
    obtain ⟨hq, hqp⟩ := (hmem q).mp hq
    change s'.timer q = _
    rw [htimer q hqp]
    exact hsound.terminating q hq (htrans q ▸ hterminating)
  case idle =>
    intro q hq
    change (s'.trans q).state = _ ∨ (s'.trans q).state = _
    rw [htrans]
    by_cases hqp : q = p
    · exact Or.inr (hqp ▸ hstate)
    · exact hsound.idle q fun hmem' ↦ hq ((hmem q).mpr ⟨hmem', hqp⟩)
  case waiting =>
    intro q hq
    have hq : .terminate q ∈ s.pending := hq
    rw [hpending] at hq
    exact absurd hq not_mem_nil
  case idents =>
    have hidents := hsound.idents.sublist hsub
    exact hidents.imp fun {q r} hne ↦ by rwa [htrans, htrans]
  case identsLt =>
    intro q hq
    change (s'.trans q).ident < s.nextIdent
    rw [htrans]
    exact hsound.identsLt q ((hmem q).mp hq).1

theorem Sound.handleTransTimeout (hsound : s.Sound) (htimeout : s.timer p = some .timeout) :
    ({ s with timer := update s.timer p none }.handleTransTimeout p : Sixp).Sound := by
  have hp : p ∈ s.transList := hsound.timers p (by rw [htimeout]; exact some_ne_none _)
  let s' : Sixp := { s with timer := update s.timer p none }.handleTransTimeout p
  have htimer : ∀ q, q ≠ p → s'.timer q = s.timer q := fun q hq ↦ update_of_ne hq ..
  have hnone : s'.timer p = none := update_self ..
  constructor
  case nodup => exact hsound.nodup
  case listed => exact hsound.listed
  case counts => exact hsound.counts
  case peers => exact hsound.peers
  case timers =>
    intro q hq
    have hqp : q ≠ p := by
      rintro rfl
      exact hq hnone
    exact hsound.timers q (htimer q hqp ▸ hq)
  case armed =>
    intro q hq
    by_cases hqp : q = p
    · exact Or.inr (hqp ▸ mem_cons_self)
    · have hq := hsound.armed q hq
      rw [← htimer q hqp] at hq
      exact hq.imp_right (mem_cons_of_mem _)
  case terminating =>
    intro q hq hterminating
    have hprocess := hsound.terminating q hq hterminating
    have hqp : q ≠ p := by
      rintro rfl
      rw [htimeout] at hprocess
      exact absurd hprocess (by decide)
    exact (htimer q hqp).trans hprocess
  case idle => exact hsound.idle
  case waiting =>
    intro q hq
    rcases mem_cons.mp hq with heq | hq
    · exact Pending.terminate.inj heq ▸ hp
    · exact hsound.waiting q hq
  case idents => exact hsound.idents
  case identsLt => exact hsound.identsLt

theorem Sound.fire (hsound : s.Sound) (hpending : s.pending = []) (hfire : s.fire p = some t) :
    t.Sound := by
  unfold Sixp.fire at hfire
  cases htimer : s.timer p with
  | none => simp [htimer] at hfire
  | some timer =>
    have hp : p ∈ s.transList := hsound.timers p (by rw [htimer]; exact some_ne_none _)
    cases timer with
    | timeout =>
      obtain rfl : _ = t := by simpa only [htimer, some.injEq] using hfire
      exact hsound.handleTransTimeout htimer
    | process =>
      obtain rfl : _ = t := by simpa only [htimer, some.injEq] using hfire
      rcases processTrans_cases s p with ⟨hstate, heq⟩ | ⟨hstate, ⟨-, heq⟩ | ⟨-, heq⟩⟩ <;> rw [heq]
      · exact hsound.freeTrans hpending hp hstate
      · exact hsound.enter hp _
      · exact hsound.startTransTimer hp hstate

theorem Sound.resume {call : Pending} (hsound : s.Sound) (hpending : s.pending = call :: pending) :
    ({ s with pending }.resume call : Sixp).Sound := by
  have hsub : ∀ q, .terminate q ∈ pending → q ∈ s.transList :=
    fun q hq ↦ hsound.waiting q (hpending ▸ mem_cons_of_mem _ hq)
  cases call with
  | terminate p =>
    have hp : p ∈ s.transList := hsound.waiting p (hpending ▸ mem_cons_self)
    have hwait := (hsound.enter hp .terminating).wait hsub fun q hq ↦ by
      rcases mem_cons.mp (hpending ▸ hq) with heq | hq
      · rw [Pending.terminate.inj heq, enter_timer_self]
        exact Or.inr (some_ne_none _)
      · exact Or.inl hq
    exact hwait
  | clearCallback p ident =>
    have hwait := hsound.wait hsub fun q hq ↦
      Or.inl ((mem_cons.mp (hpending ▸ hq)).resolve_left (by simp))
    exact hwait.sixpTransSetCallback p none

/-! ### New transactions -/

/-- The table after `sixp_trans_alloc`. -/
structure Allocated (s t : Sixp) (p : ℕ) (peerAddr : Addr8) : Prop where
  new : p ∉ s.transList
  lt : p < s.transMemb.num
  list : t.transList = s.transList ++ [p]
  num : t.transMemb.num = s.transMemb.num
  count : t.transMemb.count = update s.transMemb.count p 1
  trans : ∀ q, q ≠ p → t.trans q = s.trans q
  state : (t.trans p).state = .init
  peer : (t.trans p).peerAddr = peerAddr
  ident : (t.trans p).ident = s.nextIdent
  nextIdent : t.nextIdent = s.nextIdent + 1
  timer : t.timer = update s.timer p (some .timeout)
  frames : t.frames = s.frames
  pending : t.pending = s.pending
  nbrs : t.nbrs = s.nbrs
  log : t.log = s.log
  unique : ∀ q ∈ s.transList, (s.trans q).peerAddr ≠ peerAddr

theorem sixpTransFind_eq_none {peerAddr : Addr8} :
    s.sixpTransFind peerAddr = none ↔ ∀ q ∈ s.transList, (s.trans q).peerAddr ≠ peerAddr := by
  rw [sixpTransFind, find?_eq_none]
  simp only [decide_eq_true_eq, ne_eq]

theorem mem_of_sixpTransFind {peerAddr : Addr8} (hfind : s.sixpTransFind peerAddr = some p) :
    p ∈ s.transList ∧ (s.trans p).peerAddr = peerAddr := by
  rw [sixpTransFind] at hfind
  exact ⟨mem_of_find?_eq_some hfind, by simpa using find?_some hfind⟩

theorem Sound.allocated {pkt : SixpPkt} {peerAddr : Addr8} (hsound : s.Sound)
    (halloc : s.sixpTransAlloc pkt peerAddr = some (p, t)) : Allocated s t p peerAddr := by
  unfold Sixp.sixpTransAlloc at halloc
  rcases hsf : s.sixtopFindSf pkt.sfid with _ | sf
  · simp [hsf] at halloc
  simp only [hsf] at halloc
  obtain ⟨hfind, halloc⟩ := ite_none_left_eq_some.mp halloc
  rcases hmemb : s.transMemb.alloc with _ | ⟨block, memb⟩
  · simp [hmemb] at halloc
  simp only [hmemb, some.injEq, Prod.mk.injEq] at halloc
  obtain ⟨rfl, rfl⟩ := halloc
  obtain ⟨hlt, hzero, hnum, hmem, hcount⟩ := alloc_spec hmemb
  have hnew : block ∉ s.transList := fun hp ↦ ((hsound.listed block).mp hp).2 hzero
  constructor
  case new => exact hnew
  case lt => exact hlt
  case list => exact listAdd_of_notMem hnew
  case num => exact hnum
  case count => exact hcount
  case trans =>
    intro q hq
    exact (store_mem_of_ne hq).trans (congrFun hmem q)
  case unique => exact sixpTransFind_eq_none.mp (not_isSome_iff_eq_none.mp hfind)
  case state => exact congrArg Trans.state store_mem_self
  case peer => exact congrArg Trans.peerAddr store_mem_self
  case ident => exact congrArg Trans.ident store_mem_self
  all_goals rfl

namespace Allocated

variable {peerAddr : Addr8}

section

variable (hnew : Allocated s t p peerAddr)

include hnew

theorem mem : q ∈ t.transList ↔ q ∈ s.transList ∨ q = p := by
  rw [hnew.list, mem_append, mem_singleton]

theorem trans_of_mem (hq : q ∈ s.transList) : t.trans q = s.trans q :=
  hnew.trans q fun heq ↦ hnew.new (heq ▸ hq)

theorem timer_of_ne (hq : q ≠ p) : t.timer q = s.timer q := by
  rw [hnew.timer, update_of_ne hq]

theorem timer_self : t.timer p = some .timeout := by
  rw [hnew.timer, update_self]

end

theorem pairwise {r : Trans → Trans → Prop} (hnew : Allocated s t p peerAddr)
    (hpairs : s.transList.Pairwise fun p q ↦ r (s.trans p) (s.trans q))
    (hlast : ∀ q ∈ s.transList, r (s.trans q) (t.trans p)) :
    t.transList.Pairwise fun p q ↦ r (t.trans p) (t.trans q) := by
  rw [hnew.list, pairwise_append]
  refine ⟨hpairs.imp_of_mem fun hq hr hrel ↦ ?_, pairwise_singleton .., fun q hq r hr ↦ ?_⟩
  · rwa [hnew.trans_of_mem hq, hnew.trans_of_mem hr]
  · rw [mem_singleton.mp hr, hnew.trans_of_mem hq]
    exact hlast q hq

theorem sound (hnew : Allocated s t p peerAddr) (hsound : s.Sound) : t.Sound := by
  constructor
  case nodup =>
    rw [hnew.list, ← concat_eq_append]
    exact hsound.nodup.concat hnew.new
  case listed =>
    intro q
    rw [hnew.mem, hsound.listed q, hnew.num, hnew.count]
    by_cases hqp : q = p
    · simp [hqp, hnew.lt]
    · simp [hqp]
  case counts =>
    intro q
    rw [hnew.count]
    by_cases hqp : q = p
    · simp [hqp]
    · simpa [hqp] using hsound.counts q
  case peers =>
    exact hnew.pairwise (r := fun x y ↦ x.peerAddr ≠ y.peerAddr) hsound.peers
      fun q hq ↦ hnew.peer ▸ hnew.unique q hq
  case timers =>
    intro q hq
    rw [hnew.mem]
    by_cases hqp : q = p
    · exact Or.inr hqp
    · exact Or.inl (hsound.timers q (hnew.timer_of_ne hqp ▸ hq))
  case armed =>
    intro q hq
    rcases hnew.mem.mp hq with hq | rfl
    · rw [hnew.timer_of_ne fun heq ↦ hnew.new (heq ▸ hq), hnew.pending]
      exact hsound.armed q hq
    · rw [hnew.timer_self]
      exact Or.inl (some_ne_none _)
  case terminating =>
    intro q hq hstate
    rcases hnew.mem.mp hq with hq | rfl
    · rw [hnew.timer_of_ne fun heq ↦ hnew.new (heq ▸ hq)]
      exact hsound.terminating q hq (hnew.trans_of_mem hq ▸ hstate)
    · rw [hnew.state] at hstate
      exact absurd hstate (by decide)
  case idle =>
    intro q hq
    obtain ⟨hq, hqp⟩ := not_or.mp (hnew.mem.not.mp hq)
    rw [hnew.trans q hqp]
    exact hsound.idle q hq
  case waiting =>
    intro q hq
    exact hnew.mem.mpr (Or.inl (hsound.waiting q (hnew.pending ▸ hq)))
  case idents =>
    exact hnew.pairwise (r := fun x y ↦ x.ident ≠ y.ident) hsound.idents
      fun q hq ↦ hnew.ident ▸ (hsound.identsLt q hq).ne
  case identsLt =>
    intro q hq
    rw [hnew.nextIdent]
    rcases hnew.mem.mp hq with hq | rfl
    · rw [hnew.trans_of_mem hq]
      exact (hsound.identsLt q hq).trans (Nat.lt_succ_self _)
    · rw [hnew.ident]
      exact Nat.lt_succ_self _

theorem toExtends (hnew : Allocated s t p peerAddr) (hsound : s.Sound) : Extends s t := by
  apply Extends.of_live (hnew.sound hsound) _ hnew.frames hnew.pending hnew.nbrs
  intro q ident hlive
  exact ⟨hnew.mem.mpr (Or.inl hlive.1), (hnew.trans_of_mem hlive.1).symm ▸ hlive.2⟩

end Allocated

end ContikiMaster.Sixtop.Sixp
