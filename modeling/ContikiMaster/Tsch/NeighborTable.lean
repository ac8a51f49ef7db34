import ContikiMaster.Tsch.PacketMoves

/-!
# The table of neighbor queues

Apart from the collector of unused queues no call takes a queue off the list, and the
collector spares the queues that are in use. So addresses stay distinct, the two virtual
queues stay where `tsch_queue_init` put them, and the time source is unique between calls.
-/

namespace ContikiMaster.Tsch

open Sys Lib Function List Option Memb

/-- The list holds the blocks of the pool that are in use, with distinct addresses and at most
one time source. -/
structure ListWF (s : Mac) : Prop where
  nodup : s.neighborList.Nodup
  allocated : ∀ n, n ∈ s.neighborList ↔ n < s.neighborMemb.num ∧ s.neighborMemb.count n = 1
  unused : ∀ n, n ∉ s.neighborList → s.neighborMemb.count n = 0
  addr_inj : ∀ m ∈ s.neighborList, ∀ n ∈ s.neighborList,
    (s.neighbor m).addr = (s.neighbor n).addr → m = n
  timeSource : ∀ m ∈ s.neighborList, ∀ n ∈ s.neighborList,
    (s.neighbor m).isTimeSource = true → (s.neighbor n).isTimeSource = true → m = n

/-- The table between calls: the virtual queues are on the list. -/
structure NeighborsWF (s : Mac) : Prop extends ListWF s where
  eb : ∃ e ∈ s.neighborList, s.nEb = some e ∧ (s.neighbor e).addr = tschEbAddress ∧
    (s.neighbor e).isBroadcast = true
  broadcast : ∃ b ∈ s.neighborList, s.nBroadcast = some b ∧
    (s.neighbor b).addr = tschBroadcastAddress ∧ (s.neighbor b).isBroadcast = true

/-- A queue that holds a packet, has a Tx link or is the time source. -/
def InUse (n : TschNeighbor) : Prop :=
  n.txArray ≠ [] ∨ n.txLinksCount ≠ 0 ∨ n.isTimeSource = true

/-- The queues of the list stay on it, under their addresses. -/
def KeepsListed (s t : Mac) : Prop :=
  ∀ n ∈ s.neighborList, n ∈ t.neighborList ∧ (t.neighbor n).addr = (s.neighbor n).addr

/-- The queues that are in use are not freed, nor handed out for another address. -/
def KeepsInUse (s t : Mac) : Prop :=
  ∀ n ∈ s.neighborList, InUse (s.neighbor n) →
    n ∈ t.neighborList ∧ t.neighborMemb.count n = 1 ∧ (t.neighbor n).addr = (s.neighbor n).addr

theorem KeepsListed.refl (s : Mac) : KeepsListed s s := fun _ hn ↦ ⟨hn, rfl⟩

theorem KeepsListed.trans {s t u : Mac} (hst : KeepsListed s t) (htu : KeepsListed t u) :
    KeepsListed s u := by
  intro n hn
  obtain ⟨hn', haddr⟩ := hst n hn
  obtain ⟨hn'', haddr'⟩ := htu n hn'
  exact ⟨hn'', haddr'.trans haddr⟩

/-- A step that keeps the table in order and frees no queue. -/
structure KeepsTable (s t : Mac) : Prop where
  wf : NeighborsWF s → NeighborsWF t
  listed : NeighborsWF s → KeepsListed s t

namespace KeepsTable

variable {s t u : Mac}

theorem refl (s : Mac) : KeepsTable s s := ⟨id, fun _ ↦ .refl s⟩

theorem trans (hst : KeepsTable s t) (htu : KeepsTable t u) : KeepsTable s u :=
  ⟨fun hs ↦ htu.wf (hst.wf hs), fun hs ↦ (hst.listed hs).trans (htu.listed (hst.wf hs))⟩

theorem of_wf (hst : NeighborsWF s → KeepsTable s t) : KeepsTable s t :=
  ⟨fun hs ↦ (hst hs).wf hs, fun hs ↦ (hst hs).listed hs⟩

theorem keepsInUse (hst : KeepsTable s t) (hs : NeighborsWF s) : KeepsInUse s t := by
  intro n hn _
  obtain ⟨hlisted, haddr⟩ := hst.listed hs n hn
  exact ⟨hlisted, (((hst.wf hs).allocated n).mp hlisted).2, haddr⟩

end KeepsTable

structure SameTable (s t : Mac) : Prop where
  list : t.neighborList = s.neighborList
  num : t.neighborMemb.num = s.neighborMemb.num
  count : t.neighborMemb.count = s.neighborMemb.count
  nEb : t.nEb = s.nEb
  nBroadcast : t.nBroadcast = s.nBroadcast
  addr : ∀ n, (t.neighbor n).addr = (s.neighbor n).addr
  isBroadcast : ∀ n, (t.neighbor n).isBroadcast = (s.neighbor n).isBroadcast

/-- And with the same time sources. -/
structure SameRoles (s t : Mac) : Prop extends SameTable s t where
  isTimeSource : ∀ n, (t.neighbor n).isTimeSource = (s.neighbor n).isTimeSource

section Records

variable {s t u : Mac} {n : ℕ}

theorem SameTable.keepsTable (hst : SameTable s t)
    (htime : NeighborsWF s → ∀ m ∈ s.neighborList, ∀ n ∈ s.neighborList,
      (t.neighbor m).isTimeSource = true → (t.neighbor n).isTimeSource = true → m = n) :
    KeepsTable s t := by
  refine ⟨fun hs ↦ ⟨⟨?_, fun n ↦ ?_, fun n hn ↦ ?_, fun m hm n hn heq ↦ ?_,
    fun m hm n hn hm' hn' ↦ ?_⟩, ?_, ?_⟩, fun _ n hn ↦ ?_⟩
  · rw [hst.list]
    exact hs.nodup
  · rw [hst.list, hst.num, hst.count]
    exact hs.allocated n
  · rw [hst.list] at hn
    rw [hst.count]
    exact hs.unused n hn
  · rw [hst.list] at hm hn
    rw [hst.addr, hst.addr] at heq
    exact hs.addr_inj m hm n hn heq
  · rw [hst.list] at hm hn
    exact htime hs m hm n hn hm' hn'
  · simp only [hst.list, hst.nEb, hst.addr, hst.isBroadcast]
    exact hs.eb
  · simp only [hst.list, hst.nBroadcast, hst.addr, hst.isBroadcast]
    exact hs.broadcast
  · rw [hst.list]
    exact ⟨hn, hst.addr n⟩

theorem SameRoles.keepsTable (hst : SameRoles s t) : KeepsTable s t := by
  apply hst.toSameTable.keepsTable
  intro hs m hm n hn hm' hn'
  rw [hst.isTimeSource] at hm' hn'
  exact hs.timeSource m hm n hn hm' hn'

theorem SameRoles.refl (s : Mac) : SameRoles s s :=
  ⟨⟨rfl, rfl, rfl, rfl, rfl, fun _ ↦ rfl, fun _ ↦ rfl⟩, fun _ ↦ rfl⟩

theorem SameRoles.trans (hst : SameRoles s t) (htu : SameRoles t u) : SameRoles s u :=
  ⟨⟨htu.list.trans hst.list, htu.num.trans hst.num, htu.count.trans hst.count,
    htu.nEb.trans hst.nEb, htu.nBroadcast.trans hst.nBroadcast,
    fun n ↦ (htu.addr n).trans (hst.addr n),
    fun n ↦ (htu.isBroadcast n).trans (hst.isBroadcast n)⟩,
    fun n ↦ (htu.isTimeSource n).trans (hst.isTimeSource n)⟩

theorem SameRoles.of_same (hmemb : t.neighborMemb = s.neighborMemb)
    (hlist : t.neighborList = s.neighborList) (hnEb : t.nEb = s.nEb)
    (hnBroadcast : t.nBroadcast = s.nBroadcast) : SameRoles s t := by
  have hrecord : ∀ m, t.neighbor m = s.neighbor m := fun m ↦ by rw [Mac.neighbor, hmemb]
  refine ⟨⟨hlist, congrArg num hmemb, congrArg count hmemb, hnEb, hnBroadcast,
    fun m ↦ ?_, fun m ↦ ?_⟩, fun m ↦ ?_⟩
  all_goals rw [hrecord]

theorem SameRoles.setNeighbor {r : TschNeighbor} (haddr : r.addr = (s.neighbor n).addr)
    (hbroadcast : r.isBroadcast = (s.neighbor n).isBroadcast)
    (htime : r.isTimeSource = (s.neighbor n).isTimeSource) : SameRoles s (s.setNeighbor n r) :=
  ⟨⟨rfl, rfl, rfl, rfl, rfl, store_field TschNeighbor.addr haddr,
    store_field TschNeighbor.isBroadcast hbroadcast⟩, store_field TschNeighbor.isTimeSource htime⟩

end Records

section Create

variable {s t : Mac} {addr : Linkaddr} {i : ℕ}

/-- The table with one more queue, under a new address. -/
structure Created (s : Mac) (addr : Linkaddr) (i : ℕ) (t : Mac) : Prop where
  fresh : i ∉ s.neighborList
  list : t.neighborList = listAdd s.neighborList i
  bound : i < s.neighborMemb.num
  num : t.neighborMemb.num = s.neighborMemb.num
  count : t.neighborMemb.count = update s.neighborMemb.count i 1
  self : t.neighbor i = newNeighbor addr
  old : ∀ n ∈ s.neighborList, t.neighbor n = s.neighbor n
  nEb : t.nEb = s.nEb
  nBroadcast : t.nBroadcast = s.nBroadcast

theorem allocNeighbor_created (hs : ListWF s) (halloc : allocNeighbor s addr = (some i, t)) :
    Created s addr i t := by
  unfold allocNeighbor at halloc
  split at halloc
  · cases halloc
  rename_i j pool hpool
  cases halloc
  obtain ⟨hlt, hzero, hnum, hmem, hcount⟩ := alloc_spec hpool
  have hfresh : i ∉ s.neighborList := by
    intro hi
    have hone := ((hs.allocated i).mp hi).2
    omega
  refine ⟨hfresh, rfl, hlt, hnum, hcount, store_mem_self, fun n hn ↦ ?_, rfl, rfl⟩
  have hne : n ≠ i := fun heq ↦ hfresh (heq ▸ hn)
  change (pool.store i (newNeighbor addr)).mem n = s.neighborMemb.mem n
  rw [store_mem_of_ne hne, hmem]

section

variable (hst : Created s addr i t)

include hst

theorem Created.mem {n : ℕ} : n ∈ t.neighborList ↔ n ∈ s.neighborList ∨ n = i := by
  rw [hst.list]
  exact mem_listAdd

theorem Created.timeSource {n : ℕ} (hn : n ∈ t.neighborList)
    (htime : (t.neighbor n).isTimeSource = true) :
    n ∈ s.neighborList ∧ (s.neighbor n).isTimeSource = true := by
  rcases hst.mem.mp hn with hold | hnew
  · rw [hst.old n hold] at htime
    exact ⟨hold, htime⟩
  · rw [hnew, hst.self] at htime
    cases htime

theorem Created.keepsListed : KeepsListed s t := by
  intro n hn
  rw [hst.old n hn]
  exact ⟨hst.mem.mpr (.inl hn), rfl⟩

theorem Created.listWF (hs : ListWF s)
    (hnone : ∀ n ∈ s.neighborList, (s.neighbor n).addr ≠ addr) : ListWF t := by
  obtain ⟨hallocated, hunused⟩ := Memb.Exactly.take ⟨hs.allocated, hs.unused⟩ hst.bound hst.num
    hst.count fun _ ↦ hst.mem
  refine ⟨?_, hallocated, hunused, ?_, fun m hm n hn hm' hn' ↦ ?_⟩
  · rw [hst.list]
    exact nodup_listAdd hs.nodup
  · apply label_inj (fun _ ↦ hst.mem) _ _ hs.addr_inj
    · exact fun n hn ↦ congrArg TschNeighbor.addr (hst.old n hn)
    · rw [hst.self]
      exact hnone
  · obtain ⟨hm, hm'⟩ := hst.timeSource hm hm'
    obtain ⟨hn, hn'⟩ := hst.timeSource hn hn'
    exact hs.timeSource m hm n hn hm' hn'

theorem Created.wf (hs : NeighborsWF s)
    (hnone : ∀ n ∈ s.neighborList, (s.neighbor n).addr ≠ addr) : NeighborsWF t := by
  refine ⟨hst.listWF hs.toListWF hnone, ?_, ?_⟩
  · obtain ⟨e, he, hnEb, haddr, hbroadcast⟩ := hs.eb
    rw [← hst.old e he] at haddr hbroadcast
    exact ⟨e, hst.mem.mpr (.inl he), hst.nEb.trans hnEb, haddr, hbroadcast⟩
  · obtain ⟨b, hb, hnBroadcast, haddr, hbroadcast⟩ := hs.broadcast
    rw [← hst.old b hb] at haddr hbroadcast
    exact ⟨b, hst.mem.mpr (.inl hb), hst.nBroadcast.trans hnBroadcast, haddr, hbroadcast⟩

end

theorem tschQueueAddNbr_timeSource {n : ℕ} (hs : NeighborsWF s) {m : Option ℕ}
    (hcall : tschQueueAddNbr s addr = .ok (m, t)) (hn : n ∈ t.neighborList)
    (htime : (t.neighbor n).isTimeSource = true) :
    n ∈ s.neighborList ∧ (s.neighbor n).isTimeSource = true := by
  rcases tschQueueAddNbr_cases hcall with rfl | ⟨hnone, -, halloc⟩
  · exact ⟨hn, htime⟩
  cases m with
  | none =>
    unfold allocNeighbor at halloc
    split at halloc
    · cases halloc
      exact ⟨hn, htime⟩
    · cases halloc
  | some i => exact (allocNeighbor_created hs.toListWF halloc).timeSource hn htime

end Create

theorem keepsTable_moves : CountMoves KeepsTable where
  refl := .refl
  trans := .trans
  create {s t _ n} hnone halloc := by
    cases n with
    | none =>
      unfold allocNeighbor at halloc
      split at halloc
      · cases halloc
        exact .refl _
      · cases halloc
    | some i =>
      have hcreated := fun hs : NeighborsWF s ↦ allocNeighbor_created hs.toListWF halloc
      exact ⟨fun hs ↦ (hcreated hs).wf hs hnone, fun hs ↦ (hcreated hs).keepsListed⟩
  adjust s n options delta := by
    have hsame : SameRoles s (s.setNeighbor n (adjustTxLinks options delta (s.neighbor n))) :=
      .setNeighbor rfl rfl rfl
    exact hsame.keepsTable

section TimeSource

variable {s t : Mac}

theorem neighbor_setTimeSource (s : Mac) (n : Option ℕ) (flag : Bool) (m : ℕ) :
    (setTimeSource s n flag).neighbor m = { s.neighbor m with
      isTimeSource := if n = some m then flag else (s.neighbor m).isTimeSource } := by
  cases n with
  | none => rfl
  | some n =>
    change update s.neighborMemb.mem n _ m = _
    rw [update_apply]
    by_cases hmn : m = n
    · rw [if_pos hmn, hmn, if_pos rfl]
    · rw [if_neg hmn, if_neg fun heq ↦ hmn (some.inj heq).symm]

theorem setTimeSource_sameTable (s : Mac) (n : Option ℕ) (flag : Bool) :
    SameTable s (setTimeSource s n flag) := by
  refine ⟨?_, ?_, ?_, ?_, ?_, fun m ↦ ?_, fun m ↦ ?_⟩
  · cases n <;> rfl
  · cases n <;> rfl
  · cases n <;> rfl
  · cases n <;> rfl
  · cases n <;> rfl
  · rw [neighbor_setTimeSource]
  · rw [neighbor_setTimeSource]

theorem switchTimeSource_keepsTable {oldTimeSrc : Option ℕ} (newTimeSrc : Option ℕ)
    (hold : ∀ n ∈ s.neighborList, (s.neighbor n).isTimeSource = true → oldTimeSrc = some n) :
    KeepsTable s (switchTimeSource s newTimeSrc oldTimeSrc) := by
  unfold switchTimeSource
  split
  · exact .refl s
  have hfirst := setTimeSource_sameTable s newTimeSrc true
  have hsecond := setTimeSource_sameTable (setTimeSource s newTimeSrc true) oldTimeSrc false
  set t := setTimeSource (setTimeSource s newTimeSrc true) oldTimeSrc false with ht
  have hsame : SameTable s t :=
    ⟨hsecond.list.trans hfirst.list, hsecond.num.trans hfirst.num,
      hsecond.count.trans hfirst.count, hsecond.nEb.trans hfirst.nEb,
      hsecond.nBroadcast.trans hfirst.nBroadcast,
      fun n ↦ (hsecond.addr n).trans (hfirst.addr n),
      fun n ↦ (hsecond.isBroadcast n).trans (hfirst.isBroadcast n)⟩
  -- whoever is a time source now is the new one: the others were one before, hence the old one
  have hnew : ∀ n ∈ s.neighborList, (t.neighbor n).isTimeSource = true →
      newTimeSrc = some n := by
    intro n hn htime
    rw [ht, neighbor_setTimeSource, neighbor_setTimeSource] at htime
    by_contra hother
    by_cases hcleared : oldTimeSrc = some n
    · simp [hcleared] at htime
    · simp only [if_neg hcleared, if_neg hother] at htime
      exact hcleared (hold n hn htime)
  apply hsame.keepsTable
  intro _ m hm n hn hm' hn'
  exact some.inj ((hnew m hm hm').symm.trans (hnew n hn hn'))

theorem NeighborsWF.getTimeSource (hs : NeighborsWF s) (hunlocked : s.tschLocked = false) {n : ℕ}
    (hn : n ∈ s.neighborList) (htime : (s.neighbor n).isTimeSource = true) :
    tschQueueGetTimeSource s = some n := by
  unfold tschQueueGetTimeSource
  rw [if_neg (by simp [hunlocked])]
  cases hfound : s.neighborList.find? fun n ↦ (s.neighbor n).isTimeSource with
  | none => exact absurd htime (find?_eq_none.mp hfound n hn)
  | some m =>
    have hm := mem_of_find?_eq_some hfound
    have hflag : (s.neighbor m).isTimeSource = true := by simpa using find?_some hfound
    rw [hs.timeSource m hm n hn hflag htime]

theorem tschQueueUpdateTimeSource_keepsTable {newAddr : Option Linkaddr} {updated : Bool}
    (hcall : tschQueueUpdateTimeSource s newAddr = .ok (updated, t)) : KeepsTable s t := by
  unfold tschQueueUpdateTimeSource at hcall
  split at hcall
  · cases hcall
    exact .refl _
  rename_i hgate
  have hunlocked : s.tschLocked = false := by
    cases hlocked : s.tschLocked with
    | false => rfl
    | true => simp [hlocked] at hgate
  cases newAddr with
  | none =>
    cases hcall
    exact .of_wf fun hs ↦ switchTimeSource_keepsTable none fun n hn htime ↦
      hs.getTimeSource hunlocked hn htime
  | some addr =>
    obtain ⟨⟨n, u⟩, hadd, hrest⟩ := bind_eq_ok hcall
    have hadded := keepsTable_moves.addNbr hadd
    cases n with
    | none =>
      cases hrest
      exact hadded
    | some n =>
      cases hrest
      apply KeepsTable.of_wf
      intro hs
      apply hadded.trans
      apply switchTimeSource_keepsTable
      intro m hm htime
      obtain ⟨hm', htime'⟩ := tschQueueAddNbr_timeSource hs hadd hm htime
      exact hs.getTimeSource hunlocked hm' htime'

end TimeSource

/-! ## Packets in and out -/

section Packets

variable {s t : Mac} {n p : ℕ}

theorem tschQueueRemovePacketFromQueue_sameRoles (s : Mac) (n : Option ℕ) :
    SameRoles s (tschQueueRemovePacketFromQueue s n).2 := by
  unfold tschQueueRemovePacketFromQueue
  split
  · exact .refl s
  split
  · exact .refl s
  split
  · exact .refl s
  · rename_i i _ p rest _
    have hrest : SameRoles s (s.setNeighbor i { s.neighbor i with txArray := rest }) :=
      .setNeighbor rfl rfl rfl
    exact hrest.trans (.of_same rfl rfl rfl rfl)

theorem flushOne_sameRoles (s : Mac) (n : ℕ) : SameRoles s (flushOne s n) := by
  have hremoved := tschQueueRemovePacketFromQueue_sameRoles s (some n)
  unfold flushOne
  split
  · rename_i hresult
    rw [hresult] at hremoved
    exact hremoved
  · rename_i hresult
    rw [hresult] at hremoved
    exact hremoved.trans (.of_same rfl rfl rfl rfl)

theorem flushLoop_sameRoles (fuel : ℕ) : ∀ {s t : Mac},
    flushLoop fuel s n = .ok t → SameRoles s t := by
  induction fuel with
  | zero =>
    intro s t hcall
    unfold flushLoop at hcall
    split at hcall
    · cases hcall
      exact .refl _
    · cases hcall
  | succ fuel ih =>
    intro s t hcall
    unfold flushLoop at hcall
    split at hcall
    · cases hcall
      exact .refl _
    · exact (flushOne_sameRoles s n).trans (ih hcall)

theorem tschQueueReset_sameRoles (hcall : tschQueueReset s = .ok t) : SameRoles s t := by
  unfold tschQueueReset at hcall
  split at hcall
  · cases hcall
    exact .refl _
  · apply foldlM_invariant (P := fun u ↦ SameRoles s u) _ hcall (.refl s)
    intro n _ u w hkept hstep
    obtain ⟨x, hflush, hdone⟩ := bind_eq_ok hstep
    cases hdone
    exact (hkept.trans (flushLoop_sameRoles _ hflush)).trans (.setNeighbor rfl rfl rfl)

theorem putPacket_sameRoles (s : Mac) (n maxTransmissions : ℕ) (packetbuf : Packetbuf)
    (queuebufAvailable : Bool) :
    SameRoles s (putPacket s n maxTransmissions packetbuf queuebufAvailable).2 := by
  unfold putPacket
  split
  · exact .refl s
  split
  · exact .refl s
  rename_i i pool _
  split
  · have hring : SameRoles s (s.setNeighbor n
        { s.neighbor n with txArray := (s.neighbor n).txArray ++ [i] }) :=
      .setNeighbor rfl rfl rfl
    exact hring.trans (.of_same rfl rfl rfl rfl)
  · exact .of_same rfl rfl rfl rfl

theorem tschQueueAddPacket_keepsTable {addr : Linkaddr} {maxTransmissions : ℕ}
    {packetbuf : Packetbuf} {queuebufAvailable : Bool} {result : Option ℕ}
    (hcall : tschQueueAddPacket s addr maxTransmissions packetbuf queuebufAvailable =
      .ok (result, t)) : KeepsTable s t := by
  unfold tschQueueAddPacket at hcall
  split at hcall
  · cases hcall
    exact .refl _
  · obtain ⟨⟨n, u⟩, hadd, hrest⟩ := bind_eq_ok hcall
    have hadded := keepsTable_moves.addNbr hadd
    cases n with
    | none =>
      cases hrest
      exact hadded
    | some n =>
      have hput := putPacket_sameRoles u n maxTransmissions packetbuf queuebufAvailable
      have hresult : putPacket u n maxTransmissions packetbuf queuebufAvailable = (result, t) :=
        Except.ok.inj hrest
      rw [hresult] at hput
      exact hadded.trans hput.keepsTable

theorem tschQueuePacketSent_sameRoles (s : Mac) (n p : ℕ) (link : TschLink)
    (macTxStatus randomRand : ℕ) :
    SameRoles s (tschQueuePacketSent s n p link macTxStatus randomRand).2 := by
  have hremoved := fun u ↦ tschQueueRemovePacketFromQueue_sameRoles u (some n)
  unfold tschQueuePacketSent
  split
  · dsimp only
    split
    · exact (hremoved s).trans (.setNeighbor rfl rfl rfl)
    · exact hremoved s
  · set u := s.setPacket p { s.packet p with
      maxTransmissions := ttlMaxTransmissions s (s.packet p) }
    have hu : SameRoles s u := .of_same rfl rfl rfl rfl
    have hdropped : SameRoles s (if decide ((u.packet p).maxTransmissions ≤
        (u.packet p).transmissions) = true then (tschQueueRemovePacketFromQueue u (some n)).2
        else u) := by
      split
      · exact hu.trans (hremoved u)
      · exact hu
    have hbackoff : ∀ (kept : Bool) (w : Mac), SameRoles w
        (if !(w.neighbor n).isBroadcast && linkOptionShared link.linkOptions then
          (kept, w.setNeighbor n (tschQueueBackoffInc randomRand (w.neighbor n)))
        else (kept, w)).2 := by
      intro kept w
      split
      · exact .setNeighbor rfl rfl rfl
      · exact .refl w
    exact hdropped.trans (hbackoff _ _)

end Packets

section Collector

variable {s t : Mac} {n : ℕ}

theorem NeighborsWF.freeNeighbor (hs : NeighborsWF s)
    (hbroadcast : (s.neighbor n).isBroadcast = false) :
    NeighborsWF { s with
      tschLocked := false
      neighborMemb := s.neighborMemb.free n
      neighborList := listRemove s.neighborList n } := by
  set t : Mac := { s with
    tschLocked := false
    neighborMemb := s.neighborMemb.free n
    neighborList := listRemove s.neighborList n }
  have hmem : ∀ m, m ∈ t.neighborList ↔ m ∈ s.neighborList ∧ m ≠ n :=
    fun m ↦ mem_listRemove hs.nodup
  have hrecord : ∀ m, t.neighbor m = s.neighbor m := congrFun free_mem
  obtain ⟨hallocated, hunused⟩ := Memb.Exactly.free ⟨hs.allocated, hs.unused⟩ n hmem
  have hspared : ∀ m, (s.neighbor m).isBroadcast = true → m ≠ n := by
    intro m hm heq
    rw [heq, hbroadcast] at hm
    cases hm
  refine ⟨⟨nodup_listRemove hs.nodup, hallocated, hunused, fun a ha b hb heq ↦ ?_,
    fun a ha b hb ha' hb' ↦ ?_⟩, ?_, ?_⟩
  · rw [hrecord, hrecord] at heq
    exact hs.addr_inj a ((hmem a).mp ha).1 b ((hmem b).mp hb).1 heq
  · rw [hrecord] at ha' hb'
    exact hs.timeSource a ((hmem a).mp ha).1 b ((hmem b).mp hb).1 ha' hb'
  · obtain ⟨e, he, hnEb, haddr, hflag⟩ := hs.eb
    refine ⟨e, (hmem e).mpr ⟨he, hspared e hflag⟩, hnEb, ?_⟩
    rw [hrecord]
    exact ⟨haddr, hflag⟩
  · obtain ⟨b, hb, hnBroadcast, haddr, hflag⟩ := hs.broadcast
    refine ⟨b, (hmem b).mpr ⟨hb, hspared b hflag⟩, hnBroadcast, ?_⟩
    rw [hrecord]
    exact ⟨haddr, hflag⟩

/-- The collector on its way along the list it started with. -/
structure Collecting (s t : Mac) : Prop where
  wf : NeighborsWF t
  record : ∀ n, t.neighbor n = s.neighbor n
  spared : ∀ n ∈ s.neighborList, InUse (s.neighbor n) → n ∈ t.neighborList

theorem tschQueueFreeUnusedNeighbors_collecting (hs : NeighborsWF s)
    (hcall : tschQueueFreeUnusedNeighbors s = .ok t) : Collecting s t := by
  have hstart : Collecting s s := ⟨hs, fun _ ↦ rfl, fun _ hn _ ↦ hn⟩
  unfold tschQueueFreeUnusedNeighbors at hcall
  split at hcall
  · cases hcall
    exact hstart
  apply foldlM_invariant (P := fun u ↦ Collecting s u) _ hcall hstart
  intro n hn u w hu hstep
  rcases freeIfUnused_cases hstep with rfl | ⟨hempty, hcount, htime, hbroadcast, -, rfl⟩
  · exact hu
  have hidle : ¬ InUse (u.neighbor n) := by simp [InUse, hempty, hcount, htime]
  by_cases hlisted : n ∈ u.neighborList
  · refine ⟨hu.wf.freeNeighbor hbroadcast, fun m ↦ ?_, fun m hm huse ↦ ?_⟩
    · exact (congrFun free_mem m).trans (hu.record m)
    · have hne : m ≠ n := by
        intro heq
        rw [hu.record, ← heq] at hidle
        exact hidle huse
      exact (mem_listRemove hu.wf.nodup).mpr ⟨hu.spared m hm huse, hne⟩
  · -- a queue that is gone already: nothing is left to free
    have hlist : listRemove u.neighborList n = u.neighborList := erase_of_not_mem hlisted
    have hcount : (u.neighborMemb.free n).count = u.neighborMemb.count := by
      ext m
      by_cases hm : m = n
      · rw [hm]
        unfold free
        split
        · change update _ n _ n = _
          rw [update_self, hu.wf.unused n hlisted]
        · rfl
      · exact free_count_of_ne hm
    have hrecord : ∀ m, (u.neighborMemb.free n).mem m = u.neighbor m := congrFun free_mem
    have hsame : SameRoles u { u with
        tschLocked := false
        neighborMemb := u.neighborMemb.free n
        neighborList := listRemove u.neighborList n } :=
      ⟨⟨hlist, free_num, hcount, rfl, rfl,
        fun m ↦ congrArg TschNeighbor.addr (hrecord m),
        fun m ↦ congrArg TschNeighbor.isBroadcast (hrecord m)⟩,
        fun m ↦ congrArg TschNeighbor.isTimeSource (hrecord m)⟩
    refine ⟨hsame.keepsTable.wf hu.wf, fun m ↦ (hrecord m).trans (hu.record m), fun m hm huse ↦ ?_⟩
    rw [hsame.list]
    exact hu.spared m hm huse

theorem Collecting.keepsInUse (hst : Collecting s t) : KeepsInUse s t := by
  intro n hn huse
  have hlisted := hst.spared n hn huse
  rw [hst.record]
  exact ⟨hlisted, ((hst.wf.allocated n).mp hlisted).2, rfl⟩

end Collector

/-- The calls of the queue module, and what changes under it: the Tx-link counters of the
schedule, and the two flags that the slot interrupt and `tsch_get_lock` use. -/
inductive QueueOp
  | addNbr (addr : Linkaddr)
  | addPacket (addr : Linkaddr) (maxTransmissions : ℕ) (packetbuf : Packetbuf)
      (queuebufAvailable : Bool)
  | updateTimeSource (newAddr : Option Linkaddr)
  | packetSent (n p : ℕ) (link : TschLink) (macTxStatus randomRand : ℕ)
  | flush (n : ℕ)
  | freeUnusedNeighbors
  | reset
  | countTxLink (options : ℕ) (addr : Linkaddr) (delta : ℕ)
  | setLocks (locked inSlotOperation : Bool)

def QueueOp.next (s : Mac) : QueueOp → Option Mac
  | .addNbr addr => (tschQueueAddNbr s addr).toOption.map Prod.snd
  | .addPacket addr maxTransmissions packetbuf queuebufAvailable =>
    (tschQueueAddPacket s addr maxTransmissions packetbuf queuebufAvailable).toOption.map Prod.snd
  | .updateTimeSource newAddr => (tschQueueUpdateTimeSource s newAddr).toOption.map Prod.snd
  | .packetSent n p link macTxStatus randomRand =>
    some (tschQueuePacketSent s n p link macTxStatus randomRand).2
  | .flush n => (tschQueueFlushNbrQueue s n).toOption
  | .freeUnusedNeighbors => (tschQueueFreeUnusedNeighbors s).toOption
  | .reset => (tschQueueReset s).toOption
  | .countTxLink options addr delta => (Tsch.countTxLink s options addr delta).toOption
  | .setLocks locked inSlotOperation =>
    some { s with tschLocked := locked, tschInSlotOperation := inSlotOperation }

theorem queueOp_step {s t : Mac} {op : QueueOp} (hs : NeighborsWF s)
    (hnext : StepOf QueueOp.next s op t) : NeighborsWF t ∧ KeepsInUse s t := by
  have hkeeps : KeepsTable s t → NeighborsWF t ∧ KeepsInUse s t :=
    fun hst ↦ ⟨hst.wf hs, hst.keepsInUse hs⟩
  cases op with
  | addNbr addr =>
    obtain ⟨⟨n, u⟩, hcall, rfl⟩ := map_eq_some_iff.mp hnext
    exact hkeeps (keepsTable_moves.addNbr (toOption_eq_some hcall))
  | addPacket addr maxTransmissions packetbuf queuebufAvailable =>
    obtain ⟨⟨p, u⟩, hcall, rfl⟩ := map_eq_some_iff.mp hnext
    exact hkeeps (tschQueueAddPacket_keepsTable (toOption_eq_some hcall))
  | updateTimeSource newAddr =>
    obtain ⟨⟨updated, u⟩, hcall, rfl⟩ := map_eq_some_iff.mp hnext
    exact hkeeps (tschQueueUpdateTimeSource_keepsTable (toOption_eq_some hcall))
  | packetSent n p link macTxStatus randomRand =>
    cases hnext
    exact hkeeps (tschQueuePacketSent_sameRoles s n p link macTxStatus randomRand).keepsTable
  | flush n => exact hkeeps (flushLoop_sameRoles _ (toOption_eq_some hnext)).keepsTable
  | freeUnusedNeighbors =>
    have hcollected := tschQueueFreeUnusedNeighbors_collecting hs (toOption_eq_some hnext)
    exact ⟨hcollected.wf, hcollected.keepsInUse⟩
  | reset => exact hkeeps (tschQueueReset_sameRoles (toOption_eq_some hnext)).keepsTable
  | countTxLink options addr delta =>
    exact hkeeps (keepsTable_moves.count (toOption_eq_some hnext))
  | setLocks locked inSlotOperation =>
    cases hnext
    have hsame : SameRoles s { s with
        tschLocked := locked, tschInSlotOperation := inSlotOperation } := .of_same rfl rfl rfl rfl
    exact hkeeps hsame.keepsTable

theorem tschQueueAddNbr_room {s t : Mac} {addr : Linkaddr} {m : Option ℕ} {p : ℕ} (hidle : Idle s)
    (hs : ListWF s) (hnone : ∀ n ∈ s.neighborList, (s.neighbor n).addr ≠ addr)
    (hp : p < s.neighborMemb.num) (hzero : s.neighborMemb.count p = 0)
    (hcall : tschQueueAddNbr s addr = .ok (m, t)) :
    ∃ i, m = some i ∧ Created s addr i t ∧ Idle t := by
  have habsent : tschQueueGetNbr s addr = none := by
    rw [tschQueueGetNbr_idle hidle, find?_eq_none]
    intro n hn
    simpa using hnone n hn
  rw [tschQueueAddNbr_idle hidle, habsent] at hcall
  have halloc : allocNeighbor s addr = (m, t) := Except.ok.inj hcall
  have hidle' := idle_allocNeighbor hidle addr
  rw [halloc] at hidle'
  cases m with
  | some i => exact ⟨i, rfl, allocNeighbor_created hs halloc, hidle'⟩
  | none =>
    obtain ⟨⟨i, pool⟩, hpool⟩ := isSome_iff_exists.mp (alloc_isSome hp hzero)
    unfold allocNeighbor at halloc
    rw [hpool] at halloc
    cases halloc

theorem tschQueueInit_neighborsWF {config : MacConfig} {s : Mac}
    (hroom : 2 ≤ config.maxNeighborQueues) (hinit : tschQueueInit (Mac.zero config) = .ok s) :
    NeighborsWF s := by
  set zero : Mac := { Mac.zero config with
    neighborList := []
    neighborMemb := init config.maxNeighborQueues TschNeighbor.zero
    packetMemb := init config.queuebufNum TschPacket.zero }
  have hzero : ListWF zero := by
    refine ⟨nodup_nil, fun n ↦ ⟨fun hn ↦ ?_, fun hn ↦ ?_⟩, fun n _ ↦ rfl, fun m hm ↦ ?_,
      fun m hm ↦ ?_⟩
    · cases hn
    · cases hn.2
    · cases hm
    · cases hm
  obtain ⟨⟨eb, s₁⟩, heb, hrest⟩ := bind_eq_ok hinit
  obtain ⟨e, rfl, hcreated, hidle⟩ := tschQueueAddNbr_room (p := 0) ⟨rfl, rfl⟩ hzero
    (fun n hn ↦ absurd hn not_mem_nil) (show 0 < config.maxNeighborQueues by omega) rfl heb
  obtain ⟨⟨broadcast, s₂⟩, hbroadcast, hdone⟩ := bind_eq_ok hrest
  cases hdone
  have hfirst := hcreated.listWF hzero fun n hn ↦ absurd hn not_mem_nil
  set middle : Mac := { s₁ with nEb := some e }
  have hmiddle : ListWF middle :=
    ⟨hfirst.nodup, hfirst.allocated, hfirst.unused, hfirst.addr_inj, hfirst.timeSource⟩
  have hidle' : Idle middle := hidle
  have honly : ∀ n ∈ middle.neighborList, n = e := by
    intro n hn
    rcases hcreated.mem.mp hn with hold | hnew
    · cases hold
    · exact hnew
  have hself : middle.neighbor e = newNeighbor tschEbAddress := hcreated.self
  have hnone : ∀ n ∈ middle.neighborList, (middle.neighbor n).addr ≠ tschBroadcastAddress := by
    intro n hn
    rw [honly n hn, hself, ← flowAddr_eq_ebAddress_iff.mpr (Nat.zero_mod 256)]
    exact flowAddr_ne_broadcastAddress 0
  obtain ⟨p, hp, hpe⟩ : ∃ p, p < config.maxNeighborQueues ∧ p ≠ e := by
    by_cases he : e = 0
    · exact ⟨1, by omega, by omega⟩
    · exact ⟨0, by omega, by omega⟩
  have hnum : middle.neighborMemb.num = config.maxNeighborQueues := hcreated.num
  have hcount : middle.neighborMemb.count p = 0 := by
    change s₁.neighborMemb.count p = 0
    rw [hcreated.count, update_of_ne hpe]
    rfl
  obtain ⟨b, rfl, hcreated', -⟩ := tschQueueAddNbr_room hidle' hmiddle hnone
    (lt_of_lt_of_eq hp hnum.symm) hcount hbroadcast
  have hlast := hcreated'.listWF hmiddle hnone
  have he : e ∈ middle.neighborList := hcreated.mem.mpr (.inr rfl)
  refine ⟨⟨hlast.nodup, hlast.allocated, hlast.unused, hlast.addr_inj, hlast.timeSource⟩,
    ⟨e, hcreated'.mem.mpr (.inl he), hcreated'.nEb, ?_⟩,
    ⟨b, hcreated'.mem.mpr (.inr rfl), rfl, ?_⟩⟩
  · change (s₂.neighbor e).addr = _ ∧ (s₂.neighbor e).isBroadcast = _
    rw [hcreated'.old e he, hself]
    exact ⟨rfl, by decide⟩
  · change (s₂.neighbor b).addr = _ ∧ (s₂.neighbor b).isBroadcast = _
    rw [hcreated'.self]
    exact ⟨rfl, by decide⟩

/-- The calls from `tsch_queue_init` on. -/
def QueueRun (config : MacConfig) (ops : List QueueOp) (s : Mac) : Prop :=
  ∃ s₀, tschQueueInit (Mac.zero config) = .ok s₀ ∧ Run (StepOf QueueOp.next) s₀ ops s

/-- Between the calls of a run the table is in order, and no call frees a queue that holds a
packet, has a Tx link or is the time source. -/
theorem neighborsWF_of_queueRun {config : MacConfig} {ops : List QueueOp} {s : Mac}
    (hroom : 2 ≤ config.maxNeighborQueues) (hrun : QueueRun config ops s) :
    NeighborsWF s ∧ ∀ op t, StepOf QueueOp.next s op t → KeepsInUse s t := by
  obtain ⟨s₀, hinit, hrun⟩ := hrun
  have hwf : NeighborsWF s := by
    apply hrun.invariant _ (tschQueueInit_neighborsWF hroom hinit)
    intro s op t hs hstep
    exact (queueOp_step hs hstep).1
  exact ⟨hwf, fun op t hstep ↦ (queueOp_step hwf hstep).2⟩

/-- The time source moves from node 2 to node 4 while a packet of flow 5 is sent, and the
collector takes the queue of node 2 away. -/
def switchingOps : List QueueOp :=
  [.updateTimeSource (some (nodeAddr 2)), .addPacket (flowAddr 5) 1 .zero true,
    .updateTimeSource (some (nodeAddr 4)), .countTxLink 1 (flowAddr 5) 1,
    .packetSent 3 0 .zero macTxOk 0, .freeUnusedNeighbors]

theorem neighborsWF_switching : ∃ s, QueueRun smallConfig switchingOps s ∧
    s.neighborList = [0, 1, 3, 4] ∧ NeighborsWF s ∧
      ∀ op t, StepOf QueueOp.next s op t → KeepsInUse s t := by
  have hruns : ((tschQueueInit (Mac.zero smallConfig)).toOption.bind fun s₀ ↦
      execute QueueOp.next s₀ switchingOps).any (fun s ↦ s.neighborList == [0, 1, 3, 4]) = true := by
    decide +kernel
  obtain ⟨s, hexecuted, hlist⟩ := (any_eq_true _ _).mp hruns
  obtain ⟨s₀, hinit, hexecute⟩ := bind_eq_some_iff.mp hexecuted
  have hrun : QueueRun smallConfig switchingOps s :=
    ⟨s₀, toOption_eq_some hinit, run_of_execute hexecute⟩
  exact ⟨s, hrun, by simpa using hlist, neighborsWF_of_queueRun (by decide) hrun⟩

end ContikiMaster.Tsch
