import ContikiMaster.Tsch.Queue

/-!
# The TSCH schedule

The functions of `tsch-schedule.c` that change or search the schedule. A
slotframe holds the list of its links; every installed Tx link is counted in a
neighbor queue, which installation derives from the slotframe handle and
removal from the address of the link.
-/

namespace ContikiMaster.Tsch

open Sys

def tschScheduleGetSlotframeByHandle (s : Mac) (handle : ℕ) : Option ℕ :=
  if s.tschLocked then none
  else s.slotframeList.find? fun sf ↦ (s.slotframe sf).handle == handle

/-- The part of `tsch_schedule_add_slotframe` that runs with the lock held. -/
def allocSlotframe (s : Mac) (handle size : ℕ) : Option ℕ × Mac :=
  match s.slotframeMemb.alloc with
  | none => (none, s)
  | some (sf, pool) =>
    (some sf, { s with
      slotframeMemb := pool.store sf { handle := handle, size := size, linksList := [] }
      slotframeList := listAdd s.slotframeList sf })

def tschScheduleAddSlotframe (s : Mac) (handle size : ℕ) : Except Fault (Option ℕ × Mac) :=
  if size = 0 then .ok (none, s)
  else if (tschScheduleGetSlotframeByHandle s handle).isSome then .ok (none, s)
  else do
    let (got, s) ← tschGetLock s
    if got then
      let (sf, s) := allocSlotframe s handle size
      return (sf, tschReleaseLock s)
    else return (none, s)

def adjustTxLinks (options : ℕ) (delta : ℕ) (n : TschNeighbor) : TschNeighbor :=
  { n with
    txLinksCount := (n.txLinksCount + delta) % 256
    dedicatedTxLinksCount :=
      if linkOptionShared options then n.dedicatedTxLinksCount
      else (n.dedicatedTxLinksCount + delta) % 256 }

/-- The counter update after a link was installed (`delta = 1`) or removed (`delta = 255`). -/
def countTxLink (s : Mac) (options : ℕ) (addr : Linkaddr) (delta : ℕ) : Except Fault Mac :=
  if linkOptionTx options then do
    let (n, s) ← tschQueueAddNbr s addr
    match n with
    | none => return s
    | some n => return s.setNeighbor n (adjustTxLinks options delta (s.neighbor n))
  else .ok s

/-- The part of `tsch_schedule_remove_link` that runs with the lock held. -/
def unlinkLink (s : Mac) (sf l : ℕ) : Mac :=
  let s := if some l = s.currentLink then { s with currentLink := none } else s
  let s := s.setSlotframe sf
    { s.slotframe sf with linksList := listRemove (s.slotframe sf).linksList l }
  { s with linkMemb := s.linkMemb.free l }

/-- `tsch_schedule_remove_link`; the counters are updated under the address of the link. -/
def tschScheduleRemoveLink (s : Mac) (slotframe link : Option ℕ) : Except Fault (Bool × Mac) :=
  match slotframe, link with
  | some sf, some l =>
    if (s.link l).slotframeHandle = (s.slotframe sf).handle then do
      let (got, s) ← tschGetLock s
      if got then
        let options := (s.link l).linkOptions
        let addr := (s.link l).addr
        let s ← countTxLink (tschReleaseLock (unlinkLink s sf l)) options addr 255
        return (true, s)
      else return (false, s)
    else .ok (false, s)
  | _, _ => .ok (false, s)

def tschScheduleGetLinkByTimeslot (s : Mac) (sf timeslot : ℕ) : Option ℕ :=
  if s.tschLocked then none
  else (s.slotframe sf).linksList.find? fun l ↦ (s.link l).timeslot == timeslot

def tschScheduleRemoveLinkByTimeslot (s : Mac) (sf timeslot : ℕ) : Except Fault (Bool × Mac) :=
  tschScheduleRemoveLink s (some sf) (tschScheduleGetLinkByTimeslot s sf timeslot)

/-- What the caller asks `tsch_schedule_add_link` to install. -/
structure LinkRequest where
  linkOptions : ℕ
  linkType : LinkType
  address : Linkaddr
  timeslot : ℕ
  channelOffset : ℕ

def newLink (s : Mac) (sf : ℕ) (request : LinkRequest) : TschLink where
  handle := s.currentLinkHandle % 65536
  addr := request.address
  slotframeHandle := (s.slotframe sf).handle
  timeslot := request.timeslot
  channelOffset := request.channelOffset
  linkOptions := request.linkOptions
  linkType := request.linkType

/-- The part of `tsch_schedule_add_link` that runs with the lock held. -/
def allocLink (s : Mac) (sf : ℕ) (request : LinkRequest) : Option ℕ × Mac :=
  match s.linkMemb.alloc with
  | none => (none, s)
  | some (l, pool) =>
    let link := newLink s sf request
    let s := s.setSlotframe sf
      { s.slotframe sf with linksList := listAdd (s.slotframe sf).linksList l }
    (some l, { s with
      linkMemb := pool.store l link, currentLinkHandle := s.currentLinkHandle + 1 })

/-- `tsch_schedule_add_link`; the counters are updated under the flow address of the slotframe. -/
def tschScheduleAddLink (s : Mac) (slotframe : Option ℕ) (request : LinkRequest) :
    Except Fault (Option ℕ × Mac) :=
  match slotframe with
  | none => .ok (none, s)
  | some sf =>
    if (s.slotframe sf).size ≤ request.timeslot then .ok (none, s)
    else if 15 < request.channelOffset then .ok (none, s)
    else do
      let (_, s) ← tschScheduleRemoveLinkByTimeslot s sf request.timeslot
      let (got, s) ← tschGetLock s
      if got then
        match allocLink s sf request with
        | (none, s) => return (none, tschReleaseLock s)
        | (some l, s) =>
          let s ← countTxLink (tschReleaseLock s) request.linkOptions
            (flowAddr (s.link l).slotframeHandle) 1
          return (some l, s)
      else return (none, s)

/-- The loop of `tsch_schedule_remove_slotframe` over the head of the list of links. -/
def removeLinksLoop : ℕ → Mac → ℕ → Except Fault Mac
  | fuel, s, sf =>
    match (s.slotframe sf).linksList.head?, fuel with
    | none, _ => .ok s
    | some _, 0 => .error .diverges
    | some l, fuel + 1 => do
      let (_, s) ← tschScheduleRemoveLink s (some sf) (some l)
      removeLinksLoop fuel s sf

def tschScheduleRemoveSlotframe (s : Mac) (slotframe : Option ℕ) : Except Fault (Bool × Mac) :=
  match slotframe with
  | none => .ok (false, s)
  | some sf => do
    let s ← removeLinksLoop (s.slotframe sf).linksList.length s sf
    let (got, s) ← tschGetLock s
    if got then
      return (true, tschReleaseLock { s with
        slotframeMemb := s.slotframeMemb.free sf
        slotframeList := listRemove s.slotframeList sf })
    else return (false, s)

def removeSlotframesLoop : ℕ → Mac → Except Fault (Bool × Mac)
  | fuel, s =>
    match s.slotframeList.head?, fuel with
    | none, _ => .ok (true, s)
    | some _, 0 => .error .diverges
    | some sf, fuel + 1 => do
      let (removed, s) ← tschScheduleRemoveSlotframe s (some sf)
      if removed then removeSlotframesLoop fuel s else return (false, s)

def tschScheduleRemoveAllSlotframes (s : Mac) : Except Fault (Bool × Mac) :=
  removeSlotframesLoop s.slotframeList.length s

def tschScheduleInit (s : Mac) : Except Fault (Bool × Mac) := do
  let (got, s) ← tschGetLock s
  if got then
    return (true, tschReleaseLock { s with
      linkMemb := Memb.init s.linkMemb.num TschLink.zero
      slotframeMemb := Memb.init s.slotframeMemb.num TschSlotframe.zero
      slotframeList := [] })
  else return (false, s)

/-- The candidate `tsch_schedule_get_next_active_link` carries through its loops. -/
structure NextLink where
  timeToCurrBest : ℕ
  currBest : Option ℕ
  currBackup : Option ℕ

/-- One link of one slotframe against the best candidate so far. -/
def nextLinkStep (s : Mac) (sf timeslot : ℕ) (best : NextLink) (l : ℕ) : NextLink :=
  let timeToTimeslot :=
    if timeslot < (s.link l).timeslot then (s.link l).timeslot - timeslot
    else ((s.slotframe sf).size + (s.link l).timeslot - timeslot) % 65536
  match best.currBest with
  | none => ⟨timeToTimeslot, some l, none⟩
  | some b =>
    if timeToTimeslot < best.timeToCurrBest then ⟨timeToTimeslot, some l, none⟩
    else if timeToTimeslot = best.timeToCurrBest then
      -- by standard: Tx links first, then the lowest slotframe handle
      let newBest :=
        if linkOptionTx (s.link b).linkOptions = linkOptionTx (s.link l).linkOptions then
          if (s.link l).slotframeHandle < (s.link b).slotframeHandle then some l else none
        else if linkOptionTx (s.link l).linkOptions then some l else none
      let currBackup :=
        match best.currBackup with
        | some backup => some backup
        | none =>
          if newBest ≠ some b ∧ linkOptionRx (s.link b).linkOptions then some b
          else if newBest ≠ some l ∧ linkOptionRx (s.link l).linkOptions then some l
          else none
      ⟨best.timeToCurrBest, some (newBest.getD b), currBackup⟩
    else best

/-- `tsch_schedule_get_next_active_link`: the time offset, the link and the backup link. -/
def tschScheduleGetNextActiveLink (s : Mac) : NextLink :=
  if s.tschLocked then ⟨0, none, none⟩
  else s.slotframeList.foldl
    (fun best sf ↦ (s.slotframe sf).linksList.foldl
      (nextLinkStep s sf (s.tschCurrentAsn.mod s.intWidth (s.slotframe sf).size)) best)
    ⟨0, none, none⟩

end ContikiMaster.Tsch
