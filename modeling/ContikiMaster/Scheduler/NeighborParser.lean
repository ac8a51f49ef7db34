import ContikiMaster.Lib.Significand
import Mathlib.Algebra.Order.BigOperators.Group.List
import Mathlib.Data.List.AList
import Mathlib.Data.List.Induction

/-!
# Parsed link qualities

`neighbor_parser.py` collects the received packet numbers of every log file and makes packet
reception ratios and expected transmission counts of them. Both are quotients of doubles, so that one
is not always the inverse of the other.
-/

namespace ContikiMaster.Scheduler

open Lib List Option

/-- A dictionary of dictionaries, by sender and receiver. -/
abbrev NodeTable (β : Type) := AList fun _ : ℕ ↦ AList fun _ : ℕ ↦ β

namespace NodeTable

variable {β : Type} (table : NodeTable β) {sender receiver sender' receiver' : ℕ}

def cell (sender receiver : ℕ) : Option β := (table.lookup sender).bind (·.lookup receiver)

def put (sender receiver : ℕ) (v : β) : NodeTable β :=
  table.insert sender (((table.lookup sender).getD ∅).insert receiver v)

theorem cell_put (sender receiver : ℕ) (v : β) :
    (table.put sender receiver v).cell sender' receiver' =
      if sender' = sender ∧ receiver' = receiver then some v
      else table.cell sender' receiver' := by
  unfold put cell
  by_cases hsender : sender' = sender
  · subst hsender
    rw [AList.lookup_insert, bind_some]
    by_cases hreceiver : receiver' = receiver
    · subst hreceiver
      rw [AList.lookup_insert, if_pos ⟨rfl, rfl⟩]
    · rw [AList.lookup_insert_ne hreceiver, if_neg (fun hand ↦ hreceiver hand.2)]
      cases table.lookup sender' <;> rfl
  · rw [AList.lookup_insert_ne hsender, if_neg (fun hand ↦ hsender hand.1)]

end NodeTable

/-- A line of a log, as the two patterns of `match_neighbor_data` read it. -/
inductive LogLine
  | rcvd (nodeId sender channel number : ℕ) (rssi : ℤ)
  | sent (nodeId number : ℕ)
  | other

/-- What the receivers logged, by sender and receiver, with the signal strengths. -/
abbrev ParseGraph := NodeTable (List (ℕ × ℤ))

namespace ParseGraph

variable (g : ParseGraph) (sender receiver : ℕ)

/-- `add_to_parse_graph`; under the sender itself, where nothing is read, the strength is kept. -/
def addToParseGraph (number sender receiver : ℕ) (rssi : ℤ) : ParseGraph :=
  let key := if receiver = 0 then sender else receiver
  g.put sender key ((g.cell sender key).getD [] ++ [(number, rssi)])

def matchNeighborData (validNodeIds : List ℕ) : LogLine → ParseGraph
  | .rcvd nodeId sender _ number rssi =>
    if nodeId ∈ validNodeIds ∧ sender ∈ validNodeIds then
      g.addToParseGraph number sender nodeId rssi
    else g
  | .sent nodeId number =>
    if nodeId ∈ validNodeIds then g.addToParseGraph number nodeId 0 0 else g
  | .other => g

/-- `parse_file`, as far as this graph goes. -/
def parseFile (validNodeIds : List ℕ) (log : List LogLine) : ParseGraph :=
  log.foldl (matchNeighborData · validNodeIds) ∅

/-- `self.parse_graphs[idx][sender][receiver]`, empty where it is missing. -/
def receptions : List (ℕ × ℤ) := (g.cell sender receiver).getD []

end ParseGraph

def lastNumber (entries : List (ℕ × ℤ)) : ℕ := (entries.getLast?.map Prod.fst).getD 0

/-- The loop of `combine_parse_graphs` over the receivers of one file. -/
def highestReceivedNumber (g : ParseGraph) (sender : ℕ) (receivers : List ℕ) : ℕ :=
  receivers.foldl (fun highest receiver ↦
    if receiver ≠ sender ∧ highest < lastNumber (g.receptions sender receiver) then
      lastNumber (g.receptions sender receiver)
    else highest) 0

def totalReceivablePackets (graphs : List ParseGraph) (sender : ℕ) : ℕ :=
  (graphs.filterMap fun g ↦
    (g.lookup sender).map fun row ↦ highestReceivedNumber g sender row.keys).sum

def totalReceivedPackets (graphs : List ParseGraph) (sender receiver : ℕ) : ℕ :=
  (graphs.map fun g ↦ (g.receptions sender receiver).length).sum

/-- The entries of `graph_prr`, `graph_etx` and `graph_rssi` for a sender and a receiver. -/
structure ParsedLink where
  prr : Option ℚ
  etx : Option ℚ
  rssi : Option ℚ

/-- A number whose double is finite. -/
def FitsDouble (n : ℕ) : Prop := (roundSignificand 53 n).size ≤ 1024

instance (n : ℕ) : Decidable (FitsDouble n) := inferInstanceAs (Decidable (_ ≤ _))

/-- `float(n)`; `none` when it raises. -/
def toDouble (n : ℕ) : Option ℕ := if FitsDouble n then some (roundSignificand 53 n) else none

def trueDiv (n d : ℕ) : ℚ := roundQuotient 53 1074 n d

/-- `combine_parse_graphs`, for one sender and one receiver; a bound of 0 is none. -/
def combineParseGraphs (validNodeIds : List ℕ) (maxEtxBound minRssiBound : Option ℚ)
    (graphs : List ParseGraph) (sender receiver : ℕ) : Option ParsedLink :=
  let receivable := totalReceivablePackets graphs sender
  let received := totalReceivedPackets graphs sender receiver
  if sender ∈ validNodeIds ∧ receivable ≠ 0 then do
    let receivable ← toDouble receivable
    if receiver ∈ validNodeIds ∧ receiver ≠ sender ∧ 0 < received then
      let received ← toDouble received
      let etx := trueDiv receivable received
      let sumRssi := (graphs.map fun g ↦ ((g.receptions sender receiver).map Prod.snd).sum).sum
      let total ← toDouble sumRssi.natAbs
      let avgRssiValue := sumRssi.sign * trueDiv total received
      return ⟨if maxEtxBound.all fun b ↦ b = 0 ∨ etx < b then some (trueDiv received receivable)
          else none,
        if maxEtxBound.all fun b ↦ b = 0 ∨ etx < b then some etx else none,
        if minRssiBound.all fun b ↦ b = 0 ∨ b < avgRssiValue then some avgRssiValue else none⟩
    else return ⟨none, none, none⟩
  else return ⟨none, none, none⟩

/-! ## What the logs say -/

/-- The numbers that the receiver logged for the sender. -/
def loggedEntries (log : List LogLine) (sender receiver : ℕ) : List (ℕ × ℤ) :=
  log.filterMap fun
    | .rcvd nodeId origin _ number rssi =>
      if nodeId = receiver ∧ origin = sender then some (number, rssi) else none
    | _ => none

/-- In a file, what a receiver logs for a sender increases strictly, from 1 on. -/
def NumbersIncrease (log : List LogLine) : Prop :=
  ∀ sender receiver, ((loggedEntries log sender receiver).map Prod.fst).Pairwise (· < ·) ∧
    ∀ entry ∈ loggedEntries log sender receiver, 1 ≤ entry.1

/-- The highest number that any other node received from the sender. -/
def highestLogged (validNodeIds : List ℕ) (log : List LogLine) (sender : ℕ) : ℕ :=
  (((validNodeIds.filter (· ≠ sender)).flatMap (loggedEntries log sender)).map Prod.fst).foldr max 0

variable {validNodeIds : List ℕ} {log : List LogLine} {sender receiver : ℕ}

theorem receptions_addToParseGraph (g : ParseGraph) (number sender receiver : ℕ) (rssi : ℤ)
    (sender' receiver' : ℕ) :
    (g.addToParseGraph number sender receiver rssi).receptions sender' receiver' =
      if sender' = sender ∧ receiver' = (if receiver = 0 then sender else receiver) then
        g.receptions sender' receiver' ++ [(number, rssi)]
      else g.receptions sender' receiver' := by
  unfold ParseGraph.addToParseGraph ParseGraph.receptions
  generalize (if receiver = 0 then sender else receiver) = key
  dsimp only
  rw [NodeTable.cell_put]
  by_cases hboth : sender' = sender ∧ receiver' = key
  · rw [if_pos hboth, if_pos hboth, hboth.1, hboth.2]
    rfl
  · rw [if_neg hboth, if_neg hboth]

theorem receptions_matchNeighborData (g : ParseGraph) (line : LogLine) (hvalid : 0 ∉ validNodeIds)
    (hne : receiver ≠ sender) : (g.matchNeighborData validNodeIds line).receptions sender receiver =
      g.receptions sender receiver ++ if sender ∈ validNodeIds ∧ receiver ∈ validNodeIds then
        loggedEntries [line] sender receiver else [] := by
  cases line with
  | rcvd nodeId origin channel number rssi =>
    rw [ParseGraph.matchNeighborData]
    by_cases hlogged : nodeId = receiver ∧ origin = sender
    · obtain ⟨rfl, rfl⟩ := hlogged
      by_cases hboth : nodeId ∈ validNodeIds ∧ origin ∈ validNodeIds
      · have hpos : nodeId ≠ 0 := fun hzero ↦ hvalid (hzero ▸ hboth.1)
        rw [if_pos hboth, if_pos hboth.symm, receptions_addToParseGraph, if_neg hpos,
          if_pos ⟨rfl, rfl⟩]
        simp [loggedEntries]
      · rw [if_neg hboth, if_neg (fun hand ↦ hboth hand.symm), append_nil]
    · have hnone : loggedEntries [.rcvd nodeId origin channel number rssi] sender receiver =
          [] := by
        simp [loggedEntries, hlogged]
      rw [hnone, ite_self, append_nil]
      split
      · rw [receptions_addToParseGraph, if_neg]
        rintro ⟨rfl, hkey⟩
        split at hkey
        · exact hne hkey
        · exact hlogged ⟨hkey.symm, rfl⟩
      · rfl
  | sent nodeId number =>
    have hnone : loggedEntries [.sent nodeId number] sender receiver = [] := rfl
    rw [hnone, ite_self, append_nil, ParseGraph.matchNeighborData]
    split
    · rw [receptions_addToParseGraph, if_pos rfl, if_neg]
      rintro ⟨rfl, hkey⟩
      exact hne hkey
    · rfl
  | other =>
    have hnone : loggedEntries [.other] sender receiver = [] := rfl
    rw [hnone, ite_self, append_nil, ParseGraph.matchNeighborData]

theorem receptions_parseFile (hvalid : 0 ∉ validNodeIds) (hne : receiver ≠ sender) :
    (ParseGraph.parseFile validNodeIds log).receptions sender receiver =
      if sender ∈ validNodeIds ∧ receiver ∈ validNodeIds then loggedEntries log sender receiver
      else [] := by
  induction log using reverseRecOn with
  | nil => exact (ite_self _).symm
  | append_singleton log line ih =>
    have happend : loggedEntries (log ++ [line]) sender receiver =
        loggedEntries log sender receiver ++ loggedEntries [line] sender receiver :=
      filterMap_append
    unfold ParseGraph.parseFile at ih ⊢
    rw [foldl_concat, receptions_matchNeighborData _ _ hvalid hne, ih, happend]
    split <;> rfl

variable {entries : List (ℕ × ℤ)} {bound : ℕ}

theorem lastNumber_le (hbound : ∀ entry ∈ entries, entry.1 ≤ bound) :
    lastNumber entries ≤ bound := by
  unfold lastNumber
  cases hend : entries.getLast? with
  | none => exact Nat.zero_le _
  | some entry => exact hbound entry (mem_of_getLast? hend)

theorem length_le_lastNumber (hpairwise : (entries.map Prod.fst).Pairwise (· < ·))
    (hpos : ∀ entry ∈ entries, 1 ≤ entry.1) :
    entries.length ≤ lastNumber entries ∧ ∀ entry ∈ entries, entry.1 ≤ lastNumber entries := by
  induction entries using reverseRecOn with
  | nil => exact ⟨Nat.zero_le _, nofun⟩
  | append_singleton entries entry ih =>
    rw [map_append, pairwise_append] at hpairwise
    have hbelow : ∀ x ∈ entries, x.1 < entry.1 := fun x hx ↦
      hpairwise.2.2 _ (mem_map_of_mem hx) _ mem_cons_self
    have hlast : lastNumber (entries ++ [entry]) = entry.1 := by
      rw [lastNumber, getLast?_concat]
      rfl
    obtain ⟨hlength, -⟩ := ih hpairwise.1 fun x hx ↦ hpos x (mem_append_left _ hx)
    have hprevious : lastNumber entries ≤ entry.1 - 1 :=
      lastNumber_le fun x hx ↦ Nat.le_sub_one_of_lt (hbelow x hx)
    have hfirst : 1 ≤ entry.1 := hpos entry (mem_append_right _ mem_cons_self)
    rw [hlast, length_append, length_singleton]
    refine ⟨by omega, fun x hx ↦ ?_⟩
    rcases mem_append.mp hx with hx | hx
    · exact (hbelow x hx).le
    · rw [mem_singleton.mp hx]

theorem highestReceivedNumber_le_iff {g : ParseGraph} {receivers : List ℕ} :
    highestReceivedNumber g sender receivers ≤ bound ↔ ∀ receiver ∈ receivers, receiver ≠ sender →
        lastNumber (g.receptions sender receiver) ≤ bound := by
  have hgeneral : ∀ highest : ℕ, receivers.foldl (fun highest receiver ↦
      if receiver ≠ sender ∧ highest < lastNumber (g.receptions sender receiver) then
        lastNumber (g.receptions sender receiver)
      else highest) highest ≤ bound ↔ highest ≤ bound ∧ ∀ receiver ∈ receivers,
        receiver ≠ sender → lastNumber (g.receptions sender receiver) ≤ bound := by
    induction receivers with
    | nil => simp
    | cons receiver receivers ih =>
      intro highest
      rw [foldl_cons, ih, forall_mem_cons]
      grind
  rw [highestReceivedNumber, hgeneral]
  simp

theorem highestLogged_le_iff : highestLogged validNodeIds log sender ≤ bound ↔
    ∀ receiver ∈ validNodeIds, receiver ≠ sender →
      ∀ entry ∈ loggedEntries log sender receiver, entry.1 ≤ bound := by
  have hgeneral : ∀ numbers : List ℕ, numbers.foldr max 0 ≤ bound ↔ ∀ n ∈ numbers, n ≤ bound := by
    intro numbers
    induction numbers with
    | nil => simp
    | cons n numbers ih => rw [List.foldr_cons, max_le_iff, ih, List.forall_mem_cons]
  rw [highestLogged, hgeneral]
  simp only [List.mem_map, List.mem_flatMap, List.mem_filter, decide_eq_true_eq]
  constructor
  · intro hall receiver hreceiver hne entry hentry
    exact hall _ ⟨entry, ⟨receiver, ⟨hreceiver, hne⟩, hentry⟩, rfl⟩
  · rintro hall _ ⟨entry, ⟨receiver, ⟨hreceiver, hne⟩, hentry⟩, rfl⟩
    exact hall receiver hreceiver hne entry hentry

theorem mem_keys_of_receptions {g : ParseGraph} (hne : g.receptions sender receiver ≠ []) :
    ∃ row, g.lookup sender = some row ∧ receiver ∈ row.keys := by
  unfold ParseGraph.receptions NodeTable.cell at hne
  cases hrow : g.lookup sender with
  | none =>
    rw [hrow] at hne
    exact absurd rfl hne
  | some row =>
    refine ⟨row, rfl, ?_⟩
    by_contra hmissing
    rw [hrow, bind_some, AList.lookup_eq_none.mpr hmissing] at hne
    exact hne rfl

theorem receivable_parseFile (hvalid : 0 ∉ validNodeIds) (hsender : sender ∈ validNodeIds)
    (hincrease : NumbersIncrease log) {g : ParseGraph}
    (hparsed : g = ParseGraph.parseFile validNodeIds log) :
    ((g.lookup sender).map fun row ↦ highestReceivedNumber g sender row.keys).getD 0 =
      highestLogged validNodeIds log sender := by
  have hentries : ∀ receiver, receiver ≠ sender → g.receptions sender receiver =
      if receiver ∈ validNodeIds then loggedEntries log sender receiver else [] := by
    intro receiver hne
    rw [hparsed, receptions_parseFile hvalid hne, if_congr (and_iff_right hsender) rfl rfl]
  have hlast : ∀ receiver, ∀ entry ∈ loggedEntries log sender receiver,
      entry.1 ≤ lastNumber (loggedEntries log sender receiver) := fun receiver ↦
    (length_le_lastNumber (hincrease sender receiver).1 (hincrease sender receiver).2).2
  apply eq_of_forall_ge_iff
  intro bound
  rw [highestLogged_le_iff]
  constructor
  · intro hbound receiver hreceiver hne entry hentry
    have hreceptions := hentries receiver hne
    rw [if_pos hreceiver] at hreceptions
    have hsome : g.receptions sender receiver ≠ [] := hreceptions ▸ ne_nil_of_mem hentry
    obtain ⟨row, hrow, hkey⟩ := mem_keys_of_receptions hsome
    rw [hrow] at hbound
    have hbelow := highestReceivedNumber_le_iff.mp hbound receiver hkey hne
    rw [hreceptions] at hbelow
    exact (hlast receiver entry hentry).trans hbelow
  · intro hall
    cases g.lookup sender with
    | none => exact Nat.zero_le _
    | some row =>
      refine highestReceivedNumber_le_iff.mpr fun receiver _ hne ↦ ?_
      rw [hentries receiver hne]
      split
      · rename_i hreceiver
        exact lastNumber_le (hall receiver hreceiver hne)
      · exact Nat.zero_le _

theorem length_loggedEntries_le (hincrease : NumbersIncrease log)
    (hreceiver : receiver ∈ validNodeIds) (hne : receiver ≠ sender) :
    (loggedEntries log sender receiver).length ≤ highestLogged validNodeIds log sender := by
  obtain ⟨hgrow, hpos⟩ := hincrease sender receiver
  exact (length_le_lastNumber hgrow hpos).1.trans
    (lastNumber_le (highestLogged_le_iff.mp le_rfl receiver hreceiver hne))

variable {files : List (List LogLine)}

theorem totalReceivablePackets_eq (hvalid : 0 ∉ validNodeIds) (hsender : sender ∈ validNodeIds)
    (hincrease : ∀ log ∈ files, NumbersIncrease log) :
    totalReceivablePackets (files.map (ParseGraph.parseFile validNodeIds)) sender =
      (files.map (highestLogged validNodeIds · sender)).sum := by
  induction files with
  | nil => rfl
  | cons log files ih =>
    obtain ⟨hlog, hfiles⟩ := forall_mem_cons.mp hincrease
    have hfirst := receivable_parseFile hvalid hsender hlog rfl
    rw [map_cons, map_cons, sum_cons, ← ih hfiles, ← hfirst]
    unfold totalReceivablePackets
    rw [filterMap_cons]
    cases (ParseGraph.parseFile validNodeIds log).lookup sender with
    | none => exact (Nat.zero_add _).symm
    | some row => exact sum_cons

variable (files) in
theorem map_receptions {β : Type} (f : List (ℕ × ℤ) → β) (hvalid : 0 ∉ validNodeIds) (hsender : sender ∈ validNodeIds)
    (hreceiver : receiver ∈ validNodeIds) (hne : receiver ≠ sender) :
    ((files.map (ParseGraph.parseFile validNodeIds)).map fun g ↦ f (g.receptions sender receiver)) =
      files.map fun log ↦ f (loggedEntries log sender receiver) := by
  rw [List.map_map]
  apply List.map_congr_left
  intro log _
  rw [Function.comp_apply, receptions_parseFile hvalid hne, if_pos ⟨hsender, hreceiver⟩]

theorem combineParseGraphs_perm {maxEtxBound minRssiBound : Option ℚ}
    {graphs graphs' : List ParseGraph} (hperm : graphs'.Perm graphs) :
    combineParseGraphs validNodeIds maxEtxBound minRssiBound graphs' sender receiver =
      combineParseGraphs validNodeIds maxEtxBound minRssiBound graphs sender receiver := by
  unfold combineParseGraphs totalReceivablePackets totalReceivedPackets
  rw [(hperm.filterMap _).sum_eq, (hperm.map _).sum_eq]
  simp only [(hperm.map fun g ↦ ((g.receptions sender receiver).map Prod.snd).sum).sum_eq]

theorem FitsDouble.mono {n m : ℕ} (hm : FitsDouble m) (hle : n ≤ m) : FitsDouble n :=
  (Nat.size_le_size (roundSignificand_mono (by decide) hle)).trans hm

theorem toDouble_eq {n : ℕ} (hn : FitsDouble n) : toDouble n = some (roundSignificand 53 n) :=
  if_pos hn

/-- Quotients of the doubles of two numbers that are in order. -/
theorem trueDiv_bounds {n d : ℕ} (hn : 0 < n) (hle : n ≤ d) (hd : FitsDouble d) :
    0 < trueDiv (roundSignificand 53 n) (roundSignificand 53 d) ∧
      trueDiv (roundSignificand 53 n) (roundSignificand 53 d) ≤ 1 ∧
      1 ≤ trueDiv (roundSignificand 53 d) (roundSignificand 53 n) := by
  have hpos : 0 < roundSignificand 53 n :=
    (Nat.two_pow_pos _).trans_le (le_roundSignificand (by decide) hn)
  have hmono : roundSignificand 53 n ≤ roundSignificand 53 d := roundSignificand_mono (by decide) hle
  have hbound : (roundSignificand 53 d).size ≤ 1074 := le_trans hd (by decide)
  exact ⟨roundQuotient_pos (by decide) hpos (hpos.trans_le hmono) hbound,
    roundQuotient_le_one (by decide) (hpos.trans_le hmono) hmono,
    one_le_roundQuotient (by decide) hpos ((Nat.size_le_size hmono).trans hbound) hmono⟩

/-- Between two nodes with a reception, the reception ratio is what was received over the sum of
the highest numbers, at most 1, and the transmission count the opposite quotient, at least 1, in any
order of files. -/
theorem combineParseGraphs_consistent (maxEtxBound minRssiBound : Option ℚ)
    (hvalid : 0 ∉ validNodeIds) (hincrease : ∀ log ∈ files, NumbersIncrease log)
    (hsender : sender ∈ validNodeIds) (hreceiver : receiver ∈ validNodeIds)
    (hne : receiver ≠ sender) (hreceived : ∃ log ∈ files, loggedEntries log sender receiver ≠ [])
    (hfits : FitsDouble (files.map (highestLogged validNodeIds · sender)).sum)
    (hrssi : FitsDouble
      (files.map fun log ↦ ((loggedEntries log sender receiver).map Prod.snd).sum).sum.natAbs) :
    let received :=
      roundSignificand 53 (files.map fun log ↦ (loggedEntries log sender receiver).length).sum
    let receivable := roundSignificand 53 (files.map (highestLogged validNodeIds · sender)).sum
    let combined := fun files : List (List LogLine) ↦ combineParseGraphs validNodeIds maxEtxBound
      minRssiBound (files.map (ParseGraph.parseFile validNodeIds)) sender receiver
    ((∀ b ∈ maxEtxBound, b = 0 ∨ trueDiv receivable received < b) →
      ∃ link prr etx, combined files = some link ∧ link.prr = some prr ∧ link.etx = some etx ∧
        prr = trueDiv received receivable ∧ etx = trueDiv receivable received ∧
        0 < prr ∧ prr ≤ 1 ∧ 1 ≤ etx) ∧
      ∀ files', files'.Perm files → combined files' = combined files := by
  intro received receivable combined
  have hpos : 0 < (files.map fun log ↦ (loggedEntries log sender receiver).length).sum := by
    obtain ⟨log, hlog, hentries⟩ := hreceived
    have hle := single_le_sum (fun _ _ ↦ Nat.zero_le _) _
      (mem_map_of_mem (f := fun log ↦ (loggedEntries log sender receiver).length) hlog)
    exact (length_pos_iff.mpr hentries).trans_le hle
  have hle : (files.map fun log ↦ (loggedEntries log sender receiver).length).sum ≤
      (files.map (highestLogged validNodeIds · sender)).sum :=
    sum_le_sum fun log hlog ↦ length_loggedEntries_le (hincrease log hlog) hreceiver hne
  refine ⟨fun hbound ↦ ?_, fun files' hperm ↦ combineParseGraphs_perm (hperm.map _)⟩
  have hall : maxEtxBound.all (fun b ↦ b = 0 ∨ trueDiv receivable received < b) := by
    cases maxEtxBound with
    | none => rfl
    | some b => exact decide_eq_true (hbound b rfl)
  have hlink : ∃ link, combined files = some link ∧
      link.prr = some (trueDiv received receivable) ∧
      link.etx = some (trueDiv receivable received) := by
    change ∃ link, combineParseGraphs _ _ _ _ _ _ = some link ∧ _
    unfold combineParseGraphs
    have htotal := map_receptions files List.length hvalid hsender hreceiver hne
    have hsum := map_receptions files (fun entries ↦ (entries.map Prod.snd).sum) hvalid
      hsender hreceiver hne
    rw [totalReceivablePackets_eq hvalid hsender hincrease, totalReceivedPackets, htotal, hsum,
      if_pos ⟨hsender, by omega⟩, toDouble_eq hfits, toDouble_eq (hfits.mono hle)]
    dsimp only
    rw [toDouble_eq hrssi]
    have hboth : receiver ∈ validNodeIds ∧ receiver ≠ sender ∧
        0 < (files.map fun log ↦ (loggedEntries log sender receiver).length).sum :=
      ⟨hreceiver, hne, hpos⟩
    simp only [bind_eq_bind, bind_some, if_pos hboth]
    refine ⟨_, rfl, ?_, ?_⟩
    · exact if_pos hall
    · exact if_pos hall
  obtain ⟨link, hcall, hprr, hetx⟩ := hlink
  obtain ⟨hpositive, hone, hcount⟩ := trueDiv_bounds hpos hle hfits
  exact ⟨link, _, _, hcall, hprr, hetx, rfl, rfl, hpositive, hone, hcount⟩

/-- A file in which node 2 received some packets of node 1, the last one with a number. -/
def receivedFile (numbers : List ℕ) : List LogLine :=
  .sent 1 1 :: numbers.map fun number ↦ .rcvd 2 1 26 number (-60)

theorem numbersIncrease_receivedFile {numbers : List ℕ} (hgrow : numbers.Pairwise (· < ·))
    (hpos : ∀ number ∈ numbers, 1 ≤ number) : NumbersIncrease (receivedFile numbers) := by
  intro sender receiver
  have hentries : loggedEntries (receivedFile numbers) sender receiver =
      if 2 = receiver ∧ 1 = sender then numbers.map fun number ↦ (number, -60) else [] := by
    split_ifs with hlogged
    · simp [loggedEntries, receivedFile, filterMap_map, hlogged]
    · simp [loggedEntries, receivedFile, filterMap_map, hlogged]
  rw [hentries]
  split_ifs
  · rw [List.map_map]
    refine ⟨by simpa [Function.comp_def] using hgrow, ?_⟩
    intro entry hentry
    obtain ⟨number, hnumber, rfl⟩ := mem_map.mp hentry
    exact hpos number hnumber
  · exact ⟨Pairwise.nil, nofun⟩

theorem combineParseGraphs_consistent_missed : ∃ link etx, combineParseGraphs [1, 2] (some 10) none
    ([receivedFile [1, 4]].map (ParseGraph.parseFile [1, 2])) 1 2 = some link ∧
      link.etx = some etx ∧ 1 ≤ etx := by
  have hincrease : ∀ log ∈ [receivedFile [1, 4]], NumbersIncrease log :=
    forall_mem_singleton.mpr (numbersIncrease_receivedFile (by decide) (by decide))
  obtain ⟨link, _, etx, hcall, _, hetx, _, _, _, _, hle⟩ :=
    (@combineParseGraphs_consistent [1, 2] 1 2 [receivedFile [1, 4]] (some 10) none (by decide)
      hincrease (by decide) (by decide) (by decide) ⟨_, mem_cons_self, by decide⟩ (by decide +kernel)
      (by decide +kernel)).1 (by decide +kernel)
  exact ⟨link, etx, hcall, hetx, hle⟩

/-- After 5 receptions and a highest number of 9 the transmission count is not the inverse of the
reception ratio, nor the double nearest to it. -/
theorem not_inverse_fiveOfNine : NumbersIncrease (receivedFile [1, 2, 3, 4, 9]) ∧
    ∃ link prr etx, combineParseGraphs [1, 2] none none
      ([receivedFile [1, 2, 3, 4, 9]].map (ParseGraph.parseFile [1, 2])) 1 2 = some link ∧
      link.prr = some prr ∧ link.etx = some etx ∧ etx ≠ 1 / prr ∧
      etx ≠ trueDiv prr.den prr.num.natAbs := by
  refine ⟨numbersIncrease_receivedFile (by decide) (by decide), ?_⟩
  obtain ⟨link, hlink, hne⟩ := (any_eq_true _ _).mp (show (combineParseGraphs [1, 2] none none
      ([receivedFile [1, 2, 3, 4, 9]].map (ParseGraph.parseFile [1, 2])) 1 2).any (fun link ↦
        link.prr.any fun prr ↦ link.etx.any fun etx ↦
          decide (etx ≠ 1 / prr ∧ etx ≠ trueDiv prr.den prr.num.natAbs)) = true by decide +kernel)
  obtain ⟨prr, hprr, hne⟩ := (any_eq_true _ _).mp hne
  obtain ⟨etx, hetx, hne⟩ := (any_eq_true _ _).mp hne
  exact ⟨link, prr, etx, hlink, hprr, hetx, of_decide_eq_true hne⟩

end ContikiMaster.Scheduler
