import ContikiMaster.Ipv6.HeaderWalk
import ContikiMaster.Rpl.ExtHeaderRemoval

/-!
# Bounds of the walk along the headers

The walk compares no position with `uip_len`. It is bounded if the length field leaves room for the
IPv6 header, and the options and headers, at positions modulo 256, come to an end inside the packet.
Then only an ICMPv6 error is longer than the packet.
-/

namespace ContikiMaster.Ipv6

open Lib Rpl List Option Datagram

variable {node : IpNode} {mem : ℕ → UInt8} {d : Datagram} {n k fuel ext offset : ℕ}

variable (mem) in
def passedLength (opt : ℕ) : Option ℕ :=
  if mem opt = uipExtHdrOptPad1 then some 1
  else if mem opt = uipExtHdrOptPadn then some ((mem (opt + 1)).toNat + 2)
  else if mem opt = uipExtHdrOptRpl then none
  else if mem opt &&& 0xC0 = 0 then some ((mem (opt + 1)).toNat + 2)
  else none

variable (mem) in
/-- The offset behind an option of the header behind `ext` bytes that is passed over. -/
def nextOption (ext offset : ℕ) : Option ℕ :=
  if offset < extHeaderLen mem ext then
    (passedLength mem (40 + ext + offset)).map fun len ↦ (offset + len) % 256
  else none

variable (mem) in
def optionAt (ext : ℕ) : ℕ → ℕ
  | 0 => 2
  | k + 1 => (nextOption mem ext (optionAt ext k)).getD 0

variable (mem) in
def optionBytes (ext offset : ℕ) : List ℕ :=
  [41 + ext, 40 + ext + offset] ++
    if mem (40 + ext + offset) = uipExtHdrOptPad1 then [] else [40 + ext + offset + 1]

/-- The datagram once `k` options were passed over. -/
def afterOptions (d : Datagram) : ℕ → Datagram
  | 0 => d
  | k + 1 => (afterOptions d k).touch
      (optionBytes d.mem d.uipExtLen (optionAt d.mem d.uipExtLen k))

variable (mem) in
/-- `k` options are passed over, and no more. -/
def OptionsEnd (ext k : ℕ) : Prop :=
  (∀ j < k, (nextOption mem ext (optionAt mem ext j)).isSome) ∧
    nextOption mem ext (optionAt mem ext k) = none

variable (node) in
def lastOption (offset : ℕ) (d : Datagram) : OptionsVerdict × Datagram :=
  let opt := 40 + d.uipExtLen + offset
  if offset < extHeaderLen d.mem d.uipExtLen then
    let u := d.touch [41 + d.uipExtLen, opt]
    if d.mem opt = uipExtHdrOptRpl then
      if (rplExtHeaderHbhUpdate node.rpl offset u).1 then
        (.continues, (rplExtHeaderHbhUpdate node.rpl offset u).2.touch [opt + 1])
      else (.discards, (rplExtHeaderHbhUpdate node.rpl offset u).2)
    else if d.mem opt &&& 0xC0 = 0xC0 then
      (if isAddrMcast (destipaddr d.mem) then .discards else .sendsError, u.touch [24])
    else (if d.mem opt &&& 0xC0 = 0x40 then .discards else .sendsError, u)
  else (.continues, d.touch [41 + d.uipExtLen])

variable (node) in
/-- What `ext_hdr_options_process` comes to after `k` options. -/
def optionsResult (k : ℕ) (d : Datagram) : OptionsVerdict × Datagram :=
  lastOption node (optionAt d.mem d.uipExtLen k) (afterOptions d k)

theorem touch_touch (d : Datagram) (l m : List ℕ) : (d.touch l).touch m = d.touch (l ++ m) := by
  unfold touch
  simp only [all_append, Bool.and_assoc]

theorem padn_ne_pad1 : uipExtHdrOptPadn ≠ uipExtHdrOptPad1 := by decide

theorem rpl_ne_pad : uipExtHdrOptRpl ≠ uipExtHdrOptPad1 ∧ uipExtHdrOptRpl ≠ uipExtHdrOptPadn := by
  decide

variable (node) in
/-- One turn passes over an option or is the last one. -/
theorem optionTurn_eq (offset : ℕ) (d : Datagram) : optionTurn node (offset, d) =
      (nextOption d.mem d.uipExtLen offset).elim (.returns (lastOption node offset d))
        fun k ↦ .goesOn (k, d.touch (optionBytes d.mem d.uipExtLen offset)) := by
  unfold optionTurn nextOption lastOption passedLength optionBytes
  by_cases hlt : offset < extHeaderLen d.mem d.uipExtLen
  · simp only [mem_touch, uipExtLen_touch, hlt, if_true, touch_touch,
      cons_append, nil_append]
    by_cases hpad1 : d.mem (40 + d.uipExtLen + offset) = uipExtHdrOptPad1
    · simp [hpad1]
    by_cases hpadn : d.mem (40 + d.uipExtLen + offset) = uipExtHdrOptPadn
    · simp [hpadn, padn_ne_pad1]
    by_cases hrpl : d.mem (40 + d.uipExtLen + offset) = uipExtHdrOptRpl
    · simp only [hrpl, rpl_ne_pad, if_true, if_false, map_none, elim_none]
      by_cases haccepts : (rplExtHeaderHbhUpdate node.rpl offset
          (d.touch [41 + d.uipExtLen, 40 + d.uipExtLen + offset])).1 = true
      · simp [haccepts]
      · simp [haccepts]
    simp only [hpad1, hpadn, hrpl, if_false]
    by_cases hskip : d.mem (40 + d.uipExtLen + offset) &&& 0xC0 = 0
    · simp [hskip]
    by_cases hdiscard : d.mem (40 + d.uipExtLen + offset) &&& 0xC0 = 0x40
    · simp [hdiscard]
    by_cases herror : d.mem (40 + d.uipExtLen + offset) &&& 0xC0 = 0xC0
    · simp [herror]
    · simp [hskip, hdiscard, herror]
  · simp [hlt]

theorem afterOptions_mem (d : Datagram) (k : ℕ) :
    (afterOptions d k).mem = d.mem ∧ (afterOptions d k).uipLen = d.uipLen ∧
      (afterOptions d k).uipExtLen = d.uipExtLen := by
  induction k with
  | zero => exact ⟨rfl, rfl, rfl⟩
  | succ k ih => exact ih

variable (node) in
theorem returns_options (hends : OptionsEnd d.mem d.uipExtLen k) :
    Returns (fun fuel ↦ extHdrOptionsProcess node fuel d) (optionsResult node k d) := by
  have hturn : ∀ j, optionTurn node (optionAt d.mem d.uipExtLen j, afterOptions d j) =
      if (nextOption d.mem d.uipExtLen (optionAt d.mem d.uipExtLen j)).isSome = true then
        .goesOn (optionAt d.mem d.uipExtLen (j + 1), afterOptions d (j + 1))
      else .returns (optionsResult node j d) := by
    intro j
    obtain ⟨hmem, -, hext⟩ := afterOptions_mem d j
    rw [optionTurn_eq, hmem, hext]
    cases hnext : nextOption d.mem d.uipExtLen (optionAt d.mem d.uipExtLen j) with
    | none => rfl
    | some offset =>
      have hat : optionAt d.mem d.uipExtLen (j + 1) = offset := by
        change (nextOption d.mem d.uipExtLen _).getD 0 = offset
        rw [hnext, getD_some]
      rw [hat]
      rfl
  obtain ⟨hpassed, hlast⟩ := hends
  refine ⟨k + 1, fun fuel hfuel ↦ (loop_eq_some_iff_of_sequence hturn 0).mpr ⟨k, hfuel, ?_⟩⟩
  simpa [hlast] using hpassed

variable (node mem n) in
/-- The length byte of the header and the options that are passed over are inside, and so is what is
looked at of the option behind them. -/
def OptionsInside (ext k : ℕ) : Prop :=
  ext + 42 ≤ n ∧ (∀ j < k, ∀ o ∈ optionBytes mem ext (optionAt mem ext j), o < n) ∧
    (optionAt mem ext k < extHeaderLen mem ext → 40 + ext + optionAt mem ext k < n ∧
      (mem (40 + ext + optionAt mem ext k) = uipExtHdrOptRpl →
        CleanHbh node.rpl mem n ext (optionAt mem ext k)))

theorem afterOptions_safe (hsafe : d.Safe)
    (hall : ∀ j < k, ∀ o ∈ optionBytes d.mem d.uipExtLen (optionAt d.mem d.uipExtLen j),
      o < d.uipLen) : (afterOptions d k).Safe := by
  induction k with
  | zero => exact hsafe
  | succ k ih =>
    obtain ⟨-, hlen, -⟩ := afterOptions_mem d k
    refine safe_touch.mpr ⟨ih fun j hj ↦ hall j (Nat.lt_succ_of_lt hj), fun o ho ↦ ?_⟩
    exact (hall k (Nat.lt_succ_self k) o ho).trans_eq hlen.symm

theorem hbhUpdate_lengths (ctx : RplContext) (offset : ℕ) (d : Datagram) :
    (rplExtHeaderHbhUpdate ctx offset d).2.uipLen = d.uipLen ∧
      (rplExtHeaderHbhUpdate ctx offset d).2.uipExtLen = d.uipExtLen := by
  unfold rplExtHeaderHbhUpdate
  dsimp only
  split
  · exact ⟨rfl, rfl⟩
  · split
    · exact ⟨rfl, rfl⟩
    · split
      · exact ⟨rfl, rfl⟩
      · split
        · exact ⟨rfl, rfl⟩
        · split <;> exact ⟨rfl, rfl⟩

theorem safe_touch_pair {a b : ℕ} :
    (d.touch [a, b]).Safe ↔ d.Safe ∧ a < d.uipLen ∧ b < d.uipLen := by
  rw [safe_touch]
  simp

theorem safe_touch_one {a : ℕ} : (d.touch [a]).Safe ↔ d.Safe ∧ a < d.uipLen := by
  rw [safe_touch, forall_mem_singleton]

variable (node) in
theorem lastOption_lengths (offset : ℕ) (d : Datagram) :
    (lastOption node offset d).2.uipLen = d.uipLen ∧
      (lastOption node offset d).2.uipExtLen = d.uipExtLen := by
  have hupdate := hbhUpdate_lengths node.rpl offset
    (d.touch [41 + d.uipExtLen, 40 + d.uipExtLen + offset])
  unfold lastOption
  dsimp only
  split
  · split
    · split <;> exact hupdate
    · split <;> exact ⟨rfl, rfl⟩
  · exact ⟨rfl, rfl⟩

theorem lastOption_safe (hbase : 40 ≤ d.uipLen) (hsafe : d.Safe)
    (hheader : d.uipExtLen + 42 ≤ d.uipLen)
    (hoption : offset < extHeaderLen d.mem d.uipExtLen → 40 + d.uipExtLen + offset < d.uipLen ∧
      (d.mem (40 + d.uipExtLen + offset) = uipExtHdrOptRpl →
        CleanHbh node.rpl d.mem d.uipLen d.uipExtLen offset)) :
    (lastOption node offset d).2.Safe := by
  have hlength : 41 + d.uipExtLen < d.uipLen := by omega
  unfold lastOption
  dsimp only
  split
  · rename_i hlt
    obtain ⟨hfirst, hclean⟩ := hoption hlt
    have htouched := safe_touch_pair.mpr ⟨hsafe, hlength, hfirst⟩
    split
    · rename_i hrpl
      have hupdated := (hbhUpdate_safe_iff node.rpl _ offset).mpr ⟨htouched, hclean hrpl⟩
      split
      · refine safe_touch_one.mpr ⟨hupdated, ?_⟩
        -- the length byte of the option is one of those that the update has looked at
        rw [(hbhUpdate_lengths node.rpl offset _).1]
        exact Nat.lt_of_succ_le (hclean hrpl).1
      · exact hupdated
    · split
      · exact safe_touch_one.mpr ⟨htouched, by change 24 < d.uipLen; omega⟩
      · exact htouched
  · exact safe_touch_one.mpr ⟨hsafe, hlength⟩

variable (node) in
theorem optionsResult_lengths (k : ℕ) (d : Datagram) :
    (optionsResult node k d).2.uipLen = d.uipLen ∧
      (optionsResult node k d).2.uipExtLen = d.uipExtLen := by
  obtain ⟨-, hlen, hext⟩ := afterOptions_mem d k
  obtain ⟨hlast, hlast'⟩ := lastOption_lengths node (optionAt d.mem d.uipExtLen k)
    (afterOptions d k)
  exact ⟨hlast.trans hlen, hlast'.trans hext⟩

theorem optionsResult_safe (hbase : 40 ≤ d.uipLen) (hsafe : d.Safe)
    (hinside : OptionsInside node d.mem d.uipLen d.uipExtLen k) :
    (optionsResult node k d).2.Safe := by
  obtain ⟨hmem, hlen, hext⟩ := afterOptions_mem d k
  obtain ⟨hheader, hpassed, hoption⟩ := hinside
  refine lastOption_safe ?_ (afterOptions_safe hsafe hpassed) ?_ ?_
  · rw [hlen]
    exact hbase
  · rw [hlen, hext]
    exact hheader
  · rw [hmem, hlen, hext]
    exact hoption

/-! ### The chain of headers -/

section Headers

variable {s : Walk} {bitmap : UInt8} {r : Verdict × Datagram}

/-- The type of the next header was read. -/
def Walk.header (s : Walk) : Datagram := s.d.touch [s.next]

/-- The headers come to an end inside the packet: the type of each is inside, and of an options
header the options are; of a routing header the segments left are, and if there are some, what the
update of a source routing header looks at. -/
inductive HeadersClean (node : IpNode) : Walk → Prop
  | ends {s : Walk} (hnext : s.next < s.d.uipLen)
      (htype : isOptionsHeader (s.d.mem s.next) = false)
      (hrouting : s.d.mem s.next ≠ uipProtoRouting) : HeadersClean node s
  | refused {s : Walk} (hnext : s.next < s.d.uipLen)
      (htype : isOptionsHeader (s.d.mem s.next) = true ∨ s.d.mem s.next = uipProtoRouting)
      (hnote : noteHeader node (s.d.mem s.next) s.bitmap = none) : HeadersClean node s
  | options {s : Walk} {bitmap : UInt8} {k : ℕ} (hnext : s.next < s.d.uipLen)
      (htype : isOptionsHeader (s.d.mem s.next) = true)
      (hnote : noteHeader node (s.d.mem s.next) s.bitmap = some bitmap)
      (hends : OptionsEnd s.d.mem s.d.uipExtLen k)
      (hinside : OptionsInside node s.d.mem s.d.uipLen s.d.uipExtLen k)
      (hrest : ∀ t, leaveOptions bitmap (optionsResult node k s.header) = .goesOn t →
        HeadersClean node t) : HeadersClean node s
  | passed {s : Walk} {bitmap : UInt8} (hnext : s.next < s.d.uipLen)
      (htype : s.d.mem s.next = uipProtoRouting)
      (hnote : noteHeader node (s.d.mem s.next) s.bitmap = some bitmap)
      (hsegments : s.d.mem (43 + s.d.uipExtLen) = 0) (hinside : s.d.uipExtLen + 44 ≤ s.d.uipLen)
      (hrest : HeadersClean node ⟨40 + s.d.uipExtLen, bitmap,
        passHeader (s.header.touch [43 + s.d.uipExtLen])⟩) : HeadersClean node s
  | routed {s : Walk} {bitmap : UInt8} {k : ℕ} (hnext : s.next < s.d.uipLen)
      (htype : s.d.mem s.next = uipProtoRouting)
      (hnote : noteHeader node (s.d.mem s.next) s.bitmap = some bitmap)
      (hsegments : s.d.mem (43 + s.d.uipExtLen) ≠ 0) (hinside : s.d.uipExtLen + 44 ≤ s.d.uipLen)
      (hends : EndsAt s.d.mem k) (hheaders : HeadersInside s.d.mem s.d.uipLen k)
      (hfound : headerType s.d.mem k = uipProtoRouting → extLenAt s.d.mem k + 43 ≤ s.d.uipLen ∧
        (s.d.mem (42 + extLenAt s.d.mem k) = rplRhTypeSrh →
          CleanSwap s.d.mem s.d.uipLen (extLenAt s.d.mem k))) : HeadersClean node s

theorem header_safe : s.header.Safe ↔ s.d.Safe ∧ s.next < s.d.uipLen := safe_touch_one

theorem passHeader_safe : (passHeader d).Safe ↔ d.Safe ∧ 41 + d.uipExtLen < d.uipLen :=
  safe_touch_one

theorem forwardToNextHop_safe (hsafe : d.Safe) (hbase : 40 ≤ d.uipLen) :
    (forwardToNextHop d).2.Safe := by
  have hlimit : (d.touch [7]).Safe := safe_touch_one.mpr ⟨hsafe, by omega⟩
  unfold forwardToNextHop
  dsimp only
  split
  · exact hsafe
  · split
    · exact hlimit
    · exact hlimit

theorem forwardToNextHop_uipLen (d : Datagram) : (forwardToNextHop d).2.uipLen = d.uipLen := by
  unfold forwardToNextHop
  dsimp only
  split
  · rfl
  · split <;> rfl

variable {result : Bool × Datagram}

theorem leaveRouting_safe (hsafe : result.2.Safe) (hbase : 40 ≤ result.2.uipLen) :
    (leaveRouting result).2.Safe := by
  unfold leaveRouting
  split
  · exact forwardToNextHop_safe hsafe hbase
  · exact hsafe

theorem leaveRouting_uipLen (result : Bool × Datagram) :
    (leaveRouting result).2.uipLen = result.2.uipLen := by
  unfold leaveRouting
  split
  · exact forwardToNextHop_uipLen result.2
  · rfl

theorem upper_ne {type : UInt8} (htype : isOptionsHeader type = true ∨ type = uipProtoRouting) :
    type ≠ uipProtoTcp ∧ type ≠ uipProtoUdp ∧ type ≠ uipProtoIcmp6 := by
  have hall : type = uipProtoHbho ∨ type = uipProtoDesto ∨ type = uipProtoRouting := by
    rcases htype with hoptions | hrouting
    · unfold isOptionsHeader at hoptions
      simp only [Bool.or_eq_true, beq_iff_eq] at hoptions
      exact hoptions.imp_right Or.inl
    · exact Or.inr (Or.inr hrouting)
  rcases hall with rfl | rfl | rfl <;> decide

variable (node) in
theorem headerTurn_upper (htype : isOptionsHeader (s.d.mem s.next) = false)
    (hrouting : s.d.mem s.next ≠ uipProtoRouting) :
    ∃ verdict, ∀ fuel, headerTurn node fuel s = some (.returns (verdict, s.header)) := by
  unfold headerTurn
  simp only [mem_touch, htype, hrouting, Bool.false_eq_true, if_false]
  split_ifs <;> exact ⟨_, fun _ ↦ rfl⟩

theorem headerTurn_refused
    (htype : isOptionsHeader (s.d.mem s.next) = true ∨ s.d.mem s.next = uipProtoRouting)
    (hnote : noteHeader node (s.d.mem s.next) s.bitmap = none) :
    headerTurn node fuel s = some (.returns (.error false, s.header)) := by
  obtain ⟨htcp, hudp, hicmp⟩ := upper_ne htype
  unfold headerTurn
  simp only [mem_touch, htcp, hudp, hicmp, false_and, if_false, hnote]
  rcases htype with hoptions | hrouting
  · rw [if_pos hoptions]
    rfl
  · rw [if_neg (by rw [hrouting]; decide), if_pos hrouting]
    rfl

theorem headerTurn_options (htype : isOptionsHeader (s.d.mem s.next) = true)
    (hnote : noteHeader node (s.d.mem s.next) s.bitmap = some bitmap) : headerTurn node fuel s =
      (extHdrOptionsProcess node fuel s.header).map (leaveOptions bitmap) := by
  obtain ⟨htcp, hudp, hicmp⟩ := upper_ne (Or.inl htype)
  unfold headerTurn
  simp only [mem_touch, htcp, hudp, hicmp, false_and, if_false, hnote, htype, if_true]
  rfl

theorem headerTurn_routing (htype : s.d.mem s.next = uipProtoRouting)
    (hnote : noteHeader node (s.d.mem s.next) s.bitmap = some bitmap) : headerTurn node fuel s =
      if s.d.mem (43 + s.d.uipExtLen) = 0 then
        some (.goesOn ⟨40 + s.d.uipExtLen, bitmap,
          passHeader (s.header.touch [43 + s.d.uipExtLen])⟩)
      else (rplExtHeaderSrhUpdate fuel (s.header.touch [43 + s.d.uipExtLen])).map fun result ↦
        .returns (leaveRouting result) := by
  obtain ⟨htcp, hudp, hicmp⟩ := upper_ne (Or.inr htype)
  have hoptions : ¬ isOptionsHeader uipProtoRouting = true := by decide
  rw [htype] at hnote htcp hudp hicmp
  unfold headerTurn
  simp only [mem_touch, htype, htcp, hudp, hicmp, false_and, if_false, hnote, hoptions, if_true]
  rfl

variable (d) in
theorem returns_srhUpdate (hends : EndsAt d.mem k) :
    Returns (fun fuel ↦ rplExtHeaderSrhUpdate fuel d) (updateFound d (foundAt d.mem k)) :=
  Returns.map _ ⟨k + 1, fun _ hfuel ↦ searchRoutingHeader_eq_some_iff.mpr ⟨k, hfuel, hends, rfl⟩⟩

theorem srhUpdate_safe (hbase : 40 ≤ d.uipLen) (hsafe : d.Safe) (hheaders : HeadersInside d.mem d.uipLen k)
    (hfound : headerType d.mem k = uipProtoRouting → extLenAt d.mem k + 43 ≤ d.uipLen ∧
      (d.mem (42 + extLenAt d.mem k) = rplRhTypeSrh → CleanSwap d.mem d.uipLen (extLenAt d.mem k))) :
    (updateFound d (foundAt d.mem k)).2.Safe := by
  rw [updateFound_inside hbase, safe_touch, routing_foundAt]
  exact ⟨⟨hsafe, (touchedAt_inside hbase).mpr hheaders⟩, hfound⟩

theorem updateFound_uipLen (d : Datagram) (found : Found) :
    (updateFound d found).2.uipLen = d.uipLen := by
  unfold updateFound
  dsimp only
  split
  · rfl
  · split
    · rfl
    · split <;> rfl

theorem leaveOptions_goesOn {t : Walk} {result : OptionsVerdict × Datagram}
    (hleave : leaveOptions bitmap result = .goesOn t) :
    t = ⟨40 + result.2.uipExtLen, bitmap, passHeader result.2⟩ := by
  rcases result with ⟨verdict, u⟩
  cases verdict <;> cases hleave
  rfl

theorem leaveOptions_returns {result : OptionsVerdict × Datagram}
    (hleave : leaveOptions bitmap result = .returns r) : r.2 = result.2 := by
  rcases result with ⟨verdict, u⟩
  cases verdict <;> cases hleave <;> rfl

theorem returns_walkHeaders {turn : Turn Walk (Verdict × Datagram)}
    (hturn : Returns (fun fuel ↦ headerTurn node fuel s) turn)
    (hrest : Returns (fun fuel ↦ match turn with
      | .goesOn t => walkHeaders node fuel t
      | .returns r => some r) r) : Returns (fun fuel ↦ walkHeaders node fuel s) r := by
  obtain ⟨bound, hbound⟩ := hturn.bind (g := fun turn fuel ↦ match turn with
    | .goesOn t => walkHeaders node fuel t
    | .returns r => some r) hrest
  refine ⟨bound + 1, fun fuel hfuel ↦ ?_⟩
  obtain ⟨fuel, rfl⟩ := Nat.exists_eq_succ_of_ne_zero (Nat.ne_of_gt (Nat.zero_lt_of_lt hfuel))
  exact hbound fuel (Nat.le_of_succ_le_succ hfuel)

theorem HeadersClean.walk (hclean : HeadersClean node s) (hsafe : s.d.Safe)
    (hbase : 40 ≤ s.d.uipLen) :
    ∃ r, Returns (fun fuel ↦ walkHeaders node fuel s) r ∧ r.2.Safe ∧
      r.2.uipLen = s.d.uipLen := by
  induction hclean with
  | @ends s hnext htype hrouting =>
    obtain ⟨verdict, hturn⟩ := headerTurn_upper node htype hrouting
    exact ⟨_, returns_walkHeaders ⟨0, fun fuel _ ↦ hturn fuel⟩ (returns_some _),
      header_safe.mpr ⟨hsafe, hnext⟩, rfl⟩
  | @refused s hnext htype hnote =>
    exact ⟨_, returns_walkHeaders ⟨0, fun fuel _ ↦ headerTurn_refused htype hnote⟩
      (returns_some _), header_safe.mpr ⟨hsafe, hnext⟩, rfl⟩
  | @options s bitmap k hnext htype hnote hends hinside hrest ih =>
    have hresult : (optionsResult node k s.header).2.Safe :=
      optionsResult_safe (d := s.header) hbase (header_safe.mpr ⟨hsafe, hnext⟩) hinside
    obtain ⟨hlen, hext⟩ := optionsResult_lengths node k s.header
    have hturn : Returns (fun fuel ↦ headerTurn node fuel s)
        (leaveOptions bitmap (optionsResult node k s.header)) := by
      simp only [headerTurn_options htype hnote]
      exact (returns_options node (d := s.header) hends).map _
    cases hleave : leaveOptions bitmap (optionsResult node k s.header) with
    | goesOn t =>
      rw [hleave] at hturn
      have ht := leaveOptions_goesOn hleave
      have hlength : s.d.uipExtLen + 42 ≤ s.d.uipLen := hinside.1
      have htsafe : t.d.Safe := by
        rw [ht]
        refine passHeader_safe.mpr ⟨hresult, ?_⟩
        rw [hlen, hext]
        change 41 + s.d.uipExtLen < s.d.uipLen
        omega
      have htlen : t.d.uipLen = s.d.uipLen := by
        rw [ht]
        exact hlen
      obtain ⟨r, hreturns, hr, hrlen⟩ := ih t hleave htsafe (hbase.trans_eq htlen.symm)
      exact ⟨r, returns_walkHeaders hturn hreturns, hr, hrlen.trans htlen⟩
    | returns r =>
      rw [hleave] at hturn
      refine ⟨r, returns_walkHeaders hturn (returns_some r), ?_⟩
      rw [leaveOptions_returns hleave]
      exact ⟨hresult, hlen⟩
  | @passed s bitmap hnext htype hnote hsegments hinside hrest ih =>
    have hturn : Returns (fun fuel ↦ headerTurn node fuel s) (.goesOn ⟨40 + s.d.uipExtLen, bitmap,
        passHeader (s.header.touch [43 + s.d.uipExtLen])⟩) := by
      simp only [headerTurn_routing htype hnote, if_pos hsegments]
      exact returns_some _
    have hsafe' : (passHeader (s.header.touch [43 + s.d.uipExtLen])).Safe := by
      refine passHeader_safe.mpr ⟨safe_touch_one.mpr ⟨header_safe.mpr ⟨hsafe, hnext⟩, ?_⟩, ?_⟩
      · change 43 + s.d.uipExtLen < s.d.uipLen
        omega
      · change 41 + s.d.uipExtLen < s.d.uipLen
        omega
    obtain ⟨r, hreturns, hr⟩ := ih hsafe' hbase
    exact ⟨r, returns_walkHeaders hturn hreturns, hr⟩
  | @routed s bitmap k hnext htype hnote hsegments hinside hends hheaders hfound =>
    set u := s.header.touch [43 + s.d.uipExtLen] with hu
    have hturn : Returns (fun fuel ↦ headerTurn node fuel s)
        (.returns (leaveRouting (updateFound u (foundAt u.mem k)))) := by
      simp only [headerTurn_routing htype hnote, if_neg hsegments]
      exact (returns_srhUpdate u hends).map _
    have husafe : u.Safe := by
      refine safe_touch_one.mpr ⟨header_safe.mpr ⟨hsafe, hnext⟩, ?_⟩
      change 43 + s.d.uipExtLen < s.d.uipLen
      omega
    have hupdated : (updateFound u (foundAt u.mem k)).2.Safe :=
      srhUpdate_safe (d := u) hbase husafe hheaders hfound
    have hulen := updateFound_uipLen u (foundAt u.mem k)
    exact ⟨_, returns_walkHeaders hturn (returns_some _),
      leaveRouting_safe hupdated (hbase.trans_eq hulen.symm), (leaveRouting_uipLen _).trans hulen⟩

/-! ### The packet -/

/-- The chain of headers is clean if the packet is for this node. -/
def RouteClean (node : IpNode) (s : Walk) : Prop :=
  node.isMyAddr (destipaddr s.d.mem) = true ∨ node.isMyMaddr (destipaddr s.d.mem) = true →
    HeadersClean node { s with d := s.d.touch (range' 24 16) }

/-- The note of a hop-by-hop header in front. -/
def frontBitmap (node : IpNode) : UInt8 := if node.ipv6Checks then uipExtHdrBitmapHbho else 0

/-- The options of a hop-by-hop header in front are inside, and the rest is clean. -/
def FrontClean (node : IpNode) (d : Datagram) : Prop :=
  if d.mem 6 = uipProtoHbho then
    ∃ k, OptionsEnd d.mem d.uipExtLen k ∧ OptionsInside node d.mem d.uipLen d.uipExtLen k ∧
      ∀ s, leaveOptions (frontBitmap node) (optionsResult node k (d.touch [6])) = .goesOn s →
        RouteClean node s
  else RouteClean node ⟨6, 0, d.touch [6]⟩

def lengthChecked (mem : ℕ → UInt8) (n : ℕ) : Datagram :=
  { ((received mem n).touch [0]).touch [4, 5] with uipLen := lengthField mem + 40 }

/-- The bytes that the checks of the IPv6 header look at are there; a packet that passes them has
room for the IPv6 header in front of the payload, and its headers are clean. -/
def PacketClean (node : IpNode) (mem : ℕ → UInt8) (n : ℕ) : Prop :=
  1 ≤ n ∧ (mem 0 &&& 0xf0 = 0x60 → 6 ≤ n ∧ (lengthField mem ≤ n → lengthField mem + 40 ≤ n ∧
    (isAddrMcast (srcipaddr mem) = false →
      FrontClean node ((lengthChecked mem n).touch [8]))))

theorem forwardPacket_safe (hsafe : d.Safe) (hbase : 40 ≤ d.uipLen) :
    (forwardPacket node d).2.Safe := by
  have haddresses : (d.touch (range' 24 16 ++ range' 8 16)).Safe := by
    rw [safe_touch, forall_mem_append, forall_mem_range'_lt, forall_mem_range'_lt]
    refine ⟨hsafe, Or.inr ?_, Or.inr ?_⟩ <;> omega
  unfold forwardPacket
  dsimp only
  split
  · exact forwardToNextHop_safe haddresses hbase
  · split
    · exact haddresses
    · exact haddresses

theorem forwardPacket_uipLen (d : Datagram) : (forwardPacket node d).2.uipLen = d.uipLen := by
  unfold forwardPacket
  dsimp only
  split
  · rw [forwardToNextHop_uipLen]
    rfl
  · split <;> rfl

theorem routePacket_mine (hmine : node.isMyAddr (destipaddr s.d.mem) = true ∨
      node.isMyMaddr (destipaddr s.d.mem) = true) : routePacket node fuel s =
      walkHeaders node fuel { s with d := s.d.touch (range' 24 16) } := by
  unfold routePacket
  dsimp only
  rw [if_neg (by simpa [or_iff_not_imp_left] using hmine)]

theorem routePacket_foreign (hforeign : ¬ (node.isMyAddr (destipaddr s.d.mem) = true ∨
      node.isMyMaddr (destipaddr s.d.mem) = true)) :
    routePacket node fuel s = some (forwardPacket node (s.d.touch (range' 24 16))) := by
  unfold routePacket
  dsimp only
  rw [if_pos (by simpa [not_or] using hforeign)]

theorem RouteClean.returns (hclean : RouteClean node s) (hbase : 40 ≤ s.d.uipLen)
    (hsafe : s.d.Safe) : ∃ r, Returns (fun fuel ↦ routePacket node fuel s) r ∧ r.2.Safe ∧
      r.2.uipLen = s.d.uipLen := by
  have htouched := (safe_touch_destipaddr hbase).mpr hsafe
  by_cases hmine : node.isMyAddr (destipaddr s.d.mem) = true ∨
      node.isMyMaddr (destipaddr s.d.mem) = true
  · simp only [routePacket_mine hmine]
    exact (hclean hmine).walk htouched hbase
  · simp only [routePacket_foreign hmine]
    exact ⟨_, returns_some _, forwardPacket_safe htouched hbase, forwardPacket_uipLen _⟩

theorem processHeaders_options (htype : d.mem 6 = uipProtoHbho) :
    processHeaders node fuel d = (extHdrOptionsProcess node fuel (d.touch [6])).bind fun result ↦
      match leaveOptions (frontBitmap node) result with
      | .goesOn s => routePacket node fuel s
      | .returns r => some r := by
  unfold processHeaders
  dsimp only
  rw [if_pos (show (d.touch [6]).mem 6 = uipProtoHbho from htype)]
  rfl

theorem processHeaders_route (htype : d.mem 6 ≠ uipProtoHbho) :
    processHeaders node fuel d = routePacket node fuel ⟨6, 0, d.touch [6]⟩ := by
  unfold processHeaders
  dsimp only
  rw [if_neg (show ¬ (d.touch [6]).mem 6 = uipProtoHbho from htype)]

theorem FrontClean.returns (hclean : FrontClean node d) (hbase : 40 ≤ d.uipLen)
    (hsafe : d.Safe) : ∃ r, Returns (fun fuel ↦ processHeaders node fuel d) r ∧ r.2.Safe ∧
      r.2.uipLen = d.uipLen := by
  have hproto : (d.touch [6]).Safe := safe_touch_one.mpr ⟨hsafe, by omega⟩
  unfold FrontClean at hclean
  by_cases htype : d.mem 6 = uipProtoHbho
  · rw [if_pos htype] at hclean
    obtain ⟨k, hends, hinside, hroute⟩ := hclean
    have hresult := optionsResult_safe (d := d.touch [6]) hbase hproto hinside
    obtain ⟨hlen, hext⟩ := optionsResult_lengths node k (d.touch [6])
    have hoptions := returns_options node (d := d.touch [6]) hends
    simp only [processHeaders_options htype]
    cases hleave : leaveOptions (frontBitmap node) (optionsResult node k (d.touch [6])) with
    | goesOn s =>
      have hs := leaveOptions_goesOn hleave
      have hslen : s.d.uipLen = d.uipLen := by
        rw [hs]
        exact hlen
      have hssafe : s.d.Safe := by
        rw [hs]
        refine passHeader_safe.mpr ⟨hresult, ?_⟩
        rw [hlen, hext]
        have hlength : d.uipExtLen + 42 ≤ d.uipLen := hinside.1
        change 41 + d.uipExtLen < d.uipLen
        omega
      obtain ⟨r, hreturns, hr, hrlen⟩ :=
        (hroute s hleave).returns (hbase.trans_eq hslen.symm) hssafe
      refine ⟨r, hoptions.bind_iff.mpr ?_, hr, hrlen.trans hslen⟩
      rw [hleave]
      exact hreturns
    | returns r =>
      refine ⟨r, hoptions.bind_iff.mpr ?_, ?_⟩
      · rw [hleave]
        exact returns_some r
      · rw [leaveOptions_returns hleave]
        exact ⟨hresult, hlen⟩
  · rw [if_neg htype] at hclean
    simp only [processHeaders_route htype]
    exact hclean.returns hbase hproto

theorem lengthRead_safe (hread : 6 ≤ n) :
    (((received mem n).touch [0]).touch [4, 5]).Safe := by
  rw [safe_touch_pair, safe_touch_one, and_iff_right (received_safe mem n)]
  change 0 < n ∧ 4 < n ∧ 5 < n
  omega

theorem PacketClean.returns (hclean : PacketClean node mem n) (hn : n ≤ uipBufsize) :
    ∃ r, Returns (fun fuel ↦ walkPacket node fuel mem n) r ∧ r.2.Safe ∧ r.2.uipLen ≤ n ∧
      ((∃ option, r.1 = .error option) → 40 ≤ r.2.uipLen) := by
  have hbuffer : n ≤ 1280 := hn
  obtain ⟨hfirst, hrest⟩ := hclean
  have hzero : ((received mem n).touch [0]).Safe :=
    safe_touch_one.mpr ⟨received_safe mem n, hfirst⟩
  by_cases hversion : mem 0 &&& 0xf0 = 0x60
  · obtain ⟨hread, hrest⟩ := hrest hversion
    by_cases hfits : lengthField mem ≤ n
    · obtain ⟨hroom, hfront⟩ := hrest hfits
      have hmod : (lengthField mem + 40) % 65536 = lengthField mem + 40 :=
        Nat.mod_eq_of_lt (by omega)
      have hsafe : ((lengthChecked mem n).touch [8]).Safe := by
        refine safe_touch_one.mpr ⟨lengthRead_safe hread, ?_⟩
        change 8 < lengthField mem + 40
        omega
      cases hmcast : isAddrMcast (srcipaddr mem) with
      | true =>
        have hwalk : ∀ fuel, walkPacket node fuel mem n =
            some (.drop, (lengthChecked mem n).touch [8]) := by
          intro fuel
          simp [walkPacket, lengthChecked, received, hversion, hfits, hmcast, hmod, touch]
        simp only [hwalk]
        exact ⟨_, returns_some _, hsafe, hroom, by simp⟩
      | false =>
        have hwalk : ∀ fuel, walkPacket node fuel mem n =
            processHeaders node fuel ((lengthChecked mem n).touch [8]) := by
          intro fuel
          simp [walkPacket, lengthChecked, received, hversion, hfits, hmcast, hmod, touch]
        simp only [hwalk]
        have hbase : 40 ≤ ((lengthChecked mem n).touch [8]).uipLen := Nat.le_add_left 40 _
        obtain ⟨r, hreturns, hr, hrlen⟩ := (hfront hmcast).returns hbase hsafe
        exact ⟨r, hreturns, hr, hrlen.trans_le hroom, fun _ ↦ hbase.trans_eq hrlen.symm⟩
    · have hwalk : ∀ fuel, walkPacket node fuel mem n =
          some (.drop, ((received mem n).touch [0]).touch [4, 5]) := by
        intro fuel
        simp [walkPacket, received, hversion, hfits, touch]
      simp only [hwalk]
      exact ⟨_, returns_some _, lengthRead_safe hread, le_rfl, by simp⟩
  · have hwalk : ∀ fuel, walkPacket node fuel mem n =
        some (.drop, (received mem n).touch [0]) := by
      intro fuel
      unfold walkPacket
      exact if_pos hversion
    simp only [hwalk]
    exact ⟨_, returns_some _, hzero, le_rfl, by simp⟩

/-- The offset of the next header byte that says whether a packet is for ICMPv6. -/
def protoOffset (d : Datagram) : ℕ := if d.uipExtLen = 0 then 6 else 40 + d.uipExtLen

/-- What an error on a packet looks at is inside: the bytes that tell whether the packet is an
ICMPv6 error, and the headers that are removed. The headers that stay are part of what is left of
the packet, whatever was looked at before the removal. -/
structure AnswersClean (d : Datagram) : Prop where
  proto : protoOffset d < d.uipLen
  type : d.mem (protoOffset d) = uipProtoIcmp6 → 40 + d.uipExtLen < d.uipLen
  removal : CleanRemove d.mem d.uipLen 6 0
  stay : ∀ touched fuel r, rplExtHeaderRemove fuel (d.touch touched) = some r → r.uipExtLen ≤ r.uipLen

variable {option : Bool}

variable (option) in
theorem errorMessage_bounds (hsafe : d.Safe) (hbase : 40 ≤ d.uipLen) (hn : d.uipLen ≤ uipBufsize)
    (hstay : d.uipExtLen ≤ d.uipLen) (hbyte : d.uipExtLen < 256) :
    (errorMessage option d).Safe ∧ (errorMessage option d).uipLen ≤ min (d.uipLen + 48) 1280 := by
  have hbuffer : d.uipLen ≤ 1280 := hn
  have hmod : (d.uipLen + 48) % 65536 = d.uipLen + 48 := Nat.mod_eq_of_lt (by omega)
  have hroom : ¬ min (d.uipLen + 48) 1280 < 48 + d.uipExtLen := by omega
  set u : Datagram := { d.touch (range' 24 16) with
    wrapped := d.wrapped || decide (min (d.uipLen + 48) 1280 < 48 + d.uipExtLen) } with hu
  have husafe : u.Safe := by
    obtain ⟨hinside, hwrapped⟩ := (safe_touch_destipaddr hbase).mpr hsafe
    refine ⟨hinside, ?_⟩
    change (d.wrapped || decide (min (d.uipLen + 48) 1280 < 48 + d.uipExtLen)) = false
    rw [decide_eq_false hroom, Bool.or_false]
    exact hwrapped
  have hquoted : (u.touch (range' 0 (min (d.uipLen + 48) 1280 - 48 - d.uipExtLen) ++
      range' 8 16)).Safe := by
    rw [safe_touch, forall_mem_append, forall_mem_range'_lt, forall_mem_range'_lt]
    refine ⟨husafe, Or.inr ?_, Or.inr ?_⟩
    · change 0 + (min (d.uipLen + 48) 1280 - 48 - d.uipExtLen) ≤ d.uipLen
      omega
    · change 8 + 16 ≤ d.uipLen
      omega
  unfold errorMessage
  simp only [uipLen_touch, uipExtLen_touch, hmod]
  split
  · exact ⟨hquoted, Nat.zero_le _⟩
  · exact ⟨hquoted, le_rfl⟩

theorem AnswersClean.output (hanswers : AnswersClean d) (option : Bool) (hsafe : d.Safe)
    (hbase : 40 ≤ d.uipLen) (hn : d.uipLen ≤ uipBufsize) :
    ∃ r, Returns (fun fuel ↦ uipIcmp6ErrorOutput fuel option d) r ∧ r.Safe ∧
      r.uipLen ≤ min (d.uipLen + 48) 1280 := by
  have hlen : d.uipLen < 65536 := hn.trans_lt (by decide)
  -- what is looked at before the removal changes neither the contents nor the lengths
  have hremoved : ∀ l, (d.touch l).Safe → ∃ r, Returns (fun fuel ↦
      (rplExtHeaderRemove fuel (d.touch l)).map (errorMessage option)) r ∧ r.Safe ∧
        r.uipLen ≤ min (d.uipLen + 48) 1280 := by
    intro l hl
    obtain ⟨r, hreturns, hr, hrbase, hrlen, hrbyte⟩ :=
      (show CleanRemove (d.touch l).mem (d.touch l).uipLen 6 0 from hanswers.removal).returns hl
        hbase hlen
    have hrn : r.uipLen ≤ d.uipLen := hrlen
    have hstay : r.uipExtLen ≤ r.uipLen := by
      obtain ⟨bound, hbound⟩ := hreturns
      exact hanswers.stay l bound r (hbound bound le_rfl)
    obtain ⟨hmessage, hmlen⟩ :=
      errorMessage_bounds option hr hrbase (hrn.trans hn) hstay hrbyte
    exact ⟨_, hreturns.map _, hmessage, by omega⟩
  have hproto : (d.touch [protoOffset d]).Safe := safe_touch_one.mpr ⟨hsafe, hanswers.proto⟩
  unfold uipIcmp6ErrorOutput
  dsimp only
  rw [← protoOffset, touch_touch, mem_touch, mem_touch, uipExtLen_touch]
  by_cases hicmp : d.mem (protoOffset d) = uipProtoIcmp6
  · have htype : (d.touch ([protoOffset d] ++ [40 + d.uipExtLen])).Safe := by
      rw [← touch_touch, safe_touch_one]
      exact ⟨hproto, hanswers.type hicmp⟩
    simp only [hicmp, if_true]
    split
    · exact ⟨_, returns_some _, htype, Nat.zero_le _⟩
    · exact hremoved _ htype
  · simp only [hicmp, if_false]
    exact hremoved _ hproto

end Headers

/-- A root whose only address has 16 equal bytes. -/
def rootNode : IpNode :=
  { rpl := rootContext, isMyAddr := fun a ↦ (finRange 16).all fun j ↦ a j == 0xfd,
    isMyMaddr := fun _ ↦ false, isAddrOnlink := fun _ ↦ false, ipv6Checks := true, tcp := true,
    udp := true }

end ContikiMaster.Ipv6
