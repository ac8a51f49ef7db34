import ContikiMaster.Rpl.ExtHeader

/-!
# Bounds of the RPL extension headers

None of the functions compares a length with `uip_len`. The chain of the extension
headers, read with the sums in 8 bits that the functions use, tells exactly when they
end and stay inside the datagram.
-/

namespace ContikiMaster.Rpl

open Lib List Option Datagram

variable {ctx : RplContext} {mem : ℕ → UInt8} {d : Datagram} {n k fuel next extLen optOffset : ℕ}

namespace Datagram

variable {offsets : List ℕ} {bytes : List UInt8} {offset : ℕ}

@[simp]
theorem inside_touch : (d.touch offsets).inside = true ↔
    d.inside = true ∧ ∀ o ∈ offsets, o < d.uipLen := by
  simp [touch]

@[simp] theorem mem_touch : (d.touch offsets).mem = d.mem := rfl

@[simp] theorem uipLen_touch : (d.touch offsets).uipLen = d.uipLen := rfl

@[simp] theorem uipExtLen_touch : (d.touch offsets).uipExtLen = d.uipExtLen := rfl

@[simp] theorem wrapped_touch : (d.touch offsets).wrapped = d.wrapped := rfl

/-- Only bytes of the datagram were touched, and no length went below 0. -/
def Safe (d : Datagram) : Prop := d.inside = true ∧ d.wrapped = false

theorem received_safe (mem : ℕ → UInt8) (n : ℕ) : (received mem n).Safe := ⟨rfl, rfl⟩

theorem safe_touch : (d.touch offsets).Safe ↔ d.Safe ∧ ∀ o ∈ offsets, o < d.uipLen := by
  rw [Safe, inside_touch, wrapped_touch, Safe, and_right_comm]

@[simp]
theorem safe_write : (d.write offset bytes).Safe ↔ d.Safe := Iff.rfl

@[simp]
theorem safe_withExtLen : (d.withExtLen extLen).Safe ↔ d.Safe := Iff.rfl

end Datagram

theorem forall_mem_range'_lt {p size : ℕ} :
    (∀ o ∈ range' p size, o < n) ↔ size = 0 ∨ p + size ≤ n := by
  constructor
  · intro hall
    by_cases hzero : size = 0
    · exact Or.inl hzero
    · have hlast := hall (p + size - 1) (mem_range'_1.mpr ⟨by omega, by omega⟩)
      exact Or.inr (by omega)
  · rintro hfits o ho
    obtain ⟨hle, hlt⟩ := mem_range'_1.mp ho
    omega

variable (mem) in
/-- `uip_ext_len` behind `k` extension headers. -/
def extLenAt : ℕ → ℕ
  | 0 => 0
  | k + 1 => nextExtLen mem (extLenAt k)

variable (mem) in
/-- `uip_next_hdr` behind `k` extension headers. -/
def nextHdrAt : ℕ → ℕ
  | 0 => 6
  | k + 1 => 40 + extLenAt mem k

variable (mem) in
/-- The type of what follows `k` extension headers. -/
def headerType (k : ℕ) : UInt8 := mem (nextHdrAt mem k)

variable (mem) in
/-- The chain of hop-by-hop and destination options headers has `k` members. -/
def EndsAt (k : ℕ) : Prop :=
  (∀ j < k, isOptionsHeader (headerType mem j) = true) ∧ isOptionsHeader (headerType mem k) = false

variable (mem n) in
/-- The first two bytes of `k` extension headers are inside the datagram. -/
def HeadersInside (k : ℕ) : Prop := ∀ j < k, extLenAt mem j + 42 ≤ n

variable (mem) in
def touchedAt : ℕ → List ℕ
  | 0 => []
  | k + 1 => touchedAt k ++ [nextHdrAt mem k, 41 + extLenAt mem k]

variable (mem) in
/-- What the look for a routing header comes to behind `k` options headers. -/
def foundAt (k : ℕ) : Found :=
  ⟨headerType mem k = uipProtoRouting, extLenAt mem k, touchedAt mem k ++ [nextHdrAt mem k]⟩

variable (mem) in
theorem searchTurn_at (k : ℕ) : searchTurn mem ⟨nextHdrAt mem k, extLenAt mem k, touchedAt mem k⟩ =
      if isOptionsHeader (headerType mem k) = true then
        .goesOn ⟨nextHdrAt mem (k + 1), extLenAt mem (k + 1), touchedAt mem (k + 1)⟩
      else .returns (foundAt mem k) := by
  unfold searchTurn foundAt
  change (if headerType mem k = _ then _ else if isOptionsHeader (headerType mem k) = true then _
    else _) = _
  by_cases hrouting : headerType mem k = uipProtoRouting
  · rw [if_pos hrouting, hrouting, if_neg (by decide)]
    simp
  · rw [if_neg hrouting]
    by_cases hoptions : isOptionsHeader (headerType mem k) = true
    · rw [if_pos hoptions, if_pos hoptions]
      rfl
    · rw [if_neg hoptions, if_neg hoptions]
      simp [hrouting]

theorem searchRoutingHeader_eq_some_iff {found : Found} :
    searchRoutingHeader mem fuel = some found ↔
      ∃ k, k < fuel ∧ EndsAt mem k ∧ found = foundAt mem k := by
  refine (loop_eq_some_iff_of_sequence (searchTurn_at mem) 0).trans ?_
  simp only [Nat.zero_add, EndsAt, and_assoc, Bool.not_eq_true]

theorem EndsAt.unique {j : ℕ} (hj : EndsAt mem j) (hk : EndsAt mem k) : j = k := by
  rcases Nat.lt_trichotomy j k with hlt | heq | hgt
  · exact absurd (hk.1 j hlt) (by rw [hj.2]; decide)
  · exact heq
  · exact absurd (hj.1 k hgt) (by rw [hk.2]; decide)

theorem exists_search_iff {α : Type} {f : Found → α} {P : α → Prop} :
    (∃ fuel r, (searchRoutingHeader mem fuel).map f = some r ∧ P r) ↔
      ∃ k, EndsAt mem k ∧ P (f (foundAt mem k)) := by
  constructor
  · rintro ⟨fuel, r, hmap, hP⟩
    obtain ⟨found, hsearch, rfl⟩ := map_eq_some_iff.mp hmap
    obtain ⟨k, -, hends, rfl⟩ := searchRoutingHeader_eq_some_iff.mp hsearch
    exact ⟨k, hends, hP⟩
  · rintro ⟨k, hends, hP⟩
    have hsearch := searchRoutingHeader_eq_some_iff.mpr ⟨k, Nat.lt_succ_self k, hends, rfl⟩
    exact ⟨k + 1, _, by rw [hsearch, map_some], hP⟩

theorem touchedAt_inside (hbase : 40 ≤ n) :
    (∀ o ∈ touchedAt mem k ++ [nextHdrAt mem k], o < n) ↔ HeadersInside mem n k := by
  induction k with
  | zero =>
    have hproto : 6 < n := by omega
    simp [touchedAt, nextHdrAt, HeadersInside, hproto]
  | succ k ih =>
    have hsplit : HeadersInside mem n (k + 1) ↔
        HeadersInside mem n k ∧ extLenAt mem k + 42 ≤ n := by
      unfold HeadersInside
      constructor
      · intro hall
        exact ⟨fun j hj ↦ hall j (Nat.lt_succ_of_lt hj), hall k (Nat.lt_succ_self k)⟩
      · rintro ⟨hall, hlast⟩ j hj
        rcases Nat.lt_succ_iff_lt_or_eq.mp hj with hlt | rfl
        · exact hall j hlt
        · exact hlast
    rw [hsplit, ← ih, touchedAt]
    simp only [nextHdrAt, forall_mem_append, forall_mem_cons, not_mem_nil,
      false_imp_iff, implies_true, and_true, and_assoc]
    refine and_congr_right fun _ ↦ and_congr_right fun _ ↦ ?_
    omega

variable (ctx mem n) in
/-- The options headers are inside, and for a destination in the DAG the type of the routing header
behind them is, too. -/
def CleanNextHop : Prop :=
  ∃ k, EndsAt mem k ∧ HeadersInside mem n k ∧
    (rplIsAddrInOurDag ctx (destipaddr mem) = true → headerType mem k = uipProtoRouting →
      extLenAt mem k + 43 ≤ n)

/-- The number of addresses that a source routing header contains. -/
def SrhFields.addresses (f : SrhFields) : ℕ :=
  if f.headerLen < 8 + f.padding + (16 - f.cmpre) then 0
  else (f.headerLen - 8 - f.padding - (16 - f.cmpre)) / (16 - f.cmpri) + 1

variable (mem n) in
/-- The source routing header behind `extLen` bytes has its fixed part inside the datagram. While
there are segments left it contains as many addresses, and the next one is inside the datagram. -/
def CleanSegments (extLen : ℕ) : Prop :=
  let f := srhFields mem extLen
  extLen + 46 ≤ n ∧ (f.segmentsLeft ≠ 0 →
    f.segmentsLeft ≤ f.addresses ∧ f.addrPtr extLen + (16 - f.cmpr) ≤ n)

variable (mem n) in
/-- The options headers are inside, and so is what is looked at of a routing header behind them. -/
def CleanSrh : Prop :=
  ∃ k, EndsAt mem k ∧ HeadersInside mem n k ∧ (headerType mem k = uipProtoRouting →
    extLenAt mem k + 43 ≤ n ∧
      (mem (42 + extLenAt mem k) = rplRhTypeSrh → CleanSegments mem n (extLenAt mem k)))

variable (ctx mem n) in
/-- The RPL option at an offset is inside as far as it is looked at. -/
def CleanHbh (extLen optOffset : ℕ) : Prop :=
  let opt := 40 + extLen + optOffset
  opt + 2 ≤ n ∧ extLen + 42 ≤ n ∧
    (mem (41 + extLen) = 0 → mem opt = uipExtHdrOptRpl → mem (opt + 1) = rplHdrOptLen →
      ctx.used = true → opt + 4 ≤ n ∧
        (ctx.instanceId = mem (opt + 3) → mem (opt + 2) &&& rplHdrOptFwdErr = 0 → opt + 6 ≤ n))

theorem received_touch_search (hbase : 40 ≤ n) :
    ((received mem n).touch (foundAt mem k).touched).Safe ↔ HeadersInside mem n k := by
  rw [safe_touch, and_iff_right (received_safe mem n)]
  exact touchedAt_inside hbase

theorem safe_touch_destipaddr (hbase : 40 ≤ d.uipLen) : (d.touch (range' 24 16)).Safe ↔ d.Safe := by
  rw [safe_touch, forall_mem_range'_lt]
  exact and_iff_left (Or.inr hbase)

variable (ctx) in
theorem nextHopOf_safe (found : Found) (hbase : 40 ≤ d.uipLen) :
    (nextHopOf ctx d found).2.Safe ↔ (d.touch found.touched).Safe ∧
      (rplIsAddrInOurDag ctx (destipaddr d.mem) = true → found.routing = true →
        found.extLen + 43 ≤ d.uipLen) := by
  have hdest : ((d.touch found.touched).touch (range' 24 16)).Safe ↔
      (d.touch found.touched).Safe := safe_touch_destipaddr hbase
  by_cases hdag : rplIsAddrInOurDag ctx (destipaddr d.mem) = true
  · by_cases hrouting : found.routing = true
    · have htype : (((d.touch found.touched).touch (range' 24 16)).touch
          [42 + found.extLen]).Safe ↔ (d.touch found.touched).Safe ∧
            found.extLen + 43 ≤ d.uipLen := by
        rw [safe_touch, hdest, forall_mem_singleton]
        refine and_congr_right fun _ ↦ ?_
        change 42 + found.extLen < d.uipLen ↔ _
        omega
      have hcases : (nextHopOf ctx d found).2 =
          ((d.touch found.touched).touch (range' 24 16)).touch [42 + found.extLen] := by
        simp only [nextHopOf, mem_touch, hdag, hrouting, Bool.not_true,
          Bool.false_eq_true, if_false, if_true]
        split <;> rfl
      rw [hcases, htype]
      simp [hdag, hrouting]
    · have hcases : (nextHopOf ctx d found).2 =
          (d.touch found.touched).touch (range' 24 16) := by
        simp only [nextHopOf, mem_touch, hdag, hrouting, Bool.not_true,
          Bool.false_eq_true, if_false]
        split <;> rfl
      rw [hcases, hdest]
      simp [hrouting]
  · have hcases : (nextHopOf ctx d found).2 =
        ((d.touch found.touched).touch (range' 24 16)).withExtLen found.extLen := by
      simp [nextHopOf, hdag]
    rw [hcases, safe_withExtLen, hdest]
    simp [hdag]

theorem routing_foundAt : (foundAt mem k).routing = true ↔ headerType mem k = uipProtoRouting := by
  simp [foundAt]

variable (ctx mem) in
/-- The look for the next hop is safe exactly if the headers are clean. -/
theorem getNextHop_safe_iff (hbase : 40 ≤ n) :
    (∃ fuel r, rplExtHeaderSrhGetNextHop ctx fuel (.received mem n) = some r ∧ r.2.Safe) ↔
      CleanNextHop ctx mem n := by
  refine exists_search_iff.trans (exists_congr fun k ↦ and_congr_right fun hends ↦ ?_)
  refine (nextHopOf_safe ctx (foundAt mem k) hbase).trans ?_
  rw [routing_foundAt]
  exact and_congr_left fun _ ↦ received_touch_search hbase

variable (mem) in
/-- A source routing header is accepted only if it contains as many addresses as there are segments
left. -/
def AcceptsFit (accepted : Bool) : Prop :=
  accepted = true → ∀ k, EndsAt mem k → headerType mem k = uipProtoRouting →
    (srhFields mem (extLenAt mem k)).segmentsLeft ≤ (srhFields mem (extLenAt mem k)).addresses

theorem srhFields_cmpri_lt (mem : ℕ → UInt8) (extLen : ℕ) :
    (srhFields mem extLen).cmpri < 16 ∧ (srhFields mem extLen).cmpre < 16 := by
  have hlt := (mem (44 + extLen)).toNat_lt
  constructor
  · change (mem (44 + extLen) >>> 4).toNat < 16
    rw [UInt8.toNat_shiftRight]
    change (mem (44 + extLen)).toNat >>> 4 < 16
    rw [Nat.shiftRight_eq_div_pow]
    omega
  · change (mem (44 + extLen) &&& 0x0f).toNat < 16
    rw [UInt8.toNat_and]
    exact Nat.lt_succ_of_le Nat.and_le_right

theorem swapAddress_safe (d : Datagram) (extLen : ℕ) {f : SrhFields} (hbase : 40 ≤ d.uipLen)
    (hcmpr : f.cmpr < 16) : (swapAddress f extLen d).Safe ↔
      d.Safe ∧ f.addrPtr extLen + (16 - f.cmpr) ≤ d.uipLen := by
  unfold swapAddress
  dsimp only
  rw [safe_write, safe_write, safe_write, safe_touch,
    forall_mem_append, forall_mem_range'_lt, forall_mem_range'_lt]
  refine and_congr_right fun _ ↦ ?_
  omega

variable (mem n) in
/-- The source routing header behind `extLen` bytes has its fixed part inside the datagram, and
while there are segments left the next address, too. -/
def CleanSwap (extLen : ℕ) : Prop :=
  let f := srhFields mem extLen
  extLen + 46 ≤ n ∧ (f.segmentsLeft ≠ 0 → f.addrPtr extLen + (16 - f.cmpr) ≤ n)

theorem updateFound_inside (hbase : 40 ≤ d.uipLen) (found : Found) : (updateFound d found).2.Safe ↔
      (d.touch found.touched).Safe ∧ (found.routing = true → found.extLen + 43 ≤ d.uipLen ∧
        (d.mem (42 + found.extLen) = rplRhTypeSrh → CleanSwap d.mem d.uipLen found.extLen)) := by
  unfold CleanSwap
  dsimp only
  by_cases hrouting : found.routing = true
  · have htype : ((d.touch found.touched).touch [42 + found.extLen]).Safe ↔
        (d.touch found.touched).Safe ∧ found.extLen + 43 ≤ d.uipLen := by
      rw [safe_touch, forall_mem_singleton]
      refine and_congr_right fun _ ↦ ?_
      change 42 + found.extLen < d.uipLen ↔ _
      omega
    by_cases hsrh : d.mem (42 + found.extLen) = rplRhTypeSrh
    · have hfixed : (((d.touch found.touched).touch [42 + found.extLen]).touch
          [43 + found.extLen, 41 + found.extLen, 44 + found.extLen, 45 + found.extLen]).Safe ↔
            (d.touch found.touched).Safe ∧ found.extLen + 46 ≤ d.uipLen := by
        rw [safe_touch, htype, and_assoc]
        simp only [forall_mem_cons, not_mem_nil, false_imp_iff, implies_true, and_true]
        refine and_congr_right fun _ ↦ ?_
        change _ ∧ 43 + found.extLen < d.uipLen ∧ 41 + found.extLen < d.uipLen ∧
          44 + found.extLen < d.uipLen ∧ 45 + found.extLen < d.uipLen ↔ _
        omega
      by_cases hdone : (srhFields d.mem found.extLen).segmentsLeft = 0
      · have hcases : updateFound d found = (true, ((d.touch found.touched).touch
            [42 + found.extLen]).touch
            [43 + found.extLen, 41 + found.extLen, 44 + found.extLen, 45 + found.extLen]) := by
          simp [updateFound, hrouting, hsrh, hdone]
        rw [hcases, hfixed]
        simp only [hrouting, hsrh, hdone, forall_const, ne_eq, not_true_eq_false, false_imp_iff,
          and_true]
        refine and_congr_right fun _ ↦ ?_
        omega
      · have hcases : updateFound d found = (true, swapAddress (srhFields d.mem found.extLen)
            found.extLen (((d.touch found.touched).touch [42 + found.extLen]).touch
            [43 + found.extLen, 41 + found.extLen, 44 + found.extLen, 45 + found.extLen])) := by
          simp [updateFound, hrouting, hsrh, hdone]
        obtain ⟨hcmpri, hcmpre⟩ := srhFields_cmpri_lt d.mem found.extLen
        have hcmpr : (srhFields d.mem found.extLen).cmpr < 16 := by
          unfold SrhFields.cmpr
          split_ifs <;> assumption
        rw [hcases, swapAddress_safe _ _ (by exact hbase) hcmpr, hfixed]
        simp only [hrouting, hsrh, hdone, forall_const, ne_eq, not_false_eq_true,
          uipLen_touch, and_assoc]
        refine and_congr_right fun _ ↦ ?_
        omega
    · have hcases : updateFound d found =
          (false, (d.touch found.touched).touch [42 + found.extLen]) := by
        simp [updateFound, hrouting, hsrh]
      rw [hcases, htype]
      simp [hrouting, hsrh]
  · have hcases : updateFound d found = (false, d.touch found.touched) := by
      simp [updateFound, hrouting]
    rw [hcases]
    simp [hrouting]

theorem updateFound_accepts (d : Datagram) (found : Found) : (updateFound d found).1 = true ↔
      found.routing = true ∧ d.mem (42 + found.extLen) = rplRhTypeSrh := by
  unfold updateFound
  dsimp only
  by_cases hrouting : found.routing = true
  · by_cases hsrh : d.mem (42 + found.extLen) = rplRhTypeSrh
    · simp only [hrouting, mem_touch, hsrh, Bool.not_true, Bool.false_eq_true, if_false,
        ne_eq, not_true_eq_false]
      by_cases hdone : (srhFields d.mem found.extLen).segmentsLeft = 0
      · simp [hdone]
      · simp [hdone]
    · simp [hrouting, hsrh]
  · simp [hrouting]

theorem updateFound_safe (hbase : 40 ≤ d.uipLen) (found : Found) :
    (updateFound d found).2.Safe ∧ ((updateFound d found).1 = true → found.routing = true →
        (srhFields d.mem found.extLen).segmentsLeft ≤ (srhFields d.mem found.extLen).addresses) ↔
      (d.touch found.touched).Safe ∧ (found.routing = true → found.extLen + 43 ≤ d.uipLen ∧
        (d.mem (42 + found.extLen) = rplRhTypeSrh → CleanSegments d.mem d.uipLen found.extLen)) := by
  rw [updateFound_inside hbase found, updateFound_accepts, and_assoc]
  refine and_congr_right fun _ ↦ ?_
  unfold CleanSegments CleanSwap
  dsimp only
  by_cases hrouting : found.routing = true
  · simp only [hrouting, true_and, forall_const, and_assoc]
    refine and_congr_right fun _ ↦ ?_
    by_cases hsrh : d.mem (42 + found.extLen) = rplRhTypeSrh
    · simp only [hsrh, forall_const]
      by_cases hdone : (srhFields d.mem found.extLen).segmentsLeft = 0
      · simp [hdone]
      · simp only [hdone, ne_eq, not_false_eq_true, forall_const]
        rw [and_assoc, and_comm (b := _ ≤ d.uipLen)]
    · simp [hsrh]
  · simp [hrouting]

variable (mem) in
/-- The update of a source routing header is safe exactly if the headers are clean. -/
theorem srhUpdate_safe_iff (hbase : 40 ≤ n) :
    (∃ fuel r, rplExtHeaderSrhUpdate fuel (.received mem n) = some r ∧ r.2.Safe ∧
        AcceptsFit mem r.1) ↔ CleanSrh mem n := by
  refine exists_search_iff.trans (exists_congr fun k ↦ and_congr_right fun hends ↦ ?_)
  have hfits : ∀ accepted : Bool, AcceptsFit mem accepted ↔
      (accepted = true → (foundAt mem k).routing = true →
        (srhFields mem (extLenAt mem k)).segmentsLeft ≤
          (srhFields mem (extLenAt mem k)).addresses) := by
    intro accepted
    refine imp_congr_right fun _ ↦ ?_
    rw [routing_foundAt]
    constructor
    · intro hall hrouting
      exact hall k hends hrouting
    · intro hk j hj hrouting
      rw [hj.unique hends] at hrouting ⊢
      exact hk hrouting
  rw [hfits]
  refine (updateFound_safe hbase (foundAt mem k)).trans ?_
  rw [routing_foundAt]
  exact and_congr_left fun _ ↦ received_touch_search hbase

variable (ctx d optOffset) in
/-- The update of a hop-by-hop option is safe exactly if the option is inside. -/
theorem hbhUpdate_safe_iff : (rplExtHeaderHbhUpdate ctx optOffset d).2.Safe ↔
      d.Safe ∧ CleanHbh ctx d.mem d.uipLen d.uipExtLen optOffset := by
  unfold CleanHbh
  generalize hopt : 40 + d.uipExtLen + optOffset = opt
  have hsizes : (d.touch [opt, opt + 1, 41 + d.uipExtLen]).Safe ↔
      d.Safe ∧ opt + 2 ≤ d.uipLen ∧ d.uipExtLen + 42 ≤ d.uipLen := by
    rw [safe_touch]
    simp only [forall_mem_cons, not_mem_nil, false_imp_iff, implies_true, and_true]
    refine and_congr_right fun _ ↦ ?_
    omega
  by_cases hsized : d.mem (41 + d.uipExtLen) ≠ 0 ∨ d.mem opt ≠ uipExtHdrOptRpl ∨
      d.mem (opt + 1) ≠ rplHdrOptLen
  · have hcases : (rplExtHeaderHbhUpdate ctx optOffset d).2 =
        d.touch [opt, opt + 1, 41 + d.uipExtLen] := by
      simp only [rplExtHeaderHbhUpdate, hopt, mem_touch, uipExtLen_touch]
      rw [if_pos hsized]
    rw [hcases, hsizes]
    refine and_congr_right fun _ ↦ and_congr_right fun _ ↦ (and_iff_left ?_).symm
    intro hlen htype hoptLen
    simp [hlen, htype, hoptLen] at hsized
  have hsized' : d.mem (41 + d.uipExtLen) = 0 ∧ d.mem opt = uipExtHdrOptRpl ∧
      d.mem (opt + 1) = rplHdrOptLen := by
    push Not at hsized
    exact hsized
  by_cases hused : ctx.used = true
  · have hinstance : ((d.touch [opt, opt + 1, 41 + d.uipExtLen]).touch [opt + 3]).Safe ↔
        d.Safe ∧ opt + 4 ≤ d.uipLen ∧ d.uipExtLen + 42 ≤ d.uipLen := by
      rw [safe_touch, hsizes, forall_mem_singleton, and_assoc]
      refine and_congr_right fun _ ↦ ?_
      change _ ∧ opt + 3 < d.uipLen ↔ _
      omega
    have hflags : (((d.touch [opt, opt + 1, 41 + d.uipExtLen]).touch [opt + 3]).touch
        [opt + 2]).Safe ↔ d.Safe ∧ opt + 4 ≤ d.uipLen ∧ d.uipExtLen + 42 ≤ d.uipLen := by
      rw [safe_touch, hinstance, forall_mem_singleton, and_assoc]
      refine and_congr_right fun _ ↦ ?_
      change _ ∧ opt + 2 < d.uipLen ↔ _
      omega
    by_cases hsame : ctx.instanceId = d.mem (opt + 3)
    · by_cases herr : d.mem (opt + 2) &&& rplHdrOptFwdErr = 0
      · have hcases : (rplExtHeaderHbhUpdate ctx optOffset d).2.Safe ↔
            ((((d.touch [opt, opt + 1, 41 + d.uipExtLen]).touch [opt + 3]).touch
              [opt + 2]).touch [opt + 4, opt + 5]).Safe := by
          simp only [rplExtHeaderHbhUpdate, hopt, mem_touch, uipExtLen_touch]
          rw [if_neg hsized, if_neg (by simp [hused]), if_neg (not_not.mpr hsame),
            if_neg (not_not.mpr herr)]
          dsimp only
          split
          · rw [safe_write]
          · rfl
        rw [hcases, safe_touch, hflags, and_assoc]
        simp only [hsized', hused, hsame, herr, forall_const, forall_mem_cons,
          not_mem_nil, false_imp_iff, and_true]
        refine and_congr_right fun _ ↦ ?_
        change _ ∧ opt + 4 < d.uipLen ∧ opt + 5 < d.uipLen ↔ _
        omega
      · have hcases : (rplExtHeaderHbhUpdate ctx optOffset d).2 =
            ((d.touch [opt, opt + 1, 41 + d.uipExtLen]).touch [opt + 3]).touch [opt + 2] := by
          simp only [rplExtHeaderHbhUpdate, hopt, mem_touch, uipExtLen_touch]
          rw [if_neg hsized, if_neg (by simp [hused]), if_neg (not_not.mpr hsame), if_pos herr]
        rw [hcases, hflags]
        simp only [hsized', hused, hsame, herr, forall_const, false_imp_iff, and_true]
        refine and_congr_right fun _ ↦ ?_
        omega
    · have hcases : (rplExtHeaderHbhUpdate ctx optOffset d).2 =
          (d.touch [opt, opt + 1, 41 + d.uipExtLen]).touch [opt + 3] := by
        simp only [rplExtHeaderHbhUpdate, hopt, mem_touch, uipExtLen_touch]
        rw [if_neg hsized, if_neg (by simp [hused]), if_pos hsame]
      rw [hcases, hinstance]
      simp only [hsized', hused, hsame, forall_const, false_imp_iff, and_true]
      refine and_congr_right fun _ ↦ ?_
      omega
  · have hcases : (rplExtHeaderHbhUpdate ctx optOffset d).2 =
        d.touch [opt, opt + 1, 41 + d.uipExtLen] := by
      simp only [rplExtHeaderHbhUpdate, hopt, mem_touch, uipExtLen_touch]
      rw [if_neg hsized, if_pos (by simpa using hused)]
    rw [hcases, hsizes]
    simp [hused]

end ContikiMaster.Rpl
