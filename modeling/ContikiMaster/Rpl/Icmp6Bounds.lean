import ContikiMaster.Lib.Segments
import ContikiMaster.Rpl.Icmp6

/-!
# Bounds of the control message parsers

What each parser makes of a payload: it always returns, and a scan of the payload tells
exactly when it stays inside the payload and inside its message structure, and passes
on nothing but a complete base object followed by well-formed options.
-/

namespace ContikiMaster.Rpl

open Lib List Option

variable {α : Type} {mem : ℕ → UInt8} {n bufferLength fuel i len : ℕ} {ok : Bool}

variable (mem) in
/-- The metric container at an offset has a type that comes with an object. -/
def hasMetricObject (i : ℕ) : Bool := mem (i + 2) == rplDagMcEtx || mem (i + 2) == rplDagMcEnergy

variable (mem) in
/-- The option at an offset is long enough for the fields it consists of. -/
def validOption (i : ℕ) : Bool :=
  let len := optionLength mem i
  match RplOption.ofByte (mem i) with
  | some .dagMetricContainer => 6 ≤ len && (!hasMetricObject mem i || 8 ≤ len)
  | some .routeInfo => (mem (i + 2)).toNat ≤ 128 && prefixBytes (mem (i + 2)) + 8 ≤ len
  | some .dagConf => len = 16
  | some .target => 4 ≤ len && (mem (i + 3)).toNat ≤ 128 && prefixBytes (mem (i + 3)) + 4 ≤ len
  | some .transit => 6 ≤ len && (len < 20 || 22 ≤ len)
  | some .prefixInfo => len = 32
  | _ => true

variable (mem) in
/-- Valid options one behind the other, from an offset on up to the end of the payload. -/
def WellFormedOptions (n i : ℕ) : Prop := Tiled (optionLength mem) (validOption mem ·) n i

variable (mem n) in
/-- A DIO: a base object of 24 bytes and options. -/
def WellFormedDio : Prop := WellFormedOptions mem n 24

variable (mem n) in
/-- A DAO: a base object of four bytes, or of 20 with a DAG ID, and options. -/
def WellFormedDao : Prop :=
  4 ≤ n ∧ WellFormedOptions mem n (if hasDagId mem then 20 else 4)

variable (mem n) in
/-- A DAO-ACK: a base object of four bytes and options. -/
def WellFormedDaoAck : Prop := WellFormedOptions mem n 4

/-- Only bytes of the payload were read, and only bytes of the structure were written. -/
def Inside (n : ℕ) (touched : List ℕ) (copied : List Copy) : Prop :=
  (∀ o ∈ touched, o < n) ∧ ∀ c ∈ copied, c.size ≤ c.room

/-- The parser returns, stays inside, and passes on well-formed messages only. -/
def ParsedInside (n : ℕ) (wellFormed : Prop) (r : Option (Handled α)) : Prop :=
  ∃ h, r = some h ∧ Inside n h.touched h.copied ∧ (h.passed.isSome → wellFormed)

theorem parsedInside_some {wellFormed : Prop} {h : Handled α} : ParsedInside n wellFormed (some h) ↔
      Inside n h.touched h.copied ∧ (h.passed.isSome → wellFormed) := by
  constructor
  · rintro ⟨h', heq, hgood⟩
    obtain rfl := some.inj heq
    exact hgood
  · intro hgood
    exact ⟨h, rfl, hgood⟩

variable (mem) in
/-- The `switch` of `dio_input` takes the option at an offset. -/
def dioAccepts (i : ℕ) : Bool :=
  let len := optionLength mem i
  match RplOption.ofByte (mem i) with
  | some .dagMetricContainer => 6 ≤ len && (mem (i + 2) == rplDagMcNone || hasMetricObject mem i)
  | some .routeInfo =>
    9 ≤ len && prefixBytes (mem (i + 2)) + 8 ≤ len && (mem (i + 2)).toNat ≤ 128
  | some .dagConf => len = 16
  | some .prefixInfo => len = 32
  | _ => false

variable (mem) in
def isMetricObject (i : ℕ) : Bool :=
  RplOption.ofByte (mem i) = some .dagMetricContainer && hasMetricObject mem i

variable (mem n bufferLength) in
/-- A scan of the options of a DIO: the length byte of an option is there, and so is the object of a
metric container, and unless an option is refused all of them are valid and the bytes behind
`buffer_length` are valid options, too. -/
def cleanDioOptions : ℕ → ℕ → Bool → Prop
  | 0, _, _ => False
  | fuel + 1, i, ok =>
    if bufferLength ≤ i then ok = true ∧ WellFormedOptions mem n i
    else if mem i ≠ 0 ∧ n ≤ i + 1 then False
    else if bufferLength < optionLength mem i + i then True
    else if dioAccepts mem i = false then True
    else (isMetricObject mem i → i + 8 ≤ n) ∧
      cleanDioOptions fuel (i + optionLength mem i) (ok && validOption mem i)

variable (mem n) in
/-- The base object of a DIO is there, and the options are clean. -/
def CleanDio : Prop := 24 ≤ n ∧ cleanDioOptions mem n (n % 256) (n % 256 + 1) 24 true

variable (mem n) in
/-- A DAO has the byte that is looked at first; for the instance it has its base object, and for
the DAG well-formed options. -/
def CleanDao (inst : CurrInstance) : Prop :=
  1 ≤ n ∧ (knownInstance mem inst → 4 ≤ n ∧
    if hasDagId mem then 20 ≤ n ∧ (sameDagId mem inst → WellFormedOptions mem n 20)
    else WellFormedOptions mem n 4)

variable (mem n) in
/-- A DAO-ACK has its base object, and for the instance well-formed options. -/
def CleanDaoAck (inst : CurrInstance) : Prop :=
  4 ≤ n ∧ (knownInstance mem inst → WellFormedOptions mem n 4)

namespace Parsing

/-- The state has stayed inside so far. -/
def Inside (n : ℕ) (st : Parsing α) : Prop := Rpl.Inside n st.touched st.copied

variable {st : Parsing α} {offsets : List ℕ} {c : Copy}

@[simp]
theorem inside_touch : (st.touch offsets).Inside n ↔ st.Inside n ∧ ∀ o ∈ offsets, o < n := by
  unfold Parsing.Inside Rpl.Inside touch
  simp only [forall_mem_append]
  exact and_right_comm

@[simp]
theorem inside_copy : (st.copy c).Inside n ↔ st.Inside n ∧ c.size ≤ c.room := by
  unfold Parsing.Inside Rpl.Inside copy
  simp only [forall_mem_append, forall_mem_singleton, and_assoc]

@[simp]
theorem inside_withMessage {message : α} : (st.withMessage message).Inside n ↔ st.Inside n :=
  Iff.rfl

@[simp]
theorem inside_advance : (st.advance len).Inside n ↔ st.Inside n := Iff.rfl

@[simp]
theorem i_touch : (st.touch offsets).i = st.i := rfl

@[simp]
theorem i_advance : (st.advance len).i = st.i + len := rfl

end Parsing

theorem forall_mem_range' {p k : ℕ} (hle : p + k ≤ n) : ∀ o ∈ range' p k, o < n :=
  fun _ ho ↦ (mem_range'_1.mp ho).2.trans_le hle

theorem one_le_optionLength (mem : ℕ → UInt8) (i : ℕ) : 1 ≤ optionLength mem i := by
  unfold optionLength
  split_ifs <;> omega

variable (mem) in
/-- The length byte is there unless the payload ends behind the type. -/
theorem optionHeader_inside (hi : i < n) :
    (∀ o ∈ optionHeader mem i, o < n) ↔ ¬ (mem i ≠ 0 ∧ n ≤ i + 1) := by
  unfold optionHeader
  split_ifs with hpad
  · simp [hpad, hi]
  · simp [hpad, hi]

theorem optionHeader_inside_of_le (hfits : i + optionLength mem i ≤ n) :
    ∀ o ∈ optionHeader mem i, o < n := by
  unfold optionLength at hfits
  unfold optionHeader
  split_ifs at hfits ⊢ with hpad
  · intro o ho
    rw [mem_singleton.mp ho]
    omega
  · intro o ho
    rcases mem_pair.mp ho with rfl | rfl <;> omega

theorem wellFormedOptions_iff (hi : i < n) : WellFormedOptions mem n i ↔
      validOption mem i = true ∧ WellFormedOptions mem n (i + optionLength mem i) :=
  tiled_iff_of_lt hi

/-! ### Options of a DIO -/

variable {st : Parsing RplDio}

theorem discard_inside {st : Parsing α} : Inside n st.discard.touched st.discard.copied ↔ st.Inside n := Iff.rfl

theorem metricHeader_inside (hfits : i + 6 ≤ n) : ∀ o ∈ [i + 2, i + 3, i + 4, i + 5], o < n := by
  simp
  omega

variable (st) in
/-- An option that is refused ends the parsing, without reading behind the option. -/
theorem dioOption_refused (hrefused : dioAccepts mem st.i = false)
    (hfits : st.i + optionLength mem st.i ≤ n) :
    ∃ r, dioOption mem (optionLength mem st.i) st = .returns r ∧ r.passed = none ∧
      (Inside n r.touched r.copied ↔ st.Inside n) := by
  have hdiscard : ∃ r, Turn.returns st.discard = (.returns r : Turn (Parsing RplDio) _) ∧
      r.passed = none ∧ (Inside n r.touched r.copied ↔ st.Inside n) :=
    ⟨st.discard, rfl, rfl, Iff.rfl⟩
  unfold dioAccepts at hrefused
  unfold dioOption
  generalize hlen : optionLength mem st.i = len at hrefused hfits ⊢
  cases hoption : RplOption.ofByte (mem st.i) with
  | none => exact hdiscard
  | some o =>
    cases o with
    | dagMetricContainer =>
      simp only [hoption, Bool.and_eq_false_imp, decide_eq_true_eq, Bool.or_eq_false_iff,
        hasMetricObject, beq_eq_false_iff_ne] at hrefused
      dsimp only
      unfold dioMetricContainer
      dsimp only
      by_cases hshort : len < 6
      · rw [if_pos hshort]
        exact hdiscard
      · obtain ⟨hnone, hetx, henergy⟩ := hrefused (by omega)
        rw [if_neg hshort, if_neg hnone, if_neg hetx, if_neg henergy]
        refine ⟨_, rfl, rfl, ?_⟩
        change (st.touch _).Inside n ↔ _
        rw [Parsing.inside_touch]
        exact and_iff_left (metricHeader_inside (by omega))
    | routeInfo =>
      simp only [hoption] at hrefused
      dsimp only
      unfold dioRouteInfo
      dsimp only
      by_cases hshort : len < 9
      · rw [if_pos hshort]
        exact hdiscard
      · rw [if_neg hshort]
        rw [if_neg (by simpa [not_lt.mp hshort] using hrefused)]
        refine ⟨_, rfl, rfl, ?_⟩
        change (st.touch _).Inside n ↔ _
        rw [Parsing.inside_touch, forall_mem_append]
        have hhead : ∀ o ∈ [st.i + 2, st.i + 3], o < n := by simp; omega
        exact and_iff_left ⟨hhead, forall_mem_range' (by omega)⟩
    | dagConf =>
      simp only [hoption, decide_eq_false_iff_not] at hrefused
      dsimp only
      unfold dioDagConf
      rw [if_pos hrefused]
      exact hdiscard
    | prefixInfo =>
      simp only [hoption, decide_eq_false_iff_not] at hrefused
      dsimp only
      unfold dioPrefixInfo
      rw [if_pos hrefused]
      exact hdiscard
    | _ => exact hdiscard

theorem dioMetricContainer_accepted (hlong : 6 ≤ len)
    (htype : (mem (st.i + 2) == rplDagMcNone || hasMetricObject mem st.i) = true)
    (hfits : st.i + 6 ≤ n) : ∃ t, dioMetricContainer mem len st = .goesOn t ∧ t.i = st.i ∧
      (t.Inside n ↔ st.Inside n ∧ (hasMetricObject mem st.i → st.i + 8 ≤ n)) := by
  have hhead := metricHeader_inside hfits
  unfold dioMetricContainer
  dsimp only
  rw [if_neg (not_lt.mpr hlong)]
  by_cases hnone : mem (st.i + 2) = rplDagMcNone
  · rw [if_pos hnone]
    refine ⟨_, rfl, rfl, ?_⟩
    have hobject : hasMetricObject mem st.i = false := by
      rw [hasMetricObject, hnone]
      decide
    rw [Parsing.inside_withMessage, Parsing.inside_touch, and_iff_left hhead]
    simp [hobject]
  · rw [if_neg hnone]
    have hobject : hasMetricObject mem st.i = true := by simpa [hnone] using htype
    have htail : (∀ o ∈ [st.i + 6, st.i + 7], o < n) ↔ st.i + 8 ≤ n := by simp; omega
    by_cases hetx : mem (st.i + 2) = rplDagMcEtx
    · rw [if_pos hetx]
      refine ⟨_, rfl, rfl, ?_⟩
      rw [Parsing.inside_withMessage, Parsing.inside_touch, Parsing.inside_touch, htail,
        and_iff_left hhead]
      simp [hobject]
    · have henergy : mem (st.i + 2) = rplDagMcEnergy := by
        simpa [hasMetricObject, hetx] using hobject
      rw [if_neg hetx, if_pos henergy]
      refine ⟨_, rfl, rfl, ?_⟩
      rw [Parsing.inside_withMessage, Parsing.inside_touch, Parsing.inside_touch, htail,
        and_iff_left hhead]
      simp [hobject]

variable (st) in
/-- An option that is taken is read to its end at most, but for the object of a metric container. -/
theorem dioOption_accepted (haccepts : dioAccepts mem st.i = true)
    (hfits : st.i + optionLength mem st.i ≤ n) :
    ∃ t, dioOption mem (optionLength mem st.i) st = .goesOn t ∧ t.i = st.i ∧
      (t.Inside n ↔ st.Inside n ∧ (isMetricObject mem st.i → st.i + 8 ≤ n)) := by
  unfold dioAccepts at haccepts
  unfold dioOption isMetricObject
  generalize hlen : optionLength mem st.i = len at haccepts hfits ⊢
  cases hoption : RplOption.ofByte (mem st.i) with
  | none => simp only [hoption, reduceCtorEq] at haccepts
  | some o =>
    cases o with
    | dagMetricContainer =>
      simp only [hoption, Bool.and_eq_true, decide_eq_true_eq] at haccepts
      obtain ⟨hlong, htype⟩ := haccepts
      obtain ⟨t, hgoes, hi, hinside⟩ := dioMetricContainer_accepted hlong htype
        (show st.i + 6 ≤ n by omega)
      refine ⟨t, hgoes, hi, hinside.trans ?_⟩
      simp
    | routeInfo =>
      simp only [hoption, Bool.and_eq_true, decide_eq_true_eq] at haccepts
      obtain ⟨⟨hlong, hsize⟩, hbits⟩ := haccepts
      dsimp only
      unfold dioRouteInfo
      dsimp only
      rw [if_neg (not_lt.mpr hlong), if_pos ⟨hsize, hbits⟩]
      refine ⟨_, rfl, rfl, ?_⟩
      have hhead : ∀ o ∈ [st.i + 2, st.i + 3], o < n := by simp; omega
      have hroom : prefixBytes (mem (st.i + 2)) ≤ 16 := by
        unfold prefixBytes
        omega
      rw [Parsing.inside_withMessage, Parsing.inside_copy, Parsing.inside_touch,
        Parsing.inside_touch, forall_mem_append,
        and_iff_left hroom, and_iff_left (forall_mem_range' (by omega)),
        and_iff_left ⟨hhead, forall_mem_range' (by omega)⟩]
      simp
    | dagConf =>
      simp only [hoption, decide_eq_true_eq] at haccepts
      dsimp only
      unfold dioDagConf
      rw [if_neg (not_not.mpr haccepts)]
      refine ⟨_, rfl, rfl, ?_⟩
      rw [Parsing.inside_withMessage, Parsing.inside_touch, forall_mem_append,
        and_iff_left ⟨forall_mem_range' (by omega), forall_mem_range' (by omega)⟩]
      simp
    | prefixInfo =>
      simp only [hoption, decide_eq_true_eq] at haccepts
      dsimp only
      unfold dioPrefixInfo
      rw [if_neg (not_not.mpr haccepts)]
      refine ⟨_, rfl, rfl, ?_⟩
      have hhead : ∀ o ∈ [st.i + 2, st.i + 3], o < n := by simp; omega
      rw [Parsing.inside_withMessage, Parsing.inside_copy, Parsing.inside_touch,
        forall_mem_append, forall_mem_append, and_iff_left le_rfl,
        and_iff_left ⟨⟨hhead, forall_mem_range' (by omega)⟩, forall_mem_range' (by omega)⟩]
      simp
    | _ => simp only [hoption, reduceCtorEq] at haccepts

/-! ### The loops -/

theorem dioTurn_done (hdone : bufferLength ≤ st.i) :
    dioTurn mem bufferLength st = .returns st.pass :=
  if_neg (not_lt.mpr hdone)

theorem dioTurn_tooLong (hmore : st.i < bufferLength)
    (hover : bufferLength < optionLength mem st.i + st.i) :
    dioTurn mem bufferLength st = .returns (st.touch (optionHeader mem st.i)).discard :=
  (if_pos hmore).trans (if_pos hover)

theorem dioTurn_option (hmore : st.i < bufferLength)
    (hfits : ¬ bufferLength < optionLength mem st.i + st.i) :
    dioTurn mem bufferLength st = advanceTurn (optionLength mem st.i)
      (dioOption mem (optionLength mem st.i) (st.touch (optionHeader mem st.i))) :=
  (if_pos hmore).trans (if_neg hfits)

theorem dioTurn_lowers (st t : Parsing RplDio) (hturn : dioTurn mem bufferLength st = .goesOn t) :
    bufferLength - t.i < bufferLength - st.i := by
  have hlen := one_le_optionLength mem st.i
  by_cases hdone : bufferLength ≤ st.i
  · rw [dioTurn_done hdone] at hturn
    cases hturn
  by_cases hover : bufferLength < optionLength mem st.i + st.i
  · rw [dioTurn_tooLong (not_le.mp hdone) hover] at hturn
    cases hturn
  rw [dioTurn_option (not_le.mp hdone) hover] at hturn
  have hfits : (st.touch (optionHeader mem st.i)).i + optionLength mem st.i ≤ bufferLength := by
    rw [Parsing.i_touch]
    omega
  cases haccepts : dioAccepts mem st.i with
  | false =>
    obtain ⟨r, hreturns, -⟩ := dioOption_refused (st.touch (optionHeader mem st.i)) haccepts hfits
    rw [Parsing.i_touch] at hreturns
    rw [hreturns] at hturn
    cases hturn
  | true =>
    obtain ⟨u, hgoes, hi, -⟩ := dioOption_accepted (st.touch (optionHeader mem st.i)) haccepts hfits
    rw [Parsing.i_touch] at hgoes hi
    rw [hgoes] at hturn
    obtain rfl := Turn.goesOn.inj hturn
    rw [Parsing.i_advance, hi]
    omega

theorem exists_dioLoop (mem : ℕ → UInt8) (bufferLength : ℕ) (st : Parsing RplDio) :
    ∃ r, loop (dioTurn mem bufferLength) (bufferLength + 1) st = some r :=
  isSome_iff_exists.mp <|
    loop_isSome dioTurn_lowers (Nat.lt_succ_of_le (Nat.sub_le bufferLength st.i))

/-- The outcome that is wanted of the rest, after everything was or was not valid so far. -/
def GoodOutcome (mem : ℕ → UInt8) (n i : ℕ) (ok : Bool) (r : Handled α) : Prop :=
  Inside n r.touched r.copied ∧ (r.passed.isSome → ok = true ∧ WellFormedOptions mem n i)

variable (ok) in
/-- The loop over the options of a DIO does what is wanted exactly as far as the scan says. -/
theorem dioLoop_goodOutcome_iff (hbuffer : bufferLength ≤ n) {r : Handled RplDio}
    (hloop : loop (dioTurn mem bufferLength) fuel st = some r) : GoodOutcome mem n st.i ok r ↔
      st.Inside n ∧ cleanDioOptions mem n bufferLength fuel st.i ok := by
  induction fuel generalizing st ok with
  | zero => cases hloop
  | succ fuel ih =>
    rw [loop] at hloop
    rw [cleanDioOptions]
    by_cases hdone : bufferLength ≤ st.i
    · -- the loop ends
      rw [dioTurn_done hdone] at hloop
      obtain rfl := some.inj hloop
      rw [if_pos hdone]
      exact and_congr Iff.rfl ⟨fun hformed ↦ hformed rfl, fun hformed _ ↦ hformed⟩
    rw [if_neg hdone]
    have hi : st.i < n := (not_le.mp hdone).trans_le hbuffer
    have hheader := optionHeader_inside mem hi
    by_cases hmissing : mem st.i ≠ 0 ∧ n ≤ st.i + 1
    · -- the length byte is missing
      have hover : bufferLength < optionLength mem st.i + st.i := by
        rw [optionLength, if_neg hmissing.1]
        omega
      rw [dioTurn_tooLong (not_le.mp hdone) hover] at hloop
      obtain rfl := some.inj hloop
      rw [if_pos hmissing, and_false, iff_false]
      intro hgood
      exact hheader.mp (Parsing.inside_touch.mp hgood.1).2 hmissing
    have hread := hheader.mpr hmissing
    rw [if_neg hmissing]
    by_cases hover : bufferLength < optionLength mem st.i + st.i
    · -- the option is too long
      rw [dioTurn_tooLong (not_le.mp hdone) hover] at hloop
      obtain rfl := some.inj hloop
      rw [if_pos hover, and_true]
      constructor
      · intro hgood
        exact (Parsing.inside_touch.mp hgood.1).1
      · intro hinside
        exact ⟨Parsing.inside_touch.mpr ⟨hinside, hread⟩, fun hpassed ↦ by cases hpassed⟩
    rw [dioTurn_option (not_le.mp hdone) hover] at hloop
    rw [if_neg hover]
    have hfits : (st.touch (optionHeader mem st.i)).i + optionLength mem st.i ≤ n := by
      rw [Parsing.i_touch]
      omega
    cases haccepts : dioAccepts mem st.i with
    | false =>
      obtain ⟨u, hreturns, hpassed, hinside⟩ := dioOption_refused (st.touch (optionHeader mem st.i)) haccepts hfits
      rw [Parsing.i_touch] at hreturns
      rw [hreturns] at hloop
      obtain rfl := some.inj hloop
      rw [if_pos rfl, and_true, GoodOutcome, hpassed, hinside, Parsing.inside_touch,
        and_iff_left hread]
      simp
    | true =>
      obtain ⟨t, hgoes, hsame, hinside⟩ := dioOption_accepted (st.touch (optionHeader mem st.i)) haccepts hfits
      rw [Parsing.i_touch] at hgoes hsame hinside
      rw [hgoes] at hloop
      have hnext := ih (ok && validOption mem st.i) hloop
      rw [Parsing.i_advance, hsame, Parsing.inside_advance, hinside, Parsing.inside_touch,
        and_iff_left hread, and_assoc] at hnext
      rw [if_neg (by decide), ← hnext, GoodOutcome, GoodOutcome, wellFormedOptions_iff hi,
        Bool.and_eq_true, and_assoc]

section Dao

variable {st : Parsing RplDao}

theorem i_daoOption (mem : ℕ → UInt8) (len : ℕ) (st : Parsing RplDao) :
    (daoOption mem len st).i = st.i := by
  unfold daoOption
  split
  · rfl
  · unfold daoTransit
    split <;> rfl
  · rfl

variable (st) in
/-- A valid option is not read behind its end, and what is copied has room. -/
theorem daoOption_inside (hvalid : validOption mem st.i = true)
    (hfits : st.i + optionLength mem st.i ≤ n) :
    (daoOption mem (optionLength mem st.i) st).Inside n ↔ st.Inside n := by
  unfold validOption at hvalid
  unfold daoOption
  generalize optionLength mem st.i = len at hvalid hfits ⊢
  cases hoption : RplOption.ofByte (mem st.i) with
  | none => exact Iff.rfl
  | some o =>
    cases o with
    | target =>
      simp only [hoption, Bool.and_eq_true, decide_eq_true_eq] at hvalid
      obtain ⟨⟨hlong, hbits⟩, hsize⟩ := hvalid
      have hroom : prefixBytes (mem (st.i + 3)) ≤ 22 := by
        unfold prefixBytes
        omega
      have hread : ∀ o ∈ (st.i + 3) :: range' (st.i + 4) (prefixBytes (mem (st.i + 3))),
          o < n := by
        rw [forall_mem_cons]
        exact ⟨by omega, forall_mem_range' (by omega)⟩
      dsimp only
      unfold daoTarget
      rw [Parsing.inside_withMessage, Parsing.inside_copy, Parsing.inside_touch,
        and_iff_left hroom, and_iff_left hread]
    | transit =>
      simp only [hoption, Bool.and_eq_true, Bool.or_eq_true, decide_eq_true_eq] at hvalid
      obtain ⟨hlong, hparent⟩ := hvalid
      have hread : ∀ o ∈ [st.i + 5], o < n := by simp; omega
      dsimp only
      unfold daoTransit
      dsimp only
      split_ifs with haddr
      · rw [Parsing.inside_withMessage, Parsing.inside_copy, Parsing.inside_touch,
          Parsing.inside_withMessage, Parsing.inside_touch, and_iff_left hread, and_iff_left le_rfl,
          and_iff_left (forall_mem_range' (by omega))]
      · rw [Parsing.inside_withMessage, Parsing.inside_touch, and_iff_left hread]
    | _ => exact Iff.rfl

theorem daoTurn_lowers (st t : Parsing RplDao) (hturn : daoTurn mem bufferLength st = .goesOn t) :
    bufferLength - t.i < bufferLength - st.i := by
  have hlen := one_le_optionLength mem st.i
  rw [daoTurn] at hturn
  split_ifs at hturn with hmore
  obtain rfl := Turn.goesOn.inj hturn
  rw [Parsing.i_advance, i_daoOption, Parsing.i_touch]
  omega

theorem exists_daoLoop (mem : ℕ → UInt8) (bufferLength : ℕ) (st : Parsing RplDao) :
    ∃ r, loop (daoTurn mem bufferLength) (bufferLength + 1) st = some r :=
  isSome_iff_exists.mp <|
    loop_isSome daoTurn_lowers (Nat.lt_succ_of_le (Nat.sub_le bufferLength st.i))

theorem daoLoop_passed {r : Handled RplDao}
    (hloop : loop (daoTurn mem bufferLength) fuel st = some r) : r.passed.isSome := by
  refine loop_invariant (P := fun _ ↦ True) (Q := fun r : Handled RplDao ↦ r.passed.isSome)
    (fun _ _ _ _ ↦ trivial) ?_ trivial hloop
  intro s r _ hturn
  rw [daoTurn] at hturn
  split_ifs at hturn
  obtain rfl := Turn.returns.inj hturn
  rfl

theorem daoLoop_inside (hbuffer : bufferLength ≤ n) (hformed : WellFormedOptions mem n st.i)
    {r : Handled RplDao} (hloop : loop (daoTurn mem bufferLength) fuel st = some r) :
    Inside n r.touched r.copied ↔ st.Inside n := by
  induction fuel generalizing st with
  | zero => cases hloop
  | succ fuel ih =>
    rw [loop, daoTurn] at hloop
    by_cases hmore : st.i < bufferLength
    · rw [if_pos hmore] at hloop
      have hi : st.i < n := hmore.trans_le hbuffer
      obtain ⟨hvalid, hrest⟩ := (wellFormedOptions_iff hi).mp hformed
      have hfits : st.i + optionLength mem st.i ≤ n := hrest.le
      have hnext := ih (by rwa [Parsing.i_advance, i_daoOption, Parsing.i_touch]) hloop
      rw [hnext, Parsing.inside_advance]
      have hoption := daoOption_inside (st.touch (optionHeader mem st.i)) hvalid hfits
      rw [Parsing.i_touch] at hoption
      rw [hoption, Parsing.inside_touch, and_iff_left (optionHeader_inside_of_le hfits)]
    · rw [if_neg hmore] at hloop
      obtain rfl := some.inj hloop
      exact Iff.rfl

variable (mem st) in
/-- The loop of `dao_input` does what is wanted exactly on well-formed options. -/
theorem daoLoop_parsedInside_iff (hbuffer : bufferLength ≤ n) :
    ParsedInside n (WellFormedOptions mem n st.i)
        (loop (daoTurn mem bufferLength) (bufferLength + 1) st) ↔
      st.Inside n ∧ WellFormedOptions mem n st.i := by
  obtain ⟨r, hloop⟩ := exists_daoLoop mem bufferLength st
  constructor
  · rintro ⟨r', hloop', hinside, hpassed⟩
    have hformed := hpassed (daoLoop_passed hloop')
    exact ⟨(daoLoop_inside hbuffer hformed hloop').mp hinside, hformed⟩
  · rintro ⟨hinside, hformed⟩
    exact ⟨r, hloop, (daoLoop_inside hbuffer hformed hloop).mpr hinside, fun _ ↦ hformed⟩

end Dao

/-! ### The parsers -/

theorem forall_mem_base (hfour : 4 ≤ n) : ∀ o ∈ [0, 1, 3], o < n := by
  simp
  omega

variable (mem n) in
theorem dioInput_parsedInside_iff (conf : DioConf) :
    ParsedInside n (WellFormedDio mem n) (dioInput mem conf n) ↔ CleanDio mem n := by
  have hbuffer : n % 256 ≤ n := Nat.mod_le n 256
  have hstart : (dioStart mem conf).Inside n ↔ 24 ≤ n := by
    constructor
    · intro hinside
      exact hinside.1 23 (mem_append_right _ (mem_range'_1.mpr ⟨by decide, by decide⟩))
    · intro hbase
      refine ⟨fun o ho ↦ ?_, by simp [dioStart]⟩
      rcases mem_append.mp ho with hhead | haddr
      · simp at hhead
        omega
      · have hlt := (mem_range'_1.mp haddr).2
        omega
  obtain ⟨r, hloop⟩ := exists_dioLoop mem (n % 256) (dioStart mem conf)
  have hgood := dioLoop_goodOutcome_iff true hbuffer hloop
  rw [hstart] at hgood
  calc
    ParsedInside n (WellFormedDio mem n) (dioInput mem conf n) ↔
        ParsedInside n (WellFormedDio mem n) (some r) := by rw [← hloop]; rfl
    _ ↔ GoodOutcome mem n 24 true r := by
      rw [parsedInside_some, GoodOutcome]
      simp [WellFormedDio]
    _ ↔ CleanDio mem n := hgood

variable {inst : CurrInstance}

theorem daoInput_unknown (hknown : ¬ knownInstance mem inst) :
    daoInput mem inst n = some ⟨none, [0], []⟩ :=
  if_pos (by simpa using hknown)

theorem daoInput_otherDag (hknown : knownInstance mem inst) (hdagId : hasDagId mem)
    (hsame : ¬ sameDagId mem inst) :
    daoInput mem inst n = some ((daoStart mem inst).touch (range' 4 16)).discard := by
  unfold daoInput
  rw [if_neg (by simp [hknown])]
  exact (if_pos hdagId).trans (if_pos (by simpa using hsame))

theorem daoInput_dag (hknown : knownInstance mem inst) (hdagId : hasDagId mem)
    (hsame : sameDagId mem inst) : daoInput mem inst n = loop (daoTurn mem (n % 256)) (n % 256 + 1)
      (((daoStart mem inst).touch (range' 4 16)).advance 16) := by
  unfold daoInput
  rw [if_neg (by simp [hknown])]
  exact (if_pos hdagId).trans (if_neg (by simp [hsame]))

theorem daoInput_plain (hknown : knownInstance mem inst) (hdagId : ¬ hasDagId mem) :
    daoInput mem inst n = loop (daoTurn mem (n % 256)) (n % 256 + 1) (daoStart mem inst) := by
  unfold daoInput
  rw [if_neg (by simp [hknown])]
  exact if_neg hdagId

variable (mem n) in
theorem daoInput_parsedInside_iff (inst : CurrInstance) :
    ParsedInside n (WellFormedDao mem n) (daoInput mem inst n) ↔ CleanDao mem n inst := by
  have hbuffer : n % 256 ≤ n := Nat.mod_le n 256
  have hstart : (daoStart mem inst).Inside n ↔ 4 ≤ n := by
    constructor
    · intro hinside
      exact hinside.1 3 (by simp [daoStart])
    · intro hfour
      exact ⟨forall_mem_base hfour, by simp [daoStart]⟩
  have hformed : WellFormedDao mem n ↔
      WellFormedOptions mem n (if hasDagId mem then 20 else 4) := by
    refine and_iff_right_of_imp fun hformed ↦ ?_
    have hle := hformed.le
    split_ifs at hle <;> omega
  rw [hformed, CleanDao]
  by_cases hknown : knownInstance mem inst = true
  · by_cases hdagId : hasDagId mem = true
    · have hbase : ((daoStart mem inst).touch (range' 4 16)).Inside n ↔ 20 ≤ n := by
        rw [Parsing.inside_touch, hstart]
        constructor
        · rintro ⟨-, haddr⟩
          exact haddr 19 (mem_range'_1.mpr ⟨by decide, by decide⟩)
        · intro htwenty
          exact ⟨by omega, forall_mem_range' htwenty⟩
      rw [if_pos hdagId, if_pos hdagId, imp_iff_right hknown]
      by_cases hsame : sameDagId mem inst = true
      · -- the options of a DAO with the DAG ID
        have hloop := daoLoop_parsedInside_iff mem
          (((daoStart mem inst).touch (range' 4 16)).advance 16) hbuffer
        rw [Parsing.inside_advance, hbase] at hloop
        rw [daoInput_dag hknown hdagId hsame, imp_iff_right hsame]
        refine hloop.trans ?_
        constructor
        · rintro ⟨htwenty, hoptions⟩
          exact ⟨by omega, by omega, htwenty, hoptions⟩
        · rintro ⟨-, -, hgood⟩
          exact hgood
      · rw [daoInput_otherDag hknown hdagId hsame, parsedInside_some, discard_inside, hbase]
        constructor
        · rintro ⟨htwenty, -⟩
          exact ⟨by omega, by omega, htwenty, fun h ↦ absurd h hsame⟩
        · rintro ⟨-, -, htwenty, -⟩
          exact ⟨htwenty, fun hpassed ↦ by cases hpassed⟩
    · have hloop := daoLoop_parsedInside_iff mem (daoStart mem inst) hbuffer
      rw [hstart] at hloop
      rw [if_neg hdagId, if_neg hdagId, imp_iff_right hknown, daoInput_plain hknown hdagId]
      refine hloop.trans ?_
      constructor
      · rintro ⟨hfour, hoptions⟩
        exact ⟨by omega, hfour, hoptions⟩
      · rintro ⟨-, hgood⟩
        exact hgood
  · rw [daoInput_unknown hknown, parsedInside_some]
    constructor
    · rintro ⟨hinside, -⟩
      exact ⟨hinside.1 0 (by simp), fun h ↦ absurd h hknown⟩
    · rintro ⟨hone, -⟩
      exact ⟨⟨by simp; omega, by simp⟩, fun hpassed ↦ by cases hpassed⟩

variable (mem n) in
theorem daoAckInput_parsedInside_iff (inst : CurrInstance) :
    ParsedInside n (WellFormedDaoAck mem n) (some (daoAckInput mem inst)) ↔
      CleanDaoAck mem n inst := by
  have hread : ∀ passed : Option (UInt8 × UInt8), ParsedInside n (WellFormedDaoAck mem n)
      (some ⟨passed, [0, 2, 3], []⟩) ↔ 4 ≤ n ∧ (passed.isSome → WellFormedDaoAck mem n) := by
    intro passed
    rw [parsedInside_some]
    refine and_congr_left fun _ ↦ ?_
    constructor
    · intro hinside
      exact hinside.1 3 (by simp)
    · intro hfour
      exact ⟨by simp; omega, by simp⟩
  unfold daoAckInput CleanDaoAck
  by_cases hknown : knownInstance mem inst = true
  · rw [if_neg (by simp [hknown]), hread]
    simp [hknown, WellFormedDaoAck]
  · rw [if_pos (by simpa using hknown), hread]
    simp [hknown]

variable (mem n) in
/-- The parsers return, read the payload and write their message structures only, and pass on
nothing but complete and well-formed messages, exactly on clean payloads. -/
theorem controlMessages_parsedInside_iff (conf : DioConf) (inst : CurrInstance) :
    (ParsedInside n (WellFormedDio mem n) (dioInput mem conf n) ↔ CleanDio mem n) ∧
      (ParsedInside n (WellFormedDao mem n) (daoInput mem inst n) ↔ CleanDao mem n inst) ∧
      (ParsedInside n (WellFormedDaoAck mem n) (some (daoAckInput mem inst)) ↔
        CleanDaoAck mem n inst) :=
  ⟨dioInput_parsedInside_iff mem n conf, daoInput_parsedInside_iff mem n inst,
    daoAckInput_parsedInside_iff mem n inst⟩

/-- The payload of a DAO for an instance 30, with a target option whose prefix length is 255. -/
def longTarget (i : ℕ) : UInt8 := [30, 0, 0, 1, 5, 2, 0, 255].getD i 0

def rootOf30 : CurrInstance := ⟨true, 30, 30, fun _ ↦ 0⟩

/-- The 32 bytes of such a prefix are copied over the end of the message structure. -/
theorem not_inside_longTarget :
    ¬ ParsedInside 8 (WellFormedDao longTarget 8) (daoInput longTarget rootOf30 8) := by
  rintro ⟨h, hreturns, hinside, -⟩
  have hcopied : (daoInput longTarget rootOf30 8).map Handled.copied = some [⟨22, 32⟩] := by
    decide +kernel
  rw [hreturns] at hcopied
  have hroom := hinside.2 ⟨22, 32⟩ (by rw [some.inj hcopied]; simp)
  exact absurd hroom (by decide)

end ContikiMaster.Rpl
