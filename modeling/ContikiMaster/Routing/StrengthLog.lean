import ContikiMaster.Lib.Cursor
import ContikiMaster.Scheduler.NeighborParser
import Mathlib

/-!
# Strengths in the log

The coordinator prints the strengths that a node reports with a decimal printer of its own, and
`neighbor_parser.py` reads the line again. Strengths are exact here.
-/

namespace ContikiMaster.Routing

open Scheduler List

/-- The loop of `intToStr`, the lowest digit first. -/
def digitLoop (x : ℕ) : List Char :=
  if x = 0 then [] else (x % 10).digitChar :: digitLoop (x / 10)

def intToStr (x d : ℕ) : List Char :=
  (digitLoop x ++ replicate (d - (digitLoop x).length) '0').reverse

def ftoa (n : ℚ≥0) (afterpoint : ℕ) : List Char :=
  let res := intToStr ⌊n⌋₊ 0
  if afterpoint = 0 then res
  else res ++ '.' :: intToStr ⌊(n - ⌊n⌋₊) * 10 ^ afterpoint⌋₊ afterpoint

def printFLoat (value : ℚ≥0) : List Char := ftoa value 3

/-- One turn of the loop of `on_received_actual_data`, without the comma. -/
def printStrength (entry : ℕ × ℚ≥0) : List Char :=
  Nat.toDigits 10 entry.1 ++ '-' :: printFLoat entry.2

def strengthVector : List Char :=
  ['s', 't', 'r', 'e', 'n', 'g', 't', 'h', '_', 'v', 'e', 'c', 't', 'o', 'r']

/-- The line that `on_received_actual_data` prints. -/
def strengthLine (rcvdFrom : ℕ) (strengths : List (ℕ × ℚ≥0)) : List Char :=
  (strengthVector ++ [':']) ++ ' ' :: (Nat.toDigits 10 rcvdFrom ++ ' ' ::
    (strengths.flatMap (printStrength · ++ [',']) ++ ['\n']))

/-- Python's `int`, of decimal digits. -/
def pyInt (s : List Char) : Option ℕ :=
  if s ≠ [] ∧ s.all Char.isDigit then some (Nat.ofDigitChars 10 s 0) else none

/-- Python's `float`, of decimal digits with a point. -/
def pyFloat (s : List Char) : Option ℚ≥0 :=
  match s.splitOn '.' with
  | [whole, fraction] =>
    if whole ++ fraction ≠ [] ∧ (whole ++ fraction).all Char.isDigit then
      some (Nat.ofDigitChars 10 whole 0 + Nat.ofDigitChars 10 fraction 0 / 10 ^ fraction.length)
    else none
  | _ => none

/-- `self.strength_vector_prr` and `self.strength_vector_etx`. -/
structure StrengthTables where
  prr : NodeTable ℚ≥0
  etx : NodeTable ℚ≥0

/-- The loop of `match_strength_vector` behind the conversions. -/
def addStrength (rcvNodeId : ℕ) (t : StrengthTables) (i : ℕ) (v : ℚ≥0) : StrengthTables :=
  let t := if i ∈ t.prr ∧ i ∈ t.etx then t else ⟨t.prr.insert i ∅, t.etx.insert i ∅⟩
  if 9 / 100 < v then
    ⟨t.prr.put i rcvNodeId v, t.etx.put i rcvNodeId (if 0 < v then 1 / v else 0)⟩
  else t

/-- The loop of `match_strength_vector`; `none` is a `ValueError`. -/
def strengthTurn (rcvNodeId : ℕ) (t : StrengthTables) (x : List Char) : Option StrengthTables :=
  match x.splitOn '-' with
  | id :: value :: _ => (pyInt id).bind fun i ↦
    if rcvNodeId = i then some t else (pyFloat value).map (addStrength rcvNodeId t i)
  | _ => some t

def matchStrengthVector (t : StrengthTables) (line : List Char) : Option StrengthTables :=
  if strengthVector <:+: line then
    match line.splitOn ' ' with
    | _ :: id :: data :: _ => (pyInt id).bind fun rcvNodeId ↦
      (data.splitOn ',').foldlM (strengthTurn rcvNodeId) t
    | _ => none
  else some t

variable {x d : ℕ} {c : Char}

theorem digitLoop_reverse (hx : x ≠ 0) : (digitLoop x).reverse = Nat.toDigits 10 x := by
  induction x using Nat.strong_induction_on with
  | _ x ih =>
    rw [digitLoop, if_neg hx, reverse_cons, Nat.toDigits_eq_if (by decide)]
    split
    · rename_i hlt
      rw [Nat.div_eq_of_lt hlt, Nat.mod_eq_of_lt hlt, digitLoop, if_pos rfl]
      rfl
    · rename_i hge
      rw [ih (x / 10) (Nat.div_lt_self (Nat.pos_of_ne_zero hx) (by decide)) (by omega)]

theorem intToStr_eq (x d : ℕ) : intToStr x d =
    replicate (d - (digitLoop x).length) '0' ++ (digitLoop x).reverse := by
  rw [intToStr, reverse_append, reverse_replicate]

theorem ofDigitChars_intToStr (x d : ℕ) : Nat.ofDigitChars 10 (intToStr x d) 0 = x := by
  rw [intToStr_eq, Nat.ofDigitChars_append, Nat.ofDigitChars_replicate_zero, Nat.mul_zero]
  by_cases hx : x = 0
  · rw [hx, digitLoop, if_pos rfl]
    rfl
  · rw [digitLoop_reverse hx, Nat.ofDigitChars_ten_toDigits]

theorem isDigit_of_mem_intToStr (hc : c ∈ intToStr x d) : c.isDigit := by
  rw [intToStr_eq] at hc
  rcases mem_append.mp hc with hc | hc
  · rw [eq_of_mem_replicate hc]
    rfl
  · by_cases hx : x = 0
    · rw [hx, digitLoop, if_pos rfl] at hc
      cases hc
    · rw [digitLoop_reverse hx] at hc
      exact Nat.isDigit_of_mem_toDigits (by decide) le_rfl hc

theorem length_intToStr (hd : 0 < d) (hx : x < 10 ^ d) : (intToStr x d).length = d := by
  have hle : (digitLoop x).length ≤ d := by
    by_cases hzero : x = 0
    · rw [hzero, digitLoop, if_pos rfl]
      exact Nat.zero_le d
    · rw [← length_reverse, digitLoop_reverse hzero]
      exact (Nat.length_toDigits_le_iff (by decide) hd).mpr hx
  rw [intToStr, length_reverse, length_append, length_replicate]
  omega

/-- A strength without what follows its third decimal. -/
def truncated (strength : ℚ≥0) : ℚ≥0 := ⌊strength * 1000⌋₊ / 1000

theorem notMem_intToStr (hc : c.isDigit = false) : c ∉ intToStr x d := by
  intro hmem
  rw [isDigit_of_mem_intToStr hmem] at hc
  cases hc

theorem pyFloat_printFLoat (value : ℚ≥0) : pyFloat (printFLoat value) = some (truncated value) := by
  have hsplit : ⌊(value - ⌊value⌋₊) * 10 ^ 3⌋₊ + ⌊value⌋₊ * 1000 = ⌊value * 1000⌋₊ := by
    have hle : ⌊value⌋₊ * 1000 ≤ ⌊value * 1000⌋₊ := by
      apply Nat.le_floor
      push_cast
      exact mul_le_mul_of_nonneg_right (Nat.floor_le zero_le) zero_le
    have hsub : (value - ⌊value⌋₊) * 10 ^ 3 = value * 1000 - (⌊value⌋₊ * 1000 : ℕ) := by
      rw [tsub_mul]
      push_cast
      norm_num
    rw [hsub, Nat.floor_sub_natCast, Nat.sub_add_cancel hle]
  have hlt : ⌊(value - ⌊value⌋₊) * 10 ^ 3⌋₊ < 10 ^ 3 := by
    have hbound : ⌊value * 1000⌋₊ < (⌊value⌋₊ + 1) * 1000 := by
      apply (Nat.floor_lt zero_le).mpr
      push_cast
      exact mul_lt_mul_of_pos_right (Nat.lt_floor_add_one value) (by norm_num)
    omega
  have hline : (printFLoat value).splitOn '.' =
      [intToStr ⌊value⌋₊ 0, intToStr ⌊(value - ⌊value⌋₊) * 10 ^ 3⌋₊ 3] := by
    change (_ ++ '.' :: _).splitOn '.' = _
    rw [splitOn_append_cons_self_of_not_mem (notMem_intToStr rfl),
      splitOn_eq_singleton (notMem_intToStr rfl)]
  have hlength := length_intToStr (by decide) hlt
  rw [pyFloat, hline]
  dsimp only
  rw [if_pos, ofDigitChars_intToStr, ofDigitChars_intToStr, hlength, truncated, ← hsplit]
  · congr 1
    push_cast
    ring
  · refine ⟨fun hnil ↦ ?_, all_eq_true.mpr fun c hc ↦ ?_⟩
    · rw [(append_eq_nil_iff.mp hnil).2] at hlength
      cases hlength
    · exact (mem_append.mp hc).elim isDigit_of_mem_intToStr isDigit_of_mem_intToStr

theorem pyInt_toDigits (n : ℕ) : pyInt (Nat.toDigits 10 n) = some n := by
  rw [pyInt, if_pos ⟨Nat.toDigits_ne_nil, all_eq_true.mpr fun c hc ↦
    Nat.isDigit_of_mem_toDigits (by decide) le_rfl hc⟩, Nat.ofDigitChars_ten_toDigits]

theorem notMem_toDigits {n : ℕ} (hc : c.isDigit = false) : c ∉ Nat.toDigits 10 n := by
  intro hmem
  rw [Nat.isDigit_of_mem_toDigits (by decide) le_rfl hmem] at hc
  cases hc

theorem notMem_printStrength {entry : ℕ × ℚ≥0} (hc : c.isDigit = false) (hdot : c ≠ '.')
    (hdash : c ≠ '-') : c ∉ printStrength entry := by
  intro hmem
  rcases mem_append.mp hmem with hmem | hmem
  · exact notMem_toDigits hc hmem
  rcases mem_cons.mp hmem with hmem | hmem
  · exact hdash hmem
  rcases mem_append.mp hmem with hmem | hmem
  · exact notMem_intToStr hc hmem
  · exact (mem_cons.mp hmem).elim hdot (notMem_intToStr hc)

theorem strengthTurn_printStrength (rcvNodeId : ℕ) (t : StrengthTables) (entry : ℕ × ℚ≥0) :
    strengthTurn rcvNodeId t (printStrength entry) =
      some (if rcvNodeId = entry.1 then t
        else addStrength rcvNodeId t entry.1 (truncated entry.2)) := by
  have hnone : '-' ∉ printFLoat entry.2 := by
    intro hmem
    rcases mem_append.mp hmem with hmem | hmem
    · exact notMem_intToStr rfl hmem
    · exact (mem_cons.mp hmem).elim (by decide) (notMem_intToStr rfl)
  rw [strengthTurn, printStrength, splitOn_append_cons_self_of_not_mem (notMem_toDigits rfl),
    splitOn_eq_singleton hnone]
  dsimp only
  rw [pyInt_toDigits, pyFloat_printFLoat]
  change (if rcvNodeId = entry.1 then some t else _) = _
  by_cases hown : rcvNodeId = entry.1
  · rw [if_pos hown, if_pos hown]
  · rw [if_neg hown, if_neg hown]
    rfl

theorem splitOn_entries (strengths : List (ℕ × ℚ≥0)) :
    (strengths.flatMap (printStrength · ++ [',']) ++ ['\n']).splitOn ',' =
      strengths.map printStrength ++ [['\n']] := by
  induction strengths with
  | nil => rfl
  | cons entry strengths ih =>
    have hnone : ',' ∉ printStrength entry := notMem_printStrength rfl (by decide) (by decide)
    rw [flatMap_cons, append_assoc, append_assoc, singleton_append,
      splitOn_append_cons_self_of_not_mem hnone, ih]
    rfl

theorem matchStrengthVector_eq (t : StrengthTables) (rcvdFrom : ℕ) (strengths : List (ℕ × ℚ≥0)) :
    matchStrengthVector t (strengthLine rcvdFrom strengths) =
      some (strengths.foldl (fun t entry ↦ if rcvdFrom = entry.1 then t
        else addStrength rcvdFrom t entry.1 (truncated entry.2)) t) := by
  have hinfix : strengthVector <:+: strengthLine rcvdFrom strengths := ⟨[], ':' :: _, rfl⟩
  have hnone : ' ' ∉ strengths.flatMap (printStrength · ++ [',']) ++ ['\n'] := by
    intro hmem
    rcases mem_append.mp hmem with hmem | hmem
    · obtain ⟨entry, -, hmem⟩ := mem_flatMap.mp hmem
      rcases mem_append.mp hmem with hmem | hmem
      · exact notMem_printStrength rfl (by decide) (by decide) hmem
      · exact absurd hmem (by decide)
    · exact absurd hmem (by decide)
  have hsplit : (strengthLine rcvdFrom strengths).splitOn ' ' = [strengthVector ++ [':'],
      Nat.toDigits 10 rcvdFrom, strengths.flatMap (printStrength · ++ [',']) ++ ['\n']] := by
    rw [strengthLine, splitOn_append_cons_self_of_not_mem (by decide),
      splitOn_append_cons_self_of_not_mem (notMem_toDigits rfl),
      splitOn_eq_singleton hnone]
  rw [matchStrengthVector, if_pos hinfix, hsplit]
  dsimp only
  rw [pyInt_toDigits, Option.bind_some, splitOn_entries, foldlM_append]
  have hfold : (strengths.map printStrength).foldlM (strengthTurn rcvdFrom) t =
      some (strengths.foldl (fun t entry ↦ if rcvdFrom = entry.1 then t
        else addStrength rcvdFrom t entry.1 (truncated entry.2)) t) := by
    rw [foldlM_map]
    simp only [strengthTurn_printStrength]
    exact foldlM_pure
  rw [hfold]
  rfl

theorem cell_insert_empty {table : NodeTable ℚ≥0} {i i' receiver : ℕ} (hi : i ∉ table) :
    NodeTable.cell (table.insert i ∅) i' receiver = table.cell i' receiver := by
  unfold NodeTable.cell
  by_cases heq : i' = i
  · rw [heq, AList.lookup_insert, AList.lookup_eq_none.mpr hi]
    rfl
  · rw [AList.lookup_insert_ne heq]

/-- The two tables have the same rows, and inverse values. -/
structure StrengthTables.Inverse (t : StrengthTables) : Prop where
  rows : ∀ i, i ∈ t.prr ↔ i ∈ t.etx
  links : ∀ i receiver, t.etx.cell i receiver = (t.prr.cell i receiver).map (1 / ·)

theorem StrengthTables.Inverse.addStrength {t : StrengthTables} (ht : t.Inverse)
    (rcvNodeId i : ℕ) (v : ℚ≥0) : (addStrength rcvNodeId t i v).Inverse ∧
      ∀ i' receiver, (addStrength rcvNodeId t i v).prr.cell i' receiver =
        if i' = i ∧ receiver = rcvNodeId ∧ 9 / 100 < v then some v
        else t.prr.cell i' receiver := by
  unfold Routing.addStrength
  have hopened : ∃ t', (if i ∈ t.prr ∧ i ∈ t.etx then t
      else ⟨t.prr.insert i ∅, t.etx.insert i ∅⟩) = t' ∧ t'.Inverse ∧
        ∀ i' receiver, t'.prr.cell i' receiver = t.prr.cell i' receiver := by
    by_cases hi : i ∈ t.prr
    · exact ⟨t, if_pos ⟨hi, (ht.rows i).mp hi⟩, ht, fun _ _ ↦ rfl⟩
    · have hi' : i ∉ t.etx := fun hmem ↦ hi ((ht.rows i).mpr hmem)
      refine ⟨_, if_neg (fun hand ↦ hi hand.1), ⟨fun i' ↦ ?_, fun i' receiver ↦ ?_⟩,
        fun i' receiver ↦ cell_insert_empty hi⟩
      · rw [AList.mem_insert, AList.mem_insert, ht.rows]
      · dsimp only
        rw [cell_insert_empty hi, cell_insert_empty hi', ht.links]
  obtain ⟨t', heq, ht', hlinks⟩ := hopened
  rw [heq]
  dsimp only
  by_cases hstrong : 9 / 100 < v
  · have hpos : 0 < v := zero_le.trans_lt hstrong
    rw [if_pos hstrong, if_pos hpos]
    refine ⟨⟨fun i' ↦ ?_, fun i' receiver ↦ ?_⟩, fun i' receiver ↦ ?_⟩
    · exact ((AList.mem_insert _).trans (or_congr_right (ht'.rows i'))).trans
        (AList.mem_insert _).symm
    · dsimp only
      rw [NodeTable.cell_put, NodeTable.cell_put, ht'.links]
      split
      · rfl
      · rfl
    · dsimp only
      rw [NodeTable.cell_put, hlinks]
      exact if_congr (and_congr_right fun _ ↦ (and_iff_left hstrong).symm) rfl rfl
  · rw [if_neg hstrong]
    refine ⟨ht', fun i' receiver ↦ ?_⟩
    rw [hlinks, if_neg (fun hand ↦ hstrong hand.2.2)]

/-- The last strength above 0.09 that is printed for a node. -/
def shownStrength (strengths : List (ℕ × ℚ≥0)) (i : ℕ) : Option ℚ≥0 :=
  (((strengths.filter (·.1 = i)).map (truncated ·.2)).filter (9 / 100 < ·)).getLast?

theorem foldl_addStrength (rcvdFrom : ℕ) (strengths : List (ℕ × ℚ≥0)) :
    let t := strengths.foldl (fun t entry ↦ if rcvdFrom = entry.1 then t
      else addStrength rcvdFrom t entry.1 (truncated entry.2)) ⟨∅, ∅⟩
    t.Inverse ∧ ∀ i receiver, t.prr.cell i receiver =
      if i ≠ rcvdFrom ∧ receiver = rcvdFrom then shownStrength strengths i else none := by
  induction strengths using reverseRecOn with
  | nil => exact ⟨⟨fun _ ↦ Iff.rfl, fun _ _ ↦ rfl⟩, fun _ _ ↦ (ite_self _).symm⟩
  | append_singleton strengths entry ih =>
    obtain ⟨hinverse, hlinks⟩ := ih
    dsimp only at hinverse hlinks ⊢
    rw [foldl_concat]
    have hshown : ∀ i, shownStrength (strengths ++ [entry]) i =
        if i = entry.1 ∧ 9 / 100 < truncated entry.2 then some (truncated entry.2)
        else shownStrength strengths i := by
      intro i
      unfold shownStrength
      by_cases hi : entry.1 = i
      · by_cases hstrong : 9 / 100 < truncated entry.2
        · simp [hi, hstrong]
        · simp [hi, hstrong]
      · simp [hi, Ne.symm hi]
    by_cases hown : rcvdFrom = entry.1
    · rw [if_pos hown]
      refine ⟨hinverse, fun i receiver ↦ ?_⟩
      rw [hlinks, hshown]
      grind
    · rw [if_neg hown]
      obtain ⟨hinverse', hlinks'⟩ := hinverse.addStrength rcvdFrom entry.1 (truncated entry.2)
      refine ⟨hinverse', fun i receiver ↦ ?_⟩
      rw [hlinks', hlinks, hshown]
      grind

/-- Of the printed line, the parser makes a link from every other node whose strength, without
what follows the third decimal, is above 0.09, and its inverse, and no other link. -/
theorem matchStrengthVector_strengthLine (rcvdFrom : ℕ) (strengths : List (ℕ × ℚ≥0)) :
    ∃ t, matchStrengthVector ⟨∅, ∅⟩ (strengthLine rcvdFrom strengths) = some t ∧
      ∀ i receiver, t.prr.cell i receiver =
          (if i ≠ rcvdFrom ∧ receiver = rcvdFrom then shownStrength strengths i else none) ∧
        t.etx.cell i receiver = (t.prr.cell i receiver).map (1 / ·) := by
  obtain ⟨hinverse, hlinks⟩ := foldl_addStrength rcvdFrom strengths
  exact ⟨_, matchStrengthVector_eq _ _ _, fun i receiver ↦
    ⟨hlinks i receiver, hinverse.links i receiver⟩⟩

end ContikiMaster.Routing
