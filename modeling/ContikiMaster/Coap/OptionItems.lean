import ContikiMaster.Coap.SerializeBounds

/-!
# Options on the wire

What the serializer writes for a message is a list of items: option numbers with the
bytes of a value. A string that is split gives one item for each of its segments, as
long as no segment is empty.
-/

namespace ContikiMaster.Coap

open Lib Cursor List

variable {p : Message} {array : Text} {splitChar : UInt8} {number currentNumber partStart j fuel : ℕ}

/-- Items with delta-encoded numbers, behind an option with the current number. -/
def encodeItems : ℕ → List (ℕ × List UInt8) → List UInt8
  | _, [] => []
  | currentNumber, (number, value) :: rest =>
    coapSetOptionHeader (number - currentNumber) value.length ++ value ++ encodeItems number rest

def itemsSize : ℕ → List (ℕ × List UInt8) → ℕ
  | _, [] => 0
  | currentNumber, (number, value) :: rest =>
    optionSize (number - currentNumber) value.length + itemsSize number rest

theorem length_encodeItems (currentNumber : ℕ) (items : List (ℕ × List UInt8)) :
    (encodeItems currentNumber items).length = itemsSize currentNumber items := by
  induction items generalizing currentNumber with
  | nil => rfl
  | cons item rest ih =>
    rw [encodeItems, itemsSize, length_append, length_append, ih,
      length_coapSetOptionHeader, optionSize]

def itemsOf (number : ℕ) (values : List (List UInt8)) : List (ℕ × List UInt8) :=
  values.map fun value ↦ (number, value)

def segments (s : StringOption) (t : Text) : List (List UInt8) := t.chars.splitOn s.splitter

def optionValues (p : Message) : CoapOption → List (List UInt8)
  | .int o => [intBytes (p.int o)]
  | .byte o => [(p.byte o).1]
  | .string o => if o.splitter ≠ 0 then segments o (p.string o) else [(p.string o).chars]
  | .block o => [intBytes (encodeBlock (p.block o))]
  | .ifNoneMatch => [[]]

/-- The items of the set options, from some option on. -/
def messageItems (p : Message) (order : List CoapOption) : List (ℕ × List UInt8) :=
  order.flatMap fun o ↦ if p.IsOption o.number then itemsOf o.number (optionValues p o) else []

/-- A string that is split is empty or has no empty segment. -/
def SegmentsNonempty (p : Message) : Prop :=
  ∀ s : StringOption, s.splitter ≠ 0 → p.IsOption s.number →
    (p.string s).chars = [] ∨ [] ∉ segments s (p.string s)

theorem not_mem_slice {start length : ℕ}
    (hnone : ∀ k, start ≤ k → k < start + length → array.mem k ≠ splitChar) :
    splitChar ∉ slice array.mem start length := by
  intro hmem
  obtain ⟨k, hk, hsep⟩ := mem_map.mp hmem
  obtain ⟨hle, hlt⟩ := mem_range'_1.mp hk
  exact hnone k hle hlt hsep

theorem splitLoop_bytes (hfuel : array.len + 2 ≤ fuel + j) (hpart : partStart ≤ j)
    (hj : j ≤ array.len) (hnone : ∀ k, partStart ≤ k → k < j → array.mem k ≠ splitChar)
    (hsegments : slice array.mem partStart (array.len - partStart) = [] ∨
      [] ∉ (slice array.mem partStart (array.len - partStart)).splitOn splitChar) :
    (splitLoop number array splitChar fuel currentNumber partStart j).bytes =
      encodeItems currentNumber (itemsOf number
        ((slice array.mem partStart (array.len - partStart)).splitOn splitChar)) := by
  induction fuel generalizing currentNumber partStart j with
  | zero => omega
  | succ fuel ih =>
    rw [splitLoop, if_pos (Nat.le_succ_of_le hj)]
    rcases eq_or_lt_of_le hj with rfl | hlt
    · -- the end of the string
      have hlast : (slice array.mem partStart (array.len - partStart)).splitOn splitChar =
          [slice array.mem partStart (array.len - partStart)] := by
        apply splitOn_eq_singleton
        exact not_mem_slice fun k hle hk ↦ hnone k hle (by omega)
      have hstop : splitLoop number array splitChar fuel number (array.len + 1) (array.len + 2) =
          ⟨[], []⟩ := by
        cases fuel with
        | zero => rfl
        | succ fuel => rw [splitLoop, if_neg (by omega)]
      rw [if_pos (Or.inr rfl), hstop, hlast]
      simp only [append_bytes, copyPart, itemsOf, map_cons, map_nil, encodeItems,
        length_slice, nil_append]
    · have hne : slice array.mem partStart (array.len - partStart) ≠ [] := by
        rw [ne_eq, ← length_eq_zero_iff, length_slice]
        omega
      have hfull := hsegments.resolve_left hne
      by_cases hsep : array.mem j = splitChar
      · -- the end of a segment
        have hsplit : slice array.mem partStart (array.len - partStart) =
            slice array.mem partStart (j - partStart) ++ splitChar ::
              slice array.mem (j + 1) (array.len - (j + 1)) := by
          have hlength : array.len - partStart = (j - partStart) + (array.len - (j + 1) + 1) := by
            omega
          rw [hlength, slice_add, Nat.add_sub_cancel' hpart, slice_succ, hsep]
        have hpre : splitChar ∉ slice array.mem partStart (j - partStart) :=
          not_mem_slice fun k hle hk ↦ hnone k hle (by omega)
        rw [hsplit, splitOn_append_cons_self_of_not_mem hpre] at hfull ⊢
        have hrest : [] ∉ (slice array.mem (j + 1) (array.len - (j + 1))).splitOn splitChar :=
          fun hmem ↦ hfull (mem_cons_of_mem _ hmem)
        have hnext : j + 1 < array.len := by
          by_contra hend
          apply hrest
          rw [show array.len - (j + 1) = 0 by omega, slice_zero, splitOn_nil]
          exact mem_singleton_self _
        have hfirst : array.mem (j + 1) ≠ splitChar := by
          intro heq
          apply hrest
          rw [show array.len - (j + 1) = (array.len - (j + 2)) + 1 by omega, slice_succ, heq]
          have hempty := splitOn_append_cons_self_of_not_mem
            (not_mem_nil (a := splitChar)) (slice array.mem (j + 1 + 1) (array.len - (j + 2)))
          rw [nil_append] at hempty
          rw [hempty]
          exact mem_cons_self
        rw [if_pos (Or.inl hsep)]
        simp only [append_bytes, copyPart, nil_append, itemsOf, map_cons, encodeItems, length_slice]
        rw [ih (by omega) (Nat.le_succ _) hnext ?_ (Or.inr hrest)]
        · rfl
        · intro k hle hk
          rwa [show k = j + 1 by omega]
      · -- a character of the segment
        rw [if_neg (not_or.mpr ⟨hsep, hlt.ne⟩)]
        simp only [append_bytes, nil_append]
        rw [ih (by omega) (Nat.le_succ_of_le hpart) hlt ?_ hsegments]
        intro k hle hk
        rcases Nat.lt_succ_iff_lt_or_eq.mp hk with hbefore | rfl
        · exact hnone k hle hbefore
        · exact hsep

theorem serializeOption_bytes (hsegments : SegmentsNonempty p) {o : CoapOption}
    (hset : p.IsOption o.number) : (serializeOption p currentNumber o).bytes =
      encodeItems currentNumber (itemsOf o.number (optionValues p o)) := by
  cases o with
  | string s =>
    have hnumber : (CoapOption.string s).number = s.number := rfl
    rw [serializeOption, coapSerializeArrayOption, optionValues]
    by_cases hsplit : s.splitter ≠ 0
    · rw [if_pos hsplit, if_pos hsplit, segments, Text.chars]
      exact splitLoop_bytes (Nat.le_refl _) (Nat.zero_le _) (Nat.zero_le _)
        (fun k _ hk ↦ absurd hk (Nat.not_lt_zero k)) (hsegments s hsplit hset)
    · rw [if_neg hsplit, if_neg hsplit]
      simp [copyPart, itemsOf, encodeItems, Text.chars]
  | int i => simp [serializeOption, coapSerializeIntOption, optionValues, itemsOf, encodeItems]
  | byte b => simp [serializeOption, coapSerializeByteOption, optionValues, itemsOf, encodeItems]
  | block b => simp [serializeOption, coapSerializeIntOption, optionValues, itemsOf, encodeItems]
  | ifNoneMatch =>
    simp [serializeOption, coapSerializeIntOption, optionValues, itemsOf, encodeItems, intBytes]

theorem optionValues_ne_nil (p : Message) (o : CoapOption) : optionValues p o ≠ [] := by
  cases o with
  | string s =>
    rw [optionValues]
    split_ifs
    · exact splitOn_ne_nil _ _
    · exact cons_ne_nil _ _
  | _ => exact cons_ne_nil _ _

theorem encodeItems_append {values : List (List UInt8)} (hvalues : values ≠ [])
    (rest : List (ℕ × List UInt8)) : encodeItems currentNumber (itemsOf number values ++ rest) =
      encodeItems currentNumber (itemsOf number values) ++ encodeItems number rest := by
  induction values generalizing currentNumber with
  | nil => exact absurd rfl hvalues
  | cons value values ih =>
    simp only [itemsOf, map_cons, cons_append, encodeItems, append_assoc]
    by_cases hlast : values = []
    · rw [hlast]
      rfl
    · have hrest := @ih number hlast
      rw [itemsOf] at hrest
      rw [hrest]

theorem serializeOptions_bytes (hsegments : SegmentsNonempty p) (order : List CoapOption) :
    (serializeOptions p currentNumber order).bytes =
      encodeItems currentNumber (messageItems p order) := by
  induction order generalizing currentNumber with
  | nil => rfl
  | cons o order ih =>
    rw [serializeOptions, messageItems, flatMap_cons]
    split_ifs with hset
    · rw [append_bytes, serializeOption_bytes hsegments hset, ih,
        encodeItems_append (optionValues_ne_nil p o)]
      rfl
    · exact ih

end ContikiMaster.Coap
