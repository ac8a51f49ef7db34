import ContikiMaster.Lib.Selection
import ContikiMaster.Tsch.InstalledLinks
import Mathlib.Data.Nat.ModEq
import Mathlib.Data.Prod.Lex
import Mathlib.Tactic.NormNum

/-!
# The slots the slot loop visits

The next active link is found in one pass over all links: the general selection of the
earliest item, with the slots to wait as the time, Tx links before others and low handles
before high ones as the rank, and the Rx option as what makes a backup. The slot loop stops
at every slot that has a link and at no other, as long as the remainders of the current slot
are exact, which an `int` of 16 bits does not always grant.
-/

namespace ContikiMaster.Tsch

open Sys Lib List Option

/-- The number an ASN stands for. -/
def TschAsn.value (asn : TschAsn) : ℕ := asn.ms1b * 2 ^ 32 + asn.ls4b

def asnProduct (asn : TschAsn) (val : ℕ) : ℕ := asn.ms1b * (2 ^ 32 % val)

/-- How often the product and the sum of `TSCH_ASN_MOD` exceed 16 bits. -/
def asnWraps (asn : TschAsn) (val : ℕ) : ℕ :=
  asnProduct asn val / 2 ^ 16 +
    (asn.ls4b % val + asnProduct asn val % 2 ^ 16 % val) / 2 ^ 16

/-- The installed links, each with its slotframe. -/
def placedLinks (s : Mac) : List (ℕ × ℕ) :=
  s.slotframeList.flatMap fun sf ↦ (s.slotframe sf).linksList.map fun l ↦ (sf, l)

/-- A link is active in the slots whose number, modulo the size of its slotframe, is its timeslot. -/
def ActiveAt (s : Mac) (l asn : ℕ) : Prop :=
  ∃ sf ∈ s.slotframeList, l ∈ (s.slotframe sf).linksList ∧
    asn % (s.slotframe sf).size = (s.link l).timeslot

/-- What `tsch_schedule_add_slotframe` and `tsch_schedule_add_link` check: sizes are positive and
have 16 bits, and timeslots lie in their slotframe. -/
structure InstalledSchedule (s : Mac) : Prop where
  size_pos : ∀ sf ∈ s.slotframeList, 0 < (s.slotframe sf).size
  size_lt : ∀ sf ∈ s.slotframeList, (s.slotframe sf).size < 65536
  timeslot_lt : ∀ sf ∈ s.slotframeList, ∀ l ∈ (s.slotframe sf).linksList,
    (s.link l).timeslot < (s.slotframe sf).size

variable {x : ℕ × ℕ}

theorem mem_placedLinks {s : Mac} :
    x ∈ placedLinks s ↔ x.1 ∈ s.slotframeList ∧ x.2 ∈ (s.slotframe x.1).linksList := by
  obtain ⟨sf, l⟩ := x
  unfold placedLinks
  simp only [List.mem_flatMap, List.mem_map, Prod.mk.injEq]
  constructor
  · rintro ⟨sf', hsf, l', hl, rfl, rfl⟩
    exact ⟨hsf, hl⟩
  · rintro ⟨hsf, hl⟩
    exact ⟨sf, hsf, l, hl, rfl, rfl⟩

/-! ## Slots to wait -/

/-- The slots from one slot of a slotframe to the next occurrence of another. -/
def slotsTo (size timeslot target : ℕ) : ℕ :=
  if timeslot < target then target - timeslot else (size + target - timeslot) % 65536

section Asn

variable {asn : TschAsn} {w : IntWidth} {size now target val : ℕ}

theorem TschAsn.mod_def (asn : TschAsn) (w : IntWidth) (val : ℕ) : asn.mod w val =
    w.wrap (asn.ls4b % val % 2 ^ 16 + w.wrap (asn.ms1b * (2 ^ 32 % val)) % val % 2 ^ 16) % val := by
  have hhigh : (0xffffffff % val + 1) % val = 2 ^ 32 % val := Nat.mod_add_mod _ _ _
  unfold TschAsn.mod
  rw [hhigh]
  rfl

/-- The exact remainder is that of the product and the low bytes. -/
theorem TschAsn.value_modEq : asn.value ≡ asn.ls4b % val + asnProduct asn val [MOD val] := by
  have hlow : asn.ls4b % val ≡ asn.ls4b [MOD val] := Nat.mod_modEq _ _
  have hproduct : asnProduct asn val ≡ asn.ms1b * 2 ^ 32 [MOD val] := (Nat.mod_modEq _ _).mul_left _
  have hvalue : asn.value = asn.ls4b + asn.ms1b * 2 ^ 32 := Nat.add_comm _ _
  rw [hvalue]
  exact (hlow.add hproduct).symm

/-- With 32 bits nothing wraps. -/
theorem TschAsn.mod_bits32 (hms : asn.ms1b < 256) (hval : 0 < val) (hmax : val < 65536) :
    asn.mod .bits32 val = asn.value % val := by
  have hlow : asn.ls4b % val < val := Nat.mod_lt _ hval
  have hremainder : 2 ^ 32 % val < val := Nat.mod_lt _ hval
  have hproduct : asn.ms1b * (2 ^ 32 % val) < 2 ^ 32 := by
    calc
      asn.ms1b * (2 ^ 32 % val) ≤ 255 * 65535 := Nat.mul_le_mul (by omega) (by omega)
      _ < 2 ^ 32 := by norm_num
  have hhigh : asn.ms1b * (2 ^ 32 % val) % val < val := Nat.mod_lt _ hval
  have hsum : asn.ls4b % val + asn.ms1b * (2 ^ 32 % val) % val < 2 ^ 32 := by omega
  rw [TschAsn.mod_def]
  unfold IntWidth.wrap
  dsimp only [IntWidth.bits]
  rw [Nat.mod_eq_of_lt hproduct, Nat.mod_eq_of_lt (by omega : asn.ls4b % val < 2 ^ 16),
    Nat.mod_eq_of_lt (by omega : asn.ms1b * (2 ^ 32 % val) % val < 2 ^ 16),
    Nat.mod_eq_of_lt hsum]
  calc
    (asn.ls4b % val + asn.ms1b * (2 ^ 32 % val) % val) % val =
        (asn.ls4b % val + asn.ms1b * (2 ^ 32 % val)) % val := Nat.add_mod_mod _ _ _
    _ = asn.value % val := TschAsn.value_modEq.symm

/-- With 16 bits the result misses the exact one by what the product and the sum have lost. -/
theorem TschAsn.mod_bits16 (hval : 0 < val) (hmax : val < 65536) :
    asn.mod .bits16 val + 2 ^ 16 * asnWraps asn val ≡
      asn.value [MOD val] := by
  have hlow : asn.ls4b % val < val := Nat.mod_lt _ hval
  have hhigh : asnProduct asn val % 2 ^ 16 % val < val := Nat.mod_lt _ hval
  have hmod : asn.mod .bits16 val =
      (asn.ls4b % val + asnProduct asn val % 2 ^ 16 % val) % 2 ^ 16 % val := by
    rw [TschAsn.mod_def]
    unfold IntWidth.wrap
    dsimp only [IntWidth.bits]
    change (asn.ls4b % val % 2 ^ 16 + asnProduct asn val % 2 ^ 16 % val % 2 ^ 16) % 2 ^ 16 % val = _
    rw [Nat.mod_eq_of_lt (by omega : asn.ls4b % val < 2 ^ 16),
      Nat.mod_eq_of_lt (by omega : asnProduct asn val % 2 ^ 16 % val < 2 ^ 16)]
  set product := asnProduct asn val with hproduct
  set sum := asn.ls4b % val + product % 2 ^ 16 % val with hsum
  have hsplit : sum % 2 ^ 16 + 2 ^ 16 * asnWraps asn val = sum + 2 ^ 16 * (product / 2 ^ 16) := by
    unfold asnWraps
    rw [← hproduct, ← hsum]
    have := Nat.mod_add_div sum (2 ^ 16)
    omega
  calc
    asn.mod .bits16 val + 2 ^ 16 * asnWraps asn val ≡
        sum % 2 ^ 16 + 2 ^ 16 * asnWraps asn val [MOD val] := by
      rw [hmod]
      exact (Nat.mod_modEq _ _).add_right _
    _ = sum + 2 ^ 16 * (product / 2 ^ 16) := hsplit
    _ ≡ asn.ls4b % val + product % 2 ^ 16 + 2 ^ 16 * (product / 2 ^ 16) [MOD val] :=
      ((Nat.mod_modEq _ _).add_left _).add_right _
    _ = asn.ls4b % val + product := by rw [Nat.add_assoc, Nat.mod_add_div]
    _ ≡ asn.value [MOD val] := TschAsn.value_modEq.symm

/-- With 16 bits the remainder is exact when what is lost is a multiple of the divisor. -/
theorem TschAsn.mod_bits16_iff (hval : 0 < val) (hmax : val < 65536) :
    asn.mod .bits16 val = asn.value % val ↔
      val ∣ 2 ^ 16 * asnWraps asn val := by
  have hmiss : _ ≡ asn.value [MOD val] := TschAsn.mod_bits16 hval hmax
  have hlt : asn.mod .bits16 val < val := Nat.mod_lt _ hval
  rw [← Nat.modEq_zero_iff_dvd]
  constructor
  · intro hexact
    have hsame : asn.mod .bits16 val ≡ asn.value [MOD val] := by
      rw [hexact]
      exact Nat.mod_modEq _ _
    exact Nat.ModEq.add_left_cancel hsame (hmiss.trans (by rw [Nat.add_zero]))
  · intro hlost
    have hsame : asn.mod .bits16 val ≡ asn.value [MOD val] := by
      calc
        asn.mod .bits16 val =
            asn.mod .bits16 val + 0 := (Nat.add_zero _).symm
        _ ≡ asn.mod .bits16 val + 2 ^ 16 * asnWraps asn val [MOD val] :=
          hlost.symm.add_left _
        _ ≡ asn.value [MOD val] := hmiss
    rw [← Nat.mod_eq_of_lt hlt]
    exact hsame

/-- The remainder is exact with 32 bits, and with 16 bits when what is lost is a multiple of the
divisor. -/
theorem TschAsn.mod_eq_iff (hms : asn.ms1b < 256) (hval : 0 < val) (hmax : val < 65536) :
    asn.mod w val = asn.value % val ↔ w = .bits32 ∨ val ∣ 2 ^ 16 * asnWraps asn val := by
  cases w with
  | bits32 => exact iff_of_true (TschAsn.mod_bits32 hms hval hmax) (.inl rfl)
  | bits16 => simpa using TschAsn.mod_bits16_iff hval hmax

theorem slotsTo_eq (hsize : size < 65536) :
    slotsTo size now target = if now < target then target - now else size + target - now := by
  unfold slotsTo
  split
  · rfl
  · exact Nat.mod_eq_of_lt (by omega)

theorem slotsTo_pos (hnow : now < size) (hsize : size < 65536) : 0 < slotsTo size now target := by
  rw [slotsTo_eq hsize]
  split
  · omega
  · omega

theorem slotsTo_hits (value : ℕ) (htarget : target < size) (hsize : size < 65536) :
    (value + slotsTo size (value % size) target) % size = target := by
  have hnow : value % size < size := Nat.mod_lt _ (by omega)
  rw [← Nat.mod_add_mod, slotsTo_eq hsize]
  split
  · rename_i hlt
    rw [Nat.add_sub_of_le hlt.le, Nat.mod_eq_of_lt htarget]
  · have hround : value % size + (size + target - value % size) = size + target := by omega
    rw [hround, Nat.add_mod_left, Nat.mod_eq_of_lt htarget]

/-- A slot from which the slots to wait lead to the target is the current one. -/
theorem eq_mod_of_slotsTo_hits {value : ℕ} (hnow : now < size) (htarget : target < size)
    (hsize : size < 65536) (hhits : (value + slotsTo size now target) % size = target) :
    now = value % size := by
  have hback : (now + slotsTo size now target) % size = target := by
    have hhere := slotsTo_hits now htarget hsize
    rwa [Nat.mod_eq_of_lt hnow] at hhere
  have hsame : value ≡ now [MOD size] := Nat.ModEq.add_right_cancel' _ (hhits.trans hback.symm)
  calc
    now = now % size := (Nat.mod_eq_of_lt hnow).symm
    _ = value % size := hsame.symm

theorem slotsTo_least {value slots : ℕ} (htarget : target < size) (hsize : size < 65536)
    (hpos : 0 < slots) (hhits : (value + slots) % size = target) :
    slotsTo size (value % size) target ≤ slots := by
  have hnow : value % size < size := Nat.mod_lt _ (by omega)
  rw [← Nat.mod_add_mod] at hhits
  rw [slotsTo_eq hsize]
  generalize value % size = now at hnow hhits
  by_contra hearly
  split at hearly
  · rw [Nat.mod_eq_of_lt (by omega)] at hhits
    omega
  · by_cases hround : now + slots < size
    · rw [Nat.mod_eq_of_lt hround] at hhits
      omega
    · rw [Nat.mod_eq_sub_mod (by omega), Nat.mod_eq_of_lt (by omega)] at hhits
      omega

end Asn

/-! ## The pass as a selection -/

/-- The slots until a placed link is active. -/
def waitOf (s : Mac) (x : ℕ × ℕ) : ℕ :=
  slotsTo (s.slotframe x.1).size (s.tschCurrentAsn.mod s.intWidth (s.slotframe x.1).size) (s.link x.2).timeslot

/-- By standard: Tx links first, then the lowest slotframe handle. -/
def rankOf (s : Mac) (x : ℕ × ℕ) : ℕ ×ₗ ℕ :=
  toLex (if linkOptionTx (s.link x.2).linkOptions then 0 else 1, (s.link x.2).slotframeHandle)

def hasRx (s : Mac) (x : ℕ × ℕ) : Bool := linkOptionRx (s.link x.2).linkOptions

/-- The candidate of the pass, with the links alone. -/
def nextLinkOf (c : Candidate (ℕ × ℕ)) : NextLink :=
  ⟨c.time, c.best.map Prod.snd, c.backup.map Prod.snd⟩

section Pass

variable {s : Mac}

variable {y b : ℕ × ℕ} {slots l : ℕ}

theorem rankOf_lt : rankOf s x < rankOf s y ↔
    if linkOptionTx (s.link y.2).linkOptions = linkOptionTx (s.link x.2).linkOptions then
      (s.link x.2).slotframeHandle < (s.link y.2).slotframeHandle
    else linkOptionTx (s.link x.2).linkOptions = true := by
  unfold rankOf
  rw [Prod.Lex.toLex_lt_toLex]
  cases linkOptionTx (s.link x.2).linkOptions <;> cases linkOptionTx (s.link y.2).linkOptions <;>
    simp

theorem newBest_eq (x b : ℕ × ℕ) :
    (if linkOptionTx (s.link b.2).linkOptions = linkOptionTx (s.link x.2).linkOptions then
      if (s.link x.2).slotframeHandle < (s.link b.2).slotframeHandle then some x.2 else none
    else if linkOptionTx (s.link x.2).linkOptions then some x.2 else none) =
      if rankOf s x < rankOf s b then some x.2 else none := by
  simp only [rankOf_lt]
  split
  · rfl
  · rfl

theorem ne_of_rankOf_lt (hlt : rankOf s x < rankOf s b) : x.2 ≠ b.2 := by
  intro heq
  have hsame : rankOf s x = rankOf s b := by
    unfold rankOf
    rw [heq]
  exact absurd hlt (hsame ▸ lt_irrefl _)

theorem nextLinkStep_eq (s : Mac) (c : Candidate (ℕ × ℕ)) (x : ℕ × ℕ) :
    nextLinkStep s x.1 (s.tschCurrentAsn.mod s.intWidth (s.slotframe x.1).size) (nextLinkOf c) x.2 =
      nextLinkOf (c.step (waitOf s) (rankOf s) (hasRx s) x) := by
  obtain ⟨time, best, backup⟩ := c
  cases best with
  | none => rfl
  | some b =>
    have hwait : (if s.tschCurrentAsn.mod s.intWidth (s.slotframe x.1).size < (s.link x.2).timeslot then
        (s.link x.2).timeslot - s.tschCurrentAsn.mod s.intWidth (s.slotframe x.1).size
        else ((s.slotframe x.1).size + (s.link x.2).timeslot -
          s.tschCurrentAsn.mod s.intWidth (s.slotframe x.1).size) % 65536) = waitOf s x := rfl
    unfold nextLinkStep Candidate.step nextLinkOf
    simp only [map_some, hwait, newBest_eq]
    split
    · rfl
    · split
      · congr 1
        · split
          · rfl
          · rfl
        · unfold Candidate.nextBackup
          cases backup with
          | some backup => rfl
          | none =>
            simp only [map_none]
            by_cases hlt : rankOf s x < rankOf s b
            · have hne := ne_of_rankOf_lt hlt
              by_cases hspare : linkOptionRx (s.link b.2).linkOptions = true
              · simp [hlt, hne, hasRx, hspare]
              · simp [hlt, hasRx, hspare]
            · by_cases hspare : linkOptionRx (s.link b.2).linkOptions = true
              · simp [hlt, hasRx, hspare]
              · by_cases hnew : linkOptionRx (s.link x.2).linkOptions = true
                · simp [hlt, hasRx, hspare, hnew]
                · simp [hasRx, hspare, hnew]
      · rfl

theorem tschScheduleGetNextActiveLink_eq (hlocked : s.tschLocked = false) :
    tschScheduleGetNextActiveLink s =
      nextLinkOf (select (waitOf s) (rankOf s) (hasRx s) (placedLinks s)) := by
  have hpass : ∀ (items : List (ℕ × ℕ)) (c : Candidate (ℕ × ℕ)),
      items.foldl (fun best x ↦ nextLinkStep s x.1
        (s.tschCurrentAsn.mod s.intWidth (s.slotframe x.1).size) best x.2) (nextLinkOf c) =
        nextLinkOf (items.foldl (Candidate.step (waitOf s) (rankOf s) (hasRx s)) c) := by
    intro items
    induction items with
    | nil => exact fun c ↦ rfl
    | cons x items ih =>
      intro c
      rw [foldl_cons, foldl_cons, nextLinkStep_eq]
      exact ih _
  unfold tschScheduleGetNextActiveLink
  rw [hlocked, if_neg Bool.false_ne_true]
  unfold select
  rw [← hpass (placedLinks s) ⟨0, none, none⟩]
  unfold placedLinks
  rw [foldl_flatMap]
  simp only [foldl_map]
  rfl

/-- The remainder of the current slot number is exact for every slotframe with links. -/
def RemaindersExact (s : Mac) : Prop :=
  ∀ sf ∈ s.slotframeList, (s.slotframe sf).linksList ≠ [] → s.intWidth = .bits32 ∨
    (s.slotframe sf).size ∣ 2 ^ 16 * asnWraps s.tschCurrentAsn (s.slotframe sf).size

/-- What `TSCH_ASN_MOD` gives for the slotframe of a placed link. -/
def ModExact (s : Mac) : Prop :=
  ∀ x ∈ placedLinks s, s.tschCurrentAsn.mod s.intWidth (s.slotframe x.1).size =
    s.tschCurrentAsn.value % (s.slotframe x.1).size

theorem modExact_iff (hinstalled : InstalledSchedule s) (hms : s.tschCurrentAsn.ms1b < 256) :
    ModExact s ↔ RemaindersExact s := by
  have hiff : ∀ sf ∈ s.slotframeList, _ := fun sf hsf ↦
    TschAsn.mod_eq_iff (w := s.intWidth) hms (hinstalled.size_pos sf hsf) (hinstalled.size_lt sf hsf)
  constructor
  · intro hexact sf hsf hlinks
    obtain ⟨l, hl⟩ := exists_mem_of_ne_nil _ hlinks
    exact (hiff sf hsf).mp (hexact (sf, l) (mem_placedLinks.mpr ⟨hsf, hl⟩))
  · intro hexact x hx
    obtain ⟨hsf, hl⟩ := mem_placedLinks.mp hx
    exact (hiff x.1 hsf).mpr (hexact x.1 hsf (ne_nil_of_mem hl))

theorem activeAt_waitOf (hinstalled : InstalledSchedule s) (hexact : ModExact s)
    (hx : x ∈ placedLinks s) :
    0 < waitOf s x ∧ ActiveAt s x.2 (s.tschCurrentAsn.value + waitOf s x) := by
  obtain ⟨hsf, hl⟩ := mem_placedLinks.mp hx
  have hsize := hinstalled.size_lt x.1 hsf
  have htimeslot := hinstalled.timeslot_lt x.1 hsf x.2 hl
  unfold waitOf
  rw [hexact x hx]
  exact ⟨slotsTo_pos (Nat.mod_lt _ (hinstalled.size_pos x.1 hsf)) hsize,
    x.1, hsf, hl, slotsTo_hits _ htimeslot hsize⟩

theorem exists_waitOf_le (hinstalled : InstalledSchedule s) (hexact : ModExact s) (hpos : 0 < slots)
    (hactive : ActiveAt s l (s.tschCurrentAsn.value + slots)) :
    ∃ sf, (sf, l) ∈ placedLinks s ∧ waitOf s (sf, l) ≤ slots := by
  obtain ⟨sf, hsf, hl, hhits⟩ := hactive
  have hmem : (sf, l) ∈ placedLinks s := mem_placedLinks.mpr ⟨hsf, hl⟩
  refine ⟨sf, hmem, ?_⟩
  unfold waitOf
  rw [hexact _ hmem]
  exact slotsTo_least (hinstalled.timeslot_lt sf hsf l hl) (hinstalled.size_lt sf hsf) hpos hhits

theorem active_of_selected (hinstalled : InstalledSchedule s) (hexact : ModExact s) {c : Candidate (ℕ × ℕ)}
    (hselected : Selected (waitOf s) (rankOf s) (hasRx s) (placedLinks s) c b) (hpos : 0 < slots)
    (hle : slots ≤ waitOf s b) (hactive : ActiveAt s l (s.tschCurrentAsn.value + slots)) :
    slots = waitOf s b ∧ ∃ sf, (sf, l) ∈ placedLinks s ∧ waitOf s (sf, l) = waitOf s b := by
  obtain ⟨sf, hmem, hwait⟩ := exists_waitOf_le hinstalled hexact hpos hactive
  have hearliest := hselected.earliest _ hmem
  exact ⟨by omega, sf, hmem, by omega⟩

theorem rankOf_le (hle : rankOf s x ≤ rankOf s y) :
    (linkOptionTx (s.link y.2).linkOptions = true → linkOptionTx (s.link x.2).linkOptions = true) ∧
      (linkOptionTx (s.link y.2).linkOptions = linkOptionTx (s.link x.2).linkOptions →
        (s.link x.2).slotframeHandle ≤ (s.link y.2).slotframeHandle) := by
  unfold rankOf at hle
  rw [Prod.Lex.toLex_le_toLex] at hle
  cases hx : linkOptionTx (s.link x.2).linkOptions <;>
    cases hy : linkOptionTx (s.link y.2).linkOptions <;> simp [hx, hy] at hle ⊢ <;> exact hle

/-- The next active link, with its offset and its backup. -/
structure NextIsActive (s : Mac) (d b : ℕ) (backup : Option ℕ) : Prop where
  pos : 1 ≤ d
  active : ActiveAt s b (s.tschCurrentAsn.value + d)
  earliest : ∀ l slots, 0 < slots → slots < d → ¬ ActiveAt s l (s.tschCurrentAsn.value + slots)
  best : ∀ l, ActiveAt s l (s.tschCurrentAsn.value + d) →
    (linkOptionTx (s.link l).linkOptions = true → linkOptionTx (s.link b).linkOptions = true) ∧
      (linkOptionTx (s.link l).linkOptions = linkOptionTx (s.link b).linkOptions →
        (s.link b).slotframeHandle ≤ (s.link l).slotframeHandle)
  backup : linkOptionRx (s.link b).linkOptions = false →
    ∀ l, ActiveAt s l (s.tschCurrentAsn.value + d) → linkOptionRx (s.link l).linkOptions = true →
      ∃ k, backup = some k ∧ ActiveAt s k (s.tschCurrentAsn.value + d) ∧
        linkOptionRx (s.link k).linkOptions = true

/-- The slot loop visits the active slots. -/
def VisitsActive (s : Mac) : Prop :=
  ∀ d b backup, tschScheduleGetNextActiveLink s = ⟨d, some b, backup⟩ → NextIsActive s d b backup

def OneSize (s : Mac) : Prop :=
  ∀ sf ∈ s.slotframeList, ∀ sf' ∈ s.slotframeList, (s.slotframe sf).linksList ≠ [] →
    (s.slotframe sf').linksList ≠ [] → (s.slotframe sf).size = (s.slotframe sf').size

theorem nextActiveLink_eq_some {d b : ℕ} {backup : Option ℕ}
    (hnext : tschScheduleGetNextActiveLink s = ⟨d, some b, backup⟩) : s.tschLocked = false := by
  by_contra hlocked
  unfold tschScheduleGetNextActiveLink at hnext
  rw [if_pos (by simpa using hlocked)] at hnext
  cases hnext

theorem ModExact.visitsActive (hexact : ModExact s) (hinstalled : InstalledSchedule s) :
    VisitsActive s := by
  intro d b backup hnext
  have hlocked := nextActiveLink_eq_some hnext
  rw [tschScheduleGetNextActiveLink_eq hlocked] at hnext
  have hd : (select (waitOf s) (rankOf s) (hasRx s) (placedLinks s)).time = d :=
    congrArg NextLink.timeToCurrBest hnext
  have hbest := congrArg NextLink.currBest hnext
  have hbackup := congrArg NextLink.currBackup hnext
  obtain ⟨⟨sfb, b'⟩, hsome, rfl⟩ := map_eq_some_iff.mp hbest
  have hselected := select_selected hsome
  obtain ⟨hpos, hactive⟩ := activeAt_waitOf hinstalled hexact hselected.mem
  have htime : waitOf s (sfb, b') = d := hselected.time_eq.symm.trans hd
  rw [htime] at hpos hactive
  refine ⟨hpos, hactive, fun l slots hslots hlt hearly ↦ ?_, fun l hl ↦ ?_, fun hrx l hl hlrx ↦ ?_⟩
  · have hsame := (active_of_selected hinstalled hexact hselected hslots (htime ▸ hlt.le) hearly).1
    omega
  · obtain ⟨-, sf, hmem, hwait⟩ := active_of_selected hinstalled hexact hselected hpos htime.ge hl
    exact rankOf_le (hselected.lowest _ hmem hwait)
  · obtain ⟨-, sf, hmem, hwait⟩ := active_of_selected hinstalled hexact hselected hpos htime.ge hl
    cases hkept : (select (waitOf s) (rankOf s) (hasRx s) (placedLinks s)).backup with
    | none =>
      have heq := hselected.no_backup hkept _ hmem hwait hlrx
      have hl' : l = b' := congrArg Prod.snd heq
      rw [hl', hrx] at hlrx
      cases hlrx
    | some k =>
      obtain ⟨hkmem, hkwait, hkrx⟩ := hselected.backup_spare k hkept
      have hkactive := (activeAt_waitOf hinstalled hexact hkmem).2
      rw [hkwait, htime] at hkactive
      have hreturned : backup = some k.2 := by
        calc
          backup = (select (waitOf s) (rankOf s) (hasRx s) (placedLinks s)).backup.map Prod.snd :=
            hbackup.symm
          _ = some k.2 := by
            rw [hkept]
            rfl
      exact ⟨k.2, hreturned, hkactive, hkrx⟩

/-- Where the slotframes have one size, visiting the active slots takes exact remainders. -/
theorem VisitsActive.modExact (hvisits : VisitsActive s) (hinstalled : InstalledSchedule s)
    (hunlocked : s.tschLocked = false) (hsize : OneSize s) : ModExact s := by
  intro x hx
  obtain ⟨⟨sfb, b⟩, hselected⟩ := exists_selected (waitOf s) (rankOf s) (hasRx s)
    (ne_nil_of_mem hx)
  have hnext : tschScheduleGetNextActiveLink s = ⟨waitOf s (sfb, b), some b,
      (select (waitOf s) (rankOf s) (hasRx s) (placedLinks s)).backup.map Prod.snd⟩ := by
    rw [tschScheduleGetNextActiveLink_eq hunlocked]
    unfold nextLinkOf
    rw [hselected.best, hselected.time_eq]
    rfl
  obtain ⟨hsfb, hb⟩ := mem_placedLinks.mp hselected.mem
  obtain ⟨sf, hsf, hl, hhits⟩ := (hvisits _ _ _ hnext).active
  obtain ⟨hsfx, hlx⟩ := mem_placedLinks.mp hx
  rw [hsize sf hsf sfb hsfb (ne_nil_of_mem hl) (ne_nil_of_mem hb)] at hhits
  rw [hsize x.1 hsfx sfb hsfb (ne_nil_of_mem hlx) (ne_nil_of_mem hb)]
  exact eq_mod_of_slotsTo_hits (Nat.mod_lt _ (hinstalled.size_pos sfb hsfb))
    (hinstalled.timeslot_lt sfb hsfb b hb) (hinstalled.size_lt sfb hsfb) hhits

/-- The slot loop visits the active slots if the remainders are exact, and with slotframes of one
size only then. -/
theorem visitsActive_of_remaindersExact (hinstalled : InstalledSchedule s)
    (hms : s.tschCurrentAsn.ms1b < 256) (hunlocked : s.tschLocked = false) :
    (RemaindersExact s → VisitsActive s) ∧ (OneSize s → (VisitsActive s ↔ RemaindersExact s)) := by
  rw [← modExact_iff hinstalled hms]
  exact ⟨fun hexact ↦ hexact.visitsActive hinstalled, fun hsize ↦
    ⟨fun hvisits ↦ hvisits.modExact hinstalled hunlocked hsize,
      fun hexact ↦ hexact.visitsActive hinstalled⟩⟩

/-- A slotframe with a Tx link, on a target whose `int` has 16 bits. -/
def oneTxLink (asn : TschAsn) (size timeslot : ℕ) : Mac :=
  { Mac.zero smallConfig with
    intWidth := .bits16
    tschCurrentAsn := asn
    slotframeList := [0]
    slotframeMemb := (Mac.zero smallConfig).slotframeMemb.store 0 ⟨1, size, [0]⟩
    linkMemb := (Mac.zero smallConfig).linkMemb.store 0 ⟨0, flowAddr 1, 1, timeslot, 0, 1, .normal⟩ }

theorem installedSchedule_oneTxLink {asn : TschAsn} {size timeslot : ℕ} (hsize : size < 65536)
    (htimeslot : timeslot < size) : InstalledSchedule (oneTxLink asn size timeslot) := by
  constructor
  · intro sf hsf
    obtain rfl := mem_singleton.mp hsf
    exact Nat.zero_lt_of_lt htimeslot
  · intro sf hsf
    obtain rfl := mem_singleton.mp hsf
    exact hsize
  · intro sf hsf l hl
    obtain rfl := mem_singleton.mp hsf
    obtain rfl := mem_singleton.mp hl
    exact htimeslot

theorem visitsActive_oneTxLink : VisitsActive (oneTxLink ⟨7, 3⟩ 101 5) :=
  (visitsActive_of_remaindersExact (installedSchedule_oneTxLink (by decide) (by decide)) (by decide)
    rfl).1 (by unfold RemaindersExact; decide)

/-- With a slotframe of 1000 slots, the number 255 times 2 ^ 32 is taken for slot 944 and not
480. -/
theorem not_visitsActive_oneTxLink : InstalledSchedule (oneTxLink ⟨0, 255⟩ 1000 945) ∧
    ¬ VisitsActive (oneTxLink ⟨0, 255⟩ 1000 945) := by
  refine ⟨installedSchedule_oneTxLink (by decide) (by decide), fun hvisits ↦ ?_⟩
  obtain ⟨sf, hsf, -, hhits⟩ := (hvisits 1 0 none rfl).active
  obtain rfl := mem_singleton.mp hsf
  exact absurd hhits (by decide +kernel)

end Pass

end ContikiMaster.Tsch
