import ContikiMaster.Coap.Parse
import ContikiMaster.Coap.Serialize
import Mathlib.Data.Nat.Bitwise
import Mathlib.Data.Nat.Log

/-!
# Option values

What the parser makes of the values, deltas and lengths that the serializer writes:
integers without leading zero bytes, blocks, and the extension bytes of an option
header.
-/

namespace ContikiMaster.Coap

open Lib Cursor List

theorem highBits_and {n m k : ℕ} (hn : n < 2 ^ (k + m)) :
    ((2 ^ m - 1) <<< k) &&& n = (n >>> k) <<< k := by
  apply Nat.eq_of_testBit_eq
  intro i
  rw [Nat.testBit_and, Nat.testBit_shiftLeft, Nat.testBit_shiftLeft, Nat.testBit_two_pow_sub_one,
    Nat.testBit_shiftRight]
  by_cases hi : k ≤ i
  · rw [Nat.add_sub_cancel' hi]
    by_cases hm : i - k < m
    · simp [hi, hm]
    · have hzero : n.testBit i = false :=
        Nat.testBit_lt_two_pow (hn.trans_le (Nat.pow_le_pow_right (by decide) (by omega)))
      simp [hzero]
  · simp [hi]

theorem mask_ne_zero {v w : UInt32} {k m : ℕ} (hmask : w.toNat = (2 ^ m - 1) <<< k)
    (hkm : k + m = 32) : w &&& v ≠ 0 ↔ 2 ^ k ≤ v.toNat := by
  have hzero : w &&& v = 0 ↔ v.toNat < 2 ^ k := by
    rw [← UInt32.toNat_inj, UInt32.toNat_and, hmask,
      highBits_and (by rw [hkm]; exact v.toNat_lt), Nat.shiftLeft_eq, Nat.shiftRight_eq_div_pow]
    simp [Nat.div_eq_zero_iff]
  rw [ne_eq, hzero, not_lt]

theorem intBytes_eq (v : UInt32) : intBytes v =
      (if 2 ^ 24 ≤ v.toNat then [(v >>> 24).toUInt8] else []) ++
      (if 2 ^ 16 ≤ v.toNat then [(v >>> 16).toUInt8] else []) ++
      (if 2 ^ 8 ≤ v.toNat then [(v >>> 8).toUInt8] else []) ++
      (if 2 ^ 0 ≤ v.toNat then [v.toUInt8] else []) := by
  unfold intBytes
  simp only [mask_ne_zero (v := v) (w := 0xFF000000) (k := 24) (m := 8) (by decide) rfl,
    mask_ne_zero (v := v) (w := 0xFFFF0000) (k := 16) (m := 16) (by decide) rfl,
    mask_ne_zero (v := v) (w := 0xFFFFFF00) (k := 8) (m := 24) (by decide) rfl,
    mask_ne_zero (v := v) (w := 0xFFFFFFFF) (k := 0) (m := 32) (by decide) rfl]

/-- The number of bytes of an integer without leading zeros. -/
def intSize (v : ℕ) : ℕ :=
  (if 2 ^ 24 ≤ v then 1 else 0) + (if 2 ^ 16 ≤ v then 1 else 0) + (if 2 ^ 8 ≤ v then 1 else 0) +
    (if 0 < v then 1 else 0)

theorem length_intBytes (v : UInt32) : (intBytes v).length = intSize v.toNat := by
  rw [intBytes_eq, intSize]
  simp only [length_append, apply_ite length, length_singleton, length_nil]
  rfl

theorem intSize_le (v : ℕ) : intSize v ≤ 4 := by
  unfold intSize
  split_ifs <;> omega

theorem toNat_shift_or (var : UInt32) (b : UInt8) (hvar : var.toNat < 2 ^ 24) :
    (var <<< 8 ||| b.toUInt32).toNat = var.toNat * 2 ^ 8 + b.toNat := by
  have hb : b.toNat < 2 ^ 8 := b.toNat_lt
  rw [UInt32.toNat_or, UInt32.toNat_shiftLeft, UInt8.toNat_toUInt32]
  change (var.toNat <<< 8) % 2 ^ 32 ||| b.toNat = _
  rw [Nat.mod_eq_of_lt (by rw [Nat.shiftLeft_eq]; omega), ← Nat.shiftLeft_add_eq_or_of_lt hb,
    Nat.shiftLeft_eq]

theorem toNat_byte (v : UInt32) (k : UInt32) (hk : k.toNat < 32) :
    (v >>> k).toUInt8.toNat = v.toNat / 2 ^ k.toNat % 2 ^ 8 := by
  rw [UInt32.toNat_toUInt8, UInt32.toNat_shiftRight, Nat.shiftRight_eq_div_pow, Nat.mod_eq_of_lt hk]

theorem coapParseIntOption_intBytes (v : UInt32) : coapParseIntOption (intBytes v) = v := by
  have hv : v.toNat < 2 ^ 32 := v.toNat_lt
  have h24 := toNat_byte v 24 (by decide)
  have h16 := toNat_byte v 16 (by decide)
  have h8 := toNat_byte v 8 (by decide)
  have h0 : v.toUInt8.toNat = v.toNat % 2 ^ 8 := UInt32.toNat_toUInt8 v
  have hzero : (0 : UInt32).toNat = 0 := rfl
  change _ = v.toNat / 2 ^ 24 % 2 ^ 8 at h24
  change _ = v.toNat / 2 ^ 16 % 2 ^ 8 at h16
  change _ = v.toNat / 2 ^ 8 % 2 ^ 8 at h8
  apply UInt32.toNat_inj.mp
  rw [intBytes_eq, coapParseIntOption]
  by_cases hfour : 2 ^ 24 ≤ v.toNat
  · have h₁ := toNat_shift_or 0 (v >>> 24).toUInt8 (by decide)
    have h₂ := toNat_shift_or _ (v >>> 16).toUInt8 (show _ < 2 ^ 24 by rw [h₁]; omega)
    have h₃ := toNat_shift_or _ (v >>> 8).toUInt8 (show _ < 2 ^ 24 by rw [h₂, h₁]; omega)
    have h₄ := toNat_shift_or _ v.toUInt8 (show _ < 2 ^ 24 by rw [h₃, h₂, h₁]; omega)
    rw [if_pos hfour, if_pos (by omega), if_pos (by omega), if_pos (by omega)]
    refine h₄.trans ?_
    rw [h₃, h₂, h₁]
    omega
  by_cases hthree : 2 ^ 16 ≤ v.toNat
  · have h₂ := toNat_shift_or 0 (v >>> 16).toUInt8 (by decide)
    have h₃ := toNat_shift_or _ (v >>> 8).toUInt8 (show _ < 2 ^ 24 by rw [h₂]; omega)
    have h₄ := toNat_shift_or _ v.toUInt8 (show _ < 2 ^ 24 by rw [h₃, h₂]; omega)
    rw [if_neg hfour, if_pos hthree, if_pos (by omega), if_pos (by omega)]
    refine h₄.trans ?_
    rw [h₃, h₂]
    omega
  by_cases htwo : 2 ^ 8 ≤ v.toNat
  · have h₃ := toNat_shift_or 0 (v >>> 8).toUInt8 (by decide)
    have h₄ := toNat_shift_or _ v.toUInt8 (show _ < 2 ^ 24 by rw [h₃]; omega)
    rw [if_neg hfour, if_neg hthree, if_pos htwo, if_pos (by omega)]
    refine h₄.trans ?_
    rw [h₃]
    omega
  by_cases hone : 2 ^ 0 ≤ v.toNat
  · have h₄ := toNat_shift_or 0 v.toUInt8 (by decide)
    rw [if_neg hfour, if_neg hthree, if_neg htwo, if_pos hone]
    refine h₄.trans ?_
    omega
  · rw [if_neg hfour, if_neg hthree, if_neg htwo, if_neg hone]
    change 0 = v.toNat
    omega

theorem coapOptionNibble_lt (value : ℕ) : (coapOptionNibble value).toNat < 15 := by
  unfold coapOptionNibble
  split_ifs with hshort
  · rw [UInt8.toNat_ofNat_of_lt' (hshort.trans (by decide))]
    omega
  · decide
  · decide

theorem toNat_nibbles {a b : UInt8} (ha : a.toNat < 16) (hb : b.toNat < 16) :
    (a <<< 4 ||| b).toNat = a.toNat * 2 ^ 4 + b.toNat := by
  rw [UInt8.toNat_or, UInt8.toNat_shiftLeft]
  change (a.toNat <<< 4) % 2 ^ 8 ||| b.toNat = _
  rw [Nat.mod_eq_of_lt (by rw [Nat.shiftLeft_eq]; omega),
    ← Nat.shiftLeft_add_eq_or_of_lt (i := 4) hb, Nat.shiftLeft_eq]

theorem headerByte_halves (delta length : ℕ) :
    let first := (coapOptionNibble delta <<< 4 ||| coapOptionNibble length).toNat
    first >>> 4 = (coapOptionNibble delta).toNat ∧
      first &&& 0x0F = (coapOptionNibble length).toNat := by
  have hdelta := coapOptionNibble_lt delta
  have hlength := coapOptionNibble_lt length
  have hfirst := toNat_nibbles (a := coapOptionNibble delta) (b := coapOptionNibble length)
    (by omega) (by omega)
  dsimp only
  rw [hfirst]
  constructor
  · rw [Nat.shiftRight_eq_div_pow]
    omega
  · have hmod := Nat.and_two_pow_sub_one_eq_mod
      ((coapOptionNibble delta).toNat * 2 ^ 4 + (coapOptionNibble length).toNat) 4
    change _ &&& 15 = _ at hmod
    rw [hmod]
    omega

/-- The number of extension bytes of a delta or a length. -/
def extensionSize (value : ℕ) : ℕ := if 268 < value then 2 else if 12 < value then 1 else 0

theorem length_extension (value : ℕ) : (extension value).length = extensionSize value := by
  unfold extension extensionSize
  split_ifs <;> rfl

theorem readExtension_extension {bits value current : ℕ} {mem : ℕ → UInt8} (hbits : 16 ≤ bits)
    (hvalue : value < 2 ^ 16) (hholds : Holds mem current (extension value)) :
    readExtension bits mem (coapOptionNibble value).toNat current =
      (value, current + extensionSize value, range' current (extensionSize value)) := by
  have hpow : 2 ^ 16 ≤ 2 ^ bits := Nat.pow_le_pow_right (by decide) hbits
  unfold extension at hholds
  unfold extensionSize
  by_cases hlong : 268 < value
  · rw [if_pos hlong] at hholds ⊢
    obtain ⟨hhigh, hrest⟩ := holds_cons.mp hholds
    obtain ⟨hlow, -⟩ := holds_cons.mp hrest
    have hhigh' : (mem current).toNat = (value - 269) / 2 ^ 8 := by
      rw [hhigh, UInt8.toNat_ofNat', Nat.shiftRight_eq_div_pow]
      omega
    have hlow' : (mem (current + 1)).toNat = (value - 269) % 2 ^ 8 := by
      rw [hlow, UInt8.toNat_ofNat']
    have hnibble : (coapOptionNibble value).toNat = 14 := by
      rw [coapOptionNibble, if_neg (by omega), if_neg (by omega)]
      rfl
    have hsum : 14 + 255 + (value - 269) / 2 ^ 8 * 2 ^ 8 + (value - 269) % 2 ^ 8 = value := by omega
    rw [hnibble, readExtension, if_neg (by omega), if_pos rfl, hhigh', hlow', Nat.shiftLeft_eq, hsum,
      Nat.mod_eq_of_lt (by omega)]
    rfl
  · rw [if_neg hlong] at hholds ⊢
    by_cases hmiddle : 12 < value
    · rw [if_pos hmiddle] at hholds ⊢
      have hbyte : (mem current).toNat = value - 13 := by
        rw [(holds_cons.mp hholds).1, UInt8.toNat_ofNat']
        omega
      have hnibble : (coapOptionNibble value).toNat = 13 := by
        rw [coapOptionNibble, if_neg (by omega), if_pos (by omega)]
        rfl
      rw [hnibble, readExtension, if_pos rfl, hbyte, Nat.add_sub_cancel' (by omega),
        Nat.mod_eq_of_lt (by omega)]
      rfl
    · have hnibble : (coapOptionNibble value).toNat = value := by
        rw [coapOptionNibble, if_pos (by omega), UInt8.toNat_ofNat']
        omega
      rw [if_neg hmiddle, hnibble, readExtension, if_neg (by omega), if_neg (by omega)]
      rfl

/-- The size that a block option can say: the largest power of two up to the size. -/
def saidSize (size : UInt16) : ℕ := 16 * 2 ^ coapLog2 (size / 16)

/-- The loop counts the halvings down to zero. -/
theorem coapLog2Turns_eq {fuel value : ℕ} (hlt : value < 2 ^ (fuel + 1)) :
    coapLog2Turns (fuel + 1) value = Nat.log 2 value + 1 := by
  induction fuel generalizing value with
  | zero =>
    have hsmall : value < 2 := hlt
    rw [coapLog2Turns, Nat.shiftRight_one, if_pos (Nat.div_eq_of_lt hsmall), Nat.log_of_lt hsmall]
  | succ fuel ih =>
    rw [coapLog2Turns, Nat.shiftRight_one]
    by_cases hsmall : value < 2
    · rw [if_pos (Nat.div_eq_of_lt hsmall), Nat.log_of_lt hsmall]
    · rw [if_neg (by omega), ih (by omega),
        Nat.log_of_one_lt_of_le Nat.one_lt_two (not_lt.mp hsmall)]

theorem coapLog2_div {size : UInt16} : coapLog2 (size / 16) = Nat.log 2 size.toNat - 4 := by
  rw [coapLog2, coapLog2Turns_eq (size / 16).toNat_lt, Nat.add_sub_cancel, UInt16.toNat_div]
  exact Nat.log_div_base_pow 2 size.toNat 4

theorem coapLog2_le {size : UInt16} (hhigh : size ≤ 2048) : coapLog2 (size / 16) ≤ 7 := by
  have hlog : Nat.log 2 size.toNat ≤ Nat.log 2 (2 ^ 11) := Nat.log_mono_right hhigh
  rw [Nat.log_pow Nat.one_lt_two] at hlog
  rw [coapLog2_div]
  omega

theorem saidSize_eq_iff {size : UInt16} (hlow : 16 ≤ size) :
    saidSize size = size.toNat ↔ ∃ k, size.toNat = 2 ^ k := by
  have hlow' : 2 ^ 4 ≤ size.toNat := hlow
  have hsaid : saidSize size = 2 ^ Nat.log 2 size.toNat := by
    have hfour := (Nat.le_log_iff_pow_le Nat.one_lt_two (by omega)).mpr hlow'
    rw [saidSize, coapLog2_div, show 16 = 2 ^ 4 from rfl, ← pow_add, Nat.add_sub_cancel' hfour]
  rw [hsaid]
  constructor
  · exact fun heq ↦ ⟨_, heq.symm⟩
  · rintro ⟨k, hk⟩
    rw [hk, Nat.log_pow Nat.one_lt_two]

theorem toNat_encodeBlock {b : Block} (hnum : b.num ≤ 0x0FFFFF) (hhigh : b.size ≤ 2048) :
    (encodeBlock b).toNat =
      b.num.toNat * 2 ^ 4 + ((if b.more ≠ 0 then 8 else 0) + coapLog2 (b.size / 16)) := by
  have hk := coapLog2_le hhigh
  have hnum' : b.num.toNat ≤ 0x0FFFFF := hnum
  have hshift : (b.num <<< 4).toNat = b.num.toNat <<< 4 := by
    rw [UInt32.toNat_shiftLeft]
    change (b.num.toNat <<< 4) % 2 ^ 32 = _
    rw [Nat.mod_eq_of_lt (by rw [Nat.shiftLeft_eq]; omega)]
  have hexponent : (UInt32.ofNat (0xF &&& coapLog2 (b.size / 16))).toNat = coapLog2 (b.size / 16) := by
    have hand := Nat.and_two_pow_sub_one_eq_mod (coapLog2 (b.size / 16)) 4
    rw [Nat.and_comm] at hand
    change 15 &&& _ = _ at hand
    rw [hand, Nat.mod_eq_of_lt (by omega), UInt32.toNat_ofNat']
    omega
  have hor : ∀ k ≤ 7, 8 ||| k = 8 + k := by decide
  unfold encodeBlock
  dsimp only
  split_ifs with hmore
  · rw [UInt32.toNat_or, UInt32.toNat_or, hshift, hexponent, Nat.or_assoc]
    change b.num.toNat <<< 4 ||| (8 ||| _) = _
    rw [hor _ hk, ← Nat.shiftLeft_add_eq_or_of_lt (by omega), Nat.shiftLeft_eq]
  · rw [UInt32.toNat_or, hshift, hexponent, ← Nat.shiftLeft_add_eq_or_of_lt (by omega),
      Nat.shiftLeft_eq, Nat.zero_add]

theorem toNat_parseBlock {value : UInt32} {num low : ℕ} (hvalue : value.toNat = num * 2 ^ 4 + low)
    (hlow : low < 16) :
    (parseBlock value).num.toNat = num ∧ (parseBlock value).more.toNat = low / 8 ∧
      (parseBlock value).size.toNat = 16 * 2 ^ (low % 8) ∧
      (parseBlock value).offset.toNat = num * (16 * 2 ^ (low % 8)) % 2 ^ 32 := by
  have hlt := value.toNat_lt
  have hexponent : (value &&& 0x07).toNat = low % 8 := by
    have hmod := Nat.and_two_pow_sub_one_eq_mod value.toNat 3
    change (value &&& 0x07).toNat = _ at hmod
    rw [hmod, hvalue]
    omega
  have hpower : 2 ^ (low % 8) ≤ 2 ^ 7 := Nat.pow_le_pow_right (by decide) (by omega)
  refine ⟨?_, ?_, ?_, ?_⟩
  · change (value >>> 4).toNat = _
    rw [UInt32.toNat_shiftRight]
    change value.toNat >>> 4 = _
    rw [Nat.shiftRight_eq_div_pow, hvalue]
    omega
  · change ((value &&& 0x08) >>> 3).toUInt8.toNat = _
    rw [UInt32.toNat_toUInt8, UInt32.toNat_shiftRight, UInt32.toNat_and]
    change ((value.toNat &&& 8) >>> 3) % 2 ^ 8 = _
    rw [Nat.shiftRight_and_distrib]
    change (value.toNat >>> 3 &&& 1) % 2 ^ 8 = _
    rw [Nat.and_one_is_mod, Nat.shiftRight_eq_div_pow, hvalue]
    omega
  · change ((16 : UInt32) <<< (value &&& 0x07)).toUInt16.toNat = _
    rw [UInt32.toNat_toUInt16, UInt32.toNat_shiftLeft, hexponent]
    change (16 <<< (low % 8 % 32)) % 2 ^ 32 % 2 ^ 16 = _
    rw [Nat.mod_eq_of_lt (show low % 8 < 32 by omega), Nat.shiftLeft_eq]
    omega
  · change ((value &&& 0xFFFFFFF0) <<< (value &&& 0x07)).toNat = _
    have hmask : (value &&& 0xFFFFFFF0).toNat = num * 2 ^ 4 := by
      have hhigh := highBits_and (n := value.toNat) (m := 28) (k := 4) hlt
      rw [Nat.and_comm] at hhigh
      change (value &&& 0xFFFFFFF0).toNat = _ at hhigh
      rw [hhigh, Nat.shiftLeft_eq, Nat.shiftRight_eq_div_pow, hvalue]
      omega
    rw [UInt32.toNat_shiftLeft, hexponent, hmask]
    change (num * 2 ^ 4) <<< (low % 8 % 32) % 2 ^ 32 = _
    rw [Nat.mod_eq_of_lt (show low % 8 < 32 by omega), Nat.shiftLeft_eq, Nat.mul_assoc]
    rfl

theorem toNat_parseBlock_encodeBlock {b : Block} (hnum : b.num ≤ 0x0FFFFF) (hhigh : b.size ≤ 2048) :
    (parseBlock (encodeBlock b)).num = b.num ∧
      (parseBlock (encodeBlock b)).more = (if b.more ≠ 0 then 1 else 0) ∧
      (parseBlock (encodeBlock b)).size.toNat = saidSize b.size ∧
      (parseBlock (encodeBlock b)).offset.toNat = b.num.toNat * saidSize b.size := by
  have hk := coapLog2_le hhigh
  have hnum' : b.num.toNat ≤ 0x0FFFFF := hnum
  have hvalue := toNat_encodeBlock hnum hhigh
  have hlow : (if b.more ≠ 0 then 8 else 0) + coapLog2 (b.size / 16) < 16 := by
    split_ifs <;> omega
  have hmod : ((if b.more ≠ 0 then 8 else 0) + coapLog2 (b.size / 16)) % 8 =
      coapLog2 (b.size / 16) := by
    split_ifs <;> omega
  obtain ⟨hparsedNum, hmore, hsize, hoffset⟩ := toNat_parseBlock hvalue hlow
  rw [hmod] at hsize hoffset
  refine ⟨UInt32.toNat_inj.mp hparsedNum, UInt8.toNat_inj.mp (hmore.trans ?_), hsize, ?_⟩
  · split_ifs
    · change _ = 1
      omega
    · change _ = 0
      omega
  · have hpower : 2 ^ coapLog2 (b.size / 16) ≤ 2 ^ 7 := Nat.pow_le_pow_right (by decide) hk
    have hproduct : b.num.toNat * (16 * 2 ^ coapLog2 (b.size / 16)) ≤ 0x0FFFFF * (16 * 2 ^ 7) :=
      Nat.mul_le_mul hnum' (Nat.mul_le_mul_left 16 hpower)
    rw [hoffset, Nat.mod_eq_of_lt (by omega), saidSize]

end ContikiMaster.Coap
