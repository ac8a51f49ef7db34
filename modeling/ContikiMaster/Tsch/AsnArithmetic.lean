import ContikiMaster.Tsch.Associate
import ContikiMaster.Tsch.NextActiveLink

/-!
# The arithmetic of absolute slot numbers

The macros of `tsch-asn.h` on targets whose `int` has 16 or 32 bits. The product and the
sum of `TSCH_ASN_MOD` may wrap on a 16-bit target, and the remainder is right exactly when
what is lost is a multiple of the divisor.
-/

namespace ContikiMaster.Tsch

/-- `TSCH_ASN_DEC`. -/
def TschAsn.dec (asn : TschAsn) (by_ : ℕ) : TschAsn :=
  let newLs4b := (asn.ls4b + (2 ^ 32 - by_)) % 2 ^ 32
  { ls4b := newLs4b, ms1b := if asn.ls4b < newLs4b then (asn.ms1b + 255) % 256 else asn.ms1b }

/-- The absolute slot number of its two fields. -/
def tschAsn (ms1b : UInt8) (ls4b : UInt32) : TschAsn := ⟨ls4b.toNat, ms1b.toNat⟩

/-- The macros compute with the number that the two fields stand for. -/
structure AsnExact (w : IntWidth) (asn : TschAsn) (val by_ : ℕ) : Prop where
  mod : (tschAsnDivisorInit none val).map (tschAsnMod w asn) = some (asn.value % val)
  inc : (asn.inc by_).value = (asn.value + by_) % 2 ^ 40
  dec : (asn.dec by_).value = (asn.value + (2 ^ 40 - by_)) % 2 ^ 40

section Exact

variable {w : IntWidth} {asn : TschAsn} {val by_ : ℕ}

theorem TschAsn.value_inc_mod (hls : asn.ls4b < 2 ^ 32) (hms : asn.ms1b < 256)
    (hby : by_ < 2 ^ 32) : (asn.inc by_).value = (asn.value + by_) % 2 ^ 40 := by
  unfold TschAsn.value TschAsn.inc
  dsimp only
  split <;> omega

theorem TschAsn.value_dec_mod (hls : asn.ls4b < 2 ^ 32) (hms : asn.ms1b < 256)
    (hby : by_ < 2 ^ 32) : (asn.dec by_).value = (asn.value + (2 ^ 40 - by_)) % 2 ^ 40 := by
  unfold TschAsn.value TschAsn.dec
  dsimp only
  split <;> omega

end Exact

/-- The macros are exact for an `int` of 32 bits, and for one of 16 bits exactly when what the product
and the sum of `TSCH_ASN_MOD` lose is a multiple of the divisor. -/
theorem asnExact_iff (w : IntWidth) (ms1b : UInt8) (ls4b : UInt32) (val : UInt16) (by_ : UInt32)
    (hval : val ≠ 0) :
    AsnExact w (tschAsn ms1b ls4b) val.toNat by_.toNat ↔
      w = .bits32 ∨ val.toNat ∣ 2 ^ 16 * asnWraps (tschAsn ms1b ls4b) val.toNat := by
  have hls : (tschAsn ms1b ls4b).ls4b < 2 ^ 32 := ls4b.toNat_lt
  have hms : (tschAsn ms1b ls4b).ms1b < 256 := ms1b.toNat_lt
  have hmax : val.toNat < 65536 := val.toNat_lt
  have hpos : 0 < val.toNat := Nat.pos_of_ne_zero fun hzero ↦ hval (UInt16.toNat_inj.mp hzero)
  have hmod : (tschAsnDivisorInit none val.toNat).map (tschAsnMod w (tschAsn ms1b ls4b)) =
      some ((tschAsn ms1b ls4b).mod w val.toNat) := by
    unfold tschAsnDivisorInit
    rw [if_neg hpos.ne']
    rfl
  rw [← TschAsn.mod_eq_iff hms hpos hmax]
  exact ⟨fun hexact ↦ Option.some.inj (hmod.symm.trans hexact.mod), fun hexact ↦
    ⟨hmod.trans (congrArg some hexact), TschAsn.value_inc_mod hls hms by_.toNat_lt,
      TschAsn.value_dec_mod hls hms by_.toNat_lt⟩⟩

theorem asnExact_bits16 : AsnExact .bits16 (tschAsn 3 7) 101 5 :=
  (asnExact_iff .bits16 3 7 101 5 (by decide)).mpr (.inr (by decide))

/-- A high byte of 255 and a slotframe of 1000 slots. -/
theorem not_asnExact : ¬ ∀ (w : IntWidth) (ms1b : UInt8) (ls4b : UInt32) (val : UInt16)
    (by_ : UInt32), val ≠ 0 → AsnExact w (tschAsn ms1b ls4b) val.toNat by_.toNat := by
  intro hexact
  have hmod := (hexact .bits16 255 0 1000 0 (by decide)).mod
  revert hmod
  decide

end ContikiMaster.Tsch
