import Mathlib.Algebra.Order.Field.Basic
import Mathlib.Algebra.Order.Field.Rat
import Mathlib.Data.Nat.Factorization.Basic
import Mathlib.Data.Nat.Size
import Mathlib.Tactic.Ring

/-!
# Natural numbers with few significant bits

A floating-point format holds the natural numbers of at most `p` significant bits, up to its
largest exponent. Other numbers are rounded to the nearest such number, to the even one of two, and
so are quotients, down to the smallest exponent.
-/

namespace ContikiMaster.Lib

variable {p n k e : ℕ}

/-- A quotient rounded to the nearest integer, to the even one of two. -/
def roundHalfEven (n d : ℕ) : ℕ :=
  if 2 * (n % d) < d ∨ 2 * (n % d) = d ∧ n / d % 2 = 0 then n / d else n / d + 1

/-- The nearest number with `p` significant bits. -/
def roundSignificand (p n : ℕ) : ℕ := roundHalfEven n (2 ^ (n.size - p)) * 2 ^ (n.size - p)

/-- A quotient rounded to `p` significant bits, of which the last is not below `2 ^ -b`. -/
def roundQuotient (p b n d : ℕ) : ℚ :=
  let k := p + d.size
  let e := max ((n * 2 ^ k / d).size - p) (k - b)
  (roundHalfEven (n * 2 ^ k) (d * 2 ^ e) * 2 ^ e : ℕ) / 2 ^ k

/-- All bits but the highest `p` are zero. -/
def HasSignificand (p n : ℕ) : Prop := 2 ^ (n.size - p) ∣ n

instance : Decidable (HasSignificand p n) := inferInstanceAs (Decidable (_ ∣ _))

theorem roundHalfEven_of_dvd {d : ℕ} (hd : 0 < d) (hdvd : d ∣ n) : roundHalfEven n d = n / d := by
  unfold roundHalfEven
  rw [Nat.mod_eq_zero_of_dvd hdvd]
  exact if_pos (Or.inl hd)

/-- Rounding keeps exactly the numbers with few significant bits. -/
theorem roundSignificand_eq_self_iff : roundSignificand p n = n ↔ HasSignificand p n := by
  constructor
  · intro heq
    have hdvd : 2 ^ (n.size - p) ∣ roundSignificand p n := Nat.dvd_mul_left _ _
    rwa [heq] at hdvd
  · intro hdvd
    unfold roundSignificand
    rw [roundHalfEven_of_dvd (Nat.two_pow_pos _) hdvd]
    exact Nat.div_mul_cancel hdvd

theorem hasSignificand_of_lt (hn : n < 2 ^ p) : HasSignificand p n := by
  unfold HasSignificand
  rw [Nat.sub_eq_zero_of_le (Nat.size_le.mpr hn), pow_zero]
  exact one_dvd n

theorem hasSignificand_mul_two_pow (hk : k < 2 ^ p) : HasSignificand p (k * 2 ^ e) := by
  have hsize : (k * 2 ^ e).size ≤ p + e := by
    rw [Nat.size_le, pow_add]
    exact Nat.mul_lt_mul_of_pos_right hk (Nat.two_pow_pos e)
  exact (Nat.pow_dvd_pow 2 (by omega)).trans (Nat.dvd_mul_left _ k)

/-- The odd part of a number with few significant bits is small. -/
theorem HasSignificand.odd_lt (hn : HasSignificand p n) (hodd : Odd k) (hk : k ∣ n) (hpos : 0 < n) :
    k < 2 ^ p := by
  obtain ⟨m, hm⟩ := hn
  have hm_pos : 0 < m := by
    apply Nat.pos_of_ne_zero
    rintro rfl
    rw [Nat.mul_zero] at hm
    exact hpos.ne' hm
  have hm_lt : m < 2 ^ p := by
    have hsize : n < 2 ^ n.size := Nat.lt_size_self n
    have hbits : 2 ^ n.size ≤ 2 ^ (n.size - p) * 2 ^ p := by
      rw [← pow_add]
      exact Nat.pow_le_pow_right (by decide) (by omega)
    apply Nat.lt_of_mul_lt_mul_left (a := 2 ^ (n.size - p))
    exact hm.symm.trans_lt (hsize.trans_le hbits)
  have hcoprime : Nat.Coprime k (2 ^ (n.size - p)) :=
    Nat.Coprime.pow_right _ (Nat.coprime_two_right.mpr hodd)
  rw [hm] at hk
  exact (Nat.le_of_dvd hm_pos (hcoprime.dvd_of_dvd_mul_left hk)).trans_lt hm_lt

/-- The divisors of a number with few significant bits have few significant bits. -/
theorem HasSignificand.of_dvd (hn : HasSignificand p n) (hk : k ∣ n) (hpos : 0 < n) :
    HasSignificand p k := by
  obtain ⟨e, o, hodd, rfl⟩ := Nat.exists_eq_two_pow_mul_odd (Nat.pos_of_dvd_of_pos hk hpos).ne'
  rw [Nat.mul_comm]
  exact hasSignificand_mul_two_pow (hn.odd_lt hodd ((Nat.dvd_mul_left o _).trans hk) hpos)

section Order

variable {m d b : ℕ}

theorem roundHalfEven_le (hd : 0 < d) (hle : n ≤ m * d) : roundHalfEven n d ≤ m := by
  have hdiv : n / d ≤ m := Nat.div_le_of_le_mul (by rwa [Nat.mul_comm])
  have hsplit := Nat.div_add_mod n d
  unfold roundHalfEven
  split_ifs with hdown
  · exact hdiv
  · rcases hdiv.lt_or_eq with hlt | heq
    · exact hlt
    · rw [heq, Nat.mul_comm] at hsplit
      exact absurd (.inl (by omega)) hdown

theorem le_roundHalfEven (hd : 0 < d) (hle : m * d ≤ n) : m ≤ roundHalfEven n d := by
  have hdiv := (Nat.le_div_iff_mul_le hd).mpr hle
  unfold roundHalfEven
  split_ifs
  · exact hdiv
  · exact hdiv.trans (Nat.le_succ _)

theorem roundHalfEven_mono (hle : n ≤ m) : roundHalfEven n d ≤ roundHalfEven m d := by
  have hdiv := Nat.div_le_div_right (c := d) hle
  have hn := Nat.div_add_mod n d
  have hm := Nat.div_add_mod m d
  unfold roundHalfEven
  rcases hdiv.lt_or_eq with hlt | heq
  · split_ifs <;> omega
  · rw [heq] at hn ⊢
    split_ifs <;> omega

theorem roundSignificand_le (p n : ℕ) : roundSignificand p n ≤ 2 ^ n.size := by
  have hsplit : 2 ^ (n.size - (n.size - p)) * 2 ^ (n.size - p) = 2 ^ n.size := by
    rw [← pow_add, Nat.sub_add_cancel (Nat.sub_le _ _)]
  rw [← hsplit]
  exact Nat.mul_le_mul_right _
    (roundHalfEven_le (Nat.two_pow_pos _) (hsplit ▸ (Nat.lt_size_self n).le))

theorem le_roundSignificand (hp : 0 < p) (hn : 0 < n) :
    2 ^ (n.size - 1) ≤ roundSignificand p n := by
  have hsize := Nat.size_pos.mpr hn
  have hsplit : 2 ^ (n.size - 1 - (n.size - p)) * 2 ^ (n.size - p) = 2 ^ (n.size - 1) := by
    rw [← pow_add, Nat.sub_add_cancel (by omega)]
  rw [← hsplit]
  refine Nat.mul_le_mul_right _ (le_roundHalfEven (Nat.two_pow_pos _) ?_)
  rw [hsplit]
  exact Nat.lt_size.mp (Nat.sub_lt hsize one_pos)

theorem roundSignificand_mono (hp : 0 < p) (hle : n ≤ m) :
    roundSignificand p n ≤ roundSignificand p m := by
  rcases (Nat.size_le_size hle).lt_or_eq with hlt | heq
  · have hm : 0 < m := Nat.size_pos.mp (by omega)
    calc roundSignificand p n ≤ 2 ^ n.size := roundSignificand_le p n
      _ ≤ 2 ^ (m.size - 1) := Nat.pow_le_pow_right (by decide) (by omega)
      _ ≤ roundSignificand p m := le_roundSignificand hp hm
  · unfold roundSignificand
    rw [heq]
    exact Nat.mul_le_mul_right _ (roundHalfEven_mono hle)

/-- A quotient of at most 1 is rounded to one. -/
theorem roundQuotient_le_one (hp : 0 < p) (hd : 0 < d) (hle : n ≤ d) :
    roundQuotient p b n d ≤ 1 := by
  unfold roundQuotient
  dsimp only
  generalize p + d.size = k
  have hsize : (n * 2 ^ k / d).size ≤ k + 1 := by
    rw [Nat.size_le, pow_succ]
    have hdiv : n * 2 ^ k / d ≤ 2 ^ k := Nat.div_le_of_le_mul (Nat.mul_le_mul_right _ hle)
    have hpos := Nat.two_pow_pos k
    omega
  have he : max ((n * 2 ^ k / d).size - p) (k - b) ≤ k := by omega
  generalize max ((n * 2 ^ k / d).size - p) (k - b) = e at he ⊢
  have hsplit : 2 ^ (k - e) * 2 ^ e = 2 ^ k := by rw [← pow_add, Nat.sub_add_cancel he]
  rw [div_le_one (pow_pos two_pos k)]
  have hround : roundHalfEven (n * 2 ^ k) (d * 2 ^ e) ≤ 2 ^ (k - e) := by
    apply roundHalfEven_le (Nat.mul_pos hd (Nat.two_pow_pos e))
    calc n * 2 ^ k ≤ d * 2 ^ k := Nat.mul_le_mul_right _ hle
      _ = 2 ^ (k - e) * (d * 2 ^ e) := by rw [← hsplit]; ring
  exact_mod_cast hsplit ▸ Nat.mul_le_mul_right _ hround

/-- The unit of the last bit is at most the quotient, of numbers within the exponents. -/
theorem unit_le_quotient (hp : 0 < p) (hn : 0 < n) (hd : 0 < d) (hb : d.size ≤ b) {k : ℕ}
    (hk : d ≤ 2 ^ k) : d * 2 ^ max ((n * 2 ^ k / d).size - p) (k - b) ≤ n * 2 ^ k := by
  rcases le_total ((n * 2 ^ k / d).size - p) (k - b) with hle | hle
  · rw [max_eq_right hle]
    rcases le_total b k with hbk | hkb
    · have hb : d ≤ 2 ^ b := (Nat.lt_size_self d).le.trans (Nat.pow_le_pow_right (by decide) hb)
      calc d * 2 ^ (k - b) ≤ 2 ^ b * 2 ^ (k - b) := Nat.mul_le_mul_right _ hb
        _ = 2 ^ k := by rw [← pow_add, Nat.add_sub_cancel' hbk]
        _ ≤ n * 2 ^ k := Nat.le_mul_of_pos_left _ hn
    · rw [Nat.sub_eq_zero_of_le hkb, pow_zero, Nat.mul_one]
      exact hk.trans (Nat.le_mul_of_pos_left _ hn)
  · rw [max_eq_left hle]
    have hquotient : 0 < n * 2 ^ k / d :=
      Nat.div_pos (hk.trans (Nat.le_mul_of_pos_left _ hn)) hd
    have hsize := Nat.size_pos.mpr hquotient
    rw [Nat.mul_comm, ← Nat.le_div_iff_mul_le hd]
    calc 2 ^ ((n * 2 ^ k / d).size - p) ≤ 2 ^ ((n * 2 ^ k / d).size - 1) :=
          Nat.pow_le_pow_right (by decide) (by omega)
      _ ≤ n * 2 ^ k / d := Nat.lt_size.mp (Nat.sub_lt hsize one_pos)

theorem size_le_of_le_two_pow (d p : ℕ) : d ≤ 2 ^ (p + d.size) :=
  (Nat.lt_size_self d).le.trans (Nat.pow_le_pow_right (by decide) (Nat.le_add_left _ _))

theorem roundQuotient_pos (hp : 0 < p) (hn : 0 < n) (hd : 0 < d) (hb : d.size ≤ b) :
    0 < roundQuotient p b n d := by
  have hunit := unit_le_quotient hp hn hd hb (size_le_of_le_two_pow d p)
  have hround := le_roundHalfEven (m := 1) (Nat.mul_pos hd (Nat.two_pow_pos _))
    ((Nat.one_mul _).le.trans hunit)
  exact div_pos (Nat.cast_pos.mpr (Nat.mul_pos hround (Nat.two_pow_pos _)))
    (pow_pos two_pos _)

/-- A quotient of at least 1 is rounded to one. -/
theorem one_le_roundQuotient (hp : 0 < p) (hd : 0 < d) (hb : d.size ≤ b) (hle : d ≤ n) :
    1 ≤ roundQuotient p b n d := by
  have hunit := unit_le_quotient hp (hd.trans_le hle) hd hb (size_le_of_le_two_pow d p)
  unfold roundQuotient
  dsimp only
  generalize p + d.size = k at hunit ⊢
  generalize max ((n * 2 ^ k / d).size - p) (k - b) = e at hunit ⊢
  have hpos := Nat.mul_pos hd (Nat.two_pow_pos e)
  rw [one_le_div (pow_pos two_pos k)]
  have hround : 2 ^ k ≤ roundHalfEven (n * 2 ^ k) (d * 2 ^ e) * 2 ^ e := by
    rcases le_total e k with hek | hke
    · have hsplit : 2 ^ (k - e) * 2 ^ e = 2 ^ k := by rw [← pow_add, Nat.sub_add_cancel hek]
      rw [← hsplit]
      refine Nat.mul_le_mul_right _ (le_roundHalfEven hpos ?_)
      calc 2 ^ (k - e) * (d * 2 ^ e) = d * 2 ^ k := by rw [← hsplit]; ring
        _ ≤ n * (2 ^ (k - e) * 2 ^ e) := by rw [hsplit]; exact Nat.mul_le_mul_right _ hle
    · calc 2 ^ k ≤ 1 * 2 ^ e := by rw [Nat.one_mul]; exact Nat.pow_le_pow_right (by decide) hke
        _ ≤ _ := Nat.mul_le_mul_right _ (le_roundHalfEven hpos (by rwa [Nat.one_mul]))
  exact_mod_cast hround

end Order

end ContikiMaster.Lib
