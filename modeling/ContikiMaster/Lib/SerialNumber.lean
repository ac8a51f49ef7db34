import Mathlib.Algebra.Order.Ring.Int

/-!
# Serial numbers

Numbers that are counted without end and carried around a circle. The sign of the
shorter way round compares them, and says what the numbers on the circle cannot:
of two numbers that are less than half the circle apart, which was counted first.
-/

namespace ContikiMaster.Lib

variable {half a b : ℕ}

/-- The shorter way from `a` to `b`, on a circle of twice `half`, leads forward. -/
def SerialLt (half : ℕ) (a b : ℤ) : Prop := Int.bmod (a - b) (2 * half) < 0

/-- `a` does not come after `b`. -/
def SerialLe (half : ℕ) (a b : ℤ) : Prop := ¬ SerialLt half b a

theorem serialLt_mod :
    SerialLt half (a % (2 * half) : ℕ) (b % (2 * half) : ℕ) ↔ SerialLt half a b := by
  have hsame : Int.bmod ((a % (2 * half) : ℕ) - (b % (2 * half) : ℕ)) (2 * half) =
      Int.bmod (a - b) (2 * half) := by
    calc
      Int.bmod ((a % (2 * half) : ℕ) - (b % (2 * half) : ℕ)) (2 * half) =
          Int.bmod (((a : ℤ) % (2 * half : ℕ) - (b : ℤ) % (2 * half : ℕ)) % (2 * half : ℕ))
            (2 * half) := by
        rw [Int.emod_bmod]
        push_cast
        rfl
      _ = Int.bmod (a - b) (2 * half) := by
        rw [← Int.sub_emod, Int.emod_bmod]
  unfold SerialLt
  rw [hsame]

/-- What is at most half the circle behind does not come later. -/
theorem lt_of_serialLt (hnear : a < b + half) (hserial : SerialLt half a b) : a < b := by
  by_contra hle
  have hself : Int.bmod ((a : ℤ) - b) (2 * half) = (a : ℤ) - b := by
    apply Int.bmod_eq_of_le_mul_two
    · push_cast
      omega
    · push_cast
      omega
  unfold SerialLt at hserial
  rw [hself] at hserial
  omega

end ContikiMaster.Lib
