import RentalMarket.Lib.Binary
import RentalMarket.Core.Rounding

namespace RentalMarket.Core.Doubles

/-- A number as the source holds it: the nearest of 53 binary digits. -/
def double (x : ℚ) : ℚ := Binary.nearest 53 x

/-- Multiply by a factor in doubles. `Math.round` on what comes out is exact. -/
def multiply (m : Money) (factor : ℚ) : Except String Money :=
  Money.money (Money.applyRounding (double (m.amount * factor))) m.currency

def percentageOf (m : Money) (percent : ℚ) : Except String Money := multiply m (double (percent / 100))

theorem applyRounding_double (x : ℚ) :
    Money.applyRounding (double x) = (if x < 0 then -1 else 1) * ⌊double |x| + 1 / 2⌋ := by
  have hnonneg : 0 ≤ double |x| := Binary.nearest_nonneg (abs_nonneg x)
  have hsign : double x = (if x < 0 then -1 else 1) * double |x| := Binary.nearest_eq_abs x
  rw [hsign]
  by_cases hx : x < 0
  · rw [if_pos hx, if_pos hx, neg_one_mul, Money.applyRounding, abs_neg, abs_of_nonneg hnonneg]
    obtain hzero | hpos := hnonneg.eq_or_lt
    · rw [← hzero]
      decide +kernel
    · rw [if_pos (neg_neg_of_pos hpos)]
  · rw [if_neg hx, if_neg hx, one_mul, Money.applyRounding, abs_of_nonneg hnonneg, if_neg (not_lt.mpr hnonneg)]

variable {x : ℚ}

theorem halves_on_grid (hx : 0 ≤ x) (hlt : x < 2 ^ 52) (n : ℤ) : Binary.OnGrid 53 x (n - 1 / 2) := by
  have hgrid := Binary.onGrid_of_lt (p := 53) (k := 52) (j := -1) hx (by exact_mod_cast hlt) (by decide) (by decide)
    (2 * n - 1)
  have hform : ((2 * n - 1 : ℤ) : ℚ) * 2 ^ (-1 : ℤ) = n - 1 / 2 := by
    push_cast
    rw [zpow_neg_one]
    ring
  rwa [hform] at hgrid

theorem floor_double_bounds (hx : 0 ≤ x) (hle : x ≤ 2 ^ 52 - 1 / 2) :
    0 ≤ ⌊double x + 1 / 2⌋ ∧ ⌊double x + 1 / 2⌋ ≤ 2 ^ 52 := by
  have hnonneg : 0 ≤ double x := Binary.nearest_nonneg hx
  have hgrid := halves_on_grid hx (by linarith) (2 ^ 52)
  have hbound : double x ≤ 2 ^ 52 - 1 / 2 := by
    have := Binary.nearest_le hx hgrid (by exact_mod_cast hle)
    exact_mod_cast this
  constructor
  · rw [Int.le_floor]
    push_cast
    linarith
  · have hlt : ⌊double x + 1 / 2⌋ < 2 ^ 52 + 1 := by
      rw [Int.floor_lt]
      push_cast
      linarith
    omega

end RentalMarket.Core.Doubles
