import Mathlib
import RentalMarket.Core.Money

namespace RentalMarket.Core.Money

/-- Half away from zero. -/
def applyRounding (value : ℚ) : Int := (if value < 0 then -1 else 1) * ⌊|value| + 1 / 2⌋

def multiply (m : Money) (factor : ℚ) : Except String Money :=
  money (applyRounding (m.amount * factor)) m.currency

def percentageOf (m : Money) (percent : ℚ) : Except String Money := multiply m (percent / 100)

def negate (m : Money) : Except String Money := money (-m.amount) m.currency

def isNegative (m : Money) : Bool := decide (m.amount < 0)

def isZero (m : Money) : Bool := decide (m.amount = 0)

theorem applyRounding_fraction {a : Int} (ha : 0 ≤ a) (num den : Nat) (hden : 0 < den) :
    applyRounding (a * ((num : ℚ) / den)) = (2 * (a * num) + den) / (2 * den) := by
  have hnonneg : (0 : ℚ) ≤ a * ((num : ℚ) / den) := by positivity
  have hd : (den : ℚ) ≠ 0 := by positivity
  have hform : (a * ((num : ℚ) / den) + 1 / 2 : ℚ) = ((2 * (a * num) + den : Int) : ℚ) / ((2 * den : Nat) : ℚ) := by
    push_cast
    field_simp
  rw [applyRounding, if_neg (not_lt.mpr hnonneg), abs_of_nonneg hnonneg, hform,
    Rat.floor_intCast_div_natCast]
  push_cast
  ring

theorem multiply_fraction (num den : Nat) {m : Money} {factor : ℚ} (hm : 0 ≤ m.amount)
    (hf : factor = (num : ℚ) / den) (hden : 0 < den)
    (hsafe : (2 * (m.amount * num) + den) / (2 * den) ≤ maxSafeInteger) :
    multiply m factor = .ok ⟨(2 * (m.amount * num) + den) / (2 * den), m.currency⟩ := by
  rw [multiply, hf, applyRounding_fraction hm num den hden, money, if_pos]
  refine ⟨?_, hsafe⟩
  have hnonneg : 0 ≤ (2 * (m.amount * num) + den) / (2 * (den : Int)) := by positivity
  simp only [maxSafeInteger]
  omega

theorem add_ok {a b : Money} (ha : 0 ≤ a.amount) (hb : 0 ≤ b.amount)
    (hsafe : a.amount + b.amount ≤ maxSafeInteger) :
    add a b = .ok ⟨a.amount + b.amount, a.currency⟩ := by
  rw [add, if_pos (by cases a.currency; cases b.currency; rfl), money, if_pos]
  simp only [maxSafeInteger] at hsafe ⊢
  omega

theorem subtract_ok {a b : Money} (hb : 0 ≤ b.amount) (hab : b.amount ≤ a.amount)
    (hsafe : a.amount ≤ maxSafeInteger) :
    subtract a b = .ok ⟨a.amount - b.amount, a.currency⟩ := by
  rw [subtract, if_pos (by cases a.currency; cases b.currency; rfl), money, if_pos]
  simp only [maxSafeInteger] at hsafe ⊢
  omega

end RentalMarket.Core.Money
