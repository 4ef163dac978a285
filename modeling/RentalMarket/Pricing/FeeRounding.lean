import RentalMarket.Core.Doubles
import RentalMarket.Pricing.Contracts

namespace RentalMarket.Pricing

open RentalMarket.Core
open Doubles (double)

def Doubles.basisPointsToPercent (basisPoints : Nat) : ℚ := double (basisPoints / 100)

/-- The percentage as the code computes it. -/
def doublePercentageOf : PercentageOf := fun m basisPoints =>
  Doubles.percentageOf m (Doubles.basisPointsToPercent basisPoints)

def rateFactor (basisPoints : Nat) : ℚ := double (double (basisPoints / 100) / 100)

def heldShare (amount : Int) (basisPoints : Nat) : ℚ := amount.natAbs * rateFactor basisPoints

def doublings (limit basisPoints : ℕ) : ℕ := Nat.clog 2 (limit ⌈/⌉ basisPoints)

/-- How far the rate's double is below the rate, in ten-thousandths of its last binary digit:
what the two divisions by a hundred cut off, or add where it is negative. -/
def rateShortfall (basisPoints : ℕ) : ℤ :=
  let low := doublings 6400 basisPoints
  let step := 7 + doublings 5000 basisPoints - low
  let percent := ((basisPoints * 2 ^ (46 + low) : ℕ) : ℤ)
  percent.bmod 100 * 2 ^ step + 100 * ((percent - percent.bmod 100) / 100 * 2 ^ step).bmod 100

/-- A percentage of a number of pennies is short of a half penny by less than half a gap of the
doubles below that, or by just half a gap where the half penny has a binary digit to spare. -/
def ReachesHalfPenny (pennies basisPoints n : ℕ) : Prop :=
  let high := doublings 5000 basisPoints
  let short := pennies * rateShortfall basisPoints +
    2 ^ (53 + high) * (10000 * n - 5000 - pennies * basisPoints)
  let halfGap := 2500 * 2 ^ (high + Nat.clog 2 (2 * n - 1))
  short < halfGap ∨ short = halfGap ∧ Nat.clog 2 (2 * n - 1) < 53

/-- The half penny below the exact percentage is reached, and the one above it is not. -/
def RoundsExactly (pennies basisPoints : ℕ) : Prop :=
  let exact := (pennies * basisPoints + 5000) / 10000
  (exact = 0 ∨ ReachesHalfPenny pennies basisPoints exact) ∧ ¬ReachesHalfPenny pennies basisPoints (exact + 1)

section Doublings

variable {basisPoints : ℕ} (limit : ℕ)

theorem doublings_le_iff (hpos : 0 < basisPoints) {d : ℕ} :
    doublings limit basisPoints ≤ d ↔ limit ≤ basisPoints * 2 ^ d := by
  rw [doublings, Nat.clog_le_iff_le_pow one_lt_two, ceilDiv_le_iff_le_mul hpos]

theorem doublings_bounds (hpos : 0 < basisPoints) (hlt : basisPoints < 2 * limit) :
    limit ≤ basisPoints * 2 ^ doublings limit basisPoints ∧
      basisPoints * 2 ^ doublings limit basisPoints < 2 * limit := by
  constructor
  · exact (doublings_le_iff limit hpos).mp le_rfl
  · cases hd : doublings limit basisPoints with
    | zero => omega
    | succ d =>
      have hless : ¬limit ≤ basisPoints * 2 ^ d := by
        rw [← doublings_le_iff limit hpos, hd]
        omega
      rw [pow_succ, ← mul_assoc]
      omega

theorem doublings_close (hpos : 0 < basisPoints) :
    doublings 5000 basisPoints ≤ doublings 6400 basisPoints ∧
      doublings 6400 basisPoints ≤ doublings 5000 basisPoints + 1 := by
  rw [doublings_le_iff 5000 hpos, doublings_le_iff 6400 hpos, pow_succ, ← mul_assoc]
  have hlow := (doublings_le_iff 6400 hpos).mp le_rfl
  have hhigh := (doublings_le_iff 5000 hpos).mp le_rfl
  omega

end Doublings

section Rate

variable {basisPoints : Nat}

theorem rateFactor_zero : rateFactor 0 = 0 := by simp [rateFactor, double, Binary.nearest_zero]

theorem rateShortfall_zero : rateShortfall 0 = 0 := by simp [rateShortfall]

theorem floor_double_zero : ⌊double 0 + 1 / 2⌋ = 0 := by
  rw [double, Binary.nearest_zero]
  norm_num

theorem rateFactor_nonneg (basisPoints : Nat) : 0 ≤ rateFactor basisPoints := by
  apply Binary.nearest_nonneg
  apply div_nonneg _ (by norm_num)
  apply Binary.nearest_nonneg
  positivity

theorem rateFactor_le (h : basisPoints ≤ maxFeeBasisPoints) : rateFactor basisPoints ≤ 1 / 2 := by
  have hcast : (basisPoints : ℚ) ≤ 5000 := by exact_mod_cast h
  have hpercent : (0 : ℚ) ≤ basisPoints / 100 := by positivity
  have hfifty : double (basisPoints / 100) ≤ 50 := by
    have hgrid := Binary.onGrid_of_lt (p := 53) (k := 6) (j := 0) hpercent
      (by rw [div_lt_iff₀ (by norm_num), zpow_ofNat]; linarith) (by decide) (by decide) 50
    apply Binary.nearest_le hpercent
    · simpa using hgrid
    · rw [div_le_iff₀ (by norm_num)]
      linarith
  have hnonneg : 0 ≤ double (basisPoints / 100) / 100 := div_nonneg (Binary.nearest_nonneg hpercent) (by norm_num)
  have hhalf : double (basisPoints / 100) / 100 ≤ 1 / 2 := by
    rw [div_le_iff₀ (by norm_num)]
    linarith
  have hgrid := Binary.onGrid_of_lt (p := 53) (k := 1) (j := -1) hnonneg (by norm_num; linarith) (by decide)
    (by decide) 1
  apply Binary.nearest_le hnonneg _ hhalf
  simpa [zpow_neg_one] using hgrid

theorem bmod_of_dvd {k : ℤ} (hfour : 4 ∣ k) : -50 < k.bmod 100 ∧ k.bmod 100 < 50 := by
  rw [Int.bmod_def]
  split <;> omega

theorem hundred_mul_sub_bmod (k : ℤ) : 100 * ((k - k.bmod 100) / 100) = k - k.bmod 100 :=
  Int.mul_ediv_cancel' Int.dvd_self_sub_bmod

/-- One division by a hundred. No quotient is halfway between two doubles, as it is a whole number
of twenty-fifths of the last digit. -/
theorem double_hundredth {x : ℚ} {k e : ℤ} (hk : x * 2 ^ e = k) (hfour : 4 ∣ k) (hlow : 100 * 2 ^ 52 ≤ k)
    (hhigh : k < 100 * 2 ^ 53) : double (x / 100) = ((k - k.bmod 100) / 100 : ℤ) / 2 ^ e := by
  have hscaled : x / 100 * 2 ^ e = k / 100 := by rw [← hk, div_mul_eq_mul_div]
  have hcast : ((100 * ((k - k.bmod 100) / 100) : ℤ) : ℚ) = (k - k.bmod 100 : ℤ) := by rw [hundred_mul_sub_bmod]
  push_cast at hcast
  have hlow' : ((100 * 2 ^ 52 : ℤ) : ℚ) ≤ k := Int.cast_le.mpr hlow
  have hhigh' : (k : ℚ) < (100 * 2 ^ 53 : ℤ) := Int.cast_lt.mpr hhigh
  obtain ⟨habove, hbelow⟩ := bmod_of_dvd hfour
  have habove' : ((-50 : ℤ) : ℚ) < k.bmod 100 := Int.cast_lt.mpr habove
  have hbelow' : (k.bmod 100 : ℚ) < (50 : ℤ) := Int.cast_lt.mpr hbelow
  apply Binary.nearest_of_close
  · rw [hscaled]
    norm_num at hlow' ⊢
    linarith
  · rw [hscaled]
    norm_num at hhigh' ⊢
    linarith
  · rw [hscaled, abs_lt]
    push_cast at habove' hbelow'
    constructor <;> linarith

theorem numerators_bounds {low high step : ℕ} (hstep : step + low = 7 + high) (hclose : high ≤ low ∧ low ≤ high + 1)
    (hlow : 6400 ≤ basisPoints * 2 ^ low ∧ basisPoints * 2 ^ low < 2 * 6400)
    (hhigh : 5000 ≤ basisPoints * 2 ^ high ∧ basisPoints * 2 ^ high < 2 * 5000) {percent : ℤ}
    (hpercent : percent = (basisPoints * 2 ^ (46 + low) : ℕ)) :
    (4 ∣ percent ∧ 100 * 2 ^ 52 ≤ percent ∧ percent < 100 * 2 ^ 53) ∧
    4 ∣ (percent - percent.bmod 100) / 100 * 2 ^ step ∧
    100 * 2 ^ 52 ≤ (percent - percent.bmod 100) / 100 * 2 ^ step ∧
    (percent - percent.bmod 100) / 100 * 2 ^ step < 100 * 2 ^ 53 := by
  have hsplit : percent = 2 ^ 46 * (basisPoints * 2 ^ low : ℕ) := by
    rw [hpercent, pow_add]
    push_cast
    ring
  have hfirst : 4 ∣ percent ∧ 100 * 2 ^ 52 ≤ percent ∧ percent < 100 * 2 ^ 53 := by omega
  obtain ⟨habove, hbelow⟩ := bmod_of_dvd hfirst.1
  have hhundred := hundred_mul_sub_bmod percent
  refine ⟨hfirst, ?_⟩
  obtain ⟨rfl, rfl⟩ | ⟨rfl, rfl⟩ : step = 7 ∧ low = high ∨ step = 6 ∧ low = high + 1 := by omega
  · omega
  · have htwice : basisPoints * 2 ^ (high + 1) = 2 * (basisPoints * 2 ^ high) := by rw [pow_succ, ← mul_assoc, mul_comm]
    omega

/-- The two divisions by a hundred, as what they leave. -/
theorem rateFactor_mul (hbasis : basisPoints ≤ maxFeeBasisPoints) :
    rateFactor basisPoints * (10000 * 2 ^ (53 + doublings 5000 basisPoints)) =
      basisPoints * 2 ^ (53 + doublings 5000 basisPoints) - rateShortfall basisPoints := by
  obtain rfl | hpos := basisPoints.eq_zero_or_pos
  · rw [rateFactor_zero, rateShortfall_zero]
    simp
  rw [maxFeeBasisPoints] at hbasis
  have hclose := doublings_close hpos
  have hlow := doublings_bounds 6400 hpos (by omega)
  have hhigh := doublings_bounds 5000 hpos (by omega)
  obtain ⟨step, hstep⟩ : ∃ step, step + doublings 6400 basisPoints = 7 + doublings 5000 basisPoints :=
    ⟨7 + doublings 5000 basisPoints - doublings 6400 basisPoints, by omega⟩
  rw [rateShortfall, ← hstep, Nat.add_sub_cancel]
  generalize doublings 6400 basisPoints = low at *
  generalize doublings 5000 basisPoints = high at *
  obtain ⟨percent, hpercent⟩ : ∃ percent : ℤ, percent = (basisPoints * 2 ^ (46 + low) : ℕ) := ⟨_, rfl⟩
  obtain ⟨hfirst, hsecond⟩ := numerators_bounds hstep hclose hlow hhigh hpercent
  have hhundred := hundred_mul_sub_bmod percent
  have hhundred' := hundred_mul_sub_bmod ((percent - percent.bmod 100) / 100 * 2 ^ step)
  rw [← hpercent]
  have hdouble : double (basisPoints / 100) = ((percent - percent.bmod 100) / 100 : ℤ) / 2 ^ (46 + low : ℤ) := by
    apply double_hundredth _ hfirst.1 hfirst.2.1 hfirst.2.2
    rw [hpercent]
    norm_cast
  generalize percent.bmod 100 = first at *
  generalize (percent - first) / 100 = kept at *
  have hfactor : rateFactor basisPoints = ((kept * 2 ^ step - (kept * 2 ^ step).bmod 100) / 100 : ℤ) /
      2 ^ (53 + high : ℤ) := by
    apply double_hundredth _ hsecond.1 hsecond.2.1 hsecond.2.2
    rw [hdouble, show (53 + high : ℤ) = 46 + low + step by omega, zpow_add₀ two_ne_zero (46 + low : ℤ), ← mul_assoc,
      div_mul_cancel₀ _ (zpow_ne_zero _ two_ne_zero)]
    norm_cast
  generalize (kept * 2 ^ step).bmod 100 = second at *
  generalize (kept * 2 ^ step - second) / 100 = held at *
  have hexact : 10000 * held = basisPoints * 2 ^ (53 + high) - (first * 2 ^ step + 100 * second) := by
    have hpower : (2 : ℤ) ^ (53 + high) = 2 ^ (46 + low) * 2 ^ step := by
      rw [← pow_add]
      congr 1
      omega
    push_cast at hpercent
    rw [hpower, ← mul_assoc, ← hpercent]
    linear_combination 100 * hhundred' + 2 ^ step * hhundred
  have hcast : ((10000 * held : ℤ) : ℚ) = (basisPoints * 2 ^ (53 + high) - (first * 2 ^ step + 100 * second) : ℤ) :=
    congrArg _ hexact
  push_cast at hcast ⊢
  have hgap : (2 : ℚ) ^ (53 + high : ℤ) = 2 ^ (53 + high) := by norm_cast
  rw [← hcast, hfactor, hgap, mul_comm (10000 : ℚ), ← mul_assoc, div_mul_cancel₀ _ (by positivity), mul_comm]

theorem rateShortfall_bounds (hpos : 0 < basisPoints) :
    -11400 ≤ rateShortfall basisPoints ∧ rateShortfall basisPoints ≤ 11400 := by
  have hclose := doublings_close hpos
  rw [rateShortfall]
  generalize doublings 6400 basisPoints = low at *
  generalize doublings 5000 basisPoints = high at *
  generalize ((basisPoints * 2 ^ (46 + low) : ℕ) : ℤ) = percent
  have hfirst := And.intro (Int.le_bmod (x := percent) (m := 100) (by norm_num)) (Int.bmod_lt (x := percent) (m := 100) (by norm_num))
  generalize percent.bmod 100 = first at *
  generalize (percent - first) / 100 * 2 ^ (7 + high - low) = numerator
  have hsecond := And.intro (Int.le_bmod (x := numerator) (m := 100) (by norm_num)) (Int.bmod_lt (x := numerator) (m := 100) (by norm_num))
  obtain hstep | hstep : 7 + high - low = 7 ∨ 7 + high - low = 6 := by omega
  all_goals
    rw [hstep]
    omega

theorem rateFactor_pos (hpos : 0 < basisPoints) (hbasis : basisPoints ≤ maxFeeBasisPoints) :
    0 < rateFactor basisPoints := by
  have hmul := rateFactor_mul hbasis
  have hshort : (rateShortfall basisPoints : ℚ) ≤ (11400 : ℤ) := Int.cast_le.mpr (rateShortfall_bounds hpos).2
  have hone : (1 : ℚ) ≤ basisPoints := by exact_mod_cast hpos
  have hpower : (2 : ℚ) ^ 53 ≤ 2 ^ (53 + doublings 5000 basisPoints) := pow_le_pow_right₀ one_le_two (Nat.le_add_right _ _)
  have hless : (rateShortfall basisPoints : ℚ) < basisPoints * 2 ^ (53 + doublings 5000 basisPoints) := by
    have hproduct := mul_le_mul hone hpower (by norm_num) (by positivity)
    norm_num at hshort hproduct
    linarith
  rw [← sub_pos, ← hmul] at hless
  exact pos_of_mul_pos_left hless (by positivity)

end Rate

section Amount

variable {amount : Int} {basisPoints : Nat}

theorem heldShare_nonneg (amount : Int) (basisPoints : Nat) : 0 ≤ heldShare amount basisPoints :=
  mul_nonneg (Nat.cast_nonneg _) (rateFactor_nonneg _)

theorem natAbs_le_of_safe (hsafe : |amount| ≤ Money.maxSafeInteger) : amount.natAbs ≤ 9007199254740991 := by
  rw [Int.abs_eq_natAbs, Money.maxSafeInteger] at hsafe
  omega

theorem heldShare_le (hsafe : |amount| ≤ Money.maxSafeInteger) (hbasis : basisPoints ≤ maxFeeBasisPoints) :
    heldShare amount basisPoints ≤ 2 ^ 52 - 1 / 2 := by
  have hcast : (amount.natAbs : ℚ) ≤ 9007199254740991 := by exact_mod_cast natAbs_le_of_safe hsafe
  have hproduct := mul_le_mul hcast (rateFactor_le hbasis) (rateFactor_nonneg _) (by norm_num)
  rw [heldShare]
  norm_num at hproduct ⊢
  linarith

theorem heldShare_mul (amount : Int) (hbasis : basisPoints ≤ maxFeeBasisPoints) :
    heldShare amount basisPoints * (10000 * 2 ^ (53 + doublings 5000 basisPoints)) =
      amount.natAbs * (basisPoints * 2 ^ (53 + doublings 5000 basisPoints) - rateShortfall basisPoints) := by
  rw [heldShare, mul_assoc, rateFactor_mul hbasis]

theorem clog_half {m : ℕ} (hpos : 0 < m) : Int.clog 2 ((m : ℚ) / 2) = Nat.clog 2 m - 1 := by
  have hcast : (0 : ℚ) < m := Nat.cast_pos.mpr hpos
  apply eq_of_forall_ge_iff
  intro k
  rw [← Int.le_zpow_iff_clog_le one_lt_two (half_pos hcast), sub_le_iff_le_add, div_le_iff₀ zero_lt_two,
    ← Int.clog_natCast (R := ℚ), ← Int.le_zpow_iff_clog_le one_lt_two hcast, zpow_add_one₀ (by norm_num)]
  norm_cast

theorem half_eq_mul_gapBelow {n : ℕ} (hpos : 0 < n) (hle : n ≤ 2 ^ 52) :
    Nat.clog 2 (2 * n - 1) ≤ 53 ∧
    Binary.gapBelow 53 ((n : ℚ) - 1 / 2) = 2 ^ Nat.clog 2 (2 * n - 1) / 2 ^ 54 ∧
    (n : ℚ) - 1 / 2 = ((2 * n - 1) * 2 ^ (53 - Nat.clog 2 (2 * n - 1)) : ℤ) * Binary.gapBelow 53 (n - 1 / 2) := by
  have hclog : Nat.clog 2 (2 * n - 1) ≤ 53 := (Nat.clog_le_iff_le_pow one_lt_two).mpr (by omega)
  have hhalf : (n : ℚ) - 1 / 2 = ((2 * n - 1 : ℕ) : ℚ) / 2 := by
    rw [Nat.cast_sub (by omega)]
    push_cast
    ring
  have hgap : Binary.gapBelow 53 ((n : ℚ) - 1 / 2) = 2 ^ Nat.clog 2 (2 * n - 1) / 2 ^ 54 := by
    rw [Binary.gapBelow, hhalf, clog_half (by omega), sub_sub, zpow_sub₀ two_ne_zero]
    norm_cast
  refine ⟨hclog, hgap, ?_⟩
  obtain ⟨d, hd⟩ := Nat.exists_eq_add_of_le hclog
  rw [hgap, hhalf, Nat.cast_sub (by omega), show 53 - Nat.clog 2 (2 * n - 1) = d by omega]
  have hpower : (2 : ℚ) ^ d * 2 ^ Nat.clog 2 (2 * n - 1) = 2 ^ 53 := by rw [← pow_add, add_comm, ← hd]
  push_cast
  rw [mul_assoc, ← mul_div_assoc, hpower]
  ring

/-- A half penny is reached by the double of the product just where the numbers say so. -/
theorem reaches_half_iff {n : ℕ} (hheld : 0 < heldShare amount basisPoints) (hbasis : basisPoints ≤ maxFeeBasisPoints)
    (hpos : 0 < n) (hle : n ≤ 2 ^ 52) : Binary.Reaches 53 (heldShare amount basisPoints) (n - 1 / 2) ↔
      ReachesHalfPenny amount.natAbs basisPoints n := by
  obtain ⟨hclog, hgap, hgrid⟩ := half_eq_mul_gapBelow hpos hle
  have hcast : (1 : ℚ) ≤ n := by exact_mod_cast hpos
  have heven : Even ((2 * n - 1) * 2 ^ (53 - Nat.clog 2 (2 * n - 1)) : ℤ) ↔ Nat.clog 2 (2 * n - 1) < 53 := by
    have hodd : ¬Even (2 * n - 1 : ℤ) := by
      rw [Int.even_iff]
      omega
    rw [Int.even_mul, or_iff_right hodd, Int.even_pow]
    constructor
    · rintro ⟨-, hne⟩
      omega
    · exact fun hlt => ⟨even_two, by omega⟩
  rw [Binary.reaches_iff (by norm_num) hheld (by linarith) hgrid, heven, hgap, ReachesHalfPenny]
  have hunit : (0 : ℚ) < 10000 * 2 ^ (53 + doublings 5000 basisPoints) := by positivity
  have hmul := heldShare_mul amount hbasis
  generalize amount.natAbs = pennies at *
  obtain ⟨short, hshort⟩ : ∃ short : ℤ, short = pennies * rateShortfall basisPoints +
      2 ^ (53 + doublings 5000 basisPoints) * (10000 * n - 5000 - pennies * basisPoints) := ⟨_, rfl⟩
  obtain ⟨halfGap, hhalfGap⟩ : ∃ halfGap : ℤ,
      halfGap = 2500 * 2 ^ (doublings 5000 basisPoints + Nat.clog 2 (2 * n - 1)) := ⟨_, rfl⟩
  -- what the held percentage is below the half penny, less half a gap
  have hscaled : ((n : ℚ) - 1 / 2 - 2 ^ Nat.clog 2 (2 * n - 1) / 2 ^ 54 / 2) *
      (10000 * 2 ^ (53 + doublings 5000 basisPoints)) = heldShare amount basisPoints *
        (10000 * 2 ^ (53 + doublings 5000 basisPoints)) + (short - halfGap) := by
    rw [hmul, hshort, hhalfGap]
    push_cast
    rw [pow_add, pow_add]
    ring
  rw [← hshort, ← hhalfGap, ← mul_lt_mul_iff_left₀ hunit, ← mul_left_inj' hunit.ne', hscaled, ← Int.cast_lt (R := ℚ),
    ← @Int.cast_inj ℚ, add_lt_iff_neg_left, sub_neg, add_eq_left, sub_eq_zero]

theorem applyRounding_product : Money.applyRounding (double (amount * rateFactor basisPoints)) =
    amount.sign * ⌊double (heldShare amount basisPoints) + 1 / 2⌋ := by
  have habs : |(amount : ℚ) * rateFactor basisPoints| = heldShare amount basisPoints := by
    rw [heldShare, abs_mul, abs_of_nonneg (rateFactor_nonneg basisPoints), Nat.cast_natAbs,
      Int.cast_abs]
  have hzero (h : heldShare amount basisPoints = 0) : ⌊double (heldShare amount basisPoints) + 1 / 2⌋ = 0 := by
    rw [h, floor_double_zero]
  rw [Doubles.applyRounding_double, habs]
  obtain hneg | rfl | hpos := lt_trichotomy amount 0
  · rw [Int.sign_eq_neg_one_of_neg hneg]
    obtain heq | hfactor := (rateFactor_nonneg basisPoints).eq_or_lt
    · rw [hzero (by rw [heldShare, ← heq, mul_zero]), mul_zero, mul_zero]
    · rw [if_pos (mul_neg_of_neg_of_pos (Int.cast_lt_zero.mpr hneg) hfactor)]
  · rw [hzero (by rw [heldShare, Int.natAbs_zero, Nat.cast_zero, zero_mul]), mul_zero, mul_zero]
  · rw [Int.sign_eq_one_of_pos hpos, if_neg]
    exact not_lt.mpr (mul_nonneg (by exact_mod_cast hpos.le) (rateFactor_nonneg _))

theorem le_floor_iff (hsafe : |amount| ≤ Money.maxSafeInteger) (hbasis : basisPoints ≤ maxFeeBasisPoints)
    (hheld : 0 < heldShare amount basisPoints) {n : ℕ} (hpos : 0 < n) (hle : n ≤ 2 ^ 52) :
    (n : ℤ) ≤ ⌊double (heldShare amount basisPoints) + 1 / 2⌋ ↔ ReachesHalfPenny amount.natAbs basisPoints n := by
  have hgrid := Doubles.halves_on_grid hheld.le (by linarith [heldShare_le hsafe hbasis]) n
  rw [Int.le_floor, ← sub_le_iff_le_add, ← reaches_half_iff hheld hbasis hpos hle]
  exact Binary.le_nearest_iff hheld.le hgrid

theorem roundsExactly_of_zero {pennies : ℕ} (hzero : pennies * basisPoints = 0) :
    RoundsExactly pennies basisPoints := by
  have hshort : pennies * rateShortfall basisPoints = 0 := by
    obtain rfl | rfl := Nat.mul_eq_zero.mp hzero
    · rw [Nat.cast_zero, zero_mul]
    · rw [rateShortfall_zero, mul_zero]
  have hproduct : (pennies : ℤ) * basisPoints = 0 := by exact_mod_cast hzero
  have hpower : (0 : ℤ) < 2 ^ doublings 5000 basisPoints := by positivity
  rw [RoundsExactly, hzero]
  refine ⟨.inl rfl, ?_⟩
  rw [ReachesHalfPenny, hshort, hproduct, show Nat.clog 2 (2 * ((0 + 5000) / 10000 + 1) - 1) = 0 by decide, add_zero,
    pow_add]
  rintro (hless | ⟨heq, -⟩) <;> omega

/-- The rounded product is the exact percentage in whole pennies. -/
theorem floor_eq_iff (hsafe : |amount| ≤ Money.maxSafeInteger) (hbasis : basisPoints ≤ maxFeeBasisPoints) :
    ⌊double (heldShare amount basisPoints) + 1 / 2⌋ = ((amount.natAbs * basisPoints + 5000) / 10000 : ℕ) ↔
      RoundsExactly amount.natAbs basisPoints := by
  obtain ⟨hlow, hhigh⟩ := Doubles.floor_double_bounds (heldShare_nonneg amount basisPoints) (heldShare_le hsafe hbasis)
  obtain hzero | hpos := (amount.natAbs * basisPoints).eq_zero_or_pos
  · apply iff_of_true _ (roundsExactly_of_zero hzero)
    have hheld : heldShare amount basisPoints = 0 := by
      obtain h | rfl := Nat.mul_eq_zero.mp hzero
      · rw [heldShare, h, Nat.cast_zero, zero_mul]
      · rw [heldShare, rateFactor_zero, mul_zero]
    rw [hzero, hheld, floor_double_zero]
    rfl
  have hheld : 0 < heldShare amount basisPoints :=
    mul_pos (Nat.cast_pos.mpr (Nat.pos_of_mul_pos_right hpos)) (rateFactor_pos (Nat.pos_of_mul_pos_left hpos) hbasis)
  have hsafe' := natAbs_le_of_safe hsafe
  have hproduct := Nat.mul_le_mul hsafe' hbasis
  rw [maxFeeBasisPoints] at hproduct
  rw [RoundsExactly]
  generalize hexact : (amount.natAbs * basisPoints + 5000) / 10000 = exact
  have hlower : (exact : ℤ) ≤ ⌊double (heldShare amount basisPoints) + 1 / 2⌋ ↔
      exact = 0 ∨ ReachesHalfPenny amount.natAbs basisPoints exact := by
    obtain rfl | hexact' := exact.eq_zero_or_pos
    · exact iff_of_true hlow (.inl rfl)
    · rw [le_floor_iff hsafe hbasis hheld hexact' (by omega), or_iff_right hexact'.ne']
  have hupper : (exact + 1 : ℕ) ≤ ⌊double (heldShare amount basisPoints) + 1 / 2⌋ ↔
      ReachesHalfPenny amount.natAbs basisPoints (exact + 1) := by
    obtain hle | hlarge := le_or_gt (exact + 1) (2 ^ 52)
    · exact le_floor_iff hsafe hbasis hheld exact.succ_pos hle
    · -- only the largest amount at the largest rate comes to so much
      obtain rfl : basisPoints = 5000 := by
        by_contra hne
        have := Nat.mul_le_mul hsafe' (show basisPoints ≤ 4999 by rw [maxFeeBasisPoints] at hbasis; omega)
        omega
      obtain ⟨hlargest, rfl⟩ : amount.natAbs = 9007199254740991 ∧ exact = 2 ^ 52 := by omega
      rw [hlargest]
      apply iff_of_false (by omega)
      rintro (hless | ⟨heq, -⟩)
      · revert hless
        decide +kernel
      · revert heq
        decide +kernel
  rw [← hlower, ← hupper]
  omega

end Amount

section Moderate

variable {pennies basisPoints : ℕ}

theorem pow_clog_lt {m : ℕ} (hpos : 0 < m) : 2 ^ Nat.clog 2 m < 2 * m := by
  cases hclog : Nat.clog 2 m with
  | zero => omega
  | succ k =>
    have hless : 2 ^ k < m := (Nat.lt_clog_iff_pow_lt one_lt_two).mp (by omega)
    rw [pow_succ]
    omega

/-- Of an amount of up to a thousand million pounds both the shortfall and half a gap are far
below a ten-thousandth. -/
theorem reaches_moderate {n : ℕ} (hpos : 0 < basisPoints) (hbasis : basisPoints ≤ maxFeeBasisPoints)
    (hshare : pennies * basisPoints ≤ 10 ^ 15) (hn : 0 < n) (hle : 10000 * n ≤ pennies * basisPoints + 15000) :
    ReachesHalfPenny pennies basisPoints n ↔ 10000 * n < pennies * basisPoints + 5000 ∨
      10000 * n = pennies * basisPoints + 5000 ∧
        pennies * rateShortfall basisPoints ≤ 2500 * 2 ^ (doublings 5000 basisPoints + Nat.clog 2 (2 * n - 1)) := by
  rw [maxFeeBasisPoints] at hbasis
  obtain ⟨hlow, -⟩ := doublings_bounds 5000 hpos (by omega)
  obtain ⟨habove, hbelow⟩ := rateShortfall_bounds hpos
  have hclog := pow_clog_lt (m := 2 * n - 1) (by omega)
  have hspare : Nat.clog 2 (2 * n - 1) < 53 := (Nat.pow_lt_pow_iff_right one_lt_two).mp (by omega)
  rw [ReachesHalfPenny]
  generalize doublings 5000 basisPoints = high at *
  generalize rateShortfall basisPoints = cut at *
  generalize Nat.clog 2 (2 * n - 1) = digits at *
  have hpower : (0 : ℤ) < 2 ^ high := by positivity
  -- the rate was doubled to at least five thousand, so the amount is bounded by the doublings
  have hpennies : (pennies : ℤ) ≤ 2 * 10 ^ 11 * 2 ^ high := by
    have hless : pennies * 5000 ≤ pennies * basisPoints * 2 ^ high := by
      rw [mul_assoc]
      exact Nat.mul_le_mul_left _ hlow
    have hless' := hless.trans (Nat.mul_le_mul_right (2 ^ high) hshare)
    zify at hless'
    linarith
  have hcut : |(pennies : ℤ) * cut| ≤ 2280000000000000 * 2 ^ high := by
    rw [abs_mul, Nat.abs_cast]
    have := mul_le_mul hpennies (abs_le.mpr ⟨habove, hbelow⟩) (abs_nonneg cut) (by positivity)
    linarith
  have hgap : 2500 * (2 : ℤ) ^ (high + digits) ≤ 1000000000020000 * 2 ^ high := by
    have hcast : (2 : ℤ) ^ digits ≤ 400000000008 := by
      zify at hclog
      omega
    have := mul_le_mul_of_nonneg_left hcast hpower.le
    rw [pow_add]
    linarith
  have hgap' : (0 : ℤ) < 2500 * 2 ^ (high + digits) := by positivity
  rw [abs_le] at hcut
  have hunits : (2 : ℤ) ^ (53 + high) = 2 ^ 53 * 2 ^ high := pow_add 2 53 high
  have hcast : (10000 * n - 5000 - pennies * basisPoints : ℤ) = 10000 * n - (pennies * basisPoints + 5000 : ℕ) := by
    push_cast
    ring
  rw [hcast]
  obtain hless | heq | hmore := lt_trichotomy (10000 * n) (pennies * basisPoints + 5000)
  · have hcount : (10000 * n - (pennies * basisPoints + 5000 : ℕ) : ℤ) ≤ -1 := by omega
    have := mul_le_mul_of_nonneg_left hcount (show (0 : ℤ) ≤ 2 ^ (53 + high) by positivity)
    exact iff_of_true (.inl (by omega)) (.inl hless)
  · have hcount : (10000 * n - (pennies * basisPoints + 5000 : ℕ) : ℤ) = 0 := by omega
    rw [hcount, mul_zero, add_zero, le_iff_lt_or_eq]
    simp only [hspare, heq, and_true, lt_irrefl, true_and, false_or]
  · have hcount : (1 : ℤ) ≤ 10000 * n - (pennies * basisPoints + 5000 : ℕ) := by omega
    have := mul_le_mul_of_nonneg_left hcount (show (0 : ℤ) ≤ 2 ^ (53 + high) by positivity)
    apply iff_of_false
    · rintro (hreach | ⟨hreach, -⟩) <;> omega
    · omega

theorem roundsExactly_iff (hbasis : basisPoints ≤ maxFeeBasisPoints) (hshare : pennies * basisPoints ≤ 10 ^ 15) :
    RoundsExactly pennies basisPoints ↔ ¬(pennies * basisPoints % 10000 = 5000 ∧
      2500 * 2 ^ (doublings 5000 basisPoints + Nat.clog 2 (pennies * basisPoints / 5000)) <
        pennies * rateShortfall basisPoints) := by
  obtain rfl | hpos := basisPoints.eq_zero_or_pos
  · apply iff_of_true (roundsExactly_of_zero (mul_zero _))
    omega
  rw [RoundsExactly]
  generalize hexact : (pennies * basisPoints + 5000) / 10000 = exact
  have hupper : ¬ReachesHalfPenny pennies basisPoints (exact + 1) := by
    rw [reaches_moderate hpos hbasis hshare exact.succ_pos (by omega)]
    omega
  rw [and_iff_left hupper]
  obtain rfl | hexact' := exact.eq_zero_or_pos
  · exact iff_of_true (.inl rfl) (by omega)
  rw [or_iff_right hexact'.ne', reaches_moderate hpos hbasis hshare hexact' (by omega)]
  by_cases hhalf : pennies * basisPoints % 10000 = 5000
  · rw [show pennies * basisPoints / 5000 = 2 * exact - 1 by omega, not_and, not_lt]
    constructor
    · rintro (hless | ⟨-, hle⟩)
      · omega
      · exact fun _ => hle
    · exact fun hle => .inr ⟨by omega, hle hhalf⟩
  · exact iff_of_true (.inl (by omega)) (fun h => hhalf h.1)

end Moderate

section Fee

variable {m : Money} {basisPoints : Nat}

theorem money_of_sign {n : Int} (hlow : 0 ≤ n) (hhigh : n ≤ 2 ^ 52) (amount : Int) (currency : Currency) :
    Money.money (amount.sign * n) currency = .ok ⟨amount.sign * n, currency⟩ := by
  rw [Money.money, if_pos]
  simp only [Money.maxSafeInteger]
  obtain hneg | rfl | hpos := lt_trichotomy amount 0
  · rw [Int.sign_eq_neg_one_of_neg hneg]
    omega
  · rw [Int.sign_zero]
    omega
  · rw [Int.sign_eq_one_of_pos hpos]
    omega

theorem doublePercentageOf_eq (hsafe : |m.amount| ≤ Money.maxSafeInteger)
    (hbasis : basisPoints ≤ maxFeeBasisPoints) :
    doublePercentageOf m basisPoints =
      .ok ⟨m.amount.sign * ⌊double (heldShare m.amount basisPoints) + 1 / 2⌋, m.currency⟩ := by
  obtain ⟨hlow, hhigh⟩ := Doubles.floor_double_bounds (heldShare_nonneg _ _) (heldShare_le hsafe hbasis)
  have hround : Money.applyRounding (double (m.amount * rateFactor basisPoints)) =
    m.amount.sign * ⌊double (heldShare m.amount basisPoints) + 1 / 2⌋ := applyRounding_product
  change Money.money (Money.applyRounding (double (m.amount * rateFactor basisPoints))) m.currency = _
  rw [hround]
  exact money_of_sign hlow hhigh _ _

theorem exactPercentageOf_eq_pennies (hsafe : |m.amount| ≤ Money.maxSafeInteger)
    (hbasis : basisPoints ≤ maxFeeBasisPoints) : exactPercentageOf m basisPoints =
      .ok ⟨m.amount.sign * ((m.amount.natAbs * basisPoints + 5000) / 10000 : ℕ), m.currency⟩ := by
  have hproduct := Nat.mul_le_mul (natAbs_le_of_safe hsafe) hbasis
  rw [maxFeeBasisPoints] at hproduct
  have hdouble : (2 * (m.amount.natAbs * basisPoints) + 10000) / 20000 =
      (m.amount.natAbs * basisPoints + 5000) / 10000 := by omega
  rw [← hdouble]
  apply money_of_sign
  · positivity
  · norm_cast
    omega

theorem doublePercentageOf_eq_iff (hsafe : |m.amount| ≤ Money.maxSafeInteger)
    (hbasis : basisPoints ≤ maxFeeBasisPoints) :
    doublePercentageOf m basisPoints = exactPercentageOf m basisPoints ↔
      RoundsExactly m.amount.natAbs basisPoints := by
  rw [doublePercentageOf_eq hsafe hbasis, exactPercentageOf_eq_pennies hsafe hbasis, Except.ok.injEq, Money.mk.injEq,
    ← floor_eq_iff hsafe hbasis, and_iff_left rfl]
  constructor
  · intro heq
    obtain hzero | hne := eq_or_ne m.amount 0
    · -- of nothing both are nothing
      rw [heldShare, hzero, Int.natAbs_zero, Nat.cast_zero, zero_mul, zero_mul, floor_double_zero]
      rfl
    · exact mul_left_cancel₀ (mt Int.sign_eq_zero_iff_zero.mp hne) heq
  · intro heq
    rw [heq]

theorem renterFeeOn_double {policy : CategoryFeePolicy} (hpolicy : policy.Accepted)
    (hsafe : |m.amount| ≤ Money.maxSafeInteger)
    (hexact : RoundsExactly m.amount.natAbs policy.renterFeeBasisPoints) :
    renterFeeOn doublePercentageOf m policy = renterFeeOn exactPercentageOf m policy := by
  rw [renterFeeOn, renterFeeOn, (doublePercentageOf_eq_iff hsafe hpolicy.renterFee).mpr hexact]

/-- The code's percentage is the exact one, rounded half away from zero, just where integer
arithmetic on the amount and the basis points has the half penny below it reached and the one
above it not. For a percentage of up to a thousand million pounds that is unless it is an exact
half penny and the shortfall of the rate is too large for the amount. -/
theorem percentage_is_exact_iff (hsafe : |m.amount| ≤ Money.maxSafeInteger)
    (hbasis : basisPoints ≤ maxFeeBasisPoints) :
    (doublePercentageOf m basisPoints = exactPercentageOf m basisPoints ↔
      RoundsExactly m.amount.natAbs basisPoints) ∧
    (m.amount.natAbs * basisPoints ≤ 10 ^ 15 →
      (doublePercentageOf m basisPoints = exactPercentageOf m basisPoints ↔
        ¬(m.amount.natAbs * basisPoints % 10000 = 5000 ∧
          2500 * 2 ^ (doublings 5000 basisPoints + Nat.clog 2 (m.amount.natAbs * basisPoints / 5000)) <
            m.amount.natAbs * rateShortfall basisPoints))) := by
  have hiff := doublePercentageOf_eq_iff hsafe hbasis
  refine ⟨hiff, fun hshare => ?_⟩
  rw [hiff, roundsExactly_iff hbasis hshare]

end Fee

/-- Fourteen and a half percent of a pound is fourteen and a half pence, which the code
rounds down. -/
theorem a_half_penny_is_lost : doublePercentageOf ⟨100, .gbp⟩ 1450 = .ok ⟨14, .gbp⟩ ∧
    exactPercentageOf ⟨100, .gbp⟩ 1450 = .ok ⟨15, .gbp⟩ := by
  decide +kernel

theorem a_half_penny_is_kept : doublePercentageOf ⟨100, .gbp⟩ 1250 = exactPercentageOf ⟨100, .gbp⟩ 1250 ∧
    exactPercentageOf ⟨100, .gbp⟩ 1250 = .ok ⟨13, .gbp⟩ := by
  refine ⟨((percentage_is_exact_iff (by decide) (by decide)).2 (by decide)).mpr ?_, by decide +kernel⟩
  rintro ⟨-, hshort⟩
  revert hshort
  decide +kernel

end RentalMarket.Pricing
