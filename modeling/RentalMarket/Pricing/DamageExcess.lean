import RentalMarket.Pricing.Contracts

namespace RentalMarket.Pricing

open RentalMarket.Core

/-- The share of a replacement value, an exact rational, rounded to a whole penny. -/
def excessPercentage (policy : DamageSecurityPolicy) (value : Int) : Int :=
  Money.applyRounding (value * ((policy.excessPercentageBasisPoints : ℚ) / 10000))

def ExcessBound.of (policy : DamageSecurityPolicy) (value : Int) : ExcessBound → Int
  | floor => policy.excessFloor.amount
  | percentage => excessPercentage policy value
  | ceiling => policy.recoveryCeiling.amount

def clampedExcess (policy : DamageSecurityPolicy) (value : Int) : Int :=
  min policy.recoveryCeiling.amount (max policy.excessFloor.amount (excessPercentage policy value))

/-- A value that `MoneyValue` can hold. -/
def IsSafe (value : Money) : Prop := |value.amount| ≤ Money.maxSafeInteger

theorem applyRounding_monotone : Monotone Money.applyRounding := by
  intro x y hxy
  rw [Money.applyRounding, Money.applyRounding]
  by_cases hx : x < 0
  · rw [if_pos hx, abs_of_neg hx]
    by_cases hy : y < 0
    · rw [if_pos hy, abs_of_neg hy]
      have hfloor : ⌊-y + 1 / 2⌋ ≤ ⌊-x + 1 / 2⌋ := Int.floor_le_floor (by linarith)
      omega
    · rw [if_neg hy]
      have hdown : 0 ≤ ⌊-x + 1 / 2⌋ := Int.floor_nonneg.mpr (by linarith)
      have hup : 0 ≤ ⌊|y| + 1 / 2⌋ := Int.floor_nonneg.mpr (by positivity)
      omega
  · have hy : ¬ y < 0 := fun h => hx (hxy.trans_lt h)
    rw [if_neg hx, if_neg hy, abs_of_nonneg (not_lt.mp hx), abs_of_nonneg (not_lt.mp hy), one_mul, one_mul]
    exact Int.floor_le_floor (by linarith)

theorem applyRounding_neg (x : ℚ) (hx : x ≠ 0) : Money.applyRounding (-x) = -Money.applyRounding x := by
  rw [Money.applyRounding, Money.applyRounding, abs_neg]
  obtain hneg | hpos := lt_or_gt_of_ne hx
  · rw [if_neg (by linarith), if_pos hneg]
    ring
  · rw [if_pos (by linarith), if_neg (by linarith)]
    ring

/-- `exactPercentageOf` rounds the exact share of any amount, a debt included. -/
theorem exactPercentageOf_eq_rounding (m : Money) (basisPoints : Nat) :
    exactPercentageOf m basisPoints =
      Money.money (Money.applyRounding (m.amount * ((basisPoints : ℚ) / 10000))) m.currency := by
  have hshare (n : Nat) : Money.applyRounding (n * ((basisPoints : ℚ) / 10000)) =
      ((2 * (n * basisPoints) + 10000) / 20000 : Nat) := by
    have hround := Money.applyRounding_fraction (Int.natCast_nonneg n) basisPoints 10000 (by decide)
    push_cast at hround ⊢
    exact hround
  rw [exactPercentageOf]
  congr 1
  obtain ⟨n, hn | hn⟩ := m.amount.eq_nat_or_neg
  · rw [hn, Int.natAbs_natCast, Int.cast_natCast, hshare]
    cases n with
    | zero => simp
    | succ n => rw [Int.sign_natCast_of_ne_zero (Nat.succ_ne_zero n), one_mul]
  · rw [hn, Int.natAbs_neg, Int.natAbs_natCast, Int.cast_neg, Int.cast_natCast, neg_mul]
    by_cases hzero : (n : ℚ) * ((basisPoints : ℚ) / 10000) = 0
    · have hshare := hshare n
      rw [hzero] at hshare
      rw [hzero, neg_zero, hshare, ← hshare]
      rw [show Money.applyRounding 0 = 0 by decide +kernel, mul_zero]
    · rw [applyRounding_neg _ hzero, hshare]
      cases n with
      | zero => simp at hzero
      | succ n =>
        rw [Int.sign_neg, Int.sign_natCast_of_ne_zero (Nat.succ_ne_zero n), neg_mul, one_mul]

theorem abs_applyRounding_le {x : ℚ} {n : Int} (h : |x| ≤ n) : |Money.applyRounding x| ≤ n := by
  have hlow : Money.applyRounding (-n : Int) ≤ Money.applyRounding x :=
    applyRounding_monotone (by push_cast; exact neg_le_of_abs_le h)
  have hhigh : Money.applyRounding x ≤ Money.applyRounding (n : Int) := applyRounding_monotone (le_of_abs_le h)
  have hwhole (k : Int) : Money.applyRounding k = k := by
    have hhalf : ⌊|(k : ℚ)| + 1 / 2⌋ = |k| := by
      rw [← Int.cast_abs, Int.floor_intCast_add, show ⌊(1 / 2 : ℚ)⌋ = 0 by norm_num, add_zero]
    rw [Money.applyRounding, hhalf]
    by_cases hneg : k < 0
    · rw [if_pos (by exact_mod_cast hneg), abs_of_neg hneg, neg_one_mul, neg_neg]
    · rw [if_neg (by exact_mod_cast hneg), abs_of_nonneg (not_lt.mp hneg), one_mul]
  rw [hwhole] at hlow hhigh
  exact abs_le.mpr ⟨hlow, hhigh⟩

section

variable {policy : DamageSecurityPolicy} {value value' : Money}

theorem excessPercentage_mono (policy : DamageSecurityPolicy) : Monotone (excessPercentage policy) := by
  intro v w hvw
  apply applyRounding_monotone
  exact mul_le_mul_of_nonneg_right (by exact_mod_cast hvw) (by positivity)

theorem clampedExcess_mono (policy : DamageSecurityPolicy) : Monotone (clampedExcess policy) := fun _ _ hvw =>
  min_le_min le_rfl (max_le_max le_rfl (excessPercentage_mono policy hvw))

theorem abs_excessPercentage_le (hpolicy : policy.Accepted) (v : Int) : |excessPercentage policy v| ≤ |v| := by
  have hrate : (policy.excessPercentageBasisPoints : ℚ) / 10000 ≤ 1 := by
    have hle : (policy.excessPercentageBasisPoints : ℚ) ≤ 10000 := by exact_mod_cast hpolicy.excessPercentage
    linarith
  apply abs_applyRounding_le
  rw [abs_mul, abs_of_nonneg (by positivity : (0 : ℚ) ≤ policy.excessPercentageBasisPoints / 10000), Int.cast_abs]
  exact mul_le_of_le_one_right (abs_nonneg _) hrate

/-- What decided: the ceiling if it is exceeded, and otherwise the larger of the other two. -/
def excessBoundOf (policy : DamageSecurityPolicy) (value : Int) : ExcessBound :=
  if policy.recoveryCeiling.amount < max policy.excessFloor.amount (excessPercentage policy value) then .ceiling
  else if policy.excessFloor.amount < excessPercentage policy value then .percentage
  else .floor

theorem appliedExcessFor_eq (hpolicy : policy.Accepted) (hvalue : IsSafe value) :
    appliedExcessFor exactPercentageOf policy value =
      .ok ⟨⟨clampedExcess policy value.amount, .gbp⟩, excessBoundOf policy value.amount⟩ := by
  have hfloor := hpolicy.excessFloor
  have hceiling := hpolicy.recoveryCeiling
  unfold maxDamageSecurityMinorUnits at hfloor hceiling
  have hsafe := abs_le.mp ((abs_excessPercentage_le hpolicy value.amount).trans hvalue)
  have hmoney (a : Int) (hlow : -Money.maxSafeInteger ≤ a) (hhigh : a ≤ Money.maxSafeInteger) (c : Currency) :
      Money.money a c = .ok ⟨a, .gbp⟩ := by
    rw [Money.money, if_pos ⟨hlow, hhigh⟩]
  have hpercentage : exactPercentageOf value policy.excessPercentageBasisPoints =
      .ok ⟨excessPercentage policy value.amount, .gbp⟩ := by
    rw [exactPercentageOf_eq_rounding]
    exact hmoney _ hsafe.1 hsafe.2 _
  have hsmall : (1000000 : Int) ≤ Money.maxSafeInteger := by decide
  rw [appliedExcessFor, hmoney _ (by omega) (by omega), hmoney _ (by omega) (by omega), hpercentage]
  simp only [Except.bind, Money.maxOf, Money.greaterThan, Except.map, if_true, clampedExcess, excessBoundOf]
  generalize excessPercentage policy value.amount = percentage
  by_cases hgreater : policy.excessFloor.amount > percentage
  · have hagrees := hpolicy.bandAgrees
    simp only [hgreater, decide_true, if_true, max_eq_left hgreater.le, not_lt.mpr hagrees, decide_false,
      Bool.false_eq_true, if_false, min_eq_right hagrees, not_lt.mpr hgreater.le]
  · have hle := not_lt.mp hgreater
    simp only [hgreater, decide_false, Bool.false_eq_true, if_false, max_eq_right hle]
    by_cases hexceeds : percentage > policy.recoveryCeiling.amount
    · simp only [hexceeds, decide_true, if_true, min_eq_left hexceeds.le]
    · simp only [hexceeds, decide_false, Bool.false_eq_true, if_false, min_eq_right (not_lt.mp hexceeds),
        decide_eq_true_eq, gt_iff_lt]

theorem excessBoundOf_amount (hpolicy : policy.Accepted) (v : Int) :
    clampedExcess policy v = (excessBoundOf policy v).of policy v := by
  have hagrees := hpolicy.bandAgrees
  rw [clampedExcess, excessBoundOf]
  split
  · rename_i hceiling
    exact min_eq_left hceiling.le
  · rename_i hceiling
    rw [min_eq_right (not_lt.mp hceiling)]
    split
    · rename_i hpercentage
      exact max_eq_right hpercentage.le
    · rename_i hfloor
      exact max_eq_left (not_lt.mp hfloor)

theorem clampedExcess_of_floor {v w : Int} (h : excessBoundOf policy w = .floor) (hvw : v ≤ w) :
    clampedExcess policy v = clampedExcess policy w := by
  have hfloor : excessPercentage policy w ≤ policy.excessFloor.amount := by
    rw [excessBoundOf] at h
    split at h
    · cases h
    · split at h
      · cases h
      · rename_i hfloor
        exact not_lt.mp hfloor
  rw [clampedExcess, clampedExcess, max_eq_left hfloor,
    max_eq_left ((excessPercentage_mono policy hvw).trans hfloor)]

theorem clampedExcess_of_ceiling {v w : Int} (h : excessBoundOf policy v = .ceiling) (hvw : v ≤ w) :
    clampedExcess policy w = clampedExcess policy v := by
  have hceiling : policy.recoveryCeiling.amount < max policy.excessFloor.amount (excessPercentage policy v) := by
    rw [excessBoundOf] at h
    split at h
    · assumption
    · split at h <;> cases h
  have hmore := max_le_max (le_refl policy.excessFloor.amount) (excessPercentage_mono policy hvw)
  rw [clampedExcess, clampedExcess, min_eq_left hceiling.le, min_eq_left (hceiling.trans_le hmore).le]

end

/-- The applied excess is the clamped percentage, moves with the replacement value, and
is explained by the bound it names. It is absent where the category has no band. -/
theorem excess_is_clamped {policy : DamageSecurityPolicy} (hpolicy : policy.Accepted) :
    (∀ value, IsSafe value → ∃ excess, appliedExcessFor exactPercentageOf policy value = .ok excess ∧
      excess.amount.amount = clampedExcess policy value.amount ∧
      policy.excessFloor.amount ≤ excess.amount.amount ∧ excess.amount.amount ≤ policy.recoveryCeiling.amount ∧
      excess.amount.amount = excess.boundBy.of policy value.amount) ∧
    (∀ value value' excess excess', IsSafe value → IsSafe value' → value.amount ≤ value'.amount →
      appliedExcessFor exactPercentageOf policy value = .ok excess →
      appliedExcessFor exactPercentageOf policy value' = .ok excess' →
      excess.amount.amount ≤ excess'.amount.amount ∧
      (excess'.boundBy = .floor → excess.amount = excess'.amount) ∧
      (excess.boundBy = .ceiling → excess'.amount = excess.amount)) ∧
    ∀ value, IsSafe value → appliedExcessOrNone exactPercentageOf none value = .ok none ∧
      ∃ excess, appliedExcessOrNone exactPercentageOf (some policy) value = .ok (some excess) := by
  refine ⟨?_, ?_, ?_⟩
  · intro value hvalue
    refine ⟨_, appliedExcessFor_eq hpolicy hvalue, rfl, ?_, min_le_left _ _, excessBoundOf_amount hpolicy _⟩
    exact le_min hpolicy.bandAgrees (le_max_left _ _)
  · intro value value' excess excess' hvalue hvalue' hle h h'
    cases (appliedExcessFor_eq hpolicy hvalue).symm.trans h
    cases (appliedExcessFor_eq hpolicy hvalue').symm.trans h'
    refine ⟨clampedExcess_mono policy hle, ?_, ?_⟩
    · intro hfloor
      exact congrArg (Money.mk · .gbp) (clampedExcess_of_floor hfloor hle)
    · intro hceiling
      exact congrArg (Money.mk · .gbp) (clampedExcess_of_ceiling hceiling hle)
  · intro value hvalue
    refine ⟨rfl, ⟨⟨clampedExcess policy value.amount, .gbp⟩, excessBoundOf policy value.amount⟩, ?_⟩
    rw [appliedExcessOrNone, appliedExcessFor_eq hpolicy hvalue]
    rfl

def mowerBand : DamageSecurityPolicy := ⟨⟨2000, .gbp⟩, 1500, ⟨50000, .gbp⟩⟩

theorem mowerBand_clamps : ∃ excess, appliedExcessFor exactPercentageOf mowerBand ⟨30003, .gbp⟩ = .ok excess ∧
    excess.amount.amount = 4500 ∧ excess.boundBy = .percentage := by
  have hband : mowerBand.Accepted := by
    constructor <;> decide
  have hsafe : IsSafe ⟨30003, .gbp⟩ := by norm_num [IsSafe, Money.maxSafeInteger]
  obtain ⟨excess, hexcess, hamount, -⟩ := (excess_is_clamped hband).1 _ hsafe
  refine ⟨excess, hexcess, ?_, ?_⟩
  · rw [hamount]
    decide +kernel
  · have hbound : (appliedExcessFor exactPercentageOf mowerBand ⟨30003, .gbp⟩).map (·.boundBy) = .ok .percentage := by
      decide +kernel
    rw [hexcess] at hbound
    exact Except.ok.inj hbound

end RentalMarket.Pricing
