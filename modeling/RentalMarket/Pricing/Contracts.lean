import RentalMarket.Core.Rounding
import RentalMarket.Pricing.RentalQuote

namespace RentalMarket.Pricing

open RentalMarket.Core

def maxFeeBasisPoints : Nat := 5000

def maxPricingFloorMinorUnits : Int := 1000000

/-- What `categoryFeePolicySchema` accepts. -/
structure CategoryFeePolicy.Accepted (policy : CategoryFeePolicy) : Prop where
  ownerCommission : policy.ownerCommissionBasisPoints ≤ maxFeeBasisPoints
  renterFee : policy.renterFeeBasisPoints ≤ maxFeeBasisPoints
  bookingFloor : 0 ≤ policy.minimumBookingTotal.amount ∧
    policy.minimumBookingTotal.amount ≤ maxPricingFloorMinorUnits
  feeFloor : 0 ≤ policy.minimumPlatformFee.amount ∧
    policy.minimumPlatformFee.amount ≤ maxPricingFloorMinorUnits
  currencies : policy.minimumBookingTotal.currency = policy.minimumPlatformFee.currency
  floorsAgree : policy.minimumPlatformFee.amount ≤ policy.minimumBookingTotal.amount

def maxExcessPercentageBasisPoints : Nat := 10000

def maxDamageSecurityMinorUnits : Int := 1000000

/-- What `damageSecurityPolicySchema` accepts. -/
structure DamageSecurityPolicy.Accepted (policy : DamageSecurityPolicy) : Prop where
  excessFloor : 0 ≤ policy.excessFloor.amount ∧ policy.excessFloor.amount ≤ maxDamageSecurityMinorUnits
  excessPercentage : policy.excessPercentageBasisPoints ≤ maxExcessPercentageBasisPoints
  recoveryCeiling : 1 ≤ policy.recoveryCeiling.amount ∧
    policy.recoveryCeiling.amount ≤ maxDamageSecurityMinorUnits
  currencies : policy.excessFloor.currency = policy.recoveryCeiling.currency
  bandAgrees : policy.excessFloor.amount ≤ policy.recoveryCeiling.amount

def minRentalRateMinorUnits : Int := 100

def maxRentalRateMinorUnits : Int := 1000000

/-- What `rentalRateSchema` accepts. -/
def rentalRateAccepted (rate : Money) : Prop :=
  minRentalRateMinorUnits ≤ rate.amount ∧ rate.amount ≤ maxRentalRateMinorUnits

/-- What `listingRateCardSchema` accepts. -/
structure ListingRateCard.Accepted (rates : ListingRateCard) : Prop where
  each : ∀ rate, rate ∈ [rates.daily, rates.weekend, rates.weekly].filterMap id → rentalRateAccepted rate
  daily : rates.daily = none → rates.weekend = none ∧ rates.weekly = none

def minReplacementValueMinor : Int := 100

def maxReplacementValueMinor : Int := 10000000

/-- What `replacementValueSchema` accepts. -/
def replacementValueAccepted (value : Money) : Prop :=
  minReplacementValueMinor ≤ value.amount ∧ value.amount ≤ maxReplacementValueMinor

theorem exactPercentageOf_eq (m : Money) (basisPoints : Nat) (hm : 0 ≤ m.amount) :
    exactPercentageOf m basisPoints = Money.money ((2 * (m.amount * basisPoints) + 10000) / 20000) m.currency := by
  obtain ⟨n, hn⟩ := Int.eq_ofNat_of_zero_le hm
  have hround : m.amount.sign * ((2 * (m.amount.natAbs * basisPoints) + 10000) / 20000 : Nat) =
      (2 * (m.amount * basisPoints) + 10000) / 20000 := by
    rw [hn]
    cases n with
    | zero => simp
    | succ n =>
      rw [Int.sign_natCast_of_ne_zero (Nat.succ_ne_zero n), Int.natAbs_natCast, one_mul]
      push_cast
      rfl
  rw [exactPercentageOf, hround]

theorem exactPercentageOf_ok (m : Money) (basisPoints : Nat) (hm : 0 ≤ m.amount)
    (hsafe : (2 * (m.amount * basisPoints) + 10000) / 20000 ≤ Money.maxSafeInteger) :
    exactPercentageOf m basisPoints = .ok ⟨(2 * (m.amount * basisPoints) + 10000) / 20000, m.currency⟩ := by
  have hnonneg : 0 ≤ (2 * (m.amount * basisPoints) + 10000) / 20000 := by positivity
  rw [exactPercentageOf_eq m basisPoints hm, Money.money, if_pos]
  simp only [Money.maxSafeInteger] at hsafe ⊢
  omega

def renterFeeAmount (policy : CategoryFeePolicy) (charge : Int) : Int :=
  max policy.minimumPlatformFee.amount ((2 * (charge * policy.renterFeeBasisPoints) + 10000) / 20000)

/-- A fee of the schema is given on every amount there is. -/
theorem renterFeeOn_safe {policy : CategoryFeePolicy} (hpolicy : policy.Accepted) {charge : Money}
    (hcharge : 0 ≤ charge.amount) (hsafe : charge.amount ≤ Money.maxSafeInteger) :
    ∃ fee, renterFeeOn exactPercentageOf charge policy = .ok fee ∧
      fee.fee = ⟨renterFeeAmount policy charge.amount, charge.currency⟩ := by
  have hrate := hpolicy.renterFee
  have hfloor := hpolicy.feeFloor
  unfold maxFeeBasisPoints at hrate
  unfold maxPricingFloorMinorUnits at hfloor
  have hproduct : charge.amount * policy.renterFeeBasisPoints ≤ charge.amount * 5000 :=
    mul_le_mul_of_nonneg_left (by exact_mod_cast hrate) hcharge
  have hpercentage := exactPercentageOf_ok charge policy.renterFeeBasisPoints hcharge
    (by simp only [Money.maxSafeInteger] at hsafe ⊢; omega)
  have hcurrency : policy.minimumPlatformFee.currency = charge.currency := by
    cases policy.minimumPlatformFee.currency
    cases charge.currency
    rfl
  have hmoney : Money.money policy.minimumPlatformFee.amount policy.minimumPlatformFee.currency =
      .ok policy.minimumPlatformFee := by
    rw [Money.money, if_pos]
    simp only [Money.maxSafeInteger]
    omega
  rw [renterFeeOn, hpercentage, hmoney]
  simp only [Except.bind, Money.lessThan, hcurrency, if_true]
  refine ⟨_, rfl, ?_⟩
  simp only [decide_eq_true_eq, renterFeeAmount]
  split
  · rename_i hlt
    rw [max_eq_left hlt.le, ← hcurrency]
  · rename_i hlt
    rw [max_eq_right (not_lt.mp hlt)]

theorem renterFeeOn_ok {policy : CategoryFeePolicy} (hpolicy : policy.Accepted) {charge : Money}
    (hcharge : 0 ≤ charge.amount) (hsafe : charge.amount ≤ 1000000000) :
    ∃ fee, renterFeeOn exactPercentageOf charge policy = .ok fee ∧
      fee.fee = ⟨renterFeeAmount policy charge.amount, charge.currency⟩ :=
  renterFeeOn_safe hpolicy hcharge (hsafe.trans (by decide))

/-- An excess lies between nothing and the ceiling of its band. -/
theorem appliedExcessFor_ok {band : DamageSecurityPolicy} (hband : band.Accepted) {value : Money}
    (hvalue : replacementValueAccepted value) :
    ∃ excess, appliedExcessFor exactPercentageOf band value = .ok excess ∧
      0 ≤ excess.amount.amount ∧ excess.amount.amount ≤ band.recoveryCeiling.amount := by
  have hfloor := hband.excessFloor
  have hceiling := hband.recoveryCeiling
  have hrate := hband.excessPercentage
  have hagrees := hband.bandAgrees
  unfold replacementValueAccepted minReplacementValueMinor maxReplacementValueMinor at hvalue
  unfold maxDamageSecurityMinorUnits at hfloor hceiling
  unfold maxExcessPercentageBasisPoints at hrate
  have hproduct : value.amount * band.excessPercentageBasisPoints ≤ value.amount * 10000 :=
    mul_le_mul_of_nonneg_left (by exact_mod_cast hrate) (by omega)
  have hpercentage := exactPercentageOf_ok value band.excessPercentageBasisPoints (by omega)
    (by simp only [Money.maxSafeInteger]; omega)
  have hmoney : ∀ m : Money, 0 ≤ m.amount → m.amount ≤ 1000000 → Money.money m.amount m.currency = .ok m := by
    intro m hlow hhigh
    rw [Money.money, if_pos]
    simp only [Money.maxSafeInteger]
    omega
  rw [appliedExcessFor, hmoney _ hfloor.1 hfloor.2, hmoney _ (by omega) hceiling.2, hpercentage]
  generalize (2 * (value.amount * band.excessPercentageBasisPoints) + 10000) / 20000 = percentage
  simp only [Except.bind, Money.maxOf, Money.greaterThan, Except.map, if_true]
  by_cases hgreater : band.excessFloor.amount > percentage
  · have hnot : ¬ band.excessFloor.amount > band.recoveryCeiling.amount := by omega
    simp only [hgreater, hnot, decide_true, decide_false, if_true, Bool.false_eq_true, if_false]
    exact ⟨_, rfl, by simp only; omega, by simp only; omega⟩
  · by_cases hexceeds : percentage > band.recoveryCeiling.amount
    · simp only [hgreater, hexceeds, decide_true, decide_false, if_true, Bool.false_eq_true, if_false]
      exact ⟨_, rfl, by simp only; omega, by simp only; omega⟩
    · simp only [hgreater, hexceeds, decide_false, Bool.false_eq_true, if_false]
      exact ⟨_, rfl, by simp only; omega, by simp only; omega⟩

end RentalMarket.Pricing
