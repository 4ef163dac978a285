import RentalMarket.Core.Rounding
import RentalMarket.Pricing.Contracts

namespace RentalMarket.Pricing

open RentalMarket.Core

structure BlendedRate where
  percent : ℚ
  fixed : Money
  deriving DecidableEq

structure CostModel where
  cardProcessing : BlendedRate
  damageSecurityProcessing : BlendedRate
  payout : BlendedRate
  connectedAccountMonthly : Money
  extendedAuthorisation : Money
  identityVerification : Money
  smsPerMessage : Money
  criticalMessagesPerBooking : ℚ
  disputeFee : Money
  refundRate : ℚ
  chargebackRate : ℚ
  supportPerBooking : Money

def ukStripeCostModel : CostModel where
  cardProcessing := ⟨3 / 2, ⟨20, .gbp⟩⟩
  damageSecurityProcessing := ⟨3 / 2, ⟨20, .gbp⟩⟩
  payout := ⟨1 / 4, ⟨10, .gbp⟩⟩
  connectedAccountMonthly := ⟨200, .gbp⟩
  extendedAuthorisation := ⟨0, .gbp⟩
  identityVerification := ⟨0, .gbp⟩
  smsPerMessage := ⟨4, .gbp⟩
  criticalMessagesPerBooking := 2
  disputeFee := ⟨2000, .gbp⟩
  refundRate := 3 / 100
  chargebackRate := 1 / 200
  supportPerBooking := ⟨15, .gbp⟩

def applyRate (rate : BlendedRate) (amount : Money) : Except String Money :=
  (Money.percentageOf amount rate.percent).bind (fun percentage => Money.add percentage rate.fixed)

structure CostBreakdown where
  cardProcessing : Money
  damageSecurityProcessing : Money
  payout : Money
  connectedAccount : Money
  extendedAuthorisation : Money
  identityVerification : Money
  sms : Money
  refunds : Money
  chargebacks : Money
  support : Money
  deriving DecidableEq, Repr

def CostBreakdown.values (c : CostBreakdown) : List Money :=
  [c.cardProcessing, c.damageSecurityProcessing, c.payout, c.connectedAccount, c.extendedAuthorisation,
    c.identityVerification, c.sms, c.refunds, c.chargebacks, c.support]

structure UnitEconomics where
  grossBookingValue : Money
  renterPays : Money
  renterFee : Money
  ownerCommission : Money
  ownerProceeds : Money
  platformRevenue : Money
  costs : CostBreakdown
  totalCost : Money
  contributionMargin : Money
  minimumFeeApplied : Bool
  deriving DecidableEq, Repr

structure BookingShape where
  grossBookingValue : Money
  damageSecurityCaptured : Money
  bookingsPerActiveOwnerPerMonth : Nat

def inactiveOwner (received : Nat) : String :=
  "An owner completing a booking is active that month, so bookingsPerActiveOwnerPerMonth must be at least 1, received " ++
    received.repr

def basisPointsToPercent (basisPoints : Nat) : ℚ := basisPoints / 100

def costsOf (booking : BookingShape) (model : CostModel) (renterPays ownerProceeds : Money) :
    Except String CostBreakdown := do
  let cardProcessing ← applyRate model.cardProcessing renterPays
  let damageSecurityProcessing ←
    if booking.damageSecurityCaptured.isZero then .ok (Money.zero booking.grossBookingValue.currency)
    else applyRate model.damageSecurityProcessing booking.damageSecurityCaptured
  let payout ← applyRate model.payout ownerProceeds
  let connectedAccount ← model.connectedAccountMonthly.multiply (1 / booking.bookingsPerActiveOwnerPerMonth)
  let sms ← model.smsPerMessage.multiply model.criticalMessagesPerBooking
  let refunds ← cardProcessing.multiply model.refundRate
  let disputed ← Money.add model.disputeFee cardProcessing
  let chargebacks ← disputed.multiply model.chargebackRate
  return ⟨cardProcessing, damageSecurityProcessing, payout, connectedAccount, model.extendedAuthorisation,
    model.identityVerification, sms, refunds, chargebacks, model.supportPerBooking⟩

def unitEconomicsOf (booking : BookingShape) (policy : CategoryFeePolicy) (model : CostModel) :
    Except String UnitEconomics :=
  if booking.bookingsPerActiveOwnerPerMonth < 1 then .error (inactiveOwner booking.bookingsPerActiveOwnerPerMonth)
  else do
    let gross := booking.grossBookingValue
    let renterFee ← renterFeeOn exactPercentageOf gross policy
    let ownerCommission ← gross.percentageOf (basisPointsToPercent policy.ownerCommissionBasisPoints)
    let renterPays ← Money.add gross renterFee.fee
    let ownerProceeds ← Money.subtract gross ownerCommission
    let platformRevenue ← Money.add renterFee.fee ownerCommission
    let costs ← costsOf booking model renterPays ownerProceeds
    let totalCost ← Money.sum costs.values gross.currency
    let contributionMargin ← Money.subtract platformRevenue totalCost
    return ⟨gross, renterPays, renterFee.fee, ownerCommission, ownerProceeds, platformRevenue, costs,
      totalCost, contributionMargin, renterFee.minimumFeeApplied⟩

section

variable {policy : CategoryFeePolicy}

def commissionAmount (policy : CategoryFeePolicy) (charge : Int) : Int :=
  (2 * (charge * policy.ownerCommissionBasisPoints) + 10000) / 20000

def cardProcessingOn (total : Int) : Int := (3 * total + 100) / 200 + 20

def marginAmount (policy : CategoryFeePolicy) (charge : Int) : Int :=
  let fee := renterFeeAmount policy charge
  let commission := commissionAmount policy charge
  let card := cardProcessingOn (charge + fee)
  let payout := (charge - commission + 200) / 400 + 10
  fee + commission - (card + payout + 200 + 8 + (3 * card + 50) / 100 + (card + 2100) / 200 + 15)

theorem commissionAmount_bounds (hpolicy : policy.Accepted) {charge : Int} (hcharge : 0 ≤ charge) :
    0 ≤ commissionAmount policy charge ∧ 2 * commissionAmount policy charge ≤ charge + 1 := by
  have hrate := hpolicy.ownerCommission
  unfold maxFeeBasisPoints at hrate
  have hproduct : charge * policy.ownerCommissionBasisPoints ≤ charge * 5000 :=
    mul_le_mul_of_nonneg_left (by exact_mod_cast hrate) hcharge
  have hnonneg : 0 ≤ charge * policy.ownerCommissionBasisPoints := by positivity
  unfold commissionAmount
  omega

theorem renterFeeAmount_bounds (hpolicy : policy.Accepted) {charge : Int} (hcharge : 0 ≤ charge) :
    0 ≤ renterFeeAmount policy charge ∧ renterFeeAmount policy charge ≤ 1000000 + charge := by
  have hrate := hpolicy.renterFee
  have hfloor := hpolicy.feeFloor
  unfold maxFeeBasisPoints at hrate
  unfold maxPricingFloorMinorUnits at hfloor
  have hproduct : charge * policy.renterFeeBasisPoints ≤ charge * 5000 :=
    mul_le_mul_of_nonneg_left (by exact_mod_cast hrate) hcharge
  unfold renterFeeAmount
  omega

theorem money_of_bounds {m : Money} (hlow : 0 ≤ m.amount) (hhigh : m.amount ≤ Money.maxSafeInteger) :
    Money.money m.amount m.currency = .ok m := by
  rw [Money.money, if_pos]
  simp only [Money.maxSafeInteger] at hhigh ⊢
  omega

theorem money_le {amount : Int} {currency : Currency} {value : Money} (h : Money.money amount currency = .ok value) :
    value.amount ≤ Money.maxSafeInteger := by
  rw [Money.money] at h
  split at h
  · rename_i hsafe
    cases h
    exact hsafe.2
  · cases h

theorem renterFeeOn_eq_ok {charge : Money} {fee : RenterFee} (hcharge : 0 ≤ charge.amount)
    (h : renterFeeOn exactPercentageOf charge policy = .ok fee) :
    fee.fee.amount = renterFeeAmount policy charge.amount := by
  obtain ⟨percentage, hpercentage, h⟩ := Refusal.bind_eq_ok.mp h
  obtain ⟨floor, hfloor, h⟩ := Refusal.bind_eq_ok.mp h
  obtain ⟨applied, happlied, h⟩ := Refusal.bind_eq_ok.mp h
  cases h
  rw [exactPercentageOf_eq charge _ hcharge] at hpercentage
  cases Money.money_eq_ok hpercentage
  cases Money.money_eq_ok hfloor
  rw [Money.lessThan] at happlied
  split at happlied
  · cases happlied
    rw [renterFeeAmount]
    by_cases hless : (2 * (charge.amount * policy.renterFeeBasisPoints) + 10000) / 20000 <
        policy.minimumPlatformFee.amount
    · simp only [hless, decide_true, if_true, max_eq_left hless.le]
    · simp only [hless, decide_false, Bool.false_eq_true, if_false, max_eq_right (not_lt.mp hless)]
  · cases happlied

theorem renterFeeAmount_mono (policy : CategoryFeePolicy) {a b : Int} (h : a ≤ b) :
    renterFeeAmount policy a ≤ renterFeeAmount policy b := by
  have hproduct : a * policy.renterFeeBasisPoints ≤ b * policy.renterFeeBasisPoints :=
    mul_le_mul_of_nonneg_right h (by positivity)
  rw [renterFeeAmount, renterFeeAmount]
  omega

theorem applyRate_ok (num den : Nat) {rate : BlendedRate} {amount : Money} (hamount : 0 ≤ amount.amount)
    (hrate : rate.percent / 100 = (num : ℚ) / den) (hden : 0 < den) (hfixed : 0 ≤ rate.fixed.amount)
    (hsafe : (2 * (amount.amount * num) + den) / (2 * den) + rate.fixed.amount ≤ Money.maxSafeInteger) :
    applyRate rate amount =
      .ok ⟨(2 * (amount.amount * num) + den) / (2 * den) + rate.fixed.amount, amount.currency⟩ := by
  have hnonneg : 0 ≤ (2 * (amount.amount * num) + den) / (2 * (den : Int)) := by positivity
  rw [applyRate, Money.percentageOf, Money.multiply_fraction num den hamount hrate hden (by omega)]
  exact Money.add_ok hnonneg hfixed hsafe

/-- The costs of an ordinary booking. -/
theorem costsOf_ok (gross pays proceeds : Money) (hpays : 0 ≤ pays.amount) (hproceeds : 0 ≤ proceeds.amount)
    (hsafe : pays.amount ≤ 1000000000) (hsafe' : proceeds.amount ≤ 1000000000) :
    costsOf ⟨gross, .zero gross.currency, 1⟩ ukStripeCostModel pays proceeds =
      .ok ⟨⟨cardProcessingOn pays.amount, pays.currency⟩, .zero gross.currency,
        ⟨(proceeds.amount + 200) / 400 + 10, proceeds.currency⟩, ⟨200, .gbp⟩, ⟨0, .gbp⟩, ⟨0, .gbp⟩, ⟨8, .gbp⟩,
        ⟨(3 * cardProcessingOn pays.amount + 50) / 100, pays.currency⟩,
        ⟨(cardProcessingOn pays.amount + 2100) / 200, .gbp⟩, ⟨15, .gbp⟩⟩ := by
  have hcard : applyRate ukStripeCostModel.cardProcessing pays =
      .ok ⟨cardProcessingOn pays.amount, pays.currency⟩ := by
    rw [applyRate_ok 3 200 hpays (by norm_num [ukStripeCostModel]) (by decide) (by decide)
      (by simp only [ukStripeCostModel, Money.maxSafeInteger]; omega)]
    simp only [ukStripeCostModel, cardProcessingOn]
    congr 2
    omega
  have hpayout : applyRate ukStripeCostModel.payout proceeds =
      .ok ⟨(proceeds.amount + 200) / 400 + 10, proceeds.currency⟩ := by
    rw [applyRate_ok 1 400 hproceeds (by norm_num [ukStripeCostModel]) (by decide) (by decide)
      (by simp only [ukStripeCostModel, Money.maxSafeInteger]; omega)]
    simp only [ukStripeCostModel]
    congr 2
    omega
  have hcardNonneg : 0 ≤ cardProcessingOn pays.amount := by
    unfold cardProcessingOn
    omega
  have hcardSafe : cardProcessingOn pays.amount ≤ 1000000000 := by
    unfold cardProcessingOn
    omega
  have hrefunds : Money.multiply ⟨cardProcessingOn pays.amount, pays.currency⟩ ukStripeCostModel.refundRate =
      .ok ⟨(3 * cardProcessingOn pays.amount + 50) / 100, pays.currency⟩ := by
    rw [Money.multiply_fraction 3 100 hcardNonneg (by norm_num [ukStripeCostModel]) (by decide)
      (by simp only [Money.maxSafeInteger]; omega)]
    congr 2
    simp only
    omega
  have hdisputed : Money.add ukStripeCostModel.disputeFee ⟨cardProcessingOn pays.amount, pays.currency⟩ =
      .ok ⟨2000 + cardProcessingOn pays.amount, .gbp⟩ :=
    Money.add_ok (by decide) hcardNonneg (by simp only [ukStripeCostModel, Money.maxSafeInteger]; omega)
  have hchargebacks : Money.multiply ⟨2000 + cardProcessingOn pays.amount, .gbp⟩
      ukStripeCostModel.chargebackRate = .ok ⟨(cardProcessingOn pays.amount + 2100) / 200, .gbp⟩ := by
    rw [Money.multiply_fraction 1 200 (by simp only; omega) (by norm_num [ukStripeCostModel]) (by decide)
      (by simp only [Money.maxSafeInteger]; omega)]
    congr 2
    simp only
    omega
  have hconnected : Money.multiply ukStripeCostModel.connectedAccountMonthly (1 / ((1 : Nat) : ℚ)) =
      .ok ⟨200, .gbp⟩ := by decide +kernel
  have hsms : Money.multiply ukStripeCostModel.smsPerMessage ukStripeCostModel.criticalMessagesPerBooking =
      .ok ⟨8, .gbp⟩ := by decide +kernel
  simp only [costsOf, hcard, hpayout, hconnected, hsms, hrefunds, hdisputed, hchargebacks, bind, Except.bind,
    pure, Except.pure]
  rfl

theorem sum_costs (currency : Currency) {card payout refunds chargebacks : Int} (hcard : 0 ≤ card)
    (hpayout : 0 ≤ payout) (hrefunds : 0 ≤ refunds) (hchargebacks : 0 ≤ chargebacks)
    (hsafe : card + payout + refunds + chargebacks ≤ 5000000000) :
    Money.sum (CostBreakdown.values ⟨⟨card, currency⟩, .zero currency, ⟨payout, currency⟩, ⟨200, .gbp⟩,
      ⟨0, .gbp⟩, ⟨0, .gbp⟩, ⟨8, .gbp⟩, ⟨refunds, currency⟩, ⟨chargebacks, .gbp⟩, ⟨15, .gbp⟩⟩) currency =
      .ok ⟨card + payout + 200 + 8 + refunds + chargebacks + 15, currency⟩ := by
  cases currency
  rw [Money.sum_ok]
  · congr 2
    simp only [CostBreakdown.values, Money.total, Money.zero, List.map_cons, List.map_nil, List.sum_cons,
      List.sum_nil]
    ring
  · intro v hv
    simp only [CostBreakdown.values, List.mem_cons, List.not_mem_nil, or_false] at hv
    obtain rfl | rfl | rfl | rfl | rfl | rfl | rfl | rfl | rfl | rfl := hv <;>
      exact ⟨rfl, by simp [Money.zero, *]⟩
  · simp only [CostBreakdown.values, Money.total, Money.zero, List.map_cons, List.map_nil, List.sum_cons,
      List.sum_nil, Money.maxSafeInteger]
    omega

/-- The margin of an ordinary booking is given, and it is that sum. -/
theorem unitEconomicsOf_ok (hpolicy : policy.Accepted) {gross : Money} (hgross : 0 ≤ gross.amount)
    (hsafe : gross.amount ≤ 100000000) :
    ∃ e, unitEconomicsOf ⟨gross, .zero gross.currency, 1⟩ policy ukStripeCostModel = .ok e ∧
      e.contributionMargin.amount = marginAmount policy gross.amount := by
  obtain ⟨hcommission, hcommission'⟩ := commissionAmount_bounds hpolicy hgross
  obtain ⟨hfee, hfee'⟩ := renterFeeAmount_bounds hpolicy hgross
  obtain ⟨fee, hrenter, hamount⟩ := renterFeeOn_ok hpolicy hgross (by omega)
  have hrate : gross.percentageOf (basisPointsToPercent policy.ownerCommissionBasisPoints) =
      .ok ⟨commissionAmount policy gross.amount, gross.currency⟩ := by
    rw [Money.percentageOf, Money.multiply_fraction policy.ownerCommissionBasisPoints 10000 hgross
      (by rw [basisPointsToPercent]; push_cast; ring) (by decide) ?_]
    · rfl
    · simp only [commissionAmount] at hcommission'
      simp only [Money.maxSafeInteger]
      push_cast
      omega
  have hpays : Money.add gross fee.fee =
      .ok ⟨gross.amount + renterFeeAmount policy gross.amount, gross.currency⟩ := by
    rw [hamount]
    exact Money.add_ok hgross hfee (by simp only [Money.maxSafeInteger]; omega)
  have hproceeds : Money.subtract gross ⟨commissionAmount policy gross.amount, gross.currency⟩ =
      .ok ⟨gross.amount - commissionAmount policy gross.amount, gross.currency⟩ := by
    rw [Money.subtract, if_pos rfl, Money.money, if_pos]
    simp only [Money.maxSafeInteger]
    omega
  have hrevenue : Money.add fee.fee ⟨commissionAmount policy gross.amount, gross.currency⟩ =
      .ok ⟨renterFeeAmount policy gross.amount + commissionAmount policy gross.amount, gross.currency⟩ := by
    rw [hamount]
    exact Money.add_ok hfee hcommission (by simp only [Money.maxSafeInteger]; omega)
  have hcard : 0 ≤ cardProcessingOn (gross.amount + renterFeeAmount policy gross.amount) ∧
      cardProcessingOn (gross.amount + renterFeeAmount policy gross.amount) ≤ 1000000000 := by
    unfold cardProcessingOn
    omega
  have hcosts := costsOf_ok gross ⟨gross.amount + renterFeeAmount policy gross.amount, gross.currency⟩
    ⟨gross.amount - commissionAmount policy gross.amount, gross.currency⟩ (by simp only; omega)
    (by simp only; omega) (by simp only; omega) (by simp only; omega)
  have hsum := sum_costs gross.currency hcard.1
    (show 0 ≤ (gross.amount - commissionAmount policy gross.amount + 200) / 400 + 10 by omega)
    (show 0 ≤ (3 * cardProcessingOn (gross.amount + renterFeeAmount policy gross.amount) + 50) / 100 by omega)
    (show 0 ≤ (cardProcessingOn (gross.amount + renterFeeAmount policy gross.amount) + 2100) / 200 by omega)
    (by omega)
  simp only [unitEconomicsOf, hrenter, hrate, hpays, hproceeds, hrevenue, hcosts, hsum, bind, Except.bind,
    pure, Except.pure]
  rw [if_neg (by decide), Money.subtract, if_pos rfl, Money.money, if_pos]
  · exact ⟨_, rfl, rfl⟩
  · simp only [Money.maxSafeInteger]
    omega

end

end RentalMarket.Pricing
