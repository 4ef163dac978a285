import RentalMarket.Lib.Threshold
import RentalMarket.Pricing.UnitEconomics

namespace RentalMarket.Pricing

open RentalMarket.Core

def BookingShape.withActivity (booking : BookingShape) (bookings : Nat) : BookingShape :=
  { booking with bookingsPerActiveOwnerPerMonth := bookings }

def CostBreakdown.withAccount (costs : CostBreakdown) (fee : Money) : CostBreakdown :=
  { costs with connectedAccount := fee }

def breakEvenOwnerActivity (booking : BookingShape) (policy : CategoryFeePolicy) (model : CostModel)
    (searchUpTo : Nat) : Except String (Option Nat) :=
  Threshold.firstFrom (fun bookings =>
    (unitEconomicsOf (booking.withActivity bookings) policy model).map (fun economics =>
      !economics.contributionMargin.isNegative)) 1 searchUpTo

section Components

variable {booking : BookingShape} {policy : CategoryFeePolicy} {model : CostModel} {pays proceeds : Money}
  {costs : CostBreakdown} {economics : UnitEconomics} {bookings : Nat}

/-- What each cost of a booking is. Only the account fee depends on how active the owner is. -/
structure Costed (booking : BookingShape) (model : CostModel) (pays proceeds : Money) (costs : CostBreakdown) :
    Prop where
  cardProcessing : applyRate model.cardProcessing pays = .ok costs.cardProcessing
  damageSecurityProcessing : (if booking.damageSecurityCaptured.isZero then
    .ok (Money.zero booking.grossBookingValue.currency)
    else applyRate model.damageSecurityProcessing booking.damageSecurityCaptured) = .ok costs.damageSecurityProcessing
  payout : applyRate model.payout proceeds = .ok costs.payout
  connectedAccount : model.connectedAccountMonthly.multiply (1 / booking.bookingsPerActiveOwnerPerMonth) =
    .ok costs.connectedAccount
  extendedAuthorisation : model.extendedAuthorisation = costs.extendedAuthorisation
  identityVerification : model.identityVerification = costs.identityVerification
  sms : model.smsPerMessage.multiply model.criticalMessagesPerBooking = .ok costs.sms
  refunds : costs.cardProcessing.multiply model.refundRate = .ok costs.refunds
  chargebacks : (Money.add model.disputeFee costs.cardProcessing).bind
    (fun disputed => disputed.multiply model.chargebackRate) = .ok costs.chargebacks
  support : model.supportPerBooking = costs.support

theorem costsOf_eq : costsOf booking model pays proceeds =
    (applyRate model.cardProcessing pays).bind (fun cardProcessing =>
      (if booking.damageSecurityCaptured.isZero then .ok (Money.zero booking.grossBookingValue.currency)
        else applyRate model.damageSecurityProcessing booking.damageSecurityCaptured).bind (fun damage =>
      (applyRate model.payout proceeds).bind (fun payout =>
      (model.connectedAccountMonthly.multiply (1 / booking.bookingsPerActiveOwnerPerMonth)).bind (fun connected =>
      (model.smsPerMessage.multiply model.criticalMessagesPerBooking).bind (fun sms =>
      (cardProcessing.multiply model.refundRate).bind (fun refunds =>
      (Money.add model.disputeFee cardProcessing).bind (fun disputed =>
      (disputed.multiply model.chargebackRate).bind (fun chargebacks =>
      .ok ⟨cardProcessing, damage, payout, connected, model.extendedAuthorisation, model.identityVerification, sms,
        refunds, chargebacks, model.supportPerBooking⟩)))))))) := by
  rw [costsOf]
  cases booking.damageSecurityCaptured.isZero with
  | true => rfl
  | false => rfl

theorem costsOf_eq_ok :
    costsOf booking model pays proceeds = .ok costs ↔ Costed booking model pays proceeds costs := by
  rw [costsOf_eq]
  constructor
  · intro h
    obtain ⟨cardProcessing, hcard, h⟩ := Refusal.bind_eq_ok.mp h
    obtain ⟨damageSecurityProcessing, hdamage, h⟩ := Refusal.bind_eq_ok.mp h
    obtain ⟨payout, hpayout, h⟩ := Refusal.bind_eq_ok.mp h
    obtain ⟨connectedAccount, hconnected, h⟩ := Refusal.bind_eq_ok.mp h
    obtain ⟨sms, hsms, h⟩ := Refusal.bind_eq_ok.mp h
    obtain ⟨refunds, hrefunds, h⟩ := Refusal.bind_eq_ok.mp h
    obtain ⟨disputed, hdisputed, h⟩ := Refusal.bind_eq_ok.mp h
    obtain ⟨chargebacks, hchargebacks, h⟩ := Refusal.bind_eq_ok.mp h
    cases h
    exact ⟨hcard, hdamage, hpayout, hconnected, rfl, rfl, hsms, hrefunds,
      Refusal.bind_eq_ok.mpr ⟨disputed, hdisputed, hchargebacks⟩, rfl⟩
  · intro h
    obtain ⟨disputed, hdisputed, hchargebacks⟩ := Refusal.bind_eq_ok.mp h.chargebacks
    rw [h.extendedAuthorisation, h.identityVerification, h.support]
    refine Refusal.bind_eq_ok.mpr ⟨_, h.cardProcessing, ?_⟩
    refine Refusal.bind_eq_ok.mpr ⟨_, h.damageSecurityProcessing, ?_⟩
    refine Refusal.bind_eq_ok.mpr ⟨_, h.payout, ?_⟩
    refine Refusal.bind_eq_ok.mpr ⟨_, h.connectedAccount, ?_⟩
    refine Refusal.bind_eq_ok.mpr ⟨_, h.sms, ?_⟩
    refine Refusal.bind_eq_ok.mpr ⟨_, h.refunds, ?_⟩
    refine Refusal.bind_eq_ok.mpr ⟨_, hdisputed, ?_⟩
    exact Refusal.bind_eq_ok.mpr ⟨_, hchargebacks, rfl⟩

structure Traded (booking : BookingShape) (policy : CategoryFeePolicy) (model : CostModel)
    (economics : UnitEconomics) : Prop where
  active : 1 ≤ booking.bookingsPerActiveOwnerPerMonth
  gross : booking.grossBookingValue = economics.grossBookingValue
  renterFee : renterFeeOn exactPercentageOf booking.grossBookingValue policy =
    .ok ⟨economics.renterFee, economics.minimumFeeApplied⟩
  ownerCommission : booking.grossBookingValue.percentageOf (basisPointsToPercent policy.ownerCommissionBasisPoints) =
    .ok economics.ownerCommission
  renterPays : Money.add booking.grossBookingValue economics.renterFee = .ok economics.renterPays
  ownerProceeds : Money.subtract booking.grossBookingValue economics.ownerCommission = .ok economics.ownerProceeds
  platformRevenue : Money.add economics.renterFee economics.ownerCommission = .ok economics.platformRevenue
  costs : Costed booking model economics.renterPays economics.ownerProceeds economics.costs
  totalCost : Money.sum economics.costs.values booking.grossBookingValue.currency = .ok economics.totalCost
  contributionMargin : Money.subtract economics.platformRevenue economics.totalCost = .ok economics.contributionMargin

theorem unitEconomicsOf_eq_ok :
    unitEconomicsOf booking policy model = .ok economics ↔ Traded booking policy model economics := by
  rw [unitEconomicsOf, Refusal.ite_error_eq_ok, not_lt]
  constructor
  · rintro ⟨hactive, h⟩
    obtain ⟨fee, hfee, h⟩ := Refusal.bind_eq_ok.mp h
    obtain ⟨commission, hcommission, h⟩ := Refusal.bind_eq_ok.mp h
    obtain ⟨pays, hpays, h⟩ := Refusal.bind_eq_ok.mp h
    obtain ⟨proceeds, hproceeds, h⟩ := Refusal.bind_eq_ok.mp h
    obtain ⟨revenue, hrevenue, h⟩ := Refusal.bind_eq_ok.mp h
    obtain ⟨costs, hcosts, h⟩ := Refusal.bind_eq_ok.mp h
    obtain ⟨totalCost, htotal, h⟩ := Refusal.bind_eq_ok.mp h
    obtain ⟨margin, hmargin, h⟩ := Refusal.bind_eq_ok.mp h
    cases h
    exact ⟨hactive, rfl, hfee, hcommission, hpays, hproceeds, hrevenue, costsOf_eq_ok.mp hcosts, htotal, hmargin⟩
  · intro h
    refine ⟨h.active, ?_⟩
    refine Refusal.bind_eq_ok.mpr ⟨_, h.renterFee, ?_⟩
    refine Refusal.bind_eq_ok.mpr ⟨_, h.ownerCommission, ?_⟩
    refine Refusal.bind_eq_ok.mpr ⟨_, h.renterPays, ?_⟩
    refine Refusal.bind_eq_ok.mpr ⟨_, h.ownerProceeds, ?_⟩
    refine Refusal.bind_eq_ok.mpr ⟨_, h.platformRevenue, ?_⟩
    refine Refusal.bind_eq_ok.mpr ⟨_, costsOf_eq_ok.mpr h.costs, ?_⟩
    refine Refusal.bind_eq_ok.mpr ⟨_, h.totalCost, ?_⟩
    refine Refusal.bind_eq_ok.mpr ⟨_, h.contributionMargin, ?_⟩
    rw [h.gross]
    rfl

end Components

section Activity

variable {booking : BookingShape} {policy : CategoryFeePolicy} {model : CostModel} {pays proceeds : Money}
  {costs costs' : CostBreakdown} {economics economics' : UnitEconomics} {n m : Nat}

theorem total_connectedAccount (costs : CostBreakdown) (fee : Money) :
    Money.total (costs.withAccount fee).values =
      Money.total costs.values - costs.connectedAccount.amount + fee.amount := by
  simp only [Money.total, CostBreakdown.values, CostBreakdown.withAccount, List.map_cons, List.map_nil,
    List.sum_cons, List.sum_nil]
  ring

theorem Costed.withActivity (h : Costed (booking.withActivity n) model pays proceeds costs) {fee : Money}
    (hfee : model.connectedAccountMonthly.multiply (1 / m) = .ok fee) :
    Costed (booking.withActivity m) model pays proceeds (costs.withAccount fee) :=
  ⟨h.cardProcessing, h.damageSecurityProcessing, h.payout, hfee, h.extendedAuthorisation, h.identityVerification,
    h.sms, h.refunds, h.chargebacks, h.support⟩

theorem Costed.unique (h : Costed booking model pays proceeds costs) (h' : Costed booking model pays proceeds costs') :
    costs' = costs := by
  have heq := (costsOf_eq_ok.mpr h).symm.trans (costsOf_eq_ok.mpr h')
  exact (Except.ok.inj heq).symm

theorem applyRounding_mono {x y : ℚ} (hx : 0 ≤ x) (hxy : x ≤ y) :
    Money.applyRounding x ≤ Money.applyRounding y := by
  have hy := hx.trans hxy
  rw [Money.applyRounding, Money.applyRounding, if_neg (not_lt.mpr hx), if_neg (not_lt.mpr hy), abs_of_nonneg hx,
    abs_of_nonneg hy, one_mul, one_mul]
  apply Int.floor_le_floor
  linarith

theorem applyRounding_nonneg {x : ℚ} (hx : 0 ≤ x) : 0 ≤ Money.applyRounding x := by
  have hle := applyRounding_mono le_rfl hx
  rwa [show Money.applyRounding 0 = 0 by decide +kernel] at hle

theorem accountShare_le {monthly : Int} (hmonthly : 0 ≤ monthly) (hn : 1 ≤ n) (hnm : n ≤ m) :
    0 ≤ Money.applyRounding (monthly * (1 / m)) ∧
      Money.applyRounding (monthly * (1 / m)) ≤ Money.applyRounding (monthly * (1 / n)) := by
  have hcast : (0 : ℚ) ≤ monthly := by exact_mod_cast hmonthly
  have hpos : (0 : ℚ) < n := by exact_mod_cast hn
  have hle : (1 : ℚ) / m ≤ 1 / n := one_div_le_one_div_of_le hpos (by exact_mod_cast hnm)
  have hshare : (0 : ℚ) ≤ monthly * (1 / m) := by positivity
  exact ⟨applyRounding_nonneg hshare, applyRounding_mono hshare (mul_le_mul_of_nonneg_left hle hcast)⟩

theorem connectedAccount_le {monthly fee fee' : Money} (hmonthly : 0 ≤ monthly.amount) (hn : 1 ≤ n) (hnm : n ≤ m)
    (h : monthly.multiply (1 / n) = .ok fee) (h' : monthly.multiply (1 / m) = .ok fee') :
    fee'.amount ≤ fee.amount := by
  cases Money.money_eq_ok h
  cases Money.money_eq_ok h'
  exact (accountShare_le hmonthly hn hnm).2

theorem Traded.compare (h : Traded (booking.withActivity n) policy model economics)
    (h' : Traded (booking.withActivity m) policy model economics') :
    economics'.platformRevenue = economics.platformRevenue ∧
      economics'.costs = economics.costs.withAccount economics'.costs.connectedAccount := by
  have hfee := Except.ok.inj (h.renterFee.symm.trans h'.renterFee)
  rw [RenterFee.mk.injEq] at hfee
  have hcommission := Except.ok.inj (h.ownerCommission.symm.trans h'.ownerCommission)
  have hpays := h'.renterPays
  have hproceeds := h'.ownerProceeds
  have hrevenue := h'.platformRevenue
  rw [← hfee.1] at hpays hrevenue
  rw [← hcommission] at hproceeds hrevenue
  have hpays := Except.ok.inj (h.renterPays.symm.trans hpays)
  have hproceeds := Except.ok.inj (h.ownerProceeds.symm.trans hproceeds)
  have hrevenue := Except.ok.inj (h.platformRevenue.symm.trans hrevenue)
  have hcosts := h'.costs
  rw [← hpays, ← hproceeds] at hcosts
  exact ⟨hrevenue.symm, (h.costs.withActivity hcosts.connectedAccount).unique hcosts⟩

theorem margin_mono (hmonthly : 0 ≤ model.connectedAccountMonthly.amount) (hnm : n ≤ m)
    (h : unitEconomicsOf (booking.withActivity n) policy model = .ok economics)
    (h' : unitEconomicsOf (booking.withActivity m) policy model = .ok economics') :
    economics.contributionMargin.amount ≤ economics'.contributionMargin.amount := by
  rw [unitEconomicsOf_eq_ok] at h h'
  obtain ⟨hrevenue, hcosts⟩ := h.compare h'
  have hfee := connectedAccount_le hmonthly h.active hnm h.costs.connectedAccount h'.costs.connectedAccount
  have htotal := total_connectedAccount economics.costs economics'.costs.connectedAccount
  rw [← hcosts] at htotal
  rw [Money.subtract_eq_ok h.contributionMargin, Money.subtract_eq_ok h'.contributionMargin,
    Money.sum_eq_ok h.totalCost, Money.sum_eq_ok h'.totalCost, hrevenue]
  simp only
  omega

end Activity

structure CostModel.Nonneg (model : CostModel) : Prop where
  cardProcessing : 0 ≤ model.cardProcessing.percent ∧ 0 ≤ model.cardProcessing.fixed.amount
  damageSecurityProcessing :
    0 ≤ model.damageSecurityProcessing.percent ∧ 0 ≤ model.damageSecurityProcessing.fixed.amount
  payout : 0 ≤ model.payout.percent ∧ 0 ≤ model.payout.fixed.amount
  connectedAccountMonthly : 0 ≤ model.connectedAccountMonthly.amount
  extendedAuthorisation : 0 ≤ model.extendedAuthorisation.amount
  identityVerification : 0 ≤ model.identityVerification.amount
  sms : 0 ≤ model.smsPerMessage.amount ∧ 0 ≤ model.criticalMessagesPerBooking
  disputeFee : 0 ≤ model.disputeFee.amount
  refundRate : 0 ≤ model.refundRate
  chargebackRate : 0 ≤ model.chargebackRate
  supportPerBooking : 0 ≤ model.supportPerBooking.amount

section Busier

variable {booking : BookingShape} {policy : CategoryFeePolicy} {model : CostModel} {pays proceeds : Money}
  {costs : CostBreakdown} {economics : UnitEconomics} {n m : Nat}

theorem multiply_nonneg {amount product : Money} {factor : ℚ} (hamount : 0 ≤ amount.amount) (hfactor : 0 ≤ factor)
    (h : amount.multiply factor = .ok product) : 0 ≤ product.amount := by
  cases Money.money_eq_ok h
  have hcast : (0 : ℚ) ≤ amount.amount := by exact_mod_cast hamount
  exact applyRounding_nonneg (mul_nonneg hcast hfactor)

theorem applyRate_nonneg {rate : BlendedRate} {amount cost : Money}
    (hrate : 0 ≤ rate.percent ∧ 0 ≤ rate.fixed.amount)
    (hamount : 0 ≤ amount.amount) (h : applyRate rate amount = .ok cost) : 0 ≤ cost.amount := by
  obtain ⟨percentage, hpercentage, h⟩ := Refusal.bind_eq_ok.mp h
  have hnonneg := multiply_nonneg hamount (div_nonneg hrate.1 (by norm_num)) hpercentage
  rw [Money.add_eq_ok h]
  exact add_nonneg hnonneg hrate.2

theorem Costed.nonneg (h : Costed booking model pays proceeds costs) (hmodel : model.Nonneg)
    (hcaptured : 0 ≤ booking.damageSecurityCaptured.amount) (hpays : 0 ≤ pays.amount)
    (hproceeds : 0 ≤ proceeds.amount) : ∀ cost ∈ costs.values, 0 ≤ cost.amount := by
  have hcard := applyRate_nonneg hmodel.cardProcessing hpays h.cardProcessing
  have hdamage : 0 ≤ costs.damageSecurityProcessing.amount := by
    have hpart := h.damageSecurityProcessing
    split at hpart
    · rw [← Except.ok.inj hpart]
      exact le_rfl
    · exact applyRate_nonneg hmodel.damageSecurityProcessing hcaptured hpart
  have hpayout := applyRate_nonneg hmodel.payout hproceeds h.payout
  have hconnected := multiply_nonneg hmodel.connectedAccountMonthly (by positivity) h.connectedAccount
  have hsms := multiply_nonneg hmodel.sms.1 hmodel.sms.2 h.sms
  have hrefunds := multiply_nonneg hcard hmodel.refundRate h.refunds
  have hchargebacks : 0 ≤ costs.chargebacks.amount := by
    obtain ⟨disputed, hdisputed, hpart⟩ := Refusal.bind_eq_ok.mp h.chargebacks
    have hnonneg : 0 ≤ disputed.amount := by
      rw [Money.add_eq_ok hdisputed]
      exact add_nonneg hmodel.disputeFee hcard
    exact multiply_nonneg hnonneg hmodel.chargebackRate hpart
  simp only [CostBreakdown.values, List.forall_mem_cons, List.not_mem_nil, false_implies, implies_true, and_true]
  exact ⟨hcard, hdamage, hpayout, hconnected, h.extendedAuthorisation ▸ hmodel.extendedAuthorisation,
    h.identityVerification ▸ hmodel.identityVerification, hsms, hrefunds, hchargebacks,
    h.support ▸ hmodel.supportPerBooking⟩

theorem currency_eq (a b : Currency) : a = b := by
  cases a
  cases b
  rfl

theorem Traded.nonneg (hpolicy : policy.Accepted) (hgross : 0 ≤ booking.grossBookingValue.amount)
    (h : Traded booking policy model economics) : 0 ≤ economics.renterPays.amount ∧
      0 ≤ economics.ownerProceeds.amount ∧ 0 ≤ economics.platformRevenue.amount := by
  have hfee := renterFeeOn_eq_ok hgross h.renterFee
  have hfeeNonneg := (renterFeeAmount_bounds hpolicy hgross).1
  have hcommission : economics.ownerCommission.amount = commissionAmount policy booking.grossBookingValue.amount := by
    have hround := Money.applyRounding_fraction hgross policy.ownerCommissionBasisPoints 10000 (by decide)
    have hrate : basisPointsToPercent policy.ownerCommissionBasisPoints / 100 =
        (policy.ownerCommissionBasisPoints : ℚ) / (10000 : ℕ) := by
      rw [basisPointsToPercent]
      push_cast
      ring
    rw [Money.money_eq_ok h.ownerCommission, hrate, hround]
    rfl
  have hbounds := commissionAmount_bounds hpolicy hgross
  rw [Money.add_eq_ok h.renterPays, Money.subtract_eq_ok h.ownerProceeds, Money.add_eq_ok h.platformRevenue, hfee,
    hcommission]
  simp only
  omega

/-- Where the economics are given, they are for every busier owner too. -/
theorem exists_busier (hpolicy : policy.Accepted) (hmodel : model.Nonneg)
    (hgross : 0 ≤ booking.grossBookingValue.amount) (hcaptured : 0 ≤ booking.damageSecurityCaptured.amount)
    (hnm : n ≤ m) (h : unitEconomicsOf (booking.withActivity n) policy model = .ok economics) :
    ∃ economics', unitEconomicsOf (booking.withActivity m) policy model = .ok economics' := by
  rw [unitEconomicsOf_eq_ok] at h
  have hgross' : 0 ≤ (booking.withActivity n).grossBookingValue.amount := hgross
  obtain ⟨hpays, hproceeds, hrevenue⟩ := h.nonneg hpolicy hgross'
  have hrevenueSafe := Money.add_safe h.platformRevenue
  have hmonthly := hmodel.connectedAccountMonthly
  obtain ⟨fee, hfee⟩ : ∃ fee, model.connectedAccountMonthly.multiply (1 / m) = .ok fee := by
    have hshare := accountShare_le hmonthly h.active hnm
    have hsafe := money_le h.costs.connectedAccount
    rw [Money.money_eq_ok h.costs.connectedAccount] at hsafe
    exact ⟨_, money_of_bounds (m := ⟨_, model.connectedAccountMonthly.currency⟩) hshare.1
      (hshare.2.trans hsafe)⟩
  have hcosts := h.costs.withActivity hfee
  have hfeeLe := connectedAccount_le hmonthly h.active hnm h.costs.connectedAccount hfee
  have hcaptured' : 0 ≤ (booking.withActivity m).damageSecurityCaptured.amount := hcaptured
  have hnonneg := hcosts.nonneg hmodel hcaptured' hpays hproceeds
  have htotal := total_connectedAccount economics.costs fee
  have hsafe := Money.sum_safe h.totalCost
  have hle : Money.total (economics.costs.withAccount fee).values ≤ Money.maxSafeInteger := by omega
  have hlow : 0 ≤ Money.total (economics.costs.withAccount fee).values := by
    apply List.sum_nonneg
    intro amount hamount
    obtain ⟨cost, hcost, rfl⟩ := List.mem_map.mp hamount
    exact hnonneg cost hcost
  have hsum := Money.sum_ok
    (fun cost hcost => ⟨currency_eq _ booking.grossBookingValue.currency, hnonneg cost hcost⟩) hle
  obtain ⟨margin, hmargin⟩ : ∃ margin, Money.subtract economics.platformRevenue
      ⟨Money.total (economics.costs.withAccount fee).values, booking.grossBookingValue.currency⟩ = .ok margin := by
    rw [Money.subtract, if_pos (currency_eq _ _), Money.money, if_pos]
    · exact ⟨_, rfl⟩
    · simp only [Money.maxSafeInteger] at hle hrevenueSafe ⊢
      omega
  have hbusier : Traded (booking.withActivity m) policy model { economics with
      costs := economics.costs.withAccount fee
      totalCost := ⟨Money.total (economics.costs.withAccount fee).values, booking.grossBookingValue.currency⟩
      contributionMargin := margin } :=
    ⟨h.active.trans hnm, h.gross, h.renterFee, h.ownerCommission, h.renterPays, h.ownerProceeds, h.platformRevenue,
      hcosts, hsum, hmargin⟩
  exact ⟨_, unitEconomicsOf_eq_ok.mpr hbusier⟩

theorem passes_eq_ok {passes : Bool} :
    (unitEconomicsOf (booking.withActivity n) policy model).map (fun e => !e.contributionMargin.isNegative) =
      .ok passes ↔ ∃ e, unitEconomicsOf (booking.withActivity n) policy model = .ok e ∧
        (passes = true ↔ 0 ≤ e.contributionMargin.amount) := by
  rw [Refusal.map_eq_ok]
  apply exists_congr
  intro e
  apply and_congr_right
  intro _
  rw [Money.isNegative]
  by_cases hnegative : e.contributionMargin.amount < 0
  · cases passes <;> simp [hnegative]
  · cases passes <;> simp [hnegative, not_lt.mp hnegative]

/-- The margin never falls as an owner gets busier, so what the search finds is a threshold:
below it the booking makes a loss and from it on it does not, and nothing found is a loss at every
level looked at. With a policy as the contract accepts it and no negative figures, economics that
are given at one level are given at every busier one. -/
theorem break_even_is_a_threshold (hmonthly : 0 ≤ model.connectedAccountMonthly.amount) :
    (∀ n m e e', n ≤ m → unitEconomicsOf (booking.withActivity n) policy model = .ok e →
      unitEconomicsOf (booking.withActivity m) policy model = .ok e' →
        e.contributionMargin.amount ≤ e'.contributionMargin.amount) ∧
    (∀ searchUpTo n, breakEvenOwnerActivity booking policy model searchUpTo = .ok (some n) →
      1 ≤ n ∧ n ≤ searchUpTo ∧
      (∃ e, unitEconomicsOf (booking.withActivity n) policy model = .ok e ∧ 0 ≤ e.contributionMargin.amount) ∧
      (∀ m e, n ≤ m → unitEconomicsOf (booking.withActivity m) policy model = .ok e →
        0 ≤ e.contributionMargin.amount) ∧
      ∀ k, 1 ≤ k → k < n → ∃ e, unitEconomicsOf (booking.withActivity k) policy model = .ok e ∧
        e.contributionMargin.amount < 0) ∧
    (∀ searchUpTo, breakEvenOwnerActivity booking policy model searchUpTo = .ok none →
      ∀ k, 1 ≤ k → k ≤ searchUpTo → ∃ e, unitEconomicsOf (booking.withActivity k) policy model = .ok e ∧
        e.contributionMargin.amount < 0) ∧
    (policy.Accepted → model.Nonneg → 0 ≤ booking.grossBookingValue.amount →
      0 ≤ booking.damageSecurityCaptured.amount →
        (∀ n m e, n ≤ m → unitEconomicsOf (booking.withActivity n) policy model = .ok e →
          ∃ e', unitEconomicsOf (booking.withActivity m) policy model = .ok e') ∧
        ∀ e, unitEconomicsOf (booking.withActivity 1) policy model = .ok e →
          ∀ searchUpTo, ∃ found, breakEvenOwnerActivity booking policy model searchUpTo = .ok found) := by
  refine ⟨fun n m e e' => margin_mono hmonthly, fun searchUpTo n h => ?_, fun searchUpTo h k hk hle => ?_,
    fun hpolicy hmodel hgross hcaptured => ⟨fun n m e => exists_busier hpolicy hmodel hgross hcaptured,
      fun e he searchUpTo => ?_⟩⟩
  · obtain ⟨hone, hlt, hn, hbefore⟩ := Threshold.firstFrom_some h
    obtain ⟨e, he, hpasses⟩ := passes_eq_ok.mp hn
    have hnonneg := hpasses.mp rfl
    refine ⟨hone, by omega, ⟨e, he, hnonneg⟩, fun m e' hnm he' => ?_, fun k hk hkn => ?_⟩
    · exact hnonneg.trans (margin_mono hmonthly hnm he he')
    · obtain ⟨e', he', hfails⟩ := passes_eq_ok.mp (hbefore k hk hkn)
      exact ⟨e', he', not_le.mp (fun hle => Bool.false_ne_true (hfails.mpr hle))⟩
  · obtain ⟨e, he, hfails⟩ := passes_eq_ok.mp (Threshold.firstFrom_none h k hk (by omega))
    exact ⟨e, he, not_le.mp (fun hle => Bool.false_ne_true (hfails.mpr hle))⟩
  · apply Threshold.firstFrom_ok
    intro k hk
    obtain ⟨e', he'⟩ := exists_busier hpolicy hmodel hgross hcaptured hk he
    exact ⟨_, by rw [he']; rfl⟩

end Busier

/-- A tenth from either side of ten pounds: a loss to an owner who lets once a month, and none to
one who lets twice or more. -/
theorem two_bookings_break_even :
    breakEvenOwnerActivity ⟨⟨1000, .gbp⟩, ⟨0, .gbp⟩, 1⟩ ⟨1000, 1000, ⟨500, .gbp⟩, ⟨100, .gbp⟩⟩ ukStripeCostModel 60 =
      .ok (some 2) ∧
    ∀ m e, 2 ≤ m → unitEconomicsOf ⟨⟨1000, .gbp⟩, ⟨0, .gbp⟩, m⟩ ⟨1000, 1000, ⟨500, .gbp⟩, ⟨100, .gbp⟩⟩
      ukStripeCostModel = .ok e → 0 ≤ e.contributionMargin.amount := by
  have hfound : breakEvenOwnerActivity ⟨⟨1000, .gbp⟩, ⟨0, .gbp⟩, 1⟩ ⟨1000, 1000, ⟨500, .gbp⟩, ⟨100, .gbp⟩⟩
      ukStripeCostModel 60 = .ok (some 2) := by decide +kernel
  have hmonthly : 0 ≤ ukStripeCostModel.connectedAccountMonthly.amount := by decide
  obtain ⟨-, -, -, hfrom, -⟩ := (break_even_is_a_threshold hmonthly).2.1 60 2 hfound
  exact ⟨hfound, hfrom⟩

end RentalMarket.Pricing
