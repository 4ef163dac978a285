import RentalMarket.Pricing.UnitEconomics

namespace RentalMarket.Pricing

open RentalMarket.Core

def noFloorProbe : Money := ⟨100, .gbp⟩

/-- The most pessimistic level: one booking per active owner per month. -/
def ruleActivityLevel : Nat := 1

structure MarginVerdict where
  meetsRule : Bool
  judgedAt : Money
  contributionMargin : Money
  reason : Option String
  deriving DecidableEq, Repr

def describe (value : Money) : Except String String :=
  (Money.money value.amount value.currency).map Money.format

def marginVerdictFor (policy : CategoryFeePolicy) (model : CostModel) : Except String MarginVerdict :=
  let hasFloor := decide (policy.minimumBookingTotal.amount > 0)
  let judgedAt := if hasFloor then policy.minimumBookingTotal else noFloorProbe
  (unitEconomicsOf ⟨judgedAt, ⟨0, judgedAt.currency⟩, ruleActivityLevel⟩ policy model).bind (fun economics =>
    let margin := economics.contributionMargin
    if margin.isNegative then
      (describe judgedAt).bind (fun at' => margin.negate.bind (fun loss => (describe loss).map (fun loss =>
        ⟨false, judgedAt, margin, some (if hasFloor then
          "at its minimum booking total of " ++ at' ++ " this category loses " ++ loss ++ " per booking"
        else "this category sets no minimum booking total, so nothing stops a booking as small as " ++ at' ++
          ", which would lose " ++ loss)⟩)))
    else .ok ⟨true, judgedAt, margin, none⟩)

def meetsMarginRule (policy : CategoryFeePolicy) : Except String MarginVerdict :=
  marginVerdictFor policy ukStripeCostModel

/-- What a renter pays for a hire of this item charge, where the minimum
booking total lets them. -/
def admittedTotal (policy : CategoryFeePolicy) (charge : Money) : Except String (Option Money) :=
  (renterFeeOn exactPercentageOf charge policy).bind (fun fee =>
    (Money.add charge fee.fee).bind (fun total =>
      (refuseBelowMinimumBooking total policy).map (fun refusal => if refusal.isNone then some total else none)))

/-- No item charge comes to less and is admitted. -/
def SmallestBooking (policy : CategoryFeePolicy) (charge : Money) : Prop :=
  0 ≤ charge.amount ∧ ∃ total, admittedTotal policy charge = .ok (some total) ∧
    ∀ other total', 0 ≤ other.amount → admittedTotal policy other = .ok (some total') →
      total.amount ≤ total'.amount

/-- A policy the gate lets through makes no loss on the smallest booking it
permits. -/
def GateProtects (policy : CategoryFeePolicy) : Prop :=
  ∀ verdict, meetsMarginRule policy = .ok verdict → verdict.meetsRule = true →
    ∀ charge, SmallestBooking policy charge → ∃ economics,
      unitEconomicsOf ⟨charge, ⟨0, charge.currency⟩, 1⟩ policy ukStripeCostModel = .ok economics ∧
        0 ≤ economics.contributionMargin.amount

/-- The least item charge whose total reaches the floor, by the fixed fee or by
the percentage. -/
def leastCharge (policy : CategoryFeePolicy) : Int :=
  let floor := policy.minimumBookingTotal.amount
  max 0 (min (floor - policy.minimumPlatformFee.amount)
    ((10000 * floor + policy.renterFeeBasisPoints + 4999) / (10000 + policy.renterFeeBasisPoints)))

/-- What the commission on a charge has to come to: what the renter's fee leaves
of the costs of the total, 233 pence of them fixed, and of the payout. -/
def neededCommission (policy : CategoryFeePolicy) (charge : Int) : Int :=
  let fee := renterFeeAmount policy charge
  let card := cardProcessingOn (charge + fee)
  (charge + 400 * (card + (3 * card + 50) / 100 + (card + 2100) / 200 + 233 - fee) + 201) / 401

def CommissionCovers (policy : CategoryFeePolicy) (charge : Int) : Prop :=
  10000 * neededCommission policy charge - 5000 ≤ charge * policy.ownerCommissionBasisPoints

instance (policy : CategoryFeePolicy) (charge : Int) : Decidable (CommissionCovers policy charge) :=
  inferInstanceAs (Decidable (_ ≤ _))

theorem marginAmount_nonneg_iff (policy : CategoryFeePolicy) (charge : Int) :
    0 ≤ marginAmount policy charge ↔ CommissionCovers policy charge := by
  simp only [marginAmount, CommissionCovers, neededCommission, commissionAmount]
  omega

section

variable {policy : CategoryFeePolicy} {charge total : Money}

theorem admittedTotal_eq_some (hpolicy : policy.Accepted) (hcharge : 0 ≤ charge.amount)
    (hsafe : charge.amount ≤ 1000000000) :
    admittedTotal policy charge = .ok (some total) ↔
      total = ⟨charge.amount + renterFeeAmount policy charge.amount, charge.currency⟩ ∧
        policy.minimumBookingTotal.amount ≤ charge.amount + renterFeeAmount policy charge.amount := by
  obtain ⟨fee, hfee, hamount⟩ := renterFeeOn_ok hpolicy hcharge hsafe
  obtain ⟨hnonneg, hbound⟩ := renterFeeAmount_bounds hpolicy hcharge
  have hfloor := hpolicy.bookingFloor
  unfold maxPricingFloorMinorUnits at hfloor
  have hadd : Money.add charge fee.fee =
      .ok ⟨charge.amount + renterFeeAmount policy charge.amount, charge.currency⟩ := by
    rw [hamount]
    exact Money.add_ok hcharge hnonneg (by simp only [Money.maxSafeInteger]; omega)
  have hminimum : Money.money policy.minimumBookingTotal.amount policy.minimumBookingTotal.currency =
      .ok policy.minimumBookingTotal := by
    rw [Money.money, if_pos]
    simp only [Money.maxSafeInteger]
    omega
  have hcurrency : charge.currency = policy.minimumBookingTotal.currency := by
    cases charge.currency
    cases policy.minimumBookingTotal.currency
    rfl
  simp only [admittedTotal, hfee, hadd, refuseBelowMinimumBooking, hminimum, Money.lessThan, Except.bind,
    Except.map, hcurrency, if_true]
  by_cases hless : charge.amount + renterFeeAmount policy charge.amount < policy.minimumBookingTotal.amount
  · simp [hless]
  · simp [hless, not_lt.mp hless, eq_comm]

theorem charge_le_admittedTotal (hpolicy : policy.Accepted)
    (h : admittedTotal policy charge = .ok (some total)) : charge.amount ≤ total.amount := by
  unfold admittedTotal at h
  obtain ⟨fee, hfee, h⟩ := Refusal.bind_eq_ok.mp h
  obtain ⟨sum, hsum, h⟩ := Refusal.bind_eq_ok.mp h
  obtain ⟨refusal, -, h⟩ := Refusal.map_eq_ok.mp h
  have hnonneg : 0 ≤ fee.fee.amount := by
    unfold renterFeeOn at hfee
    obtain ⟨percentage, -, hfee⟩ := Refusal.bind_eq_ok.mp hfee
    obtain ⟨floor, hfloor, hfee⟩ := Refusal.bind_eq_ok.mp hfee
    obtain ⟨less, hless, hfee⟩ := Refusal.bind_eq_ok.mp hfee
    have hpos := hpolicy.feeFloor.1
    rw [Money.money_eq_ok hfloor] at hless hfee
    cases hfee
    unfold Money.lessThan at hless
    split at hless
    · cases hless
      simp only [decide_eq_true_eq]
      split
      · exact hpos
      · rename_i hge
        exact hpos.trans (not_lt.mp hge)
    · cases hless
  split at h
  · cases h
    rw [Money.add_eq_ok hsum]
    simp only
    omega
  · cases h

theorem SmallestBooking.le_floor (hpolicy : policy.Accepted) (h : SmallestBooking policy charge) :
    charge.amount ≤ policy.minimumBookingTotal.amount := by
  obtain ⟨hcharge, total, htotal, hleast⟩ := h
  have hfloor := hpolicy.bookingFloor
  unfold maxPricingFloorMinorUnits at hfloor
  have hbound := renterFeeAmount_bounds hpolicy hfloor.1
  have hat := (admittedTotal_eq_some hpolicy hfloor.1 (by omega)).mpr ⟨rfl, by omega⟩
  have hle := hleast policy.minimumBookingTotal _ hfloor.1 hat
  have hself := charge_le_admittedTotal hpolicy htotal
  simp only at hle
  have hsafe : charge.amount ≤ 1000000000 := by omega
  obtain ⟨rfl, -⟩ := (admittedTotal_eq_some hpolicy hcharge hsafe).mp htotal
  by_contra hlt
  have hmono := renterFeeAmount_mono policy (not_le.mp hlt).le
  simp only at hle
  omega

theorem leastCharge_nonneg (policy : CategoryFeePolicy) : 0 ≤ leastCharge policy := le_max_left _ _

theorem leastCharge_le_iff {amount : Int} (hamount : 0 ≤ amount) : leastCharge policy ≤ amount ↔
    policy.minimumBookingTotal.amount ≤ amount + renterFeeAmount policy amount := by
  have hrate : (0 : Int) < 10000 + policy.renterFeeBasisPoints := by omega
  have hquotient : (10000 * policy.minimumBookingTotal.amount + policy.renterFeeBasisPoints + 4999) /
      (10000 + policy.renterFeeBasisPoints) ≤ amount ↔
        10000 * policy.minimumBookingTotal.amount ≤
          10000 * amount + amount * policy.renterFeeBasisPoints + 5000 := by
    have hsplit : (amount + 1) * (10000 + (policy.renterFeeBasisPoints : Int)) =
        10000 * amount + amount * policy.renterFeeBasisPoints + 10000 + policy.renterFeeBasisPoints := by
      ring
    rw [← Int.lt_add_one_iff, Int.ediv_lt_iff_lt_mul hrate, hsplit]
    omega
  simp only [leastCharge, max_le_iff, min_le_iff, hquotient, renterFeeAmount]
  omega

/-- The smallest booking is at the least charge. -/
theorem smallestBooking_iff (hpolicy : policy.Accepted) :
    SmallestBooking policy charge ↔ charge.amount = leastCharge policy := by
  have hleast := leastCharge_nonneg policy
  have hreach := (leastCharge_le_iff hleast).mp le_rfl
  have hfloor := hpolicy.bookingFloor
  unfold maxPricingFloorMinorUnits at hfloor
  have hle : leastCharge policy ≤ policy.minimumBookingTotal.amount := by
    rw [leastCharge_le_iff hfloor.1]
    have hfee := renterFeeAmount_bounds hpolicy hfloor.1
    omega
  constructor
  · intro h
    have hbound := h.le_floor hpolicy
    obtain ⟨hcharge, total, htotal, hmin⟩ := h
    obtain ⟨rfl, hadmitted⟩ := (admittedTotal_eq_some hpolicy hcharge (by omega)).mp htotal
    have hbelow := (leastCharge_le_iff hcharge).mpr hadmitted
    have htotals := hmin ⟨leastCharge policy, charge.currency⟩ _ hleast
      ((admittedTotal_eq_some hpolicy hleast (by simp only; omega)).mpr ⟨rfl, hreach⟩)
    have hmono := renterFeeAmount_mono policy hbelow
    simp only at htotals
    omega
  · intro hamount
    have hcharge : 0 ≤ charge.amount := hamount ▸ hleast
    have hfee := renterFeeAmount_bounds hpolicy hcharge
    refine ⟨hcharge, _, (admittedTotal_eq_some hpolicy hcharge (by omega)).mpr ⟨rfl, hamount ▸ hreach⟩,
      fun other total' hother hadmitted => ?_⟩
    have hself := charge_le_admittedTotal hpolicy hadmitted
    by_cases hsafe : other.amount ≤ 1000000000
    · obtain ⟨rfl, hother'⟩ := (admittedTotal_eq_some hpolicy hother hsafe).mp hadmitted
      have hbelow := (leastCharge_le_iff hother).mpr hother'
      have hmono := renterFeeAmount_mono policy (hamount.le.trans hbelow)
      simp only
      omega
    · simp only
      omega

/-- The gate judges the floor as if it were an item charge. -/
theorem meetsMarginRule_ok (hpolicy : policy.Accepted) (hfloor : 0 < policy.minimumBookingTotal.amount) :
    ∃ verdict, meetsMarginRule policy = .ok verdict ∧
      (verdict.meetsRule = true ↔ 0 ≤ marginAmount policy policy.minimumBookingTotal.amount) := by
  have hmax := hpolicy.bookingFloor.2
  unfold maxPricingFloorMinorUnits at hmax
  obtain ⟨economics, heconomics, hamount⟩ := unitEconomicsOf_ok hpolicy hfloor.le (by omega)
  have hjudged : unitEconomicsOf ⟨policy.minimumBookingTotal, ⟨0, policy.minimumBookingTotal.currency⟩,
      ruleActivityLevel⟩ policy ukStripeCostModel = .ok economics := heconomics
  rw [← hamount]
  simp only [meetsMarginRule, marginVerdictFor, hfloor, decide_true, if_true, hjudged, Except.bind]
  by_cases hloss : economics.contributionMargin.amount < 0
  · obtain ⟨hcommission, hcommission'⟩ := commissionAmount_bounds hpolicy hfloor.le
    obtain ⟨hfee, hfee'⟩ := renterFeeAmount_bounds hpolicy hfloor.le
    have hlow : -1000000000 ≤ economics.contributionMargin.amount := by
      rw [hamount, marginAmount, cardProcessingOn]
      omega
    have hdescribe : ∀ value : Money, 0 ≤ value.amount → value.amount ≤ 1000000000 →
        describe value = .ok value.format := by
      intro value hvalue hsafe
      rw [describe, money_of_bounds hvalue (by simp only [Money.maxSafeInteger]; omega)]
      rfl
    have hnegate : economics.contributionMargin.negate =
        .ok ⟨-economics.contributionMargin.amount, economics.contributionMargin.currency⟩ := by
      rw [Money.negate, Money.money, if_pos]
      simp only [Money.maxSafeInteger]
      omega
    simp only [Money.isNegative, hloss, decide_true, if_true, hnegate, hdescribe _ hfloor.le (by omega),
      hdescribe ⟨-economics.contributionMargin.amount, _⟩ (by simp only; omega) (by simp only; omega), Except.map]
    exact ⟨_, rfl, by simp [hloss]⟩
  · simp only [Money.isNegative, hloss, decide_false, Bool.false_eq_true, if_false]
    exact ⟨_, rfl, by simpa using hloss⟩

/-- A policy the gate lets through protects its smallest booking exactly when
its rate of commission is below what the gate's booking needs or at least what
the smallest one needs. -/
theorem margin_gate_protects_iff (hpolicy : policy.Accepted)
    (hfloor : 0 < policy.minimumBookingTotal.amount) :
    GateProtects policy ↔ (CommissionCovers policy policy.minimumBookingTotal.amount →
      CommissionCovers policy (leastCharge policy)) := by
  obtain ⟨verdict, hgate, hmeets⟩ := meetsMarginRule_ok hpolicy hfloor
  have hmargin : ∀ charge, charge.amount = leastCharge policy → ∃ economics,
      unitEconomicsOf ⟨charge, ⟨0, charge.currency⟩, 1⟩ policy ukStripeCostModel = .ok economics ∧
        economics.contributionMargin.amount = marginAmount policy (leastCharge policy) := by
    intro charge hcharge
    have hle := ((smallestBooking_iff hpolicy).mpr hcharge).le_floor hpolicy
    have hmax := hpolicy.bookingFloor.2
    unfold maxPricingFloorMinorUnits at hmax
    rw [← hcharge]
    exact unitEconomicsOf_ok hpolicy (hcharge ▸ leastCharge_nonneg policy) (by omega)
  rw [← marginAmount_nonneg_iff, ← marginAmount_nonneg_iff, ← hmeets]
  constructor
  · intro h hyes
    obtain ⟨economics, heconomics, hnonneg⟩ := h verdict hgate hyes ⟨leastCharge policy, .gbp⟩
      ((smallestBooking_iff hpolicy).mpr rfl)
    obtain ⟨economics', heconomics', hamount⟩ := hmargin ⟨leastCharge policy, .gbp⟩ rfl
    cases heconomics.symm.trans heconomics'
    rwa [hamount] at hnonneg
  · intro h verdict' hgate' hyes charge hsmallest
    cases hgate.symm.trans hgate'
    obtain ⟨economics, heconomics, hamount⟩ := hmargin charge ((smallestBooking_iff hpolicy).mp hsmallest)
    exact ⟨economics, heconomics, hamount ▸ h hyes⟩

end

def gardening : CategoryFeePolicy := ⟨1600, 800, ⟨1000, .gbp⟩, ⟨200, .gbp⟩⟩

theorem gardening_accepted : gardening.Accepted :=
  ⟨by decide, by decide, by decide, by decide, by decide, by decide⟩

theorem gardening_protected : (∃ verdict, meetsMarginRule gardening = .ok verdict ∧ verdict.meetsRule = true) ∧
    GateProtects gardening := by
  have hverdict : meetsMarginRule gardening = .ok ⟨true, ⟨1000, .gbp⟩, ⟨76, .gbp⟩, none⟩ := by decide +kernel
  exact ⟨⟨_, hverdict, rfl⟩, (margin_gate_protects_iff gardening_accepted (by decide)).mpr (by decide +kernel)⟩

def thinMargin : CategoryFeePolicy := ⟨1500, 1000, ⟨1137, .gbp⟩, ⟨0, .gbp⟩⟩

/-- The gate judges an item charge of £11.37 and sees no loss. The smallest
hire it lets anybody book has one of £10.34 and loses 25 pence. -/
theorem gate_misses_the_smallest_booking : thinMargin.Accepted ∧ 0 < thinMargin.minimumBookingTotal.amount ∧
    meetsMarginRule thinMargin = .ok ⟨true, ⟨1137, .gbp⟩, ⟨0, .gbp⟩, none⟩ ∧
    SmallestBooking thinMargin ⟨1034, .gbp⟩ ∧
    (unitEconomicsOf ⟨⟨1034, .gbp⟩, ⟨0, .gbp⟩, 1⟩ thinMargin ukStripeCostModel).map (·.contributionMargin) =
      .ok ⟨-25, .gbp⟩ ∧ ¬GateProtects thinMargin := by
  have hverdict : meetsMarginRule thinMargin = .ok ⟨true, ⟨1137, .gbp⟩, ⟨0, .gbp⟩, none⟩ := by decide +kernel
  have haccepted : thinMargin.Accepted := ⟨by decide, by decide, by decide, by decide, by decide, by decide⟩
  have hsmallest : SmallestBooking thinMargin ⟨1034, .gbp⟩ :=
    (smallestBooking_iff haccepted).mpr (by decide +kernel)
  have hloss : (unitEconomicsOf ⟨⟨1034, .gbp⟩, ⟨0, .gbp⟩, 1⟩ thinMargin ukStripeCostModel).map
      (·.contributionMargin) = .ok ⟨-25, .gbp⟩ := by decide +kernel
  refine ⟨haccepted, by decide, hverdict, hsmallest, hloss, fun h => ?_⟩
  obtain ⟨economics, heconomics, hnonneg⟩ := h _ hverdict rfl _ hsmallest
  rw [heconomics] at hloss
  have hamount : economics.contributionMargin = ⟨-25, .gbp⟩ := Except.ok.inj hloss
  rw [hamount] at hnonneg
  exact absurd hnonneg (by decide)

end RentalMarket.Pricing
