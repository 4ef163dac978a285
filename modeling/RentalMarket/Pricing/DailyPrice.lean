import RentalMarket.Pricing.OptimalQuote

namespace RentalMarket.Pricing

open RentalMarket.Core

structure InclusiveDailyPrice where
  rate : Money
  renterFee : Money
  total : Money
  minimumFeeApplied : Bool
  deriving DecidableEq, Repr

/-- What a listing shows before there are dates. `none` is no price to show. -/
def inclusiveDailyPrice (percentageOf : PercentageOf) (rates : ListingRateCard) (policy : CategoryFeePolicy) :
    Except String (Option InclusiveDailyPrice) :=
  match rates.daily with
  | none => .ok none
  | some daily =>
    (Money.money daily.amount daily.currency).bind (fun rate =>
      (renterFeeOn percentageOf rate policy).bind (fun fee =>
        (Money.add rate fee.fee).map (fun total => some ⟨rate, fee.fee, total, fee.minimumFeeApplied⟩)))

theorem renterFeeAmount_eq (policy : CategoryFeePolicy) {amount : Int} (h : 0 ≤ amount) :
    renterFeeAmount policy amount = max policy.minimumPlatformFee.amount
      (Money.applyRounding (amount * ((policy.renterFeeBasisPoints : ℚ) / 10000))) := by
  have hround := Money.applyRounding_fraction h policy.renterFeeBasisPoints 10000 (by decide)
  rw [renterFeeAmount]
  congr 1
  push_cast at hround
  rw [hround]

section Card

variable {rates : ListingRateCard} {daily : Money} {policy : CategoryFeePolicy} {days startsOnWeekday : Int}
  {priced priced' : PricedRental} {advertised : InclusiveDailyPrice} {counts : UnitCounts}

theorem charge_nonneg (hnonneg : ∀ unit, 0 ≤ rates.amountOf unit) (counts : UnitCounts) :
    0 ≤ rates.charge counts := by
  have hday : 0 ≤ rates.amountOf .day * counts.day := mul_nonneg (hnonneg .day) (by positivity)
  have hweekend : 0 ≤ rates.amountOf .weekend * counts.weekend := mul_nonneg (hnonneg .weekend) (by positivity)
  have hweek : 0 ≤ rates.amountOf .week * counts.week := mul_nonneg (hnonneg .week) (by positivity)
  rw [ListingRateCard.charge]
  omega

theorem priceRental_eq_ok (hdaily : rates.daily = some daily) (hnonneg : ∀ unit, 0 ≤ rates.amountOf unit)
    (h : priceRental exactPercentageOf days startsOnWeekday rates policy = .ok (some priced)) :
    1 ≤ days ∧ 0 ≤ priced.itemCharge.amount ∧
      chooseCheapestUnits days startsOnWeekday rates = .ok (some ⟨priced.lineItems, priced.itemCharge⟩) ∧
        priced.renterFee.amount = renterFeeAmount policy priced.itemCharge.amount ∧
          priced.total.amount = priced.itemCharge.amount + priced.renterFee.amount := by
  have htotal := priceRental_total h
  obtain ⟨units, hunits, h⟩ := Refusal.bind_eq_ok.mp h
  cases units with
  | none => cases h
  | some units =>
    obtain ⟨fee, hfee, h⟩ := Refusal.bind_eq_ok.mp h
    obtain ⟨total, -, h⟩ := Refusal.map_eq_ok.mp h
    cases h
    have hdays : 1 ≤ days := by
      by_contra hless
      rw [chooseCheapestUnits, hdaily] at hunits
      simp only [if_pos (Int.not_le.mp hless)] at hunits
      cases hunits
    obtain ⟨⟨counts, hcheapest⟩, -⟩ := cheapest_of_chooseCheapestUnits hdaily hnonneg hdays hunits
    have hcharge : 0 ≤ units.itemCharge.amount := hcheapest.itemCharge ▸ charge_nonneg hnonneg counts
    exact ⟨hdays, hcharge, hunits, renterFeeOn_eq_ok hcharge hfee, htotal⟩

theorem daily_of_priceRental (h : priceRental exactPercentageOf days startsOnWeekday rates policy = .ok (some priced)) :
    ∃ daily, rates.daily = some daily := by
  cases hdaily : rates.daily with
  | some daily => exact ⟨daily, rfl⟩
  | none =>
    rw [priceRental, chooseCheapestUnits, hdaily] at h
    cases h

theorem inclusiveDailyPrice_eq_ok (hnonneg : 0 ≤ rates.amountOf .day)
    (h : inclusiveDailyPrice exactPercentageOf rates policy = .ok (some advertised)) :
    advertised.total.amount = rates.amountOf .day + renterFeeAmount policy (rates.amountOf .day) := by
  cases hdaily : rates.daily with
  | none =>
    simp only [inclusiveDailyPrice, hdaily] at h
    cases h
  | some daily =>
    rw [ListingRateCard.amountOf, hdaily] at hnonneg ⊢
    simp only [inclusiveDailyPrice, hdaily] at h
    obtain ⟨rate, hrate, h⟩ := Refusal.bind_eq_ok.mp h
    cases Money.money_eq_ok hrate
    obtain ⟨fee, hfee, h⟩ := Refusal.bind_eq_ok.mp h
    obtain ⟨total, htotal, h⟩ := Refusal.map_eq_ok.mp h
    cases h
    rw [Money.add_eq_ok htotal, renterFeeOn_eq_ok hnonneg hfee]
    rfl

/-- Some other rate is below the daily one. -/
def ListingRateCard.Undercut (rates : ListingRateCard) : Prop :=
  (∃ weekend ∈ rates.weekend, weekend.amount < rates.amountOf .day) ∨
    ∃ weekly ∈ rates.weekly, weekly.amount < rates.amountOf .day

/-- Where the daily rate is not undercut, whatever covers a day costs a day. -/
theorem amountOf_day_le_charge (hnonneg : ∀ unit, 0 ≤ rates.amountOf unit) (hundercut : ¬ rates.Undercut)
    (hcovers : Covers rates startsOnWeekday 1 counts) : rates.amountOf .day ≤ rates.charge counts := by
  have hday : 0 ≤ rates.amountOf .day * counts.day := mul_nonneg (hnonneg .day) (by positivity)
  have hweekend : 0 ≤ rates.amountOf .weekend * counts.weekend := mul_nonneg (hnonneg .weekend) (by positivity)
  have hweek : 0 ≤ rates.amountOf .week * counts.week := mul_nonneg (hnonneg .week) (by positivity)
  have hsome : 1 ≤ counts.week ∨ 1 ≤ counts.weekend ∨ 1 ≤ counts.day := by
    have := hcovers.days
    omega
  rw [ListingRateCard.charge]
  obtain hused | hused | hused := hsome
  · have hone := le_mul_of_one_le_right (hnonneg .week) (Int.ofNat_le.mpr hused)
    have hle : rates.amountOf .day ≤ rates.amountOf .week := by
      cases hrate : rates.weekly with
      | none => exact absurd (hcovers.week hrate) (Nat.pos_iff_ne_zero.mp hused)
      | some weekly =>
        by_contra hless
        rw [ListingRateCard.amountOf.eq_3, hrate] at hless
        exact hundercut (.inr ⟨weekly, hrate, not_le.mp hless⟩)
    omega
  · have hone := le_mul_of_one_le_right (hnonneg .weekend) (Int.ofNat_le.mpr hused)
    have hle : rates.amountOf .day ≤ rates.amountOf .weekend := by
      cases hrate : rates.weekend with
      | none => exact absurd (hcovers.friday (.inl hrate)) (Nat.pos_iff_ne_zero.mp hused)
      | some weekend =>
        by_contra hless
        rw [ListingRateCard.amountOf.eq_2, hrate] at hless
        exact hundercut (.inl ⟨weekend, hrate, not_le.mp hless⟩)
    omega
  · have hone := le_mul_of_one_le_right (hnonneg .day) (Int.ofNat_le.mpr hused)
    omega

theorem one_day_charge (hnonneg : ∀ unit, 0 ≤ rates.amountOf unit)
    (h : priceRental exactPercentageOf 1 startsOnWeekday rates policy = .ok (some priced)) :
    priced.itemCharge.amount ≤ rates.amountOf .day ∧
      (¬ rates.Undercut → priced.itemCharge.amount = rates.amountOf .day) := by
  obtain ⟨daily, hdaily⟩ := daily_of_priceRental h
  obtain ⟨hone, -, hunits, -⟩ := priceRental_eq_ok hdaily hnonneg h
  obtain ⟨⟨counts, hcheapest⟩, -⟩ := cheapest_of_chooseCheapestUnits hdaily hnonneg hone hunits
  have hcharge : priced.itemCharge.amount = rates.charge counts := hcheapest.itemCharge
  have hle := hcheapest.least ⟨1, 0, 0⟩ covers_days
  have hday : rates.charge ⟨1, 0, 0⟩ = rates.amountOf .day := by simp [ListingRateCard.charge]
  rw [hcharge]
  rw [hday] at hle
  refine ⟨hle, fun hundercut => ?_⟩
  apply le_antisymm hle
  exact amountOf_day_le_charge hnonneg hundercut hcheapest.covers

theorem itemCharge_mono (hnonneg : ∀ unit, 0 ≤ rates.amountOf unit) {longer : Int} (hle : days ≤ longer)
    (h : priceRental exactPercentageOf days startsOnWeekday rates policy = .ok (some priced))
    (h' : priceRental exactPercentageOf longer startsOnWeekday rates policy = .ok (some priced')) :
    priced.itemCharge.amount ≤ priced'.itemCharge.amount := by
  obtain ⟨daily, hdaily⟩ := daily_of_priceRental h
  obtain ⟨hdays, -, hunits, -⟩ := priceRental_eq_ok hdaily hnonneg h
  obtain ⟨hdays', -, hunits', -⟩ := priceRental_eq_ok hdaily hnonneg h'
  obtain ⟨⟨counts, hcheapest⟩, -⟩ := cheapest_of_chooseCheapestUnits hdaily hnonneg hdays hunits
  obtain ⟨⟨counts', hcheapest'⟩, -⟩ := cheapest_of_chooseCheapestUnits hdaily hnonneg hdays' hunits'
  have hcharge : priced.itemCharge.amount = rates.charge counts := hcheapest.itemCharge
  have hcharge' : priced'.itemCharge.amount = rates.charge counts' := hcheapest'.itemCharge
  rw [hcharge, hcharge']
  apply hcheapest.least
  exact hcheapest'.covers.shorter hle

theorem inclusiveDailyPrice_ok (hrates : rates.Accepted) (hdaily : rates.daily = some daily)
    (hpolicy : policy.Accepted) :
    ∃ advertised, inclusiveDailyPrice exactPercentageOf rates policy = .ok (some advertised) := by
  have hrate : rentalRateAccepted daily := hrates.each daily (by simp [hdaily])
  simp only [rentalRateAccepted, minRentalRateMinorUnits, maxRentalRateMinorUnits] at hrate
  have hmoney : Money.money daily.amount daily.currency = .ok daily :=
    money_of_bounds (by omega) (by simp only [Money.maxSafeInteger]; omega)
  have hle : 0 ≤ daily.amount ∧ daily.amount ≤ 1000000000 := by omega
  obtain ⟨fee, hfee, hamount⟩ := renterFeeOn_ok hpolicy hle.1 hle.2
  have hbounds := renterFeeAmount_bounds hpolicy (show 0 ≤ daily.amount by omega)
  have hfeeAmount : fee.fee.amount = renterFeeAmount policy daily.amount := by rw [hamount]
  have htotal := Money.add_ok (a := daily) (b := fee.fee) (by omega) (by omega)
    (by simp only [Money.maxSafeInteger]; omega)
  refine ⟨⟨daily, fee.fee, ⟨daily.amount + fee.fee.amount, daily.currency⟩, fee.minimumFeeApplied⟩, ?_⟩
  simp only [inclusiveDailyPrice, hdaily, hmoney, Except.bind]
  rw [hfee]
  simp only
  rw [htotal]
  rfl

/-- A price is its charge and the fee on it, and it grows with the hire. A day is never
dearer than the listing says, and costs just that where the daily rate is not undercut. A card
and a policy as the contracts accept them have both prices. -/
theorem prices_compose (hnonneg : ∀ unit, 0 ≤ rates.amountOf unit) (hpolicy : policy.Accepted)
    (startsOnWeekday : Int) :
    (∀ days priced, priceRental exactPercentageOf days startsOnWeekday rates policy = .ok (some priced) →
      priced.total.amount = priced.itemCharge.amount + priced.renterFee.amount ∧
      priced.renterFee.amount = max policy.minimumPlatformFee.amount
        (Money.applyRounding (priced.itemCharge.amount * ((policy.renterFeeBasisPoints : ℚ) / 10000))) ∧
      priced.itemCharge.amount ≤ priced.total.amount ∧
      ∀ longer priced', days ≤ longer →
        priceRental exactPercentageOf longer startsOnWeekday rates policy = .ok (some priced') →
          priced.total.amount ≤ priced'.total.amount) ∧
    (∀ priced advertised, priceRental exactPercentageOf 1 startsOnWeekday rates policy = .ok (some priced) →
      inclusiveDailyPrice exactPercentageOf rates policy = .ok (some advertised) →
        priced.total.amount ≤ advertised.total.amount ∧
          (¬ rates.Undercut → priced.total.amount = advertised.total.amount)) ∧
    (rates.Accepted → rates.daily.isSome →
      (∃ advertised, inclusiveDailyPrice exactPercentageOf rates policy = .ok (some advertised)) ∧
      ∀ days : Int, 1 ≤ days → days ≤ maxMaximumRentalDays →
        ∃ priced, priceRental exactPercentageOf days startsOnWeekday rates policy = .ok (some priced)) := by
  refine ⟨fun days priced h => ?_, fun priced advertised h hadvertised => ?_, fun hrates hset => ?_⟩
  · obtain ⟨daily, hdaily⟩ := daily_of_priceRental h
    obtain ⟨-, hcharge, -, hfee, htotal⟩ := priceRental_eq_ok hdaily hnonneg h
    have hfloor := (renterFeeAmount_bounds hpolicy hcharge).1
    refine ⟨htotal, by rw [hfee, renterFeeAmount_eq policy hcharge], by omega, fun longer priced' hle h' => ?_⟩
    obtain ⟨-, -, -, hfee', htotal'⟩ := priceRental_eq_ok hdaily hnonneg h'
    have hmono := itemCharge_mono hnonneg hle h h'
    have hfees := renterFeeAmount_mono policy hmono
    omega
  · obtain ⟨daily, hdaily⟩ := daily_of_priceRental h
    obtain ⟨-, hcharge, -, hfee, htotal⟩ := priceRental_eq_ok hdaily hnonneg h
    obtain ⟨hle, heq⟩ := one_day_charge hnonneg h
    have hadvertised := inclusiveDailyPrice_eq_ok (hnonneg .day) hadvertised
    have hfees := renterFeeAmount_mono policy hle
    refine ⟨by omega, fun hundercut => ?_⟩
    rw [htotal, hfee, heq hundercut, hadvertised]
  · obtain ⟨daily, hdaily⟩ := Option.isSome_iff_exists.mp hset
    refine ⟨inclusiveDailyPrice_ok hrates hdaily hpolicy, fun days hlow hhigh => ?_⟩
    have hlawful : days ≤ 88 := by exact_mod_cast hhigh
    obtain ⟨priced, hpriced, -⟩ := priceRental_ok hrates hdaily hpolicy hlow hlawful startsOnWeekday
    exact ⟨priced, hpriced⟩

end Card

def samplePolicy : CategoryFeePolicy := ⟨2000, 1000, ⟨500, .gbp⟩, ⟨100, .gbp⟩⟩

theorem samplePolicy_accepted : samplePolicy.Accepted :=
  ⟨by decide, by decide, by decide, by decide, by decide, by decide⟩

theorem a_day_costs_what_is_shown : ∃ priced advertised,
    priceRental exactPercentageOf 1 5 sampleCard samplePolicy = .ok (some priced) ∧
      inclusiveDailyPrice exactPercentageOf sampleCard samplePolicy = .ok (some advertised) ∧
        advertised.total.amount = 1100 ∧ priced.total.amount = advertised.total.amount := by
  have hpriced : priceRental exactPercentageOf 1 5 sampleCard samplePolicy = .ok (some ⟨[⟨.day, 1, ⟨1000, .gbp⟩,
      ⟨1000, .gbp⟩⟩], ⟨1000, .gbp⟩, ⟨100, .gbp⟩, false, ⟨1100, .gbp⟩⟩) := by decide +kernel
  have hadvertised : inclusiveDailyPrice exactPercentageOf sampleCard samplePolicy =
      .ok (some ⟨⟨1000, .gbp⟩, ⟨100, .gbp⟩, ⟨1100, .gbp⟩, false⟩) := by decide +kernel
  have hundercut : ¬ sampleCard.Undercut := by
    rintro (⟨weekend, hweekend, hless⟩ | ⟨weekly, hweekly, hless⟩)
    · cases hweekend
      revert hless
      decide
    · cases hweekly
      revert hless
      decide
  obtain ⟨-, hday, -⟩ := prices_compose sampleCard_nonneg samplePolicy_accepted 5
  exact ⟨_, _, hpriced, hadvertised, rfl, (hday _ _ hpriced hadvertised).2 hundercut⟩

end RentalMarket.Pricing
