import RentalMarket.Core.LocalTime
import RentalMarket.Pricing.FeePolicy
import RentalMarket.Lib.Refusal

namespace RentalMarket.Pricing

open RentalMarket.Core

inductive RentalUnit where
  | day
  | weekend
  | week
  deriving DecidableEq, Repr

namespace RentalUnit

def days : RentalUnit → Nat
  | day => 1
  | weekend => 3
  | week => 7

def largestFirst : List RentalUnit := [week, weekend, day]

end RentalUnit

/-- Friday, where Monday is one. -/
def weekendStartWeekday : Int := 5

/-- The weekday of a date. Day zero of the calendar is a Thursday. -/
def weekdayOf (date : Int) : Int := (date + 3) % 7 + 1

structure ListingRateCard where
  daily : Option Money
  weekend : Option Money
  weekly : Option Money
  deriving DecidableEq, Repr

structure AvailableRates where
  day : Money
  weekend : Option Money
  week : Option Money
  deriving DecidableEq, Repr

structure UnitCounts where
  day : Nat
  weekend : Nat
  week : Nat
  deriving DecidableEq, Repr

def UnitCounts.of (counts : UnitCounts) : RentalUnit → Nat
  | .day => counts.day
  | .weekend => counts.weekend
  | .week => counts.week

structure Combination where
  counts : UnitCounts
  cost : Money
  deriving DecidableEq, Repr

structure QuoteLineItem where
  unit : RentalUnit
  count : Nat
  unitPrice : Money
  subtotal : Money
  deriving DecidableEq, Repr

structure RentalUnits where
  lineItems : List QuoteLineItem
  itemCharge : Money
  deriving DecidableEq, Repr

/-- A rate as `Money`, which refuses an amount it cannot hold. -/
def checkedRate : Option Money → Except String (Option Money)
  | none => .ok none
  | some rate => (Money.money rate.amount rate.currency).map some

/-- The weekend rate is for a hire that starts on a Friday. -/
def toAvailableRates (daily : Money) (rates : ListingRateCard) (startsOnWeekday : Int) :
    Except String AvailableRates :=
  (Money.money daily.amount daily.currency).bind (fun day =>
    (checkedRate (if startsOnWeekday = weekendStartWeekday then rates.weekend else none)).bind
      (fun weekend => (checkedRate rates.weekly).bind (fun week => .ok ⟨day, weekend, week⟩)))

def rateFor (rates : AvailableRates) : RentalUnit → Except String Money
  | .day => .ok rates.day
  | .weekend => rates.weekend.elim (.error "no weekend rate was set") .ok
  | .week => rates.week.elim (.error "no week rate was set") .ok

def unitsOf (counts : UnitCounts) : List RentalUnit :=
  RentalUnit.largestFirst.filter (fun unit => 0 < counts.of unit)

def costOf (rates : AvailableRates) (counts : UnitCounts) : Except String Money :=
  ((unitsOf counts).mapM (fun unit =>
    (rateFor rates unit).bind (fun rate => Money.times rate (counts.of unit)))).bind
    (fun parts => Money.sum parts rates.day.currency)

/-- From `limit` down to zero. -/
def countdown (limit : Nat) : List Nat := (List.range (limit + 1)).reverse

/-- The combinations that are looked at, in their order: whatever weekends and
weeks do not cover is bought by the day. -/
def combinations (days : Nat) (rates : AvailableRates) : List UnitCounts :=
  (countdown (if rates.weekend.isNone then 0 else 1)).flatMap (fun weekends =>
    let afterWeekends := days - weekends * RentalUnit.weekend.days
    let weekLimit := if rates.week.isNone then 0
      else (afterWeekends + (RentalUnit.week.days - 1)) / RentalUnit.week.days
    (countdown weekLimit).map (fun weeks => ⟨afterWeekends - weeks * RentalUnit.week.days, weekends, weeks⟩))

/-- Keep the cheaper one, and of two that cost the same the one seen first. -/
def cheaper (rates : AvailableRates) (best : Option Combination) (counts : UnitCounts) :
    Except String (Option Combination) :=
  (costOf rates counts).bind (fun cost =>
    match best with
    | none => .ok (some ⟨counts, cost⟩)
    | some b => (Money.lessThan cost b.cost).bind (fun less =>
      .ok (some (if less then ⟨counts, cost⟩ else b))))

def cheapestCombination (days : Nat) (rates : AvailableRates) : Except String Combination :=
  ((combinations days rates).foldlM (cheaper rates) none).bind (fun best =>
    best.elim (.error "no combination of rates was considered") .ok)

def toLineItems (best : Combination) (rates : AvailableRates) : Except String (List QuoteLineItem) :=
  (unitsOf best.counts).mapM (fun unit =>
    (rateFor rates unit).bind (fun unitPrice =>
      (Money.times unitPrice (best.counts.of unit)).map (fun subtotal =>
        ⟨unit, best.counts.of unit, unitPrice, subtotal⟩)))

/-- `none` where there is nothing to price: no daily rate, or not a day. -/
def chooseCheapestUnits (days : Int) (startsOnWeekday : Int) (rates : ListingRateCard) :
    Except String (Option RentalUnits) :=
  match rates.daily with
  | none => .ok none
  | some daily =>
    if days < 1 then .ok none
    else (toAvailableRates daily rates startsOnWeekday).bind (fun available =>
      (cheapestCombination days.toNat available).bind (fun best =>
        (toLineItems best available).map (fun lineItems => some ⟨lineItems, best.cost⟩)))

structure PricedRental where
  lineItems : List QuoteLineItem
  itemCharge : Money
  renterFee : Money
  minimumFeeApplied : Bool
  total : Money
  deriving DecidableEq, Repr

def priceRental (percentageOf : PercentageOf) (days : Int) (startsOnWeekday : Int)
    (rates : ListingRateCard) (policy : CategoryFeePolicy) : Except String (Option PricedRental) :=
  (chooseCheapestUnits days startsOnWeekday rates).bind (fun units =>
    match units with
    | none => .ok none
    | some units => (renterFeeOn percentageOf units.itemCharge policy).bind (fun fee =>
      (Money.add units.itemCharge fee.fee).map (fun total =>
        some ⟨units.lineItems, units.itemCharge, fee.fee, fee.minimumFeeApplied, total⟩)))

structure BelowMinimumBooking where
  total : Money
  minimum : Money
  deriving DecidableEq, Repr

def refuseBelowMinimumBooking (total : Money) (policy : CategoryFeePolicy) :
    Except String (Option BelowMinimumBooking) :=
  (Money.money policy.minimumBookingTotal.amount policy.minimumBookingTotal.currency).bind (fun minimum =>
    (Money.lessThan total minimum).map (fun less => if less then some ⟨total, minimum⟩ else none))

def describeBelowMinimumBooking (refusal : BelowMinimumBooking) : String :=
  "That comes to " ++ refusal.total.format ++
    ", and the smallest booking we can take for this kind of item is " ++ refusal.minimum.format ++
    ". Hiring for longer will get you there."

def maxMaximumRentalDays : Nat := 88

inductive PeriodRefusal where
  | inverted
  | overMaximum (days : Int) (maximumDays : Nat)
  deriving DecidableEq, Repr

def refusePeriod (z : Zone) (startAt endAt : Int) (maximumDays : Nat) :
    Except String (Option PeriodRefusal) :=
  if endAt ≤ startAt then .ok (some .inverted)
  else (z.rentalDayCount startAt endAt).map (fun days : Int =>
    if days > min maximumDays maxMaximumRentalDays then
      some (.overMaximum days (min maximumDays maxMaximumRentalDays))
    else none)

def describePeriodRefusal : PeriodRefusal → String
  | .inverted => "Those dates do not make a hire — the return has to come after the collection."
  | .overMaximum days maximumDays => "That is " ++ days.repr ++
    " days, and the longest hire we can arrange for this kind of item is " ++ maximumDays.repr ++
    ". Longer hires are regulated consumer credit, which we are not authorised to arrange. Shorten the dates, or book again when this hire ends."

theorem priceRental_total {percentageOf : PercentageOf} {days startsOnWeekday : Int}
    {rates : ListingRateCard} {policy : CategoryFeePolicy} {priced : PricedRental}
    (h : priceRental percentageOf days startsOnWeekday rates policy = .ok (some priced)) :
    priced.total.amount = priced.itemCharge.amount + priced.renterFee.amount := by
  unfold priceRental at h
  obtain ⟨units, -, h⟩ := Refusal.bind_eq_ok.mp h
  cases units with
  | none => cases h
  | some units =>
    obtain ⟨fee, -, h⟩ := Refusal.bind_eq_ok.mp h
    obtain ⟨total, ht, h⟩ := Refusal.map_eq_ok.mp h
    cases h
    rw [Money.add_eq_ok ht]

theorem refuseBelowMinimumBooking_none {total : Money} {policy : CategoryFeePolicy}
    (h : refuseBelowMinimumBooking total policy = .ok none) :
    policy.minimumBookingTotal.amount ≤ total.amount := by
  unfold refuseBelowMinimumBooking at h
  obtain ⟨minimum, hm, h⟩ := Refusal.bind_eq_ok.mp h
  obtain ⟨less, hl, h⟩ := Refusal.map_eq_ok.mp h
  rw [Money.money_eq_ok hm] at hl
  unfold Money.lessThan at hl
  split at hl
  · cases hl
    split at h
    · cases h
    · rename_i hless
      simpa using hless
  · cases hl

theorem refusePeriod_none {z : Zone} {startAt endAt : Int} {maximumDays : Nat}
    (h : refusePeriod z startAt endAt maximumDays = .ok none) :
    startAt < endAt ∧ ∃ days, z.rentalDayCount startAt endAt = .ok days ∧
      days ≤ min maximumDays maxMaximumRentalDays := by
  unfold refusePeriod at h
  split at h
  · cases h
  · rename_i hlt
    refine ⟨by omega, ?_⟩
    obtain ⟨days, hdays, h⟩ := Refusal.map_eq_ok.mp h
    refine ⟨days, hdays, ?_⟩
    split at h
    · cases h
    · omega

end RentalMarket.Pricing
