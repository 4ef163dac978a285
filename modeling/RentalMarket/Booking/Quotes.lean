import RentalMarket.Booking.Tables
import RentalMarket.Pricing.RentalQuote

namespace RentalMarket.Booking

open RentalMarket.Core RentalMarket.Pricing BookingState

def platformTimeZone : String := "Europe/London"

/-- A category version. A reconfiguration is a new version, so none is ever
rewritten; the contract accepts a deadline of an hour to two weeks. -/
structure CategoryVersion where
  name : String
  feePolicy : CategoryFeePolicy
  damageSecurity : Option DamageSecurityPolicy
  maximumRentalDays : Nat
  requestExpiryHours : Nat
  expiryHours : 1 ≤ requestExpiryHours ∧ requestExpiryHours ≤ 336
  deriving DecidableEq, Repr

/-- A row of `listings`. `quotable` stands for the three visibility checks. -/
structure Listing where
  id : Id
  ownerId : Id
  title : String
  rates : ListingRateCard
  replacementValue : Money
  categoryId : Id
  categoryVersionId : Id
  quotable : Bool
  deriving DecidableEq, Repr

structure Catalogue where
  listings : List Listing
  newest : Id → Option Id

structure QuotableListing where
  id : Id
  ownerId : Id
  title : String
  categoryName : String
  rates : ListingRateCard
  currentFeePolicy : CategoryFeePolicy
  currentDamageSecurity : Option DamageSecurityPolicy
  replacementValue : Money
  currentMaximumRentalDays : Nat
  currentRequestExpiryHours : Nat
  currentCategoryVersionId : Id
  deriving DecidableEq, Repr

/-- A listing with its category's current version, in one read. The name is
that of the version it was listed under. -/
def Catalogue.findQuotable (versionOf : Id → Option CategoryVersion) (c : Catalogue) (listingId : Id) :
    Option QuotableListing :=
  (c.listings.find? (fun l => l.id = listingId ∧ l.quotable)).bind (fun listing =>
    (versionOf listing.categoryVersionId).bind (fun pinned =>
      let versionId := (c.newest listing.categoryId).getD listing.categoryVersionId
      (versionOf versionId).map (fun current =>
        ⟨listing.id, listing.ownerId, listing.title, pinned.name, listing.rates, current.feePolicy,
          current.damageSecurity, listing.replacementValue, current.maximumRentalDays,
          current.requestExpiryHours, versionId⟩)))

/-- An owner edits a listing. Who owns it and where it is listed stay. -/
def Catalogue.edit (c : Catalogue) (listingId : Id) (title : String) (rates : ListingRateCard)
    (replacementValue : Money) (quotable : Bool) : Catalogue :=
  { c with listings := c.listings.map (fun l => if l.id = listingId then
      { l with title := title, rates := rates, replacementValue := replacementValue, quotable := quotable }
    else l) }

def Catalogue.reconfigure (c : Catalogue) (categoryId versionId : Id) : Catalogue :=
  { c with newest := Function.update c.newest categoryId (some versionId) }

/-- A row of `quotes`. The three amounts and the excess share one currency. -/
structure QuoteRow where
  id : Id
  listingId : Id
  renterId : Id
  period : Period
  timeZone : String
  itemChargeAmount : Int
  renterFeeAmount : Int
  totalAmount : Int
  currency : Currency
  minimumFeeApplied : Bool
  lineItems : List QuoteLineItem
  damageExcess : Option (Int × ExcessBound)
  categoryVersionId : Id
  expiresAt : Instant
  deriving DecidableEq, Repr

def findForRenter (quotes : List QuoteRow) (quoteId renterId : Id) : Option QuoteRow :=
  quotes.find? (fun q => q.id = quoteId ∧ q.renterId = renterId)

/-- The `CHECK` constraints of `quotes`. -/
def quoteAllowed (row : QuoteRow) : Bool :=
  decide (row.period.endAt > row.period.startAt) && decide (row.itemChargeAmount ≥ 0) &&
    decide (row.renterFeeAmount ≥ 0) &&
    decide (row.totalAmount = row.itemChargeAmount + row.renterFeeAmount) && !row.lineItems.isEmpty &&
    row.damageExcess.all (fun e => decide (e.1 ≥ 0))

structure QuoteRequest where
  startDate : Int
  endDate : Int
  ordered : startDate ≤ endDate
  deriving Repr

instance : DecidableEq QuoteRequest := fun a b =>
  decidable_of_iff (a.startDate = b.startDate ∧ a.endDate = b.endDate) (by cases a; cases b; simp)

def quoteValidityMs : Int := 30 * 60000

def damageExcessColumns (excess : Option AppliedExcess) : Option (Int × ExcessBound) :=
  excess.map (fun e => (e.amount.amount, e.boundBy))

def toAppliedExcess (currency : Currency) (columns : Option (Int × ExcessBound)) : Option AppliedExcess :=
  columns.map (fun e => ⟨⟨e.1, currency⟩, e.2⟩)

theorem toAppliedExcess_columns (currency : Currency) (excess : Option AppliedExcess) :
    toAppliedExcess currency (damageExcessColumns excess) = excess := by
  cases excess <;> rfl

def ownListing : String :=
  "This is your own listing, so there is nothing to quote. Ask somebody else to book it, or use your calendar to block the dates."

def startsInThePast : String :=
  "That hire starts in the past. Choose a collection date from today onwards."

def noPriceSet : String :=
  "This item has no price set, so we cannot quote it yet. Its owner needs to add a daily rate."

def describeUnavailable : UnavailableReason → String
  | .blocked => "Those dates are not available for this item. The calendar on the listing shows what is free."
  | .booked => "Those dates are not available for this item. The calendar on the listing shows what is free."

section

variable (percentageOf : PercentageOf) (z : Zone)

/-- `quote` up to its look at the calendar. -/
def examineQuote (listing : QuotableListing) (renterId : Id) (request : QuoteRequest) (now : Instant) :
    Except String Period :=
  if listing.ownerId = renterId then .error ownListing
  else
    let period := periodFromLocalDates z request.startDate request.endDate
    (refusePeriod z period.startAt period.endAt listing.currentMaximumRentalDays).bind (fun unlawful =>
      match unlawful with
      | some refusal => .error (describePeriodRefusal refusal)
      | none => if request.startDate < z.toLocalDate now then .error startsInThePast else .ok period)

/-- `quote` after it: what the hire costs, and what stands behind it. -/
def priceQuote (listing : QuotableListing) (request : QuoteRequest) (period : Period) :
    Except String (PricedRental × Option AppliedExcess) :=
  (z.rentalDayCount period.startAt period.endAt).bind (fun days =>
    (priceRental percentageOf days (weekdayOf request.startDate) listing.rates
      listing.currentFeePolicy).bind (fun priced =>
      match priced with
      | none => .error noPriceSet
      | some priced =>
        (refuseBelowMinimumBooking priced.total listing.currentFeePolicy).bind (fun tooSmall =>
          match tooSmall with
          | some refusal => .error (describeBelowMinimumBooking refusal)
          | none => (appliedExcessOrNone percentageOf listing.currentDamageSecurity
            listing.replacementValue).map (fun excess => (priced, excess)))))

end

def newQuote (id : Id) (listing : QuotableListing) (renterId : Id) (period : Period)
    (priced : PricedRental) (excess : Option AppliedExcess) (now : Instant) : QuoteRow where
  id := id
  listingId := listing.id
  renterId := renterId
  period := period
  timeZone := platformTimeZone
  itemChargeAmount := priced.itemCharge.amount
  renterFeeAmount := priced.renterFee.amount
  totalAmount := priced.total.amount
  currency := priced.total.currency
  minimumFeeApplied := priced.minimumFeeApplied
  lineItems := priced.lineItems
  damageExcess := damageExcessColumns excess
  categoryVersionId := listing.currentCategoryVersionId
  expiresAt := now + quoteValidityMs

def priceHasExpired : String :=
  "That price has expired. Ask for the dates again and you will get a fresh quote — the price may have changed."

def noLongerBookable : String :=
  "This item is no longer available to book. It may have been withdrawn since you asked for a price."

def ownRequest : String := "This is your own listing, so there is nothing to request."

def alreadyRequested : String :=
  "You have already requested this hire. We have only kept the first request — asking again would have made two."

/-- `request`'s own look at the listing a quote is for. -/
def examineRequest (listing : Option QuotableListing) (renterId : Id) : Except String QuotableListing :=
  match listing with
  | none => .error noLongerBookable
  | some listing => if listing.ownerId = renterId then .error ownRequest else .ok listing

/-- The booking a request makes: its terms off the quote, its names and its
deadline off the listing. -/
def newBooking (id : Id) (quote : QuoteRow) (listing : QuotableListing) (renterId : Id)
    (state : BookingState) (now : Instant) : BookingRow where
  id := id
  listingId := quote.listingId
  renterId := renterId
  state := state
  period := quote.period
  timeZone := quote.timeZone
  quoteId := quote.id
  categoryVersionId := quote.categoryVersionId
  itemChargeAmount := quote.itemChargeAmount
  renterFeeAmount := quote.renterFeeAmount
  totalAmount := quote.totalAmount
  currency := quote.currency
  itemTitle := listing.title
  categoryName := listing.categoryName
  damageExcess := damageExcessColumns (toAppliedExcess quote.currency quote.damageExcess)
  requestExpiresAt := addHours now listing.currentRequestExpiryHours

theorem examineQuote_eq_ok {z : Zone} {listing : QuotableListing} {renterId : Id} {request : QuoteRequest}
    {now : Instant} {period : Period} (h : examineQuote z listing renterId request now = .ok period) :
    listing.ownerId ≠ renterId ∧ period = periodFromLocalDates z request.startDate request.endDate ∧
      refusePeriod z period.startAt period.endAt listing.currentMaximumRentalDays = .ok none ∧
      z.toLocalDate now ≤ request.startDate := by
  unfold examineQuote at h
  obtain ⟨howner, h⟩ := Refusal.ite_error_eq_ok.mp h
  obtain ⟨unlawful, hlawful, h⟩ := Refusal.bind_eq_ok.mp h
  cases unlawful with
  | some refusal => cases h
  | none =>
    obtain ⟨hpast, h⟩ := Refusal.ite_error_eq_ok.mp h
    cases h
    exact ⟨howner, rfl, hlawful, not_lt.mp hpast⟩

theorem priceQuote_eq_ok {percentageOf : PercentageOf} {z : Zone} {listing : QuotableListing}
    {request : QuoteRequest} {period : Period} {priced : PricedRental} {excess : Option AppliedExcess}
    (h : priceQuote percentageOf z listing request period = .ok (priced, excess)) :
    ∃ days, z.rentalDayCount period.startAt period.endAt = .ok days ∧
      priceRental percentageOf days (weekdayOf request.startDate) listing.rates
        listing.currentFeePolicy = .ok (some priced) ∧
      refuseBelowMinimumBooking priced.total listing.currentFeePolicy = .ok none ∧
      appliedExcessOrNone percentageOf listing.currentDamageSecurity listing.replacementValue =
        .ok excess := by
  unfold priceQuote at h
  obtain ⟨days, hdays, h⟩ := Refusal.bind_eq_ok.mp h
  obtain ⟨found, hpriced, h⟩ := Refusal.bind_eq_ok.mp h
  cases found with
  | none => cases h
  | some found =>
    obtain ⟨tooSmall, hsmall, h⟩ := Refusal.bind_eq_ok.mp h
    cases tooSmall with
    | some refusal => cases h
    | none =>
      obtain ⟨e, he, h⟩ := Refusal.map_eq_ok.mp h
      cases h
      exact ⟨days, hdays, hpriced, hsmall, he⟩

def drillVersion : CategoryVersion where
  name := "Tools"
  feePolicy := ⟨1500, 1000, ⟨0, .gbp⟩, ⟨0, .gbp⟩⟩
  damageSecurity := some ⟨⟨5000, .gbp⟩, 1000, ⟨20000, .gbp⟩⟩
  maximumRentalDays := 28
  requestExpiryHours := 48
  expiryHours := by decide

def drillListing : Listing where
  id := "drill"
  ownerId := "owner"
  title := "Drill"
  rates := ⟨some ⟨1000, .gbp⟩, none, some ⟨5000, .gbp⟩⟩
  replacementValue := ⟨80000, .gbp⟩
  categoryId := "tools"
  categoryVersionId := "v1"
  quotable := true

def drillCatalogue : Catalogue := ⟨[drillListing], fun _ => some "v1"⟩

end RentalMarket.Booking
