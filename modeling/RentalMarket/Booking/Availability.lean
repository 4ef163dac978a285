import RentalMarket.Booking.Store
import RentalMarket.Core.LocalTime

namespace RentalMarket.Booking

open RentalMarket.Core BookingState

/-- A row of `availability_blocks`. -/
structure AvailabilityBlock where
  id : Id
  listingId : Id
  period : Period
  reason : Option String
  deriving DecidableEq, Repr

/-- What an owner asks to have blocked, the last day included. The contract
parses no request that ends before it starts. -/
structure AvailabilityBlockRequest where
  startDate : Int
  endDate : Int
  reason : Option String
  ordered : startDate ≤ endDate
  deriving DecidableEq, Repr

/-- The inclusive last day becomes an exclusive bound. -/
def periodFromLocalDates (z : Zone) (startDate endDateInclusive : Int) : Period :=
  ⟨z.startOfLocalDay startDate, z.startOfLocalDay (addLocalDays endDateInclusive 1)⟩

theorem periodFromLocalDates_nonempty (z : Zone) {startDate endDate : Int}
    (h : startDate ≤ endDate) : (periodFromLocalDates z startDate endDate).Nonempty :=
  z.startOfLocalDay_strictMono (Int.lt_add_one_of_le h)

def maxBlockDays : Int := 366

def maxBlockHorizonDays : Int := 730

def refuseUnacceptablePeriod (z : Zone) (now : Instant) (request : AvailabilityBlockRequest)
    (period : Period) : Except String Unit := do
  let today := z.toLocalDate now
  if request.endDate < today then
    throw "That period has already finished, so blocking it would change nothing. Choose dates that end today or later."
  if request.startDate > addLocalDays today maxBlockHorizonDays then
    throw "That start date is more than two years away. If you meant a date sooner than that, check the year."
  let days ← z.rentalDayCount period.startAt period.endAt
  if days > maxBlockDays then
    throw "A single period can cover at most 366 days. Block a shorter period, or add more than one."

/-- `AvailabilityService.block` up to the insert: the row it writes, `none` for
a listing that is not this owner's, or the refusal. -/
def newBlock (z : Zone) (ownerOf : Id → Option Id) (now : Instant) (id listingId ownerId : Id)
    (request : AvailabilityBlockRequest) : Except String (Option AvailabilityBlock) :=
  if ownerOf listingId = some ownerId then do
    let period := periodFromLocalDates z request.startDate request.endDate
    refuseUnacceptablePeriod z now request period
    return some ⟨id, listingId, period, request.reason⟩
  else .ok none

theorem newBlock_eq_some {z : Zone} {ownerOf : Id → Option Id} {now : Instant} {id listingId ownerId : Id}
    {request : AvailabilityBlockRequest} {block : AvailabilityBlock}
    (h : newBlock z ownerOf now id listingId ownerId request = .ok (some block)) :
    block.listingId = listingId ∧
      block.period = periodFromLocalDates z request.startDate request.endDate := by
  unfold newBlock at h
  split at h
  · cases hr : refuseUnacceptablePeriod z now request
        (periodFromLocalDates z request.startDate request.endDate) with
    | error e => simp [hr, bind, Except.bind] at h
    | ok _ =>
      simp only [hr, bind, Except.bind, pure, Except.pure, Except.ok.injEq, Option.some.injEq] at h
      rw [← h]
      exact ⟨rfl, rfl⟩
  · cases h

inductive UnavailableReason where
  | blocked
  | booked
  deriving DecidableEq, Repr

/-- The first query of `reasonUnavailable`: some block touches the period. -/
def isBlocked (blocks : List AvailabilityBlock) (listingId : Id) (period : Period) : Bool :=
  blocks.any (fun b => decide (b.listingId = listingId) &&
    Period.overlaps period.startAt period.endAt b.period)

def isBooked (bookings : List BookingRow) (listingId : Id) (period : Period) : Bool :=
  bookings.any (fun r => decide (r.listingId = listingId) && occupiesCalendar r.state &&
    Period.overlaps period.startAt period.endAt r.period)

theorem isBlocked_eq_false {blocks : List AvailabilityBlock} {listingId : Id} {period : Period} :
    isBlocked blocks listingId period = false ↔ ∀ b ∈ blocks, b.listingId = listingId →
      Period.overlaps period.startAt period.endAt b.period = false := by
  simp [isBlocked, List.any_eq_false]

def reasonUnavailable (blocks : List AvailabilityBlock) (bookings : List BookingRow)
    (listingId : Id) (period : Period) : Option UnavailableReason :=
  if isBlocked blocks listingId period then some .blocked
  else if isBooked bookings listingId period then some .booked
  else none

def describeUnavailableToOwner : UnavailableReason → String
  | .blocked => "You have blocked some of those dates since this request arrived. Remove the block on your calendar if you want to accept it."
  | .booked => "Those dates are already taken by a booking you have accepted."

theorem reasonUnavailable_eq_none {blocks : List AvailabilityBlock} {bookings : List BookingRow}
    {listingId : Id} {period : Period} :
    reasonUnavailable blocks bookings listingId period = none ↔
      isBlocked blocks listingId period = false ∧ isBooked bookings listingId period = false := by
  unfold reasonUnavailable
  split
  · simp_all
  · split <;> simp_all

end RentalMarket.Booking
