import RentalMarket.Booking.OwnerCalendar
import RentalMarket.Lib.Script

namespace RentalMarket.Booking.Wire

open RentalMarket.Core RentalMarket.Civil

section Schemas

variable (z : Zone)

/-- Whether a text converts, caught where it throws. -/
def isCalendarDate (value : String) : Bool :=
  match Time.startOfLocalDay z value with
  | .ok _ => true
  | .error _ => false

def calendarDateSchema (raw : String) : Option String :=
  let value := Script.trim raw
  if isCalendarDate z value then some value else none

/-- `/^\d{4}-\d{2}$/` -/
def looksLikeMonth (value : String) : Bool :=
  match value.toList with
  | [y₁, y₂, y₃, y₄, '-', m₁, m₂] => [y₁, y₂, y₃, y₄, m₁, m₂].all Char.isDigit
  | _ => false

def calendarMonthSchema (raw : String) : Option String :=
  let value := Script.trim raw
  if looksLikeMonth value && isCalendarDate z (value ++ "-01") then some value else none

/-- The dates of a request: each for itself, and then their order. -/
def datesSchema (startDate endDate : String) : Option Dates :=
  (calendarDateSchema z startDate).bind (fun startDate =>
    (calendarDateSchema z endDate).bind (fun endDate =>
      if endDate < startDate then none else some ⟨startDate, endDate⟩))

structure QuoteRequest extends Dates where
  postcode : String
  deriving DecidableEq, Repr

def quoteRequestSchema (postcodeSchema : String → Option String) (startDate endDate postcode : String) :
    Option QuoteRequest :=
  (datesSchema z startDate endDate).bind (fun dates =>
    (postcodeSchema postcode).map (fun postcode => ⟨dates, postcode⟩))

def maxBlockReasonLength : Nat := 200

/-- A note is trimmed, and an empty one becomes absent. -/
def reasonSchema : Option String → Option (Option String)
  | none => some none
  | some raw =>
    let value := Script.trim raw
    if Script.length value ≤ maxBlockReasonLength ∧ value.toList.any Script.isControlOrFormat = false then
      some (if value = "" then none else some value)
    else none

structure AvailabilityBlockRequest extends Dates where
  reason : Option String
  deriving DecidableEq, Repr

def availabilityBlockRequestSchema (startDate endDate : String) (reason : Option String) :
    Option AvailabilityBlockRequest :=
  (datesSchema z startDate endDate).bind (fun dates => (reasonSchema reason).map (fun reason => ⟨dates, reason⟩))

end Schemas

section Accepted

variable {z : Zone} {startDate endDate raw month value : String} {dates : Dates}

theorem isCalendarDate_iff : isCalendarDate z value = true ↔ ∃ d : Date, value = d.toISODate ∧ d.Written := by
  rw [isCalendarDate]
  cases h : Time.startOfLocalDay z value with
  | ok t =>
    obtain ⟨d, hd, hwritten, -⟩ := Time.startOfLocalDay_eq_ok.mp h
    exact iff_of_true rfl ⟨d, hd, hwritten⟩
  | error e =>
    apply iff_of_false Bool.false_ne_true
    rintro ⟨d, hd, hwritten⟩
    cases h.symm.trans (Time.startOfLocalDay_eq_ok.mpr ⟨d, hd, hwritten, rfl⟩)

theorem calendarDateSchema_eq_some (h : calendarDateSchema z raw = some value) :
    ∃ d : Date, value = d.toISODate ∧ d.Written := by
  rw [calendarDateSchema] at h
  split at h
  · rename_i hdate
    cases h
    exact isCalendarDate_iff.mp hdate
  · cases h

theorem exists_period_of_datesSchema (h : datesSchema z startDate endDate = some dates) :
    (∃ p, periodFromLocalDates z dates.startDate dates.endDate = .ok p) ↔ dates.endDate ≠ "9999-12-31" := by
  obtain ⟨first, hfirst, h⟩ := Option.bind_eq_some_iff.mp h
  obtain ⟨last, hlast, h⟩ := Option.bind_eq_some_iff.mp h
  split at h
  · cases h
  · cases h
    obtain ⟨d, hd, hdw⟩ := calendarDateSchema_eq_some hfirst
    obtain ⟨e, he, hew⟩ := calendarDateSchema_eq_some hlast
    exact exists_period_iff hd he hdw hew

theorem calendarMonthSchema_eq_some (h : calendarMonthSchema z raw = some month) :
    ∃ first, Date.fromFormat (firstDayOf month) = some first := by
  rw [calendarMonthSchema] at h
  split at h
  · rename_i haccepted
    cases h
    rw [Bool.and_eq_true] at haccepted
    obtain ⟨d, hd, hwritten⟩ := isCalendarDate_iff.mp haccepted.2
    exact ⟨d, by rw [firstDayOf, hd]; exact Date.fromFormat_toISODate hwritten⟩
  · cases h

theorem month_ne_last_iff {first : Date} (h : Date.fromFormat (firstDayOf month) = some first) :
    month ≠ "9999-12" ↔ first.monthIndex < 119999 := by
  obtain ⟨hwritten, -, hmonth⟩ := month_of_firstDayOf h
  let last : Date := ⟨9999, 12, 1, by decide, by decide⟩
  have hlast : "9999-12" = monthOf last.toISODate := by decide +kernel
  have hlastWritten : last.Written := by decide
  have hyear := first.monthIndex_div
  rw [Ne, hmonth, hlast, monthOf_toISODate_eq_iff hwritten hlastWritten, show last.monthIndex = 119999 by rfl]
  unfold Date.Written at hwritten
  omega

theorem readMonth_last (ownerOf : Id → Option Id) (blocks : List AvailabilityBlock) (bookings : List BookingRow)
    (now : Instant) {listingId ownerId : Id} (howner : ownerOf listingId = some ownerId) :
    readMonth z ownerOf blocks bookings now listingId ownerId (some "9999-12") =
      .error "Not a valid calendar date: +010000-01" := by
  have hfirst : Date.fromFormat (firstDayOf "9999-12") = some ⟨9999, 12, 1, by decide, by decide⟩ := by
    decide +kernel
  have hnext : nextMonth "9999-12" = .ok "+010000" := by decide +kernel
  have hbeyond : Date.fromFormat (firstDayOf "+010000") = none := by decide +kernel
  rw [readMonth, if_pos howner]
  simp only [Option.getD_some, Time.startOfLocalDay, hfirst, Except.bind, hnext, hbeyond]
  rfl

theorem exists_readMonth_iff {first : Date} (h : Date.fromFormat (firstDayOf month) = some first)
    (ownerOf : Id → Option Id) (blocks : List AvailabilityBlock) (bookings : List BookingRow) (now : Instant)
    {listingId ownerId : Id} (howner : ownerOf listingId = some ownerId) :
    (∃ availability, readMonth z ownerOf blocks bookings now listingId ownerId (some month) = .ok availability) ↔
      month ≠ "9999-12" := by
  constructor
  · rintro ⟨availability, hread⟩ rfl
    cases (readMonth_last ownerOf blocks bookings now howner).symm.trans hread
  · intro hne
    exact ⟨_, readMonth_eq h ((month_ne_last_iff h).mp hne) howner⟩

/-- What the contracts accept converts, but for the last day of the calendar as an end and
the last month of it. -/
theorem accepted_dates_convert_iff :
    (∀ postcodeSchema startDate endDate postcode request,
      quoteRequestSchema z postcodeSchema startDate endDate postcode = some request →
        ((∃ p, periodFromLocalDates z request.startDate request.endDate = .ok p) ↔
          request.endDate ≠ "9999-12-31")) ∧
    (∀ startDate endDate reason request, availabilityBlockRequestSchema z startDate endDate reason = some request →
      ((∃ p, periodFromLocalDates z request.startDate request.endDate = .ok p) ↔
        request.endDate ≠ "9999-12-31")) ∧
    ∀ raw month, calendarMonthSchema z raw = some month →
      ∀ ownerOf blocks bookings now listingId ownerId, ownerOf listingId = some ownerId →
        ((∃ availability, readMonth z ownerOf blocks bookings now listingId ownerId (some month) =
          .ok availability) ↔ month ≠ "9999-12") := by
  refine ⟨fun postcodeSchema startDate endDate postcode request h => ?_, fun startDate endDate reason request h => ?_,
    fun raw month h ownerOf blocks bookings now listingId ownerId howner => ?_⟩
  · obtain ⟨dates, hdates, h⟩ := Option.bind_eq_some_iff.mp h
    obtain ⟨postcode, -, rfl⟩ := Option.map_eq_some_iff.mp h
    exact exists_period_of_datesSchema hdates
  · obtain ⟨dates, hdates, h⟩ := Option.bind_eq_some_iff.mp h
    obtain ⟨reason, -, rfl⟩ := Option.map_eq_some_iff.mp h
    exact exists_period_of_datesSchema hdates
  · obtain ⟨first, hfirst⟩ := calendarMonthSchema_eq_some h
    exact exists_readMonth_iff hfirst ownerOf blocks bookings now howner

end Accepted

/-- A block for the last day of the calendar, and the last month of it, are accepted and throw. -/
theorem the_last_day_throws :
    availabilityBlockRequestSchema .utc "9999-12-31" "9999-12-31" none =
      some ⟨⟨"9999-12-31", "9999-12-31"⟩, none⟩ ∧
    periodFromLocalDates .utc "9999-12-31" "9999-12-31" = .error "Not a valid calendar date: +010000-01-01" ∧
    calendarMonthSchema .utc "9999-12" = some "9999-12" ∧
    readMonth .utc (fun _ => some "o1") [] [] 0 "l1" "o1" (some "9999-12") =
      .error "Not a valid calendar date: +010000-01" := by
  decide +kernel

theorem a_weekend_converts :
    (∃ p, periodFromLocalDates .utc "2024-03-30" "2024-03-31" = .ok p) ∧
      ∃ availability, readMonth .utc (fun _ => some "o1") [] [] 0 "l1" "o1" (some "2024-03") = .ok availability := by
  obtain ⟨-, hblock, hmonth⟩ := accepted_dates_convert_iff (z := .utc)
  have haccepted : availabilityBlockRequestSchema .utc " 2024-03-30" "2024-03-31 " (some " MOT ") =
      some ⟨⟨"2024-03-30", "2024-03-31"⟩, some "MOT"⟩ := by decide +kernel
  have hmonthAccepted : calendarMonthSchema .utc "2024-03" = some "2024-03" := by decide +kernel
  exact ⟨(hblock _ _ _ _ haccepted).mpr (by decide),
    (hmonth _ _ hmonthAccepted _ [] [] 0 "l1" "o1" rfl).mpr (by decide)⟩

end RentalMarket.Booking.Wire
