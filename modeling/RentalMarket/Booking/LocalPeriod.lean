import RentalMarket.Booking.Quotes
import RentalMarket.Core.Time

namespace RentalMarket.Booking.Wire

open RentalMarket.Core RentalMarket.Civil

def periodFromLocalDates (z : Zone) (startDate endDateInclusive : String) : Except String Period :=
  (Time.startOfLocalDay z startDate).bind (fun startAt =>
    (Time.addLocalDays endDateInclusive 1).bind (fun next =>
      (Time.startOfLocalDay z next).map (fun endAt => ⟨startAt, endAt⟩)))

structure Dates where
  startDate : String
  endDate : String
  deriving DecidableEq, Repr

structure Block extends Dates where
  id : Id
  reason : Option String
  deriving DecidableEq, Repr

structure BookedPeriod extends Dates where
  id : Id
  deriving DecidableEq, Repr

section

variable (z : Zone)

/-- The inclusive last day is that of the instant before the bound. -/
def toWireBlock (record : AvailabilityBlock) : Block where
  id := record.id
  startDate := Time.toLocalDateString z record.period.startAt
  endDate := Time.toLocalDateString z (record.period.endAt - 1)
  reason := record.reason

def toWirePeriod (record : BookingRow) : BookedPeriod where
  id := record.id
  startDate := Time.toLocalDateString z record.period.startAt
  endDate := Time.toLocalDateString z (record.period.endAt - 1)

/-- The dates `toWireQuote` gives a quote. -/
def quoteDates (quote : QuoteRow) : Except String Dates :=
  (Time.addLocalDays (Time.toLocalDateString z quote.period.endAt) (-1)).map
    (fun endDate => ⟨Time.toLocalDateString z quote.period.startAt, endDate⟩)

def inclusiveEndDate (endAt : Instant) : Except String String :=
  Time.addLocalDays (Time.toLocalDateString z endAt) (-1)

/-- The dates `toWireBooking`, `toListingRequest` and the summaries give a
booking. -/
def bookingDates (booking : BookingRow) : Except String Dates :=
  (inclusiveEndDate z booking.period.endAt).map
    (fun endDate => ⟨Time.toLocalDateString z booking.period.startAt, endDate⟩)

def inclusiveEnd (endAt : Instant) : Except String String :=
  Time.addLocalDays (Time.toLocalDateString z endAt) (-1)

def exportedDates (period : Period) : Except String Dates :=
  (inclusiveEnd z period.endAt).map
    (fun endDate => ⟨Time.toLocalDateString z period.startAt, endDate⟩)

end

section

variable {z : Zone} {startDate endDate : String} {p : Period}

/-- There is a period exactly for two dates of which the second has a day after
it, and it is the one their days have. -/
theorem periodFromLocalDates_eq_ok : periodFromLocalDates z startDate endDate = .ok p ↔
    ∃ d e : Date, startDate = d.toISODate ∧ endDate = e.toISODate ∧ d.Written ∧ e.Written ∧
      e.number + 1 < 3652059 ∧ p = Booking.periodFromLocalDates z d.number e.number := by
  unfold periodFromLocalDates
  constructor
  · intro h
    obtain ⟨startAt, hstart, h⟩ := Refusal.bind_eq_ok.mp h
    obtain ⟨next, hnext, h⟩ := Refusal.bind_eq_ok.mp h
    obtain ⟨endAt, hend, rfl⟩ := Refusal.map_eq_ok.mp h
    obtain ⟨d, hd, hdw, rfl⟩ := Time.startOfLocalDay_eq_ok.mp hstart
    obtain ⟨e, he, hew, rfl⟩ := Time.addLocalDays_eq_ok hnext
    obtain ⟨f, hf, hfw, rfl⟩ := Time.startOfLocalDay_eq_ok.mp hend
    have hday : f.number = e.number + 1 := by
      rw [← (Date.toISODate_eq_iff hfw).mp hf, Date.number_ofNumber]
    refine ⟨d, e, hd, he, hdw, hew, ?_, ?_⟩
    · rw [← hday]
      exact (Date.written_iff.mp hfw).2
    · rw [hday]
      rfl
  · rintro ⟨d, e, rfl, rfl, hd, he, hlast, rfl⟩
    have hnext : (Date.ofNumber (e.number + 1)).Written := by
      have hwritten := Date.written_iff.mp he
      rw [Date.written_ofNumber_iff]
      omega
    rw [Time.startOfLocalDay_eq_ok.mpr ⟨d, rfl, hd, rfl⟩, Time.addLocalDays_toISODate he]
    simp only [Except.bind]
    rw [Time.startOfLocalDay_eq_ok.mpr ⟨_, rfl, hnext, rfl⟩, Date.number_ofNumber]
    rfl

theorem last_iff {e : Date} (he : e.Written) :
    e.toISODate ≠ "9999-12-31" ↔ e.number + 1 < 3652059 := by
  have hlast : "9999-12-31" = (Date.ofNumber 3652058).toISODate := by decide +kernel
  have hwritten : (Date.ofNumber 3652058).Written := by decide +kernel
  have hrange := Date.written_iff.mp he
  rw [hlast, Ne, Date.toISODate_eq_iff hwritten]
  constructor
  · intro hne
    have hnumber : e.number ≠ 3652058 := by
      intro h
      apply hne
      rw [← h, Date.ofNumber_number]
    omega
  · rintro h rfl
    rw [Date.number_ofNumber] at h
    omega

theorem exists_period_iff {d e : Date} (hstart : startDate = d.toISODate) (hend : endDate = e.toISODate)
    (hd : d.Written) (he : e.Written) :
    (∃ p, periodFromLocalDates z startDate endDate = .ok p) ↔ endDate ≠ "9999-12-31" := by
  rw [hend, last_iff he, ← hend]
  constructor
  · rintro ⟨p, h⟩
    obtain ⟨d', e', -, he', -, hew', hlast, -⟩ := periodFromLocalDates_eq_ok.mp h
    rw [(Date.toISODate_eq_iff hew').mp (hend.symm.trans he')]
    exact hlast
  · intro hlast
    exact ⟨_, periodFromLocalDates_eq_ok.mpr ⟨d, e, hstart, hend, hd, he, hlast, rfl⟩⟩

theorem addLocalDays_toLocalDateString {n : Int} (h : (Date.ofNumber n).Written) :
    Time.addLocalDays (Time.toLocalDateString z (z.startOfLocalDay n)) (-1) =
      .ok (Date.ofNumber (n - 1)).toISODate := by
  rw [Time.toLocalDateString_startOfLocalDay, Time.addLocalDays_toISODate h, Date.number_ofNumber]
  rfl

/-- Whatever two dates become, every reading gives them back. -/
theorem inclusive_dates_survive (h : startDate ≤ endDate)
    (hp : periodFromLocalDates z startDate endDate = .ok p) :
    p.startAt < p.endAt ∧
      (∃ d e, Date.fromFormat startDate = some d ∧ Date.fromFormat endDate = some e ∧
        z.rentalDayCount p.startAt p.endAt = .ok ((e.number - d.number) + 1)) ∧
      (∀ block : AvailabilityBlock, block.period = p →
        (toWireBlock z block).toDates = ⟨startDate, endDate⟩) ∧
      (∀ booking : BookingRow, booking.period = p →
        (toWirePeriod z booking).toDates = ⟨startDate, endDate⟩) ∧
      (∀ quote : QuoteRow, quote.period = p → quoteDates z quote = .ok ⟨startDate, endDate⟩) ∧
      (∀ booking : BookingRow, booking.period = p →
        bookingDates z booking = .ok ⟨startDate, endDate⟩) ∧
      exportedDates z p = .ok ⟨startDate, endDate⟩ := by
  obtain ⟨d, e, rfl, rfl, hd, he, hlast, rfl⟩ := periodFromLocalDates_eq_ok.mp hp
  have hle : d.number ≤ e.number := (Date.toISODate_le_iff hd he).mp h
  have hnext : (Date.ofNumber (e.number + 1)).Written := by
    have hwritten := Date.written_iff.mp he
    rw [Date.written_ofNumber_iff]
    omega
  have hstart : Time.toLocalDateString z (z.startOfLocalDay d.number) = d.toISODate := by
    rw [Time.toLocalDateString_startOfLocalDay, Date.ofNumber_number]
  have hbefore : Time.toLocalDateString z (z.startOfLocalDay (e.number + 1) - 1) = e.toISODate := by
    rw [Time.toLocalDateString_before_startOfLocalDay, Int.add_sub_cancel, Date.ofNumber_number]
  have hback : Time.addLocalDays (Time.toLocalDateString z (z.startOfLocalDay (e.number + 1))) (-1) =
      .ok e.toISODate := by
    rw [addLocalDays_toLocalDateString hnext, Int.add_sub_cancel, Date.ofNumber_number]
  refine ⟨periodFromLocalDates_nonempty z hle, ⟨d, e, Date.fromFormat_toISODate hd,
    Date.fromFormat_toISODate he, ?_⟩, ?_, ?_, ?_, ?_, ?_⟩
  · rw [Booking.periodFromLocalDates, addLocalDays, z.rentalDayCount_days (by omega)]
    congr 1
    omega
  · rintro block hperiod
    simp only [toWireBlock, hperiod, Booking.periodFromLocalDates, addLocalDays, hstart, hbefore]
  · rintro booking hperiod
    simp only [toWirePeriod, hperiod, Booking.periodFromLocalDates, addLocalDays, hstart, hbefore]
  · rintro quote hperiod
    simp only [quoteDates, hperiod, Booking.periodFromLocalDates, addLocalDays, hstart, hback, Except.map]
  · rintro booking hperiod
    simp only [bookingDates, inclusiveEndDate, hperiod, Booking.periodFromLocalDates, addLocalDays,
      hstart, hback, Except.map]
  · simp only [exportedDates, inclusiveEnd, Booking.periodFromLocalDates, addLocalDays, hstart, hback,
      Except.map]

theorem inclusive_dates_survive_springForward : ∃ p,
    periodFromLocalDates (Zone.springForward 738975) "2024-02-28" "2024-03-31" = .ok p ∧
      (Zone.springForward 738975).rentalDayCount p.startAt p.endAt = .ok 33 ∧
      exportedDates (Zone.springForward 738975) p = .ok ⟨"2024-02-28", "2024-03-31"⟩ := by
  have hp : periodFromLocalDates (Zone.springForward 738975) "2024-02-28" "2024-03-31" =
      .ok ⟨63844675200000, 63847522800000⟩ := by decide +kernel
  have h := inclusive_dates_survive (by decide +kernel) hp
  exact ⟨_, hp, by decide +kernel, h.2.2.2.2.2.2⟩

end

end RentalMarket.Booking.Wire
