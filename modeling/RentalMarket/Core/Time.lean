import RentalMarket.Core.LocalTime
import RentalMarket.Lib.DateText

namespace RentalMarket.Core.Time

open RentalMarket.Civil

/-- The instant a local calendar date begins. The date is a text of the form
`YYYY-MM-DD`, and nothing looser. -/
def startOfLocalDay (z : Zone) (date : String) : Except String Int :=
  match Date.fromFormat date with
  | none => .error ("Not a valid calendar date: " ++ date)
  | some d => .ok (z.startOfLocalDay d.number)

def shiftLocalDate (date : String) (shift : Date → Date) : Except String String :=
  match Date.fromFormat date with
  | none => .error ("Not a valid calendar date: " ++ date)
  | some d => .ok (shift d).toISODate

/-- The text of a date past the year 9999 is not one of the form above. -/
def addLocalDays (date : String) (days : Int) : Except String String :=
  shiftLocalDate date (fun d => .ofNumber (d.number + days))

def addLocalMonths (date : String) (months : Int) : Except String String :=
  shiftLocalDate date (fun d => d.plusMonths months)

def toLocalDateString (z : Zone) (instant : Int) : String :=
  (Date.ofNumber (z.toLocalDate instant)).toISODate

theorem startOfLocalDay_eq_ok {z : Zone} {date : String} {t : Int} :
    startOfLocalDay z date = .ok t ↔
      ∃ d : Date, date = d.toISODate ∧ d.Written ∧ t = z.startOfLocalDay d.number := by
  unfold startOfLocalDay
  constructor
  · intro h
    split at h
    · cases h
    · rename_i d hd
      obtain ⟨hdate, hwritten⟩ := Date.fromFormat_eq_some.mp hd
      cases h
      exact ⟨d, hdate, hwritten, rfl⟩
  · rintro ⟨d, rfl, hwritten, rfl⟩
    rw [Date.fromFormat_toISODate hwritten]

theorem addLocalDays_toISODate {d : Date} (h : d.Written) (days : Int) :
    addLocalDays d.toISODate days = .ok (Date.ofNumber (d.number + days)).toISODate := by
  rw [addLocalDays, shiftLocalDate, Date.fromFormat_toISODate h]

theorem addLocalDays_eq_ok {date next : String} {days : Int} (h : addLocalDays date days = .ok next) :
    ∃ d : Date, date = d.toISODate ∧ d.Written ∧ next = (Date.ofNumber (d.number + days)).toISODate := by
  unfold addLocalDays shiftLocalDate at h
  split at h
  · cases h
  · rename_i d hd
    obtain ⟨hdate, hwritten⟩ := Date.fromFormat_eq_some.mp hd
    cases h
    exact ⟨d, hdate, hwritten, rfl⟩

theorem toLocalDateString_startOfLocalDay (z : Zone) (n : Int) :
    toLocalDateString z (z.startOfLocalDay n) = (Date.ofNumber n).toISODate := by
  rw [toLocalDateString, z.toLocalDate_startOfLocalDay]

theorem toLocalDateString_before_startOfLocalDay (z : Zone) (n : Int) :
    toLocalDateString z (z.startOfLocalDay n - 1) = (Date.ofNumber (n - 1)).toISODate := by
  rw [toLocalDateString, z.toLocalDate_before_startOfLocalDay]

end RentalMarket.Core.Time
