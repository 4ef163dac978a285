import Mathlib

namespace RentalMarket.Core

def msPerHour : Int := 3600000

/-- A time zone: the instant each local day starts, with days of 23 to 25
hours, and the local date of an instant. A calendar date is its number of days
from a fixed one; dates written `YYYY-MM-DD` compare as their numbers do. -/
structure Zone where
  startOfLocalDay : Int → Int
  toLocalDate : Int → Int
  day_ge : ∀ d, 23 * msPerHour ≤ startOfLocalDay (d + 1) - startOfLocalDay d
  day_le : ∀ d, startOfLocalDay (d + 1) - startOfLocalDay d ≤ 25 * msPerHour
  start_le : ∀ t, startOfLocalDay (toLocalDate t) ≤ t
  lt_next : ∀ t, t < startOfLocalDay (toLocalDate t + 1)

namespace Zone

def utc : Zone where
  startOfLocalDay d := d * 86400000
  toLocalDate t := t / 86400000
  day_ge d := by simp only [msPerHour]; omega
  day_le d := by simp only [msPerHour]; omega
  start_le t := by omega
  lt_next t := by omega

def springForward (day : Int) : Zone where
  startOfLocalDay d := if d ≤ day then d * 86400000 else d * 86400000 - 3600000
  toLocalDate t := if t < day * 86400000 then t / 86400000 else (t + 3600000) / 86400000
  day_ge d := by simp only [msPerHour]; split_ifs <;> omega
  day_le d := by simp only [msPerHour]; split_ifs <;> omega
  start_le t := by split_ifs <;> omega
  lt_next t := by split_ifs <;> omega

variable (z : Zone)

theorem startOfLocalDay_strictMono : StrictMono z.startOfLocalDay := by
  refine strictMono_int_of_lt_succ (fun d => ?_)
  have hday := z.day_ge d
  simp only [msPerHour] at hday
  omega

theorem le_toLocalDate_iff {d : Int} {t : Int} :
    d ≤ z.toLocalDate t ↔ z.startOfLocalDay d ≤ t := by
  constructor
  · intro h
    exact (z.startOfLocalDay_strictMono.monotone h).trans (z.start_le t)
  · intro h
    have hlt := z.startOfLocalDay_strictMono.lt_iff_lt.mp (h.trans_lt (z.lt_next t))
    omega

theorem toLocalDate_lt_iff {d : Int} {t : Int} :
    z.toLocalDate t < d ↔ t < z.startOfLocalDay d := by
  rw [← not_le, le_toLocalDate_iff, not_le]

theorem toLocalDate_startOfLocalDay (d : Int) :
    z.toLocalDate (z.startOfLocalDay d) = d := by
  have hle := z.le_toLocalDate_iff.mpr (le_refl (z.startOfLocalDay d))
  have hnext : z.toLocalDate (z.startOfLocalDay d) < d + 1 :=
    z.toLocalDate_lt_iff.mpr (z.startOfLocalDay_strictMono (by omega))
  omega

theorem toLocalDate_before_startOfLocalDay (d : Int) :
    z.toLocalDate (z.startOfLocalDay d - 1) = d - 1 := by
  have hstart := z.startOfLocalDay_strictMono (show d - 1 < d by omega)
  have hle := z.le_toLocalDate_iff.mpr (show z.startOfLocalDay (d - 1) ≤ z.startOfLocalDay d - 1 by omega)
  have hlt := z.toLocalDate_lt_iff.mpr (show z.startOfLocalDay d - 1 < z.startOfLocalDay d by omega)
  omega

/-- Rental duration in local calendar days, never less than one. -/
def rentalDayCount (startAt endAt : Int) : Except String Int :=
  if z.toLocalDate endAt < z.toLocalDate startAt then
    .error "Rental end date cannot fall before the start date"
  else .ok (max 1 (z.toLocalDate endAt - z.toLocalDate startAt))

theorem rentalDayCount_days {d e : Int} (h : d < e) :
    z.rentalDayCount (z.startOfLocalDay d) (z.startOfLocalDay e) = .ok (e - d) := by
  rw [rentalDayCount, toLocalDate_startOfLocalDay, toLocalDate_startOfLocalDay, if_neg (by omega),
    max_eq_right (by omega)]

end Zone

def addLocalDays (date : Int) (days : Int) : Int := date + days

def addHours (instant : Int) (hours : Nat) : Int := instant + hours * msPerHour

end RentalMarket.Core
