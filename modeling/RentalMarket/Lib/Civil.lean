import Mathlib

namespace RentalMarket.Civil

/-- The proleptic Gregorian calendar. Months are counted through: month `k` is
month `k % 12 + 1` of the year `k / 12`. -/
def isLeap (year : Int) : Bool := decide (year % 4 = 0) && (decide (year % 100 ≠ 0) || decide (year % 400 = 0))

def daysInMonth (year month : Int) : Int :=
  if month = 2 then (if isLeap year then 29 else 28)
  else if month = 4 ∨ month = 6 ∨ month = 9 ∨ month = 11 then 30
  else 31

def startOfYear (year : Int) : Int :=
  365 * (year - 1) + (year - 1) / 4 - (year - 1) / 100 + (year - 1) / 400

def daysBefore (month : Int) : Int :=
  if month ≤ 1 then 0 else if month = 2 then 31 else if month = 3 then 59 else if month = 4 then 90
  else if month = 5 then 120 else if month = 6 then 151 else if month = 7 then 181
  else if month = 8 then 212 else if month = 9 then 243 else if month = 10 then 273
  else if month = 11 then 304 else 334

def startOfMonth (k : Int) : Int :=
  startOfYear (k / 12) + daysBefore (k % 12 + 1) +
    (if isLeap (k / 12) = true ∧ 2 < k % 12 + 1 then 1 else 0)

theorem isLeap_iff (year : Int) : isLeap year = true ↔ year % 4 = 0 ∧ (year % 100 ≠ 0 ∨ year % 400 = 0) := by
  simp [isLeap]

theorem daysInMonth_bounds (year month : Int) : 28 ≤ daysInMonth year month ∧ daysInMonth year month ≤ 31 := by
  unfold daysInMonth
  split_ifs <;> omega

theorem startOfYear_succ (year : Int) :
    startOfYear (year + 1) = startOfYear year + 365 + (if isLeap year = true then 1 else 0) := by
  unfold startOfYear
  split
  · rename_i h
    rw [isLeap_iff] at h
    omega
  · rename_i h
    rw [isLeap_iff] at h
    omega

theorem startOfMonth_succ (k : Int) :
    startOfMonth (k + 1) = startOfMonth k + daysInMonth (k / 12) (k % 12 + 1) := by
  by_cases hlast : k % 12 = 11
  · have hyear : (k + 1) / 12 = k / 12 + 1 := by omega
    have hmonth : (k + 1) % 12 = 0 := by omega
    rw [startOfMonth, startOfMonth, hyear, hmonth, hlast, startOfYear_succ]
    simp only [daysBefore, daysInMonth]
    norm_num
    omega
  · have hyear : (k + 1) / 12 = k / 12 := by omega
    have hmonth : (k + 1) % 12 = k % 12 + 1 := by omega
    have hcases : k % 12 = 0 ∨ k % 12 = 1 ∨ k % 12 = 2 ∨ k % 12 = 3 ∨ k % 12 = 4 ∨ k % 12 = 5 ∨
        k % 12 = 6 ∨ k % 12 = 7 ∨ k % 12 = 8 ∨ k % 12 = 9 ∨ k % 12 = 10 := by omega
    rw [startOfMonth, startOfMonth, hyear, hmonth]
    obtain h | h | h | h | h | h | h | h | h | h | h := hcases <;> rw [h] <;>
      simp only [daysBefore, daysInMonth] <;> norm_num <;> cases isLeap (k / 12) <;> norm_num <;> omega

theorem startOfMonth_strictMono : StrictMono startOfMonth := by
  refine strictMono_int_of_lt_succ (fun k => ?_)
  have hlen := (daysInMonth_bounds (k / 12) (k % 12 + 1)).1
  rw [startOfMonth_succ]
  omega

theorem startOfYear_near (year : Int) :
    146097 * (year - 1) - 800 ≤ 400 * startOfYear year ∧
      400 * startOfYear year ≤ 146097 * (year - 1) + 800 := by
  have h₄ : 4 * ((year - 1) / 4) ≤ year - 1 ∧ year - 1 ≤ 4 * ((year - 1) / 4) + 3 := by omega
  have h₁₀₀ : 100 * ((year - 1) / 100) ≤ year - 1 ∧ year - 1 ≤ 100 * ((year - 1) / 100) + 99 := by omega
  have h₄₀₀ : 400 * ((year - 1) / 400) ≤ year - 1 ∧ year - 1 ≤ 400 * ((year - 1) / 400) + 399 := by omega
  unfold startOfYear
  constructor <;> linarith

theorem daysBefore_near {month : Int} (h : 1 ≤ month) (h' : month ≤ 12) :
    146097 * (month - 1) - 9600 ≤ 4800 * daysBefore month ∧
      4800 * daysBefore month ≤ 146097 * (month - 1) + 9600 := by
  interval_cases month <;> decide

theorem startOfMonth_near (k : Int) :
    146097 * (k - 12) - 24000 ≤ 4800 * startOfMonth k ∧
      4800 * startOfMonth k ≤ 146097 * (k - 12) + 24000 := by
  have hyear := startOfYear_near (k / 12)
  have hmonth := daysBefore_near (show 1 ≤ k % 12 + 1 by omega) (by omega)
  unfold startOfMonth
  split <;> omega

/-- The month a day falls in: the equal months' guess, put right by one. -/
def monthOfDay (n : Int) : Int :=
  let k := 12 + 4800 * n / 146097
  if n < startOfMonth k then k - 1 else if startOfMonth (k + 1) ≤ n then k + 1 else k

theorem startOfMonth_monthOfDay (n : Int) :
    startOfMonth (monthOfDay n) ≤ n ∧ n < startOfMonth (monthOfDay n + 1) := by
  unfold monthOfDay
  have hbefore := startOfMonth_near (12 + 4800 * n / 146097 - 1)
  have hafter := startOfMonth_near (12 + 4800 * n / 146097 + 1 + 1)
  simp only
  split
  · refine ⟨by omega, ?_⟩
    rw [Int.sub_add_cancel]
    assumption
  · split
    · exact ⟨by assumption, by omega⟩
    · exact ⟨by omega, by omega⟩

theorem monthOfDay_eq_iff {n k : Int} :
    monthOfDay n = k ↔ startOfMonth k ≤ n ∧ n < startOfMonth (k + 1) := by
  constructor
  · rintro rfl
    exact startOfMonth_monthOfDay n
  · rintro ⟨hle, hlt⟩
    obtain ⟨hle', hlt'⟩ := startOfMonth_monthOfDay n
    have h₁ := startOfMonth_strictMono.lt_iff_lt.mp (hle.trans_lt hlt')
    have h₂ := startOfMonth_strictMono.lt_iff_lt.mp (hle'.trans_lt hlt)
    omega

theorem le_monthOfDay_iff {n k : Int} : k ≤ monthOfDay n ↔ startOfMonth k ≤ n := by
  obtain ⟨hle, hlt⟩ := startOfMonth_monthOfDay n
  constructor
  · intro h
    exact (startOfMonth_strictMono.monotone h).trans hle
  · intro h
    have hsucc := startOfMonth_strictMono.lt_iff_lt.mp (h.trans_lt hlt)
    omega

structure Date where
  year : Int
  month : Int
  day : Int
  month_valid : 1 ≤ month ∧ month ≤ 12
  day_valid : 1 ≤ day ∧ day ≤ daysInMonth year month
  deriving DecidableEq

namespace Date

variable (d : Date)

def monthIndex : Int := 12 * d.year + (d.month - 1)

/-- The number of the day, counted from the first of January of the year 1. -/
def number : Int := startOfMonth d.monthIndex + (d.day - 1)

def ofNumber (n : Int) : Date where
  year := monthOfDay n / 12
  month := monthOfDay n % 12 + 1
  day := n - startOfMonth (monthOfDay n) + 1
  month_valid := by omega
  day_valid := by
    have h := startOfMonth_monthOfDay n
    rw [startOfMonth_succ] at h
    omega

theorem monthIndex_div : d.monthIndex / 12 = d.year := by
  have h := d.month_valid
  unfold monthIndex
  omega

theorem monthIndex_mod : d.monthIndex % 12 + 1 = d.month := by
  have h := d.month_valid
  unfold monthIndex
  omega

theorem startOfMonth_succ_monthIndex :
    startOfMonth (d.monthIndex + 1) = startOfMonth d.monthIndex + daysInMonth d.year d.month := by
  rw [startOfMonth_succ, monthIndex_div, monthIndex_mod]

theorem monthOfDay_number : monthOfDay d.number = d.monthIndex := by
  have h := d.day_valid
  rw [monthOfDay_eq_iff, startOfMonth_succ_monthIndex]
  unfold number
  omega

theorem ext_iff' {d e : Date} : d = e ↔ d.year = e.year ∧ d.month = e.month ∧ d.day = e.day := by
  cases d
  cases e
  simp

@[simp] theorem ofNumber_number : ofNumber d.number = d := by
  rw [ext_iff']
  simp only [ofNumber, monthOfDay_number, monthIndex_div, monthIndex_mod, true_and]
  unfold number
  omega

theorem monthIndex_ofNumber (n : Int) : (ofNumber n).monthIndex = monthOfDay n := by
  simp only [monthIndex, ofNumber]
  omega

@[simp] theorem number_ofNumber (n : Int) : (ofNumber n).number = n := by
  rw [number, monthIndex_ofNumber]
  simp [ofNumber]

/-- The same day of another month, or its last day where it has no such day. -/
def plusMonths (months : Int) : Date where
  year := (d.monthIndex + months) / 12
  month := (d.monthIndex + months) % 12 + 1
  day := min d.day (daysInMonth ((d.monthIndex + months) / 12) ((d.monthIndex + months) % 12 + 1))
  month_valid := by omega
  day_valid := by
    have hday := d.day_valid
    have hlen := daysInMonth_bounds ((d.monthIndex + months) / 12) ((d.monthIndex + months) % 12 + 1)
    omega

theorem monthIndex_plusMonths (months : Int) : (d.plusMonths months).monthIndex = d.monthIndex + months := by
  rw [monthIndex, plusMonths]
  simp only
  omega

theorem monthIndex_lt_number {d e : Date} (h : d.monthIndex < e.monthIndex) : d.number < e.number := by
  have hd := d.day_valid
  have he := e.day_valid
  have hmono := startOfMonth_strictMono.monotone (Int.add_one_le_of_lt h)
  rw [startOfMonth_succ_monthIndex] at hmono
  unfold number
  omega

theorem number_lt_iff {d e : Date} : d.number < e.number ↔
    d.year < e.year ∨ d.year = e.year ∧ (d.month < e.month ∨ d.month = e.month ∧ d.day < e.day) := by
  have hd := d.month_valid
  have he := e.month_valid
  obtain hlt | heq | hgt := lt_trichotomy d.monthIndex e.monthIndex
  · have hnumber := monthIndex_lt_number hlt
    unfold monthIndex at hlt
    omega
  · have hnumber : d.number - e.number = d.day - e.day := by
      unfold number
      rw [heq]
      omega
    unfold monthIndex at heq
    omega
  · have hnumber := monthIndex_lt_number hgt
    unfold monthIndex at hgt
    omega

end Date

end RentalMarket.Civil
