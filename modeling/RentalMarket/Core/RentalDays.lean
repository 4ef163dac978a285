import RentalMarket.Core.LocalTime

namespace RentalMarket.Core

def msPerDay : Int := 86400000

/-- What the date library adds to a zone. A reading of the wall clock is its distance from
midnight, `plusDays` is `plus({ days })` and `diffDays` the days of `diff(_, 'days')`. -/
structure Calendar (z : Zone) where
  clock : Int → Int
  plusDays : Int → Int → Int
  diffDays : Int → Int → ℚ
  clock_nonneg : ∀ t, 0 ≤ clock t
  clock_lt : ∀ t, clock t < msPerDay
  clock_near : ∀ t, |clock t - (t - z.startOfLocalDay (z.toLocalDate t))| ≤ msPerHour
  plus_kept : ∀ t d, (∃ u, z.toLocalDate u = z.toLocalDate t + d ∧ clock u = clock t) →
    z.toLocalDate (plusDays t d) = z.toLocalDate t + d ∧ clock (plusDays t d) = clock t
  plus_skipped : ∀ t d, (¬∃ u, z.toLocalDate u = z.toLocalDate t + d ∧ clock u = clock t) →
    ∃ gap, 0 ≤ gap ∧ gap ≤ msPerHour ∧ msPerDay * z.toLocalDate (plusDays t d) + clock (plusDays t d) =
      msPerDay * (z.toLocalDate t + d) + clock t + gap
  diff_near : ∀ d e, d ≤ e → ∃ n, plusDays (z.startOfLocalDay d) n ≤ z.startOfLocalDay e ∧
    z.startOfLocalDay e < plusDays (z.startOfLocalDay d) (n + 1) ∧
    |diffDays (z.startOfLocalDay d) (z.startOfLocalDay e) - (n +
      ((z.startOfLocalDay e - plusDays (z.startOfLocalDay d) n : Int) : ℚ) /
      ((plusDays (z.startOfLocalDay d) (n + 1) - plusDays (z.startOfLocalDay d) n : Int) : ℚ))| ≤ 1 / 8

namespace Calendar

variable {z : Zone} (c : Calendar z)

def startOfDay (z : Zone) (instant : Int) : Int := z.startOfLocalDay (z.toLocalDate instant)

/-- The count of the source, in the library's days and rounded. -/
def rentalDayCount (startAt endAt : Int) : Except String Int :=
  let startLocal := startOfDay z startAt
  let endLocal := startOfDay z endAt
  if endLocal < startLocal then .error "Rental end date cannot fall before the start date"
  else .ok (max 1 ⌊c.diffDays startLocal endLocal + 1 / 2⌋)

def addRentalDays (startAt : Int) (days : Int) : Int := c.plusDays startAt days

theorem toLocalDate_plusDays {t d : Int}
    (h : c.clock t < 23 * msPerHour ∨ ∃ u, z.toLocalDate u = z.toLocalDate t + d ∧ c.clock u = c.clock t) :
    z.toLocalDate (c.plusDays t d) = z.toLocalDate t + d := by
  by_cases hkept : ∃ u, z.toLocalDate u = z.toLocalDate t + d ∧ c.clock u = c.clock t
  · exact (c.plus_kept t d hkept).1
  · have hearly := h.resolve_right hkept
    obtain ⟨gap, hnonneg, hgap, heq⟩ := c.plus_skipped t d hkept
    have hlow := c.clock_nonneg (c.plusDays t d)
    have hhigh := c.clock_lt (c.plusDays t d)
    have hclock := c.clock_nonneg t
    simp only [msPerDay, msPerHour] at *
    omega

theorem clock_startOfLocalDay (d : Int) : c.clock (z.startOfLocalDay d) ≤ msPerHour := by
  have hnear := c.clock_near (z.startOfLocalDay d)
  rw [z.toLocalDate_startOfLocalDay, sub_self, sub_zero] at hnear
  exact le_of_abs_le hnear

theorem plusDays_startOfLocalDay (d n : Int) :
    z.toLocalDate (c.plusDays (z.startOfLocalDay d) n) = d + n ∧
      z.startOfLocalDay (d + n) ≤ c.plusDays (z.startOfLocalDay d) n ∧
      c.plusDays (z.startOfLocalDay d) n ≤ z.startOfLocalDay (d + n) + 3 * msPerHour := by
  have hstart := c.clock_startOfLocalDay d
  have hhour : msPerHour = 3600000 := rfl
  have hdate : z.toLocalDate (c.plusDays (z.startOfLocalDay d) n) = d + n := by
    rw [c.toLocalDate_plusDays (.inl (by omega)), z.toLocalDate_startOfLocalDay]
  have hclock : c.clock (c.plusDays (z.startOfLocalDay d) n) ≤ 2 * msPerHour := by
    by_cases hkept : ∃ u, z.toLocalDate u = z.toLocalDate (z.startOfLocalDay d) + n ∧
        c.clock u = c.clock (z.startOfLocalDay d)
    · rw [(c.plus_kept _ n hkept).2]
      omega
    · obtain ⟨gap, -, hgap, heq⟩ := c.plus_skipped _ n hkept
      rw [hdate, z.toLocalDate_startOfLocalDay] at heq
      omega
  have hnear := abs_le.mp (c.clock_near (c.plusDays (z.startOfLocalDay d) n))
  have hle := z.start_le (c.plusDays (z.startOfLocalDay d) n)
  rw [hdate] at hnear hle
  exact ⟨hdate, hle, by omega⟩

/-- The library's days between two midnights are nearest to the difference of the dates, be
they 23 hours or 25. -/
theorem round_diffDays {d e : Int} (h : d ≤ e) :
    ⌊c.diffDays (z.startOfLocalDay d) (z.startOfLocalDay e) + 1 / 2⌋ = e - d := by
  obtain ⟨n, hle, hlt, hnear⟩ := c.diff_near d e h
  obtain ⟨hdate, hlow, hhigh⟩ := c.plusDays_startOfLocalDay d n
  obtain ⟨hdate', hlow', hhigh'⟩ := c.plusDays_startOfLocalDay d (n + 1)
  have hhour : msPerHour = 3600000 := rfl
  have hn : n ≤ e - d := by
    have := z.startOfLocalDay_strictMono.le_iff_le.mp (hlow.trans hle)
    omega
  have hn' : e - d ≤ n + 1 := by
    have := z.le_toLocalDate_iff.mpr hlt.le
    omega
  have hclose : |c.diffDays (z.startOfLocalDay d) (z.startOfLocalDay e) - ((e - d : Int) : ℚ)| < 1 / 2 := by
    generalize c.plusDays (z.startOfLocalDay d) n = cursor at *
    generalize c.plusDays (z.startOfLocalDay d) (n + 1) = highWater at *
    generalize c.diffDays (z.startOfLocalDay d) (z.startOfLocalDay e) = days at *
    obtain heq | heq : n = e - d ∨ n + 1 = e - d := by omega
    · have hreached : z.startOfLocalDay e - cursor = 0 := by
        rw [show d + n = e by omega] at hlow
        omega
      rw [hreached, Int.cast_zero, zero_div, add_zero, heq] at hnear
      exact hnear.trans_lt (by norm_num)
    · -- the last of the days is at least twenty of at most twenty-eight hours long
      have hday := z.day_ge (d + n)
      have hday' := z.day_le (d + n)
      rw [show d + n + 1 = e by omega] at hday hday'
      rw [show d + (n + 1) = e by omega] at hhigh'
      have hpos : (0 : ℚ) < ((highWater - cursor : Int) : ℚ) := by
        rw [Int.cast_pos]
        omega
      have hmost : ((z.startOfLocalDay e - cursor : Int) : ℚ) / ((highWater - cursor : Int) : ℚ) ≤ 1 := by
        rw [div_le_one hpos, Int.cast_le]
        omega
      have hleast : (5 / 7 : ℚ) ≤ ((z.startOfLocalDay e - cursor : Int) : ℚ) / ((highWater - cursor : Int) : ℚ) := by
        rw [le_div_iff₀ hpos, div_mul_eq_mul_div, div_le_iff₀ (by norm_num)]
        have hscaled : 5 * (highWater - cursor) ≤ (z.startOfLocalDay e - cursor) * 7 := by omega
        exact_mod_cast hscaled
      have hcast : ((e - d : Int) : ℚ) = n + 1 := by rw [← heq]; push_cast; rfl
      obtain ⟨hlower, hupper⟩ := abs_le.mp hnear
      rw [hcast, abs_lt]
      constructor <;> linarith
  rw [Int.floor_eq_iff]
  obtain ⟨hlower, hupper⟩ := abs_lt.mp hclose
  constructor <;> linarith

theorem rentalDayCount_eq (startAt endAt : Int) : c.rentalDayCount startAt endAt = z.rentalDayCount startAt endAt := by
  rw [rentalDayCount, Zone.rentalDayCount]
  simp only [startOfDay, z.startOfLocalDay_strictMono.lt_iff_lt]
  by_cases hbefore : z.toLocalDate endAt < z.toLocalDate startAt
  · rw [if_pos hbefore, if_pos hbefore]
  · rw [if_neg hbefore, if_neg hbefore, c.round_diffDays (not_lt.mp hbefore)]

theorem rentalDayCount_addRentalDays {t d : Int} (hd : 1 ≤ d)
    (h : c.clock t < 23 * msPerHour ∨ ∃ u, z.toLocalDate u = z.toLocalDate t + d ∧ c.clock u = c.clock t) :
    c.rentalDayCount t (c.addRentalDays t d) = .ok d := by
  rw [rentalDayCount_eq, Zone.rentalDayCount, addRentalDays, c.toLocalDate_plusDays h, if_neg (by omega),
    add_sub_cancel_left, max_eq_right hd]

end Calendar

def springReading (day t : Int) : Int := if t < day * 86400000 then t else t + 3600000

/-- The instant of a reading, or where it is skipped that of the reading an hour later. -/
def springInstant (day reading : Int) : Int :=
  if reading < day * 86400000 + 3600000 then reading else reading - 3600000

def springDays (day s d : Int) : Int := springInstant day (springReading day s + d * 86400000)

theorem springReading_eq (day t : Int) : springReading day t =
    (Zone.springForward day).toLocalDate t * 86400000 + springReading day t % 86400000 := by
  simp only [springReading, Zone.springForward]
  split <;> omega

theorem spring_clock_near (day t : Int) : |springReading day t % 86400000 -
    (t - (Zone.springForward day).startOfLocalDay ((Zone.springForward day).toLocalDate t))| ≤ msPerHour := by
  have hreading := springReading_eq day t
  simp only [msPerHour, springReading, Zone.springForward, abs_le] at *
  split_ifs at * <;> omega

theorem springDays_pred_le (day d e : Int) :
    springDays day ((Zone.springForward day).startOfLocalDay d) (e - d - 1) ≤ (Zone.springForward day).startOfLocalDay e := by
  simp only [springDays, springInstant, springReading, Zone.springForward]
  split_ifs <;> omega

theorem lt_springDays_succ (day d e : Int) : (Zone.springForward day).startOfLocalDay e <
    springDays day ((Zone.springForward day).startOfLocalDay d) (e - d + 1) := by
  simp only [springDays, springInstant, springReading, Zone.springForward]
  split_ifs <;> omega

def Calendar.spring (day : Int) : Calendar (Zone.springForward day) where
  clock t := springReading day t % 86400000
  plusDays := springDays day
  diffDays s e :=
    let days := (Zone.springForward day).toLocalDate e - (Zone.springForward day).toLocalDate s
    let whole := if springDays day s days ≤ e then days else days - 1
    whole + ((e - springDays day s whole : Int) : ℚ) /
      ((springDays day s (whole + 1) - springDays day s whole : Int) : ℚ)
  clock_nonneg t := by omega
  clock_lt t := by simp only [msPerDay]; omega
  clock_near := spring_clock_near day
  plus_kept t d := by
    rintro ⟨u, hdate, hclock⟩
    have hreached : springDays day t d = u := by
      have ht := springReading_eq day t
      have hu := springReading_eq day u
      have hsum : springReading day t + d * 86400000 = springReading day u := by omega
      rw [springDays, hsum, springInstant, springReading]
      split_ifs <;> omega
    rw [hreached]
    exact ⟨hdate, hclock⟩
  plus_skipped t d h := by
    have ht := springReading_eq day t
    have hskipped : day * 86400000 ≤ springReading day t + d * 86400000 ∧
        springReading day t + d * 86400000 < day * 86400000 + 3600000 := by
      by_contra hkept
      apply h
      refine ⟨springDays day t d, ?_⟩
      have hreading : springReading day (springDays day t d) = springReading day t + d * 86400000 := by
        rw [springDays, springInstant, springReading]
        split_ifs <;> omega
      have hu := springReading_eq day (springDays day t d)
      omega
    refine ⟨3600000, by decide, le_rfl, ?_⟩
    have hreading : springReading day (springDays day t d) = springReading day t + d * 86400000 + 3600000 := by
      rw [springDays, springInstant, springReading]
      split_ifs <;> omega
    have hu := springReading_eq day (springDays day t d)
    simp only [msPerDay]
    omega
  diff_near d e h := by
    refine ⟨_, ?_, ?_, (abs_sub_comm _ _).trans_le (by rw [sub_self, abs_zero]; norm_num)⟩
    · simp only [Zone.toLocalDate_startOfLocalDay]
      split
      · assumption
      · exact springDays_pred_le day d e
    · simp only [Zone.toLocalDate_startOfLocalDay]
      split
      · exact lt_springDays_succ day d e
      · rename_i hpassed
        rw [sub_add_cancel]
        exact not_le.mp hpassed

/-- The hire that `addRentalDays` ends is as long as was asked for, the count is that of the
local dates, and counts add up over periods that each end on a later date. -/
theorem calendar_arithmetic (z : Zone) (c : Calendar z) :
    (∀ date d, 1 ≤ d → c.rentalDayCount (z.startOfLocalDay date) (c.addRentalDays (z.startOfLocalDay date) d) = .ok d) ∧
    (∀ t d, 1 ≤ d →
      (c.clock t < 23 * msPerHour ∨ ∃ u, z.toLocalDate u = z.toLocalDate t + d ∧ c.clock u = c.clock t) →
      c.rentalDayCount t (c.addRentalDays t d) = .ok d) ∧
    (∀ s e, z.toLocalDate s ≤ z.toLocalDate e →
      c.rentalDayCount s e = .ok (max 1 (z.toLocalDate e - z.toLocalDate s))) ∧
    (∀ s e, z.toLocalDate e < z.toLocalDate s →
      c.rentalDayCount s e = .error "Rental end date cannot fall before the start date") ∧
    ∀ s m e, z.toLocalDate s < z.toLocalDate m → z.toLocalDate m < z.toLocalDate e →
      ∃ first second, c.rentalDayCount s m = .ok first ∧ c.rentalDayCount m e = .ok second ∧
        c.rentalDayCount s e = .ok (first + second) := by
  have hcount (s e : Int) (h : z.toLocalDate s ≤ z.toLocalDate e) :
      c.rentalDayCount s e = .ok (max 1 (z.toLocalDate e - z.toLocalDate s)) := by
    rw [c.rentalDayCount_eq, Zone.rentalDayCount, if_neg (not_lt.mpr h)]
  refine ⟨?_, fun t d hd h => c.rentalDayCount_addRentalDays hd h, hcount, ?_, ?_⟩
  · intro date d hd
    have hstart := c.clock_startOfLocalDay date
    have hhour : msPerHour = 3600000 := rfl
    exact c.rentalDayCount_addRentalDays hd (.inl (by omega))
  · intro s e h
    rw [c.rentalDayCount_eq, Zone.rentalDayCount, if_pos h]
  · intro s m e hsm hme
    refine ⟨_, _, hcount s m hsm.le, hcount m e hme.le, ?_⟩
    rw [hcount s e (hsm.trans hme).le, max_eq_right (by omega), max_eq_right (by omega), max_eq_right (by omega)]
    congr 1
    omega

theorem two_days_of_spring :
    (Calendar.spring 100).rentalDayCount ((Zone.springForward 100).startOfLocalDay 99)
        ((Calendar.spring 100).addRentalDays ((Zone.springForward 100).startOfLocalDay 99) 2) = .ok 2 ∧
      (Calendar.spring 100).rentalDayCount ((Zone.springForward 100).startOfLocalDay 100)
        ((Calendar.spring 100).addRentalDays ((Zone.springForward 100).startOfLocalDay 100) 2) = .ok 2 :=
  ⟨(calendar_arithmetic _ (.spring 100)).1 99 2 (by decide), (calendar_arithmetic _ (.spring 100)).1 100 2 (by decide)⟩

/-- Two hires of a morning and an afternoon are a day each, and a day together. -/
theorem one_day_is_counted_twice : ∃ (z : Zone) (c : Calendar z) (s m e : Int), s ≤ m ∧ m ≤ e ∧
    c.rentalDayCount s m = .ok 1 ∧ c.rentalDayCount m e = .ok 1 ∧ c.rentalDayCount s e = .ok 1 := by
  refine ⟨Zone.springForward 100, .spring 100, 32400000, 43200000, 61200000, by decide, by decide, ?_, ?_, ?_⟩
  all_goals
    rw [Calendar.rentalDayCount_eq]
    decide

end RentalMarket.Core
