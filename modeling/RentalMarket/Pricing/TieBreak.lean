import RentalMarket.Pricing.OptimalQuote

namespace RentalMarket.Pricing

open RentalMarket.Core

/-- What some days cost when so many weeks are bought and the rest by the day. -/
def rowCost (week day : Int) (days weeks : Nat) : Int := week * weeks + day * (days - weeks * 7 : Nat)

def weeksOf (week day : Int) (days : Nat) : Nat :=
  if 0 < days % 7 ∧ week ≤ (days % 7 : Nat) * day then days / 7 + 1
  else if week ≤ 7 * day then days / 7
  else 0

section Row

variable {week day : Int} {days : Nat}

theorem rowCost_of_le {weeks : Nat} (h : weeks ≤ days / 7) :
    rowCost week day days weeks = day * days + (week - 7 * day) * weeks := by
  have hrest : ((days - weeks * 7 : Nat) : Int) = days - weeks * 7 := by omega
  rw [rowCost, hrest]
  ring

theorem rowCost_of_gt {weeks : Nat} (h : days ≤ weeks * 7) : rowCost week day days weeks = week * weeks := by
  rw [rowCost, Nat.sub_eq_zero_of_le h]
  simp

theorem weeksOf_le (week day : Int) (days : Nat) : weeksOf week day days ≤ (days + 6) / 7 := by
  unfold weeksOf
  split
  · omega
  · split <;> omega

section Cost

variable (week day : Int) (days : Nat)

theorem rowCost_floor : rowCost week day days (days / 7) = week * (days / 7 : Nat) + (days % 7 : Nat) * day := by
  have hdays : (days : Int) = 7 * (days / 7 : Nat) + (days % 7 : Nat) := by omega
  rw [rowCost_of_le (Nat.le_refl _), hdays]
  push_cast
  ring

theorem rowCost_ceil : rowCost week day days (days / 7 + 1) = week * (days / 7 : Nat) + week := by
  rw [rowCost_of_gt (by omega)]
  push_cast
  ring

end Cost

theorem rowCost_floor_le (h : week ≤ 7 * day) {weeks : Nat} (hweeks : weeks ≤ days / 7) :
    rowCost week day days (days / 7) ≤ rowCost week day days weeks := by
  rw [rowCost_of_le hweeks, rowCost_of_le (Nat.le_refl _)]
  have hless := mul_le_mul_of_nonpos_left (Int.ofNat_le.mpr hweeks) (show week - 7 * day ≤ 0 by omega)
  omega

/-- No number of weeks makes some days cheaper, and no more weeks as cheap. -/
theorem weeksOf_least (hday : 0 ≤ day) {weeks : Nat} (hweeks : weeks ≤ (days + 6) / 7) :
    rowCost week day days (weeksOf week day days) < rowCost week day days weeks ∨
      rowCost week day days (weeksOf week day days) = rowCost week day days weeks ∧
        weeks ≤ weeksOf week day days := by
  have hfloor := rowCost_floor week day days
  have hceil := rowCost_ceil week day days
  have hrest : ((days % 7 : Nat) : Int) * day ≤ 7 * day := by
    apply mul_le_mul_of_nonneg_right _ hday
    omega
  have hover {weeks : Nat} (h : ¬ weeks ≤ days / 7) (hweeks : weeks ≤ (days + 6) / 7) :
      weeks = days / 7 + 1 ∧ 0 < days % 7 := by omega
  unfold weeksOf
  by_cases hsave : 0 < days % 7 ∧ week ≤ (days % 7 : Nat) * day
  · rw [if_pos hsave]
    by_cases hle : weeks ≤ days / 7
    · have hmin := rowCost_floor_le (hsave.2.trans hrest) hle
      omega
    · obtain ⟨rfl, -⟩ := hover hle hweeks
      exact .inr ⟨rfl, Nat.le_refl _⟩
  · rw [if_neg hsave]
    by_cases hweek : week ≤ 7 * day
    · rw [if_pos hweek]
      by_cases hle : weeks ≤ days / 7
      · have hmin := rowCost_floor_le hweek hle
        omega
      · obtain ⟨rfl, hpos⟩ := hover hle hweeks
        have hdear : ¬ week ≤ (days % 7 : Nat) * day := fun h => hsave ⟨hpos, h⟩
        omega
    · -- a week is dearer than its days, and no number of them pays
      rw [if_neg hweek]
      have hzero : rowCost week day days 0 = day * days := by simp [rowCost]
      by_cases hnone : weeks = 0
      · subst hnone
        exact .inr ⟨rfl, Nat.le_refl _⟩
      · left
        rw [hzero]
        by_cases hle : weeks ≤ days / 7
        · have hpos : 0 < (week - 7 * day) * weeks := mul_pos (by omega) (by exact_mod_cast Nat.pos_of_ne_zero hnone)
          rw [rowCost_of_le hle]
          omega
        · obtain ⟨rfl, -⟩ := hover hle hweeks
          have hnonneg : 0 ≤ (week - 7 * day) * (days / 7 : Nat) := mul_nonneg (by omega) (by positivity)
          rw [rowCost_of_le (Nat.le_refl _)] at hfloor
          omega

theorem weeksOf_eq (week day : Int) (q : Nat) {r : Nat} (hr : r < 7) : weeksOf week day (7 * q + r) =
    if 0 < r ∧ week ≤ r * day then q + 1 else if week ≤ 7 * day then q else 0 := by
  have hmod : (7 * q + r) % 7 = r := by omega
  have hdiv : (7 * q + r) / 7 = q := by omega
  rw [weeksOf, hmod, hdiv]

theorem rowCost_weeksOf (week day : Int) (q : Nat) {r : Nat} (hr : r < 7) :
    rowCost week day (7 * q + r) (weeksOf week day (7 * q + r)) =
      if 0 < r ∧ week ≤ r * day then week * q + week
      else if week ≤ 7 * day then week * q + r * day
      else day * (7 * q + r : Nat) := by
  have hmod : (7 * q + r) % 7 = r := by omega
  have hdiv : (7 * q + r) / 7 = q := by omega
  have hfloor := rowCost_floor week day (7 * q + r)
  have hceil := rowCost_ceil week day (7 * q + r)
  rw [hmod, hdiv] at hfloor
  rw [hdiv] at hceil
  rw [weeksOf_eq week day q hr]
  split
  · exact hceil
  · split
    · exact hfloor
    · rw [rowCost, Nat.zero_mul, Nat.sub_zero, Nat.cast_zero, mul_zero, zero_add]

/-- Of a row of some days and one of three days fewer beside a weekend, both are as cheap and
the first has more weeks. -/
def RowsTie (weekend week day : Int) (days : Nat) : Prop :=
  weeksOf week day (days - 3) < weeksOf week day days ∧
    weekend + rowCost week day (days - 3) (weeksOf week day (days - 3)) =
      rowCost week day days (weeksOf week day days)

theorem rowsTie_iff {weekend : Int} (hweekend : 0 ≤ weekend) (hday : 0 ≤ day) (hdays : 1 ≤ days) :
    RowsTie weekend week day days ↔
      (1 ≤ days % 7 ∧ days % 7 ≤ 2 ∧ week = weekend ∧ week ≤ (days % 7 : Nat) * day) ∨
      (days % 7 ≤ 2 ∧ 7 ≤ days ∧ week = weekend + 4 * day ∧ (days % 7 : Nat) * day < weekend ∧
        weekend ≤ 3 * day) ∨
      (3 ≤ days % 7 ∧ week = weekend + (days % 7 - 3 : Nat) * day ∧ weekend ≤ 3 * day ∧
        (days % 7 = 3 ∨ 0 < weekend)) := by
  obtain ⟨q, r, hr, rfl⟩ : ∃ q r, r < 7 ∧ days = 7 * q + r :=
    ⟨days / 7, days % 7, Nat.mod_lt _ (by decide), by omega⟩
  have hmod : (7 * q + r) % 7 = r := by omega
  have hrest : 0 ≤ (r : Int) * day := mul_nonneg (by positivity) hday
  have hnorest : r = 0 → (r : Int) * day = 0 := by
    rintro rfl
    simp
  rw [hmod, RowsTie, rowCost_weeksOf week day q hr, weeksOf_eq week day q hr]
  by_cases hthree : 3 ≤ r
  · -- three days fewer leave the whole weeks as they are
    have hshort : 7 * q + r - 3 = 7 * q + (r - 3) := by omega
    have hless : r - 3 < 7 := by omega
    have hsplit : (r : Int) * day = (r - 3 : Nat) * day + 3 * day := by
      rw [← add_mul]
      congr 1
      omega
    have hfew : ((r - 3 : Nat) : Int) * day ≤ 3 * day := mul_le_mul_of_nonneg_right (by omega) hday
    have hnofew : r = 3 → ((r - 3 : Nat) : Int) * day = 0 := by
      rintro rfl
      simp
    rw [hshort, rowCost_weeksOf week day q hless, weeksOf_eq week day q hless]
    generalize ((r - 3 : Nat) : Int) * day = rest at *
    split_ifs <;> omega
  · cases q with
    | zero =>
      have hshort : 7 * 0 + r - 3 = 7 * 0 + 0 := by omega
      have hfew : (r : Int) * day ≤ 2 * day := mul_le_mul_of_nonneg_right (by omega) hday
      rw [hshort, rowCost_weeksOf week day 0 (by decide), weeksOf_eq week day 0 (by decide)]
      generalize (r : Int) * day = rest at *
      simp only [Nat.cast_zero, mul_zero, zero_mul, zero_add, add_zero, lt_irrefl, false_and, if_false, ite_self]
      split_ifs <;> omega
    | succ t =>
      -- three days fewer break a week
      have hshort : 7 * (t + 1) + r - 3 = 7 * t + (r + 4) := by omega
      have hless : r + 4 < 7 := by omega
      have hsplit : ((r + 4 : Nat) : Int) * day = r * day + 4 * day := by
        push_cast
        ring
      have hfew : (r : Int) * day ≤ 2 * day := mul_le_mul_of_nonneg_right (by omega) hday
      have hweeks : week * ((t + 1 : Nat) : Int) = week * t + week := by
        push_cast
        ring
      rw [hshort, rowCost_weeksOf week day t hless, weeksOf_eq week day t hless, hsplit, hweeks]
      generalize (r : Int) * day = rest at *
      split_ifs <;> omega

end Row

section Search

variable {rates : AvailableRates} {days : Nat} {best : Combination}

/-- Of two combinations the one that comes first has the weekend, or has as many weekends
and more weeks. -/
def Before (a b : UnitCounts) : Prop := b.weekend < a.weekend ∨ b.weekend = a.weekend ∧ b.week < a.week

theorem countdown_pairwise (limit : Nat) : (countdown limit).Pairwise (fun a b => b < a) := by
  rw [countdown, List.pairwise_reverse]
  exact List.pairwise_lt_range

theorem combinations_pairwise (days : Nat) (rates : AvailableRates) : (combinations days rates).Pairwise Before := by
  rw [combinations, List.pairwise_flatMap]
  constructor
  · intro weekends _
    rw [List.pairwise_map]
    exact (countdown_pairwise _).imp (fun h => .inr ⟨rfl, h⟩)
  · apply (countdown_pairwise _).imp
    intro a b hlt x hx y hy
    obtain ⟨_, _, rfl⟩ := List.mem_map.mp hx
    obtain ⟨_, _, rfl⟩ := List.mem_map.mp hy
    exact .inl hlt

theorem best_before (hbest : cheapestCombination days rates = .ok best) :
    best.cost.amount = costAmount rates best.counts ∧ best.counts ∈ combinations days rates ∧
      ∀ c ∈ combinations days rates, costAmount rates best.counts < costAmount rates c ∨
        costAmount rates best.counts = costAmount rates c ∧ (c = best.counts ∨ Before best.counts c) := by
  obtain ⟨-, hpriced, pre, post, hfirst⟩ := cheapestCombination_eq_ok hbest
  refine ⟨by rw [hpriced]; rfl, hfirst.mem, ?_⟩
  intro c hc
  obtain hlt | heq := lt_or_eq_of_le (hfirst.le hc)
  · exact .inl hlt
  · refine .inr ⟨heq, ?_⟩
    obtain hsame | hpost := hfirst.not_before hc heq.symm
    · exact .inl hsame
    · have hpairwise := combinations_pairwise days rates
      rw [hfirst.cut] at hpairwise
      have hafter := (List.pairwise_append.mp hpairwise).2.1
      exact .inr ((List.pairwise_cons.mp hafter).1 c hpost)

/-- Among the combinations that cost as little, none has more weeks, or as many and more
weekends. -/
def LargestUnits (rates : AvailableRates) (days : Nat) (best : Combination) : Prop :=
  ∀ c ∈ combinations days rates, costAmount rates c = best.cost.amount →
    c.week < best.counts.week ∨ c.week = best.counts.week ∧ c.weekend ≤ best.counts.weekend

/-- A weekend and some days cost exactly what one week more does, in place of them, and are
as cheap as any cover. -/
def WeekendForWeek (rates : AvailableRates) (days : Nat) : Prop :=
  ∃ weekend ∈ rates.weekend, ∃ week ∈ rates.week,
    (1 ≤ days % 7 ∧ days % 7 ≤ 2 ∧ week.amount = weekend.amount ∧
      week.amount ≤ (days % 7 : Nat) * rates.day.amount) ∨
    (days % 7 ≤ 2 ∧ 7 ≤ days ∧ week.amount = weekend.amount + 4 * rates.day.amount ∧
      (days % 7 : Nat) * rates.day.amount < weekend.amount ∧ weekend.amount ≤ 3 * rates.day.amount) ∨
    (3 ≤ days % 7 ∧ week.amount = weekend.amount + (days % 7 - 3 : Nat) * rates.day.amount ∧
      weekend.amount ≤ 3 * rates.day.amount ∧ (days % 7 = 3 ∨ 0 < weekend.amount))

theorem largestUnits_of_none (hbest : cheapestCombination days rates = .ok best)
    (hnone : rates.weekend = none ∨ rates.week = none) : LargestUnits rates days best := by
  obtain ⟨hcost, hmem, hbefore⟩ := best_before hbest
  intro c hc hsame
  obtain hlt | ⟨-, rfl | horder⟩ := hbefore c hc
  · omega
  · exact .inr ⟨rfl, Nat.le_refl _⟩
  · obtain ⟨hweekend, hweek, -⟩ := mem_combinations_iff.mp hmem
    obtain ⟨hweekend', hweek', -⟩ := mem_combinations_iff.mp hc
    obtain hnone | hnone := hnone
    · simp only [hnone, Option.isNone_none, if_true] at hweekend hweekend'
      obtain hless | ⟨heq, hless⟩ := horder
      · omega
      · exact .inl hless
    · simp only [hnone, Option.isNone_none, if_true] at hweek hweek'
      obtain hless | ⟨heq, hless⟩ := horder
      · exact .inr ⟨by omega, hless.le⟩
      · omega

section Both

variable {weekend week : Money} (hweekend : rates.weekend = some weekend) (hweek : rates.week = some week)

include hweekend hweek

theorem mem_combinations_both {c : UnitCounts} : c ∈ combinations days rates ↔
    c.weekend ≤ 1 ∧ c.week ≤ (days - c.weekend * 3 + 6) / 7 ∧ c.day = days - c.weekend * 3 - c.week * 7 := by
  rw [mem_combinations_iff, hweekend, hweek]
  rfl

theorem costAmount_both {c : UnitCounts} (hc : c ∈ combinations days rates) :
    costAmount rates c =
      weekend.amount * c.weekend + rowCost week.amount rates.day.amount (days - c.weekend * 3) c.week := by
  obtain ⟨-, -, hday⟩ := (mem_combinations_both hweekend hweek).mp hc
  rw [costAmount, rowCost, hday, AvailableRates.amountOf, AvailableRates.amountOf, AvailableRates.amountOf, hweekend,
    hweek]
  simp only [Option.elim]
  ring

theorem best_week (hday : 0 ≤ rates.day.amount) (hbest : cheapestCombination days rates = .ok best) :
    best.counts.week = weeksOf week.amount rates.day.amount (days - best.counts.weekend * 3) := by
  obtain ⟨hcost, hmem, hbefore⟩ := best_before hbest
  obtain ⟨honce, hlimit, hrest⟩ := (mem_combinations_both hweekend hweek).mp hmem
  have hrow : ⟨days - best.counts.weekend * 3 -
      weeksOf week.amount rates.day.amount (days - best.counts.weekend * 3) * 7, best.counts.weekend,
      weeksOf week.amount rates.day.amount (days - best.counts.weekend * 3)⟩ ∈ combinations days rates :=
    (mem_combinations_both hweekend hweek).mpr ⟨honce, weeksOf_le _ _ _, rfl⟩
  have hleast := @weeksOf_least week.amount rates.day.amount _ hday _ hlimit
  have hafter := hbefore _ hrow
  rw [costAmount_both hweekend hweek hmem, costAmount_both hweekend hweek hrow] at hafter
  obtain hlt | ⟨heq, hsame | hless | ⟨-, hless⟩⟩ := hafter
  · simp only at hlt
    omega
  · rw [← hsame]
  · exact absurd hless (lt_irrefl _)
  · simp only at heq hless
    omega

theorem largestUnits_iff_not_rowsTie (hday : 0 ≤ rates.day.amount)
    (hbest : cheapestCombination days rates = .ok best) :
    LargestUnits rates days best ↔ ¬ RowsTie weekend.amount week.amount rates.day.amount days := by
  obtain ⟨hcost, hmem, hbefore⟩ := best_before hbest
  have hbestWeek := best_week hweekend hweek hday hbest
  have hbestCost := costAmount_both hweekend hweek hmem
  have honce := ((mem_combinations_both hweekend hweek).mp hmem).1
  -- the cheapest of the row with no weekend
  let plain : UnitCounts := ⟨days - weeksOf week.amount rates.day.amount days * 7, 0,
    weeksOf week.amount rates.day.amount days⟩
  have hplain : plain ∈ combinations days rates :=
    (mem_combinations_both hweekend hweek).mpr ⟨Nat.zero_le _, weeksOf_le _ _ _, rfl⟩
  have hplainCost : costAmount rates plain =
      rowCost week.amount rates.day.amount days (weeksOf week.amount rates.day.amount days) := by
    rw [costAmount_both hweekend hweek hplain]
    simp [plain]
  obtain hnone | hone : best.counts.weekend = 0 ∨ best.counts.weekend = 1 := by omega
  · rw [hnone, Nat.zero_mul, Nat.sub_zero] at hbestWeek hbestCost
    rw [hbestWeek, Nat.cast_zero, mul_zero, zero_add] at hbestCost
    constructor
    · -- the cheapest with the weekend would have come first
      rintro - ⟨-, htie⟩
      have hrow : ⟨days - 1 * 3 - weeksOf week.amount rates.day.amount (days - 1 * 3) * 7, 1,
          weeksOf week.amount rates.day.amount (days - 1 * 3)⟩ ∈ combinations days rates :=
        (mem_combinations_both hweekend hweek).mpr ⟨Nat.le_refl _, weeksOf_le _ _ _, rfl⟩
      have hafter := hbefore _ hrow
      rw [costAmount_both hweekend hweek hrow, hbestCost] at hafter
      simp only [Nat.one_mul, Nat.cast_one, mul_one] at hafter
      obtain hlt | ⟨-, hsame | hless | ⟨heq, -⟩⟩ := hafter
      · omega
      · rw [← hsame] at hnone
        cases hnone
      · simp only at hless
        omega
      · simp only at heq
        omega
    · intro _ c hc hsame
      obtain hlt | ⟨-, rfl | hless | ⟨heq, hless⟩⟩ := hbefore c hc
      · omega
      · exact .inr ⟨rfl, Nat.le_refl _⟩
      · omega
      · exact .inl hless
  · rw [hone, Nat.one_mul] at hbestWeek hbestCost
    rw [hbestWeek, Nat.cast_one, mul_one] at hbestCost
    constructor
    · rintro hlargest ⟨hmore, htie⟩
      have hplainWeek := hlargest plain hplain (by rw [hplainCost, hcost, hbestCost, htie])
      simp only [plain] at hplainWeek
      omega
    · intro hnot c hc hsame
      obtain hlt | ⟨-, rfl | hless | ⟨heq, hless⟩⟩ := hbefore c hc
      · omega
      · exact .inr ⟨rfl, Nat.le_refl _⟩
      · by_cases hfew : c.week ≤ best.counts.week
        · obtain hlt | heq := Nat.lt_or_eq_of_le hfew
          · exact .inl hlt
          · exact .inr ⟨heq, hless.le⟩
        · -- more weeks for the same money: the two rows tie
          have hnoWeekend : c.weekend = 0 := by omega
          have hcCost := costAmount_both hweekend hweek hc
          have hlimit := ((mem_combinations_both hweekend hweek).mp hc).2.1
          rw [hnoWeekend, Nat.zero_mul, Nat.sub_zero] at hcCost hlimit
          rw [Nat.cast_zero, mul_zero, zero_add] at hcCost
          have hafter := hbefore plain hplain
          obtain hlt | ⟨heq, hmost⟩ := @weeksOf_least week.amount rates.day.amount _ hday _ hlimit
          · omega
          · exact absurd ⟨by omega, by omega⟩ hnot
      · exact .inl hless

end Both

theorem largestUnits_iff_not_weekendForWeek (hnonneg : ∀ unit, 0 ≤ rates.amountOf unit) (hdays : 1 ≤ days)
    (hbest : cheapestCombination days rates = .ok best) :
    LargestUnits rates days best ↔ ¬ WeekendForWeek rates days := by
  cases hweekend : rates.weekend with
  | none =>
    apply iff_of_true (largestUnits_of_none hbest (.inl hweekend))
    rintro ⟨_, hset, -⟩
    rw [hweekend] at hset
    cases hset
  | some weekend =>
    cases hweek : rates.week with
    | none =>
      apply iff_of_true (largestUnits_of_none hbest (.inr hweek))
      rintro ⟨_, -, _, hset, -⟩
      rw [hweek] at hset
      cases hset
    | some week =>
      have hday : 0 ≤ rates.day.amount := hnonneg .day
      have hpos : 0 ≤ weekend.amount := by
        have h := hnonneg .weekend
        rw [AvailableRates.amountOf, hweekend] at h
        exact h
      rw [largestUnits_iff_not_rowsTie hweekend hweek hday hbest, rowsTie_iff hpos hday hdays, WeekendForWeek,
        hweekend, hweek]
      simp only [Option.mem_some_iff, exists_eq_left']

end Search

def tiedRates : AvailableRates := ⟨⟨1000, .gbp⟩, some ⟨3000, .gbp⟩, some ⟨7000, .gbp⟩⟩

/-- Seven days from a Friday: a weekend and four days, where a week is the same money. -/
theorem a_weekend_is_listed_for_a_week : ∃ best, cheapestCombination 7 tiedRates = .ok best ∧
    best = ⟨⟨4, 1, 0⟩, ⟨7000, .gbp⟩⟩ ∧ ⟨0, 0, 1⟩ ∈ combinations 7 tiedRates ∧
      costAmount tiedRates ⟨0, 0, 1⟩ = best.cost.amount :=
  ⟨⟨⟨4, 1, 0⟩, ⟨7000, .gbp⟩⟩, by decide +kernel, rfl, by decide +kernel, by decide +kernel⟩

/-- Ten days at the same rates are listed as a week and a weekend, and no cover for that
money has a larger unit. -/
theorem ten_days_are_a_week_and_a_weekend : LargestUnits tiedRates 10 ⟨⟨0, 1, 1⟩, ⟨10000, .gbp⟩⟩ := by
  apply (largestUnits_iff_not_weekendForWeek (by intro unit; cases unit <;> decide) (by decide)
    (by decide +kernel)).mpr
  rintro ⟨weekend, hweekend, week, hweek, h⟩
  cases hweekend
  cases hweek
  revert h
  decide

end RentalMarket.Pricing
