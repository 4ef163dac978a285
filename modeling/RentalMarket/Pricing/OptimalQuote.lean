import RentalMarket.Lib.FirstMin
import RentalMarket.Pricing.Cheapest

namespace RentalMarket.Pricing

open RentalMarket.Core

section Search

variable {rates : AvailableRates} {days : Nat} {counts : UnitCounts}

theorem rateFor_eq_ok {unit : RentalUnit} {rate : Money} (h : rateFor rates unit = .ok rate) :
    rate = ⟨rates.amountOf unit, rates.day.currency⟩ := by
  have hcurrency (m : Money) : m = ⟨m.amount, rates.day.currency⟩ := by
    ext
    · rfl
    · cases m.currency
      cases rates.day.currency
      rfl
  cases unit with
  | day =>
    cases h
    rfl
  | weekend =>
    rw [rateFor] at h
    cases hweekend : rates.weekend with
    | none =>
      rw [hweekend] at h
      cases h
    | some m =>
      rw [hweekend] at h
      cases h
      rw [AvailableRates.amountOf, hweekend]
      exact hcurrency rate
  | week =>
    rw [rateFor] at h
    cases hweek : rates.week with
    | none =>
      rw [hweek] at h
      cases h
    | some m =>
      rw [hweek] at h
      cases h
      rw [AvailableRates.amountOf, hweek]
      exact hcurrency rate

theorem part_eq_ok {unit : RentalUnit} {part : Money}
    (h : (rateFor rates unit).bind (fun rate => Money.times rate (counts.of unit)) = .ok part) :
    part = ⟨rates.amountOf unit * counts.of unit, rates.day.currency⟩ := by
  obtain ⟨rate, hrate, hpart⟩ := Refusal.bind_eq_ok.mp h
  rw [rateFor_eq_ok hrate] at hpart
  exact Money.money_eq_ok hpart

theorem total_parts (rates : AvailableRates) (counts : UnitCounts) :
    Money.total ((unitsOf counts).map (fun unit =>
      (⟨rates.amountOf unit * counts.of unit, rates.day.currency⟩ : Money))) = costAmount rates counts := by
  rw [Money.total, List.map_map]
  exact sum_unitsOf counts rates.amountOf

theorem costOf_eq_ok {cost : Money} (h : costOf rates counts = .ok cost) :
    cost = ⟨costAmount rates counts, rates.day.currency⟩ ∧ costAmount rates counts ≤ Money.maxSafeInteger := by
  obtain ⟨parts, hparts, hsum⟩ := Refusal.bind_eq_ok.mp h
  have hmap := Refusal.mapM_eq_ok (fun unit _ part hpart => part_eq_ok hpart) hparts
  have hcost := Money.sum_eq_ok hsum
  have hsafe := Money.sum_safe hsum
  rw [hmap, total_parts] at hcost hsafe
  exact ⟨hcost, hsafe⟩

theorem le_costAmount_of (hnonneg : ∀ unit, 0 ≤ rates.amountOf unit) (counts : UnitCounts) (unit : RentalUnit) :
    rates.amountOf unit * counts.of unit ≤ costAmount rates counts := by
  have hday : 0 ≤ rates.amountOf .day * counts.day := mul_nonneg (hnonneg .day) (by positivity)
  have hweekend : 0 ≤ rates.amountOf .weekend * counts.weekend := mul_nonneg (hnonneg .weekend) (by positivity)
  have hweek : 0 ≤ rates.amountOf .week * counts.week := mul_nonneg (hnonneg .week) (by positivity)
  unfold costAmount
  cases unit <;> simp only [UnitCounts.of] <;> omega

theorem mem_combinations_iff : counts ∈ combinations days rates ↔
    counts.weekend ≤ (if rates.weekend.isNone then 0 else 1) ∧
      counts.week ≤ (if rates.week.isNone then 0 else (days - counts.weekend * 3 + 6) / 7) ∧
        counts.day = days - counts.weekend * 3 - counts.week * 7 := by
  simp only [combinations, List.mem_flatMap, List.mem_map, mem_countdown, RentalUnit.days]
  constructor
  · rintro ⟨weekends, hweekends, weeks, hweeks, rfl⟩
    exact ⟨hweekends, hweeks, rfl⟩
  · rintro ⟨hweekends, hweeks, hday⟩
    refine ⟨counts.weekend, hweekends, counts.week, hweeks, ?_⟩
    rw [← hday]

theorem exists_combination_le (hnonneg : ∀ unit, 0 ≤ rates.amountOf unit)
    (hcovers : days ≤ 7 * counts.week + 3 * counts.weekend + counts.day)
    (hweekend : counts.weekend ≤ if rates.weekend.isNone then 0 else 1)
    (hweek : rates.week.isNone → counts.week = 0) :
    ∃ c ∈ combinations days rates, costAmount rates c ≤ costAmount rates counts := by
  let limit := if rates.week.isNone then 0 else (days - counts.weekend * 3 + 6) / 7
  have hbeyond : counts.week ≤ limit ∨ days ≤ 7 * limit + 3 * counts.weekend := by
    by_cases hnone : rates.week.isNone
    · exact .inl (by rw [hweek hnone]; exact Nat.zero_le _)
    · right
      simp only [limit, if_neg hnone]
      omega
  refine ⟨⟨days - counts.weekend * 3 - min counts.week limit * 7, counts.weekend, min counts.week limit⟩,
    mem_combinations_iff.mpr ⟨hweekend, Nat.min_le_right _ _, rfl⟩, ?_⟩
  have hfewer : min counts.week limit ≤ counts.week := Nat.min_le_left _ _
  have hdays : days - counts.weekend * 3 - min counts.week limit * 7 ≤ counts.day := by omega
  unfold costAmount
  have h₁ := mul_le_mul_of_nonneg_left (Int.ofNat_le.mpr hfewer) (hnonneg .week)
  have h₂ := mul_le_mul_of_nonneg_left (Int.ofNat_le.mpr hdays) (hnonneg .day)
  dsimp only
  omega

theorem rateFor_of_unitsOf (hmem : counts ∈ combinations days rates) {unit : RentalUnit}
    (hused : unit ∈ unitsOf counts) : rateFor rates unit = .ok ⟨rates.amountOf unit, rates.day.currency⟩ := by
  have hfeasible := mem_combinations hmem
  have hpos : 0 < counts.of unit := by simpa using (List.mem_filter.mp hused).2
  have hset : ∃ rate, rateFor rates unit = .ok rate := by
    cases unit with
    | day => exact ⟨_, rfl⟩
    | weekend =>
      obtain ⟨rate, hrate⟩ := Option.isSome_iff_exists.mp (hfeasible.weekendRate hpos)
      exact ⟨rate, by rw [rateFor, hrate]; rfl⟩
    | week =>
      obtain ⟨rate, hrate⟩ := Option.isSome_iff_exists.mp (hfeasible.weekRate hpos)
      exact ⟨rate, by rw [rateFor, hrate]; rfl⟩
  obtain ⟨rate, hrate⟩ := hset
  rw [hrate, rateFor_eq_ok hrate]

section Safe

variable (hnonneg : ∀ unit, 0 ≤ rates.amountOf unit) (hmem : counts ∈ combinations days rates)
  (hsafe : costAmount rates counts ≤ Money.maxSafeInteger)

include hnonneg hsafe

theorem times_of_safe (unit : RentalUnit) :
    Money.times ⟨rates.amountOf unit, rates.day.currency⟩ (counts.of unit) =
      .ok ⟨rates.amountOf unit * counts.of unit, rates.day.currency⟩ := by
  have hle := le_costAmount_of hnonneg counts unit
  have hpos : 0 ≤ rates.amountOf unit * counts.of unit := mul_nonneg (hnonneg unit) (by positivity)
  rw [Money.times, Money.money, if_pos]
  simp only [Money.maxSafeInteger] at hsafe ⊢
  omega

include hmem

theorem costOf_of_safe : costOf rates counts = .ok ⟨costAmount rates counts, rates.day.currency⟩ := by
  have hparts : (unitsOf counts).mapM (fun unit =>
      (rateFor rates unit).bind (fun rate => Money.times rate (counts.of unit))) =
      .ok ((unitsOf counts).map (fun unit => ⟨rates.amountOf unit * counts.of unit, rates.day.currency⟩)) := by
    apply Refusal.mapM_ok
    intro unit hused
    rw [rateFor_of_unitsOf hmem hused]
    exact times_of_safe hnonneg hsafe unit
  rw [costOf, hparts, ← total_parts]
  apply Money.sum_ok
  · intro m hm
    obtain ⟨unit, -, rfl⟩ := List.mem_map.mp hm
    exact ⟨rfl, mul_nonneg (hnonneg unit) (by positivity)⟩
  · rw [total_parts]
    exact hsafe

end Safe

def priced (rates : AvailableRates) (counts : UnitCounts) : Combination :=
  ⟨counts, costAmount rates counts, rates.day.currency⟩

theorem cheaper_priced (best : Option UnitCounts)
    (hcost : costOf rates counts = .ok ⟨costAmount rates counts, rates.day.currency⟩) :
    cheaper rates (best.map (priced rates)) counts =
      .ok (some (priced rates (best.elim counts (fun b =>
        if costAmount rates counts < costAmount rates b then counts else b)))) := by
  rw [cheaper, hcost]
  cases best with
  | none => rfl
  | some b =>
    simp only [Except.bind, Option.map_some, priced, Money.lessThan, if_true, Option.elim]
    by_cases hless : costAmount rates counts < costAmount rates b
    · simp only [hless, decide_true, if_true]
    · simp only [hless, decide_false, Bool.false_eq_true, if_false]

theorem foldlM_cheaper_eq {combos : List UnitCounts} (best : Option UnitCounts)
    (hcost : ∀ c ∈ combos, costOf rates c = .ok ⟨costAmount rates c, rates.day.currency⟩) :
    combos.foldlM (cheaper rates) (best.map (priced rates)) =
      .ok ((firstMin (costAmount rates) best combos).map (priced rates)) := by
  induction combos generalizing best with
  | nil => cases best <;> rfl
  | cons c combos ih =>
    obtain ⟨hc, hrest⟩ := List.forall_mem_cons.mp hcost
    rw [List.foldlM_cons, cheaper_priced best hc]
    cases best with
    | none => exact ih (some c) hrest
    | some b => exact ih (some (if costAmount rates c < costAmount rates b then c else b)) hrest

theorem costOf_of_foldlM {combos : List UnitCounts} {best chosen : Option Combination}
    (h : combos.foldlM (cheaper rates) best = .ok chosen) :
    ∀ c ∈ combos, costOf rates c = .ok ⟨costAmount rates c, rates.day.currency⟩ := by
  induction combos generalizing best with
  | nil => exact nofun
  | cons c combos ih =>
    rw [List.foldlM_cons] at h
    obtain ⟨next, hnext, h⟩ := Refusal.bind_eq_ok.mp h
    obtain ⟨cost, hcost, -⟩ := Refusal.bind_eq_ok.mp hnext
    refine List.forall_mem_cons.mpr ⟨?_, ih h⟩
    rw [hcost, (costOf_eq_ok hcost).1]

theorem cheapestCombination_eq_ok {best : Combination} (h : cheapestCombination days rates = .ok best) :
    (∀ c ∈ combinations days rates, costOf rates c = .ok ⟨costAmount rates c, rates.day.currency⟩) ∧
      best = priced rates best.counts ∧
        ∃ pre post, FirstMin.First (costAmount rates) (combinations days rates) best.counts pre post := by
  obtain ⟨chosen, hchosen, hbest⟩ := Refusal.bind_eq_ok.mp h
  have hcost := costOf_of_foldlM hchosen
  have hloop := foldlM_cheaper_eq none hcost
  rw [Option.map_none, hchosen] at hloop
  cases hloop
  cases hfirst : firstMin (costAmount rates) none (combinations days rates) with
  | none =>
    rw [hfirst] at hbest
    cases hbest
  | some counts =>
    rw [hfirst] at hbest
    cases hbest
    exact ⟨hcost, rfl, FirstMin.of_none hfirst⟩

theorem cheapestCombination_of_safe (hnonneg : ∀ unit, 0 ≤ rates.amountOf unit)
    (hsafe : ∀ c ∈ combinations days rates, costAmount rates c ≤ Money.maxSafeInteger) :
    ∃ best, cheapestCombination days rates = .ok best := by
  have hcost : ∀ c ∈ combinations days rates, costOf rates c = .ok ⟨costAmount rates c, rates.day.currency⟩ :=
    fun c hc => costOf_of_safe hnonneg hc (hsafe c hc)
  have hloop := foldlM_cheaper_eq none hcost
  obtain ⟨counts, hcounts⟩ := FirstMin.isSome_of_ne_nil (costAmount rates)
    (List.ne_nil_of_mem (days_mem_combinations days rates))
  rw [Option.map_none, hcounts] at hloop
  exact ⟨priced rates counts, by rw [cheapestCombination, hloop]; rfl⟩

theorem toLineItems_of_safe {best : Combination} (hnonneg : ∀ unit, 0 ≤ rates.amountOf unit)
    (hmem : best.counts ∈ combinations days rates)
    (hsafe : costAmount rates best.counts ≤ Money.maxSafeInteger) : toLineItems best rates =
      .ok ((unitsOf best.counts).map (fun unit => ⟨unit, best.counts.of unit,
        ⟨rates.amountOf unit, rates.day.currency⟩,
        ⟨rates.amountOf unit * best.counts.of unit, rates.day.currency⟩⟩)) := by
  apply Refusal.mapM_ok
  intro unit hused
  rw [rateFor_of_unitsOf hmem hused]
  simp only [Except.bind]
  rw [times_of_safe hnonneg hsafe unit]
  rfl

end Search

def ListingRateCard.amountOf (rates : ListingRateCard) : RentalUnit → Int
  | .day => rates.daily.elim 0 (·.amount)
  | .weekend => rates.weekend.elim 0 (·.amount)
  | .week => rates.weekly.elim 0 (·.amount)

def ListingRateCard.charge (rates : ListingRateCard) (counts : UnitCounts) : Int :=
  rates.amountOf .week * counts.week + rates.amountOf .weekend * counts.weekend +
    rates.amountOf .day * counts.day

/-- Units that cover a hire of some days: weeks at a weekly rate, and a weekend, one at
most, at a weekend rate and from a Friday. -/
structure Covers (rates : ListingRateCard) (startsOnWeekday days : Int) (counts : UnitCounts) : Prop where
  days : days ≤ 7 * counts.week + 3 * counts.weekend + counts.day
  week : rates.weekly = none → counts.week = 0
  once : counts.weekend ≤ 1
  friday : rates.weekend = none ∨ startsOnWeekday ≠ weekendStartWeekday → counts.weekend = 0

def ListingRateCard.lineItems (rates : ListingRateCard) (counts : UnitCounts) : List QuoteLineItem :=
  (unitsOf counts).map (fun unit => ⟨unit, counts.of unit, ⟨rates.amountOf unit, .gbp⟩,
    ⟨rates.amountOf unit * counts.of unit, .gbp⟩⟩)

/-- The charge is the least of any cover, and the rows are those of a cover that costs as little. -/
structure RentalUnits.Cheapest (units : RentalUnits) (rates : ListingRateCard) (startsOnWeekday days : Int)
    (counts : UnitCounts) : Prop where
  covers : Covers rates startsOnWeekday days counts
  least : ∀ other, Covers rates startsOnWeekday days other → rates.charge counts ≤ rates.charge other
  itemCharge : units.itemCharge.amount = rates.charge counts
  lineItems : units.lineItems = rates.lineItems counts

def availableRates (daily : Money) (rates : ListingRateCard) (startsOnWeekday : Int) : AvailableRates :=
  ⟨daily, if startsOnWeekday = weekendStartWeekday then rates.weekend else none, rates.weekly⟩

section Card

variable {rates : ListingRateCard} {daily : Money} {days startsOnWeekday : Int} {units : RentalUnits}
  {counts : UnitCounts}

theorem checkedRate_eq_ok {rate checked : Option Money} (h : checkedRate rate = .ok checked) : checked = rate := by
  cases rate with
  | none =>
    cases h
    rfl
  | some m =>
    obtain ⟨m', hm', rfl⟩ := Refusal.map_eq_ok.mp h
    rw [Money.money_eq_ok hm']

theorem toAvailableRates_eq_ok {available : AvailableRates}
    (h : toAvailableRates daily rates startsOnWeekday = .ok available) :
    available = availableRates daily rates startsOnWeekday := by
  obtain ⟨day, hday, h⟩ := Refusal.bind_eq_ok.mp h
  obtain ⟨weekend, hweekend, h⟩ := Refusal.bind_eq_ok.mp h
  obtain ⟨week, hweek, h⟩ := Refusal.bind_eq_ok.mp h
  cases h
  rw [Money.money_eq_ok hday, checkedRate_eq_ok hweekend, checkedRate_eq_ok hweek, availableRates]

theorem availableRates_nonneg (hdaily : rates.daily = some daily) (hnonneg : ∀ unit, 0 ≤ rates.amountOf unit)
    (startsOnWeekday : Int) (unit : RentalUnit) :
    0 ≤ (availableRates daily rates startsOnWeekday).amountOf unit := by
  cases unit with
  | day =>
    have h := hnonneg .day
    rw [ListingRateCard.amountOf, hdaily] at h
    exact h
  | weekend =>
    by_cases hfriday : startsOnWeekday = weekendStartWeekday
    · simp only [availableRates, AvailableRates.amountOf, if_pos hfriday]
      exact hnonneg .weekend
    · simp [availableRates, AvailableRates.amountOf, if_neg hfriday]
  | week => exact hnonneg .week

theorem costAmount_availableRates (hdaily : rates.daily = some daily)
    (hfriday : startsOnWeekday ≠ weekendStartWeekday → counts.weekend = 0) :
    costAmount (availableRates daily rates startsOnWeekday) counts = rates.charge counts := by
  have hday : rates.amountOf .day = daily.amount := by
    rw [ListingRateCard.amountOf, hdaily]
    rfl
  by_cases h : startsOnWeekday = weekendStartWeekday
  · simp only [costAmount, ListingRateCard.charge, availableRates, AvailableRates.amountOf, if_pos h, hday]
    rfl
  · simp only [costAmount, ListingRateCard.charge, availableRates, AvailableRates.amountOf, if_neg h, hday,
      hfriday h, Nat.cast_zero, mul_zero]
    rfl

theorem covers_of_mem {n : Nat} (h : counts ∈ combinations n (availableRates daily rates startsOnWeekday)) :
    Covers rates startsOnWeekday n counts := by
  have hfeasible := mem_combinations h
  refine ⟨?_, ?_, hfeasible.weekend, ?_⟩
  · have := hfeasible.covers
    omega
  · intro hnone
    by_contra hne
    have hsome := hfeasible.weekRate (Nat.pos_of_ne_zero hne)
    rw [availableRates, hnone] at hsome
    cases hsome
  · intro hnone
    by_contra hne
    have hsome := hfeasible.weekendRate (Nat.pos_of_ne_zero hne)
    by_cases hfriday : startsOnWeekday = weekendStartWeekday
    · obtain hnone | hother := hnone
      · rw [availableRates, if_pos hfriday, hnone] at hsome
        cases hsome
      · exact hother hfriday
    · rw [availableRates, if_neg hfriday] at hsome
      cases hsome

theorem exists_combination_of_covers (hdaily : rates.daily = some daily)
    (hnonneg : ∀ unit, 0 ≤ rates.amountOf unit) {n : Nat} (hcovers : Covers rates startsOnWeekday n counts) :
    ∃ c ∈ combinations n (availableRates daily rates startsOnWeekday), rates.charge c ≤ rates.charge counts := by
  have hfriday : startsOnWeekday ≠ weekendStartWeekday → counts.weekend = 0 := fun h => hcovers.friday (.inr h)
  have hweekend : counts.weekend ≤ if (availableRates daily rates startsOnWeekday).weekend.isNone then 0 else 1 := by
    split
    · rename_i hnone
      rw [hcovers.friday]
      by_cases h : startsOnWeekday = weekendStartWeekday
      · rw [availableRates, if_pos h] at hnone
        exact .inl (Option.isNone_iff_eq_none.mp hnone)
      · exact .inr h
    · exact hcovers.once
  have hdays : n ≤ 7 * counts.week + 3 * counts.weekend + counts.day := by
    have := hcovers.days
    omega
  obtain ⟨c, hc, hle⟩ := exists_combination_le (availableRates_nonneg hdaily hnonneg startsOnWeekday) hdays hweekend
    (fun hnone => hcovers.week (Option.isNone_iff_eq_none.mp hnone))
  rw [costAmount_availableRates hdaily hfriday,
    costAmount_availableRates hdaily (fun h => (covers_of_mem hc).friday (.inr h))] at hle
  exact ⟨c, hc, hle⟩

theorem amountOf_used {n : Int} (hdaily : rates.daily = some daily) (hcovers : Covers rates startsOnWeekday n counts)
    {unit : RentalUnit} (hused : unit ∈ unitsOf counts) :
    (availableRates daily rates startsOnWeekday).amountOf unit = rates.amountOf unit := by
  have hpos : 0 < counts.of unit := by simpa using (List.mem_filter.mp hused).2
  cases unit with
  | day =>
    rw [ListingRateCard.amountOf, hdaily]
    rfl
  | weekend =>
    by_cases hfriday : startsOnWeekday = weekendStartWeekday
    · simp only [availableRates, AvailableRates.amountOf, ListingRateCard.amountOf, if_pos hfriday]
    · exact absurd (hcovers.friday (.inr hfriday)) (Nat.pos_iff_ne_zero.mp hpos)
  | week => rfl

/-- What is returned is the cheapest cover there is. -/
theorem cheapest_of_chooseCheapestUnits (hdaily : rates.daily = some daily)
    (hnonneg : ∀ unit, 0 ≤ rates.amountOf unit) (hdays : 1 ≤ days)
    (h : chooseCheapestUnits days startsOnWeekday rates = .ok (some units)) :
    (∃ counts, units.Cheapest rates startsOnWeekday days counts) ∧
      ∀ c ∈ combinations days.toNat (availableRates daily rates startsOnWeekday),
        rates.charge c ≤ Money.maxSafeInteger := by
  simp only [chooseCheapestUnits, hdaily, if_neg (Int.not_lt.mpr hdays)] at h
  obtain ⟨available, havailable, h⟩ := Refusal.bind_eq_ok.mp h
  obtain ⟨best, hbest, h⟩ := Refusal.bind_eq_ok.mp h
  obtain ⟨items, hitems, h⟩ := Refusal.map_eq_ok.mp h
  cases h
  obtain ⟨n, rfl⟩ := Int.eq_ofNat_of_zero_le (show 0 ≤ days by omega)
  cases toAvailableRates_eq_ok havailable
  rw [Int.toNat_natCast] at hbest ⊢
  obtain ⟨hcost, hpriced, pre, post, hfirst⟩ := cheapestCombination_eq_ok hbest
  have hcharge {c : UnitCounts} (hc : c ∈ combinations n (availableRates daily rates startsOnWeekday)) :
      costAmount (availableRates daily rates startsOnWeekday) c = rates.charge c :=
    costAmount_availableRates hdaily (fun hfriday => (covers_of_mem hc).friday (.inr hfriday))
  have hsafe {c : UnitCounts} (hc : c ∈ combinations n (availableRates daily rates startsOnWeekday)) :
      costAmount (availableRates daily rates startsOnWeekday) c ≤ Money.maxSafeInteger := (costOf_eq_ok (hcost c hc)).2
  constructor
  · refine ⟨best.counts, covers_of_mem hfirst.mem, ?_, ?_, ?_⟩
    · intro other hother
      obtain ⟨c, hc, hle⟩ := exists_combination_of_covers hdaily hnonneg hother
      have hmin := hfirst.le hc
      rw [hcharge hfirst.mem, hcharge hc] at hmin
      exact hmin.trans hle
    · rw [← hcharge hfirst.mem, hpriced]
      rfl
    · have hrows := hitems.symm.trans (toLineItems_of_safe
        (availableRates_nonneg hdaily hnonneg startsOnWeekday) hfirst.mem (hsafe hfirst.mem))
      cases hrows
      apply List.map_congr_left
      intro unit hused
      rw [amountOf_used hdaily (covers_of_mem hfirst.mem) hused]
  · intro c hc
    rw [← hcharge hc]
    exact hsafe hc

/-- It is returned when nothing that is looked at is beyond the safe range. -/
theorem chooseCheapestUnits_of_safe (hdaily : rates.daily = some daily)
    (hnonneg : ∀ unit, 0 ≤ rates.amountOf unit) (hdays : 1 ≤ days)
    (hsafe : ∀ c ∈ combinations days.toNat (availableRates daily rates startsOnWeekday),
      rates.charge c ≤ Money.maxSafeInteger) :
    ∃ units, chooseCheapestUnits days startsOnWeekday rates = .ok (some units) := by
  obtain ⟨n, rfl⟩ := Int.eq_ofNat_of_zero_le (show 0 ≤ days by omega)
  rw [Int.toNat_natCast] at hsafe
  have hpos : 1 ≤ n := by omega
  have hnonneg' := availableRates_nonneg hdaily hnonneg startsOnWeekday
  have hcost {c : UnitCounts} (hc : c ∈ combinations n (availableRates daily rates startsOnWeekday)) :
      costAmount (availableRates daily rates startsOnWeekday) c ≤ Money.maxSafeInteger := by
    rw [costAmount_availableRates hdaily (fun hfriday => (covers_of_mem hc).friday (.inr hfriday))]
    exact hsafe c hc
  -- each rate is part of the cost of some combination
  have hrate {c : UnitCounts} (hc : c ∈ combinations n (availableRates daily rates startsOnWeekday))
      (unit : RentalUnit) (hused : 1 ≤ c.of unit) :
      (availableRates daily rates startsOnWeekday).amountOf unit ≤ Money.maxSafeInteger := by
    have hpart := le_costAmount_of hnonneg' c unit
    have honce := le_mul_of_one_le_right (hnonneg' unit) (Int.ofNat_le.mpr hused)
    exact honce.trans (hpart.trans (hcost hc))
  have hday : Money.money daily.amount daily.currency = .ok daily :=
    money_of_bounds (hnonneg' .day) (hrate (days_mem_combinations n _) .day hpos)
  have hweekend : checkedRate (availableRates daily rates startsOnWeekday).weekend =
      .ok (availableRates daily rates startsOnWeekday).weekend := by
    cases hset : (availableRates daily rates startsOnWeekday).weekend with
    | none => rfl
    | some m =>
      have hmem : ⟨n - 3, 1, 0⟩ ∈ combinations n (availableRates daily rates startsOnWeekday) :=
        mem_combinations_iff.mpr ⟨by rw [hset]; rfl, Nat.zero_le _, rfl⟩
      have hlow := hnonneg' .weekend
      have hhigh := hrate hmem .weekend (le_refl 1)
      rw [AvailableRates.amountOf, hset] at hlow hhigh
      rw [checkedRate, money_of_bounds hlow hhigh]
      rfl
  have hweek : checkedRate rates.weekly = .ok rates.weekly := by
    cases hset : rates.weekly with
    | none => rfl
    | some m =>
      have hmem : ⟨n - 7, 0, 1⟩ ∈ combinations n (availableRates daily rates startsOnWeekday) := by
        apply mem_combinations_iff.mpr
        refine ⟨Nat.zero_le _, ?_, by simp⟩
        simp only [availableRates, hset, Option.isNone_some, Bool.false_eq_true, if_false]
        omega
      have hlow := hnonneg' .week
      have hhigh := hrate hmem .week (le_refl 1)
      simp only [availableRates, AvailableRates.amountOf, hset, Option.elim] at hlow hhigh
      rw [checkedRate, money_of_bounds hlow hhigh]
      rfl
  obtain ⟨best, hbest⟩ := cheapestCombination_of_safe hnonneg' (fun c hc => hcost hc)
  obtain ⟨-, -, _, _, hfirst⟩ := cheapestCombination_eq_ok hbest
  have hitems := toLineItems_of_safe hnonneg' hfirst.mem (hcost hfirst.mem)
  have havailable : toAvailableRates daily rates startsOnWeekday =
      .ok (availableRates daily rates startsOnWeekday) := by
    simp only [toAvailableRates, hday, Except.bind]
    simp only [availableRates] at hweekend
    rw [hweekend, hweek]
    rfl
  have hchosen : chooseCheapestUnits n startsOnWeekday rates =
      (toLineItems best (availableRates daily rates startsOnWeekday)).map
        (fun lineItems => some ⟨lineItems, best.cost⟩) := by
    simp only [chooseCheapestUnits, hdaily, if_neg (Int.not_lt.mpr hdays), havailable, Except.bind,
      Int.toNat_natCast, hbest]
  rw [hchosen, hitems]
  exact ⟨_, rfl⟩

theorem sum_lineItems (rates : ListingRateCard) (counts : UnitCounts) :
    ((rates.lineItems counts).map (fun i => (i.unit.days * i.count : Int))).sum =
        7 * counts.week + 3 * counts.weekend + counts.day ∧
      ((rates.lineItems counts).map (·.subtotal.amount)).sum = rates.charge counts := by
  rw [ListingRateCard.lineItems, List.map_map, List.map_map]
  constructor
  · have hdays := sum_unitsOf counts (fun unit => unit.days)
    rw [RentalUnit.days, RentalUnit.days, RentalUnit.days, Nat.cast_one, one_mul] at hdays
    exact hdays
  · exact sum_unitsOf counts rates.amountOf

theorem of_mem_lineItems {i : QuoteLineItem} (hi : i ∈ rates.lineItems counts) :
    0 < i.count ∧ i.unitPrice.amount = rates.amountOf i.unit ∧
      i.subtotal.amount = i.count * i.unitPrice.amount := by
  obtain ⟨unit, hused, rfl⟩ := List.mem_map.mp hi
  refine ⟨by simpa using (List.mem_filter.mp hused).2, rfl, mul_comm _ _⟩

theorem covers_days {n : Nat} : Covers rates startsOnWeekday n ⟨n, 0, 0⟩ :=
  ⟨by simp, fun _ => rfl, Nat.zero_le _, fun _ => rfl⟩

theorem Covers.shorter {longer : Int} (h : Covers rates startsOnWeekday longer counts) (hle : days ≤ longer) :
    Covers rates startsOnWeekday days counts := ⟨hle.trans h.days, h.week, h.once, h.friday⟩

/-- The search returns when no combination it looks at is beyond the safe range. What it
returns is the cheapest cover there is, in rows that add up, never dearer than the days alone
and never dearer than a longer hire. -/
theorem the_search_is_optimal (hdaily : rates.daily = some daily) (hnonneg : ∀ unit, 0 ≤ rates.amountOf unit)
    (hdays : 1 ≤ days) (startsOnWeekday : Int) :
    ((∃ units, chooseCheapestUnits days startsOnWeekday rates = .ok (some units)) ↔
      ∀ c ∈ combinations days.toNat (availableRates daily rates startsOnWeekday),
        rates.charge c ≤ Money.maxSafeInteger) ∧
    ∀ units, chooseCheapestUnits days startsOnWeekday rates = .ok (some units) →
      (∃ counts, units.Cheapest rates startsOnWeekday days counts) ∧
      days ≤ (units.lineItems.map (fun i => (i.unit.days * i.count : Int))).sum ∧
      (∀ i ∈ units.lineItems, 0 < i.count ∧ i.unitPrice.amount = rates.amountOf i.unit ∧
        i.subtotal.amount = i.count * i.unitPrice.amount) ∧
      (units.lineItems.map (·.subtotal.amount)).sum = units.itemCharge.amount ∧
      units.itemCharge.amount ≤ days * daily.amount ∧
      ∀ longer units', days ≤ longer → chooseCheapestUnits longer startsOnWeekday rates = .ok (some units') →
        units.itemCharge.amount ≤ units'.itemCharge.amount := by
  constructor
  · constructor
    · rintro ⟨units, hunits⟩
      exact (cheapest_of_chooseCheapestUnits hdaily hnonneg hdays hunits).2
    · exact chooseCheapestUnits_of_safe hdaily hnonneg hdays
  · intro units hunits
    obtain ⟨counts, hcheapest⟩ := (cheapest_of_chooseCheapestUnits hdaily hnonneg hdays hunits).1
    obtain ⟨hsumdays, hsumcharge⟩ := sum_lineItems rates counts
    refine ⟨⟨counts, hcheapest⟩, ?_, ?_, ?_, ?_, ?_⟩
    · rw [hcheapest.lineItems, hsumdays]
      exact hcheapest.covers.days
    · rw [hcheapest.lineItems]
      exact fun i hi => of_mem_lineItems hi
    · rw [hcheapest.lineItems, hsumcharge, hcheapest.itemCharge]
    · obtain ⟨n, rfl⟩ := Int.eq_ofNat_of_zero_le (show 0 ≤ days by omega)
      have hle := hcheapest.least _ covers_days
      have hcharge : rates.charge ⟨n, 0, 0⟩ = n * daily.amount := by
        simp [ListingRateCard.charge, ListingRateCard.amountOf, hdaily, mul_comm]
      rw [hcheapest.itemCharge, ← hcharge]
      exact hle
    · intro longer units' hle hunits'
      obtain ⟨counts', hcheapest'⟩ :=
        (cheapest_of_chooseCheapestUnits hdaily hnonneg (hdays.trans hle) hunits').1
      rw [hcheapest.itemCharge, hcheapest'.itemCharge]
      exact hcheapest.least _ (hcheapest'.covers.shorter hle)

end Card

def sampleCard : ListingRateCard := ⟨some ⟨1000, .gbp⟩, some ⟨2500, .gbp⟩, some ⟨5000, .gbp⟩⟩

theorem sampleCard_nonneg (unit : RentalUnit) : 0 ≤ sampleCard.amountOf unit := by
  cases unit <;> decide

theorem nine_days_are_priced : ∃ units counts, chooseCheapestUnits 9 5 sampleCard = .ok (some units) ∧
    units.lineItems.length = 2 ∧ units.Cheapest sampleCard 5 9 counts := by
  have hunits : chooseCheapestUnits 9 5 sampleCard = .ok (some ⟨[⟨.week, 1, ⟨5000, .gbp⟩, ⟨5000, .gbp⟩⟩,
      ⟨.day, 2, ⟨1000, .gbp⟩, ⟨2000, .gbp⟩⟩], ⟨7000, .gbp⟩⟩) := by decide +kernel
  obtain ⟨counts, hcheapest⟩ := ((the_search_is_optimal rfl sampleCard_nonneg (by decide) 5).2 _ hunits).1
  exact ⟨_, counts, hunits, rfl, hcheapest⟩

/-- Two days at the largest safe amount are refused. -/
theorem a_charge_beyond_the_safe_range : chooseCheapestUnits 2 1 ⟨some ⟨9007199254740991, .gbp⟩, none, none⟩ =
    .error "Money amount 18014398509481982 exceeds safe integer range" := by
  decide +kernel

end RentalMarket.Pricing
