import RentalMarket.Pricing.UnitEconomics

namespace RentalMarket.Pricing

open RentalMarket.Core

section

variable {rates : AvailableRates}

def AvailableRates.amountOf (rates : AvailableRates) : RentalUnit → Int
  | .day => rates.day.amount
  | .weekend => rates.weekend.elim 0 (·.amount)
  | .week => rates.week.elim 0 (·.amount)

def costAmount (rates : AvailableRates) (counts : UnitCounts) : Int :=
  rates.amountOf .week * counts.week + rates.amountOf .weekend * counts.weekend +
    rates.amountOf .day * counts.day

structure AvailableRates.Accepted (rates : AvailableRates) : Prop where
  day : rentalRateAccepted rates.day
  weekend : ∀ rate, rates.weekend = some rate → rentalRateAccepted rate
  week : ∀ rate, rates.week = some rate → rentalRateAccepted rate

structure Feasible (rates : AvailableRates) (days : Nat) (counts : UnitCounts) : Prop where
  covers : days ≤ counts.day + 3 * counts.weekend + 7 * counts.week
  day : counts.day ≤ days
  weekend : counts.weekend ≤ 1
  week : counts.week ≤ days
  weekendRate : 0 < counts.weekend → rates.weekend.isSome
  weekRate : 0 < counts.week → rates.week.isSome

theorem money_ok {m : Money} (hm : rentalRateAccepted m) : Money.money m.amount m.currency = .ok m := by
  unfold rentalRateAccepted minRentalRateMinorUnits maxRentalRateMinorUnits at hm
  rw [Money.money, if_pos]
  simp only [Money.maxSafeInteger]
  omega

theorem mem_countdown {n limit : Nat} : n ∈ countdown limit ↔ n ≤ limit := by
  simp only [countdown, List.mem_reverse, List.mem_range]
  omega

theorem mem_combinations {days : Nat} {counts : UnitCounts} (h : counts ∈ combinations days rates) :
    Feasible rates days counts := by
  obtain ⟨weekends, hweekends, h⟩ := List.mem_flatMap.mp h
  obtain ⟨weeks, hweeks, rfl⟩ := List.mem_map.mp h
  have hweekends := mem_countdown.mp hweekends
  have hweeks := mem_countdown.mp hweeks
  simp only [RentalUnit.days] at hweeks ⊢
  cases hw : rates.weekend <;> cases hk : rates.week <;>
    simp only [hw, hk, Option.isNone_none, Option.isNone_some, if_true, Bool.false_eq_true, if_false]
      at hweekends hweeks
  all_goals
    refine ⟨?_, ?_, ?_, ?_, fun hpos => ?_, fun hpos => ?_⟩
    all_goals simp only at *
    all_goals first
      | omega
      | simp [hw]
      | simp [hk]

theorem days_mem_combinations (days : Nat) (rates : AvailableRates) :
    ⟨days, 0, 0⟩ ∈ combinations days rates := by
  refine List.mem_flatMap.mpr ⟨0, mem_countdown.mpr (Nat.zero_le _), ?_⟩
  refine List.mem_map.mpr ⟨0, mem_countdown.mpr (Nat.zero_le _), ?_⟩
  simp [RentalUnit.days]

theorem rateFor_ok {days : Nat} {counts : UnitCounts} (hrates : rates.Accepted)
    (hcounts : Feasible rates days counts) {unit : RentalUnit} (hused : unit ∈ unitsOf counts) :
    rateFor rates unit = .ok ⟨rates.amountOf unit, rates.day.currency⟩ ∧
      rentalRateAccepted ⟨rates.amountOf unit, rates.day.currency⟩ := by
  have hpos : 0 < counts.of unit := by simpa using (List.mem_filter.mp hused).2
  cases unit with
  | day => exact ⟨rfl, hrates.day⟩
  | weekend =>
    obtain ⟨rate, hrate⟩ := Option.isSome_iff_exists.mp (hcounts.weekendRate hpos)
    rw [rateFor, AvailableRates.amountOf, hrate]
    exact ⟨rfl, hrates.weekend rate hrate⟩
  | week =>
    obtain ⟨rate, hrate⟩ := Option.isSome_iff_exists.mp (hcounts.weekRate hpos)
    rw [rateFor, AvailableRates.amountOf, hrate]
    exact ⟨rfl, hrates.week rate hrate⟩

theorem sum_unitsOf (counts : UnitCounts) (rate : RentalUnit → Int) :
    ((unitsOf counts).map (fun unit => rate unit * counts.of unit)).sum =
      rate .week * counts.week + rate .weekend * counts.weekend + rate .day * counts.day := by
  have hfilter : ∀ units : List RentalUnit,
      ((units.filter (fun unit => 0 < counts.of unit)).map (fun unit => rate unit * counts.of unit)).sum =
        (units.map (fun unit => rate unit * counts.of unit)).sum := by
    intro units
    induction units with
    | nil => rfl
    | cons unit units ih =>
      by_cases hunit : 0 < counts.of unit
      · simp [hunit, ih]
      · simp [Nat.eq_zero_of_not_pos hunit, ih]
  rw [unitsOf, hfilter]
  simp [RentalUnit.largestFirst, UnitCounts.of, add_assoc]

theorem counts_le {days : Nat} {counts : UnitCounts} (hcounts : Feasible rates days counts)
    (hdays : 1 ≤ days) (unit : RentalUnit) : counts.of unit ≤ days := by
  cases unit with
  | day => exact hcounts.day
  | weekend => exact hcounts.weekend.trans hdays
  | week => exact hcounts.week

theorem product_bounds (amount : Int) {count : Nat} (hlow : 0 ≤ amount) (hhigh : amount ≤ 1000000)
    (hcount : count ≤ 88) : 0 ≤ amount * count ∧ amount * count ≤ 88000000 := by
  refine ⟨by positivity, ?_⟩
  calc amount * count ≤ 1000000 * 88 := by gcongr; exact_mod_cast hcount
    _ = 88000000 := by norm_num

theorem times_ok {rate : Money} {count : Nat} (hrate : rentalRateAccepted rate) (hcount : count ≤ 88) :
    Money.times rate count = .ok ⟨rate.amount * count, rate.currency⟩ := by
  unfold rentalRateAccepted minRentalRateMinorUnits maxRentalRateMinorUnits at hrate
  have hproduct := product_bounds rate.amount (by omega) hrate.2 hcount
  rw [Money.times, Money.money, if_pos]
  simp only [Money.maxSafeInteger]
  omega

theorem amountOf_bounds (hrates : rates.Accepted) (unit : RentalUnit) :
    0 ≤ rates.amountOf unit ∧ rates.amountOf unit ≤ 1000000 := by
  have hday := hrates.day
  have hweekend := hrates.weekend
  have hweek := hrates.week
  unfold rentalRateAccepted minRentalRateMinorUnits maxRentalRateMinorUnits at hday hweekend hweek
  cases unit with
  | day =>
    simp only [AvailableRates.amountOf]
    omega
  | weekend =>
    cases hrate : rates.weekend with
    | none => simp [AvailableRates.amountOf, hrate]
    | some rate =>
      have hrate' := hweekend rate hrate
      simp only [AvailableRates.amountOf, hrate, Option.elim]
      omega
  | week =>
    cases hrate : rates.week with
    | none => simp [AvailableRates.amountOf, hrate]
    | some rate =>
      have hrate' := hweek rate hrate
      simp only [AvailableRates.amountOf, hrate, Option.elim]
      omega

section

variable {days : Nat} {counts : UnitCounts} (hrates : rates.Accepted) (hcounts : Feasible rates days counts)
  (hlow : 1 ≤ days) (hhigh : days ≤ 88)

include hrates hcounts hlow hhigh

theorem part_ok {unit : RentalUnit} (hused : unit ∈ unitsOf counts) :
    Money.times ⟨rates.amountOf unit, rates.day.currency⟩ (counts.of unit) =
      .ok ⟨rates.amountOf unit * counts.of unit, rates.day.currency⟩ :=
  times_ok (rateFor_ok hrates hcounts hused).2 ((counts_le hcounts hlow unit).trans hhigh)

theorem costOf_ok : costOf rates counts = .ok ⟨costAmount rates counts, rates.day.currency⟩ := by
  have hparts : (unitsOf counts).mapM (fun unit =>
      (rateFor rates unit).bind (fun rate => Money.times rate (counts.of unit))) =
      .ok ((unitsOf counts).map (fun unit => ⟨rates.amountOf unit * counts.of unit, rates.day.currency⟩)) := by
    refine Refusal.mapM_ok (fun unit hused => ?_)
    rw [(rateFor_ok hrates hcounts hused).1]
    exact part_ok hrates hcounts hlow hhigh hused
  have htotal : Money.total ((unitsOf counts).map (fun unit =>
      (⟨rates.amountOf unit * counts.of unit, rates.day.currency⟩ : Money))) = costAmount rates counts := by
    rw [Money.total, List.map_map]
    exact sum_unitsOf counts rates.amountOf
  have hbounds : ∀ unit, 0 ≤ rates.amountOf unit * counts.of unit ∧
      rates.amountOf unit * counts.of unit ≤ 88000000 := by
    intro unit
    have hamount := amountOf_bounds hrates unit
    exact product_bounds _ hamount.1 hamount.2 ((counts_le hcounts hlow unit).trans hhigh)
  have hsum : Money.sum ((unitsOf counts).map (fun unit =>
      (⟨rates.amountOf unit * counts.of unit, rates.day.currency⟩ : Money))) rates.day.currency =
      .ok ⟨costAmount rates counts, rates.day.currency⟩ := by
    rw [← htotal]
    apply Money.sum_ok
    · intro v hv
      obtain ⟨unit, -, rfl⟩ := List.mem_map.mp hv
      exact ⟨rfl, (hbounds unit).1⟩
    · have hday := hbounds .day
      have hweekend := hbounds .weekend
      have hweek := hbounds .week
      rw [htotal, costAmount]
      simp only [UnitCounts.of] at hday hweekend hweek
      simp only [Money.maxSafeInteger]
      omega
  rw [costOf, hparts]
  exact hsum

omit hrates hhigh in
theorem exists_used : ∃ unit, unit ∈ unitsOf counts := by
  have hcovers := hcounts.covers
  have hmem : ∀ unit, 0 < counts.of unit → unit ∈ unitsOf counts := by
    intro unit hpos
    cases unit <;> simpa [unitsOf, RentalUnit.largestFirst] using hpos
  by_cases hday : 0 < counts.day
  · exact ⟨.day, hmem .day hday⟩
  · by_cases hweekend : 0 < counts.weekend
    · exact ⟨.weekend, hmem .weekend hweekend⟩
    · exact ⟨.week, hmem .week (by simp only [UnitCounts.of]; omega)⟩

omit hhigh in
theorem le_costAmount : 100 ≤ costAmount rates counts := by
  obtain ⟨unit, hused⟩ := exists_used hcounts hlow
  have hrate : 100 ≤ rates.amountOf unit := (rateFor_ok hrates hcounts hused).2.1
  have hpos : 0 < counts.of unit := by simpa using (List.mem_filter.mp hused).2
  have hpart : 100 ≤ rates.amountOf unit * counts.of unit :=
    hrate.trans (le_mul_of_one_le_right (by omega) (by exact_mod_cast hpos))
  have hnonneg : ∀ unit, 0 ≤ rates.amountOf unit * counts.of unit := fun unit =>
    mul_nonneg (amountOf_bounds hrates unit).1 (by positivity)
  have hday := hnonneg .day
  have hweekend := hnonneg .weekend
  have hweek := hnonneg .week
  unfold costAmount
  cases unit <;> simp only [UnitCounts.of] at hpart hday hweekend hweek <;> omega

end

theorem cheaper_ok (best : Option Combination) {counts : UnitCounts}
    (hcost : costOf rates counts = .ok ⟨costAmount rates counts, rates.day.currency⟩) :
    ∃ chosen, cheaper rates best counts = .ok (some chosen) ∧
      (some chosen = best ∨ chosen = ⟨counts, costAmount rates counts, rates.day.currency⟩) ∧
      (∀ b, best = some b → chosen.cost.amount ≤ b.cost.amount) ∧
      chosen.cost.amount ≤ costAmount rates counts := by
  cases best with
  | none =>
    refine ⟨⟨counts, costAmount rates counts, rates.day.currency⟩, ?_, .inr rfl, ?_, le_rfl⟩
    · rw [cheaper, hcost]
      rfl
    · intro b hb
      cases hb
  | some b =>
    by_cases hless : costAmount rates counts < b.cost.amount
    · refine ⟨⟨counts, costAmount rates counts, rates.day.currency⟩, ?_, .inr rfl, ?_, le_rfl⟩
      · simp [cheaper, hcost, Money.lessThan, Except.bind, hless]
      · intro c hc
        cases hc
        exact hless.le
    · refine ⟨b, ?_, .inl rfl, ?_, not_lt.mp hless⟩
      · simp [cheaper, hcost, Money.lessThan, Except.bind, hless]
      · intro c hc
        cases hc
        exact le_rfl

/-- The loop over the combinations: it ends with one of them, or with what it
began with, and with none dearer than any it saw. -/
theorem foldlM_cheaper (combos : List UnitCounts) (best : Option Combination)
    (hcost : ∀ c ∈ combos, costOf rates c = .ok ⟨costAmount rates c, rates.day.currency⟩) :
    ∃ chosen, combos.foldlM (cheaper rates) best = .ok chosen ∧
      (chosen = best ∨ ∃ c ∈ combos, chosen = some ⟨c, costAmount rates c, rates.day.currency⟩) ∧
      (∀ b, best = some b → ∃ d, chosen = some d ∧ d.cost.amount ≤ b.cost.amount) ∧
      ∀ c ∈ combos, ∃ d, chosen = some d ∧ d.cost.amount ≤ costAmount rates c := by
  induction combos generalizing best with
  | nil => exact ⟨best, rfl, .inl rfl, fun b hb => ⟨b, hb, le_rfl⟩, by simp⟩
  | cons c combos ih =>
    obtain ⟨next, hnext, hfrom, hbest, hc⟩ := cheaper_ok best (hcost c List.mem_cons_self)
    obtain ⟨chosen, hchosen, hone, hnone, hall⟩ :=
      ih (some next) (fun d hd => hcost d (List.mem_cons_of_mem c hd))
    obtain ⟨d, hd, hle⟩ := hnone next rfl
    refine ⟨chosen, ?_, ?_, ?_, ?_⟩
    · rw [List.foldlM_cons, hnext]
      exact hchosen
    · obtain hone | ⟨e, he, hone⟩ := hone
      · obtain hfrom | rfl := hfrom
        · exact .inl (hone.trans hfrom)
        · exact .inr ⟨c, List.mem_cons_self, hone⟩
      · exact .inr ⟨e, List.mem_cons_of_mem c he, hone⟩
    · intro b hb
      exact ⟨d, hd, hle.trans (hbest b hb)⟩
    · intro e he
      obtain rfl | he := List.mem_cons.mp he
      · exact ⟨d, hd, hle.trans hc⟩
      · exact hall e he

/-- The search ends with a combination that covers the hire and is no dearer
than buying it by the day. -/
theorem cheapestCombination_ok (hrates : rates.Accepted) {days : Nat} (hlow : 1 ≤ days) (hhigh : days ≤ 88) :
    ∃ best, cheapestCombination days rates = .ok best ∧ Feasible rates days best.counts ∧
      best.cost = ⟨costAmount rates best.counts, rates.day.currency⟩ ∧
      best.cost.amount ≤ rates.day.amount * days := by
  have hcost : ∀ c ∈ combinations days rates, costOf rates c = .ok ⟨costAmount rates c, rates.day.currency⟩ :=
    fun c hc => costOf_ok hrates (mem_combinations hc) hlow hhigh
  obtain ⟨chosen, hchosen, hone, -, hall⟩ := foldlM_cheaper (combinations days rates) none hcost
  obtain ⟨best, rfl, hle⟩ := hall _ (days_mem_combinations days rates)
  obtain hone | ⟨c, hc, hone⟩ := hone
  · cases hone
  · cases hone
    refine ⟨⟨c, costAmount rates c, rates.day.currency⟩, ?_, mem_combinations hc, rfl, ?_⟩
    · rw [cheapestCombination, hchosen]
      rfl
    · simpa [costAmount, AvailableRates.amountOf] using hle

theorem toLineItems_ok (hrates : rates.Accepted) {days : Nat} (hlow : 1 ≤ days) (hhigh : days ≤ 88)
    {best : Combination} (hbest : Feasible rates days best.counts) :
    ∃ items, toLineItems best rates = .ok items ∧ items ≠ [] := by
  let item : RentalUnit → QuoteLineItem := fun unit =>
    ⟨unit, best.counts.of unit, ⟨rates.amountOf unit, rates.day.currency⟩,
      ⟨rates.amountOf unit * best.counts.of unit, rates.day.currency⟩⟩
  have hitems : toLineItems best rates = .ok ((unitsOf best.counts).map item) := by
    refine Refusal.mapM_ok (fun unit hused => ?_)
    rw [(rateFor_ok hrates hbest hused).1]
    simp only [Except.bind]
    rw [part_ok hrates hbest hlow hhigh hused]
    rfl
  obtain ⟨unit, hused⟩ := exists_used hbest hlow
  exact ⟨_, hitems, List.ne_nil_of_mem (List.mem_map_of_mem hused)⟩

end

theorem checkedRate_ok {rate : Option Money} (hrate : ∀ r, rate = some r → rentalRateAccepted r) :
    checkedRate rate = .ok rate := by
  cases rate with
  | none => rfl
  | some r =>
    rw [checkedRate, money_ok (hrate r rfl)]
    rfl

/-- A card the contract accepts prices every lawful hire. -/
theorem chooseCheapestUnits_ok {rates : ListingRateCard} {daily : Money} (hrates : rates.Accepted)
    (hdaily : rates.daily = some daily) {days : Int} (hlow : 1 ≤ days) (hhigh : days ≤ 88) (weekday : Int) :
    ∃ units, chooseCheapestUnits days weekday rates = .ok (some units) ∧ units.lineItems ≠ [] ∧
      100 ≤ units.itemCharge.amount ∧ units.itemCharge.amount ≤ 88000000 := by
  have heach : ∀ rate, some rate = rates.daily ∨ some rate = rates.weekend ∨ some rate = rates.weekly →
      rentalRateAccepted rate := by
    intro rate hrate
    apply hrates.each
    simpa [eq_comm] using hrate
  have hday := heach daily (.inl hdaily.symm)
  let weekend := if weekday = weekendStartWeekday then rates.weekend else none
  let available : AvailableRates := ⟨daily, weekend, rates.weekly⟩
  have hweekend : ∀ r, weekend = some r → rentalRateAccepted r := by
    intro r hr
    by_cases hfriday : weekday = weekendStartWeekday
    · simp only [weekend, hfriday, if_true] at hr
      exact heach r (.inr (.inl hr.symm))
    · simp [weekend, hfriday] at hr
  have hweek : ∀ r, rates.weekly = some r → rentalRateAccepted r := fun r hr => heach r (.inr (.inr hr.symm))
  have havailable : toAvailableRates daily rates weekday = .ok available := by
    rw [toAvailableRates, money_ok hday]
    simp only [Except.bind]
    rw [checkedRate_ok hweekend, checkedRate_ok hweek]
  have haccepted : available.Accepted := ⟨hday, hweekend, hweek⟩
  obtain ⟨n, rfl⟩ := Int.eq_ofNat_of_zero_le (show 0 ≤ days by omega)
  have hlow : 1 ≤ n := by omega
  have hhigh : n ≤ 88 := by omega
  obtain ⟨best, hbest, hfeasible, hcost, hle⟩ := cheapestCombination_ok haccepted hlow hhigh
  obtain ⟨items, hitems, hnonempty⟩ := toLineItems_ok haccepted hlow hhigh hfeasible
  refine ⟨⟨items, best.cost⟩, ?_, hnonempty, ?_, ?_⟩
  · rw [chooseCheapestUnits, hdaily]
    simp only
    rw [if_neg (by omega), havailable]
    simp only [Except.bind, Int.toNat_natCast]
    rw [hbest]
    simp only
    rw [hitems]
    rfl
  · rw [hcost]
    exact le_costAmount haccepted hfeasible hlow
  · have hamount := amountOf_bounds haccepted .day
    exact hle.trans (product_bounds _ hamount.1 hamount.2 hhigh).2

theorem priceRental_ok {rates : ListingRateCard} {daily : Money} (hrates : rates.Accepted)
    (hdaily : rates.daily = some daily) {policy : CategoryFeePolicy} (hpolicy : policy.Accepted)
    {days : Int} (hlow : 1 ≤ days) (hhigh : days ≤ 88) (weekday : Int) :
    ∃ priced, priceRental exactPercentageOf days weekday rates policy = .ok (some priced) ∧
      priced.lineItems ≠ [] ∧ 100 ≤ priced.itemCharge.amount ∧ priced.itemCharge.amount ≤ 88000000 ∧
      0 ≤ priced.renterFee.amount ∧ priced.renterFee.amount ≤ 89000000 ∧
      priced.total.amount = priced.itemCharge.amount + priced.renterFee.amount := by
  obtain ⟨units, hunits, hitems, hcharge, hcharge'⟩ := chooseCheapestUnits_ok hrates hdaily hlow hhigh weekday
  have hnonneg : 0 ≤ units.itemCharge.amount := by omega
  obtain ⟨fee, hfee, hamount⟩ := renterFeeOn_ok hpolicy hnonneg (by omega)
  have hbounds := renterFeeAmount_bounds hpolicy hnonneg
  have hfeeAmount : fee.fee.amount = renterFeeAmount policy units.itemCharge.amount := by rw [hamount]
  have htotal := Money.add_ok (a := units.itemCharge) (b := fee.fee) (by omega) (by omega)
    (by simp only [Money.maxSafeInteger]; omega)
  refine ⟨⟨units.lineItems, units.itemCharge, fee.fee, fee.minimumFeeApplied,
    ⟨units.itemCharge.amount + fee.fee.amount, units.itemCharge.currency⟩⟩, ?_, hitems, hcharge, hcharge',
    ?_, ?_, rfl⟩
  · rw [priceRental, hunits]
    simp only [Except.bind]
    rw [hfee]
    simp only
    rw [htotal]
    rfl
  · exact hfeeAmount ▸ hbounds.1
  · exact hfeeAmount ▸ hbounds.2.trans (by omega)

end RentalMarket.Pricing
