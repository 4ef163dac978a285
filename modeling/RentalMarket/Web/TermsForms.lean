import RentalMarket.Pricing.Contracts
import RentalMarket.Web.TypedAmounts

namespace RentalMarket.Web

open Script RentalMarket.Core RentalMarket.Pricing
open RentalMarket.Core.Doubles (toMajorString)

structure FeePolicyFields where
  ownerCommission : String
  renterFee : String
  minimumBookingTotal : String
  minimumPlatformFee : String
  deriving DecidableEq, Repr

def readFeePolicy (fields : FeePolicyFields) : Except String CategoryFeePolicy :=
  (readRate fields.ownerCommission "Owner commission" maxFeeBasisPoints).bind (fun owner =>
    (readRate fields.renterFee "Renter fee" maxFeeBasisPoints).bind (fun renter =>
      (readAmount fields.minimumBookingTotal "Minimum booking total" (.ok 0)).bind (fun bookingFloor =>
        (readAmount fields.minimumPlatformFee "Minimum platform fee" (.ok 0)).map (fun feeFloor =>
          ⟨owner, renter, ⟨bookingFloor, .gbp⟩, ⟨feeFloor, .gbp⟩⟩))))

def isFeePolicyConfigured (policy : CategoryFeePolicy) : Bool :=
  0 < policy.ownerCommissionBasisPoints || 0 < policy.renterFeeBasisPoints

/-- `poundsOrBlank` of the editors. -/
def poundsOrBlank (amount : Int) : String := if amount = 0 then "" else toMajorString ⟨amount, .gbp⟩

/-- What `FeePolicyEditor` shows of a policy, and posts where nobody types. -/
def FeePolicyFields.of (initial : CategoryFeePolicy) : FeePolicyFields :=
  if isFeePolicyConfigured initial then
    ⟨percentFromBasisPoints initial.ownerCommissionBasisPoints, percentFromBasisPoints initial.renterFeeBasisPoints,
      poundsOrBlank initial.minimumBookingTotal.amount, poundsOrBlank initial.minimumPlatformFee.amount⟩
  else ⟨"", "", "", ""⟩

/-- The fields of a category's damage security. A choice that is not made is not posted. -/
structure DamageSecurityFields where
  choice : Option String
  excessFloor : String
  excessPercentage : String
  recoveryCeiling : String
  deriving DecidableEq, Repr

def damageSecurityRequired : String := "required"

def damageSecurityNone : String := "none"

def sayWhetherRequired : String :=
  "Say whether this category requires damage security. There is no default — an item handed over with nothing held against it has to be a decision."

def giveARecoveryCeiling : String :=
  "Give a recovery ceiling — the most that can ever be recovered from a renter on one booking. For no security at all, choose that above instead."

def readDamageSecurity (fields : DamageSecurityFields) : Except String (Option DamageSecurityPolicy) :=
  if fields.choice = some damageSecurityNone then .ok none
  else if fields.choice ≠ some damageSecurityRequired then .error sayWhetherRequired
  else
    (readAmount fields.excessFloor "Excess floor" (.ok 0)).bind (fun floor =>
      (readRate fields.excessPercentage "Excess percentage" maxExcessPercentageBasisPoints).bind (fun percentage =>
        (readAmount fields.recoveryCeiling "Recovery ceiling" (.error giveARecoveryCeiling)).bind (fun ceiling =>
          if maxDamageSecurityMinorUnits < ceiling then
            .error ("Recovery ceiling cannot exceed £" ++ toString (maxDamageSecurityMinorUnits / 100) ++ ".")
          else .ok (some ⟨⟨floor, .gbp⟩, percentage, ⟨ceiling, .gbp⟩⟩))))

/-- What `DamageSecurityEditor` shows of a band, and posts where nobody types. The
fields of the band are there only where it is required. -/
def DamageSecurityFields.of : Option DamageSecurityPolicy → DamageSecurityFields
  | none => ⟨none, "", "", ""⟩
  | some initial => ⟨some damageSecurityRequired, poundsOrBlank initial.excessFloor.amount,
      percentFromBasisPoints initial.excessPercentageBasisPoints, poundsOrBlank initial.recoveryCeiling.amount⟩

structure RateCardFields where
  daily : String
  weekend : String
  weekly : String
  deriving DecidableEq, Repr

def readRateCard (fields : RateCardFields) : Except String ListingRateCard :=
  (RateCard.readRate fields.daily "Daily rate").bind (fun daily =>
    (RateCard.readRate fields.weekend "Weekend rate").bind (fun weekend =>
      (RateCard.readRate fields.weekly "Weekly rate").map (fun weekly => ⟨daily, weekend, weekly⟩)))

/-- `rateOrBlank`. -/
def rateOrBlank (rate : Option Money) : String := (rate.map toMajorString).getD ""

def RateCardFields.of (rates : ListingRateCard) : RateCardFields :=
  ⟨rateOrBlank rates.daily, rateOrBlank rates.weekend, rateOrBlank rates.weekly⟩

def hundredths (basisPoints : Nat) : List Char :=
  let fraction := (Nat.toDigits 10 (basisPoints % 100)).leftpad 2 '0'
  if fraction = ['0', '0'] then [] else dropLastZero fraction

theorem dropLastZero_spec {digits : List Char} (h : digits.length = 2) : dropLastZero digits ≠ [] ∧
    (dropLastZero digits).length ≤ 2 ∧ (dropLastZero digits).rightpad 2 '0' = digits ∧
    ∀ c ∈ dropLastZero digits, c ∈ digits := by
  obtain ⟨tens, units, rfl⟩ := List.length_eq_two.mp h
  by_cases hzero : units = '0'
  · simp [dropLastZero, hzero, List.rightpad]
  · simp [dropLastZero, hzero, List.rightpad]

theorem length_pence (basisPoints : Nat) : ((Nat.toDigits 10 (basisPoints % 100)).leftpad 2 '0').length = 2 := by
  have hle : (Nat.toDigits 10 (basisPoints % 100)).length ≤ 2 :=
    (Nat.length_toDigits_le_iff (by decide) (by decide)).mpr (Nat.mod_lt _ (by decide))
  rw [List.length_leftpad, Nat.max_eq_left hle]

theorem hundredths_spec (basisPoints : Nat) : (∀ c ∈ hundredths basisPoints, c.isDigit = true) ∧
    (hundredths basisPoints).length ≤ 2 ∧
    digitsValue ((hundredths basisPoints).rightpad 2 '0') = basisPoints % 100 := by
  obtain ⟨-, hlength, hpad, hmem⟩ := dropLastZero_spec (length_pence basisPoints)
  have hvalue : digitsValue ((Nat.toDigits 10 (basisPoints % 100)).leftpad 2 '0') = basisPoints % 100 := by
    rw [digitsValue_leftpad, digitsValue_toDigits]
  simp only [hundredths]
  split
  · rename_i hzero
    rw [hzero] at hvalue
    exact ⟨by simp, by simp, hvalue⟩
  · exact ⟨fun c hc => isDigit_leftpad (hmem c hc), hlength, by rw [hpad, hvalue]⟩

theorem exists_numeral (basisPoints : Nat) : ∃ t : Numeral, percentFromBasisPoints basisPoints = t.text ∧
    t.negative = false ∧ t.whole = Nat.toDigits 10 (basisPoints / 100) ∧ t.fraction = hundredths basisPoints := by
  obtain ⟨hdigits, -, -⟩ := hundredths_spec basisPoints
  refine ⟨⟨false, Nat.toDigits 10 (basisPoints / 100), hundredths basisPoints, Nat.toDigits_ne_nil,
    fun c hc => Nat.isDigit_of_mem_toDigits (by decide) (by decide) hc, hdigits⟩, ?_, rfl, rfl, rfl⟩
  obtain ⟨hne, -, -, -⟩ := dropLastZero_spec (length_pence basisPoints)
  by_cases hzero : (Nat.toDigits 10 (basisPoints % 100)).leftpad 2 '0' = ['0', '0']
  · simp only [percentFromBasisPoints, Numeral.text, decimalText, hundredths, if_pos hzero]
    simp
  · simp only [percentFromBasisPoints, Numeral.text, decimalText, hundredths, if_neg hzero, if_neg hne]
    simp

theorem readRate_percentFromBasisPoints {basisPoints maximum : Nat} (label : String) (hle : basisPoints ≤ maximum)
    (hmaximum : maximum ≤ 10000) : readRate (percentFromBasisPoints basisPoints) label maximum = .ok basisPoints := by
  obtain ⟨t, htext, hpositive, hwhole, hfraction⟩ := exists_numeral basisPoints
  obtain ⟨-, hlength, hrest⟩ := hundredths_spec basisPoints
  rw [← hfraction] at hlength hrest
  refine readRate_eq_ok.mpr ⟨⟨t, ?_, hpositive, ?_, hlength, ?_⟩, hle⟩
  · rw [htext, Doubles.trim_text]
  · rw [hwhole]
    exact (Nat.length_toDigits_le_iff (by decide) (by decide)).mpr (by omega)
  · have hpadded : (t.fraction.rightpad 2 '0').length = 2 := by
      rw [List.length_rightpad, Nat.max_eq_left hlength]
    have hsum := Nat.div_add_mod basisPoints 100
    rw [← scaled_two hpositive hlength, digitsValue_append, hpadded, hrest, hwhole, digitsValue_toDigits]
    exact_mod_cast hsum.symm

theorem minus_not_mem {m : Money} (hnonneg : 0 ≤ m.amount) : '-' ∉ (toMajorString m).toList := by
  have hdigit : ∀ digits : List Char, (∀ c ∈ digits, c.isDigit = true) → '-' ∉ digits := by
    intro digits h hmem
    cases h _ hmem
  rw [toMajorString, String.toList_ofList, if_neg (not_lt.mpr hnonneg), List.nil_append, List.mem_append,
    List.mem_cons, not_or, not_or]
  refine ⟨hdigit _ (fun c hc => Nat.isDigit_of_mem_toDigits (by decide) (by decide) hc), by decide,
    hdigit _ (fun c hc => isDigit_leftpad hc)⟩

theorem writesPounds_toMajorString {m : Money} (hnonneg : 0 ≤ m.amount) (hsafe : m.amount ≤ Money.maxSafeInteger) :
    WritesPounds (trim (toMajorString m)) m.amount := by
  have habs : |m.amount| ≤ Money.maxSafeInteger := by
    rw [abs_of_nonneg hnonneg]
    exact hsafe
  obtain ⟨t, htext, hlength, hscaled⟩ := Doubles.toMajorString_eq m habs
  have htwo : Doubles.decimals m.currency = 2 := by
    cases m.currency
    decide
  rw [htwo] at hlength hscaled
  have hpositive : t.negative = false := by
    by_contra hnegative
    rw [Bool.not_eq_false] at hnegative
    refine minus_not_mem hnonneg ?_
    rw [htext, Numeral.text, String.toList_ofList, decimalText, if_pos hnegative]
    simp
  refine ⟨t, by rw [htext, Doubles.trim_text], hpositive, hlength.le, ?_, hsafe⟩
  rw [← hscaled, Numeral.scaled_eq hlength.le]
  norm_num

theorem trim_empty : trim "" = "" := by decide +kernel

theorem readAmount_poundsOrBlank {amount : Int} (label : String) (hnonneg : 0 ≤ amount)
    (hsafe : amount ≤ Money.maxSafeInteger) : readAmount (poundsOrBlank amount) label (.ok 0) = .ok amount := by
  rw [readAmount_eq_ok, poundsOrBlank]
  split
  · rename_i hzero
    exact .inl ⟨trim_empty, by rw [hzero]⟩
  · exact .inr (writesPounds_toMajorString (m := ⟨amount, .gbp⟩) hnonneg hsafe)

theorem readAmount_poundsOrBlank_pos {amount : Int} (label : String) (whenBlank : Except String Int)
    (hpos : 0 < amount) (hsafe : amount ≤ Money.maxSafeInteger) :
    readAmount (poundsOrBlank amount) label whenBlank = .ok amount := by
  rw [readAmount_eq_ok, poundsOrBlank, if_neg hpos.ne']
  exact .inr (writesPounds_toMajorString (m := ⟨amount, .gbp⟩) hpos.le hsafe)

theorem maxPence_le {amount maximum : Int} (hle : amount ≤ maximum) (hmaximum : maximum ≤ 10000000) :
    amount ≤ Money.maxSafeInteger := by
  rw [Money.maxSafeInteger]
  omega

theorem money_gbp (m : Money) : (⟨m.amount, .gbp⟩ : Money) = m := by
  cases m with
  | mk amount currency =>
    cases currency
    rfl

theorem readRate_blank (label : String) (maximum : Nat) :
    readRate "" label maximum = .error ("Give the " ++ label ++ " as a percentage, such as 15.") := by
  rw [readRate, trim_empty]
  rfl

theorem readFeePolicy_of {policy : CategoryFeePolicy} (hp : policy.Accepted) :
    readFeePolicy (.of policy) = if isFeePolicyConfigured policy then .ok policy
      else .error "Give the Owner commission as a percentage, such as 15." := by
  rw [FeePolicyFields.of]
  split
  · simp only [readFeePolicy]
    rw [readRate_percentFromBasisPoints _ hp.ownerCommission (by decide),
      readRate_percentFromBasisPoints _ hp.renterFee (by decide),
      readAmount_poundsOrBlank _ hp.bookingFloor.1 (maxPence_le hp.bookingFloor.2 (by decide)),
      readAmount_poundsOrBlank _ hp.feeFloor.1 (maxPence_le hp.feeFloor.2 (by decide))]
    simp only [Except.bind, Except.map, money_gbp]
  · simp only [readFeePolicy, readRate_blank, Except.bind]
    rfl

theorem readDamageSecurity_of {band : Option DamageSecurityPolicy} (hb : ∀ policy ∈ band, policy.Accepted) :
    readDamageSecurity (.of band) = if band.isSome then .ok band else .error sayWhetherRequired := by
  cases band with
  | none => rfl
  | some policy =>
    have hp := hb policy rfl
    have hrequired : (DamageSecurityFields.of (some policy)).choice = some damageSecurityRequired := rfl
    have hsome : some damageSecurityRequired ≠ some damageSecurityNone := by decide
    rw [readDamageSecurity, if_neg (hrequired ▸ hsome), if_neg (not_not.mpr hrequired)]
    simp only [DamageSecurityFields.of]
    rw [readAmount_poundsOrBlank _ hp.excessFloor.1 (maxPence_le hp.excessFloor.2 (by decide)),
      readRate_percentFromBasisPoints _ hp.excessPercentage (by decide),
      readAmount_poundsOrBlank_pos _ _ hp.recoveryCeiling.1 (maxPence_le hp.recoveryCeiling.2 (by decide))]
    simp only [Except.bind, if_neg (not_lt.mpr hp.recoveryCeiling.2), money_gbp, Option.isSome_some, if_true]

theorem readRate_rateOrBlank {rate : Option Money} (label : String) (h : ∀ m ∈ rate, rentalRateAccepted m) :
    RateCard.readRate (rateOrBlank rate) label = .ok rate := by
  rw [RateCard.readRate_eq_ok]
  cases rate with
  | none => exact .inl ⟨trim_empty, rfl⟩
  | some m =>
    obtain ⟨hmin, hmax⟩ := h m rfl
    exact .inr ⟨m, rfl, writesPounds_toMajorString (le_trans (by decide) hmin) (maxPence_le hmax (by decide))⟩

theorem readRateCard_of {rates : ListingRateCard} (h : rates.Accepted) :
    readRateCard (.of rates) = .ok rates := by
  have hdaily : ∀ m ∈ rates.daily, rentalRateAccepted m := fun m hm => h.each m (by simp_all)
  have hweekend : ∀ m ∈ rates.weekend, rentalRateAccepted m := fun m hm => h.each m (by simp_all)
  have hweekly : ∀ m ∈ rates.weekly, rentalRateAccepted m := fun m hm => h.each m (by simp_all)
  simp only [readRateCard, RateCardFields.of]
  rw [readRate_rateOrBlank _ hdaily, readRate_rateOrBlank _ hweekend, readRate_rateOrBlank _ hweekly]
  rfl

/-- A form that nobody types in saves what it shows, and never anything else. Of
terms the contracts accept, priced fees, a damage-security band, a rate card and a
replacement value come back to the penny and to the basis point; where there are
no fees or there is no band yet, the form asks for them. -/
theorem untouched_terms_are_kept {policy : CategoryFeePolicy} {band : Option DamageSecurityPolicy}
    {rates : ListingRateCard} {value : Money} (hpolicy : policy.Accepted)
    (hband : ∀ security ∈ band, security.Accepted) (hrates : rates.Accepted)
    (hvalue : replacementValueAccepted value) :
    readFeePolicy (.of policy) = (if isFeePolicyConfigured policy then .ok policy
      else .error "Give the Owner commission as a percentage, such as 15.") ∧
    readDamageSecurity (.of band) = (if band.isSome then .ok band else .error sayWhetherRequired) ∧
    readRateCard (.of rates) = .ok rates ∧
    readReplacementValue (toMajorString value) = .ok value :=
  ⟨readFeePolicy_of hpolicy, readDamageSecurity_of hband, readRateCard_of hrates,
    readReplacementValue_eq_ok.mpr (writesPounds_toMajorString (le_trans (by decide) hvalue.1)
      (maxPence_le hvalue.2 (by decide)))⟩

def sampleFees : CategoryFeePolicy := ⟨1250, 0, ⟨1000, .gbp⟩, ⟨0, .gbp⟩⟩

def sampleBand : DamageSecurityPolicy := ⟨⟨7500, .gbp⟩, 1005, ⟨50000, .gbp⟩⟩

def sampleRates : ListingRateCard := ⟨some ⟨1850, .gbp⟩, none, some ⟨9000, .gbp⟩⟩

theorem sampleFees_accepted : sampleFees.Accepted := by
  refine ⟨?_, ?_, ⟨?_, ?_⟩, ⟨?_, ?_⟩, rfl, ?_⟩ <;> decide

theorem sampleBand_accepted : sampleBand.Accepted := by
  refine ⟨⟨?_, ?_⟩, ?_, ⟨?_, ?_⟩, rfl, ?_⟩ <;> decide

theorem sampleRates_accepted : sampleRates.Accepted := by
  refine ⟨?_, nofun⟩
  intro rate hrate
  simp only [sampleRates, List.filterMap_cons, id, List.filterMap_nil, List.mem_cons, List.not_mem_nil,
    or_false] at hrate
  obtain rfl | rfl := hrate
  · exact ⟨by decide, by decide⟩
  · exact ⟨by decide, by decide⟩

theorem untouched_terms_are_kept_sample :
    readFeePolicy (.of sampleFees) = .ok sampleFees ∧
    readDamageSecurity (.of (some sampleBand)) = .ok (some sampleBand) ∧
    readRateCard (.of sampleRates) = .ok sampleRates ∧
    readReplacementValue (toMajorString ⟨30000, .gbp⟩) = .ok ⟨30000, .gbp⟩ := by
  have hband : ∀ security ∈ some sampleBand, security.Accepted := by
    rintro security ⟨⟩
    exact sampleBand_accepted
  exact untouched_terms_are_kept sampleFees_accepted hband sampleRates_accepted ⟨by decide, by decide⟩

end RentalMarket.Web
