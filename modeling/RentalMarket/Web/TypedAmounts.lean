import RentalMarket.Catalogue.DecimalText

namespace RentalMarket.Web

open Script RentalMarket.Core
open RentalMarket.Core.Doubles (fromMajor toMajorString)

/-- The digits before and after the point of a text that `^\d+(?:\.\d+)?$` matches. -/
def digitParts (text : String) : Option (List Char × List Char) :=
  match decimalParts text with
  | some (false, whole, fraction) => some (whole, fraction)
  | _ => none

/-- `^\d{1,3}(?:\.\d{1,2})?$`, and the number its digits write at the scale. -/
def basisPointsFromPercent (text : String) : Option Nat :=
  (digitParts text).bind (fun parts =>
    if parts.1.length ≤ 3 ∧ parts.2.length ≤ 2 then some (digitsValue (parts.1 ++ parts.2.rightpad 2 '0'))
    else none)

/-- `.replace(/0$/, '')` -/
def dropLastZero (digits : List Char) : List Char :=
  if digits.getLast? = some '0' then digits.dropLast else digits

def percentFromBasisPoints (basisPoints : Nat) : String :=
  let whole := Nat.toDigits 10 (basisPoints / 100)
  let fraction := (Nat.toDigits 10 (basisPoints % 100)).leftpad 2 '0'
  String.ofList (if fraction = ['0', '0'] then whole else whole ++ '.' :: dropLastZero fraction)

/-- A rate as it is typed. The maximum over a hundred is written as any percentage is. -/
def readRate (raw label : String) (maximumBasisPoints : Nat) : Except String Nat :=
  let trimmed := trim raw
  if trimmed = "" then .error ("Give the " ++ label ++ " as a percentage, such as 15.")
  else if trimmed.toList.getLast? = some '%' then
    .error (label ++ ": give the number only, without the % sign — such as 15.")
  else match basisPointsFromPercent trimmed with
    | none => .error (label ++ " must be a percentage with at most two decimal places, such as 15 or 12.5.")
    | some bp =>
      if maximumBasisPoints < bp then
        .error (label ++ " cannot exceed " ++ percentFromBasisPoints maximumBasisPoints ++ "%.")
      else .ok bp

/-- `^\d+(?:\.\d{1,2})?$` -/
def isPounds (text : String) : Bool := (digitParts text).any (fun parts => decide (parts.2.length ≤ 2))

def notPounds (label sample : String) : String :=
  label ++ " must be an amount in pounds, such as " ++ sample ++
    " — digits only, no currency symbol and no thousands separator."

/-- What the readers of an amount do once it is known not to be blank. -/
def readPounds (label sample trimmed : String) : Except String Money :=
  if isPounds trimmed then
    match fromMajor trimmed .gbp with
    | .ok m => .ok m
    | .error message => .error (label ++ ": " ++ message)
  else .error (notPounds label sample)

def readAmount (raw label : String) (whenBlank : Except String Int) : Except String Int :=
  if trim raw = "" then whenBlank else (readPounds label "10.00" (trim raw)).map (·.amount)

def readReplacementValue (raw : String) : Except String Money :=
  if trim raw = "" then .error "Give what it would cost to replace the item."
  else readPounds "Replacement value" "249.99" (trim raw)

namespace RateCard

/-- The `readRate` of the rate card. A rate left blank is not offered. -/
def readRate (raw label : String) : Except String (Option Money) :=
  if trim raw = "" then .ok none else (readPounds label "18.00" (trim raw)).map some

end RateCard

/-- The text writes an amount: digits, at most two of them pence, and no more than is safe. -/
def WritesPounds (text : String) (pence : Int) : Prop :=
  ∃ t : Numeral, text = t.text ∧ t.negative = false ∧ t.fraction.length ≤ 2 ∧
    (pence : ℚ) = t.value * 100 ∧ pence ≤ Money.maxSafeInteger

/-- The text writes a percentage, of as many digits as the pattern takes. -/
def WritesPercent (text : String) (basisPoints : Nat) : Prop :=
  ∃ t : Numeral, text = t.text ∧ t.negative = false ∧ t.whole.length ≤ 3 ∧ t.fraction.length ≤ 2 ∧
    (basisPoints : ℚ) = t.value * 100

theorem digitParts_eq_some {text : String} {whole fraction : List Char} :
    digitParts text = some (whole, fraction) ↔
      ∃ t : Numeral, text = t.text ∧ t.negative = false ∧ t.whole = whole ∧ t.fraction = fraction := by
  rw [← decimalParts_eq_some, digitParts]
  split
  · rename_i hparts
    rw [hparts, Option.some_inj, Option.some_inj, Prod.mk.injEq, Prod.mk.injEq, Prod.mk.injEq]
    exact (and_iff_right rfl).symm
  · rename_i hnot
    exact iff_of_false nofun (fun h => hnot _ _ h)

theorem scaled_two {t : Numeral} (hpositive : t.negative = false) (hfits : t.fraction.length ≤ 2) :
    (digitsValue (t.whole ++ t.fraction.rightpad 2 '0') : ℚ) = t.value * 100 := by
  have hscaled := Numeral.scaled_eq hfits
  rw [Numeral.scaled, if_neg (by simp [hpositive])] at hscaled
  rw [Numeral.scaledDigits] at hscaled
  norm_num at hscaled ⊢
  exact hscaled

theorem basisPointsFromPercent_eq_some {text : String} {basisPoints : Nat} :
    basisPointsFromPercent text = some basisPoints ↔ WritesPercent text basisPoints := by
  rw [basisPointsFromPercent, Option.bind_eq_some_iff]
  constructor
  · rintro ⟨⟨whole, fraction⟩, hparts, h⟩
    obtain ⟨t, rfl, hpositive, rfl, rfl⟩ := digitParts_eq_some.mp hparts
    split at h
    · rename_i hfits
      cases h
      exact ⟨t, rfl, hpositive, hfits.1, hfits.2, scaled_two hpositive hfits.2⟩
    · cases h
  · rintro ⟨t, rfl, hpositive, hwhole, hfraction, hvalue⟩
    refine ⟨_, digitParts_eq_some.mpr ⟨t, rfl, hpositive, rfl, rfl⟩, ?_⟩
    rw [if_pos ⟨hwhole, hfraction⟩, Option.some_inj]
    rw [← scaled_two hpositive hfraction] at hvalue
    exact_mod_cast hvalue.symm

theorem isPounds_iff {text : String} : isPounds text = true ↔
    ∃ t : Numeral, text = t.text ∧ t.negative = false ∧ t.fraction.length ≤ 2 := by
  rw [isPounds, Option.any_eq_true]
  constructor
  · rintro ⟨⟨whole, fraction⟩, hparts, h⟩
    obtain ⟨t, rfl, hpositive, rfl, rfl⟩ := digitParts_eq_some.mp hparts
    exact ⟨t, rfl, hpositive, of_decide_eq_true h⟩
  · rintro ⟨t, rfl, hpositive, hfits⟩
    exact ⟨_, digitParts_eq_some.mpr ⟨t, rfl, hpositive, rfl, rfl⟩, decide_eq_true hfits⟩

theorem parts_unique {t t' : Numeral} (h : t.text = t'.text) :
    t.negative = t'.negative ∧ t.fraction = t'.fraction := by
  have hparts := decimalParts_eq_some.mpr ⟨t, rfl, rfl, rfl, rfl⟩
  rw [h, decimalParts_eq_some.mpr ⟨t', rfl, rfl, rfl, rfl⟩, Option.some_inj, Prod.mk.injEq, Prod.mk.injEq] at hparts
  exact ⟨hparts.1.symm, hparts.2.2.symm⟩

theorem numeral_nonneg {t : Numeral} (hpositive : t.negative = false) : 0 ≤ t.value := by
  rw [Numeral.value, if_neg (by simp [hpositive]), one_mul]
  positivity

/-- Exactly the amounts that are written are read. -/
theorem readPounds_eq_ok {label sample text : String} {m : Money} (htrimmed : trim text = text) :
    readPounds label sample text = .ok m ↔ WritesPounds text m.amount := by
  have hread : fromMajor text .gbp = .ok m ↔ ∃ t : Numeral, text = t.text ∧ t.fraction.length ≤ 2 ∧
      (m.amount : ℚ) = t.value * 100 ∧ |m.amount| ≤ Money.maxSafeInteger := by
    rw [Catalogue.fromMajor_iff, htrimmed]
    have hcurrency : m.currency = .gbp := by
      cases m.currency
      rfl
    constructor
    · rintro ⟨-, hsafe, t, htext, hfits, hvalue⟩
      exact ⟨t, htext, hfits, hvalue, hsafe⟩
    · rintro ⟨t, htext, hfits, hvalue, hsafe⟩
      exact ⟨hcurrency, hsafe, t, htext, hfits, hvalue⟩
  rw [readPounds]
  split
  · rename_i hpounds
    obtain ⟨t, rfl, hpositive, hfits⟩ := isPounds_iff.mp hpounds
    constructor
    · intro h
      split at h
      · rename_i m' hm
        cases h
        obtain ⟨t', htext, -, hvalue, hsafe⟩ := hread.mp hm
        obtain ⟨hsign, hfraction⟩ := parts_unique htext
        exact ⟨t', htext, hsign ▸ hpositive, hfraction ▸ hfits, hvalue, (abs_le.mp hsafe).2⟩
      · cases h
    · rintro ⟨t', htext, hpositive', hfits', hvalue, hsafe⟩
      have hamount : 0 ≤ m.amount := by
        have hnonneg := numeral_nonneg hpositive'
        have : (0 : ℚ) ≤ m.amount := by
          rw [hvalue]
          positivity
        exact_mod_cast this
      rw [hread.mpr ⟨t', htext, hfits', hvalue, abs_le.mpr ⟨by omega, hsafe⟩⟩]
  · rename_i hnot
    refine iff_of_false nofun ?_
    rintro ⟨t, htext, hpositive, hfits, -⟩
    exact hnot (isPounds_iff.mpr ⟨t, htext, hpositive, hfits⟩)

theorem numeral_text_ne_empty (t : Numeral) : t.text ≠ "" := by
  intro h
  have hparts := decimalParts_eq_some.mpr ⟨t, rfl, rfl, rfl, rfl⟩
  rw [h] at hparts
  cases hparts

theorem percent_not_mem (t : Numeral) : '%' ∉ t.text.toList := by
  have hdigit : ∀ digits : List Char, (∀ c ∈ digits, c.isDigit = true) → '%' ∉ digits := by
    intro digits h hmem
    cases h _ hmem
  rw [Numeral.text, String.toList_ofList, decimalText, List.mem_append, List.mem_append, not_or, not_or]
  refine ⟨⟨?_, hdigit _ t.whole_digits⟩, ?_⟩
  · split <;> decide
  · split
    · exact List.not_mem_nil
    · rw [List.mem_cons, not_or]
      exact ⟨by decide, hdigit _ t.fraction_digits⟩

theorem readRate_eq_ok {raw label : String} {maximum basisPoints : Nat} :
    readRate raw label maximum = .ok basisPoints ↔
      WritesPercent (trim raw) basisPoints ∧ basisPoints ≤ maximum := by
  rw [readRate]
  split
  · rename_i hblank
    refine iff_of_false nofun ?_
    rintro ⟨⟨t, htext, -⟩, -⟩
    exact numeral_text_ne_empty t (htext.symm.trans hblank)
  · split
    · rename_i hlast
      refine iff_of_false nofun ?_
      rintro ⟨⟨t, htext, -⟩, -⟩
      rw [htext] at hlast
      exact percent_not_mem t (List.mem_of_getLast? hlast)
    · rw [← basisPointsFromPercent_eq_some]
      cases hread : basisPointsFromPercent (trim raw) with
      | none => exact iff_of_false nofun (fun h => nomatch h.1)
      | some bp =>
        rw [Option.some_inj]
        dsimp only
        split
        · rename_i hlarge
          refine iff_of_false nofun ?_
          rintro ⟨rfl, hle⟩
          exact Nat.not_le.mpr hlarge hle
        · rename_i hle
          rw [Except.ok.injEq]
          refine ⟨?_, fun h => h.1⟩
          rintro rfl
          exact ⟨rfl, Nat.not_lt.mp hle⟩

theorem writesPounds_ne_empty {text : String} {pence : Int} (h : WritesPounds text pence) : text ≠ "" := by
  obtain ⟨t, rfl, -⟩ := h
  exact numeral_text_ne_empty t

theorem readAmount_eq_ok {raw label : String} {whenBlank : Except String Int} {pence : Int} :
    readAmount raw label whenBlank = .ok pence ↔
      trim raw = "" ∧ whenBlank = .ok pence ∨ WritesPounds (trim raw) pence := by
  rw [readAmount]
  split
  · rename_i hblank
    rw [and_iff_right hblank, or_iff_left (fun h => writesPounds_ne_empty h hblank)]
  · rename_i hsome
    rw [or_iff_right (fun h => hsome h.1), Refusal.map_eq_ok]
    constructor
    · rintro ⟨m, hm, rfl⟩
      exact (readPounds_eq_ok (trim_trim raw)).mp hm
    · exact fun h => ⟨⟨pence, .gbp⟩, (readPounds_eq_ok (trim_trim raw)).mpr h, rfl⟩

theorem readReplacementValue_eq_ok {raw : String} {m : Money} :
    readReplacementValue raw = .ok m ↔ WritesPounds (trim raw) m.amount := by
  rw [readReplacementValue]
  split
  · rename_i hblank
    exact iff_of_false nofun (fun h => writesPounds_ne_empty h hblank)
  · exact readPounds_eq_ok (trim_trim raw)

theorem RateCard.readRate_eq_ok {raw label : String} {rate : Option Money} :
    RateCard.readRate raw label = .ok rate ↔
      trim raw = "" ∧ rate = none ∨ ∃ m, rate = some m ∧ WritesPounds (trim raw) m.amount := by
  rw [RateCard.readRate]
  split
  · rename_i hblank
    rw [Except.ok.injEq, and_iff_right hblank, eq_comm, or_iff_left]
    rintro ⟨m, -, h⟩
    exact writesPounds_ne_empty h hblank
  · rename_i hsome
    rw [or_iff_right (fun h => hsome h.1), Refusal.map_eq_ok]
    constructor
    · rintro ⟨m, hm, rfl⟩
      exact ⟨m, rfl, (readPounds_eq_ok (trim_trim raw)).mp hm⟩
    · rintro ⟨m, rfl, h⟩
      exact ⟨m, (readPounds_eq_ok (trim_trim raw)).mpr h, rfl⟩

/-- What is typed is what is saved. A rate or an amount is read exactly as the
decimal numeral that is typed, in basis points or in pence, and is refused rather
than rounded; and the three readers of an amount take the same texts and read the
same number of pence. -/
theorem what_is_typed_is_what_is_saved (raw label : String) :
    (∀ maximum basisPoints, readRate raw label maximum = .ok basisPoints ↔
      WritesPercent (trim raw) basisPoints ∧ basisPoints ≤ maximum) ∧
    (∀ whenBlank pence, readAmount raw label whenBlank = .ok pence ↔
      trim raw = "" ∧ whenBlank = .ok pence ∨ WritesPounds (trim raw) pence) ∧
    (∀ rate, RateCard.readRate raw label = .ok rate ↔
      trim raw = "" ∧ rate = none ∨ ∃ m, rate = some m ∧ WritesPounds (trim raw) m.amount) ∧
    ∀ m, readReplacementValue raw = .ok m ↔ WritesPounds (trim raw) m.amount :=
  ⟨fun _ _ => readRate_eq_ok, fun _ _ => readAmount_eq_ok, fun _ => RateCard.readRate_eq_ok,
    fun _ => readReplacementValue_eq_ok⟩

end RentalMarket.Web
