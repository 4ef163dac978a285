import RentalMarket.Catalogue.StoredAnswers
import RentalMarket.Core.MajorUnits

namespace RentalMarket.Catalogue

open Script RentalMarket.Core
open RentalMarket.Core.Doubles (fromMajor toMajorString decimals minorUnitsPerMajor numberOf)

/-- `Number(digits)` is a safe integer when the digits write one, and is then the number they
write. `fromDecimalString` compares the digits. -/
theorem numberOf_safe_iff (digits : List Char) :
    (numberOf digits ≤ maxSafeInteger ↔ digitsValue digits ≤ maxSafeInteger) ∧
      (digitsValue digits ≤ maxSafeInteger → numberOf digits = digitsValue digits) := by
  have hexact (h : digitsValue digits ≤ maxSafeInteger) : numberOf digits = digitsValue digits :=
    Doubles.numberOf_eq (h.trans (Nat.sub_le _ _))
  refine ⟨⟨fun h => ?_, fun h => ?_⟩, hexact⟩
  · by_contra hlarge
    have hfar : 2 ^ 53 ≤ digitsValue digits := by
      rw [maxSafeInteger] at hlarge
      omega
    have hrounded : (2 ^ 53 : ℚ) ≤ numberOf digits := Doubles.le_double_of_le (by exact_mod_cast hfar)
    have hsmall : (2 ^ 53 : ℚ) ≤ maxSafeInteger := hrounded.trans h
    norm_num [maxSafeInteger] at hsmall
  · rw [hexact h]
    exact_mod_cast h

theorem fromDecimalString_iff {s : String} {places : Nat} {n : Int} :
    fromDecimalString s places = .ok n ↔ places ≤ maxDecimalPlaces ∧ n.natAbs ≤ maxSafeInteger ∧
      ∃ t : Numeral, trim s = t.text ∧ t.fraction.length ≤ places ∧ (n : ℚ) = t.value * 10 ^ places := by
  by_cases hplaces : places ≤ maxDecimalPlaces
  · rw [fromDecimalString_eq_ok hplaces]
    constructor
    · rintro ⟨negative, whole, fraction, hparts, hfits, hsafe, hn⟩
      obtain ⟨t, htext, rfl, rfl, rfl⟩ := decimalParts_eq_some.mp hparts
      change n = t.scaled places at hn
      refine ⟨hplaces, ?_, t, htext, hfits, ?_⟩
      · have habs := Doubles.abs_scaled t places
        rw [← hn, Int.abs_eq_natAbs] at habs
        rw [Numeral.scaledDigits] at habs
        omega
      · rw [hn, Numeral.scaled_eq hfits]
    · rintro ⟨-, hsafe, t, htext, hfits, hn⟩
      have hscaled : n = t.scaled places := by
        rw [← Numeral.scaled_eq hfits] at hn
        exact_mod_cast hn
      have habs := Doubles.abs_scaled t places
      rw [← hscaled, Int.abs_eq_natAbs, Numeral.scaledDigits] at habs
      exact ⟨_, _, _, decimalParts_eq_some.mpr ⟨t, htext, rfl, rfl, rfl⟩, hfits, by omega, hscaled⟩
  · have hlarge : 9 < places := Nat.not_le.mp hplaces
    rw [fromDecimalString, if_pos hlarge]
    constructor
    · intro h
      cases h
    · rintro ⟨hle, -⟩
      exact absurd hle hplaces

theorem fromMajor_iff {s : String} {c : Currency} {m : Money} :
    fromMajor s c = .ok m ↔ m.currency = c ∧ |m.amount| ≤ Money.maxSafeInteger ∧
      ∃ t : Numeral, trim s = t.text ∧ t.fraction.length ≤ decimals c ∧
        (m.amount : ℚ) = t.value * minorUnitsPerMajor c := by
  have hscale : (minorUnitsPerMajor c : ℚ) = 10 ^ decimals c := by
    rw [Doubles.minorUnitsPerMajor_eq]
    push_cast
    rfl
  rw [Doubles.fromMajor_eq_ok, hscale]
  constructor
  · rintro ⟨t, htext, hfits, hsafe, rfl⟩
    exact ⟨rfl, hsafe, t, htext, hfits, Numeral.scaled_eq hfits⟩
  · rintro ⟨rfl, hsafe, t, htext, hfits, hamount⟩
    have hscaled : t.scaled (decimals m.currency) = m.amount := by
      rw [← Numeral.scaled_eq hfits] at hamount
      exact_mod_cast hamount.symm
    exact ⟨t, htext, hfits, hscaled.symm ▸ hsafe, by rw [hscaled]⟩

/-- Amounts and scaled values come back from their texts, and each parser reads exactly the
numerals with few enough places and a safe value, without rounding. -/
theorem decimal_text_is_exact :
    (∀ m : Money, |m.amount| ≤ Money.maxSafeInteger → fromMajor (toMajorString m) m.currency = .ok m) ∧
    (∀ (n : Int) (places : Nat), places ≤ maxDecimalPlaces → n.natAbs ≤ maxSafeInteger →
      ∃ s, toDecimalString n places = .ok s ∧ fromDecimalString s places = .ok n) ∧
    (∀ (s : String) (c : Currency) (m : Money), fromMajor s c = .ok m ↔
      m.currency = c ∧ |m.amount| ≤ Money.maxSafeInteger ∧ ∃ t : Numeral, trim s = t.text ∧
        t.fraction.length ≤ decimals c ∧ (m.amount : ℚ) = t.value * minorUnitsPerMajor c) ∧
    ∀ (s : String) (places : Nat) (n : Int), fromDecimalString s places = .ok n ↔
      places ≤ maxDecimalPlaces ∧ n.natAbs ≤ maxSafeInteger ∧ ∃ t : Numeral, trim s = t.text ∧
        t.fraction.length ≤ places ∧ (n : ℚ) = t.value * 10 ^ places := by
  refine ⟨fun m hsafe => Doubles.fromMajor_toMajorString hsafe, ?_, fun s c m => fromMajor_iff,
    fun s places n => fromDecimalString_iff⟩
  intro n places hplaces hsafe
  refine ⟨decimalString n places, ?_, (read_decimalString hplaces hsafe).2.2⟩
  rw [toDecimalString, if_neg (Nat.not_lt.mpr hplaces), if_neg (Nat.not_lt.mpr hsafe)]

theorem fifty_pence_owed : fromMajor (toMajorString ⟨-50, .gbp⟩) .gbp = .ok ⟨-50, .gbp⟩ ∧
    toMajorString ⟨-50, .gbp⟩ = "-0.50" :=
  ⟨decimal_text_is_exact.1 ⟨-50, .gbp⟩ (by decide), by decide +kernel⟩

end RentalMarket.Catalogue
