import RentalMarket.Core.Allocation
import RentalMarket.Lib.Numeral

namespace RentalMarket.Core.Doubles

open Script (decimalParts digitsValue trim Numeral)

def minorUnitsPerMajor : Currency → Nat
  | .gbp => 100

/-- `String(scale).length - 1` -/
def decimals (currency : Currency) : Nat := (Nat.toDigits 10 (minorUnitsPerMajor currency)).length - 1

/-- `Number(digits)` -/
def numberOf (digits : List Char) : ℚ := double (digitsValue digits)

/-- `money` of an amount that was computed. -/
def moneyOf (amount : ℚ) (currency : Currency) : Except String Money :=
  if amount.den = 1 then Money.money amount.num currency
  else .error (Money.notAnInteger (toString amount))

def fromMajor (value : String) (currency : Currency) : Except String Money :=
  match decimalParts (trim value) with
  | none => .error ("Cannot parse \"" ++ value ++ "\" as a decimal amount")
  | some (negative, whole, fraction) =>
    if decimals currency < fraction.length then
      .error ("\"" ++ value ++ "\" has more than " ++ toString (decimals currency) ++ " decimal places for " ++
        currency.code)
    else
      let padded := fraction.rightpad (decimals currency) '0'
      let minor := double (double (numberOf whole * minorUnitsPerMajor currency) + numberOf padded)
      moneyOf (if negative then -minor else minor) currency

def toMajorString (m : Money) : String :=
  let scale := minorUnitsPerMajor m.currency
  let sign := if m.amount < 0 then ['-'] else []
  let whole := Nat.toDigits 10 (trunc (double ((m.amount.natAbs : ℚ) / scale))).toNat
  let fraction := (Nat.toDigits 10 (m.amount.natAbs % scale)).leftpad (decimals m.currency) '0'
  String.ofList (sign ++ whole ++ '.' :: fraction)

theorem numberOf_eq {digits : List Char} (h : digitsValue digits ≤ 2 ^ 53) : numberOf digits = digitsValue digits :=
  double_natCast h

theorem le_double_of_le {x : ℚ} (h : 2 ^ 53 ≤ x) : 2 ^ 53 ≤ double x := by
  have hpower : (2 : ℚ) ^ (53 : ℤ) = 2 ^ 53 := by norm_num
  rw [← hpower] at h ⊢
  exact power_le_double h

/-- The sum is exact, or it is out of range as the exact one is. -/
theorem minor_eq (w f scale : ℕ) (hscale : 1 ≤ scale) :
    (w * scale + f < 2 ^ 53 → double (double (double w * scale) + double f) = (w * scale + f : ℕ)) ∧
      (2 ^ 53 ≤ w * scale + f → 2 ^ 53 ≤ double (double (double w * scale) + double f)) := by
  have hf : (0 : ℚ) ≤ double f := double_nonneg (Nat.cast_nonneg f)
  constructor
  · intro hlt
    have hw : w ≤ w * scale := Nat.le_mul_of_pos_right w hscale
    have hproduct : (w : ℚ) * scale = (w * scale : ℕ) := by push_cast; rfl
    rw [double_natCast (by omega), hproduct, double_natCast (by omega), double_natCast (by omega), ← Nat.cast_add,
      double_natCast hlt.le]
  · intro hge
    apply le_double_of_le
    by_cases hproduct : 2 ^ 53 ≤ w * scale
    · have hlarge : 2 ^ 53 ≤ double (double w * scale) := by
        apply le_double_of_le
        by_cases hw : w < 2 ^ 53
        · rw [double_natCast hw.le]
          exact_mod_cast hproduct
        · have hdouble : 2 ^ 53 ≤ double w := le_double_of_le (by exact_mod_cast not_lt.mp hw)
          have hone : (1 : ℚ) ≤ scale := by exact_mod_cast hscale
          exact hdouble.trans (le_mul_of_one_le_right (le_trans (by positivity) hdouble) hone)
      linarith
    · have hw : w ≤ w * scale := Nat.le_mul_of_pos_right w hscale
      have hexact : (w : ℚ) * scale = (w * scale : ℕ) := by push_cast; rfl
      rw [double_natCast (by omega), hexact, double_natCast (by omega)]
      by_cases hlt : f < 2 ^ 53
      · rw [double_natCast hlt.le]
        exact_mod_cast hge
      · have hdouble : 2 ^ 53 ≤ double f := le_double_of_le (by exact_mod_cast not_lt.mp hlt)
        have hnonneg : (0 : ℚ) ≤ (w * scale : ℕ) := Nat.cast_nonneg _
        linarith

theorem moneyOf_intCast (n : ℤ) (c : Currency) : moneyOf n c = Money.money n c := by
  rw [moneyOf, if_pos (Rat.den_intCast n), Rat.num_intCast]

theorem moneyOf_eq_error {x : ℚ} (h : 2 ^ 53 ≤ |x|) (c : Currency) : ∃ message, moneyOf x c = .error message := by
  rw [moneyOf]
  split
  · rename_i hden
    have hx : (x.num : ℚ) = x := Rat.coe_int_num_of_den_eq_one hden
    rw [← hx] at h
    have hlarge : 2 ^ 53 ≤ |x.num| := by exact_mod_cast h
    refine ⟨_, if_neg ?_⟩
    rw [← abs_le, not_le]
    exact lt_of_lt_of_le (by decide) hlarge
  · exact ⟨_, rfl⟩

theorem minorUnitsPerMajor_eq (c : Currency) : minorUnitsPerMajor c = 10 ^ decimals c := by
  cases c
  decide

theorem digitsValue_minor {t : Numeral} {c : Currency} (h : t.fraction.length ≤ decimals c) :
    digitsValue (t.scaledDigits (decimals c)) =
      digitsValue t.whole * minorUnitsPerMajor c + digitsValue (t.fraction.rightpad (decimals c) '0') := by
  have hlength : (t.fraction.rightpad (decimals c) '0').length = decimals c := by
    rw [List.length_rightpad, Nat.max_eq_left h]
  rw [Numeral.scaledDigits, Script.digitsValue_append, hlength, minorUnitsPerMajor_eq, Nat.mul_comm]

theorem abs_scaled (t : Numeral) (places : Nat) : |t.scaled places| = digitsValue (t.scaledDigits places) := by
  rw [Numeral.scaled]
  split
  · rw [abs_neg, Nat.abs_cast]
  · exact Nat.abs_cast _

/-- Exactly the amounts that are written with few enough digits and are safe are read. -/
theorem fromMajor_eq_ok {s : String} {c : Currency} {m : Money} :
    fromMajor s c = .ok m ↔ ∃ t : Numeral, trim s = t.text ∧ t.fraction.length ≤ decimals c ∧
      |t.scaled (decimals c)| ≤ Money.maxSafeInteger ∧ m = ⟨t.scaled (decimals c), c⟩ := by
  rw [fromMajor]
  cases hparts : decimalParts (trim s) with
  | none =>
    constructor
    · intro h
      cases h
    · rintro ⟨t, htext, -⟩
      have hsome := Script.decimalParts_eq_some.mpr ⟨t, htext, rfl, rfl, rfl⟩
      cases hparts.symm.trans hsome
  | some parts =>
    obtain ⟨negative, whole, fraction⟩ := parts
    obtain ⟨t, htext, rfl, rfl, rfl⟩ := Script.decimalParts_eq_some.mp hparts
    have hunique (t' : Numeral) (htext' : trim s = t'.text) :
        t'.fraction = t.fraction ∧ t'.scaled (decimals c) = t.scaled (decimals c) := by
      have hparts' := Script.decimalParts_eq_some.mpr ⟨t', htext', rfl, rfl, rfl⟩
      rw [hparts, Option.some_inj, Prod.mk.injEq, Prod.mk.injEq] at hparts'
      obtain ⟨hnegative, hwhole, hfraction⟩ := hparts'
      rw [Numeral.scaled, Numeral.scaled, Numeral.scaledDigits, Numeral.scaledDigits, hnegative, hwhole, hfraction]
      exact ⟨rfl, rfl⟩
    dsimp only
    by_cases hlong : decimals c < t.fraction.length
    · rw [if_pos hlong]
      constructor
      · intro h
        cases h
      · rintro ⟨t', htext', hfits, -⟩
        rw [(hunique t' htext').1] at hfits
        exact absurd hlong (Nat.not_lt.mpr hfits)
    · have hfits := Nat.le_of_not_lt hlong
      have hscale : 1 ≤ minorUnitsPerMajor c := by
        rw [minorUnitsPerMajor_eq]
        exact Nat.one_le_pow _ _ (by decide)
      obtain ⟨hexact, hlarge⟩ := minor_eq (digitsValue t.whole) (digitsValue (t.fraction.rightpad (decimals c) '0'))
        (minorUnitsPerMajor c) hscale
      rw [← digitsValue_minor hfits] at hexact hlarge
      rw [if_neg hlong]
      change moneyOf (if t.negative = true then -double (double (double _ * _) + double _) else
        double (double (double _ * _) + double _)) c = .ok m ↔ _
      generalize double (double (double (digitsValue t.whole) * minorUnitsPerMajor c) +
        double (digitsValue (t.fraction.rightpad (decimals c) '0'))) = minor at hexact hlarge
      by_cases hsmall : digitsValue (t.scaledDigits (decimals c)) < 2 ^ 53
      · have hminor : (if t.negative = true then -minor else minor) = (t.scaled (decimals c) : ℤ) := by
          rw [hexact hsmall, Numeral.scaled]
          split <;> push_cast <;> rfl
        have hsafe : |t.scaled (decimals c)| ≤ Money.maxSafeInteger := by
          rw [abs_scaled, Money.maxSafeInteger]
          omega
        rw [hminor, moneyOf_intCast, Money.money, if_pos (abs_le.mp hsafe)]
        constructor
        · intro h
          cases h
          exact ⟨t, htext, hfits, hsafe, rfl⟩
        · rintro ⟨t', htext', -, -, rfl⟩
          rw [(hunique t' htext').2]
      · have hout : 2 ^ 53 ≤ |if t.negative = true then -minor else minor| := by
          have hmore := hlarge (Nat.le_of_not_lt hsmall)
          split
          · rw [abs_neg]
            exact hmore.trans (le_abs_self _)
          · exact hmore.trans (le_abs_self _)
        obtain ⟨message, hmessage⟩ := moneyOf_eq_error hout c
        rw [hmessage]
        constructor
        · intro h
          cases h
        · rintro ⟨t', htext', -, hsafe, -⟩
          rw [(hunique t' htext').2, abs_scaled, Money.maxSafeInteger] at hsafe
          omega

/-- The whole units and the rest, in two digits. -/
theorem toMajorString_eq (m : Money) (hsafe : |m.amount| ≤ Money.maxSafeInteger) : ∃ t : Numeral,
    toMajorString m = t.text ∧ t.fraction.length = decimals m.currency ∧
      t.scaled (decimals m.currency) = m.amount := by
  have hlt : m.amount.natAbs < 2 ^ 53 := by
    rw [Int.abs_eq_natAbs, Money.maxSafeInteger] at hsafe
    omega
  have hscale : 0 < minorUnitsPerMajor m.currency := by
    rw [minorUnitsPerMajor_eq]
    positivity
  have htrunc := trunc_double_div hlt hscale
  have hlength : ((Nat.toDigits 10 (m.amount.natAbs % minorUnitsPerMajor m.currency)).leftpad
      (decimals m.currency) '0').length = decimals m.currency := by
    have hrest : m.amount.natAbs % 100 < 100 := Nat.mod_lt _ (by decide)
    have hdigits : ∀ k < 100, (Nat.toDigits 10 k).length ≤ 2 := by decide
    cases m.currency
    rw [List.length_leftpad]
    exact Nat.max_eq_left (hdigits _ hrest)
  have hdigit : ∀ n, ∀ c ∈ Nat.toDigits 10 n, c.isDigit = true := fun n c hc =>
    Nat.isDigit_of_mem_toDigits (by decide) (by decide) hc
  refine ⟨⟨decide (m.amount < 0), Nat.toDigits 10 (m.amount.natAbs / minorUnitsPerMajor m.currency), _,
    Nat.toDigits_ne_nil, hdigit _, fun c hc => Script.isDigit_leftpad hc⟩, ?_, hlength, ?_⟩
  · have hne : (Nat.toDigits 10 (m.amount.natAbs % minorUnitsPerMajor m.currency)).leftpad
        (decimals m.currency) '0' ≠ [] := by
      intro hnil
      have hdecimals : decimals m.currency = 2 := by
        cases m.currency
        decide
      rw [hnil, List.length_nil] at hlength
      omega
    rw [toMajorString, Numeral.text, Script.decimalText, htrunc, Int.toNat_natCast, if_neg hne]
    simp only [decide_eq_true_eq]
  · have hvalue := digitsValue_minor (c := m.currency) (t := ⟨decide (m.amount < 0),
      Nat.toDigits 10 (m.amount.natAbs / minorUnitsPerMajor m.currency), _, Nat.toDigits_ne_nil, hdigit _,
      fun c hc => Script.isDigit_leftpad hc⟩) hlength.le
    have hpadded : ((Nat.toDigits 10 (m.amount.natAbs % minorUnitsPerMajor m.currency)).leftpad
        (decimals m.currency) '0').rightpad (decimals m.currency) '0' =
        (Nat.toDigits 10 (m.amount.natAbs % minorUnitsPerMajor m.currency)).leftpad (decimals m.currency) '0' := by
      rw [List.rightpad, hlength, Nat.sub_self, List.replicate_zero, List.append_nil]
    have hsum := Nat.div_add_mod' m.amount.natAbs (minorUnitsPerMajor m.currency)
    dsimp only at hvalue
    rw [hpadded, Script.digitsValue_leftpad, Script.digitsValue_toDigits, Script.digitsValue_toDigits, hsum] at hvalue
    rw [Numeral.scaled, hvalue]
    dsimp only
    split
    · rename_i hneg
      have := of_decide_eq_true hneg
      omega
    · rename_i hneg
      have : ¬ m.amount < 0 := fun h => hneg (decide_eq_true h)
      omega

theorem trim_text (t : Numeral) : trim t.text = t.text :=
  Script.trim_decimalText t.whole_digits t.whole_ne_nil t.fraction_digits

theorem fromMajor_toMajorString {m : Money} (hsafe : |m.amount| ≤ Money.maxSafeInteger) :
    fromMajor (toMajorString m) m.currency = .ok m := by
  obtain ⟨t, htext, hlength, hscaled⟩ := toMajorString_eq m hsafe
  apply fromMajor_eq_ok.mpr
  refine ⟨t, ?_, hlength.le, hscaled.symm ▸ hsafe, ?_⟩
  · rw [htext, trim_text]
  · rw [hscaled]

end RentalMarket.Core.Doubles
