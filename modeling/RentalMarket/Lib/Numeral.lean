import RentalMarket.Lib.Decimal

namespace RentalMarket.Script

/-- A text of the pattern `^-?\d+(?:\.\d+)?$`, by its parts. -/
structure Numeral where
  negative : Bool
  whole : List Char
  fraction : List Char
  whole_ne_nil : whole ≠ []
  whole_digits : ∀ c ∈ whole, c.isDigit = true
  fraction_digits : ∀ c ∈ fraction, c.isDigit = true

namespace Numeral

def text (t : Numeral) : String := String.ofList (decimalText t.negative t.whole t.fraction)

def value (t : Numeral) : ℚ :=
  (if t.negative then -1 else 1) * (digitsValue (t.whole ++ t.fraction) / 10 ^ t.fraction.length)

def scaledDigits (t : Numeral) (places : Nat) : List Char := t.whole ++ t.fraction.rightpad places '0'

def scaled (t : Numeral) (places : Nat) : Int :=
  if t.negative then -(digitsValue (t.scaledDigits places) : Int) else digitsValue (t.scaledDigits places)

end Numeral

theorem digitsValue_append (digits digits' : List Char) :
    digitsValue (digits ++ digits') = 10 ^ digits'.length * digitsValue digits + digitsValue digits' := by
  change Nat.ofDigitChars 10 (digits ++ digits') 0 = _
  rw [Nat.ofDigitChars_append, Nat.ofDigitChars_eq_ofDigitChars_zero]
  rfl

theorem digitsValue_zeros (n : Nat) : digitsValue (List.replicate n '0') = 0 := by
  change Nat.ofDigitChars 10 (List.replicate n '0') 0 = 0
  rw [Nat.ofDigitChars_replicate_zero, Nat.mul_zero]

/-- What follows the sign is digits, and perhaps a point and more digits. -/
theorem unsigned_parts {body whole fraction : List Char} {negative negative' : Bool}
    (h : (if body.takeWhile Char.isDigit = [] then none
      else
        match body.dropWhile Char.isDigit with
        | [] => some (negative, body.takeWhile Char.isDigit, [])
        | point :: rest =>
          if point = '.' ∧ rest ≠ [] ∧ rest.all Char.isDigit then
            some (negative, body.takeWhile Char.isDigit, rest)
          else none) = some (negative', whole, fraction)) :
    negative = negative' ∧ body = whole ++ (if fraction = [] then [] else '.' :: fraction) ∧ whole ≠ [] ∧
      (∀ c ∈ whole, c.isDigit = true) ∧ ∀ c ∈ fraction, c.isDigit = true := by
  have hsplit : body.takeWhile Char.isDigit ++ body.dropWhile Char.isDigit = body := List.takeWhile_append_dropWhile
  have hdigits : ∀ c ∈ body.takeWhile Char.isDigit, c.isDigit = true := fun c hc => List.mem_takeWhile_imp hc
  by_cases hne : body.takeWhile Char.isDigit = []
  · rw [if_pos hne] at h
    cases h
  rw [if_neg hne] at h
  cases hrest : body.dropWhile Char.isDigit with
  | nil =>
    rw [hrest] at h hsplit
    cases h
    exact ⟨rfl, hsplit.symm, hne, hdigits, fun c hc => absurd hc List.not_mem_nil⟩
  | cons point rest =>
    rw [hrest] at h hsplit
    dsimp only at h
    by_cases hpoint : point = '.' ∧ rest ≠ [] ∧ rest.all Char.isDigit
    · rw [if_pos hpoint] at h
      cases h
      obtain ⟨rfl, hsome, hall⟩ := hpoint
      rw [if_neg hsome]
      exact ⟨rfl, hsplit.symm, hne, hdigits, List.all_eq_true.mp hall⟩
    · rw [if_neg hpoint] at h
      cases h

theorem decimalParts_eq_some {s : String} {negative : Bool} {whole fraction : List Char} :
    decimalParts s = some (negative, whole, fraction) ↔ ∃ t : Numeral, s = t.text ∧ t.negative = negative ∧
      t.whole = whole ∧ t.fraction = fraction := by
  constructor
  · intro h
    by_cases hsign : s.toList.head? = some '-'
    · obtain ⟨body, hs⟩ : ∃ body, s.toList = '-' :: body := by
        cases hlist : s.toList with
        | nil => rw [hlist] at hsign; cases hsign
        | cons c body =>
          rw [hlist] at hsign
          cases hsign
          exact ⟨body, rfl⟩
      simp only [decimalParts, hs, List.head?_cons, decide_true, if_true, List.tail_cons] at h
      obtain ⟨rfl, hbody, hne, hwhole, hfraction⟩ := unsigned_parts h
      refine ⟨⟨true, whole, fraction, hne, hwhole, hfraction⟩, ?_, rfl, rfl, rfl⟩
      rw [Numeral.text, decimalText, ← String.ofList_toList (s := s), hs, hbody]
      rfl
    · simp only [decimalParts, hsign, decide_false, Bool.false_eq_true, if_false] at h
      obtain ⟨rfl, hbody, hne, hwhole, hfraction⟩ := unsigned_parts h
      refine ⟨⟨false, whole, fraction, hne, hwhole, hfraction⟩, ?_, rfl, rfl, rfl⟩
      rw [Numeral.text, decimalText, ← String.ofList_toList (s := s), hbody]
      rfl
  · rintro ⟨t, rfl, rfl, rfl, rfl⟩
    exact decimalParts_decimalText t.whole_digits t.whole_ne_nil t.fraction_digits

theorem Numeral.scaled_eq {t : Numeral} {places : Nat} (h : t.fraction.length ≤ places) :
    (t.scaled places : ℚ) = t.value * 10 ^ places := by
  obtain ⟨zeros, rfl⟩ := Nat.exists_eq_add_of_le h
  have hdigits : (digitsValue (t.scaledDigits (t.fraction.length + zeros)) : ℚ) =
      digitsValue (t.whole ++ t.fraction) * 10 ^ zeros := by
    rw [Numeral.scaledDigits, List.rightpad, Nat.add_sub_cancel_left, ← List.append_assoc, digitsValue_append,
      digitsValue_zeros, List.length_replicate]
    push_cast
    ring
  have hmagnitude : (digitsValue (t.whole ++ t.fraction) / 10 ^ t.fraction.length : ℚ) *
      10 ^ (t.fraction.length + zeros) = digitsValue (t.whole ++ t.fraction) * 10 ^ zeros := by
    rw [pow_add, ← mul_assoc, div_mul_cancel₀ _ (by positivity)]
  rw [Numeral.value, mul_assoc, hmagnitude, ← hdigits, Numeral.scaled]
  split
  · push_cast
    ring
  · rw [one_mul, Int.cast_natCast]

end RentalMarket.Script
