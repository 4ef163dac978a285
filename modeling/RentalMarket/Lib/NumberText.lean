import RentalMarket.Lib.Binary
import RentalMarket.Lib.Decimal

namespace RentalMarket.Script

/-- The gap between the doubles about a magnitude, which does not shrink below the
smallest of them. -/
def gap (x : ℚ) : ℚ := 2 ^ max (Int.log 2 x - 52) (-1074)

/-- The double for a magnitude that is not too large for one. -/
def toDouble (x : ℚ) : ℚ := Binary.halfEven (x / gap x) * gap x

def IsMagnitude (x : ℚ) : Prop := ∃ (m : ℕ) (e : ℤ), m < 2 ^ 53 ∧ -1074 ≤ e ∧ e ≤ 971 ∧ x = m * 2 ^ e

/-- A finite number. There is a negative zero. -/
structure Double where
  negative : Bool
  magnitude : ℚ
  finite : IsMagnitude magnitude

/-- A whole number that is exact. There is none beyond what 53 binary digits write. -/
def Double.ofInt (n : ℤ) : Option Double :=
  if h : n.natAbs < 2 ^ 53 then some ⟨decide (n < 0), n.natAbs, n.natAbs, 0, h, by decide, by decide, by simp⟩ else none

/-- What `===` compares. -/
def Double.value (x : Double) : ℚ := if x.negative then -x.magnitude else x.magnitude

/-- The nearest of the two whole numbers about `x / scale` that, scaled, is rounded to `x`. -/
def significand (x scale : ℚ) : Option ℕ :=
  let below := ⌊x / scale⌋₊
  let above := ⌈x / scale⌉₊
  let nearer := x - below * scale < above * scale - x ∨ x - below * scale = above * scale - x ∧ Even below
  if toDouble (below * scale) = x ∧ (nearer ∨ toDouble (above * scale) ≠ x) then some below
  else if toDouble (above * scale) = x then some above
  else none

/-- A whole number and a power of ten, whose product is rounded to `x`, with as few
digits as there can be: `k` or more. Seventeen are enough for every double; where the
search would end, the decimal is the magnitude itself. -/
def shortest (x : ℚ) : ℕ → ℕ → ℕ × ℤ
  | 0, _ => (⌊x * 10 ^ 1074⌋₊, -1074)
  | fuel + 1, k =>
    let exponent := Int.log 10 x + 1 - k
    match significand x (10 ^ exponent) with
    | some s => (s, exponent)
    | none => shortest x fuel (k + 1)

/-- The text of `0.digits × 10 ^ n`. -/
def layout (digits : List Char) (n : ℤ) : List Char :=
  if digits.length ≤ n ∧ n ≤ 21 then digits ++ List.replicate (n - digits.length).toNat '0'
  else if 0 < n ∧ n ≤ 21 then digits.take n.toNat ++ '.' :: digits.drop n.toNat
  else if -6 < n ∧ n ≤ 0 then '0' :: '.' :: (List.replicate (-n).toNat '0' ++ digits)
  else
    digits.take 1 ++ (if digits.length = 1 then [] else '.' :: digits.drop 1) ++
      'e' :: (if n - 1 < 0 then '-' else '+') :: Nat.toDigits 10 (n - 1).natAbs

def magnitudeText (x : ℚ) : List Char :=
  if x = 0 then ['0']
  else
    let (s, exponent) := shortest x 17 1
    layout ((Nat.toDigits 10 s).rdropWhile (· = '0')) (exponent + (Nat.toDigits 10 s).length)

/-- `String(x)` -/
def numberText (x : Double) : List Char :=
  if x.negative ∧ x.magnitude ≠ 0 then '-' :: magnitudeText x.magnitude else magnitudeText x.magnitude

example : String.ofList (magnitudeText (toDouble (toDouble (1 / 10) + toDouble (2 / 10)))) = "0.30000000000000004" := by
  decide +kernel

/-- What a text with neither a sign nor white space says: `Number` rounds it. -/
def textValue (t : List Char) : ℚ :=
  let mantissa := t.takeWhile (· ≠ 'e')
  let whole := mantissa.takeWhile (· ≠ '.')
  let fraction := (mantissa.dropWhile (· ≠ '.')).tail
  digitsValue (whole ++ fraction) * 10 ^ (exponentValue (t.dropWhile (· ≠ 'e')).tail - fraction.length)
where
  exponentValue : List Char → ℤ
    | [] => 0
    | sign :: digits => if sign = '-' then -digitsValue digits else digitsValue digits

section

variable {x scale : ℚ}

theorem gap_pos : 0 < gap x := zpow_pos (by norm_num) _

theorem toDouble_zero : toDouble 0 = 0 := by
  rw [toDouble, zero_div]
  have h : Binary.halfEven 0 = 0 := by decide +kernel
  rw [h, Int.cast_zero, zero_mul]

theorem halfEven_intCast (n : ℤ) : Binary.halfEven n = n := by
  rw [Binary.halfEven, Int.fract_intCast, Int.floor_intCast]
  exact if_pos (.inl (by norm_num))

theorem IsMagnitude.nonneg (h : IsMagnitude x) : 0 ≤ x := by
  obtain ⟨m, e, -, -, -, rfl⟩ := h
  positivity

theorem toDouble_magnitude (h : IsMagnitude x) : toDouble x = x := by
  obtain ⟨m, e, hm, he, -, hx⟩ := h
  by_cases hzero : x = 0
  · rw [hzero, toDouble_zero]
  have hpos : 0 < x := by
    apply lt_of_le_of_ne _ (Ne.symm hzero)
    rw [hx]
    positivity
  have hlog : Int.log 2 x < 53 + e := by
    rw [← Int.lt_zpow_iff_log_lt one_lt_two hpos, Nat.cast_ofNat, zpow_add₀ two_ne_zero, hx]
    apply mul_lt_mul_of_pos_right _ (zpow_pos two_pos e)
    exact_mod_cast hm
  have hle : max (Int.log 2 x - 52) (-1074) ≤ e := by
    rw [max_le_iff]
    exact ⟨by omega, he⟩
  have hwhole : x / gap x = ((m * 2 ^ (e - max (Int.log 2 x - 52) (-1074)).toNat : ℤ) : ℚ) := by
    have hpow : (2 : ℚ) ^ e = 2 ^ (e - max (Int.log 2 x - 52) (-1074)) * gap x := by
      rw [gap, ← zpow_add₀ two_ne_zero, sub_add_cancel]
    obtain ⟨n, hn⟩ := Int.eq_ofNat_of_zero_le (sub_nonneg.mpr hle)
    rw [hn, zpow_natCast] at hpow
    rw [div_eq_iff gap_pos.ne', hn, Int.toNat_natCast]
    push_cast
    rw [mul_assoc, ← hpow]
    exact hx
  rw [toDouble, hwhole, halfEven_intCast, ← hwhole, div_mul_cancel₀ _ gap_pos.ne']

theorem toDouble_significand {s : ℕ} (h : significand x scale = some s) : toDouble (s * scale) = x := by
  rw [significand] at h
  split at h
  · rename_i hbelow
    obtain rfl := Option.some.inj h
    exact hbelow.1
  · split at h
    · rename_i habove
      obtain rfl := Option.some.inj h
      exact habove
    · cases h

theorem floor_mul_pow_ten {e : ℤ} {k : ℕ} (m : ℕ) (he : -(k : ℤ) ≤ e) :
    ((⌊(m * 2 ^ e * 10 ^ k : ℚ)⌋₊ : ℕ) : ℚ) * 10 ^ (-(k : ℤ)) = m * 2 ^ e := by
  obtain ⟨n, hn⟩ := Int.eq_ofNat_of_zero_le (by omega : 0 ≤ e + k)
  have hten : (10 : ℚ) ^ k = 2 ^ (k : ℤ) * 5 ^ k := by
    rw [zpow_natCast, ← mul_pow]
    norm_num
  have hwhole : (m * 2 ^ e * 10 ^ k : ℚ) = ((m * 2 ^ n * 5 ^ k : ℕ) : ℚ) := by
    push_cast
    rw [hten, mul_assoc, ← mul_assoc (2 ^ e), ← zpow_add₀ two_ne_zero, hn, zpow_natCast, mul_assoc]
  rw [hwhole, Nat.floor_natCast, ← hwhole, zpow_neg, zpow_natCast]
  exact mul_inv_cancel_right₀ (pow_ne_zero k (by norm_num)) _

theorem toDouble_shortest (hx : IsMagnitude x) (fuel k : ℕ) :
    toDouble ((shortest x fuel k).1 * 10 ^ (shortest x fuel k).2) = x := by
  induction fuel generalizing k with
  | zero =>
    obtain ⟨m, e, -, he, -, hm⟩ := id hx
    have hexact := floor_mul_pow_ten (k := 1074) m (by simpa using he)
    rw [← hm, Nat.cast_ofNat] at hexact
    rw [shortest, hexact, toDouble_magnitude hx]
  | succ fuel ih =>
    rw [shortest]
    cases hs : significand x (10 ^ (Int.log 10 x + 1 - k)) with
    | some s => exact toDouble_significand hs
    | none => exact ih (k + 1)

end

structure Decimal where
  whole : List Char
  fraction : List Char
  exponent : List Char
  wholeDigits : ∀ c ∈ whole, c.isDigit = true
  wholeSome : whole ≠ []
  fractionDigits : ∀ c ∈ fraction, c.isDigit = true
  exponentForm : exponent = [] ∨ ∃ sign digits, exponent = 'e' :: sign :: digits ∧ (sign = '-' ∨ sign = '+') ∧
    ∀ c ∈ digits, c.isDigit = true

namespace Decimal

def text (d : Decimal) : List Char := decimalText false d.whole d.fraction ++ d.exponent

def value (d : Decimal) : ℚ :=
  digitsValue (d.whole ++ d.fraction) * 10 ^ (textValue.exponentValue d.exponent.tail - d.fraction.length)

theorem ne_of_isDigit {c d : Char} (hc : c.isDigit = true) (hd : d.isDigit = false) : c ≠ d := by
  rintro rfl
  exact Bool.false_ne_true (hd.symm.trans hc)

theorem span_append {sep : Char} {u v : List Char} (hu : ∀ c ∈ u, c ≠ sep) (hv : v = [] ∨ ∃ rest, v = sep :: rest) :
    (u ++ v).takeWhile (· ≠ sep) = u ∧ (u ++ v).dropWhile (· ≠ sep) = v := by
  have hpos : ∀ c ∈ u, decide (c ≠ sep) = true := fun c hc => decide_eq_true (hu c hc)
  rw [List.takeWhile_append_of_pos hpos, List.dropWhile_append_of_pos hpos]
  rcases hv with rfl | ⟨rest, rfl⟩
  · exact ⟨List.append_nil u, rfl⟩
  · simp

theorem mem_mantissa (d : Decimal) {c : Char} (hc : c ∈ decimalText false d.whole d.fraction) :
    c.isDigit = true ∨ c = '.' := by
  rcases List.mem_append.mp hc with hwhole | hrest
  · exact .inl (d.wholeDigits c hwhole)
  · split at hrest
    · exact absurd hrest List.not_mem_nil
    · rcases List.mem_cons.mp hrest with rfl | hfraction
      · exact .inr rfl
      · exact .inl (d.fractionDigits c hfraction)

theorem textValue_text (d : Decimal) : textValue d.text = d.value := by
  have hmantissa : ∀ c ∈ decimalText false d.whole d.fraction, c ≠ 'e' := by
    intro c hc
    rcases d.mem_mantissa hc with hdigit | rfl
    · exact ne_of_isDigit hdigit rfl
    · decide
  have hexponent : d.exponent = [] ∨ ∃ rest, d.exponent = 'e' :: rest := by
    rcases d.exponentForm with h | ⟨sign, digits, h, -⟩
    · exact .inl h
    · exact .inr ⟨sign :: digits, h⟩
  have hwhole : ∀ c ∈ d.whole, c ≠ '.' := fun c hc => ne_of_isDigit (d.wholeDigits c hc) rfl
  have hpoint : (if d.fraction = [] then [] else '.' :: d.fraction) = [] ∨
      ∃ rest, (if d.fraction = [] then [] else '.' :: d.fraction) = '.' :: rest := by
    split
    · exact .inl rfl
    · exact .inr ⟨d.fraction, rfl⟩
  have htail : (if d.fraction = [] then [] else '.' :: d.fraction).tail = d.fraction := by
    split
    · rename_i hnil
      exact hnil.symm
    · rfl
  obtain ⟨htake, hdrop⟩ := span_append hmantissa hexponent
  obtain ⟨htake', hdrop'⟩ := span_append hwhole hpoint
  rw [textValue, text, htake, hdrop]
  change (digitsValue ((d.whole ++ if d.fraction = [] then [] else '.' :: d.fraction).takeWhile (· ≠ '.') ++
    ((d.whole ++ if d.fraction = [] then [] else '.' :: d.fraction).dropWhile (· ≠ '.')).tail) : ℚ) * 10 ^
      (_ - (((d.whole ++ if d.fraction = [] then [] else '.' :: d.fraction).dropWhile (· ≠ '.')).tail.length : ℤ)) = _
  rw [htake', hdrop', htail, value]

def IsMark (c : Char) : Prop := c.isDigit = true ∨ c = '.' ∨ c = 'e' ∨ c = '-' ∨ c = '+'

theorem isMark_of_mem_text (d : Decimal) : ∀ c ∈ d.text, IsMark c := by
  intro c hc
  rcases List.mem_append.mp hc with hmantissa | hexponent
  · rcases d.mem_mantissa hmantissa with hdigit | rfl
    · exact .inl hdigit
    · exact .inr (.inl rfl)
  · rcases d.exponentForm with h | ⟨sign, digits, h, hsign, hdigits⟩
    · rw [h] at hexponent
      exact absurd hexponent List.not_mem_nil
    · rw [h, List.mem_cons, List.mem_cons] at hexponent
      rcases hexponent with rfl | rfl | hdigit
      · exact .inr (.inr (.inl rfl))
      · exact .inr (.inr (.inr hsign))
      · exact .inl (hdigits c hdigit)

theorem head_text (d : Decimal) : ∃ c rest, d.text = c :: rest ∧ c.isDigit = true := by
  obtain ⟨c, rest, hwhole⟩ := List.exists_cons_of_ne_nil d.wholeSome
  refine ⟨c, rest ++ (if d.fraction = [] then [] else '.' :: d.fraction) ++ d.exponent, ?_, ?_⟩
  · rw [text, decimalText, hwhole]
    rfl
  · exact d.wholeDigits c (hwhole ▸ List.mem_cons_self)

end Decimal

theorem digitsValue_append_zeros (digits : List Char) (k : ℕ) :
    digitsValue (digits ++ List.replicate k '0') = digitsValue digits * 10 ^ k := by
  change Nat.ofDigitChars 10 (digits ++ List.replicate k '0') 0 = Nat.ofDigitChars 10 digits 0 * 10 ^ k
  rw [Nat.ofDigitChars_append, Nat.ofDigitChars_replicate_zero, Nat.mul_comm]

theorem digitsValue_zeros_append (digits : List Char) (k : ℕ) :
    digitsValue (List.replicate k '0' ++ digits) = digitsValue digits := by
  change Nat.ofDigitChars 10 (List.replicate k '0' ++ digits) 0 = Nat.ofDigitChars 10 digits 0
  rw [Nat.ofDigitChars_append, Nat.ofDigitChars_replicate_zero, Nat.mul_zero]

theorem exponentValue_sign (n : ℤ) :
    textValue.exponentValue ((if n < 0 then '-' else '+') :: Nat.toDigits 10 n.natAbs) = n := by
  rw [textValue.exponentValue, digitsValue_toDigits]
  by_cases hn : n < 0
  · rw [if_pos hn, if_pos rfl]
    omega
  · rw [if_neg hn, if_neg (by decide)]
    omega

/-- However it is laid out, the text says the number. -/
theorem layout_eq_decimal {digits : List Char} (hdigits : ∀ c ∈ digits, c.isDigit = true) (hne : digits ≠ []) (n : ℤ) :
    ∃ d : Decimal, layout digits n = d.text ∧ d.value = digitsValue digits * 10 ^ (n - digits.length) := by
  have hzero : ∀ k, ∀ c ∈ List.replicate k '0', c.isDigit = true := by
    intro k c hc
    rw [List.eq_of_mem_replicate hc]
    rfl
  have hlength : 0 < digits.length := List.length_pos_iff.mpr hne
  rw [layout]
  split
  · rename_i hwhole
    refine ⟨⟨digits ++ List.replicate (n - digits.length).toNat '0', [], [], ?_, ?_, ?_, .inl rfl⟩, ?_, ?_⟩
    · intro c hc
      exact (List.mem_append.mp hc).elim (hdigits c) (hzero _ c)
    · exact List.append_ne_nil_of_left_ne_nil hne _
    · exact fun c hc => absurd hc List.not_mem_nil
    · simp [Decimal.text, decimalText]
    · obtain ⟨k, hk⟩ := Int.eq_ofNat_of_zero_le (sub_nonneg.mpr hwhole.1)
      simp only [Decimal.value, List.append_nil, digitsValue_append_zeros, hk, Int.toNat_natCast, List.tail_nil,
        textValue.exponentValue, List.length_nil, Nat.cast_zero, sub_zero, zpow_zero, mul_one, zpow_natCast]
      push_cast
      rfl
  · split
    · rename_i hlarge hpoint
      refine ⟨⟨digits.take n.toNat, digits.drop n.toNat, [], ?_, ?_, ?_, .inl rfl⟩, ?_, ?_⟩
      · exact fun c hc => hdigits c (List.mem_of_mem_take hc)
      · rw [Ne, List.take_eq_nil_iff, not_or]
        exact ⟨by omega, hne⟩
      · exact fun c hc => hdigits c (List.mem_of_mem_drop hc)
      · have hfraction : digits.drop n.toNat ≠ [] := by
          rw [Ne, List.drop_eq_nil_iff]
          omega
        simp [Decimal.text, decimalText, hfraction]
      · have hplaces : -((digits.drop n.toNat).length : ℤ) = n - digits.length := by
          rw [List.length_drop]
          omega
        simp only [Decimal.value, List.take_append_drop, List.tail_nil, textValue.exponentValue, zero_sub, hplaces]
    · split
      · rename_i hlarge hpoint hsmall
        refine ⟨⟨['0'], List.replicate (-n).toNat '0' ++ digits, [], ?_, ?_, ?_, .inl rfl⟩, ?_, ?_⟩
        · exact hzero 1
        · exact List.cons_ne_nil _ _
        · intro c hc
          exact (List.mem_append.mp hc).elim (hzero _ c) (hdigits c)
        · simp [Decimal.text, decimalText, hne]
        · have hplaces : -((List.replicate (-n).toNat '0' ++ digits).length : ℤ) = n - digits.length := by
            rw [List.length_append, List.length_replicate]
            omega
          have hvalue := digitsValue_zeros_append digits ((-n).toNat + 1)
          rw [List.replicate_succ, List.cons_append] at hvalue
          simp only [Decimal.value, List.cons_append, List.nil_append, hvalue, List.tail_nil, textValue.exponentValue,
            zero_sub, hplaces]
      · rename_i hlarge hpoint hsmall
        refine ⟨⟨digits.take 1, digits.drop 1, 'e' :: (if n - 1 < 0 then '-' else '+') ::
          Nat.toDigits 10 (n - 1).natAbs, ?_, ?_, ?_, .inr ⟨_, _, rfl, ?_, ?_⟩⟩, ?_, ?_⟩
        · exact fun c hc => hdigits c (List.mem_of_mem_take hc)
        · rw [Ne, List.take_eq_nil_iff, not_or]
          exact ⟨one_ne_zero, hne⟩
        · exact fun c hc => hdigits c (List.mem_of_mem_drop hc)
        · split
          · exact .inl rfl
          · exact .inr rfl
        · exact fun c hc => Nat.isDigit_of_mem_toDigits (by decide) (by decide) hc
        · have hdrop : digits.drop 1 = [] ↔ digits.length = 1 := by
            rw [List.drop_eq_nil_iff]
            omega
          simp only [Decimal.text, decimalText, hdrop, Bool.false_eq_true, if_false, List.nil_append, List.append_assoc]
        · have hplaces : n - 1 - ((digits.drop 1).length : ℤ) = n - digits.length := by
            rw [List.length_drop]
            omega
          simp only [Decimal.value, List.take_append_drop, List.tail_cons, exponentValue_sign, hplaces]

theorem exists_zeros (l : List Char) : ∃ k, l = l.rdropWhile (· = '0') ++ List.replicate k '0' := by
  induction l using List.reverseRecOn with
  | nil => exact ⟨0, rfl⟩
  | append_singleton l c ih =>
    by_cases hc : c = '0'
    · obtain ⟨k, hk⟩ := ih
      refine ⟨k + 1, ?_⟩
      rw [List.rdropWhile_concat_pos _ _ _ (by simpa using hc), List.replicate_succ', ← List.append_assoc, ← hk, hc]
    · refine ⟨0, ?_⟩
      rw [List.rdropWhile_concat_neg _ _ _ (by simpa using hc)]
      exact (List.append_nil _).symm

/-- The number that a magnitude is printed as is rounded to it. -/
theorem magnitudeText_eq {x : ℚ} (hx : IsMagnitude x) : ∃ d : Decimal, magnitudeText x = d.text ∧ toDouble d.value = x := by
  by_cases hzero : x = 0
  · refine ⟨⟨['0'], [], [], ?_, List.cons_ne_nil _ _, fun c hc => absurd hc List.not_mem_nil, .inl rfl⟩, ?_, ?_⟩
    · exact List.forall_mem_singleton.mpr rfl
    · rw [magnitudeText, if_pos hzero]
      rfl
    · have hvalue : digitsValue ['0'] = 0 := rfl
      rw [hzero, Decimal.value, List.append_nil, hvalue, Nat.cast_zero, zero_mul, toDouble_zero]
  · have hround := toDouble_shortest hx 17 1
    rw [magnitudeText, if_neg hzero]
    generalize shortest x 17 1 = found at hround
    obtain ⟨s, exponent⟩ := found
    obtain ⟨k, hk⟩ := exists_zeros (Nat.toDigits 10 s)
    have hvalue := digitsValue_append_zeros ((Nat.toDigits 10 s).rdropWhile (· = '0')) k
    rw [← hk, digitsValue_toDigits] at hvalue
    have hne : (Nat.toDigits 10 s).rdropWhile (· = '0') ≠ [] := by
      intro hnil
      have hs : s = 0 := by
        rw [hvalue, hnil]
        exact Nat.zero_mul _
      apply hzero
      rw [← hround, hs, Nat.cast_zero, zero_mul, toDouble_zero]
    have hdigits : ∀ c ∈ (Nat.toDigits 10 s).rdropWhile (· = '0'), c.isDigit = true := by
      intro c hc
      exact Nat.isDigit_of_mem_toDigits (by decide) (by decide) ((List.rdropWhile_prefix _ _).subset hc)
    obtain ⟨d, htext, hd⟩ := layout_eq_decimal hdigits hne (exponent + (Nat.toDigits 10 s).length)
    refine ⟨d, htext, ?_⟩
    have hplaces : exponent + ((Nat.toDigits 10 s).length : ℤ) - ((Nat.toDigits 10 s).rdropWhile (· = '0')).length =
        k + exponent := by
      have hlength := congrArg List.length hk
      rw [List.length_append, List.length_replicate] at hlength
      omega
    rw [hd, hplaces, zpow_add₀ (by norm_num), zpow_natCast, ← mul_assoc]
    rw [hvalue] at hround
    exact_mod_cast hround

/-- `Number(String(x))` -/
theorem toDouble_textValue {x : ℚ} (hx : IsMagnitude x) : toDouble (textValue (magnitudeText x)) = x := by
  obtain ⟨d, htext, hround⟩ := magnitudeText_eq hx
  rw [htext, Decimal.textValue_text, hround]

theorem isMark_of_mem_numberText (x : Double) : ∀ c ∈ numberText x, Decimal.IsMark c := by
  obtain ⟨d, htext, -⟩ := magnitudeText_eq x.finite
  rw [numberText, htext]
  split
  · intro c hc
    rcases List.mem_cons.mp hc with rfl | hc
    · exact .inr (.inr (.inr (.inl rfl)))
    · exact d.isMark_of_mem_text c hc
  · exact d.isMark_of_mem_text

theorem head_numberText (x : Double) : ∃ c rest, numberText x = c :: rest ∧ (c = '-' ∨ c.isDigit = true) := by
  obtain ⟨d, htext, -⟩ := magnitudeText_eq x.finite
  obtain ⟨c, rest, hhead, hc⟩ := d.head_text
  rw [numberText, htext, hhead]
  split
  · exact ⟨'-', c :: rest, rfl, .inl rfl⟩
  · exact ⟨c, rest, rfl, .inr hc⟩

theorem magnitudeText_ne_minus {x : ℚ} (hx : IsMagnitude x) (rest : List Char) : magnitudeText x ≠ '-' :: rest := by
  obtain ⟨d, htext, -⟩ := magnitudeText_eq hx
  obtain ⟨c, rest', hhead, hc⟩ := d.head_text
  rw [htext, hhead]
  rintro h
  rw [(List.cons.inj h).1] at hc
  cases hc

theorem magnitudeText_injective {x y : ℚ} (hx : IsMagnitude x) (hy : IsMagnitude y)
    (h : magnitudeText x = magnitudeText y) : x = y := by
  rw [← toDouble_textValue hx, h, toDouble_textValue hy]

namespace Double

variable {x y : Double}

theorem value_of_ofInt {n : ℤ} (h : ofInt n = some x) : x.value = n := by
  rw [ofInt] at h
  split at h
  · obtain rfl := Option.some.inj h
    rw [value]
    by_cases hn : n < 0
    · rw [if_pos (decide_eq_true hn)]
      change -((n.natAbs : ℕ) : ℚ) = n
      rw [Nat.cast_natAbs, abs_of_neg hn, Int.cast_neg, neg_neg]
    · rw [if_neg (by simpa using hn)]
      change ((n.natAbs : ℕ) : ℚ) = n
      rw [Nat.cast_natAbs, abs_of_nonneg (not_lt.mp hn)]
  · cases h

theorem value_of_signed (h : x.negative ∧ x.magnitude ≠ 0) : x.value = -x.magnitude := if_pos h.1

theorem value_of_unsigned (h : ¬(x.negative ∧ x.magnitude ≠ 0)) : x.value = x.magnitude := by
  rw [value]
  split
  · rename_i hnegative
    rw [not_not.mp (fun hne => h ⟨hnegative, hne⟩), neg_zero]
  · rfl

theorem magnitude_pos (h : x.negative ∧ x.magnitude ≠ 0) : 0 < x.magnitude :=
  lt_of_le_of_ne x.finite.nonneg (Ne.symm h.2)

end Double

theorem numberText_eq_iff {x y : Double} : numberText x = numberText y ↔ x.value = y.value := by
  rw [numberText, numberText]
  by_cases hx : x.negative ∧ x.magnitude ≠ 0
  · rw [if_pos hx, Double.value_of_signed hx]
    by_cases hy : y.negative ∧ y.magnitude ≠ 0
    · rw [if_pos hy, Double.value_of_signed hy, neg_inj]
      constructor
      · exact fun h => magnitudeText_injective x.finite y.finite (List.cons.inj h).2
      · exact fun h => congrArg (fun m => '-' :: magnitudeText m) h
    · rw [if_neg hy, Double.value_of_unsigned hy]
      constructor
      · exact fun h => absurd h.symm (magnitudeText_ne_minus y.finite _)
      · intro h
        have hpos := Double.magnitude_pos hx
        have hnonneg := y.finite.nonneg
        linarith
  · rw [if_neg hx, Double.value_of_unsigned hx]
    by_cases hy : y.negative ∧ y.magnitude ≠ 0
    · rw [if_pos hy, Double.value_of_signed hy]
      constructor
      · exact fun h => absurd h (magnitudeText_ne_minus x.finite _)
      · intro h
        have hpos := Double.magnitude_pos hy
        have hnonneg := x.finite.nonneg
        linarith
    · rw [if_neg hy, Double.value_of_unsigned hy]
      exact ⟨magnitudeText_injective x.finite y.finite, congrArg magnitudeText⟩

end RentalMarket.Script
