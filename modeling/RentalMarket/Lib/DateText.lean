import RentalMarket.Lib.Civil

namespace RentalMarket.Civil

def padStart : Nat → Nat → List Char
  | 0, n => if n = 0 then [] else Nat.toDigits 10 n
  | width + 1, n => padStart width (n / 10) ++ [Nat.digitChar (n % 10)]

def digitsValue (cs : List Char) : Nat := cs.foldl (fun n c => 10 * n + (c.toNat - '0'.toNat)) 0

theorem digit_toNat (n : Nat) : (Nat.digitChar (n % 10)).toNat - '0'.toNat = n % 10 := by
  rw [Nat.toNat_digitChar_of_lt_ten (Nat.mod_lt n (by decide))]
  exact Nat.add_sub_cancel_left ..

theorem digitChar_toNat {c : Char} (h : c.isDigit = true) :
    Nat.digitChar ((c.toNat - '0'.toNat) % 10) = c := by
  obtain ⟨hle, hge⟩ := Char.isDigit_iff_toNat.mp h
  have h₀ : '0'.toNat = 48 := rfl
  have h₉ : '9'.toNat = 57 := rfl
  apply Char.toNat_inj.mp
  rw [Nat.toNat_digitChar_of_lt_ten (Nat.mod_lt _ (by decide))]
  omega

theorem digitChar_lt_iff {m n : Nat} :
    Nat.digitChar (m % 10) < Nat.digitChar (n % 10) ↔ m % 10 < n % 10 := by
  rw [Char.lt_def, UInt32.lt_iff_toNat_lt, Char.toNat_val, Char.toNat_val, Nat.toNat_digitChar_of_lt_ten (Nat.mod_lt _ (by decide)),
    Nat.toNat_digitChar_of_lt_ten (Nat.mod_lt _ (by decide))]
  omega

theorem digitChar_eq_iff {m n : Nat} :
    Nat.digitChar (m % 10) = Nat.digitChar (n % 10) ↔ m % 10 = n % 10 := by
  constructor
  · intro h
    rw [← digit_toNat m, h, digit_toNat]
  · intro h
    rw [h]

theorem digitChar_eq_of_mod {c : Char} {n : Nat} (h : c.isDigit = true) (hn : n % 10 = c.toNat - '0'.toNat) :
    Nat.digitChar (n % 10) = c := by
  rw [hn, ← digitChar_toNat h, digit_toNat]

theorem lex_last_digit {m n : Nat} {p : Prop} :
    m / 10 < n / 10 ∨ m / 10 = n / 10 ∧ (m % 10 < n % 10 ∨ m % 10 = n % 10 ∧ p) ↔ m < n ∨ m = n ∧ p := by
  by_cases hp : p
  · simp only [hp, and_true]
    omega
  · simp only [hp, and_false, or_false]
    omega

namespace Date

/-- A date can be written `YYYY-MM-DD`. -/
def Written (d : Date) : Prop := 0 ≤ d.year ∧ d.year ≤ 9999

instance (d : Date) : Decidable d.Written := inferInstanceAs (Decidable (_ ∧ _))

def yearText (year : Int) : List Char :=
  if year < 0 then '-' :: padStart 6 (-year).toNat
  else if 9999 < year then '+' :: padStart 6 year.toNat
  else padStart 4 year.toNat

def toISODate (d : Date) : String :=
  String.ofList (yearText d.year ++ '-' :: padStart 2 d.month.toNat ++ '-' :: padStart 2 d.day.toNat)

def ofParts (year month day : Int) : Option Date :=
  if h : (1 ≤ month ∧ month ≤ 12) ∧ 1 ≤ day ∧ day ≤ daysInMonth year month then
    some ⟨year, month, day, h.1, h.2⟩ else none

/-- Parse against the format `yyyy-MM-dd`. -/
def fromFormat (text : String) : Option Date :=
  match text.toList with
  | [y₁, y₂, y₃, y₄, '-', m₁, m₂, '-', d₁, d₂] =>
    if [y₁, y₂, y₃, y₄, m₁, m₂, d₁, d₂].all Char.isDigit then
      ofParts (digitsValue [y₁, y₂, y₃, y₄]) (digitsValue [m₁, m₂]) (digitsValue [d₁, d₂])
    else none
  | _ => none

theorem ofParts_self (d : Date) : ofParts d.year d.month d.day = some d := by
  rw [ofParts, dif_pos ⟨d.month_valid, d.day_valid⟩]

theorem ofParts_eq_some {year month day : Int} {d : Date} (h : ofParts year month day = some d) :
    d.year = year ∧ d.month = month ∧ d.day = day := by
  unfold ofParts at h
  split at h
  · cases h
    exact ⟨rfl, rfl, rfl⟩
  · cases h

theorem toList_toISODate {d : Date} (h : d.Written) : d.toISODate.toList =
    [Nat.digitChar (d.year.toNat / 10 / 10 / 10 % 10), Nat.digitChar (d.year.toNat / 10 / 10 % 10),
      Nat.digitChar (d.year.toNat / 10 % 10), Nat.digitChar (d.year.toNat % 10), '-',
      Nat.digitChar (d.month.toNat / 10 % 10), Nat.digitChar (d.month.toNat % 10), '-',
      Nat.digitChar (d.day.toNat / 10 % 10), Nat.digitChar (d.day.toNat % 10)] := by
  have hmonth := d.month_valid
  have hday := d.day_valid
  have hlen := (daysInMonth_bounds d.year d.month).2
  unfold Written at h
  have hy₀ : d.year.toNat / 10 / 10 / 10 / 10 = 0 := by omega
  have hm₀ : d.month.toNat / 10 / 10 = 0 := by omega
  have hd₀ : d.day.toNat / 10 / 10 = 0 := by omega
  rw [toISODate, String.toList_ofList, yearText, if_neg (by omega), if_neg (by omega)]
  simp [padStart, hy₀, hm₀, hd₀]

theorem fromFormat_toISODate {d : Date} (h : d.Written) : fromFormat d.toISODate = some d := by
  have hmonth := d.month_valid
  have hday := d.day_valid
  have hlen := (daysInMonth_bounds d.year d.month).2
  have hyear : (digitsValue [Nat.digitChar (d.year.toNat / 10 / 10 / 10 % 10),
      Nat.digitChar (d.year.toNat / 10 / 10 % 10), Nat.digitChar (d.year.toNat / 10 % 10),
      Nat.digitChar (d.year.toNat % 10)] : Int) = d.year := by
    unfold Written at h
    simp only [digitsValue, List.foldl_cons, List.foldl_nil, digit_toNat]
    omega
  have hmonth' : (digitsValue [Nat.digitChar (d.month.toNat / 10 % 10),
      Nat.digitChar (d.month.toNat % 10)] : Int) = d.month := by
    simp only [digitsValue, List.foldl_cons, List.foldl_nil, digit_toNat]
    omega
  have hday' : (digitsValue [Nat.digitChar (d.day.toNat / 10 % 10),
      Nat.digitChar (d.day.toNat % 10)] : Int) = d.day := by
    simp only [digitsValue, List.foldl_cons, List.foldl_nil, digit_toNat]
    omega
  rw [fromFormat, toList_toISODate h]
  simp only
  rw [if_pos (by simp [Nat.isDigit_digitChar, Nat.mod_lt]), hyear, hmonth', hday', ofParts_self]

/-- What parses is what the date is written as. -/
theorem fromFormat_eq_some {text : String} {d : Date} :
    fromFormat text = some d ↔ text = d.toISODate ∧ d.Written := by
  constructor
  · intro h
    unfold fromFormat at h
    split at h
    · rename_i y₁ y₂ y₃ y₄ m₁ m₂ d₁ d₂ htext
      split at h
      · rename_i hdigits
        simp only [List.all_cons, List.all_nil, Bool.and_true, Bool.and_eq_true] at hdigits
        obtain ⟨hy₁, hy₂, hy₃, hy₄, hm₁, hm₂, hd₁, hd₂⟩ := hdigits
        obtain ⟨hyear, hmonth, hday⟩ := ofParts_eq_some h
        have hvalue : ∀ c : Char, c.isDigit = true → c.toNat - '0'.toNat < 10 := by
          intro c hc
          have hle := (Char.isDigit_iff_toNat.mp hc).2
          have h₉ : '9'.toNat - '0'.toNat = 9 := rfl
          omega
        have v₁ := hvalue y₁ hy₁
        have v₂ := hvalue y₂ hy₂
        have v₃ := hvalue y₃ hy₃
        have v₄ := hvalue y₄ hy₄
        have v₅ := hvalue m₁ hm₁
        have v₆ := hvalue m₂ hm₂
        have v₇ := hvalue d₁ hd₁
        have v₈ := hvalue d₂ hd₂
        simp only [digitsValue, List.foldl_cons, List.foldl_nil] at hyear hmonth hday
        have hwritten : d.Written := by
          unfold Written
          omega
        refine ⟨String.toList_inj.mp ?_, hwritten⟩
        rw [htext, toList_toISODate hwritten, digitChar_eq_of_mod hy₁ (by omega),
          digitChar_eq_of_mod hy₂ (by omega), digitChar_eq_of_mod hy₃ (by omega),
          digitChar_eq_of_mod hy₄ (by omega), digitChar_eq_of_mod hm₁ (by omega),
          digitChar_eq_of_mod hm₂ (by omega), digitChar_eq_of_mod hd₁ (by omega),
          digitChar_eq_of_mod hd₂ (by omega)]
      · cases h
    · cases h
  · rintro ⟨rfl, h⟩
    exact fromFormat_toISODate h

theorem isDigit_head_toISODate {d : Date} :
    d.toISODate.toList.head?.map Char.isDigit = some true ↔ d.Written := by
  constructor
  · intro h
    by_contra hd
    unfold Written at hd
    rw [toISODate, String.toList_ofList, yearText] at h
    by_cases hneg : d.year < 0
    · rw [if_pos hneg] at h
      cases h
    · rw [if_neg hneg, if_pos (by omega)] at h
      cases h
  · intro h
    rw [toList_toISODate h]
    simp [Nat.isDigit_digitChar, Nat.mod_lt]

theorem toISODate_eq_iff {d e : Date} (he : e.Written) : d.toISODate = e.toISODate ↔ d = e := by
  constructor
  · intro h
    have hd : d.Written := by
      rw [← isDigit_head_toISODate, h, isDigit_head_toISODate]
      exact he
    have hparse := fromFormat_toISODate hd
    rw [h, fromFormat_toISODate he] at hparse
    exact (Option.some.inj hparse).symm
  · intro h
    rw [h]

theorem toISODate_lt_iff {d e : Date} (hd : d.Written) (he : e.Written) :
    d.toISODate < e.toISODate ↔ d.number < e.number := by
  have hdm := d.month_valid
  have hem := e.month_valid
  have hdd := d.day_valid
  have hed := e.day_valid
  have hdl := (daysInMonth_bounds d.year d.month).2
  have hel := (daysInMonth_bounds e.year e.month).2
  rw [number_lt_iff, String.lt_iff, toList_toISODate hd, toList_toISODate he]
  unfold Written at hd he
  simp only [List.cons_lt_cons_iff, digitChar_lt_iff, digitChar_eq_iff, lt_irrefl, false_or, true_and,
    and_false, or_false]
  rw [Nat.mod_eq_of_lt (by omega : d.year.toNat / 10 / 10 / 10 < 10),
    Nat.mod_eq_of_lt (by omega : e.year.toNat / 10 / 10 / 10 < 10),
    Nat.mod_eq_of_lt (by omega : d.month.toNat / 10 < 10),
    Nat.mod_eq_of_lt (by omega : e.month.toNat / 10 < 10),
    Nat.mod_eq_of_lt (by omega : d.day.toNat / 10 < 10),
    Nat.mod_eq_of_lt (by omega : e.day.toNat / 10 < 10), lex_last_digit, lex_last_digit, lex_last_digit,
    lex_last_digit]
  omega

theorem toISODate_le_iff {d e : Date} (hd : d.Written) (he : e.Written) :
    d.toISODate ≤ e.toISODate ↔ d.number ≤ e.number := by
  rw [← not_lt, toISODate_lt_iff he hd, not_lt]

/-- Written dates lie between the first day of the year 0 and the last of the
year 9999. -/
theorem written_ofNumber_iff {n : Int} : (ofNumber n).Written ↔ -366 ≤ n ∧ n < 3652059 := by
  have hfirst : 0 ≤ monthOfDay n ↔ -366 ≤ n := le_monthOfDay_iff
  have hlast : 120000 ≤ monthOfDay n ↔ 3652059 ≤ n := le_monthOfDay_iff
  simp only [Written, ofNumber]
  omega

theorem written_iff {d : Date} : d.Written ↔ -366 ≤ d.number ∧ d.number < 3652059 := by
  rw [← written_ofNumber_iff, ofNumber_number]

end Date

end RentalMarket.Civil
