import Mathlib.Data.List.DropRight
import RentalMarket.Lib.Script

namespace RentalMarket.Script

theorem trim_eq_self {s : String} (hfirst : ∀ c ∈ s.toList.head?, isSpace c = false)
    (hlast : ∀ c ∈ s.toList.getLast?, isSpace c = false) : trim s = s := by
  have hleft : s.toList.dropWhile isSpace = s.toList := by
    cases hlist : s.toList with
    | nil => rfl
    | cons c cs =>
      apply List.dropWhile_cons_of_neg
      rw [hfirst c (by rw [hlist, List.head?_cons, Option.mem_some_iff])]
      exact Bool.false_ne_true
  have hright : s.toList.rdropWhile isSpace = s.toList := by
    apply List.rdropWhile_eq_self_iff.mpr
    intro hne
    rw [hlast _ (List.getLast?_eq_some_getLast hne)]
    exact Bool.false_ne_true
  change String.ofList ((s.toList.dropWhile isSpace).rdropWhile isSpace) = s
  rw [hleft, hright, String.ofList_toList]

theorem trim_trim (s : String) : trim (trim s) = trim s := by
  change String.ofList (((String.ofList ((s.toList.dropWhile isSpace).rdropWhile isSpace)).toList.dropWhile
    isSpace).rdropWhile isSpace) = String.ofList ((s.toList.dropWhile isSpace).rdropWhile isSpace)
  have hhead : ((s.toList.dropWhile isSpace).rdropWhile isSpace).dropWhile isSpace =
      (s.toList.dropWhile isSpace).rdropWhile isSpace := by
    cases hlist : (s.toList.dropWhile isSpace).rdropWhile isSpace with
    | nil => rfl
    | cons c cs =>
      -- what is left begins as what was left after the first pass
      obtain ⟨rest, hprefix⟩ := List.rdropWhile_prefix isSpace (s.toList.dropWhile isSpace)
      rw [hlist] at hprefix
      apply List.dropWhile_cons_of_neg
      have hfirst : (s.toList.dropWhile isSpace).head? = some c := by
        rw [← hprefix]
        rfl
      have hnot := List.head?_dropWhile_not isSpace s.toList
      rw [hfirst] at hnot
      simpa using hnot
  rw [String.toList_ofList, hhead, List.rdropWhile_idempotent]

theorem isSpace_of_isDigit {c : Char} (h : c.isDigit = true) : isSpace c = false := by
  obtain ⟨hle, hge⟩ := Char.isDigit_iff_toNat.mp h
  have h₀ : '0'.toNat = 48 := rfl
  have h₉ : '9'.toNat = 57 := rfl
  rw [isSpace]
  apply decide_eq_false
  omega

theorem digitsValue_toDigits (n : Nat) : digitsValue (Nat.toDigits 10 n) = n :=
  Nat.ofDigitChars_toDigits (by decide) (by decide)

theorem digitsValue_leftpad (width : Nat) (digits : List Char) :
    digitsValue (digits.leftpad width '0') = digitsValue digits := by
  change Nat.ofDigitChars 10 (List.replicate (width - digits.length) '0' ++ digits) 0 = digitsValue digits
  rw [Nat.ofDigitChars_append, Nat.ofDigitChars_replicate_zero, Nat.mul_zero]
  rfl

theorem isDigit_leftpad {width n : Nat} {c : Char} (h : c ∈ (Nat.toDigits 10 n).leftpad width '0') :
    c.isDigit = true := by
  obtain hzero | hdigit := List.mem_append.mp h
  · rw [List.eq_of_mem_replicate hzero]
    rfl
  · exact Nat.isDigit_of_mem_toDigits (by decide) (by decide) hdigit

def decimalText (negative : Bool) (whole fraction : List Char) : List Char :=
  (if negative then ['-'] else []) ++ whole ++ if fraction = [] then [] else '.' :: fraction

section DecimalText

variable {negative : Bool} {whole fraction : List Char}

theorem decimalParts_decimalText (hwhole : ∀ c ∈ whole, c.isDigit = true) (hne : whole ≠ [])
    (hfraction : ∀ c ∈ fraction, c.isDigit = true) :
    decimalParts (String.ofList (decimalText negative whole fraction)) = some (negative, whole, fraction) := by
  have hsign : decide ((decimalText negative whole fraction).head? = some '-') = negative := by
    cases negative with
    | true => rfl
    | false =>
      obtain ⟨c, cs, rfl⟩ := List.exists_cons_of_ne_nil hne
      have hc := hwhole c List.mem_cons_self
      apply decide_eq_false
      intro h
      cases h
      cases hc
  have hbody : (if negative then (decimalText negative whole fraction).tail
      else decimalText negative whole fraction) = whole ++ if fraction = [] then [] else '.' :: fraction := by
    cases negative <;> rfl
  have htake : (whole ++ if fraction = [] then [] else '.' :: fraction).takeWhile Char.isDigit = whole := by
    rw [List.takeWhile_append_of_pos hwhole]
    split <;> simp
  have hdrop : (whole ++ if fraction = [] then [] else '.' :: fraction).dropWhile Char.isDigit =
      if fraction = [] then [] else '.' :: fraction := by
    rw [List.dropWhile_append_of_pos hwhole]
    split <;> simp
  simp only [decimalParts, String.toList_ofList, hsign, hbody, htake, hdrop, if_neg hne]
  by_cases hnil : fraction = []
  · simp only [hnil, if_true]
  · have hall : fraction.all Char.isDigit = true := List.all_eq_true.mpr hfraction
    simp only [hnil, if_false]
    exact if_pos ⟨trivial, hnil, hall⟩

theorem trim_decimalText (hwhole : ∀ c ∈ whole, c.isDigit = true) (hne : whole ≠ [])
    (hfraction : ∀ c ∈ fraction, c.isDigit = true) :
    trim (String.ofList (decimalText negative whole fraction)) =
      String.ofList (decimalText negative whole fraction) := by
  apply trim_eq_self
  · intro c hc
    rw [String.toList_ofList] at hc
    cases negative with
    | true =>
      cases hc
      decide
    | false =>
      obtain ⟨d, ds, rfl⟩ := List.exists_cons_of_ne_nil hne
      cases hc
      exact isSpace_of_isDigit (hwhole c List.mem_cons_self)
  · intro c hc
    rw [String.toList_ofList, decimalText] at hc
    apply isSpace_of_isDigit
    by_cases hnil : fraction = []
    · rw [if_pos hnil, List.append_nil, List.getLast?_append_of_ne_nil _ hne] at hc
      exact hwhole c (List.mem_of_getLast? hc)
    · rw [if_neg hnil, List.getLast?_append_of_ne_nil _ (List.cons_ne_nil _ _), List.getLast?_cons_of_ne_nil hnil] at hc
      exact hfraction c (List.mem_of_getLast? hc)

end DecimalText

end RentalMarket.Script
