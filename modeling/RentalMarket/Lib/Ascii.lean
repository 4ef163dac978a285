import RentalMarket.Lib.Script

namespace RentalMarket.Ascii

open Script (isSpace trim)

variable {c : Char}

theorem toNat_of_isUpper (h : c.isUpper = true) : 65 ≤ c.toNat ∧ c.toNat ≤ 90 := by
  simpa [Char.isUpper, UInt32.le_iff_toNat_le, ← Char.toNat_val] using h

theorem toNat_of_isLower (h : c.isLower = true) : 97 ≤ c.toNat ∧ c.toNat ≤ 122 := by
  simpa [Char.isLower, UInt32.le_iff_toNat_le, ← Char.toNat_val] using h

theorem toNat_of_isDigit (h : c.isDigit = true) : 48 ≤ c.toNat ∧ c.toNat ≤ 57 := by
  simpa [Char.isDigit, UInt32.le_iff_toNat_le, ← Char.toNat_val] using h

theorem isUpper_toUpper (h : c.isLower = true) : c.toUpper.isUpper = true := by
  have hrange := toNat_of_isLower h
  have hall : ∀ n < 123, 97 ≤ n → (Char.ofNat n).toUpper.isUpper = true := by decide
  have hc := hall c.toNat (by omega) (by omega)
  rwa [Char.ofNat_toNat] at hc

theorem isLower_toLower (h : c.isUpper = true) : c.toLower.isLower = true := by
  have hrange := toNat_of_isUpper h
  have hall : ∀ n < 91, 65 ≤ n → (Char.ofNat n).toLower.isLower = true := by decide
  have hc := hall c.toNat (by omega) (by omega)
  rwa [Char.ofNat_toNat] at hc

theorem toUpper_of_not_isLower (h : ¬c.isLower = true) : c.toUpper = c := by
  rw [Char.toUpper, dif_neg (by simpa [Char.isLower] using h)]

theorem toLower_of_not_isUpper (h : ¬c.isUpper = true) : c.toLower = c := by
  rw [Char.toLower, dif_neg (by simpa [Char.isUpper] using h)]

theorem isSpace_of_visible (hlow : 33 ≤ c.toNat) (hhigh : c.toNat ≤ 126) : isSpace c = false := by
  simp only [isSpace, decide_eq_false_iff_not]
  omega

theorem isSpace_of_isAlpha (h : c.isAlpha = true) : isSpace c = false := by
  rcases Bool.or_eq_true _ _ ▸ h with hupper | hlower
  · have hrange := toNat_of_isUpper hupper
    exact isSpace_of_visible (by omega) (by omega)
  · have hrange := toNat_of_isLower hlower
    exact isSpace_of_visible (by omega) (by omega)

theorem isSpace_of_isAlphanum (h : c.isAlphanum = true) : isSpace c = false := by
  rcases Bool.or_eq_true _ _ ▸ h with halpha | hdigit
  · exact isSpace_of_isAlpha halpha
  · have hrange := toNat_of_isDigit hdigit
    exact isSpace_of_visible (by omega) (by omega)

theorem exists_trim (s : String) : ∃ front back, s.toList = front ++ ((trim s).toList ++ back) ∧
    (∀ c ∈ front, isSpace c = true) ∧ ∀ c ∈ back, isSpace c = true := by
  let text := s.toList.dropWhile isSpace
  have htrim : (trim s).toList = (text.reverse.dropWhile isSpace).reverse := String.toList_ofList
  have hback : text = (text.reverse.dropWhile isSpace).reverse ++ (text.reverse.takeWhile isSpace).reverse := by
    rw [← List.reverse_append, List.takeWhile_append_dropWhile, List.reverse_reverse]
  refine ⟨s.toList.takeWhile isSpace, (text.reverse.takeWhile isSpace).reverse, ?_, ?_, ?_⟩
  · rw [htrim, ← hback]
    exact List.takeWhile_append_dropWhile.symm
  · exact fun c hc => List.mem_takeWhile_imp hc
  · exact fun c hc => List.mem_takeWhile_imp (List.mem_reverse.mp hc)

theorem isSpace_of_trim_eq_empty {s : String} (h : trim s = "") : ∀ c ∈ s.toList, isSpace c = true := by
  obtain ⟨front, back, hsplit, hfront, hback⟩ := exists_trim s
  rw [hsplit, h]
  intro c hc
  obtain hc | hc := List.mem_append.mp hc
  · exact hfront c hc
  · exact hback c hc

end RentalMarket.Ascii
