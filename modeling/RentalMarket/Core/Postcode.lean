import RentalMarket.Lib.Decimal
import RentalMarket.Lib.Ascii

namespace RentalMarket.Core.Postcode

open Script

/-- What `toUpperCase` makes of a character where that is ASCII. Of any other no
postcode is made. -/
def upperCase (c : Char) : List Char :=
  if c.isLower then [c.toUpper]
  else
    match c.toNat with
    | 0x131 => ['I']
    | 0x17f => ['S']
    | 0xdf => ['S', 'S']
    | 0xfb00 => ['F', 'F']
    | 0xfb01 => ['F', 'I']
    | 0xfb02 => ['F', 'L']
    | 0xfb03 => ['F', 'F', 'I']
    | 0xfb04 => ['F', 'F', 'L']
    | 0xfb05 => ['S', 'T']
    | 0xfb06 => ['S', 'T']
    | _ => [c]

def strip (raw : String) : List Char := (raw.toList.filter (fun c => !isSpace c)).flatMap upperCase

/-- `[A-HJ-Y]` -/
def isSecondLetter (c : Char) : Bool := c.isUpper && decide (c ≠ 'I' ∧ c ≠ 'Z')

/-- `[ABD-HJLNP-UW-Z]` -/
def isInwardLetter (c : Char) : Bool := c.isUpper && decide (c ∉ ['C', 'I', 'K', 'M', 'O', 'V'])

/-- `[A-Z][A-HJ-Y]?[0-9][0-9A-Z]?` -/
def isOutward : List Char → Bool
  | [area, district] => area.isUpper && district.isDigit
  | [area, c, d] =>
    area.isUpper && (isSecondLetter c && d.isDigit || c.isDigit && (d.isDigit || d.isUpper))
  | [area, second, district, d] =>
    area.isUpper && isSecondLetter second && district.isDigit && (d.isDigit || d.isUpper)
  | _ => false

def isInward : List Char → Bool
  | [sector, c, d] => sector.isDigit && isInwardLetter c && isInwardLetter d
  | _ => false

def inwardLength : Nat := 3

def isPostcode (stripped : List Char) : Bool :=
  decide (stripped = ['G', 'I', 'R', '0', 'A', 'A']) ||
    isOutward (stripped.take (stripped.length - inwardLength)) && isInward (stripped.drop (stripped.length - inwardLength))

def isValid (raw : String) : Bool := isPostcode (strip raw)

def spelled (stripped : List Char) : String :=
  String.ofList (stripped.take (stripped.length - inwardLength) ++ ' ' :: stripped.drop (stripped.length - inwardLength))

def parse (raw : String) : Except String String :=
  let stripped := strip raw
  if stripped = [] then .error "Postcode is required"
  else if !isPostcode stripped then .error ("Not a valid UK postcode: " ++ raw)
  else .ok (spelled stripped)

def outwardCode (raw : String) : Except String String :=
  match parse raw with
  | .error error => .error error
  | .ok parsed =>
    match parsed.toList.splitOn ' ' with
    | [] => .error ("Not a valid UK postcode: " ++ raw)
    | outward :: _ => .ok (String.ofList outward)

section

variable {c : Char} {stripped : List Char} {raw postcode : String}

def isPostcodeChar (c : Char) : Bool := c.isUpper || c.isDigit

theorem isPostcodeChar_iff : isPostcodeChar c = true ↔ c.isUpper = true ∨ c.isDigit = true := by
  rw [isPostcodeChar, Bool.or_eq_true]

theorem isPostcodeChar_of_isOutward {l : List Char} (h : isOutward l = true) (hc : c ∈ l) : isPostcodeChar c = true := by
  rw [isPostcodeChar_iff]
  rw [isOutward.eq_def] at h
  split at h
  · simp only [Bool.and_eq_true] at h
    simp only [List.mem_cons, List.not_mem_nil, or_false] at hc
    obtain rfl | rfl := hc
    · exact .inl h.1
    · exact .inr h.2
  · simp only [Bool.and_eq_true, Bool.or_eq_true, isSecondLetter] at h
    simp only [List.mem_cons, List.not_mem_nil, or_false] at hc
    obtain rfl | rfl | rfl := hc
    · exact .inl h.1
    · exact h.2.elim (fun h => .inl h.1.1) (fun h => .inr h.1)
    · exact h.2.elim (fun h => .inr h.2) (fun h => h.2.symm)
  · simp only [Bool.and_eq_true, Bool.or_eq_true, isSecondLetter] at h
    simp only [List.mem_cons, List.not_mem_nil, or_false] at hc
    obtain rfl | rfl | rfl | rfl := hc
    · exact .inl h.1.1.1
    · exact .inl h.1.1.2.1
    · exact .inr h.1.2
    · exact h.2.symm
  · cases h

theorem isPostcodeChar_of_isInward {l : List Char} (h : isInward l = true) (hc : c ∈ l) : isPostcodeChar c = true := by
  rw [isPostcodeChar_iff]
  rw [isInward.eq_def] at h
  split at h
  · simp only [Bool.and_eq_true, isInwardLetter] at h
    simp only [List.mem_cons, List.not_mem_nil, or_false] at hc
    obtain rfl | rfl | rfl := hc
    · exact .inr h.1.1
    · exact .inl h.1.2.1
    · exact .inl h.2.1
  · cases h

theorem isPostcodeChar_of_mem (h : isPostcode stripped = true) (hc : c ∈ stripped) : isPostcodeChar c = true := by
  rw [isPostcode, Bool.or_eq_true, decide_eq_true_eq, Bool.and_eq_true] at h
  obtain rfl | ⟨houtward, hinward⟩ := h
  · exact List.all_eq_true.mp (by decide +kernel : ['G', 'I', 'R', '0', 'A', 'A'].all isPostcodeChar = true) c hc
  · rw [← List.take_append_drop (stripped.length - inwardLength) stripped] at hc
    obtain hc | hc := List.mem_append.mp hc
    · exact isPostcodeChar_of_isOutward houtward hc
    · exact isPostcodeChar_of_isInward hinward hc

theorem upperCase_of_isPostcodeChar (h : isPostcodeChar c = true) : upperCase c = [c] := by
  have hbounds : 48 ≤ c.toNat ∧ c.toNat ≤ 57 ∨ 65 ≤ c.toNat ∧ c.toNat ≤ 90 := by
    obtain hupper | hdigit := isPostcodeChar_iff.mp h
    · exact .inr (Ascii.toNat_of_isUpper hupper)
    · exact .inl (Char.isDigit_iff_toNat.mp hdigit)
  have hlower : c.isLower ≠ true := by
    intro hlower
    have hrange := Ascii.toNat_of_isLower hlower
    omega
  rw [upperCase, if_neg hlower]
  split <;> first | omega | rfl

theorem isSpace_of_isPostcodeChar (h : isPostcodeChar c = true) : isSpace c = false := by
  obtain hupper | hdigit := isPostcodeChar_iff.mp h
  · have hrange := Ascii.toNat_of_isUpper hupper
    exact Ascii.isSpace_of_visible (by omega) (by omega)
  · exact isSpace_of_isDigit hdigit

theorem strip_spelled (h : isPostcode stripped = true) : strip (spelled stripped) = stripped := by
  have hupper (l : List Char) (hl : ∀ c ∈ l, c ∈ stripped) : l.flatMap upperCase = l := by
    induction l with
    | nil => rfl
    | cons c l ih =>
      rw [List.flatMap_cons, upperCase_of_isPostcodeChar (isPostcodeChar_of_mem h (hl c List.mem_cons_self)),
        ih (fun d hd => hl d (List.mem_cons_of_mem _ hd)), List.singleton_append]
  have hkept (l : List Char) (hl : ∀ c ∈ l, c ∈ stripped) : (l.filter (fun c => !isSpace c)).flatMap upperCase = l := by
    have hfilter : l.filter (fun c => !isSpace c) = l := by
      refine List.filter_eq_self.mpr fun c hc => ?_
      rw [isSpace_of_isPostcodeChar (isPostcodeChar_of_mem h (hl c hc))]
      rfl
    rw [hfilter, hupper l hl]
  rw [strip, spelled, String.toList_ofList, List.filter_append, List.filter_cons_of_neg (by decide), List.flatMap_append,
    hkept _ (fun _ => List.mem_of_mem_take), hkept _ (fun _ => List.mem_of_mem_drop), List.take_append_drop]

theorem parts_ne_nil (h : isPostcode stripped = true) :
    stripped.take (stripped.length - inwardLength) ≠ [] ∧ stripped.drop (stripped.length - inwardLength) ≠ [] := by
  rw [isPostcode, Bool.or_eq_true, decide_eq_true_eq, Bool.and_eq_true] at h
  obtain rfl | ⟨houtward, hinward⟩ := h
  · decide
  · constructor
    · intro hnil
      rw [hnil] at houtward
      cases houtward
    · intro hnil
      rw [hnil] at hinward
      cases hinward

theorem trim_spelled (h : isPostcode stripped = true) : trim (spelled stripped) = spelled stripped := by
  obtain ⟨htake, hdrop⟩ := parts_ne_nil h
  apply trim_eq_self
  · intro c hc
    rw [spelled, String.toList_ofList, List.head?_append_of_ne_nil _ htake] at hc
    exact isSpace_of_isPostcodeChar (isPostcodeChar_of_mem h (List.mem_of_mem_take (List.mem_of_mem_head? hc)))
  · intro c hc
    rw [spelled, String.toList_ofList, List.append_cons, List.getLast?_append_of_ne_nil _ hdrop] at hc
    exact isSpace_of_isPostcodeChar (isPostcodeChar_of_mem h (List.mem_of_mem_drop (List.mem_of_mem_getLast? hc)))

theorem parse_of_isValid (h : isValid raw = true) : parse raw = .ok (spelled (strip raw)) := by
  have hne : strip raw ≠ [] := by
    intro hnil
    rw [isValid, hnil] at h
    cases h
  rw [isValid] at h
  rw [parse, if_neg hne, h]
  rfl

theorem parse_spelled (h : isValid raw = true) :
    isValid (spelled (strip raw)) = true ∧ parse (spelled (strip raw)) = .ok (spelled (strip raw)) := by
  have hstrip : strip (spelled (strip raw)) = strip raw := strip_spelled h
  have hvalid : isValid (spelled (strip raw)) = true := by
    rw [isValid, hstrip]
    exact h
  refine ⟨hvalid, ?_⟩
  rw [parse_of_isValid hvalid, hstrip]

end

example : parse " bs7 8aa" = .ok "BS7 8AA" := by decide +kernel

end RentalMarket.Core.Postcode
