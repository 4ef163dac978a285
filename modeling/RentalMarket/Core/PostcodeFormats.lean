import RentalMarket.Core.Postcode

namespace RentalMarket.Core.Postcode

open Script (isSpace)

def formats : List (List Char) :=
  [['A', '9'], ['A', '9', '9'], ['A', '9', 'A'], ['A', 'A', '9'], ['A', 'A', '9', '9'], ['A', 'A', '9', 'A']]

def fits : List Char → List Char → Bool
  | [], [] => true
  | f :: format, c :: text => (if f = 'A' then c.isUpper else c.isDigit) && fits format text
  | _, _ => false

/-- A postcode of one of the formats, but for letters that are never the second one. -/
def IsStructured (never stripped : List Char) : Prop :=
  stripped = ['G', 'I', 'R', '0', 'A', 'A'] ∨
    ∃ outward inward, stripped = outward ++ inward ∧ (∃ format ∈ formats, fits format outward = true) ∧
      (∀ c ∈ outward[1]?, c ∉ never) ∧ fits ['9', 'A', 'A'] inward = true ∧
      ∀ c ∈ inward.drop 1, c ∉ ['C', 'I', 'K', 'M', 'O', 'V']

/-- What the comment on the pattern says of the second letter. -/
def neverSecond : List Char := ['I', 'J', 'Z']

def SameLetters (s s' : String) : Prop :=
  (s.toList.filter (fun c => !isSpace c)).map Char.toUpper = (s'.toList.filter (fun c => !isSpace c)).map Char.toUpper

def outwardPart (raw : String) : List Char := (strip raw).take ((strip raw).length - inwardLength)

variable {c : Char} {l stripped : List Char} {raw raw' postcode : String}

theorem not_isUpper_of_isDigit (h : c.isDigit = true) : c.isUpper = false := by
  have hdigit := Ascii.toNat_of_isDigit h
  by_contra hupper
  have hrange := Ascii.toNat_of_isUpper (Bool.not_eq_false _ ▸ hupper)
  omega

theorem ne_of_isDigit {d : Char} (h : c.isDigit = true) (hd : d.isDigit = false) : c ≠ d := by
  rintro rfl
  rw [h] at hd
  cases hd

theorem isOutward_iff : isOutward l = true ↔
    (∃ format ∈ formats, fits format l = true) ∧ ∀ c ∈ l[1]?, c ∉ ['I', 'Z'] := by
  have hkept : ∀ d : Char, d.isDigit = true → d.isUpper = false ∧ d ≠ 'I' ∧ d ≠ 'Z' := fun d hd =>
    ⟨not_isUpper_of_isDigit hd, ne_of_isDigit hd (by decide), ne_of_isDigit hd (by decide)⟩
  match l with
  | [] => simp [isOutward, formats, fits]
  | [a] => simp [isOutward, formats, fits]
  | [a, d] =>
    have hd := hkept d
    simp [isOutward, formats, fits]
    grind
  | [a, c, d] =>
    have hc := hkept c
    simp [isOutward, formats, fits, isSecondLetter]
    grind
  | [a, c, d, e] =>
    have hc := hkept c
    simp [isOutward, formats, fits, isSecondLetter]
    grind
  | a :: b :: c :: d :: e :: l => simp [isOutward, formats, fits]

theorem isInward_iff : isInward l = true ↔
    fits ['9', 'A', 'A'] l = true ∧ ∀ c ∈ l.drop 1, c ∉ ['C', 'I', 'K', 'M', 'O', 'V'] := by
  match l with
  | [] => simp [isInward, fits]
  | [a] => simp [isInward, fits]
  | [a, c] => simp [isInward, fits]
  | [a, c, d] =>
    simp [isInward, fits, isInwardLetter]
    grind
  | a :: b :: c :: d :: l => simp [isInward, fits]

theorem length_of_fits {format : List Char} (h : fits format l = true) : l.length = format.length := by
  induction format generalizing l with
  | nil =>
    cases l with
    | nil => rfl
    | cons c l => cases h
  | cons f format ih =>
    cases l with
    | nil => cases h
    | cons c l =>
      rw [fits, Bool.and_eq_true] at h
      rw [List.length_cons, List.length_cons, ih h.2]

theorem isPostcode_iff : isPostcode stripped = true ↔ IsStructured ['I', 'Z'] stripped := by
  rw [isPostcode, Bool.or_eq_true, decide_eq_true_eq, Bool.and_eq_true, isOutward_iff, isInward_iff]
  refine or_congr_right ?_
  constructor
  · rintro ⟨⟨hformat, hsecond⟩, hinward, hletters⟩
    exact ⟨_, _, (List.take_append_drop _ _).symm, hformat, hsecond, hinward, hletters⟩
  · rintro ⟨outward, inward, rfl, hformat, hsecond, hinward, hletters⟩
    have hlength : (outward ++ inward).length - inwardLength = outward.length := by
      rw [List.length_append, length_of_fits hinward]
      rfl
    rw [hlength, List.take_left, List.drop_left]
    exact ⟨⟨hformat, hsecond⟩, hinward, hletters⟩

theorem two_le_length {outward : List Char} (h : ∃ format ∈ formats, fits format outward = true) : 2 ≤ outward.length := by
  obtain ⟨format, hformat, hfits⟩ := h
  have hlengths : ∀ f ∈ formats, 2 ≤ f.length := by decide
  exact length_of_fits hfits ▸ hlengths format hformat

theorem isStructured_neverSecond :
    IsStructured neverSecond stripped ↔ IsStructured ['I', 'Z'] stripped ∧ stripped[1]? ≠ some 'J' := by
  constructor
  · rintro (rfl | ⟨outward, inward, rfl, hformat, hsecond, hinward, hletters⟩)
    · exact ⟨.inl rfl, by decide⟩
    · have hpart := two_le_length hformat
      refine ⟨.inr ⟨outward, inward, rfl, hformat, ?_, hinward, hletters⟩, ?_⟩
      · intro c hc hmem
        exact hsecond c hc (by revert hmem; simp [neverSecond]; tauto)
      · rw [List.getElem?_append_left (by omega)]
        intro hj
        exact hsecond 'J' hj (by decide)
  · rintro ⟨rfl | ⟨outward, inward, rfl, hformat, hsecond, hinward, hletters⟩, hj⟩
    · exact .inl rfl
    · have hpart := two_le_length hformat
      refine .inr ⟨outward, inward, rfl, hformat, ?_, hinward, hletters⟩
      rw [List.getElem?_append_left (by omega)] at hj
      intro c hc hmem
      have hne : c ≠ 'J' := by
        rintro rfl
        exact hj hc
      exact hsecond c hc (by revert hmem; simp [neverSecond]; tauto)

theorem parse_eq_ok : parse raw = .ok postcode ↔ isValid raw = true ∧ postcode = spelled (strip raw) := by
  constructor
  · intro h
    by_cases hvalid : isValid raw = true
    · rw [parse_of_isValid hvalid] at h
      exact ⟨hvalid, (Except.ok.inj h).symm⟩
    · rw [isValid, Bool.not_eq_true] at hvalid
      rw [parse, hvalid] at h
      split at h <;> cases h
  · rintro ⟨hvalid, rfl⟩
    exact parse_of_isValid hvalid

theorem upperCase_toUpper (c : Char) : upperCase c.toUpper = upperCase c := by
  by_cases hlower : c.isLower = true
  · rw [upperCase_of_isPostcodeChar (isPostcodeChar_iff.mpr (.inl (Ascii.isUpper_toUpper hlower))), upperCase, if_pos hlower]
  · rw [Ascii.toUpper_of_not_isLower hlower]

theorem strip_eq (h : SameLetters raw raw') : strip raw = strip raw' := by
  have hupper : ∀ l : List Char, l.flatMap upperCase = (l.map Char.toUpper).flatMap upperCase := by
    intro l
    simp only [List.flatMap_map, upperCase_toUpper]
  rw [strip, strip, hupper, hupper (raw'.toList.filter _), h]

theorem outwardCode_of_isValid (h : isValid raw = true) : outwardCode raw = .ok (String.ofList (outwardPart raw)) := by
  have hspace : ' ' ∉ outwardPart raw := by
    intro hm
    have hchar := isPostcodeChar_of_mem h (List.mem_of_mem_take hm)
    cases hchar
  have hspelled : (spelled (strip raw)).toList =
      outwardPart raw ++ ' ' :: (strip raw).drop ((strip raw).length - inwardLength) := by
    rw [spelled, String.toList_ofList]
    rfl
  rw [outwardCode, parse_of_isValid h]
  dsimp only
  rw [hspelled, List.splitOn_append_cons_self, List.splitOn_eq_singleton hspace]
  rfl

/-- What is documented of a postcode. -/
structure MeetsDocumentation (raw : String) : Prop where
  accepts : (∃ postcode, parse raw = .ok postcode) ↔ IsStructured neverSecond (strip raw)
  agrees : isValid raw = true ↔ ∃ postcode, parse raw = .ok postcode
  idempotent : ∀ postcode, parse raw = .ok postcode → parse postcode = .ok postcode
  invariant : ∀ raw', SameLetters raw raw' → ∀ postcode, parse raw = .ok postcode ↔ parse raw' = .ok postcode
  outward : ∀ raw', isValid raw = true → isValid raw' = true → outwardPart raw = outwardPart raw' →
    outwardCode raw = outwardCode raw'

theorem meets_documentation_iff (raw : String) :
    MeetsDocumentation raw ↔ ¬(IsStructured ['I', 'Z'] (strip raw) ∧ (strip raw)[1]? = some 'J') := by
  have haccepts : (∃ postcode, parse raw = .ok postcode) ↔ IsStructured ['I', 'Z'] (strip raw) := by
    rw [← isPostcode_iff]
    constructor
    · rintro ⟨postcode, hparse⟩
      exact (parse_eq_ok.mp hparse).1
    · intro hvalid
      exact ⟨_, parse_of_isValid hvalid⟩
  constructor
  · rintro h ⟨hstructured, hj⟩
    exact (isStructured_neverSecond.mp (h.accepts.mp (haccepts.mpr hstructured))).2 hj
  · intro hcondition
    refine ⟨?_, ?_, ?_, ?_, ?_⟩
    · rw [haccepts, isStructured_neverSecond]
      exact ⟨fun h => ⟨h, fun hj => hcondition ⟨h, hj⟩⟩, And.left⟩
    · rw [haccepts, ← isPostcode_iff]
      rfl
    · intro postcode hparse
      obtain ⟨hvalid, rfl⟩ := parse_eq_ok.mp hparse
      exact (parse_spelled hvalid).2
    · intro raw' hsame postcode
      rw [parse_eq_ok, parse_eq_ok, isValid, isValid, strip_eq hsame]
    · intro raw' hvalid hvalid' hpart
      rw [outwardCode_of_isValid hvalid, outwardCode_of_isValid hvalid', hpart]

theorem j_is_accepted : ¬MeetsDocumentation "BJ7 8AA" ∧ parse "BJ7 8AA" = .ok "BJ7 8AA" := by
  have hparse : parse "BJ7 8AA" = .ok "BJ7 8AA" := by decide +kernel
  refine ⟨?_, hparse⟩
  intro h
  refine (isStructured_neverSecond.mp (h.accepts.mp ⟨_, hparse⟩)).2 ?_
  decide +kernel

end RentalMarket.Core.Postcode
