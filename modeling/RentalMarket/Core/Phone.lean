import RentalMarket.Lib.Ascii
import RentalMarket.Lib.Pieces

namespace RentalMarket.Core.Phone

open Script (isSpace trim)

/-- `[\s\-.()+]` -/
def isDecoration (c : Char) : Bool := isSpace c || c = '-' || c = '.' || c = '(' || c = ')' || c = '+'

def ukCountryCode : List Char := ['4', '4']

/-- `/^[1235789][0-9]{8,9}$/` -/
def isNationalNumber : List Char → Bool
  | [] => false
  | c :: rest => decide (c ∈ ['1', '2', '3', '5', '7', '8', '9']) && rest.all Char.isDigit &&
      decide (rest.length = 8 ∨ rest.length = 9)

def digitsOnly (raw : String) : List Char := raw.toList.filter (fun c => !isDecoration c)

def toNationalNumber (raw : String) : Option (List Char) :=
  let digits := digitsOnly raw
  if !digits.all Char.isDigit || digits = [] then none
  else if ('0' :: '0' :: ukCountryCode).isPrefixOf digits then some (digits.drop 4)
  else if ['0'].isPrefixOf digits then some (digits.drop 1)
  else if ukCountryCode.isPrefixOf digits && decide (11 ≤ digits.length) then some (digits.drop 2)
  else some digits

def written (national : List Char) : String := String.ofList ('+' :: ukCountryCode ++ national)

def parse (raw : String) : Except String String :=
  if trim raw = "" then .error "Phone number is required"
  else
    match toNationalNumber raw with
    | none => .error ("Not a valid UK phone number: " ++ raw)
    | some national =>
      if isNationalNumber national then .ok (written national)
      else .error ("Not a valid UK phone number: " ++ raw)

def isValid (raw : String) : Bool := (toNationalNumber raw).any isNationalNumber

def afterPlus (raw : String) : Option (List Char) :=
  match raw.toList.dropWhile (fun c => isDecoration c && decide (c ≠ '+')) with
  | '+' :: rest => some (rest.filter (fun c => !isDecoration c))
  | _ => none

def isForeign (digits : List Char) : Bool :=
  digits.head?.any (fun c => c.isDigit && decide (c ≠ '0')) && !ukCountryCode.isPrefixOf digits

/-- A number of another country, written with a plus or as dialled from the UK. -/
def IsInternational (raw : String) : Prop :=
  (afterPlus raw).any isForeign = true ∨ ∃ rest, digitsOnly raw = '0' :: '0' :: rest ∧ isForeign rest = true

/-- The ways to write a number of the UK. The plus is among the decoration. -/
def Spells (raw : String) (national : List Char) : Prop :=
  isNationalNumber national = true ∧
    digitsOnly raw ∈ ['0' :: national, ukCountryCode ++ national, '0' :: '0' :: ukCountryCode ++ national]

/-- What is parsed is a number of the UK, and one that is written in one way. -/
structure NamesOne (raw : String) : Prop where
  agrees : (∃ number, parse raw = .ok number) ↔ isValid raw = true
  canonical : ∀ number, parse raw = .ok number → parse number = .ok number
  spelled : ∀ national, Spells raw national → parse raw = .ok (written national)
  foreign : IsInternational raw → ∀ number, parse raw ≠ .ok number

variable {raw number : String} {national digits : List Char}

theorem isNationalNumber_iff {c : Char} {rest : List Char} : isNationalNumber (c :: rest) = true ↔
    c ∈ ['1', '2', '3', '5', '7', '8', '9'] ∧ (∀ d ∈ rest, d.isDigit = true) ∧ (rest.length = 8 ∨ rest.length = 9) := by
  simp only [isNationalNumber, Bool.and_eq_true, decide_eq_true_eq, List.all_eq_true, and_assoc]

theorem isDigit_of_isNationalNumber (h : isNationalNumber national = true) : ∀ c ∈ national, c.isDigit = true := by
  cases national with
  | nil => cases h
  | cons c rest =>
    obtain ⟨hfirst, hrest, -⟩ := isNationalNumber_iff.mp h
    have hdigits : ['1', '2', '3', '5', '7', '8', '9'].all Char.isDigit = true := by decide +kernel
    intro d hd
    obtain rfl | hd := List.mem_cons.mp hd
    · exact List.all_eq_true.mp hdigits d hfirst
    · exact hrest d hd

theorem isDecoration_of_isDigit {c : Char} (h : c.isDigit = true) : isDecoration c = false := by
  have hrange := Ascii.toNat_of_isDigit h
  have hspace : isSpace c = false := Ascii.isSpace_of_visible (by omega) (by omega)
  have hne : ∀ d : Char, d.isDigit = false → c ≠ d := by
    rintro d hd rfl
    rw [h] at hd
    cases hd
  simp [isDecoration, hspace, hne '-' (by decide), hne '.' (by decide), hne '(' (by decide), hne ')' (by decide),
    hne '+' (by decide)]

theorem isValid_iff : isValid raw = true ↔ ∃ national, toNationalNumber raw = some national ∧
    isNationalNumber national = true := by
  rw [isValid, Option.any_eq_true]

theorem digitsOnly_of_blank (h : trim raw = "") : digitsOnly raw = [] := by
  refine List.filter_eq_nil_iff.mpr ?_
  intro c hc
  simp [isDecoration, Ascii.isSpace_of_trim_eq_empty h c hc]

theorem parse_eq_ok : parse raw = .ok number ↔
    ∃ national, toNationalNumber raw = some national ∧ isNationalNumber national = true ∧ number = written national := by
  rw [parse]
  split
  · rename_i hblank
    have hnone : toNationalNumber raw = none := by
      rw [toNationalNumber, digitsOnly_of_blank hblank]
      rfl
    simp [hnone]
  · cases hnational : toNationalNumber raw with
    | none => simp
    | some national =>
      dsimp only
      split
      · rename_i hvalid
        constructor
        · rintro ⟨⟩
          exact ⟨national, rfl, hvalid, rfl⟩
        · rintro ⟨_, ⟨⟩, -, rfl⟩
          rfl
      · rename_i hvalid
        constructor
        · rintro ⟨⟩
        · rintro ⟨_, ⟨⟩, hvalid', -⟩
          exact absurd hvalid' hvalid

theorem toNationalNumber_of_digits (hdigits : ∀ c ∈ digitsOnly raw, c.isDigit = true) (hne : digitsOnly raw ≠ []) :
    toNationalNumber raw =
      if ('0' :: '0' :: ukCountryCode).isPrefixOf (digitsOnly raw) then some ((digitsOnly raw).drop 4)
      else if ['0'].isPrefixOf (digitsOnly raw) then some ((digitsOnly raw).drop 1)
      else if ukCountryCode.isPrefixOf (digitsOnly raw) && decide (11 ≤ (digitsOnly raw).length) then
        some ((digitsOnly raw).drop 2)
      else some (digitsOnly raw) := by
  have hall : (digitsOnly raw).all Char.isDigit = true := List.all_eq_true.mpr hdigits
  rw [toNationalNumber]
  simp [hall, hne]

/-- A number of the UK is read from each of its spellings. -/
theorem toNationalNumber_of_spells (h : Spells raw national) : toNationalNumber raw = some national := by
  obtain ⟨hnational, hspelled⟩ := h
  have hdigits := isDigit_of_isNationalNumber hnational
  cases national with
  | nil => cases hnational
  | cons c rest =>
    obtain ⟨hfirst, -, hlength⟩ := isNationalNumber_iff.mp hnational
    have hzero : '0' ≠ c := by
      rintro rfl
      exact absurd hfirst (by decide)
    have hall : ∀ d ∈ digitsOnly raw, d.isDigit = true := by
      have hcode : ∀ d ∈ '0' :: '0' :: ukCountryCode, d.isDigit = true :=
        List.all_eq_true.mp (by decide +kernel)
      intro d hd
      simp only [List.mem_cons, List.not_mem_nil, or_false] at hspelled
      obtain hspelled | hspelled | hspelled := hspelled <;> rw [hspelled] at hd
      · obtain rfl | hd := List.mem_cons.mp hd
        · decide
        · exact hdigits d hd
      · obtain hd | hd := List.mem_append.mp hd
        · exact hcode d (List.mem_append_right ['0', '0'] hd)
        · exact hdigits d hd
      · obtain hd | hd := List.mem_append.mp hd
        · exact hcode d hd
        · exact hdigits d hd
    simp only [List.mem_cons, List.not_mem_nil, or_false] at hspelled
    obtain hspelled | hspelled | hspelled := hspelled
    · rw [toNationalNumber_of_digits hall (by simp [hspelled]), hspelled]
      simp [hzero]
    · rw [toNationalNumber_of_digits hall (by simp [hspelled, ukCountryCode]), hspelled]
      have hlong : 8 ≤ rest.length := by omega
      simp [ukCountryCode, hlong]
    · rw [toNationalNumber_of_digits hall (by simp [hspelled]), hspelled]
      simp [ukCountryCode]

theorem digitsOnly_written (h : isNationalNumber national = true) :
    digitsOnly (written national) = ukCountryCode ++ national := by
  have hkept : ∀ c ∈ ukCountryCode ++ national, c.isDigit = true := by
    have hcode : ∀ c ∈ ukCountryCode, c.isDigit = true := List.all_eq_true.mp (by decide +kernel)
    intro c hc
    obtain hc | hc := List.mem_append.mp hc
    · exact hcode c hc
    · exact isDigit_of_isNationalNumber h c hc
  rw [digitsOnly, written, String.toList_ofList, List.cons_append, List.filter_cons_of_neg (by decide)]
  refine List.filter_eq_self.mpr ?_
  intro c hc
  rw [isDecoration_of_isDigit (hkept c hc)]
  rfl

theorem parse_written (h : isNationalNumber national = true) : parse (written national) = .ok (written national) := by
  refine parse_eq_ok.mpr ⟨national, ?_, h, rfl⟩
  refine toNationalNumber_of_spells ⟨h, ?_⟩
  rw [digitsOnly_written h]
  simp

theorem digitsOnly_of_afterPlus (h : afterPlus raw = some digits) : digitsOnly raw = digits := by
  rw [afterPlus] at h
  split at h
  · rename_i rest hrest
    cases h
    rw [digitsOnly, ← List.takeWhile_append_dropWhile (p := fun c => isDecoration c && decide (c ≠ '+')) (l := raw.toList),
      hrest, List.filter_append, List.filter_cons_of_neg (by decide)]
    have hlead : (raw.toList.takeWhile (fun c => isDecoration c && decide (c ≠ '+'))).filter
        (fun c => !isDecoration c) = [] := by
      refine List.filter_eq_nil_iff.mpr ?_
      intro c hc
      have hdecoration := List.mem_takeWhile_imp hc
      simp only [Bool.and_eq_true] at hdecoration
      simp [hdecoration.1]
    rw [hlead, List.nil_append]
  · cases h

theorem toNationalNumber_digits {n : List Char} (h : toNationalNumber raw = some n) :
    (∀ c ∈ digitsOnly raw, c.isDigit = true) ∧ digitsOnly raw ≠ [] := by
  rw [toNationalNumber] at h
  split at h
  · cases h
  · rename_i hdigits
    simp only [Bool.or_eq_true, Bool.not_eq_true', decide_eq_true_eq, not_or, Bool.not_eq_false] at hdigits
    exact ⟨List.all_eq_true.mp hdigits.1, hdigits.2⟩

theorem toNationalNumber_of_isForeign (h : isForeign (digitsOnly raw) = true)
    (hdigits : ∀ c ∈ digitsOnly raw, c.isDigit = true) : toNationalNumber raw = some (digitsOnly raw) := by
  rw [isForeign, Bool.and_eq_true, Bool.not_eq_true'] at h
  obtain ⟨hfirst, hcode⟩ := h
  cases hraw : digitsOnly raw with
  | nil =>
    rw [hraw] at hfirst
    cases hfirst
  | cons c rest =>
    rw [hraw] at hfirst hcode
    have hzero : '0' ≠ c := by
      rintro rfl
      cases hfirst
    rw [toNationalNumber_of_digits hdigits (by rw [hraw]; exact List.cons_ne_nil c rest), hraw, hcode]
    simp [hzero]

theorem not_isNationalNumber_of_access {rest n : List Char} (hraw : digitsOnly raw = '0' :: '0' :: rest)
    (hforeign : isForeign rest = true) (h : toNationalNumber raw = some n) : isNationalNumber n = false := by
  obtain ⟨hdigits, hne⟩ := toNationalNumber_digits h
  rw [isForeign, Bool.and_eq_true, Bool.not_eq_true'] at hforeign
  rw [toNationalNumber_of_digits hdigits hne, hraw] at h
  have hcode : ('0' :: '0' :: ukCountryCode).isPrefixOf ('0' :: '0' :: rest) = false := by
    simpa using hforeign.2
  rw [hcode] at h
  simp at h
  rw [← h]
  rfl

theorem parse_names_one_iff (raw : String) : NamesOne raw ↔
    ¬((afterPlus raw).any isForeign = true ∧ isNationalNumber (digitsOnly raw) = true) := by
  constructor
  · rintro h ⟨hforeign, hnational⟩
    obtain ⟨digits, hplus, hdigits⟩ := (Option.any_eq_true _ _).mp hforeign
    have hsame := digitsOnly_of_afterPlus hplus
    refine h.foreign (.inl hforeign) _ (parse_eq_ok.mpr ⟨_, ?_, hnational, rfl⟩)
    exact toNationalNumber_of_isForeign (hsame ▸ hdigits) (isDigit_of_isNationalNumber hnational)
  · intro hcondition
    refine ⟨?_, ?_, ?_, ?_⟩
    · rw [isValid_iff]
      constructor
      · rintro ⟨number, hparse⟩
        obtain ⟨national, hsome, hnational, -⟩ := parse_eq_ok.mp hparse
        exact ⟨national, hsome, hnational⟩
      · rintro ⟨national, hsome, hnational⟩
        exact ⟨_, parse_eq_ok.mpr ⟨national, hsome, hnational, rfl⟩⟩
    · intro number hparse
      obtain ⟨national, -, hnational, rfl⟩ := parse_eq_ok.mp hparse
      exact parse_written hnational
    · intro national hspells
      exact parse_eq_ok.mpr ⟨national, toNationalNumber_of_spells hspells, hspells.1, rfl⟩
    · rintro hinternational number hparse
      obtain ⟨national, hsome, hnational, -⟩ := parse_eq_ok.mp hparse
      obtain hplus | ⟨rest, hraw, hforeign⟩ := hinternational
      · obtain ⟨digits, hafter, hdigits⟩ := (Option.any_eq_true _ _).mp hplus
        have hsame := digitsOnly_of_afterPlus hafter
        rw [toNationalNumber_of_isForeign (hsame ▸ hdigits) (toNationalNumber_digits hsome).1] at hsome
        cases hsome
        exact hcondition ⟨hplus, hnational⟩
      · rw [not_isNationalNumber_of_access hraw hforeign hsome] at hnational
        cases hnational

/-- A number of Brussels is kept as one of the UK. -/
theorem brussels_is_reinterpreted : ¬NamesOne "+32 2 123 45 67" ∧ parse "+32 2 123 45 67" = .ok "+443221234567" := by
  have hparse : parse "+32 2 123 45 67" = .ok "+443221234567" := by decide +kernel
  refine ⟨?_, hparse⟩
  intro h
  exact h.foreign (.inl (by decide +kernel)) _ hparse

end RentalMarket.Core.Phone
