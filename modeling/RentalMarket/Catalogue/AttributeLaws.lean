import RentalMarket.Catalogue.Attributes
import RentalMarket.Lib.Decimal
import Mathlib

namespace RentalMarket.Catalogue

open Script

/-- The ceiling of `Scaled`. That of an attribute's schema is lower. -/
def maxDecimalPlaces : Nat := 9

/-- What `categoryAttributesSchema` promises of a list of definitions. -/
structure SchemaValid (attributes : List CategoryAttribute) : Prop where
  count : attributes.length ≤ maxCategoryAttributes
  keys : (attributes.map (·.key)).Nodup
  places : ∀ attr ∈ attributes, ∀ unit decimalPlaces, attr.type = .number unit decimalPlaces →
    decimalPlaces ≤ maxDecimalPlaces
  options : ∀ attr ∈ attributes, ∀ options, attr.type = .choiceMany options → (options.map (·.value)).Nodup

def CategoryAttribute.Accepts (attr : CategoryAttribute) (raw : Submitted) : Prop :=
  match attr.type, raw with
  | .text maxLength, .text s =>
    trim s ≠ "" ∧ length (trim s) ≤ maxLength ∧ ∀ c ∈ (trim s).toList, isControlOrFormat c = false
  | .number _ decimalPlaces, .text s => ∃ negative whole fraction,
    decimalParts (trim s) = some (negative, whole, fraction) ∧ fraction.length ≤ decimalPlaces ∧
      digitsValue (whole ++ fraction.rightpad decimalPlaces '0') ≤ maxSafeInteger
  | .choice options, .text s => ∃ o ∈ options, o.value = s
  | .choiceMany options, .list entries => ∃ values : List String, entries = values.map some ∧ values ≠ [] ∧
    values.Nodup ∧ ∀ value ∈ values, ∃ o ∈ options, o.value = value
  | _, _ => False

section Choices

variable {label : String} {options : List AttributeOption} {chosen chosen' : List String}
  {entries : List (Option String)}

theorem readChoices_eq_ok : readChoices label options chosen entries = .ok chosen' ↔
    ∃ values : List String, entries = values.map some ∧ (∀ value ∈ values, isOption options value = true) ∧
      values.Nodup ∧ (∀ value ∈ values, value ∉ chosen) ∧ chosen' = chosen ++ values := by
  induction entries generalizing chosen with
  | nil =>
    rw [readChoices]
    constructor
    · intro h
      cases h
      exact ⟨[], rfl, List.forall_mem_nil _, List.nodup_nil, List.forall_mem_nil _, (List.append_nil _).symm⟩
    · rintro ⟨values, hvalues, -, -, -, rfl⟩
      rw [List.map_eq_nil_iff.mp hvalues.symm, List.append_nil]
  | cons entry entries ih =>
    cases entry with
    | none =>
      rw [readChoices]
      constructor
      · intro h
        cases h
      · rintro ⟨values, hvalues, -⟩
        cases values <;> cases hvalues
    | some entry =>
      have hvalues {values : List String} (h : some entry :: entries = values.map some) :
          ∃ rest, values = entry :: rest ∧ entries = rest.map some := by
        cases values with
        | nil => cases h
        | cons value rest =>
          obtain ⟨hvalue, hrest⟩ := List.cons.inj h
          cases hvalue
          exact ⟨rest, rfl, hrest⟩
      rw [readChoices]
      by_cases hoption : isOption options entry = true
      · rw [hoption, Bool.not_true, if_neg Bool.false_ne_true]
        by_cases hmem : entry ∈ chosen
        · rw [if_pos hmem]
          constructor
          · intro h
            cases h
          · rintro ⟨values, h, -, -, hfresh, -⟩
            obtain ⟨rest, rfl, -⟩ := hvalues h
            exact absurd hmem (hfresh entry List.mem_cons_self)
        · rw [if_neg hmem, ih]
          constructor
          · rintro ⟨rest, rfl, hoptions, hnodup, hfresh, rfl⟩
            refine ⟨entry :: rest, rfl, List.forall_mem_cons.mpr ⟨hoption, hoptions⟩, ?_, ?_, ?_⟩
            · apply List.nodup_cons.mpr ⟨_, hnodup⟩
              intro hrest
              exact hfresh entry hrest (List.mem_append_right _ (List.mem_singleton_self _))
            · refine List.forall_mem_cons.mpr ⟨hmem, ?_⟩
              intro value hvalue hold
              exact hfresh value hvalue (List.mem_append_left _ hold)
            · rw [List.append_assoc, List.singleton_append]
          · rintro ⟨values, h, hoptions, hnodup, hfresh, rfl⟩
            obtain ⟨rest, rfl, rfl⟩ := hvalues h
            obtain ⟨hnot, hnodup⟩ := List.nodup_cons.mp hnodup
            refine ⟨rest, rfl, (List.forall_mem_cons.mp hoptions).2, hnodup, ?_, ?_⟩
            · intro value hvalue hold
              obtain hold | hnew := List.mem_append.mp hold
              · exact hfresh value (List.mem_cons_of_mem _ hvalue) hold
              · rw [List.mem_singleton.mp hnew] at hvalue
                exact hnot hvalue
            · rw [List.append_assoc, List.singleton_append]
      · have hrefused : (!isOption options entry) = true := by simpa using hoption
        rw [if_pos hrefused]
        constructor
        · intro h
          cases h
        · rintro ⟨values, h, hoptions, -⟩
          obtain ⟨rest, rfl, -⟩ := hvalues h
          exact absurd (hoptions entry List.mem_cons_self) hoption

end Choices

section ReadValue

variable {attr : CategoryAttribute} {raw : Submitted} {value : AttributeValue}

theorem readText_eq_ok {maxLength : Nat} {s : String} (htype : attr.type = .text maxLength) :
    readValue attr (.text s) = .ok value ↔
      (trim s ≠ "" ∧ length (trim s) ≤ maxLength ∧ ∀ c ∈ (trim s).toList, isControlOrFormat c = false) ∧
        value = .text (trim s) := by
  have hany : ((trim s).toList.any isControlOrFormat = true) ↔
      ¬ ∀ c ∈ (trim s).toList, isControlOrFormat c = false := by
    simp
  simp only [readValue, htype]
  by_cases hblank : trim s = ""
  · simp [hblank]
  · by_cases hlength : maxLength < length (trim s)
    · simp [hblank, hlength]
    · by_cases hsafe : ∀ c ∈ (trim s).toList, isControlOrFormat c = false
      · rw [if_neg hblank, if_neg hlength, if_neg (fun h => hany.mp h hsafe), Except.ok.injEq]
        exact ⟨fun h => ⟨⟨hblank, Nat.le_of_not_lt hlength, hsafe⟩, h.symm⟩, fun h => h.2.symm⟩
      · rw [if_neg hblank, if_neg hlength, if_pos (hany.mpr hsafe)]
        exact ⟨fun h => (by cases h), fun h => absurd h.1.2.2 hsafe⟩

theorem fromDecimalString_eq_ok {s : String} {decimalPlaces : Nat} {n : Int}
    (hplaces : decimalPlaces ≤ maxDecimalPlaces) :
    fromDecimalString s decimalPlaces = .ok n ↔ ∃ negative whole fraction,
      decimalParts (trim s) = some (negative, whole, fraction) ∧ fraction.length ≤ decimalPlaces ∧
        digitsValue (whole ++ fraction.rightpad decimalPlaces '0') ≤ maxSafeInteger ∧
        n = if negative then -(digitsValue (whole ++ fraction.rightpad decimalPlaces '0') : Int)
          else digitsValue (whole ++ fraction.rightpad decimalPlaces '0') := by
  have hscale : ¬ 9 < decimalPlaces := Nat.not_lt.mpr hplaces
  rw [fromDecimalString, if_neg hscale]
  cases hparts : decimalParts (trim s) with
  | none => simp
  | some parts =>
    obtain ⟨negative, whole, fraction⟩ := parts
    simp only [Option.some.injEq, Prod.mk.injEq]
    by_cases hlong : decimalPlaces < fraction.length
    · rw [if_pos hlong]
      constructor
      · intro h
        cases h
      · rintro ⟨_, _, _, ⟨rfl, rfl, rfl⟩, hfits, -⟩
        exact absurd hlong (Nat.not_lt.mpr hfits)
    · rw [if_neg hlong]
      by_cases hlarge : maxSafeInteger < digitsValue (whole ++ fraction.rightpad decimalPlaces '0')
      · rw [if_pos hlarge]
        constructor
        · intro h
          cases h
        · rintro ⟨_, _, _, ⟨rfl, rfl, rfl⟩, -, hsafe, -⟩
          exact absurd hlarge (Nat.not_lt.mpr hsafe)
      · rw [if_neg hlarge, Except.ok.injEq]
        constructor
        · rintro rfl
          exact ⟨_, _, _, ⟨rfl, rfl, rfl⟩, Nat.le_of_not_lt hlong, Nat.le_of_not_lt hlarge, rfl⟩
        · rintro ⟨_, _, _, ⟨rfl, rfl, rfl⟩, -, -, rfl⟩
          rfl

theorem readNumber_eq_ok {unit s : String} {decimalPlaces : Nat} (htype : attr.type = .number unit decimalPlaces) :
    readValue attr (.text s) = .ok value ↔
      ∃ n, fromDecimalString (trim s) decimalPlaces = .ok n ∧ (decimalParts (trim s)).isSome ∧ value = .number n := by
  simp only [readValue, htype]
  by_cases hblank : trim s = ""
  · rw [if_pos hblank, hblank]
    constructor
    · intro h
      cases h
    · rintro ⟨_, -, hsome, -⟩
      cases hsome
  · rw [if_neg hblank]
    cases hparts : decimalParts (trim s) with
    | none => simp
    | some parts =>
      simp only [Option.isNone_some, Bool.false_eq_true, if_false, Option.isSome_some, true_and]
      cases hn : fromDecimalString (trim s) decimalPlaces with
      | error message => simp
      | ok n => simp [eq_comm]

theorem readChoice_eq_ok {options : List AttributeOption} {s : String} (htype : attr.type = .choice options) :
    readValue attr (.text s) = .ok value ↔ (∃ o ∈ options, o.value = s) ∧ value = .text s := by
  simp only [readValue, htype, ← isOption_iff]
  by_cases hoption : isOption options s = true
  · simp [hoption, eq_comm]
  · simp [hoption]

theorem readChoiceMany_eq_ok {options : List AttributeOption} {entries : List (Option String)}
    (htype : attr.type = .choiceMany options) :
    readValue attr (.list entries) = .ok value ↔ ∃ values : List String, entries = values.map some ∧ values ≠ [] ∧
      values.Nodup ∧ (∀ v ∈ values, ∃ o ∈ options, o.value = v) ∧
        value = .list ((options.map (·.value)).filter (fun v => decide (v ∈ values))) := by
  simp only [readValue, htype, ← isOption_iff]
  cases hread : readChoices attr.label options [] entries with
  | error message =>
    constructor
    · intro h
      cases h
    · rintro ⟨values, rfl, -, hnodup, hoptions, -⟩
      have hok : readChoices attr.label options [] (values.map some) = .ok ([] ++ values) :=
        readChoices_eq_ok.mpr ⟨values, rfl, hoptions, hnodup, fun _ _ => List.not_mem_nil, rfl⟩
      cases hread.symm.trans hok
  | ok chosen =>
    obtain ⟨values, rfl, hoptions, hnodup, -, hchosen⟩ := readChoices_eq_ok.mp hread
    rw [List.nil_append] at hchosen
    subst hchosen
    dsimp only
    by_cases hnil : chosen = []
    · rw [if_pos hnil]
      constructor
      · intro h
        cases h
      · rintro ⟨values', hmap, hne, -⟩
        rw [hnil, List.map_nil] at hmap
        exact absurd (List.map_eq_nil_iff.mp hmap.symm) hne
    · rw [if_neg hnil, Except.ok.injEq]
      constructor
      · rintro rfl
        exact ⟨chosen, rfl, hnil, hnodup, hoptions, rfl⟩
      · rintro ⟨values', hmap, -, -, -, rfl⟩
        rw [List.map_injective_iff.mpr (Option.some_injective String) hmap]

/-- The answers that are read are the legal ones. -/
theorem readValue_ok_iff (hplaces : ∀ unit decimalPlaces, attr.type = .number unit decimalPlaces →
      decimalPlaces ≤ maxDecimalPlaces) :
    (∃ value, readValue attr raw = .ok value) ↔ attr.Accepts raw := by
  cases htype : attr.type with
  | text maxLength =>
    cases raw with
    | text s => simp only [readText_eq_ok htype, CategoryAttribute.Accepts, htype, exists_and_left, exists_eq, and_true]
    | missing => simp [readValue, htype, CategoryAttribute.Accepts]
    | list entries => simp [readValue, htype, CategoryAttribute.Accepts]
    | other => simp [readValue, htype, CategoryAttribute.Accepts]
  | number unit decimalPlaces =>
    cases raw with
    | text s =>
      simp only [readNumber_eq_ok htype, CategoryAttribute.Accepts, htype,
        fromDecimalString_eq_ok (hplaces unit decimalPlaces htype), trim_trim]
      constructor
      · rintro ⟨_, _, ⟨negative, whole, fraction, hparts, hfits, hsafe, -⟩, -, -⟩
        exact ⟨negative, whole, fraction, hparts, hfits, hsafe⟩
      · rintro ⟨negative, whole, fraction, hparts, hfits, hsafe⟩
        exact ⟨_, _, ⟨negative, whole, fraction, hparts, hfits, hsafe, rfl⟩, by rw [hparts]; rfl, rfl⟩
    | missing => simp [readValue, htype, CategoryAttribute.Accepts]
    | list entries => simp [readValue, htype, CategoryAttribute.Accepts]
    | other => simp [readValue, htype, CategoryAttribute.Accepts]
  | choice options =>
    cases raw with
    | text s => simp only [readChoice_eq_ok htype, CategoryAttribute.Accepts, htype, exists_and_left, exists_eq, and_true]
    | missing => simp [readValue, htype, CategoryAttribute.Accepts]
    | list entries => simp [readValue, htype, CategoryAttribute.Accepts]
    | other => simp [readValue, htype, CategoryAttribute.Accepts]
  | choiceMany options =>
    cases raw with
    | list entries =>
      simp only [readChoiceMany_eq_ok htype, CategoryAttribute.Accepts, htype]
      constructor
      · rintro ⟨_, values, hmap, hne, hnodup, hoptions, -⟩
        exact ⟨values, hmap, hne, hnodup, hoptions⟩
      · rintro ⟨values, hmap, hne, hnodup, hoptions⟩
        exact ⟨_, values, hmap, hne, hnodup, hoptions, rfl⟩
    | missing => simp [readValue, htype, CategoryAttribute.Accepts]
    | text s => simp [readValue, htype, CategoryAttribute.Accepts]
    | other => simp [readValue, htype, CategoryAttribute.Accepts]

end ReadValue

/-- The answer under a key, where `null` is none. -/
def Answers.supplied (answers : Answers) (key : String) : Option Submitted :=
  (answers.entries.get key).filter (fun raw => decide (raw ≠ .missing))

def issueOf (answers : Answers) (attr : CategoryAttribute) : Option AttributeValueIssue :=
  (answers.supplied attr.key).bind (fun raw =>
    match readValue attr raw with
    | .error message => some ⟨some attr.key, message⟩
    | .ok _ => none)

def storedOf (answers : Answers) (attr : CategoryAttribute) : Option (String × AttributeValue) :=
  (answers.supplied attr.key).bind (fun raw =>
    match readValue attr raw with
    | .error _ => none
    | .ok value => some (attr.key, value))

section Validate

variable {attributes : List CategoryAttribute} {answers : Answers} {attr : CategoryAttribute}
  {values : ListingAttributeValues} {issues : List AttributeValueIssue}

theorem put_of_fresh {V : Type*} {record : Record V} {key : String} {value : V}
    (h : ∀ e ∈ record, e.1 ≠ key) : record.put key value = record ++ [(key, value)] := by
  rw [Record.put, if_neg]
  rw [List.any_eq_true]
  rintro ⟨e, he, hkey⟩
  exact h e he (of_decide_eq_true hkey)

theorem supplied_eq_some {key : String} {raw : Submitted} :
    answers.supplied key = some raw ↔ answers.entries.get key = some raw ∧ raw ≠ .missing := by
  rw [Answers.supplied, Option.filter_eq_some_iff, decide_eq_true_iff]

theorem supplied_eq_none {key : String} :
    answers.supplied key = none ↔ answers.entries.get key = none ∨ answers.entries.get key = some .missing := by
  rw [Answers.supplied, Option.filter_eq_none_iff]
  cases answers.entries.get key <;> simp

theorem readAnswer_eq (hfresh : ∀ e ∈ values, e.1 ≠ attr.key) :
    readAnswer answers (issues, values) attr =
      (issues ++ (issueOf answers attr).toList, values ++ (storedOf answers attr).toList) := by
  cases hsupplied : answers.supplied attr.key with
  | none =>
    simp only [issueOf, storedOf, hsupplied, Option.bind_none, Option.toList_none, List.append_nil]
    obtain hget | hget := supplied_eq_none.mp hsupplied
    · simp only [readAnswer, hget]
    · simp only [readAnswer, hget]
  | some raw =>
    obtain ⟨hget, hne⟩ := supplied_eq_some.mp hsupplied
    cases hread : readValue attr raw with
    | error message =>
      have hturn : readAnswer answers (issues, values) attr = (issues ++ [⟨some attr.key, message⟩], values) := by
        cases raw with
        | missing => contradiction
        | text s => simp only [readAnswer, hget, hread]
        | list entries => simp only [readAnswer, hget, hread]
        | other => simp only [readAnswer, hget, hread]
      rw [hturn]
      simp [issueOf, storedOf, hsupplied, hread]
    | ok value =>
      have hturn : readAnswer answers (issues, values) attr = (issues, values.put attr.key value) := by
        cases raw with
        | missing => contradiction
        | text s => simp only [readAnswer, hget, hread]
        | list entries => simp only [readAnswer, hget, hread]
        | other => simp only [readAnswer, hget, hread]
      rw [hturn, put_of_fresh hfresh]
      simp [issueOf, storedOf, hsupplied, hread]

theorem storedOf_eq_some {e : String × AttributeValue} : storedOf answers attr = some e ↔
    ∃ raw value, answers.supplied attr.key = some raw ∧ readValue attr raw = .ok value ∧ e = (attr.key, value) := by
  rw [storedOf, Option.bind_eq_some_iff]
  constructor
  · rintro ⟨raw, hraw, h⟩
    split at h
    · cases h
    · cases h
      exact ⟨raw, _, hraw, ‹_›, rfl⟩
  · rintro ⟨raw, value, hraw, hvalue, rfl⟩
    exact ⟨raw, hraw, by rw [hvalue]⟩

theorem issueOf_eq_none : issueOf answers attr = none ↔
    ∀ raw, answers.supplied attr.key = some raw → ∃ value, readValue attr raw = .ok value := by
  rw [issueOf, Option.bind_eq_none_iff]
  constructor
  · intro h raw hraw
    have hnone := h raw hraw
    split at hnone
    · cases hnone
    · exact ⟨_, ‹_›⟩
  · intro h raw hraw
    obtain ⟨value, hvalue⟩ := h raw hraw
    rw [hvalue]

theorem key_of_storedOf {e : String × AttributeValue} (h : storedOf answers attr = some e) : e.1 = attr.key := by
  obtain ⟨_, _, _, _, rfl⟩ := storedOf_eq_some.mp h
  rfl

theorem foldl_readAnswer_eq (hkeys : (attributes.map (·.key)).Nodup)
    (hfresh : ∀ attr ∈ attributes, ∀ e ∈ values, e.1 ≠ attr.key) :
    attributes.foldl (readAnswer answers) (issues, values) =
      (issues ++ attributes.filterMap (issueOf answers), values ++ attributes.filterMap (storedOf answers)) := by
  induction attributes generalizing issues values with
  | nil => simp
  | cons attr attributes ih =>
    obtain ⟨hnot, hkeys⟩ := List.nodup_cons.mp hkeys
    rw [List.foldl_cons, readAnswer_eq (hfresh attr List.mem_cons_self), ih hkeys]
    · rw [List.filterMap_cons, List.filterMap_cons, List.append_assoc, List.append_assoc]
      cases issueOf answers attr <;> cases storedOf answers attr <;> rfl
    · intro other hother e he
      obtain hold | hnew := List.mem_append.mp he
      · exact hfresh other (List.mem_cons_of_mem _ hother) e hold
      · rw [key_of_storedOf (Option.mem_toList.mp hnew)]
        intro hkey
        exact hnot (List.mem_map.mpr ⟨other, hother, hkey.symm⟩)

/-- What is accepted, and what is stored of it. -/
theorem validate_eq_ok (hkeys : (attributes.map (·.key)).Nodup) :
    validateAttributeValues attributes (some answers) = .ok values ↔
      answers.entries.length ≤ maxCategoryAttributes ∧
        (∀ e ∈ answers.entries, ∃ attr ∈ attributes, attr.key = e.1) ∧
        (∀ attr ∈ attributes, ∀ raw, answers.supplied attr.key = some raw → ∃ value, readValue attr raw = .ok value) ∧
        values = attributes.filterMap (storedOf answers) := by
  have hunknown : unknownKeys attributes answers = [] ↔
      ∀ e ∈ answers.entries, ∃ attr ∈ attributes, attr.key = e.1 := by
    rw [unknownKeys, List.map_eq_nil_iff, List.filter_eq_nil_iff]
    apply forall₂_congr
    intro e _
    simp
  have hissues : attributes.filterMap (issueOf answers) = [] ↔
      ∀ attr ∈ attributes, ∀ raw, answers.supplied attr.key = some raw → ∃ value, readValue attr raw = .ok value := by
    rw [List.filterMap_eq_nil_iff]
    apply forall₂_congr
    intro attr _
    exact issueOf_eq_none
  have hloop : attributes.foldl (readAnswer answers) (unknownKeys attributes answers, []) =
      (unknownKeys attributes answers ++ attributes.filterMap (issueOf answers),
        [] ++ attributes.filterMap (storedOf answers)) := foldl_readAnswer_eq hkeys nofun
  rw [List.nil_append] at hloop
  simp only [validateAttributeValues]
  rw [hloop]
  dsimp only
  rw [← hunknown, ← hissues]
  by_cases hcount : maxCategoryAttributes < answers.entries.length
  · rw [if_pos hcount]
    exact ⟨fun h => (by cases h), fun h => absurd hcount (Nat.not_lt.mpr h.1)⟩
  · rw [if_neg hcount]
    by_cases hclear : unknownKeys attributes answers ++ attributes.filterMap (issueOf answers) = []
    · rw [if_pos hclear, Except.ok.injEq]
      obtain ⟨hno, hnone⟩ := List.append_eq_nil_iff.mp hclear
      exact ⟨fun h => ⟨Nat.le_of_not_lt hcount, hno, hnone, h.symm⟩, fun h => h.2.2.2.symm⟩
    · rw [if_neg hclear]
      exact ⟨fun h => (by cases h), fun h => absurd (List.append_eq_nil_iff.mpr ⟨h.2.1, h.2.2.1⟩) hclear⟩

theorem get_eq_some {V : Type*} {record : Record V} {key : String} {value : V}
    (hnodup : (record.map (·.1)).Nodup) : record.get key = some value ↔ (key, value) ∈ record := by
  constructor
  · exact Record.mem_of_get
  · intro h
    cases hfind : record.find? (fun e => e.1 = key) with
    | none => exact absurd (decide_eq_true rfl) (List.find?_eq_none.mp hfind _ h)
    | some e =>
      have hmem := List.mem_of_find?_eq_some hfind
      have hkey : e.1 = key := by simpa using List.find?_some hfind
      rw [Record.get, hfind, List.inj_on_of_nodup_map hnodup hmem h hkey]
      rfl

/-- A submission is accepted exactly if every key is defined and every answer to it legal. -/
theorem accepts_iff (h : SchemaValid attributes) :
    (∃ values, validateAttributeValues attributes (some answers) = .ok values) ↔
      ∀ e ∈ answers.entries, ∃ attr ∈ attributes, attr.key = e.1 ∧ (e.2 ≠ .missing → attr.Accepts e.2) := by
  simp only [validate_eq_ok h.keys, exists_and_left, exists_eq, and_true]
  constructor
  · rintro ⟨-, hknown, hread⟩ e he
    obtain ⟨attr, hattr, hkey⟩ := hknown e he
    refine ⟨attr, hattr, hkey, fun hne => ?_⟩
    apply (readValue_ok_iff (h.places attr hattr)).mp
    apply hread attr hattr
    rw [hkey]
    exact supplied_eq_some.mpr ⟨(get_eq_some answers.nodup).mpr he, hne⟩
  · intro hall
    have hknown : ∀ e ∈ answers.entries, ∃ attr ∈ attributes, attr.key = e.1 := by
      intro e he
      obtain ⟨attr, hattr, hkey, -⟩ := hall e he
      exact ⟨attr, hattr, hkey⟩
    refine ⟨?_, hknown, ?_⟩
    · -- as many keys as definitions at most
      have hsub : answers.entries.map (·.1) ⊆ attributes.map (·.key) := by
        intro key hkey
        obtain ⟨e, he, rfl⟩ := List.mem_map.mp hkey
        obtain ⟨attr, hattr, hkey⟩ := hknown e he
        exact List.mem_map.mpr ⟨attr, hattr, hkey⟩
      have hlength := (answers.nodup.subperm hsub).length_le
      rw [List.length_map, List.length_map] at hlength
      exact Nat.le_trans hlength h.count
    · intro attr hattr raw hraw
      obtain ⟨hget, hne⟩ := supplied_eq_some.mp hraw
      obtain ⟨other, hother, hkey, haccepts⟩ := hall _ (Record.mem_of_get hget)
      rw [List.inj_on_of_nodup_map h.keys hattr hother hkey.symm]
      exact (readValue_ok_iff (h.places other hother)).mpr (haccepts hne)

end Validate

/-- The same answer, but for the order in which choices are listed. -/
inductive SameAnswer : Submitted → Submitted → Prop where
  | same (raw : Submitted) : SameAnswer raw raw
  | choices {entries entries' : List (Option String)} (h : entries.Perm entries') :
      SameAnswer (.list entries) (.list entries')

/-- The same answers under the same keys, in whatever order. -/
def Reordered (answers answers' : Answers) : Prop :=
  (answers.entries.map (·.1)).Perm (answers'.entries.map (·.1)) ∧
    ∀ key raw raw', (key, raw) ∈ answers.entries → (key, raw') ∈ answers'.entries → SameAnswer raw raw'

section Reordered

variable {answers answers' : Answers} {raw raw' : Submitted} {attr : CategoryAttribute} {value : AttributeValue}

theorem SameAnswer.symm (h : SameAnswer raw raw') : SameAnswer raw' raw := by
  cases h with
  | same => exact .same raw
  | choices h => exact .choices h.symm

theorem Reordered.symm (h : Reordered answers answers') : Reordered answers' answers :=
  ⟨h.1.symm, fun key raw raw' hraw hraw' => (h.2 key raw' raw hraw' hraw).symm⟩

theorem Reordered.of_perm (h : answers.entries.Perm answers'.entries) : Reordered answers answers' := by
  refine ⟨h.map _, ?_⟩
  intro key raw raw' hraw hraw'
  have hentry : (key, raw) = (key, raw') := List.inj_on_of_nodup_map answers'.nodup (h.mem_iff.mp hraw) hraw' rfl
  cases hentry
  exact .same raw

theorem exists_map_some {V : Type*} {entries : List (Option V)} (h : ∀ entry ∈ entries, entry.isSome) :
    ∃ values : List V, entries = values.map some := by
  induction entries with
  | nil => exact ⟨[], rfl⟩
  | cons entry entries ih =>
    obtain ⟨hentry, hentries⟩ := List.forall_mem_cons.mp h
    obtain ⟨value, rfl⟩ := Option.isSome_iff_exists.mp hentry
    obtain ⟨values, rfl⟩ := ih hentries
    exact ⟨value :: values, rfl⟩

theorem readValue_of_same (h : SameAnswer raw raw') (hread : readValue attr raw = .ok value) :
    readValue attr raw' = .ok value := by
  cases h with
  | same => exact hread
  | @choices entries entries' hperm =>
    cases htype : attr.type with
    | choiceMany options =>
      obtain ⟨values, rfl, hne, hnodup, hoptions, rfl⟩ := (readChoiceMany_eq_ok htype).mp hread
      have hsome : ∀ entry ∈ entries', entry.isSome := by
        intro entry hentry
        obtain ⟨v, _, rfl⟩ := List.mem_map.mp (hperm.mem_iff.mpr hentry)
        rfl
      obtain ⟨values', rfl⟩ := exists_map_some hsome
      have hvalues := (List.map_perm_map_iff (Option.some_injective String)).mp hperm
      apply (readChoiceMany_eq_ok htype).mpr
      refine ⟨values', rfl, ?_, hvalues.nodup_iff.mp hnodup, fun v hv => hoptions v (hvalues.mem_iff.mpr hv), ?_⟩
      · rintro rfl
        exact hne (List.perm_nil.mp hvalues)
      · simp only [hvalues.mem_iff]
    | text maxLength => simp [readValue, htype] at hread
    | number unit decimalPlaces => simp [readValue, htype] at hread
    | choice options => simp [readValue, htype] at hread

theorem Reordered.supplied (h : Reordered answers answers') {key : String}
    (hraw : answers.supplied key = some raw) : ∃ raw', answers'.supplied key = some raw' ∧ SameAnswer raw raw' := by
  obtain ⟨hget, hne⟩ := supplied_eq_some.mp hraw
  have hmem := Record.mem_of_get hget
  obtain ⟨⟨key', raw'⟩, hmem', hkey⟩ := List.mem_map.mp (h.1.mem_iff.mp (List.mem_map_of_mem hmem))
  cases hkey
  have hsame := h.2 key raw raw' hmem hmem'
  refine ⟨raw', supplied_eq_some.mpr ⟨(get_eq_some answers'.nodup).mpr hmem', ?_⟩, hsame⟩
  cases hsame with
  | same => exact hne
  | choices => exact nofun

theorem Reordered.storedOf (h : Reordered answers answers') {e : String × AttributeValue}
    (he : storedOf answers attr = some e) : storedOf answers' attr = some e := by
  obtain ⟨raw, value, hraw, hvalue, rfl⟩ := storedOf_eq_some.mp he
  obtain ⟨raw', hraw', hsame⟩ := h.supplied hraw
  exact storedOf_eq_some.mpr ⟨raw', value, hraw', readValue_of_same hsame hvalue, rfl⟩

theorem Reordered.validate {attributes : List CategoryAttribute} {values : ListingAttributeValues}
    (h : Reordered answers answers') (hkeys : (attributes.map (·.key)).Nodup)
    (hok : validateAttributeValues attributes (some answers) = .ok values) :
    validateAttributeValues attributes (some answers') = .ok values := by
  obtain ⟨hcount, hknown, hread, rfl⟩ := (validate_eq_ok hkeys).mp hok
  apply (validate_eq_ok hkeys).mpr
  refine ⟨?_, ?_, ?_, ?_⟩
  · have hlength := h.1.length_eq
    rw [List.length_map, List.length_map] at hlength
    exact hlength ▸ hcount
  · intro e' he'
    obtain ⟨e, he, hkey⟩ := List.mem_map.mp (h.1.mem_iff.mpr (List.mem_map_of_mem he'))
    obtain ⟨attr, hattr, hattrkey⟩ := hknown e he
    exact ⟨attr, hattr, hattrkey.trans hkey⟩
  · intro attr hattr raw' hraw'
    obtain ⟨raw, hraw, hsame⟩ := h.symm.supplied hraw'
    obtain ⟨value, hvalue⟩ := hread attr hattr raw hraw
    exact ⟨value, readValue_of_same hsame.symm hvalue⟩
  · apply List.filterMap_congr
    intro attr _
    apply Option.ext
    intro e
    exact ⟨fun he => h.storedOf he, fun he => h.symm.storedOf he⟩

end Reordered

end RentalMarket.Catalogue
