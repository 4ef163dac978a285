import RentalMarket.Lib.Refusal
import RentalMarket.Lib.Script

namespace RentalMarket.Catalogue

open Script

structure AttributeOption where
  value : String
  label : String
  deriving DecidableEq, Repr

inductive AttributeType where
  | text (maxLength : Nat)
  | number (unit : String) (decimalPlaces : Nat)
  | choice (options : List AttributeOption)
  | choiceMany (options : List AttributeOption)
  deriving DecidableEq, Repr

structure CategoryAttribute where
  key : String
  label : String
  required : Bool
  type : AttributeType
  deriving DecidableEq, Repr

def isJoinedBy (joiner : Char) (s : String) : Bool :=
  (s.toList.splitOn joiner).all (fun word => decide (word ≠ []) && word.all (fun c => c.isLower || c.isDigit))

def attributeKeySchema (raw : String) : Option String :=
  let key := trim raw
  if 2 ≤ length key ∧ length key ≤ 40 ∧ isJoinedBy '_' key = true ∧ key.toList.head?.any Char.isLower = true then some key
  else none

inductive AttributeValue where
  | text (s : String)
  | number (n : Int)
  | list (values : List String)
  deriving DecidableEq, Repr

abbrev ListingAttributeValues := Record AttributeValue

/-- One answer on the wire. What is neither a text nor a list is refused
whatever it is, and so is what is no text in a list. -/
inductive Submitted where
  | missing
  | text (s : String)
  | list (entries : List (Option String))
  | other
  deriving DecidableEq, Repr

/-- A submitted object. It has a key once at most. -/
structure Answers where
  entries : Record Submitted
  nodup : (entries.map (·.1)).Nodup
  deriving DecidableEq

structure AttributeValueIssue where
  key : Option String
  message : String
  deriving DecidableEq, Repr

def maxCategoryAttributes : Nat := 12

def unsafeCharactersMessage : String := "must not contain control or direction-changing characters"

/-- `Scaled.fromDecimalString` -/
def fromDecimalString (value : String) (decimalPlaces : Nat) : Except String Int :=
  if 9 < decimalPlaces then
    .error ("Decimal places must be a whole number between 0 and 9, received " ++ toString decimalPlaces)
  else
    match decimalParts (trim value) with
    | none => .error ("Cannot read \"" ++ value ++ "\" as a number")
    | some (negative, whole, fraction) =>
      if decimalPlaces < fraction.length then
        .error (if decimalPlaces = 0 then "\"" ++ value ++ "\" must be a whole number"
          else "\"" ++ value ++ "\" has more than " ++ toString decimalPlaces ++ " decimal place" ++
            (if decimalPlaces = 1 then "" else "s"))
      else
        let scaled := digitsValue (whole ++ fraction.rightpad decimalPlaces '0')
        if maxSafeInteger < scaled then .error ("\"" ++ value ++ "\" is too large to store at this scale")
        else .ok (if negative then -(scaled : Int) else scaled)

def optionList (options : List AttributeOption) : String := ", ".intercalate (options.map (·.label))

def isOption (options : List AttributeOption) (value : String) : Bool := options.any (fun o => o.value = value)

def mustNotBeBlank (label : String) : String :=
  label ++ " must not be blank — leave it out rather than sending an empty answer"

def readChoices (label : String) (options : List AttributeOption) (chosen : List String) :
    List (Option String) → Except String (List String)
  | [] => .ok chosen
  | none :: _ => .error (label ++ " may only contain " ++ optionList options)
  | some entry :: entries =>
    if !isOption options entry then .error (label ++ " may only contain " ++ optionList options)
    else if entry ∈ chosen then .error (label ++ " lists the same choice twice")
    else readChoices label options (chosen ++ [entry]) entries

def readValue (attr : CategoryAttribute) (raw : Submitted) : Except String AttributeValue :=
  let label := attr.label
  match attr.type with
  | .text maxLength =>
    match raw with
    | .text s =>
      let trimmed := trim s
      if trimmed = "" then .error (mustNotBeBlank label)
      else if maxLength < length trimmed then
        .error (label ++ " must be at most " ++ toString maxLength ++ " characters")
      else if trimmed.toList.any isControlOrFormat then .error (label ++ " " ++ unsafeCharactersMessage)
      else .ok (.text trimmed)
    | _ => .error (label ++ " must be text")
  | .number unit decimalPlaces =>
    match raw with
    | .text s =>
      let typed := trim s
      if typed = "" then .error (mustNotBeBlank label)
      else if (decimalParts typed).isNone then
        .error (label ++ " must be a number in " ++ unit ++
          ", such as 2.5 — digits only, with no unit and no thousands separator")
      else
        match fromDecimalString typed decimalPlaces with
        | .ok value => .ok (.number value)
        | .error message => .error (label ++ " " ++ message)
    | _ => .error (label ++ " must be sent as text, such as \"2.5\", not as a number")
  | .choice options =>
    match raw with
    | .text s =>
      if isOption options s then .ok (.text s) else .error (label ++ " must be one of " ++ optionList options)
    | _ => .error (label ++ " must be one of " ++ optionList options)
  | .choiceMany options =>
    match raw with
    | .list entries =>
      match readChoices label options [] entries with
      | .error message => .error message
      | .ok chosen =>
        if chosen = [] then
          .error (label ++ " must not be an empty list — leave it out if nothing applies")
        else .ok (.list ((options.map (·.value)).filter (fun value => decide (value ∈ chosen))))
    | _ => .error (label ++ " must be a list of " ++ optionList options)

def readAnswer (answers : Answers) (found : List AttributeValueIssue × ListingAttributeValues)
    (attr : CategoryAttribute) : List AttributeValueIssue × ListingAttributeValues :=
  match answers.entries.get attr.key with
  | none => found
  | some .missing => found
  | some supplied =>
    match readValue attr supplied with
    | .error message => (found.1 ++ [⟨some attr.key, message⟩], found.2)
    | .ok value => (found.1, found.2.put attr.key value)

def unknownKeys (attributes : List CategoryAttribute) (answers : Answers) : List AttributeValueIssue :=
  (answers.entries.filter (fun e => attributes.all (fun a => a.key ≠ e.1))).map (fun e => ⟨some e.1,
    "\"" ++ e.1 ++ "\" is not a field of this category. It may have been renamed or removed since this form was opened"⟩)

/-- `none` is a submission that is no object. -/
def validateAttributeValues (attributes : List CategoryAttribute) (raw : Option Answers) :
    Except (List AttributeValueIssue) ListingAttributeValues :=
  match raw with
  | none => .error [⟨none, "The attribute values must be an object of answers"⟩]
  | some answers =>
    if maxCategoryAttributes < answers.entries.length then
      .error [⟨none, "At most " ++ toString maxCategoryAttributes ++ " attribute values may be supplied"⟩]
    else
      let found := attributes.foldl (readAnswer answers) (unknownKeys attributes answers, [])
      if found.1 = [] then .ok found.2 else .error found.1

def CategoryAttribute.Legal (attr : CategoryAttribute) : AttributeValue → Prop
  | .text s =>
    match attr.type with
    | .text maxLength => s ≠ "" ∧ length s ≤ maxLength ∧ s.toList.all (fun c => !isControlOrFormat c) = true
    | .choice options => ∃ o ∈ options, o.value = s
    | _ => False
  | .number n => (∃ unit decimalPlaces, attr.type = .number unit decimalPlaces) ∧ n.natAbs ≤ maxSafeInteger
  | .list values => ∃ options, attr.type = .choiceMany options ∧ values ≠ [] ∧
      values.Sublist (options.map (·.value))

theorem isOption_iff {options : List AttributeOption} {value : String} :
    isOption options value = true ↔ ∃ o ∈ options, o.value = value := by
  simp [isOption]

theorem fromDecimalString_safe {value : String} {decimalPlaces : Nat} {n : Int}
    (h : fromDecimalString value decimalPlaces = .ok n) : n.natAbs ≤ maxSafeInteger := by
  simp only [fromDecimalString] at h
  split at h
  · cases h
  · split at h
    · cases h
    · split at h
      · cases h
      · split at h
        · cases h
        · rename_i hsafe
          cases h
          split <;> omega

theorem readChoices_options {label : String} {options : List AttributeOption} {entries : List (Option String)}
    {chosen chosen' : List String} (h : readChoices label options chosen entries = .ok chosen')
    (hchosen : ∀ value ∈ chosen, isOption options value = true) :
    ∀ value ∈ chosen', isOption options value = true := by
  induction entries generalizing chosen with
  | nil =>
    cases h
    exact hchosen
  | cons entry entries ih =>
    cases entry with
    | none => cases h
    | some entry =>
      rw [readChoices] at h
      split at h
      · cases h
      · rename_i hoption
        split at h
        · cases h
        · refine ih h ?_
          intro value hvalue
          obtain hold | hnew := List.mem_append.mp hvalue
          · exact hchosen value hold
          · rw [List.mem_singleton.mp hnew]
            simpa using hoption

theorem readValue_legal {attr : CategoryAttribute} {raw : Submitted} {value : AttributeValue}
    (h : readValue attr raw = .ok value) : attr.Legal value := by
  simp only [readValue] at h
  split at h
  · rename_i maxLength htype
    split at h
    · split at h
      · cases h
      · rename_i hblank
        split at h
        · cases h
        · rename_i hlength
          split at h
          · cases h
          · rename_i hsafe
            cases h
            simp only [CategoryAttribute.Legal, htype]
            exact ⟨hblank, Nat.le_of_not_lt hlength, by simpa using hsafe⟩
    · cases h
  · rename_i unit decimalPlaces htype
    split at h
    · split at h
      · cases h
      · split at h
        · cases h
        · split at h
          · rename_i n hn
            cases h
            exact ⟨⟨unit, decimalPlaces, htype⟩, fromDecimalString_safe hn⟩
          · cases h
    · cases h
  · rename_i options htype
    split at h
    · split at h
      · rename_i hoption
        cases h
        simp only [CategoryAttribute.Legal, htype]
        exact isOption_iff.mp hoption
      · cases h
    · cases h
  · rename_i options htype
    split at h
    · split at h
      · cases h
      · rename_i chosen hchosen
        split at h
        · cases h
        · rename_i hnone
          cases h
          refine ⟨options, htype, ?_, List.filter_sublist⟩
          obtain ⟨value, hvalue⟩ := List.exists_mem_of_ne_nil chosen hnone
          have hoption := readChoices_options hchosen nofun value hvalue
          obtain ⟨o, ho, rfl⟩ := isOption_iff.mp hoption
          refine List.ne_nil_of_mem (List.mem_filter.mpr ⟨List.mem_map.mpr ⟨o, ho, rfl⟩, ?_⟩)
          exact decide_eq_true hvalue
    · cases h

/-- Every answer the loop over the definitions stores is a legal value of one of
them. -/
theorem foldl_readAnswer_legal {answers : Answers} {attributes schema : List CategoryAttribute}
    (hschema : ∀ a ∈ attributes, a ∈ schema)
    {found : List AttributeValueIssue × ListingAttributeValues}
    (hfound : ∀ e ∈ found.2, ∃ a ∈ schema, a.key = e.1 ∧ a.Legal e.2) :
    ∀ e ∈ (attributes.foldl (readAnswer answers) found).2, ∃ a ∈ schema, a.key = e.1 ∧ a.Legal e.2 := by
  induction attributes generalizing found with
  | nil => exact hfound
  | cons attr attributes ih =>
    rw [List.foldl_cons]
    apply ih (fun a ha => hschema a (List.mem_cons_of_mem _ ha))
    intro e he
    simp only [readAnswer] at he
    split at he
    · exact hfound e he
    · exact hfound e he
    · split at he
      · exact hfound e he
      · rename_i value hvalue
        obtain hold | rfl := Record.mem_of_mem_put he
        · exact hfound e hold
        · exact ⟨attr, hschema attr List.mem_cons_self, rfl, readValue_legal hvalue⟩

theorem validateAttributeValues_legal {attributes : List CategoryAttribute} {raw : Option Answers}
    {values : ListingAttributeValues} (h : validateAttributeValues attributes raw = .ok values) :
    ∀ e ∈ values, ∃ a ∈ attributes, a.key = e.1 ∧ a.Legal e.2 := by
  cases raw with
  | none => cases h
  | some answers =>
    simp only [validateAttributeValues] at h
    split at h
    · cases h
    · split at h
      · cases h
        exact foldl_readAnswer_legal (fun _ ha => ha) nofun
      · cases h

inductive TransportRequirement where
  | handCarryable
  | carBoot
  | estateOrHatchback
  | vanRequired
  | trailerRequired
  deriving DecidableEq, Repr

def TransportRequirement.label : TransportRequirement → String
  | handCarryable => "Carried by hand"
  | carBoot => "Car boot"
  | estateOrHatchback => "Estate or hatchback"
  | vanRequired => "Van or large vehicle"
  | trailerRequired => "Trailer"

structure CategoryTransportOption where
  requirement : TransportRequirement
  suggestedUpToKg : Option Nat
  deriving DecidableEq, Repr

def offersTransportRequirement (options : List CategoryTransportOption) (requirement : TransportRequirement) :
    Bool := options.any (fun option => option.requirement = requirement)

end RentalMarket.Catalogue
