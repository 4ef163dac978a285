import RentalMarket.Catalogue.AttributeLaws
import RentalMarket.Lib.Json
import RentalMarket.Lib.Keyed

namespace RentalMarket.Catalogue

open Script

def decimalString (value : Int) (decimalPlaces : Nat) : String :=
  let sign := if value < 0 then ['-'] else []
  let digits := (Nat.toDigits 10 value.natAbs).leftpad (decimalPlaces + 1) '0'
  if decimalPlaces = 0 then String.ofList (sign ++ digits)
  else
    let whole := digits.take (digits.length - decimalPlaces)
    let fraction := digits.drop (digits.length - decimalPlaces)
    String.ofList (sign ++ whole ++ '.' :: fraction)

/-- `Scaled.toDecimalString` -/
def toDecimalString (value : Int) (decimalPlaces : Nat) : Except String String :=
  if maxDecimalPlaces < decimalPlaces then
    .error ("Decimal places must be a whole number between 0 and 9, received " ++ toString decimalPlaces)
  else if maxSafeInteger < value.natAbs then
    .error ("A scaled value must be a whole number, received " ++ toString value)
  else .ok (decimalString value decimalPlaces)

inductive FormAnswer where
  | text (s : String)
  | list (values : List String)
  deriving DecidableEq, Repr

abbrev AttributeAnswers := Record FormAnswer

/-- One turn of the loop over the definitions. A stored value of another shape than its
definition's is dropped. -/
def renderAnswer (values : ListingAttributeValues) (answers : AttributeAnswers) (attr : CategoryAttribute) :
    Except String AttributeAnswers :=
  match values.get attr.key with
  | none => .ok answers
  | some stored =>
    match attr.type, stored with
    | .number _ decimalPlaces, .number n =>
      (toDecimalString n decimalPlaces).map (fun s => answers.put attr.key (.text s))
    | .text _, .text s => .ok (answers.put attr.key (.text s))
    | .choice _, .text s => .ok (answers.put attr.key (.text s))
    | .choiceMany _, .list chosen => .ok (answers.put attr.key (.list chosen))
    | _, _ => .ok answers

def toStoredAnswers (attributes : List CategoryAttribute) (values : ListingAttributeValues) :
    Except String AttributeAnswers :=
  attributes.foldlM (renderAnswer values) []

/-- What a form posts under a name: nothing, a file, or a text, which is JSON or not. -/
inductive FormEntry where
  | missing
  | file
  | garbled
  | json (value : Json)

def FormAnswer.toJson : FormAnswer → Json
  | text s => .string s
  | list values => .array (values.map .string)

/-- `JSON.stringify` -/
def stringify (answers : AttributeAnswers) : FormEntry :=
  .json (.object (answers.map (fun e => (e.1, e.2.toJson))))

def notAForm : String :=
  "The details for this category could not be read. Reload the page and try again — nothing has been saved."

def readSubmittedAttributes : FormEntry → Except String (List (String × Json))
  | .json (.object members) => .ok members
  | _ => .error notAForm

def textOf : Json → Option String
  | .string s => some s
  | _ => none

def submittedOf : Json → Submitted
  | .null => .missing
  | .string s => .text s
  | .array items => .list (items.map textOf)
  | _ => .other

theorem nodup_put {V : Type*} {record : Record V} (h : (record.map (·.1)).Nodup) (key : String) (value : V) :
    ((record.put key value).map (·.1)).Nodup := by
  rw [Record.put]
  split
  · have hkeys : (record.map (fun e => if e.1 = key then (key, value) else e)).map (·.1) = record.map (·.1) := by
      rw [List.map_map]
      apply List.map_congr_left
      intro e _
      by_cases he : e.1 = key
      · rw [Function.comp_apply, if_pos he, he]
      · rw [Function.comp_apply, if_neg he]
    rw [hkeys]
    exact h
  · rename_i hfresh
    apply Keyed.nodup_append h
    intro e he hkey
    exact hfresh (List.any_eq_true.mpr ⟨e, he, decide_eq_true hkey⟩)

def putMember (record : Record Submitted) (m : String × Json) : Record Submitted :=
  record.put m.1 (submittedOf m.2)

theorem nodup_foldl_putMember {record : Record Submitted} (h : (record.map (·.1)).Nodup)
    (members : List (String × Json)) : ((members.foldl putMember record).map (·.1)).Nodup := by
  induction members generalizing record with
  | nil => exact h
  | cons m members ih => exact ih (nodup_put h _ _)

def answersOf (members : List (String × Json)) : Answers :=
  ⟨members.foldl putMember [], @nodup_foldl_putMember [] List.nodup_nil members⟩

theorem foldl_putMember_of_nodup {record : Record Submitted} {members : List (String × Json)}
    (h : (record.map (·.1) ++ members.map (·.1)).Nodup) :
    members.foldl putMember record = record ++ members.map (fun m => (m.1, submittedOf m.2)) := by
  induction members generalizing record with
  | nil => simp
  | cons m members ih =>
    have hfresh : ∀ e ∈ record, e.1 ≠ m.1 := by
      intro e he
      exact (List.nodup_append.mp h).2.2 e.1 (List.mem_map_of_mem he) m.1 List.mem_cons_self
    rw [List.foldl_cons, putMember, put_of_fresh hfresh, ih]
    · rw [List.append_assoc, List.map_cons, List.singleton_append]
    · rw [List.map_append, List.append_assoc]
      exact h

section Number

variable {n : Int} {decimalPlaces : Nat}

/-- The digits of a scaled value: `decimalPlaces` of them after the point, and one before it at least. -/
theorem decimalString_eq (n : Int) (decimalPlaces : Nat) : ∃ whole fraction : List Char,
    decimalString n decimalPlaces = String.ofList (decimalText (n < 0) whole fraction) ∧ whole ≠ [] ∧
      fraction.length = decimalPlaces ∧ whole ++ fraction =
        (Nat.toDigits 10 n.natAbs).leftpad (decimalPlaces + 1) '0' := by
  have hlength : decimalPlaces + 1 ≤ ((Nat.toDigits 10 n.natAbs).leftpad (decimalPlaces + 1) '0').length := by
    rw [List.length_leftpad]
    exact Nat.le_max_left _ _
  generalize hdigits : (Nat.toDigits 10 n.natAbs).leftpad (decimalPlaces + 1) '0' = digits at hlength
  refine ⟨digits.take (digits.length - decimalPlaces), digits.drop (digits.length - decimalPlaces), ?_, ?_, ?_,
    List.take_append_drop _ _⟩
  · have hsign : (if n < 0 then ['-'] else []) = (if decide (n < 0) = true then ['-'] else []) := by
      simp only [decide_eq_true_eq]
    by_cases hzero : decimalPlaces = 0
    · subst hzero
      simp only [decimalString, decimalText, hdigits, hsign, Nat.sub_zero, List.take_length, List.drop_length,
        if_true, List.append_nil]
    · have hne : digits.drop (digits.length - decimalPlaces) ≠ [] := by
        intro h
        have := List.drop_eq_nil_iff.mp h
        omega
      simp only [decimalString, decimalText, hdigits, hsign, if_neg hzero, if_neg hne]
  · intro h
    have := List.take_eq_nil_iff.mp h
    obtain h₀ | h₀ := this
    · omega
    · rw [h₀] at hlength
      exact absurd hlength (Nat.not_succ_le_zero _)
  · rw [List.length_drop]
    omega

theorem read_decimalString (hplaces : decimalPlaces ≤ maxDecimalPlaces) (hsafe : n.natAbs ≤ maxSafeInteger) :
    trim (decimalString n decimalPlaces) = decimalString n decimalPlaces ∧
      (decimalParts (decimalString n decimalPlaces)).isSome ∧
      fromDecimalString (decimalString n decimalPlaces) decimalPlaces = .ok n := by
  obtain ⟨whole, fraction, hstring, hwhole, hfraction, hdigits⟩ := decimalString_eq n decimalPlaces
  have hdigit {c : Char} (hc : c ∈ whole ++ fraction) : c.isDigit = true := isDigit_leftpad (hdigits ▸ hc)
  have hw : ∀ c ∈ whole, c.isDigit = true := fun c hc => hdigit (List.mem_append_left _ hc)
  have hf : ∀ c ∈ fraction, c.isDigit = true := fun c hc => hdigit (List.mem_append_right _ hc)
  have htrim : trim (decimalString n decimalPlaces) = decimalString n decimalPlaces := by
    rw [hstring]
    exact trim_decimalText hw hwhole hf
  have hparts : decimalParts (decimalString n decimalPlaces) = some (decide (n < 0), whole, fraction) := by
    rw [hstring]
    exact decimalParts_decimalText hw hwhole hf
  have hvalue : digitsValue (whole ++ fraction.rightpad decimalPlaces '0') = n.natAbs := by
    rw [List.rightpad, hfraction, Nat.sub_self, List.replicate_zero, List.append_nil, hdigits, digitsValue_leftpad,
      digitsValue_toDigits]
  refine ⟨htrim, by rw [hparts]; rfl, ?_⟩
  apply (fromDecimalString_eq_ok hplaces).mpr
  refine ⟨_, whole, fraction, htrim.symm ▸ hparts, Nat.le_of_eq hfraction, hvalue.symm ▸ hsafe, ?_⟩
  rw [hvalue]
  split
  · rename_i hneg
    have := of_decide_eq_true hneg
    omega
  · rename_i hneg
    have : ¬ n < 0 := fun h => hneg (decide_eq_true h)
    omega

end Number

def formOf (attr : CategoryAttribute) : AttributeValue → FormAnswer
  | .text s => .text s
  | .list chosen => .list chosen
  | .number n =>
    match attr.type with
    | .number _ decimalPlaces => .text (decimalString n decimalPlaces)
    | _ => .text ""

section RoundTrip

variable {attributes : List CategoryAttribute} {attr : CategoryAttribute} {raw : Submitted} {value : AttributeValue}
  {values : ListingAttributeValues} {answers : Answers}

theorem submittedOf_ne_missing (a : FormAnswer) : submittedOf a.toJson ≠ .missing := by
  cases a <;> exact nofun

/-- One answer comes back as it was stored. -/
theorem readValue_formOf (h : SchemaValid attributes) (hattr : attr ∈ attributes)
    (hread : readValue attr raw = .ok value) :
    readValue attr (submittedOf (formOf attr value).toJson) = .ok value := by
  cases htype : attr.type with
  | text maxLength =>
    cases raw with
    | text s =>
      obtain ⟨hlegal, rfl⟩ := (readText_eq_ok htype).mp hread
      apply (readText_eq_ok htype).mpr
      rw [trim_trim]
      exact ⟨hlegal, rfl⟩
    | missing => simp [readValue, htype] at hread
    | list entries => simp [readValue, htype] at hread
    | other => simp [readValue, htype] at hread
  | number unit decimalPlaces =>
    cases raw with
    | text s =>
      obtain ⟨n, hn, -, rfl⟩ := (readNumber_eq_ok htype).mp hread
      obtain ⟨htrim, hparts, hvalue⟩ :=
        read_decimalString (h.places attr hattr unit decimalPlaces htype) (fromDecimalString_safe hn)
      simp only [formOf, htype, FormAnswer.toJson, submittedOf]
      apply (readNumber_eq_ok htype).mpr
      rw [htrim]
      exact ⟨n, hvalue, hparts, rfl⟩
    | missing => simp [readValue, htype] at hread
    | list entries => simp [readValue, htype] at hread
    | other => simp [readValue, htype] at hread
  | choice options =>
    cases raw with
    | text s =>
      obtain ⟨hoption, rfl⟩ := (readChoice_eq_ok htype).mp hread
      exact (readChoice_eq_ok htype).mpr ⟨hoption, rfl⟩
    | missing => simp [readValue, htype] at hread
    | list entries => simp [readValue, htype] at hread
    | other => simp [readValue, htype] at hread
  | choiceMany options =>
    cases raw with
    | list entries =>
      obtain ⟨chosen, rfl, hne, hnodup, hoptions, rfl⟩ := (readChoiceMany_eq_ok htype).mp hread
      have hmem {v : String} (hv : v ∈ (options.map (·.value)).filter (fun v => decide (v ∈ chosen))) : v ∈ chosen :=
        of_decide_eq_true (List.mem_filter.mp hv).2
      have hstored {v : String} (hv : v ∈ chosen) :
          v ∈ (options.map (·.value)).filter (fun v => decide (v ∈ chosen)) := by
        obtain ⟨o, ho, rfl⟩ := hoptions v hv
        exact List.mem_filter.mpr ⟨List.mem_map_of_mem ho, decide_eq_true hv⟩
      apply (readChoiceMany_eq_ok htype).mpr
      refine ⟨(options.map (·.value)).filter (fun v => decide (v ∈ chosen)), ?_, ?_,
        (h.options attr hattr options htype).filter _, fun v hv => hoptions v (hmem hv), ?_⟩
      · rw [List.map_map]
        rfl
      · obtain ⟨v, hv⟩ := List.exists_mem_of_ne_nil chosen hne
        exact List.ne_nil_of_mem (hstored hv)
      · congr 1
        apply List.filter_congr
        intro v _
        exact decide_eq_decide.mpr ⟨hstored, hmem⟩
    | missing => simp [readValue, htype] at hread
    | text s => simp [readValue, htype] at hread
    | other => simp [readValue, htype] at hread

theorem renderAnswer_eq (h : SchemaValid attributes) (hattr : attr ∈ attributes)
    (hread : readValue attr raw = .ok value) (hget : values.get attr.key = some value) (form : AttributeAnswers) :
    renderAnswer values form attr = .ok (form.put attr.key (formOf attr value)) := by
  have hlegal := readValue_legal hread
  rw [renderAnswer, hget]
  cases value with
  | text s =>
    cases htype : attr.type with
    | text maxLength => rfl
    | choice options => rfl
    | number unit decimalPlaces => simp [CategoryAttribute.Legal, htype] at hlegal
    | choiceMany options => simp [CategoryAttribute.Legal, htype] at hlegal
  | number n =>
    obtain ⟨⟨unit, decimalPlaces, htype⟩, hsafe⟩ := hlegal
    have hplaces := h.places attr hattr unit decimalPlaces htype
    simp only [htype, formOf, toDecimalString, if_neg (Nat.not_lt.mpr hplaces), if_neg (Nat.not_lt.mpr hsafe)]
    rfl
  | list chosen =>
    obtain ⟨options, htype, -, -⟩ := hlegal
    simp only [htype, formOf]

def formEntry (values : ListingAttributeValues) (attr : CategoryAttribute) : Option (String × FormAnswer) :=
  (values.get attr.key).map (fun value => (attr.key, formOf attr value))

/-- The loop over the definitions, from any of them on. -/
theorem foldlM_renderAnswer (h : SchemaValid attributes) {rest : List CategoryAttribute} {form : AttributeAnswers}
    (hrest : ∀ attr ∈ rest, attr ∈ attributes) (hkeys : (rest.map (·.key)).Nodup)
    (hfresh : ∀ attr ∈ rest, ∀ e ∈ form, e.1 ≠ attr.key)
    (hread : ∀ attr ∈ rest, ∀ value, values.get attr.key = some value → ∃ raw, readValue attr raw = .ok value) :
    rest.foldlM (renderAnswer values) form = .ok (form ++ rest.filterMap (formEntry values)) := by
  induction rest generalizing form with
  | nil =>
    rw [List.filterMap_nil, List.append_nil]
    rfl
  | cons attr rest ih =>
    obtain ⟨hnot, hkeys⟩ := List.nodup_cons.mp hkeys
    obtain ⟨hattr, hrest⟩ := List.forall_mem_cons.mp hrest
    obtain ⟨hfirst, hfresh⟩ := List.forall_mem_cons.mp hfresh
    obtain ⟨hone, hread⟩ := List.forall_mem_cons.mp hread
    rw [List.foldlM_cons, List.filterMap_cons]
    cases hget : values.get attr.key with
    | none =>
      have hturn : renderAnswer values form attr = .ok form := by
        rw [renderAnswer, hget]
      simp only [formEntry, hget, Option.map_none, hturn]
      exact ih hrest hkeys hfresh hread
    | some value =>
      obtain ⟨raw, hraw⟩ := hone value hget
      have hturn := renderAnswer_eq h hattr hraw hget form
      rw [put_of_fresh hfirst] at hturn
      simp only [formEntry, hget, Option.map_some, hturn]
      have hgrown : ∀ other ∈ rest, ∀ e ∈ form ++ [(attr.key, formOf attr value)], e.1 ≠ other.key := by
        intro other hother e he
        obtain hold | hnew := List.mem_append.mp he
        · exact hfresh other hother e hold
        · rw [List.mem_singleton.mp hnew]
          intro hkey
          exact hnot (List.mem_map.mpr ⟨other, hother, hkey.symm⟩)
      have hnext := ih hrest hkeys hgrown hread
      rw [List.append_assoc] at hnext
      exact hnext

theorem nodup_storedOf (hkeys : (attributes.map (·.key)).Nodup) (answers : Answers) :
    ((attributes.filterMap (storedOf answers)).map (·.1)).Nodup :=
  Keyed.nodup_filterMap hkeys (fun _ _ => key_of_storedOf)

theorem key_of_formEntry {e : String × FormAnswer} (he : formEntry values attr = some e) : e.1 = attr.key := by
  obtain ⟨_, _, rfl⟩ := Option.map_eq_some_iff.mp he
  rfl

theorem get_storedOf (hkeys : (attributes.map (·.key)).Nodup) (hattr : attr ∈ attributes) :
    Record.get (attributes.filterMap (storedOf answers)) attr.key = some value ↔
      storedOf answers attr = some (attr.key, value) := by
  rw [get_eq_some (nodup_storedOf hkeys answers), List.mem_filterMap]
  constructor
  · rintro ⟨other, hother, hstored⟩
    have hkey : attr.key = other.key := key_of_storedOf hstored
    rw [List.inj_on_of_nodup_map hkeys hattr hother hkey]
    rw [hkey] at hstored
    exact hstored
  · intro hstored
    exact ⟨attr, hattr, hstored⟩

theorem supplied_formEntry (hkeys : (attributes.map (·.key)).Nodup) (hattr : attr ∈ attributes)
    (hentries : answers.entries = (attributes.filterMap (formEntry values)).map
      (fun e => (e.1, submittedOf e.2.toJson))) :
    answers.supplied attr.key = some raw ↔
      ∃ value, values.get attr.key = some value ∧ raw = submittedOf (formOf attr value).toJson := by
  rw [supplied_eq_some, get_eq_some answers.nodup, hentries]
  constructor
  · rintro ⟨hmem, -⟩
    obtain ⟨e, he, hentry⟩ := List.mem_map.mp hmem
    obtain ⟨hkey, rfl⟩ := Prod.mk.inj hentry
    obtain ⟨other, hother, hformEntry⟩ := List.mem_filterMap.mp he
    have hsame : attr = other :=
      List.inj_on_of_nodup_map hkeys hattr hother (hkey.symm.trans (key_of_formEntry hformEntry))
    subst hsame
    obtain ⟨value, hget, rfl⟩ := Option.map_eq_some_iff.mp hformEntry
    exact ⟨value, hget, rfl⟩
  · rintro ⟨value, hget, rfl⟩
    refine ⟨?_, submittedOf_ne_missing _⟩
    apply List.mem_map.mpr
    refine ⟨(attr.key, formOf attr value), List.mem_filterMap.mpr ⟨attr, hattr, ?_⟩, rfl⟩
    rw [formEntry, hget, Option.map_some]

theorem entries_answersOf (hkeys : (attributes.map (·.key)).Nodup) (values : ListingAttributeValues) :
    (answersOf ((attributes.filterMap (formEntry values)).map (fun e => (e.1, e.2.toJson)))).entries =
      (attributes.filterMap (formEntry values)).map (fun e => (e.1, submittedOf e.2.toJson)) := by
  have hnodup : ((attributes.filterMap (formEntry values)).map (·.1)).Nodup :=
    Keyed.nodup_filterMap hkeys (fun _ _ => key_of_formEntry)
  change ((attributes.filterMap (formEntry values)).map (fun e => (e.1, e.2.toJson))).foldl putMember [] = _
  rw [foldl_putMember_of_nodup, List.nil_append, List.map_map]
  · rfl
  · rw [List.map_nil, List.nil_append, List.map_map]
    exact hnodup

/-- An untouched form gives the values it was rendered from. -/
theorem resubmitted (h : SchemaValid attributes)
    (hok : validateAttributeValues attributes (some answers) = .ok values) :
    ∃ form members, toStoredAnswers attributes values = .ok form ∧
      readSubmittedAttributes (stringify form) = .ok members ∧
        validateAttributeValues attributes (some (answersOf members)) = .ok values := by
  obtain ⟨-, -, -, hvalues⟩ := (validate_eq_ok h.keys).mp hok
  have hget {attr : CategoryAttribute} (hattr : attr ∈ attributes) {value : AttributeValue} :
      values.get attr.key = some value ↔ storedOf answers attr = some (attr.key, value) := by
    rw [hvalues]
    exact get_storedOf h.keys hattr
  have hread {attr : CategoryAttribute} (hattr : attr ∈ attributes) {value : AttributeValue}
      (hvalue : values.get attr.key = some value) : ∃ raw, readValue attr raw = .ok value := by
    obtain ⟨raw, _, _, hraw, heq⟩ := storedOf_eq_some.mp ((hget hattr).mp hvalue)
    cases heq
    exact ⟨raw, hraw⟩
  have hform : toStoredAnswers attributes values = .ok (attributes.filterMap (formEntry values)) :=
    foldlM_renderAnswer h (fun _ hattr => hattr) h.keys (fun _ _ => nofun)
      (fun attr hattr value hvalue => hread hattr hvalue)
  refine ⟨_, _, hform, rfl, ?_⟩
  have hentries := entries_answersOf h.keys values
  apply (validate_eq_ok h.keys).mpr
  refine ⟨?_, ?_, ?_, ?_⟩
  · rw [hentries, List.length_map]
    exact Nat.le_trans (List.length_filterMap_le _ _) h.count
  · intro e he
    rw [hentries] at he
    obtain ⟨f, hf, rfl⟩ := List.mem_map.mp he
    obtain ⟨attr, hattr, hentry⟩ := List.mem_filterMap.mp hf
    exact ⟨attr, hattr, (key_of_formEntry hentry).symm⟩
  · intro attr hattr raw hraw
    obtain ⟨value, hvalue, rfl⟩ := (supplied_formEntry h.keys hattr hentries).mp hraw
    obtain ⟨raw, hraw⟩ := hread hattr hvalue
    exact ⟨value, readValue_formOf h hattr hraw⟩
  · rw [hvalues]
    apply List.filterMap_congr
    intro attr hattr
    apply Option.ext
    intro e
    rw [← hvalues]
    constructor
    · intro he
      obtain ⟨raw, value, _, hraw, rfl⟩ := storedOf_eq_some.mp he
      apply storedOf_eq_some.mpr
      refine ⟨_, value, (supplied_formEntry h.keys hattr hentries).mpr ⟨value, (hget hattr).mpr he, rfl⟩, ?_, rfl⟩
      exact readValue_formOf h hattr hraw
    · intro he
      obtain ⟨_, value, hsupplied, hvalue, rfl⟩ := storedOf_eq_some.mp he
      obtain ⟨value', hvalue', rfl⟩ := (supplied_formEntry h.keys hattr hentries).mp hsupplied
      obtain ⟨raw, hraw⟩ := hread hattr hvalue'
      cases hvalue.symm.trans (readValue_formOf h hattr hraw)
      exact (hget hattr).mp hvalue'

end RoundTrip

/-- Saving an untouched form changes nothing, and what the validator accepts and stores
is settled by the keys and the answers alone. -/
theorem untouched_form_changes_nothing {attributes : List CategoryAttribute} (h : SchemaValid attributes) :
    (∀ raw values, validateAttributeValues attributes raw = .ok values →
      ∃ form members, toStoredAnswers attributes values = .ok form ∧
        readSubmittedAttributes (stringify form) = .ok members ∧
          validateAttributeValues attributes (some (answersOf members)) = .ok values) ∧
    (∀ raw, (∃ values, validateAttributeValues attributes raw = .ok values) ↔
      ∃ answers, raw = some answers ∧
        ∀ e ∈ answers.entries, ∃ attr ∈ attributes, attr.key = e.1 ∧ (e.2 ≠ .missing → attr.Accepts e.2)) ∧
    (∀ answers answers', Reordered answers answers' → ∀ values,
      validateAttributeValues attributes (some answers) = .ok values ↔
        validateAttributeValues attributes (some answers') = .ok values) := by
  refine ⟨?_, ?_, ?_⟩
  · intro raw values hok
    cases raw with
    | none => cases hok
    | some answers => exact resubmitted h hok
  · intro raw
    cases raw with
    | none =>
      constructor
      · rintro ⟨values, hok⟩
        cases hok
      · rintro ⟨answers, heq, -⟩
        cases heq
    | some answers =>
      rw [accepts_iff h]
      constructor
      · intro hall
        exact ⟨answers, rfl, hall⟩
      · rintro ⟨_, heq, hall⟩
        cases heq
        exact hall
  · intro answers answers' hreordered values
    exact ⟨hreordered.validate h.keys, hreordered.symm.validate h.keys⟩

def weighed : List CategoryAttribute :=
  [⟨"weight_kg", "Weight", true, .number "kg" 2⟩,
    ⟨"in_case", "In the case", false, .choiceMany [⟨"bits", "Bits"⟩, ⟨"battery", "Battery"⟩]⟩]

theorem weighed_valid : SchemaValid weighed where
  count := by decide
  keys := by decide
  places := by
    intro attr hattr unit decimalPlaces htype
    obtain rfl | hattr := List.mem_cons.mp hattr
    · cases htype
      decide
    · cases List.mem_singleton.mp hattr
      cases htype
  options := by
    intro attr hattr options htype
    obtain rfl | hattr := List.mem_cons.mp hattr
    · cases htype
    · cases List.mem_singleton.mp hattr
      cases htype
      decide

theorem a_weight_is_kept : ∃ form members,
    toStoredAnswers weighed [("weight_kg", .number (-5)), ("in_case", .list ["bits", "battery"])] = .ok form ∧
      readSubmittedAttributes (stringify form) = .ok members ∧
        validateAttributeValues weighed (some (answersOf members)) =
          .ok [("weight_kg", .number (-5)), ("in_case", .list ["bits", "battery"])] :=
  (untouched_form_changes_nothing weighed_valid).1
    (some ⟨[("in_case", .list [some "battery", some "bits"]), ("weight_kg", .text " -0.05")], by decide⟩) _
    (by decide +kernel)

end RentalMarket.Catalogue
