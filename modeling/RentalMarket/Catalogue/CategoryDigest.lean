import RentalMarket.Audit.StateDigest
import RentalMarket.Catalogue.Listings
import RentalMarket.Catalogue.Transport
import RentalMarket.Pricing.RentalQuote

namespace RentalMarket.Catalogue

open RentalMarket.Core RentalMarket.Pricing
open JsonText (Value CodeUnits utf16 utf16_injective)
open Audit (Same Proper)

def literal (fields : List (String × Value)) : Value := .object (fields.map (fun f => (utf16 f.1, some f.2)))

def jsonText (s : String) : Value := .text (utf16 s)

/-- A whole number, which is one of those that the schemas below accept. -/
def jsonNumber (n : Int) : Value :=
  match Script.Double.ofInt n with
  | some x => .number x
  | none => .null

def Money.json (m : Money) : Value := literal [("amount", jsonNumber m.amount), ("currency", jsonText m.currency.code)]

def CategoryRiskLevel.code : CategoryRiskLevel → String
  | low => "low"
  | medium => "medium"
  | high => "high"

def CategoryReportableActivity.code : CategoryReportableActivity → String
  | none => "none"
  | meansOfTransport => "means_of_transport"
  | personalService => "personal_service"
  | saleOfGoods => "sale_of_goods"

def TransportRequirement.code : TransportRequirement → String
  | handCarryable => "hand_carryable"
  | carBoot => "car_boot"
  | estateOrHatchback => "estate_or_hatchback"
  | vanRequired => "van_required"
  | trailerRequired => "trailer_required"

def AttributeOption.json (o : AttributeOption) : Value := literal [("value", jsonText o.value), ("label", jsonText o.label)]

def AttributeType.fields : AttributeType → List (String × Value)
  | text maxLength => [("type", jsonText "text"), ("maxLength", jsonNumber maxLength)]
  | number unit decimalPlaces =>
    [("type", jsonText "number"), ("unit", jsonText unit), ("decimalPlaces", jsonNumber decimalPlaces)]
  | choice options => [("type", jsonText "choice"), ("options", .array (options.map AttributeOption.json))]
  | choiceMany options => [("type", jsonText "choice-many"), ("options", .array (options.map AttributeOption.json))]

def CategoryAttribute.json (a : CategoryAttribute) : Value :=
  literal ([("key", jsonText a.key), ("label", jsonText a.label), ("required", .boolean a.required)] ++ a.type.fields)

def CategoryTransportOption.json (o : CategoryTransportOption) : Value :=
  literal (("requirement", jsonText o.requirement.code) :: match o.suggestedUpToKg with
    | none => []
    | some kg => [("suggestedUpToKg", jsonNumber kg)])

def CategoryFeePolicy.json (p : CategoryFeePolicy) : Value := literal [
  ("ownerCommissionBasisPoints", jsonNumber p.ownerCommissionBasisPoints),
  ("renterFeeBasisPoints", jsonNumber p.renterFeeBasisPoints),
  ("minimumBookingTotal", Money.json p.minimumBookingTotal),
  ("minimumPlatformFee", Money.json p.minimumPlatformFee)]

def DamageSecurityPolicy.json (p : DamageSecurityPolicy) : Value := literal [
  ("excessFloor", Money.json p.excessFloor),
  ("excessPercentageBasisPoints", jsonNumber p.excessPercentageBasisPoints),
  ("recoveryCeiling", Money.json p.recoveryCeiling)]

def orNull : Option DamageSecurityPolicy → Value
  | none => .null
  | some policy => DamageSecurityPolicy.json policy

/-- What `auditable(record)` returns. -/
def AuditableCategory.json (a : AuditableCategory) : Value := literal [
  ("slug", jsonText a.slug),
  ("name", jsonText a.name),
  ("riskLevel", jsonText a.riskLevel.code),
  ("reportableActivity", jsonText a.reportableActivity.code),
  ("attributes", .array (a.attributes.map CategoryAttribute.json)),
  ("transportOptions", .array (a.transportOptions.map CategoryTransportOption.json)),
  ("feePolicy", CategoryFeePolicy.json a.feePolicy),
  ("damageSecurity", orNull a.damageSecurity)]

/-- `digest.of(auditable(record))`, with the keyed hash as a parameter. -/
def categoryDigest {δ : Type*} (hmac : CodeUnits → δ) (slug : String) (c : CategoryConfiguration) : δ :=
  hmac (JsonText.stringify (Audit.canonicalise (auditable slug c).json))

def maxAttributeTextLength : Nat := 200

def maxAttributeDecimalPlaces : Nat := 3

def maxRequestExpiryHours : Nat := 336

/-- The numbers that `categoryAttributeSchema` accepts. -/
def AttributeType.Accepted : AttributeType → Prop
  | text maxLength => 1 ≤ maxLength ∧ maxLength ≤ maxAttributeTextLength
  | number _ decimalPlaces => decimalPlaces ≤ maxAttributeDecimalPlaces
  | choice _ => True
  | choiceMany _ => True

/-- The bounds of the schemas on the numbers of a configuration. -/
structure CategoryConfiguration.Accepted (c : CategoryConfiguration) : Prop where
  attributes : ∀ a ∈ c.attributes, a.type.Accepted
  transportOptions : ∀ o ∈ c.transportOptions, ∀ kg ∈ o.suggestedUpToKg, 1 ≤ kg ∧ kg ≤ maxTransportSuggestionKg
  feePolicy : c.feePolicy.Accepted
  damageSecurity : ∀ p ∈ c.damageSecurity, p.Accepted
  maximumRentalDays : 1 ≤ c.maximumRentalDays ∧ c.maximumRentalDays ≤ maxMaximumRentalDays
  requestExpiryHours : 1 ≤ c.requestExpiryHours ∧ c.requestExpiryHours ≤ maxRequestExpiryHours

def field (name : String) (fields : List (String × Value)) : Option Value :=
  (fields.find? (fun f => f.1 = name)).map (·.2)

section

variable {fields fields' : List (String × Value)} {name : String}

theorem member_literal : Audit.member (utf16 name) (fields.map (fun f => (utf16 f.1, some f.2))) = field name fields := by
  rw [Audit.member, field, List.find?_map]
  have hkey : ((fun e : CodeUnits × Option Value => decide (e.1 = utf16 name)) ∘ fun f : String × Value =>
      (utf16 f.1, some f.2)) = fun f => decide (f.1 = name) := by
    funext f
    simp [utf16_injective.eq_iff]
  rw [hkey]
  cases fields.find? (fun f => f.1 = name) <;> rfl

theorem same_literal (h : Same (literal fields) (literal fields')) (name : String) :
    Option.Rel Same (field name fields) (field name fields') := by
  rw [← member_literal, ← member_literal]
  exact h.member (utf16 name)

theorem same_jsonText {s t : String} (h : Same (jsonText s) (jsonText t)) : s = t :=
  utf16_injective (Audit.same_text_iff.mp h)

theorem jsonNumber_eq {n : Int} (hn : n.natAbs < 2 ^ 53) : ∃ x, jsonNumber n = .number x ∧ x.value = n := by
  cases hx : Script.Double.ofInt n with
  | none =>
    rw [Script.Double.ofInt, dif_pos hn] at hx
    cases hx
  | some x =>
    refine ⟨x, ?_, Script.Double.value_of_ofInt hx⟩
    rw [jsonNumber, hx]

theorem same_jsonNumber {a b : Int} (ha : a.natAbs < 2 ^ 53) (hb : b.natAbs < 2 ^ 53)
    (h : Same (jsonNumber a) (jsonNumber b)) : a = b := by
  obtain ⟨x, hx, hxa⟩ := jsonNumber_eq ha
  obtain ⟨y, hy, hyb⟩ := jsonNumber_eq hb
  rw [hx, hy] at h
  have hvalue := Audit.same_number_iff.mp h
  rw [hxa, hyb] at hvalue
  exact Int.cast_injective hvalue

theorem same_jsonNat {a b bound : Nat} (ha : a ≤ bound) (hb : b ≤ bound) (hbound : bound < 2 ^ 53)
    (h : Same (jsonNumber a) (jsonNumber b)) : a = b := by
  apply Int.ofNat_inj.mp
  apply same_jsonNumber _ _ h
  · exact lt_of_le_of_lt ha hbound
  · exact lt_of_le_of_lt hb hbound

theorem same_array {α : Type*} {f : α → Value} {l l' : List α} (hf : ∀ a ∈ l, ∀ b ∈ l', Same (f a) (f b) → a = b)
    (h : Same (.array (l.map f)) (.array (l'.map f))) : l = l' := by
  have hforall := Audit.same_array_iff.mp h
  rw [List.forall₂_map_left_iff, List.forall₂_map_right_iff] at hforall
  clear h
  induction hforall with
  | nil => rfl
  | cons hab _ ih =>
    rw [hf _ List.mem_cons_self _ List.mem_cons_self hab,
      ih (fun a ha b hb => hf a (List.mem_cons_of_mem _ ha) b (List.mem_cons_of_mem _ hb))]

theorem same_field {v w : Value} (h : Same (literal fields) (literal fields')) (name : String)
    (hv : field name fields = some v) (hw : field name fields' = some w) : Same v w := by
  have hrel := same_literal h name
  rw [hv, hw] at hrel
  cases hrel with
  | some hsame => exact hsame

theorem currencyCode_injective : Function.Injective Currency.code := by
  intro a b h
  cases a
  cases b
  rfl

theorem CategoryRiskLevel.code_injective : Function.Injective CategoryRiskLevel.code := by
  intro a b h
  cases a <;> cases b <;> first | rfl | exact absurd h (by decide)

theorem CategoryReportableActivity.code_injective : Function.Injective CategoryReportableActivity.code := by
  intro a b h
  cases a <;> cases b <;> first | rfl | exact absurd h (by decide)

theorem TransportRequirement.code_injective : Function.Injective TransportRequirement.code := by
  intro a b h
  cases a <;> cases b <;> first | rfl | exact absurd h (by decide)

theorem same_money {m m' : Money} (hm : m.amount.natAbs < 2 ^ 53) (hm' : m'.amount.natAbs < 2 ^ 53)
    (h : Same (Money.json m) (Money.json m')) : m = m' := by
  apply Money.ext
  · exact same_jsonNumber hm hm' (same_field h "amount" rfl rfl)
  · exact currencyCode_injective (same_jsonText (same_field h "currency" rfl rfl))

theorem same_attributeOption {o o' : AttributeOption} (h : Same o.json o'.json) : o = o' := by
  obtain ⟨value, label⟩ := o
  obtain ⟨value', label'⟩ := o'
  obtain rfl : value = value' := same_jsonText (same_field h "value" rfl rfl)
  obtain rfl : label = label' := same_jsonText (same_field h "label" rfl rfl)
  rfl

theorem same_options {options options' : List AttributeOption}
    (h : Same (.array (options.map AttributeOption.json)) (.array (options'.map AttributeOption.json))) :
    options = options' := same_array (fun _ _ _ _ => same_attributeOption) h

theorem same_attribute {a a' : CategoryAttribute} (ha : a.type.Accepted) (ha' : a'.type.Accepted)
    (h : Same a.json a'.json) : a = a' := by
  obtain ⟨key, label, required, type⟩ := a
  obtain ⟨key', label', required', type'⟩ := a'
  obtain rfl : key = key' := same_jsonText (same_field h "key" rfl rfl)
  obtain rfl : label = label' := same_jsonText (same_field h "label" rfl rfl)
  obtain rfl : required = required' := Audit.same_boolean_iff.mp (same_field h "required" rfl rfl)
  cases type with
  | text maxLength => cases type' with
    | text maxLength' =>
      obtain rfl : maxLength = maxLength' :=
        same_jsonNat ha.2 ha'.2 (by decide) (same_field h "maxLength" rfl rfl)
      rfl
    | _ => exact absurd (same_jsonText (same_field h "type" rfl rfl)) (by decide)
  | number unit decimalPlaces => cases type' with
    | number unit' decimalPlaces' =>
      obtain rfl : unit = unit' := same_jsonText (same_field h "unit" rfl rfl)
      obtain rfl : decimalPlaces = decimalPlaces' :=
        same_jsonNat ha ha' (by decide) (same_field h "decimalPlaces" rfl rfl)
      rfl
    | _ => exact absurd (same_jsonText (same_field h "type" rfl rfl)) (by decide)
  | choice options => cases type' with
    | choice options' => rw [same_options (same_field h "options" rfl rfl)]
    | _ => exact absurd (same_jsonText (same_field h "type" rfl rfl)) (by decide)
  | choiceMany options => cases type' with
    | choiceMany options' => rw [same_options (same_field h "options" rfl rfl)]
    | _ => exact absurd (same_jsonText (same_field h "type" rfl rfl)) (by decide)

theorem same_transportOption {o o' : CategoryTransportOption}
    (ho : ∀ kg ∈ o.suggestedUpToKg, 1 ≤ kg ∧ kg ≤ maxTransportSuggestionKg)
    (ho' : ∀ kg ∈ o'.suggestedUpToKg, 1 ≤ kg ∧ kg ≤ maxTransportSuggestionKg) (h : Same o.json o'.json) : o = o' := by
  obtain ⟨requirement, suggested⟩ := o
  obtain ⟨requirement', suggested'⟩ := o'
  obtain rfl : requirement = requirement' :=
    TransportRequirement.code_injective (same_jsonText (same_field h "requirement" rfl rfl))
  have hsuggested := same_literal h "suggestedUpToKg"
  cases suggested with
  | none => cases suggested' with
    | none => rfl
    | some kg => cases hsuggested
  | some kg => cases suggested' with
    | none => cases hsuggested
    | some kg' =>
      obtain rfl : kg = kg' :=
        same_jsonNat (ho kg rfl).2 (ho' kg' rfl).2 (by decide) (same_field h "suggestedUpToKg" rfl rfl)
      rfl

theorem exact_of_bounds {n bound : Int} (h : 0 ≤ n ∧ n ≤ bound) (hbound : bound < 2 ^ 53) : n.natAbs < 2 ^ 53 := by
  omega

theorem same_feePolicy {p p' : CategoryFeePolicy} (hp : p.Accepted) (hp' : p'.Accepted)
    (h : Same (CategoryFeePolicy.json p) (CategoryFeePolicy.json p')) : p = p' := by
  have hcommission := same_jsonNat hp.ownerCommission hp'.ownerCommission (by decide)
    (same_field h "ownerCommissionBasisPoints" rfl rfl)
  have hrenter := same_jsonNat hp.renterFee hp'.renterFee (by decide) (same_field h "renterFeeBasisPoints" rfl rfl)
  have hbooking := same_money (exact_of_bounds hp.bookingFloor (by decide)) (exact_of_bounds hp'.bookingFloor (by decide))
    (same_field h "minimumBookingTotal" rfl rfl)
  have hfee := same_money (exact_of_bounds hp.feeFloor (by decide)) (exact_of_bounds hp'.feeFloor (by decide))
    (same_field h "minimumPlatformFee" rfl rfl)
  cases p
  cases p'
  congr

theorem same_damageSecurity {p p' : DamageSecurityPolicy} (hp : p.Accepted) (hp' : p'.Accepted)
    (h : Same (DamageSecurityPolicy.json p) (DamageSecurityPolicy.json p')) : p = p' := by
  have hfloor := same_money (exact_of_bounds hp.excessFloor (by decide)) (exact_of_bounds hp'.excessFloor (by decide))
    (same_field h "excessFloor" rfl rfl)
  have hpercentage := same_jsonNat hp.excessPercentage hp'.excessPercentage (by decide)
    (same_field h "excessPercentageBasisPoints" rfl rfl)
  have hceiling := same_money (exact_of_bounds ⟨zero_le_one.trans hp.recoveryCeiling.1, hp.recoveryCeiling.2⟩ (by decide))
    (exact_of_bounds ⟨zero_le_one.trans hp'.recoveryCeiling.1, hp'.recoveryCeiling.2⟩ (by decide))
    (same_field h "recoveryCeiling" rfl rfl)
  cases p
  cases p'
  congr

theorem same_orNull {p p' : Option DamageSecurityPolicy} (hp : ∀ q ∈ p, q.Accepted) (hp' : ∀ q ∈ p', q.Accepted)
    (h : Same (orNull p) (orNull p')) : p = p' := by
  cases p with
  | none => cases p' with
    | none => rfl
    | some q => cases h.kind_eq
  | some q => cases p' with
    | none => cases h.kind_eq
    | some q' => rw [same_damageSecurity (hp q rfl) (hp' q' rfl) h]

theorem same_auditable {slug : String} {c d : CategoryConfiguration} (hc : c.Accepted) (hd : d.Accepted)
    (h : Same (auditable slug c).json (auditable slug d).json) : auditable slug c = auditable slug d := by
  have hname : c.name = d.name := same_jsonText (same_field h "name" rfl rfl)
  have hrisk : c.riskLevel = d.riskLevel :=
    CategoryRiskLevel.code_injective (same_jsonText (same_field h "riskLevel" rfl rfl))
  have hreportable : c.reportableActivity = d.reportableActivity :=
    CategoryReportableActivity.code_injective (same_jsonText (same_field h "reportableActivity" rfl rfl))
  have hattributes : c.attributes = d.attributes :=
    same_array (fun a ha b hb => same_attribute (hc.attributes a ha) (hd.attributes b hb))
      (same_field h "attributes" rfl rfl)
  have htransport : c.transportOptions = d.transportOptions :=
    same_array (fun a ha b hb => same_transportOption (hc.transportOptions a ha) (hd.transportOptions b hb))
      (same_field h "transportOptions" rfl rfl)
  have hfee : c.feePolicy = d.feePolicy := same_feePolicy hc.feePolicy hd.feePolicy (same_field h "feePolicy" rfl rfl)
  have hsecurity : c.damageSecurity = d.damageSecurity :=
    same_orNull hc.damageSecurity hd.damageSecurity (same_field h "damageSecurity" rfl rfl)
  rw [auditable, auditable, hname, hrisk, hreportable, hattributes, htransport, hfee, hsecurity]

theorem proper_literal (hnames : (fields.map (·.1)).Nodup) (hvalues : ∀ f ∈ fields, Proper f.2) :
    Proper (literal fields) := by
  apply Proper.object
  · rw [List.map_map]
    have hkeys : (fields.map (fun f => f.1)).map utf16 = fields.map ((fun e : CodeUnits × Option Value => e.1) ∘
        fun f => (utf16 f.1, some f.2)) := List.map_map
    rw [← hkeys]
    exact hnames.map utf16_injective
  · rintro ⟨key, v⟩ he
    obtain ⟨f, hf, heq⟩ := List.mem_map.mp (Audit.mem_defined.mp he)
    obtain ⟨-, hv⟩ := Prod.mk.inj heq
    rw [← Option.some.inj hv]
    exact hvalues f hf

theorem proper_jsonNumber (n : Int) : Proper (jsonNumber n) := by
  rw [jsonNumber]
  split
  · exact .number _
  · exact .null

theorem proper_array {α : Type*} {f : α → Value} (h : ∀ a, Proper (f a)) (l : List α) : Proper (.array (l.map f)) := by
  apply Proper.array
  intro v hv
  obtain ⟨a, -, rfl⟩ := List.mem_map.mp hv
  exact h a

theorem proper_nil : ∀ f ∈ ([] : List (String × Value)), Proper f.2 := fun _ hf => absurd hf List.not_mem_nil

theorem proper_money (m : Money) : Proper (Money.json m) := by
  apply proper_literal
  · simp
  · simp only [List.forall_mem_cons]
    exact ⟨proper_jsonNumber _, .text _, proper_nil⟩

theorem proper_attributeOption (o : AttributeOption) : Proper o.json := by
  apply proper_literal
  · simp
  · simp only [List.forall_mem_cons]
    exact ⟨.text _, .text _, proper_nil⟩

theorem proper_attribute (a : CategoryAttribute) : Proper a.json := by
  apply proper_literal
  · cases a.type <;> simp [AttributeType.fields]
  · have hfields : ∀ f ∈ a.type.fields, Proper f.2 := by
      cases a.type with
      | text maxLength =>
        simp only [AttributeType.fields, List.forall_mem_cons]
        exact ⟨.text _, proper_jsonNumber _, proper_nil⟩
      | number unit decimalPlaces =>
        simp only [AttributeType.fields, List.forall_mem_cons]
        exact ⟨.text _, .text _, proper_jsonNumber _, proper_nil⟩
      | choice options | choiceMany options =>
        simp only [AttributeType.fields, List.forall_mem_cons]
        exact ⟨.text _, proper_array proper_attributeOption options, proper_nil⟩
    simp only [List.cons_append, List.nil_append, List.forall_mem_cons]
    exact ⟨.text _, .text _, .boolean _, hfields⟩

theorem proper_transportOption (o : CategoryTransportOption) : Proper o.json := by
  rw [CategoryTransportOption.json]
  apply proper_literal
  · cases o.suggestedUpToKg <;> simp
  · cases o.suggestedUpToKg with
    | none => exact List.forall_mem_singleton.mpr (.text _)
    | some kg =>
      simp only [List.forall_mem_cons]
      exact ⟨.text _, proper_jsonNumber _, proper_nil⟩

theorem proper_feePolicy (p : CategoryFeePolicy) : Proper (CategoryFeePolicy.json p) := by
  apply proper_literal
  · simp
  · simp only [List.forall_mem_cons]
    exact ⟨proper_jsonNumber _, proper_jsonNumber _, proper_money _, proper_money _, proper_nil⟩

theorem proper_orNull (p : Option DamageSecurityPolicy) : Proper (orNull p) := by
  cases p with
  | none => exact .null
  | some p =>
    apply proper_literal
    · simp
    · simp only [List.forall_mem_cons]
      exact ⟨proper_money _, proper_jsonNumber _, proper_money _, proper_nil⟩

theorem proper_auditable (a : AuditableCategory) : Proper a.json := by
  apply proper_literal
  · simp
  · simp only [List.forall_mem_cons]
    exact ⟨.text _, .text _, .text _, .text _, proper_array proper_attribute _, proper_array proper_transportOption _,
      proper_feePolicy _, proper_orNull _, proper_nil⟩

end

/-- The digest is one of what it digests: under a hash without collisions it tells
configurations that differ there, and no others. -/
theorem categoryDigest_eq_iff {δ : Type*} {hmac : CodeUnits → δ} (hhash : Function.Injective hmac) {slug : String}
    {c d : CategoryConfiguration} (hc : c.Accepted) (hd : d.Accepted) :
    categoryDigest hmac slug c = categoryDigest hmac slug d ↔ auditable slug c = auditable slug d := by
  constructor
  · intro h
    exact same_auditable hc hd ((Audit.canonicalText_eq_iff (proper_auditable _) (proper_auditable _)).mp (hhash h))
  · intro h
    rw [categoryDigest, categoryDigest, h]

theorem auditable_eq_iff {slug : String} {c d : CategoryConfiguration} : auditable slug c = auditable slug d ↔
    c.name = d.name ∧ c.riskLevel = d.riskLevel ∧ c.reportableActivity = d.reportableActivity ∧
      c.attributes = d.attributes ∧ c.transportOptions = d.transportOptions ∧ c.feePolicy = d.feePolicy ∧
      c.damageSecurity = d.damageSecurity := by
  rw [auditable, auditable, AuditableCategory.mk.injEq]
  exact and_iff_right rfl

/-- A change leaves a trace unless it is one of the longest hire or of the time to answer
and of nothing else. -/
theorem every_change_is_digested_iff {δ : Type*} (hmac : CodeUnits → δ) (hhash : Function.Injective hmac) (slug : String)
    (c d : CategoryConfiguration) (hc : c.Accepted) (hd : d.Accepted) :
    (c ≠ d → categoryDigest hmac slug c ≠ categoryDigest hmac slug d) ↔
      (c.maximumRentalDays = d.maximumRentalDays ∧ c.requestExpiryHours = d.requestExpiryHours) ∨
        c.name ≠ d.name ∨ c.riskLevel ≠ d.riskLevel ∨ c.reportableActivity ≠ d.reportableActivity ∨
        c.attributes ≠ d.attributes ∨ c.transportOptions ≠ d.transportOptions ∨ c.feePolicy ≠ d.feePolicy ∨
        c.damageSecurity ≠ d.damageSecurity := by
  have hdigest : categoryDigest hmac slug c = categoryDigest hmac slug d ↔ _ :=
    (categoryDigest_eq_iff hhash hc hd).trans auditable_eq_iff
  rw [Ne, Ne, hdigest, not_imp_not]
  constructor
  · intro h
    by_cases hall : c.name = d.name ∧ c.riskLevel = d.riskLevel ∧ c.reportableActivity = d.reportableActivity ∧
        c.attributes = d.attributes ∧ c.transportOptions = d.transportOptions ∧ c.feePolicy = d.feePolicy ∧
        c.damageSecurity = d.damageSecurity
    · rw [h hall]
      exact .inl ⟨rfl, rfl⟩
    · refine .inr ?_
      simpa only [not_and_or] using hall
  · rintro (⟨hdays, hhours⟩ | hdiffers) ⟨hname, hrisk, hactivity, hattributes, htransport, hfee, hsecurity⟩
    · cases c
      cases d
      congr
    · simp only [hname, hrisk, hactivity, hattributes, htransport, hfee, hsecurity, ne_eq, not_true_eq_false,
        or_self] at hdiffers

def mowers (name : String) (maximumRentalDays : Nat) : CategoryConfiguration where
  name := name
  riskLevel := .medium
  reportableActivity := .none
  attributes := [⟨"power_source", "Power source", true, .choice [⟨"petrol", "Petrol"⟩, ⟨"cordless", "Cordless"⟩]⟩]
  transportOptions := [⟨.carBoot, some 25⟩, ⟨.vanRequired, none⟩]
  feePolicy := gardening
  damageSecurity := some ⟨⟨7500, .gbp⟩, 1500, ⟨25000, .gbp⟩⟩
  maximumRentalDays := maximumRentalDays
  requestExpiryHours := 48

theorem mowers_accepted (name : String) {days : Nat} (h : 1 ≤ days ∧ days ≤ maxMaximumRentalDays) :
    (mowers name days).Accepted where
  attributes := List.forall_mem_singleton.mpr trivial
  transportOptions := by
    change ∀ o ∈ ([⟨.carBoot, some 25⟩, ⟨.vanRequired, none⟩] : List CategoryTransportOption), _
    decide
  feePolicy := gardening_accepted
  damageSecurity := by
    rintro _ ⟨rfl⟩
    exact ⟨by decide, by decide, by decide, rfl, by decide⟩
  maximumRentalDays := h
  requestExpiryHours := by
    change 1 ≤ 48 ∧ 48 ≤ maxRequestExpiryHours
    decide

theorem a_new_name_is_digested :
    categoryDigest id "mowers" (mowers "Mowers" 14) ≠ categoryDigest id "mowers" (mowers "Lawn mowers" 14) := by
  have hname : (mowers "Mowers" 14).name ≠ (mowers "Lawn mowers" 14).name := by decide
  apply (every_change_is_digested_iff id Function.injective_id "mowers" (mowers "Mowers" 14) (mowers "Lawn mowers" 14)
    (mowers_accepted _ (by decide)) (mowers_accepted _ (by decide))).mpr (.inr (.inl hname))
  exact fun h => hname (congrArg CategoryConfiguration.name h)

/-- A hire may last 88 days after the change, and the digests are the same. -/
theorem a_longer_hire_leaves_no_trace : (mowers "Mowers" 14).Accepted ∧ (mowers "Mowers" 88).Accepted ∧
    mowers "Mowers" 14 ≠ mowers "Mowers" 88 ∧ ∀ hmac : CodeUnits → CodeUnits, Function.Injective hmac →
      categoryDigest hmac "mowers" (mowers "Mowers" 14) = categoryDigest hmac "mowers" (mowers "Mowers" 88) := by
  refine ⟨mowers_accepted _ (by decide), mowers_accepted _ (by decide), ?_, fun _ _ => rfl⟩
  intro h
  cases congrArg CategoryConfiguration.maximumRentalDays h

end RentalMarket.Catalogue
