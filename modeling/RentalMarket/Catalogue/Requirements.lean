import RentalMarket.Catalogue.Completeness

namespace RentalMarket.Catalogue

open Script RentalMarket.Pricing

def HasAnswer (attributes : ListingAttributeValues) (key : String) : Prop :=
  ∃ value, attributes.get key = some value ∧ value ≠ .text "" ∧ value ≠ .list []

structure RequirementsMet (listing : PublicationCandidate) : Prop where
  description : trim listing.description ≠ ""
  attributes : ∀ a ∈ listing.categoryAttributes, a.required = true → HasAnswer listing.attributes a.key
  transport : listing.categoryTransportOptions ≠ [] → listing.transportRequirement ≠ none
  daily : listing.rates.daily ≠ none
  owner : listing.ownerStatus = some .privateOwner
  collection : listing.hasCollectionLocation = true
  located : listing.isLocated = true

def KeysValid (categoryAttributes : List CategoryAttribute) : Prop :=
  ∀ a ∈ categoryAttributes, ∃ raw, attributeKeySchema raw = some a.key

section

variable {attributes : ListingAttributeValues} {key raw : String} {listing : PublicationCandidate}

theorem eq_constructor_of_inherited (hkey : attributeKeySchema raw = some key) (hinherited : key ∈ objectPrototype) :
    key = "constructor" := by
  rw [attributeKeySchema] at hkey
  split at hkey
  · rename_i hvalid
    have hnames : ∀ name ∈ objectPrototype, isJoinedBy '_' name = true → name = "constructor" := by decide +kernel
    refine hnames key hinherited ?_
    rw [← Option.some.inj hkey]
    exact hvalid.2.2.1
  · cases hkey

theorem answered_own (value : AttributeValue) :
    answered (some (.own value)) = true ↔ value ≠ .text "" ∧ value ≠ .list [] := by
  cases value with
  | text s => simp [answered]
  | number n => simp [answered]
  | list values => simp [answered]

/-- A required attribute passes with an answer, or with what is inherited where
there is none. -/
theorem answered_iff : answered (readProperty attributes key) = true ↔
    HasAnswer attributes key ∨ attributes.get key = none ∧ key ∈ objectPrototype := by
  rw [readProperty, HasAnswer]
  cases attributes.get key with
  | none =>
    by_cases hinherited : key ∈ objectPrototype
    · simp [hinherited, answered]
    · simp [hinherited, answered]
  | some value =>
    dsimp only
    rw [answered_own]
    simp

theorem attributeBlockers_eq_nil {categoryAttributes : List CategoryAttribute} :
    attributeBlockers attributes categoryAttributes = [] ↔
      ∀ a ∈ categoryAttributes, a.required = true → answered (readProperty attributes a.key) = true := by
  rw [attributeBlockers, List.map_eq_nil_iff, List.filter_eq_nil_iff]
  simp

theorem descriptionBlockers_eq_nil {description : String} :
    descriptionBlockers description = [] ↔ trim description ≠ "" := by
  rw [descriptionBlockers]
  split <;> simp_all

theorem transportBlockers_eq_nil {options : List CategoryTransportOption} {requirement : Option TransportRequirement} :
    transportBlockers options requirement = [] ↔ (options ≠ [] → requirement ≠ none) := by
  rw [transportBlockers]
  split <;> simp_all

theorem rateBlockers_eq_nil {rates : ListingRateCard} : rateBlockers rates = [] ↔ rates.daily ≠ none := by
  rw [rateBlockers]
  split <;> simp_all

theorem ownerBlockers_eq_nil {status : Option OwnerStatus} :
    ownerBlockers status = [] ↔ status = some .privateOwner := by
  cases status with
  | none => simp [ownerBlockers]
  | some status => cases status <;> simp [ownerBlockers]

theorem publicationBlockers_spec : publicationBlockers listing = [] ↔
    RequirementsMet { listing with categoryAttributes := [] } ∧
      ∀ a ∈ listing.categoryAttributes, a.required = true →
        HasAnswer listing.attributes a.key ∨ listing.attributes.get a.key = none ∧ a.key ∈ objectPrototype := by
  rw [publicationBlockers_eq_nil, descriptionBlockers_eq_nil, attributeBlockers_eq_nil, transportBlockers_eq_nil,
    rateBlockers_eq_nil, ownerBlockers_eq_nil]
  constructor
  · rintro ⟨hdescription, hattributes, htransport, hdaily, howner, hcollection, hlocated⟩
    refine ⟨⟨hdescription, List.forall_mem_nil _, htransport, hdaily, howner, hcollection, hlocated⟩, ?_⟩
    exact fun a ha hrequired => answered_iff.mp (hattributes a ha hrequired)
  · rintro ⟨hmet, hattributes⟩
    refine ⟨hmet.description, ?_, hmet.transport, hmet.daily, hmet.owner, hmet.collection, hmet.located⟩
    exact fun a ha hrequired => answered_iff.mpr (hattributes a ha hrequired)

theorem requirementsMet_iff : RequirementsMet listing ↔ RequirementsMet { listing with categoryAttributes := [] } ∧
    ∀ a ∈ listing.categoryAttributes, a.required = true → HasAnswer listing.attributes a.key := by
  constructor
  · rintro ⟨hdescription, hattributes, htransport, hdaily, howner, hcollection, hlocated⟩
    exact ⟨⟨hdescription, List.forall_mem_nil _, htransport, hdaily, howner, hcollection, hlocated⟩, hattributes⟩
  · rintro ⟨hmet, hattributes⟩
    exact ⟨hmet.description, hattributes, hmet.transport, hmet.daily, hmet.owner, hmet.collection, hmet.located⟩

end

/-- A required attribute of the key `constructor` is stored an answer. -/
def ConstructorStored (listing : PublicationCandidate) : Prop :=
  ∀ a ∈ listing.categoryAttributes, a.required = true → a.key = "constructor" →
    (listing.attributes.get a.key).isSome = true

/-- The listing but for attributes of the key `constructor`. -/
def withoutConstructor (listing : PublicationCandidate) : PublicationCandidate :=
  { listing with categoryAttributes := listing.categoryAttributes.filter (fun a => decide (a.key ≠ "constructor")) }

/-- The blockers are those of the requirements unless an answer to a required attribute of the
key `constructor` is all that is missing. -/
theorem publication_blockers_exact {listing : PublicationCandidate} (hkeys : KeysValid listing.categoryAttributes) :
    (publicationBlockers listing = [] ↔ RequirementsMet listing) ↔
      (ConstructorStored listing ∨ ¬RequirementsMet (withoutConstructor listing)) := by
  have hothers : RequirementsMet (withoutConstructor listing) ↔
      RequirementsMet { listing with categoryAttributes := [] } ∧ ∀ a ∈ listing.categoryAttributes, a.required = true →
        a.key ≠ "constructor" → HasAnswer listing.attributes a.key := by
    rw [requirementsMet_iff]
    refine and_congr_right fun _ => ?_
    constructor
    · intro h a ha hrequired hkey
      exact h a (List.mem_filter.mpr ⟨ha, decide_eq_true hkey⟩) hrequired
    · intro h a ha hrequired
      obtain ⟨ha, hkey⟩ := List.mem_filter.mp ha
      exact h a ha hrequired (of_decide_eq_true hkey)
  have hinherited : ∀ a ∈ listing.categoryAttributes, a.key ∈ objectPrototype → a.key = "constructor" := by
    intro a ha hmem
    obtain ⟨raw, hraw⟩ := hkeys a ha
    exact eq_constructor_of_inherited hraw hmem
  have hall : RequirementsMet listing ↔ RequirementsMet { listing with categoryAttributes := [] } ∧
      ∀ a ∈ listing.categoryAttributes, a.required = true → HasAnswer listing.attributes a.key := requirementsMet_iff
  rw [publicationBlockers_spec, hall, hothers]
  constructor
  · intro h
    by_cases hstored : ConstructorStored listing
    · exact .inl hstored
    · -- What is not stored is read as inherited, so only the other requirements are seen.
      have hnone : listing.attributes.get "constructor" = none := by
        by_contra hsome
        refine hstored fun a _ _ hkey => ?_
        rw [hkey]
        exact Option.isSome_iff_ne_none.mpr hsome
      refine .inr fun ⟨hmet, hanswers⟩ => hstored ?_
      have hseen : ∀ a ∈ listing.categoryAttributes, a.required = true →
          HasAnswer listing.attributes a.key ∨ listing.attributes.get a.key = none ∧ a.key ∈ objectPrototype := by
        intro a ha hrequired
        by_cases hkey : a.key = "constructor"
        · rw [hkey]
          exact .inr ⟨hnone, by decide⟩
        · exact .inl (hanswers a ha hrequired hkey)
      intro a ha hrequired _
      obtain ⟨value, hvalue, -⟩ := (h.mp ⟨hmet, hseen⟩).2 a ha hrequired
      rw [hvalue]
      rfl
  · rintro (hstored | hunmet)
    · refine and_congr_right fun _ => ?_
      refine forall_congr' fun a => forall_congr' fun ha => forall_congr' fun hrequired => ?_
      constructor
      · rintro (hanswer | ⟨hnone, hmem⟩)
        · exact hanswer
        · have hsome := hstored a ha hrequired (hinherited a ha hmem)
          rw [hnone] at hsome
          cases hsome
      · exact .inl
    · constructor
      · rintro ⟨hmet, hseen⟩
        refine absurd ⟨hmet, fun a ha hrequired hkey => ?_⟩ hunmet
        obtain hanswer | ⟨-, hmem⟩ := hseen a ha hrequired
        · exact hanswer
        · exact absurd (hinherited a ha hmem) hkey
      · rintro ⟨hmet, hanswers⟩
        exact ⟨hmet, fun a ha hrequired => .inl (hanswers a ha hrequired)⟩

def mower (answers : ListingAttributeValues) (ownerStatus : Option OwnerStatus) : PublicationCandidate where
  description := "A petrol mower"
  attributes := answers
  categoryAttributes := [⟨"constructor", "Constructor", true, .text 60⟩]
  categoryTransportOptions := []
  transportRequirement := none
  rates := ⟨some ⟨500, .gbp⟩, none, none⟩
  hasCollectionLocation := true
  isLocated := true
  ownerStatus := ownerStatus

theorem mower_keysValid (answers : ListingAttributeValues) (ownerStatus : Option OwnerStatus) :
    KeysValid (mower answers ownerStatus).categoryAttributes := by
  intro a ha
  cases List.mem_singleton.mp ha
  exact ⟨"constructor", by decide +kernel⟩

theorem mower_exact :
    ((publicationBlockers (mower [("constructor", .text "Atco")] (some .privateOwner)) = [] ↔
      RequirementsMet (mower [("constructor", .text "Atco")] (some .privateOwner))) ↔
      (ConstructorStored (mower [("constructor", .text "Atco")] (some .privateOwner)) ∨
        ¬RequirementsMet (withoutConstructor (mower [("constructor", .text "Atco")] (some .privateOwner))))) ∧
    (publicationBlockers (mower [] none) = [] ↔ RequirementsMet (mower [] none)) := by
  refine ⟨publication_blockers_exact (mower_keysValid _ _), (publication_blockers_exact (mower_keysValid _ _)).mpr (.inr ?_)⟩
  intro hmet
  cases hmet.owner

/-- A mower without an answer is published. -/
theorem constructor_is_not_asked_for :
    KeysValid (mower [] (some .privateOwner)).categoryAttributes ∧
      publicationBlockers (mower [] (some .privateOwner)) = [] ∧ ¬RequirementsMet (mower [] (some .privateOwner)) := by
  refine ⟨mower_keysValid _ _, by decide +kernel, fun hmet => ?_⟩
  obtain ⟨value, hvalue, -⟩ := hmet.attributes _ List.mem_cons_self rfl
  cases hvalue

end RentalMarket.Catalogue
