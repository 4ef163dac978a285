import RentalMarket.Catalogue.Attributes
import RentalMarket.Pricing.RentalQuote

namespace RentalMarket.Catalogue

open Script RentalMarket.Pricing

inductive OwnerStatus where
  | privateOwner
  | professionalTrader
  deriving DecidableEq, Repr

inductive ListingStatus where
  | draft
  | published
  | paused
  deriving DecidableEq, Repr

inductive ModerationState where
  | approved
  | underReview
  | rejected
  deriving DecidableEq, Repr

def isPubliclyVisible (status : ListingStatus) (moderation : ModerationState) : Bool :=
  decide (status = .published) && decide (moderation = .approved)

inductive ListingTransition where
  | publish
  | pause
  deriving DecidableEq, Repr

def transitions : ListingTransition → List ListingStatus
  | .publish => [.draft, .published, .paused]
  | .pause => [.published, .paused]

def transitionRefusal (transition : ListingTransition) (status : ListingStatus) : Option String :=
  if status ∈ transitions transition then none
  else
    match transition with
    | .pause => some "This listing is not published, so there is nothing to pause."
    | .publish => some "This listing cannot be published from its current state."

theorem transitionRefusal_publish (status : ListingStatus) : transitionRefusal .publish status = none := by
  cases status <;> rfl

structure PublicationCandidate where
  description : String
  attributes : ListingAttributeValues
  categoryAttributes : List CategoryAttribute
  categoryTransportOptions : List CategoryTransportOption
  transportRequirement : Option TransportRequirement
  rates : ListingRateCard
  hasCollectionLocation : Bool
  isLocated : Bool
  ownerStatus : Option OwnerStatus
  deriving DecidableEq

structure PublicationBlocker where
  field : String
  message : String
  deriving DecidableEq, Repr

/-- The names every object has a property of without one of its own. -/
def objectPrototype : List String :=
  ["constructor", "hasOwnProperty", "isPrototypeOf", "propertyIsEnumerable", "toLocaleString", "toString", "valueOf",
    "__proto__", "__defineGetter__", "__defineSetter__", "__lookupGetter__", "__lookupSetter__"]

/-- What is read of an object: a value it has, or one it inherits, which is
neither a text nor a list. -/
inductive PropertyValue where
  | own (value : AttributeValue)
  | inherited
  deriving DecidableEq, Repr

/-- `listing.attributes[key]` -/
def readProperty (attributes : ListingAttributeValues) (key : String) : Option PropertyValue :=
  match attributes.get key with
  | some value => some (.own value)
  | none => if key ∈ objectPrototype then some .inherited else none

/-- An empty text and an empty list are no answers. -/
def answered : Option PropertyValue → Bool
  | none => false
  | some (.own (.text s)) => decide (s ≠ "")
  | some (.own (.number _)) => true
  | some (.own (.list values)) => decide (values ≠ [])
  | some .inherited => true

def descriptionBlockers (description : String) : List PublicationBlocker :=
  if trim description = "" then
    [⟨"description", "A description is needed before this listing can be published."⟩]
  else []

def attributeBlockers (attributes : ListingAttributeValues) (categoryAttributes : List CategoryAttribute) :
    List PublicationBlocker :=
  (categoryAttributes.filter (fun a => a.required && !answered (readProperty attributes a.key))).map (fun a =>
    ⟨"attributes." ++ a.key, a.label ++ " is needed before this listing can be published."⟩)

def transportBlockers (options : List CategoryTransportOption) (requirement : Option TransportRequirement) :
    List PublicationBlocker :=
  if options ≠ [] ∧ requirement = none then
    [⟨"transportRequirement", "How the item is collected is needed before this listing can be published."⟩]
  else []

def rateBlockers (rates : ListingRateCard) : List PublicationBlocker :=
  if rates.daily = none then
    [⟨"rates.daily", "A daily rate is needed before this listing can be published."⟩]
  else []

def ownerBlockers : Option OwnerStatus → List PublicationBlocker
  | none => [⟨"ownerStatus", "Your profile has to say whether you are listing as a private individual or as a business before anything can be published. Renters have different rights depending on which, so they have to be told."⟩]
  | some .professionalTrader => [⟨"ownerStatus", "Your profile says you list as a business. We only accept listings from private individuals at the moment, so this cannot be published — nothing is wrong with the listing itself."⟩]
  | some .privateOwner => []

def locationBlockers (hasCollectionLocation isLocated : Bool) : List PublicationBlocker :=
  if !hasCollectionLocation then
    [⟨"collectionLocation", "Where the item is collected from is needed before this listing can be published, because nobody can come and fetch a thing that is nowhere."⟩]
  else if !isLocated then
    [⟨"collectionLocation", "We could not place this address on a map, so nobody searching nearby would find it. Check the postcode and save again."⟩]
  else []

/-- Every reason a listing cannot be published, in the order of the form. -/
def publicationBlockers (listing : PublicationCandidate) : List PublicationBlocker :=
  descriptionBlockers listing.description ++
    attributeBlockers listing.attributes listing.categoryAttributes ++
    transportBlockers listing.categoryTransportOptions listing.transportRequirement ++
    rateBlockers listing.rates ++
    ownerBlockers listing.ownerStatus ++
    locationBlockers listing.hasCollectionLocation listing.isLocated

end RentalMarket.Catalogue
