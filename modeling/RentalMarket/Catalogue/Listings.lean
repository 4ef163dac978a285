import RentalMarket.Catalogue.Publication
import RentalMarket.Lib.Interleaving
import RentalMarket.Pricing.MarginRule
import Mathlib.Data.List.MinMax

namespace RentalMarket.Catalogue

open RentalMarket.Core RentalMarket.Pricing

abbrev Id := String

inductive CategoryRiskLevel where
  | low
  | medium
  | high
  deriving DecidableEq, Repr

inductive CategoryReportableActivity where
  | none
  | meansOfTransport
  | personalService
  | saleOfGoods
  deriving DecidableEq, Repr

structure CategoryConfiguration where
  name : String
  riskLevel : CategoryRiskLevel
  reportableActivity : CategoryReportableActivity
  attributes : List CategoryAttribute
  transportOptions : List CategoryTransportOption
  feePolicy : CategoryFeePolicy
  damageSecurity : Option DamageSecurityPolicy
  maximumRentalDays : Nat
  requestExpiryHours : Nat
  deriving DecidableEq

/-- A row of `categories`. -/
structure Category where
  id : Id
  slug : String
  deriving DecidableEq, Repr

/-- A row of `category_versions`. No statement writes one again. -/
structure CategoryVersion where
  id : Id
  categoryId : Id
  versionNumber : Nat
  configuration : CategoryConfiguration
  createdById : Id
  deriving DecidableEq

structure Point where
  latitude : ℚ
  longitude : ℚ
  deriving DecidableEq

structure FuzzOffset where
  bearingDegrees : Nat
  distanceMetres : Nat
  deriving DecidableEq, Repr

structure LocatedListingPoint where
  latitude : ℚ
  longitude : ℚ
  fuzzBearingDegrees : Nat
  fuzzDistanceMetres : Nat
  fuzzedLatitude : ℚ
  fuzzedLongitude : ℚ
  deriving DecidableEq

def LocatedListingPoint.offset (p : LocatedListingPoint) : FuzzOffset :=
  ⟨p.fuzzBearingDegrees, p.fuzzDistanceMetres⟩

structure ListingCollectionLocation where
  line1 : String
  line2 : Option String
  town : String
  postcode : String
  deriving DecidableEq, Repr

/-- A row of `listing_locations`. -/
structure ListingLocation where
  listingId : Id
  postcode : String
  encryptedDetail : String
  point : Option LocatedListingPoint
  deriving DecidableEq

structure ListingDetails where
  title : String
  description : String
  replacementValue : Money
  transportRequirement : Option TransportRequirement
  requiresTwoPersonLift : Bool
  rates : ListingRateCard
  deriving DecidableEq

/-- A row of `listings`. -/
structure Listing where
  id : Id
  ownerId : Id
  categoryId : Id
  categoryVersionId : Id
  details : ListingDetails
  attributes : ListingAttributeValues
  outwardCode : Option String
  town : Option String
  status : ListingStatus
  moderationState : ModerationState
  deriving DecidableEq

/-- What the audit trail digests of a category. -/
structure AuditableCategory where
  slug : String
  name : String
  riskLevel : CategoryRiskLevel
  reportableActivity : CategoryReportableActivity
  attributes : List CategoryAttribute
  transportOptions : List CategoryTransportOption
  feePolicy : CategoryFeePolicy
  damageSecurity : Option DamageSecurityPolicy
  deriving DecidableEq

def auditable (slug : String) (c : CategoryConfiguration) : AuditableCategory :=
  ⟨slug, c.name, c.riskLevel, c.reportableActivity, c.attributes, c.transportOptions, c.feePolicy,
    c.damageSecurity⟩

structure AuditEntry where
  actorId : Id
  action : String
  targetId : Id
  beforeHash : Option String
  afterHash : Option String
  reason : String
  deriving DecidableEq, Repr

structure Tables where
  categories : List Category
  versions : List CategoryVersion
  listings : List Listing
  locations : List ListingLocation
  audit : List AuditEntry
  deriving DecidableEq

namespace Tables

/-- A category's current configuration is its highest version. -/
def latest (t : Tables) (categoryId : Id) : Option CategoryVersion :=
  (t.versions.filter (fun v => v.categoryId = categoryId)).argmax (·.versionNumber)

def findCategory (t : Tables) (slug : String) : Option Category := t.categories.find? (fun c => c.slug = slug)

def findVersion (t : Tables) (id : Id) : Option CategoryVersion := t.versions.find? (fun v => v.id = id)

def findLocation (t : Tables) (listingId : Id) : Option ListingLocation :=
  t.locations.find? (fun l => l.listingId = listingId)

/-- `WHERE id AND ownerId` -/
def findRow (t : Tables) (id ownerId : Id) : Option Listing :=
  t.listings.find? (fun l => l.id = id ∧ l.ownerId = ownerId)

end Tables

structure CategoryOption where
  category : Category
  version : CategoryVersion
  deriving DecidableEq

def Tables.findOption (t : Tables) (slug : String) : Option CategoryOption :=
  (t.findCategory slug).bind (fun c => (t.latest c.id).map (fun v => ⟨c, v⟩))

structure ListingRecord where
  id : Id
  ownerId : Id
  categorySlug : String
  pinned : CategoryConfiguration
  versionNumber : Nat
  details : ListingDetails
  attributes : ListingAttributeValues
  postcode : Option String
  isLocated : Bool
  status : ListingStatus
  moderationState : ModerationState
  deriving DecidableEq

def Tables.toRecord (t : Tables) (l : Listing) : Option ListingRecord :=
  (t.findVersion l.categoryVersionId).bind (fun v =>
    (t.categories.find? (fun c => c.id = v.categoryId)).map (fun c =>
      let location := t.findLocation l.id
      ⟨l.id, l.ownerId, c.slug, v.configuration, v.versionNumber, l.details, l.attributes,
        location.map (·.postcode), (location.bind (·.point)).isSome, l.status, l.moderationState⟩))

def Tables.findOwnedBy (t : Tables) (id ownerId : Id) : Option ListingRecord :=
  (t.findRow id ownerId).bind t.toRecord

def Tables.findFuzzOffset (t : Tables) (id ownerId : Id) : Option FuzzOffset :=
  (t.findRow id ownerId).bind (fun _ => ((t.findLocation id).bind (·.point)).map (·.offset))

structure SubmittedListing where
  ownerId : Id
  categorySlug : String
  categoryVersionNumber : Nat
  details : ListingDetails
  attributes : Option Answers
  collectionLocation : Option ListingCollectionLocation
  deriving DecidableEq

structure SubmittedListingEdit where
  categoryVersionNumber : Nat
  details : ListingDetails
  attributes : Option Answers
  collectionLocation : Option ListingCollectionLocation
  deriving DecidableEq

inductive CollectionLocationEdit where
  | cleared
  | addressOnly (location : ListingCollectionLocation)
  | relocated (location : ListingCollectionLocation) (point : Option LocatedListingPoint)
  deriving DecidableEq

structure ListingDraft where
  ownerId : Id
  categorySlug : String
  categoryVersionNumber : Nat
  details : ListingDetails
  attributes : ListingAttributeValues
  collectionLocation : Option ListingCollectionLocation
  locatedPoint : Option LocatedListingPoint
  deriving DecidableEq

structure ListingEdit where
  categoryVersionNumber : Nat
  details : ListingDetails
  attributes : ListingAttributeValues
  collectionLocation : CollectionLocationEdit
  deriving DecidableEq

/-- An edit on its way to the store, and how it got there: whether it was judged
complete, and whether its offset is a new one. -/
structure PendingEdit where
  id : Id
  ownerId : Id
  edit : ListingEdit
  checked : Bool
  drawn : Bool
  deriving DecidableEq

structure Reconfiguration where
  actorId : Id
  slug : String
  configuration : CategoryConfiguration
  reason : String
  deriving DecidableEq

inductive Request where
  | createDraft (submitted : SubmittedListing)
  | edit (id ownerId : Id) (submitted : SubmittedListingEdit)
  | publish (id ownerId : Id)
  | pause (id ownerId : Id)
  | reconfigure (r : Reconfiguration)
  deriving DecidableEq

inductive Refusal where
  | unknownCategory (slug : String)
  | categoryChanged (slug : String) (submitted current : Nat)
  | attributeValuesInvalid (issues : List AttributeValueIssue)
  | transportRequirementNotOffered (offered : List CategoryTransportOption)
  | publishedListingIncomplete (blockers : List PublicationBlocker)
  | publicationSuspended
  | listingTransitionRefused (refusal : String)
  | listingNotPublishable (blockers : List PublicationBlocker)
  | categoryMargin (slug : String) (reason : Option String)
  deriving DecidableEq

def Refusal.message : Refusal → String
  | unknownCategory slug => "No category has the slug \"" ++ slug ++ "\""
  | categoryChanged slug submitted current => "Category \"" ++ slug ++ "\" was configured as version " ++
      toString submitted ++ " when this form was opened and is now version " ++ toString current
  | attributeValuesInvalid issues =>
      "The attribute values were rejected: " ++ toString issues.length ++ " problem(s)"
  | transportRequirementNotOffered offered =>
      if offered = [] then
        "This category does not ask how an item is collected, so it cannot take a transport requirement"
      else "This category is collected by " ++ ", ".intercalate (offered.map (·.requirement.label))
  | publishedListingIncomplete blockers => "A published listing cannot be left incomplete: " ++
      toString blockers.length ++ " thing(s) would be missing"
  | publicationSuspended => "Publishing listings is temporarily switched off"
  | listingTransitionRefused refusal => refusal
  | listingNotPublishable blockers =>
      "The listing is not ready to publish: " ++ toString blockers.length ++ " thing(s) missing"
  | categoryMargin slug reason => "BRD §3.4.3 does not allow " ++ slug ++
      " to be enabled for public booking: " ++
      reason.getD "its contribution margin at the minimum booking total is negative" ++
      ". Raise the minimum booking total, the minimum platform fee, or the fee percentages until the margin is positive."

inductive Answer where
  | notFound
  | listing (record : Option ListingRecord)
  | reconfigured (version : CategoryVersion)
  | refused (refusal : Refusal)
  | threw
  deriving DecidableEq

inductive Call where
  | draftRead (submitted : SubmittedListing)
  | draftLocate (draft : ListingDraft) (postcode : String)
  | draftPin (draft : ListingDraft)
  | draftWrite (draft : ListingDraft) (categoryId categoryVersionId : Id)
  | editRead (id ownerId : Id) (submitted : SubmittedListingEdit)
  | editOption (listing : ListingRecord) (submitted : SubmittedListingEdit)
  | editOffset (listing : ListingRecord) (pinning : CategoryConfiguration) (edit : ListingEdit)
      (location : ListingCollectionLocation)
  | editLocate (listing : ListingRecord) (pinning : CategoryConfiguration) (edit : ListingEdit)
      (location : ListingCollectionLocation) (offset : Option FuzzOffset)
  | updateRead (p : PendingEdit)
  | updateLatest (p : PendingEdit) (categoryId : Id)
  | updateWrite (p : PendingEdit) (categoryVersionId : Id)
  | publishSwitch (id ownerId : Id)
  | publishRead (id ownerId : Id)
  | publishWrite (id ownerId : Id)
  | pauseRead (id ownerId : Id)
  | pauseWrite (id ownerId : Id)
  | rereading (id ownerId : Id)
  | reconfigureRead (r : Reconfiguration)
  | addVersionRead (r : Reconfiguration) (before : CategoryVersion)
  | addVersionInsert (r : Reconfiguration) (before current : CategoryVersion)
  | auditing (r : Reconfiguration) (before after : CategoryVersion)
  | returned (answer : Answer)
  deriving DecidableEq

/-- What a statement finds besides the tables: an id the database draws, the
geocoder's answer, an offset drawn at random, the switch that allows publishing,
and whether it fails. -/
structure Draw where
  id : Id
  located : Option Point
  offset : FuzzOffset
  publicationEnabled : Bool
  fails : Bool

structure Wiring where
  applyFuzzOffset : Point → FuzzOffset → Point
  encrypt : Id → String → Option String → String
  digest : AuditableCategory → String
  ownerStatus : Id → Option OwnerStatus

/-- The publishable half of a postcode, which the contract has brought into its
canonical form. -/
def outwardCode (postcode : String) : String := String.ofList (postcode.toList.takeWhile (· ≠ ' '))

def publishableLocationColumns : CollectionLocationEdit → Option String × Option String
  | .cleared => (none, none)
  | .addressOnly location => (some (outwardCode location.postcode), some location.town)
  | .relocated location _ => (some (outwardCode location.postcode), some location.town)

def fuzzedAt (w : Wiring) (located : Point) (offset : FuzzOffset) : LocatedListingPoint :=
  let fuzzed := w.applyFuzzOffset located offset
  ⟨located.latitude, located.longitude, offset.bearingDegrees, offset.distanceMetres, fuzzed.latitude,
    fuzzed.longitude⟩

/-- `locate`, which draws an offset. -/
def locate (w : Wiring) (d : Draw) : Option LocatedListingPoint :=
  d.located.map (fun located => fuzzedAt w located d.offset)

/-- `relocate`, against an offset that is stored. -/
def relocate (w : Wiring) (d : Draw) (offset : FuzzOffset) : Option LocatedListingPoint :=
  d.located.map (fun located => fuzzedAt w located offset)

def judgeSubmission (slug : String) (version : CategoryVersion) (submittedVersion : Nat)
    (raw : Option Answers) (transportRequirement : Option TransportRequirement) :
    Except Refusal ListingAttributeValues :=
  if version.versionNumber ≠ submittedVersion then
    .error (.categoryChanged slug submittedVersion version.versionNumber)
  else
    match validateAttributeValues version.configuration.attributes raw with
    | .error issues => .error (.attributeValuesInvalid issues)
    | .ok values =>
      match transportRequirement with
      | none => .ok values
      | some requirement =>
        if offersTransportRequirement version.configuration.transportOptions requirement then .ok values
        else .error (.transportRequirementNotOffered version.configuration.transportOptions)

def willBeLocated : CollectionLocationEdit → Bool
  | .cleared => false
  | .addressOnly _ => true
  | .relocated _ point => point.isSome

def editedCandidate (w : Wiring) (ownerId : Id) (pinning : CategoryConfiguration) (edit : ListingEdit) :
    PublicationCandidate where
  description := edit.details.description
  attributes := edit.attributes
  categoryAttributes := pinning.attributes
  categoryTransportOptions := pinning.transportOptions
  transportRequirement := edit.details.transportRequirement
  rates := edit.details.rates
  hasCollectionLocation := decide (edit.collectionLocation ≠ .cleared)
  isLocated := willBeLocated edit.collectionLocation
  ownerStatus := w.ownerStatus ownerId

def recordCandidate (w : Wiring) (listing : ListingRecord) : PublicationCandidate where
  description := listing.details.description
  attributes := listing.attributes
  categoryAttributes := listing.pinned.attributes
  categoryTransportOptions := listing.pinned.transportOptions
  transportRequirement := listing.details.transportRequirement
  rates := listing.details.rates
  hasCollectionLocation := listing.postcode.isSome
  isLocated := listing.isLocated
  ownerStatus := w.ownerStatus listing.ownerId

/-- The completeness re-check, only for a listing that is published. -/
def recheck (w : Wiring) (listing : ListingRecord) (pinning : CategoryConfiguration) (edit : ListingEdit)
    (drawn : Bool) : Call :=
  let checked := decide (listing.status = .published)
  let blockers := publicationBlockers (editedCandidate w listing.ownerId pinning edit)
  if checked ∧ blockers ≠ [] then .returned (.refused (.publishedListingIncomplete blockers))
  else .updateRead ⟨listing.id, listing.ownerId, edit, checked, drawn⟩

/-- `edit`, once the category's current version has been read, as far as the
decision what happens to the location. -/
def editJudged (w : Wiring) (listing : ListingRecord) (submitted : SubmittedListingEdit)
    (pinning : CategoryConfiguration) (values : ListingAttributeValues) : Call :=
  let edit (location : CollectionLocationEdit) : ListingEdit :=
    ⟨submitted.categoryVersionNumber, submitted.details, values, location⟩
  match submitted.collectionLocation with
  | none => recheck w listing pinning (edit .cleared) false
  | some location =>
    if listing.postcode = some location.postcode ∧ listing.isLocated then
      recheck w listing pinning (edit (.addressOnly location)) false
    else .editOffset listing pinning (edit (.relocated location none)) location

/-- `writeLocation`. A row that should be there and is not throws. -/
def writeLocation (w : Wiring) (locations : List ListingLocation) (listingId : Id) :
    CollectionLocationEdit → Option (List ListingLocation)
  | .cleared => some (locations.filter (fun l => l.listingId ≠ listingId))
  | .addressOnly location =>
    if locations.any (fun l => l.listingId = listingId) then
      some (locations.map (fun l => if l.listingId = listingId then
        { l with
          postcode := location.postcode
          encryptedDetail := w.encrypt listingId location.line1 location.line2 }
      else l))
    else none
  | .relocated location point =>
    let row : ListingLocation :=
      ⟨listingId, location.postcode, w.encrypt listingId location.line1 location.line2, point⟩
    if locations.any (fun l => l.listingId = listingId) then
      some (locations.map (fun l => if l.listingId = listingId then row else l))
    else some (locations ++ [row])

/-- `UPDATE listings WHERE id AND ownerId` -/
def updateRows (listings : List Listing) (id ownerId : Id) (change : Listing → Listing) : List Listing :=
  listings.map (fun l => if l.id = id ∧ l.ownerId = ownerId then change l else l)

def applyEdit (edit : ListingEdit) (categoryVersionId : Id) (l : Listing) : Listing :=
  let columns := publishableLocationColumns edit.collectionLocation
  { l with
    categoryVersionId := categoryVersionId
    details := edit.details
    attributes := edit.attributes
    outwardCode := columns.1
    town := columns.2 }

def refuseNegativeMargin (policy : CategoryFeePolicy) (slug : String) (go : Call) : Call :=
  match meetsMarginRule policy with
  | .error _ => .returned .threw
  | .ok verdict => if verdict.meetsRule then go else .returned (.refused (.categoryMargin slug verdict.reason))

def nextDraft (w : Wiring) (t : Tables) (d : Draw) : Call → Option (Tables × Call)
  | .draftRead submitted =>
    some (t, match t.findOption submitted.categorySlug with
      | none => .returned (.refused (.unknownCategory submitted.categorySlug))
      | some option =>
        match judgeSubmission submitted.categorySlug option.version submitted.categoryVersionNumber
            submitted.attributes submitted.details.transportRequirement with
        | .error refusal => .returned (.refused refusal)
        | .ok values =>
          let draft : ListingDraft := ⟨submitted.ownerId, submitted.categorySlug, option.version.versionNumber,
            submitted.details, values, submitted.collectionLocation, none⟩
          match submitted.collectionLocation with
          | none => .draftPin draft
          | some location => .draftLocate draft location.postcode)
  | .draftLocate draft _ => some (t, .draftPin { draft with locatedPoint := locate w d })
  | .draftPin draft =>
    some (t, match t.findOption draft.categorySlug with
      | none => .returned (.refused (.unknownCategory draft.categorySlug))
      | some option =>
        if option.version.versionNumber ≠ draft.categoryVersionNumber then
          .returned (.refused (.categoryChanged draft.categorySlug draft.categoryVersionNumber
            option.version.versionNumber))
        else .draftWrite draft option.category.id option.version.id)
  | .draftWrite draft categoryId categoryVersionId =>
    if t.listings.any (fun l => l.id = d.id) then none
    else
      let listing : Listing :=
        ⟨d.id, draft.ownerId, categoryId, categoryVersionId, draft.details, draft.attributes,
          draft.collectionLocation.map (fun location => outwardCode location.postcode),
          draft.collectionLocation.map (·.town), .draft, .approved⟩
      let location : Option ListingLocation := draft.collectionLocation.map (fun location =>
        ⟨d.id, location.postcode, w.encrypt d.id location.line1 location.line2, draft.locatedPoint⟩)
      let t' := { t with listings := t.listings ++ [listing], locations := t.locations ++ location.toList }
      some (t', .returned (.listing (t'.toRecord listing)))
  | _ => none

def nextEdit (w : Wiring) (t : Tables) (d : Draw) : Call → Option (Tables × Call)
  | .editRead id ownerId submitted =>
    some (t, (t.findOwnedBy id ownerId).elim (.returned (.listing none))
      (fun listing => .editOption listing submitted))
  | .editOption listing submitted =>
    some (t, match t.findOption listing.categorySlug with
      | none => .returned (.refused (.unknownCategory listing.categorySlug))
      | some option =>
        match judgeSubmission listing.categorySlug option.version submitted.categoryVersionNumber
            submitted.attributes submitted.details.transportRequirement with
        | .error refusal => .returned (.refused refusal)
        | .ok values => editJudged w listing submitted option.version.configuration values)
  | .editOffset listing pinning edit location =>
    some (t, .editLocate listing pinning edit location (t.findFuzzOffset listing.id listing.ownerId))
  | .editLocate listing pinning edit location offset =>
    let point := offset.elim (locate w d) (relocate w d)
    some (t, recheck w listing pinning { edit with collectionLocation := .relocated location point }
      offset.isNone)
  | .updateRead p =>
    some (t, (t.findRow p.id p.ownerId).elim (.returned (.listing none))
      (fun existing => .updateLatest p existing.categoryId))
  | .updateLatest p categoryId =>
    some (t, match t.latest categoryId with
      | none => .returned (.listing none)
      | some current =>
        if current.versionNumber ≠ p.edit.categoryVersionNumber then
          .returned (.refused (.categoryChanged
            (((t.categories.find? (fun c => c.id = categoryId)).map (·.slug)).getD "")
            p.edit.categoryVersionNumber current.versionNumber))
        else .updateWrite p current.id)
  | .updateWrite p categoryVersionId =>
    some (match t.findRow p.id p.ownerId with
      | none => (t, .returned (.listing none))
      | some _ =>
        match writeLocation w t.locations p.id p.edit.collectionLocation with
        | none => (t, .returned .threw)
        | some locations =>
          ({ t with
              listings := updateRows t.listings p.id p.ownerId (applyEdit p.edit categoryVersionId)
              locations := locations }, .rereading p.id p.ownerId))
  | _ => none

def nextStatus (w : Wiring) (t : Tables) (d : Draw) : Call → Option (Tables × Call)
  | .publishSwitch id ownerId =>
    some (t, if d.publicationEnabled then .publishRead id ownerId
      else .returned (.refused .publicationSuspended))
  | .publishRead id ownerId =>
    some (t, match t.findOwnedBy id ownerId with
      | none => .returned (.listing none)
      | some listing =>
        match transitionRefusal .publish listing.status with
        | some refusal => .returned (.refused (.listingTransitionRefused refusal))
        | none =>
          let blockers := publicationBlockers (recordCandidate w listing)
          if blockers ≠ [] then .returned (.refused (.listingNotPublishable blockers))
          else .publishWrite id ownerId)
  | .publishWrite id ownerId =>
    some (match t.findRow id ownerId with
      | none => (t, .returned (.listing none))
      | some _ => ({ t with
          listings := updateRows t.listings id ownerId (fun l => { l with status := .published }) },
        .rereading id ownerId))
  | .pauseRead id ownerId =>
    some (t, match t.findOwnedBy id ownerId with
      | none => .returned (.listing none)
      | some listing =>
        match transitionRefusal .pause listing.status with
        | some refusal => .returned (.refused (.listingTransitionRefused refusal))
        | none => .pauseWrite id ownerId)
  | .pauseWrite id ownerId =>
    some (match t.findRow id ownerId with
      | none => (t, .returned (.listing none))
      | some _ => ({ t with
          listings := updateRows t.listings id ownerId (fun l => { l with status := .paused }) },
        .rereading id ownerId))
  | _ => none

def nextReconfigure (w : Wiring) (t : Tables) (d : Draw) : Call → Option (Tables × Call)
  | .reconfigureRead r =>
    some (t, match t.findOption r.slug with
      | none => .returned .notFound
      | some before => refuseNegativeMargin r.configuration.feePolicy r.slug (.addVersionRead r before.version))
  | .addVersionRead r before =>
    some (t, match t.findOption r.slug with
      | none => .returned .notFound
      | some existing => .addVersionInsert r before existing.version)
  | .addVersionInsert r before current =>
    if t.versions.any (fun v => v.id = d.id) then none
    else if t.versions.any (fun v => v.categoryId = current.categoryId ∧
        v.versionNumber = current.versionNumber + 1) then some (t, .returned .threw)
    else
      let version : CategoryVersion :=
        ⟨d.id, current.categoryId, current.versionNumber + 1, r.configuration, r.actorId⟩
      some ({ t with versions := t.versions ++ [version] }, .auditing r before version)
  | .auditing r before after =>
    some ({ t with audit := t.audit ++ [⟨r.actorId, "category.reconfigured", after.categoryId,
        some (w.digest (auditable r.slug before.configuration)),
        some (w.digest (auditable r.slug after.configuration)), r.reason⟩] },
      .returned (.reconfigured after))
  | _ => none

def nextStatement (w : Wiring) (t : Tables) (d : Draw) : Call → Option (Tables × Call)
  | .draftRead submitted => nextDraft w t d (.draftRead submitted)
  | .draftLocate draft postcode => nextDraft w t d (.draftLocate draft postcode)
  | .draftPin draft => nextDraft w t d (.draftPin draft)
  | .draftWrite draft categoryId categoryVersionId =>
    nextDraft w t d (.draftWrite draft categoryId categoryVersionId)
  | .editRead id ownerId submitted => nextEdit w t d (.editRead id ownerId submitted)
  | .editOption listing submitted => nextEdit w t d (.editOption listing submitted)
  | .editOffset listing pinning edit location => nextEdit w t d (.editOffset listing pinning edit location)
  | .editLocate listing pinning edit location offset =>
    nextEdit w t d (.editLocate listing pinning edit location offset)
  | .updateRead p => nextEdit w t d (.updateRead p)
  | .updateLatest p categoryId => nextEdit w t d (.updateLatest p categoryId)
  | .updateWrite p categoryVersionId => nextEdit w t d (.updateWrite p categoryVersionId)
  | .publishSwitch id ownerId => nextStatus w t d (.publishSwitch id ownerId)
  | .publishRead id ownerId => nextStatus w t d (.publishRead id ownerId)
  | .publishWrite id ownerId => nextStatus w t d (.publishWrite id ownerId)
  | .pauseRead id ownerId => nextStatus w t d (.pauseRead id ownerId)
  | .pauseWrite id ownerId => nextStatus w t d (.pauseWrite id ownerId)
  | .rereading id ownerId => some (t, .returned (.listing (t.findOwnedBy id ownerId)))
  | .reconfigureRead r => nextReconfigure w t d (.reconfigureRead r)
  | .addVersionRead r before => nextReconfigure w t d (.addVersionRead r before)
  | .addVersionInsert r before current => nextReconfigure w t d (.addVersionInsert r before current)
  | .auditing r before after => nextReconfigure w t d (.auditing r before after)
  | .returned _ => none

def Call.isReturned : Call → Bool
  | returned _ => true
  | _ => false

/-- A statement that fails ends its call, and has written nothing. -/
def next (w : Wiring) (t : Tables) (d : Draw) (c : Call) : Option (Tables × Call) :=
  if c.isReturned then none
  else if d.fails then some (t, .returned .threw)
  else nextStatement w t d c

def start : Request → Call
  | .createDraft submitted => .draftRead submitted
  | .edit id ownerId submitted => .editRead id ownerId submitted
  | .publish id ownerId => .publishSwitch id ownerId
  | .pause id ownerId => .pauseRead id ownerId
  | .reconfigure r => .reconfigureRead r

def machine (w : Wiring) : Interleaving.Machine Tables Call Request Draw := ⟨start, next w⟩

abbrev State := Interleaving.State Tables Call

abbrev Action := Interleaving.Action Request Draw

end RentalMarket.Catalogue
