import RentalMarket.Catalogue.ListingMedia
import RentalMarket.Lib.Interleaving

namespace RentalMarket.Catalogue.Media

open Interleaving

def listingMediaLimit : Nat := 10

def uuidOf : Json → Option Id
  | .string text => if isUuid text then some text else none
  | _ => none

/-- `parseListingMediaOrder`: one member, and in it ids, as many as a listing may
have photographs. -/
def parseListingMediaOrder : Json → Option (List Id)
  | .object [("mediaIds", .array items)] =>
    if 1 ≤ items.length ∧ items.length ≤ listingMediaLimit then items.mapM uuidOf else none
  | _ => none

def orderBody (mediaIds : List Id) : Json := .object [("mediaIds", .array (mediaIds.map .string))]

inductive ListingMediaRefusal where
  | tooManyBytes
  | tooManyPixels
  | unsupportedFormat
  | notAnImage
  | tooManyPhotographs
  | storageUnavailable
  deriving DecidableEq, Repr

structure ListingMediaImage where
  url : String
  width : Nat
  height : Nat
  deriving DecidableEq, Repr

structure OwnerListingMedia where
  id : Id
  position : Nat
  display : ListingMediaImage
  thumbnail : ListingMediaImage
  deriving DecidableEq, Repr

structure ImageRendition where
  width : Nat
  height : Nat
  byteSize : Nat
  deriving DecidableEq, Repr

structure PreparedImage where
  contentType : String
  display : ImageRendition
  thumbnail : ImageRendition
  sha256 : String
  deriving DecidableEq, Repr

/-- Who owns a listing never changes. -/
structure Wiring where
  ownerOf : Id → Option Id
  prepareImage : List UInt8 → Except (ListingMediaRefusal × String) PreparedImage
  signedUrl : String → String

/-- How the object store answers a put. One that fails may have been carried out. -/
inductive PutAnswer where
  | done
  | failed (reason : DiscardReason) (stored : Bool)
  deriving DecidableEq, Repr

/-- What a statement meets: whether it fails, the id and the time it draws, and how
the object store answers. -/
structure Draw where
  fails : Bool
  id : Id
  now : Int
  put : PutAnswer
  delete : DeleteAnswer
  deriving DecidableEq, Repr

inductive Request where
  | listFor (listingId ownerId : Id)
  | add (listingId ownerId : Id) (bytes : List UInt8)
  | remove (listingId ownerId mediaId : Id)
  | reorder (listingId ownerId : Id) (mediaIds : List Id)
  deriving DecidableEq, Repr

inductive Answer where
  | notFound
  | photographs (media : List OwnerListingMedia)
  | added (media : OwnerListingMedia)
  | removed (found : Bool)
  | refused (reason : ListingMediaRefusal) (message : String)
  | threw
  deriving DecidableEq, Repr

inductive Call where
  | owning (request : Request)
  | listing (listingId : Id)
  | counting (listingId : Id) (bytes : List UInt8)
  | preparing (listingId : Id) (bytes : List UInt8)
  | puttingDisplay (listingId mediaId : Id) (prepared : PreparedImage)
  | puttingThumbnail (listingId mediaId : Id) (prepared : PreparedImage)
  | readingLast (media : NewListingMedia)
  | creating (media : NewListingMedia) (last : Option Nat)
  | removing (listingId mediaId : Id)
  | discarding (keys : List String)
  | checking (listingId : Id) (mediaIds : List Id)
  | reordering (listingId : Id) (mediaIds : List Id)
  | returned (answer : Answer)
  deriving DecidableEq, Repr

def Call.isOver : Call → Bool
  | .returned _ => true
  | _ => false

def tooManyPhotographs (count : Nat) : String :=
  "A listing may have " ++ toString listingMediaLimit ++ " photographs, and this one already has " ++ toString count

def couldNotBeStored : String := "The photograph could not be stored. Please try again."

def mustListExactly : String := "The order must list exactly this listing’s photographs, once each"

def removedByOwner : String := "removed by its owner"

def objectKey (listingId mediaId rendition : String) : String :=
  "listings/" ++ listingId ++ "/" ++ mediaId ++ "/" ++ rendition ++ ".webp"

def displayKey (listingId mediaId : Id) : String := objectKey listingId mediaId "display"

def thumbnailKey (listingId mediaId : Id) : String := objectKey listingId mediaId "thumbnail"

/-- The record `add` hands to the store. -/
def newMedia (listingId mediaId : Id) (prepared : PreparedImage) : NewListingMedia :=
  ⟨listingId, displayKey listingId mediaId, thumbnailKey listingId mediaId, prepared.contentType,
    prepared.display.byteSize, prepared.display.width, prepared.display.height, prepared.thumbnail.width,
    prepared.thumbnail.height, prepared.sha256⟩

def sameSet (held asked : List Id) : Bool :=
  decide (asked.dedup.length = asked.length) && decide (held.dedup.length = asked.dedup.length) &&
    held.dedup.all (fun id => asked.contains id)

section

variable (w : Wiring)

def signOne (item : ListingMediaRecord) : OwnerListingMedia :=
  ⟨item.id, item.position, ⟨w.signedUrl item.displayKey, item.width, item.height⟩,
    ⟨w.signedUrl item.thumbnailKey, item.thumbnailWidth, item.thumbnailHeight⟩⟩

def sign (media : List ListingMediaRecord) : List OwnerListingMedia := media.map (signOne w)

/-- `existsOwnedBy`. -/
def existsOwnedBy (listingId ownerId : Id) : Bool := w.ownerOf listingId = some ownerId

def Request.listingId : Request → Id
  | .listFor listingId _ => listingId
  | .add listingId _ _ => listingId
  | .remove listingId _ _ => listingId
  | .reorder listingId _ _ => listingId

def Request.ownerId : Request → Id
  | .listFor _ ownerId => ownerId
  | .add _ ownerId _ => ownerId
  | .remove _ ownerId _ => ownerId
  | .reorder _ ownerId _ => ownerId

def Request.owned : Request → Call
  | .listFor listingId _ => .listing listingId
  | .add listingId _ bytes => .counting listingId bytes
  | .remove listingId _ mediaId => .removing listingId mediaId
  | .reorder listingId _ mediaIds => .checking listingId mediaIds

/-- One put of `add`, which goes on or gives up. -/
def putting (s : Storage) (key : String) (next : Call) : PutAnswer → Storage × Call
  | .done => (s.put key, next)
  | .failed reason stored =>
    (if stored then s.put key else s,
      .returned (match reason with
        | .objectStoreUnavailable => .refused .storageUnavailable couldNotBeStored
        | .unexpected => .threw))

def next (s : Storage) (d : Draw) : Call → Option (Storage × Call)
  | .returned _ => none
  | .owning request =>
    if d.fails then some (s, .returned .threw)
    else if existsOwnedBy w request.listingId request.ownerId then some (s, request.owned)
    else some (s, .returned .notFound)
  | .listing listingId =>
    if d.fails then some (s, .returned .threw)
    else some (s, .returned (.photographs (sign w (s.table.listFor listingId))))
  | .counting listingId bytes =>
    if d.fails then some (s, .returned .threw)
    else
      let existing := s.table.listFor listingId
      if existing.length ≥ listingMediaLimit then
        some (s, .returned (.refused .tooManyPhotographs (tooManyPhotographs existing.length)))
      else some (s, .preparing listingId bytes)
  | .preparing listingId bytes =>
    match w.prepareImage bytes with
    | .error e => some (s, .returned (.refused e.1 e.2))
    | .ok prepared => some (s, .puttingDisplay listingId d.id prepared)
  | .puttingDisplay listingId mediaId prepared =>
    some (putting s (displayKey listingId mediaId) (.puttingThumbnail listingId mediaId prepared) d.put)
  | .puttingThumbnail listingId mediaId prepared =>
    some (putting s (thumbnailKey listingId mediaId) (.readingLast (newMedia listingId mediaId prepared)) d.put)
  | .readingLast media =>
    if d.fails then some (s, .returned .threw)
    else some (s, .creating media (s.table.lastPosition media.listingId))
  | .creating media last =>
    if d.fails then some (s, .returned .threw)
    else (s.table.create media last d.id d.now).map (fun table =>
      ({ s with table := table }, .returned (.added (signOne w (MediaTable.appended media last d.id d.now)))))
  | .removing listingId mediaId =>
    if d.fails then some (s, .returned .threw)
    else match s.table.remove listingId mediaId with
      | none => some (s, .returned (.removed false))
      | some (row, table) => some ({ s with table := table }, .discarding row.objectKeys)
  | .discarding [] => some (s, .returned (.removed true))
  | .discarding (key :: keys) => some (s.discardKey removedByOwner key d.delete, .discarding keys)
  | .checking listingId mediaIds =>
    if d.fails then some (s, .returned .threw)
    else if sameSet ((s.table.listFor listingId).map (·.id)) mediaIds then some (s, .reordering listingId mediaIds)
    else some (s, .returned (.refused .notAnImage mustListExactly))
  | .reordering listingId mediaIds =>
    if d.fails then some (s, .returned .threw)
    else some ({ s with table := s.table.reorder listingId mediaIds }, .listing listingId)

def service : Machine Storage Call Request Draw := ⟨.owning, next w⟩

/-- `listFor`, with nothing else running. -/
def listFor (s : Storage) (listingId ownerId : Id) : Option (List OwnerListingMedia) :=
  if existsOwnedBy w listingId ownerId then some (sign w (s.table.listFor listingId)) else none

end

end RentalMarket.Catalogue.Media
