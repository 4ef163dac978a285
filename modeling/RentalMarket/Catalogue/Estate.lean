import RentalMarket.Catalogue.FuzzOffset
import RentalMarket.Catalogue.PhotographErasure
import RentalMarket.Catalogue.PhotographOrder

namespace RentalMarket.Catalogue.Estate

open Runs Interleaving

/-- All that an account has listed: the rows, the photographs, and the listing of
every booking. -/
structure Platform where
  catalogue : Tables
  storage : Media.Storage
  bookings : List Id

structure Wiring extends Catalogue.Wiring where
  prepareImage : List UInt8 → Except (Media.ListingMediaRefusal × String) Media.PreparedImage
  signedUrl : String → String

structure Draw extends Catalogue.Draw where
  now : Int
  put : Media.PutAnswer
  delete : Media.DeleteAnswer

def Draw.media (d : Draw) : Media.Draw := ⟨d.fails, d.id, d.now, d.put, d.delete⟩

inductive ErasureAnswer where
  | erased
  | threw
  deriving DecidableEq, Repr

/-- A call of `eraseFor` between two statements. -/
inductive Erasing where
  | listing (ownerId : Id)
  | asking (ownerId : Id) (owned : List Id)
  | reading (ownerId : Id) (owned booked : List Id)
  | discarding (ownerId : Id) (owned booked : List Id) (keys : List String)
  | deleting (ownerId : Id) (booked : List Id)
  | returned (ownerId : Id) (answer : ErasureAnswer)
  deriving DecidableEq, Repr

inductive Call where
  | owner (c : Catalogue.Call)
  | photograph (c : Media.Call)
  | booking (listingId : Id)
  | booked (listingId : Id) (placed : Bool)
  | erasing (c : Erasing)
  deriving DecidableEq

inductive Request where
  | owner (r : Catalogue.Request)
  | photograph (r : Media.Request)
  | book (listingId : Id)
  | erase (ownerId : Id)
  deriving DecidableEq

namespace Platform

def ownerOf (p : Platform) (listingId : Id) : Option Id :=
  (p.catalogue.listings.find? (fun l => l.id = listingId)).map (·.ownerId)

def listIdsOwnedBy (p : Platform) (ownerId : Id) : List Id :=
  (p.catalogue.listings.filter (fun l => l.ownerId = ownerId)).map (·.id)

/-- Every state of a booking counts. -/
def findBookedListings (p : Platform) (listingIds : List Id) : List Id :=
  listingIds.filter (fun id => p.bookings.contains id)

/-- `eraseOwnedBy`, a transaction: the addresses of what is retained, and the
listings of the rest, whose addresses and photographs go with them. A booking
restricts the delete of its listing. -/
def eraseOwnedBy (p : Platform) (ownerId : Id) (retain : List Id) : Option Platform :=
  let goes := fun l : Listing => decide (l.ownerId = ownerId) && !retain.contains l.id
  let gone := (p.catalogue.listings.filter goes).map (·.id)
  if gone.any (fun id => p.bookings.contains id) then none
  else some { p with
    catalogue := { p.catalogue with
      listings := p.catalogue.listings.filter (fun l => !goes l)
      locations := p.catalogue.locations.filter (fun x =>
        !retain.contains x.listingId && !gone.contains x.listingId) }
    storage := { p.storage with
      table := p.storage.table.keep (fun row => !gone.contains row.listingId) } }

/-- A photograph whose listing has gone meets its foreign key. -/
def orphans (p : Platform) : Media.Call → Bool
  | .creating media _ => (p.ownerOf media.listingId).isNone
  | _ => false

end Platform

def Erasing.ownerId : Erasing → Id
  | listing ownerId => ownerId
  | asking ownerId _ => ownerId
  | reading ownerId _ _ => ownerId
  | discarding ownerId _ _ _ => ownerId
  | deleting ownerId _ => ownerId
  | returned ownerId _ => ownerId

/-- A statement of `eraseFor`. An object that will not go does not stop it. -/
def nextErasing (p : Platform) (d : Draw) : Erasing → Option (Platform × Erasing)
  | .returned _ _ => none
  | .discarding ownerId owned booked (key :: keys) =>
    some ({ p with storage := p.storage.discardKey Media.Storage.erasedWithAccount key d.delete },
      .discarding ownerId owned booked keys)
  | e =>
    if d.fails then some (p, .returned e.ownerId .threw)
    else match e with
    | .listing ownerId => some (p, .asking ownerId (p.listIdsOwnedBy ownerId))
    | .asking ownerId owned => some (p, .reading ownerId owned (p.findBookedListings owned))
    | .reading ownerId owned booked =>
      let media := p.storage.table.listForListings owned
      some (p, if media = [] then .deleting ownerId booked
        else .discarding ownerId owned booked (Media.Storage.keysOf media))
    | .discarding ownerId owned booked _ =>
      some ({ p with storage := { p.storage with table := p.storage.table.deleteFor owned } },
        .deleting ownerId booked)
    | .deleting ownerId booked => some (match p.eraseOwnedBy ownerId booked with
      | none => (p, .returned ownerId .threw)
      | some p' => (p', .returned ownerId .erased))
    | .returned _ _ => none

def Wiring.media (w : Wiring) (p : Platform) : Media.Wiring := ⟨p.ownerOf, w.prepareImage, w.signedUrl⟩

def next (w : Wiring) (p : Platform) (d : Draw) : Call → Option (Platform × Call)
  | .owner c => (Catalogue.next w.toWiring p.catalogue d.toDraw c).map (fun r =>
      ({ p with catalogue := r.1 }, .owner r.2))
  | .photograph c =>
    if p.orphans c then some (p, .photograph (.returned .threw))
    else (Media.next (w.media p) p.storage d.media c).map (fun r =>
      ({ p with storage := r.1 }, .photograph r.2))
  | .booking listingId =>
    if d.fails || (p.ownerOf listingId).isNone then some (p, .booked listingId false)
    else some ({ p with bookings := p.bookings ++ [listingId] }, .booked listingId true)
  | .booked _ _ => none
  | .erasing c => (nextErasing p d c).map (fun r => (r.1, .erasing r.2))

def start : Request → Call
  | .owner r => .owner (Catalogue.start r)
  | .photograph r => .photograph (.owning r)
  | .book listingId => .booking listingId
  | .erase ownerId => .erasing (.listing ownerId)

def machine (w : Wiring) : Machine Platform Call Request Draw := ⟨start, next w⟩

abbrev State := Interleaving.State Platform Call

abbrev Action := Interleaving.Action Request Draw

end RentalMarket.Catalogue.Estate
