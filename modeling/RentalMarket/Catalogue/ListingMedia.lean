import RentalMarket.Catalogue.Publication
import RentalMarket.Lib.Json
import RentalMarket.Lib.Keyed
import RentalMarket.Lib.SortedBy
import Mathlib.Data.Prod.Lex
import Mathlib.Data.String.Basic

namespace RentalMarket.Catalogue.Media

abbrev Id := String

structure NewListingMedia where
  listingId : Id
  displayKey : String
  thumbnailKey : String
  contentType : String
  byteSize : Nat
  width : Nat
  height : Nat
  thumbnailWidth : Nat
  thumbnailHeight : Nat
  sha256 : String
  deriving DecidableEq, Repr

/-- A row of `listing_media`. -/
structure ListingMediaRecord extends NewListingMedia where
  id : Id
  position : Nat
  createdAt : Int
  deriving DecidableEq, Repr

def ListingMediaRecord.objectKeys (item : ListingMediaRecord) : List String := [item.displayKey, item.thumbnailKey]

/-- `inOwnersOrder`. -/
def ListingMediaRecord.inOwnersOrder (item : ListingMediaRecord) : ℕ ×ₗ ℤ ×ₗ String :=
  toLex (item.position, toLex (item.createdAt, item.id))

def isHex (c : Char) : Bool := c.isDigit || ('a' ≤ c && c ≤ 'f') || ('A' ≤ c && c ≤ 'F')

def isVersion (c : Char) : Bool := '1' ≤ c && c ≤ '8'

def isVariant (c : Char) : Bool := ['8', '9', 'a', 'b', 'A', 'B'].contains c

/-- `z.uuid()`: RFC 9562, or one of the two that are all of one digit. -/
def isUuid (text : String) : Bool :=
  match text.toList.splitOn '-' with
  | [first, second, third, fourth, fifth] =>
    (first.length = 8 && second.length = 4 && third.length = 4 && fourth.length = 4 && fifth.length = 12) &&
      [first, second, third, fourth, fifth].all (fun part => part.all isHex) &&
      (third.head?.any isVersion && fourth.head?.any isVariant ||
        [first, second, third, fourth, fifth].all (fun part => part.all (· = '0')) ||
        [first, second, third, fourth, fifth].all (fun part => part.all (· = 'f')))
  | _ => false

/-- The table: ids are its primary key, and the database draws them. -/
@[ext]
structure MediaTable where
  rows : List ListingMediaRecord
  ids : (rows.map (·.id)).Nodup
  uuids : ∀ row ∈ rows, isUuid row.id = true

namespace MediaTable

variable (m : MediaTable)

def empty : MediaTable := ⟨[], List.nodup_nil, by simp⟩

def rowsOf (listingId : Id) : List ListingMediaRecord := m.rows.filter (fun row => row.listingId = listingId)

def listFor (listingId : Id) : List ListingMediaRecord :=
  sortedBy ListingMediaRecord.inOwnersOrder (m.rowsOf listingId)

def listForListings (listingIds : List Id) : List ListingMediaRecord :=
  if listingIds = [] then []
  else sortedBy ListingMediaRecord.inOwnersOrder (m.rows.filter (fun row => row.listingId ∈ listingIds))

/-- The first statement of `append`. -/
def lastPosition (listingId : Id) : Option Nat := ((m.rowsOf listingId).map (·.position)).max?

/-- What the second statement of `append` writes. -/
def appended (media : NewListingMedia) (last : Option Nat) (id : Id) (createdAt : Int) : ListingMediaRecord :=
  { media with id := id, position := (last.map (· + 1)).getD 0, createdAt := createdAt }

/-- The second statement of `append`. It takes the id of no other row. -/
def create (media : NewListingMedia) (last : Option Nat) (id : Id) (createdAt : Int) : Option MediaTable :=
  if h : isUuid id = true ∧ ∀ row ∈ m.rows, row.id ≠ id then
    some ⟨m.rows ++ [appended media last id createdAt], Keyed.nodup_append m.ids h.2, by
      intro row hrow
      obtain hrow | hrow := List.mem_append.mp hrow
      · exact m.uuids row hrow
      · rw [List.mem_singleton.mp hrow]
        exact h.1⟩
  else none

def keep (p : ListingMediaRecord → Bool) : MediaTable where
  rows := m.rows.filter p
  ids := m.ids.sublist (List.filter_sublist.map _)
  uuids := fun row hrow => m.uuids row (List.mem_of_mem_filter hrow)

/-- `remove`, a transaction: the row that went, and the table without it. -/
def remove (listingId mediaId : Id) : Option (ListingMediaRecord × MediaTable) :=
  (m.rows.find? (fun row => row.id = mediaId ∧ row.listingId = listingId)).map
    (fun row => (row, m.keep (fun other => other.id ≠ row.id)))

def deleteFor (listingIds : List Id) : MediaTable :=
  if listingIds = [] then m else m.keep (fun row => row.listingId ∉ listingIds)

/-- Rows change, and not in what they are known by. -/
def change (f : ListingMediaRecord → ListingMediaRecord) (hf : ∀ row, (f row).id = row.id) : MediaTable where
  rows := m.rows.map f
  ids := by
    have hids : (m.rows.map f).map (·.id) = m.rows.map (·.id) := by
      rw [List.map_map]
      exact List.map_congr_left (fun row _ => hf row)
    rw [hids]
    exact m.ids
  uuids := by
    intro row hrow
    obtain ⟨before, hbefore, rfl⟩ := List.mem_map.mp hrow
    rw [hf]
    exact m.uuids before hbefore

/-- One `updateMany` of `reorder`. -/
def place (listingId id : Id) (position : Nat) : MediaTable :=
  m.change (fun row => if row.id = id ∧ row.listingId = listingId then { row with position := position } else row)
    (fun row => by split <;> rfl)

/-- `reorder`, a transaction. -/
def reorder (listingId : Id) (mediaIds : List Id) : MediaTable :=
  mediaIds.zipIdx.foldl (fun m p => m.place listingId p.1 p.2) m

end MediaTable

inductive DiscardReason where
  | objectStoreUnavailable
  | unexpected
  deriving DecidableEq, Repr

/-- How the object store answers a delete. One that fails may have been carried
out. -/
inductive DeleteAnswer where
  | done
  | failed (reason : DiscardReason) (gone : Bool)
  deriving DecidableEq, Repr

structure Undeleted where
  key : String
  why : String
  reason : DiscardReason
  deriving DecidableEq, Repr

structure Storage where
  table : MediaTable
  objects : List String
  log : List Undeleted

namespace Storage

def put (s : Storage) (key : String) : Storage :=
  if key ∈ s.objects then s else { s with objects := s.objects ++ [key] }

/-- One turn of the loop of `discard`. -/
def discardKey (why : String) (s : Storage) (key : String) : DeleteAnswer → Storage
  | .done => { s with objects := s.objects.filter (· ≠ key) }
  | .failed reason gone =>
    { s with
      objects := if gone then s.objects.filter (· ≠ key) else s.objects
      log := s.log ++ [⟨key, why, reason⟩] }

/-- `discard`. The deletes of a call are answered one by one, by their number. -/
def discard (s : Storage) (keys : List String) (why : String) (answer : Nat → DeleteAnswer) : Storage :=
  keys.zipIdx.foldl (fun s p => s.discardKey why p.1 (answer p.2)) s

def keysOf (media : List ListingMediaRecord) : List String := media.flatMap (·.objectKeys)

def erasedWithAccount : String := "erased with its owner’s account"

def eraseForListings (s : Storage) (listingIds : List Id) (answer : Nat → DeleteAnswer) : Storage :=
  let media := s.table.listForListings listingIds
  if media = [] then s
  else
    let s := s.discard (keysOf media) erasedWithAccount answer
    { s with table := s.table.deleteFor listingIds }

end Storage

end RentalMarket.Catalogue.Media
