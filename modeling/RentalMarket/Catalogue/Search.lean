import RentalMarket.Booking.LocalPeriod
import RentalMarket.Catalogue.FuzzOffset
import RentalMarket.Catalogue.PinnedSchema
import RentalMarket.Core.Paging
import Mathlib

namespace RentalMarket.Catalogue

open RentalMarket.Core RentalMarket.Pricing Runs Interleaving
open RentalMarket.Booking (AvailabilityBlock BookingRow Period occupiesCalendar reasonUnavailable)

def searchRadiiMiles : List Nat := [5, 10, 20, 50, 100]

def searchPageSize : Nat := 24

def firstSearchPage : Nat := 1

def maxSearchPage : Nat := 20

def searchResultLimit : Nat := searchPageSize

def resultsToSkip (page : Nat) : Nat := (page - firstSearchPage) * searchPageSize

def searchedDays (z : Zone) (availableFrom availableTo : String) : Except String Int := do
  let startAt ← Time.startOfLocalDay z availableFrom
  let endAt ← Time.startOfLocalDay z availableTo
  let days ← z.rentalDayCount startAt endAt
  return days + 1

/-- The two dates that `searchDatesSchema` accepts. -/
structure SearchDates (z : Zone) where
  availableFrom : String
  availableTo : String
  ordered : ¬availableTo < availableFrom
  short : ∃ days, searchedDays z availableFrom availableTo = .ok days ∧ days ≤ maxMaximumRentalDays

structure ListingSearchQuery (z : Zone) where
  postcode : String
  radiusMiles : Nat
  page : Nat
  category : Option String
  keyword : Option String
  dates : Option (SearchDates z)
  radius : radiusMiles ∈ searchRadiiMiles
  first_le : firstSearchPage ≤ page
  le_max : page ≤ maxSearchPage

def ListingSearchQuery.onPage {z : Zone} (search : ListingSearchQuery z) (page : Nat)
    (first_le : firstSearchPage ≤ page) (le_max : page ≤ maxSearchPage) : ListingSearchQuery z :=
  { search with page := page, first_le := first_le, le_max := le_max }

inductive DistanceBucket where
  | underAMile
  | approximate (miles : Int)
  deriving DecidableEq, Repr

def metresPerMile : ℚ := 1609344 / 1000

def milesToMetres (miles : Nat) : ℚ := miles * metresPerMile

/-- `Math.round` takes a half up. -/
def bucketDistance (metres : ℚ) : DistanceBucket :=
  let miles := metres / metresPerMile
  if miles < 1 then .underAMile else .approximate ⌊miles + 1 / 2⌋

/-- What the search asks of code that is not its own: the geocoder, two functions
of PostGIS, and the text search. -/
structure Provided where
  geocode : String → Option Point
  stDistance : Point → Point → ℚ
  stDWithin : Point → Point → ℚ → Bool
  matchesQuery : Listing → String → Bool

/-- Every located listing has its district and its town beside it. -/
structure Tables.Districted (t : Tables) : Prop where
  locationIds : (t.locations.map (·.listingId)).Nodup
  owned : ∀ loc ∈ t.locations, ∃ l ∈ t.listings, l.id = loc.listingId
  districts : ∀ loc ∈ t.locations, ∀ l ∈ t.listings, l.id = loc.listingId →
    l.outwardCode.isSome ∧ l.town.isSome

structure Database where
  tables : Tables
  blocks : List AvailabilityBlock
  bookings : List BookingRow
  ownerStatus : Id → Option OwnerStatus
  listingIds : (tables.listings.map (·.id)).Nodup
  pinned : ∀ l ∈ tables.listings, (tables.findVersion l.categoryVersionId).isSome
  districted : tables.Districted
  blockEnds : ∀ b ∈ blocks, b.period.Nonempty
  bookingEnds : ∀ bk ∈ bookings, bk.period.Nonempty

/-- A window of results, as `LIMIT` and `OFFSET` take it. -/
structure SearchWindow where
  limit : Nat
  offset : Nat
  deriving DecidableEq, Repr

structure NearbySearch (z : Zone) where
  originPostcode : String
  radiusMiles : Nat
  categoryId : Option Id
  keyword : Option String
  dates : Option (SearchDates z)
  window : SearchWindow

structure DistanceRow where
  listingId : Id
  metres : ℚ
  deriving DecidableEq

/-- `ORDER BY metres, id` -/
def DistanceRow.key (row : DistanceRow) : ℚ ×ₗ Id := toLex (row.metres, row.listingId)

structure NearbyListing where
  listingId : Id
  distance : DistanceBucket
  deriving DecidableEq, Repr

structure NearbyListingPage where
  found : List NearbyListing
  truncated : Bool
  deriving DecidableEq, Repr

def toNearbyListing (row : DistanceRow) : NearbyListing := ⟨row.listingId, bucketDistance row.metres⟩

def publiclyVisibleStatus : ListingStatus := .published

def publiclyVisibleModeration : ModerationState := .approved

section

variable {z : Zone}

def searchedPeriod (dates : Option (SearchDates z)) : Except String (Option Period) :=
  match dates with
  | none => .ok none
  | some dates =>
    (Booking.Wire.periodFromLocalDates z dates.availableFrom dates.availableTo).map (fun period => some period)

/-- No block and no booking that holds the calendar shares an instant with the
wanted range, and absent where no dates were chosen. -/
def freeForDates (db : Database) (period : Option Period) (l : Listing) : Bool :=
  match period with
  | none => true
  | some wanted =>
    !(db.blocks.any (fun b => decide (b.listingId = l.id) && Period.rangeOverlaps b.period wanted)) &&
      !(db.bookings.any (fun bk => decide (bk.listingId = l.id) && occupiesCalendar bk.state &&
        Period.rangeOverlaps bk.period wanted))

/-- The row of a location joined to its listing, where the statement's predicates
hold. A location with no point is within no distance. -/
def joined (p : Provided) (db : Database) (origin : Point) (period : Option Period) (search : NearbySearch z)
    (loc : ListingLocation) (l : Listing) : Option DistanceRow :=
  loc.point.bind (fun point =>
    let fuzzedPoint : Point := ⟨point.fuzzedLatitude, point.fuzzedLongitude⟩
    if l.id = loc.listingId ∧ l.status = publiclyVisibleStatus ∧ l.moderationState = publiclyVisibleModeration ∧
        search.categoryId.all (fun categoryId => l.categoryId = categoryId) ∧
        search.keyword.all (fun keyword => p.matchesQuery l keyword) ∧ freeForDates db period l ∧
        p.stDWithin fuzzedPoint origin (milesToMetres search.radiusMiles) then
      some ⟨l.id, p.stDistance fuzzedPoint origin⟩
    else none)

def radiusRows (p : Provided) (db : Database) (origin : Point) (period : Option Period)
    (search : NearbySearch z) : List DistanceRow :=
  db.tables.locations.flatMap (fun loc => db.tables.listings.filterMap (joined p db origin period search loc))

def sortedRows (rows : List DistanceRow) : List DistanceRow :=
  rows.insertionSort (fun row row' => row.key ≤ row'.key)

/-- `none` for an origin that cannot be placed. -/
def findWithin (p : Provided) (db : Database) (search : NearbySearch z) :
    Except String (Option NearbyListingPage) :=
  match p.geocode search.originPostcode with
  | none => .ok none
  | some origin =>
    (searchedPeriod search.dates).map (fun period =>
      let rows := Paging.window (sortedRows (radiusRows p db origin period search))
        (Paging.probe search.window.limit) search.window.offset
      let page := Paging.fitTo rows search.window.limit
      some ⟨page.items.map toNearbyListing, page.truncated⟩)

structure PublicListingSummary where
  id : Id
  ownerId : Id
  categoryName : String
  currentFeePolicy : CategoryFeePolicy
  title : String
  rates : ListingRateCard
  outwardCode : String
  town : String
  deriving DecidableEq

/-- A listing with no district has no summary. The fees are those of its
category's current version. -/
def Tables.summaryOf (t : Tables) (l : Listing) : Option PublicListingSummary :=
  l.outwardCode.bind (fun outwardCode => l.town.bind (fun town =>
    (t.findVersion l.categoryVersionId).map (fun version =>
      ⟨l.id, l.ownerId, version.configuration.name,
        ((t.latest version.categoryId).getD version).configuration.feePolicy, l.details.title, l.details.rates,
        outwardCode, town⟩)))

def Tables.findPublishedSummaries (t : Tables) (ids : List Id) : List PublicListingSummary :=
  (t.listings.filter (fun l => l.id ∈ ids ∧ isPubliclyVisible l.status l.moderationState)).filterMap t.summaryOf

structure NearbyListingView where
  listing : PublicListingSummary
  ownerStatus : OwnerStatus
  distance : DistanceBucket
  deriving DecidableEq

structure NearbySearchResults where
  results : List NearbyListingView
  truncated : Bool
  deriving DecidableEq

inductive SearchFailure where
  | unknownCategory (slug : String)
  | time (message : String)
  deriving DecidableEq, Repr

/-- What becomes of one match: dropped where there is no summary of it, or where
its owner has not declared to be private. -/
def hydrate (db : Database) (summaries : List PublicListingSummary) (found : NearbyListing) :
    Option NearbyListingView :=
  (summaries.find? (fun summary => summary.id = found.listingId)).bind (fun listing =>
    match db.ownerStatus listing.ownerId with
    | some .privateOwner => some ⟨listing, .privateOwner, found.distance⟩
    | _ => none)

def resolveSearchCategory (t : Tables) : Option String → Except SearchFailure (Option Id)
  | none => .ok none
  | some slug =>
    match t.findCategory slug with
    | none => .error (.unknownCategory slug)
    | some category => .ok (some category.id)

def ListingSearchQuery.toNearbySearch (search : ListingSearchQuery z) (categoryId : Option Id) :
    NearbySearch z where
  originPostcode := search.postcode
  radiusMiles := search.radiusMiles
  categoryId := categoryId
  keyword := search.keyword
  dates := search.dates
  window := ⟨searchResultLimit, resultsToSkip search.page⟩

def searchNearby (p : Provided) (db : Database) (search : ListingSearchQuery z) :
    Except SearchFailure (Option NearbySearchResults) :=
  (resolveSearchCategory db.tables search.category).bind (fun categoryId =>
    match findWithin p db (search.toNearbySearch categoryId) with
    | .error message => .error (.time message)
    | .ok none => .ok none
    | .ok (some page) =>
      let summaries := db.tables.findPublishedSummaries (page.found.map (·.listingId))
      .ok (some ⟨page.found.filterMap (hydrate db summaries), page.truncated⟩))

end

section

variable {w : Wiring} {t t' : Tables} {d : Draw} {c c' : Call}

theorem writeLocation_ids {locations locations' : List ListingLocation} {listingId : Id}
    {edit : CollectionLocationEdit} (h : writeLocation w locations listingId edit = some locations')
    (hn : (locations.map (·.listingId)).Nodup) : (locations'.map (·.listingId)).Nodup := by
  cases edit with
  | cleared =>
    cases h
    exact hn.sublist (List.filter_sublist.map _)
  | addressOnly location =>
    simp only [writeLocation] at h
    split at h
    · cases h
      rw [List.map_map, List.map_congr_left (g := (·.listingId))]
      · exact hn
      · intro l _
        simp only [Function.comp_apply]
        split <;> rfl
    · cases h
  | relocated location point =>
    simp only [writeLocation] at h
    split at h
    · cases h
      rw [List.map_map, List.map_congr_left (g := (·.listingId))]
      · exact hn
      · intro l _
        simp only [Function.comp_apply]
        split
        · rename_i hid
          exact hid.symm
        · rfl
    · rename_i hnone
      cases h
      apply Keyed.nodup_append hn
      intro l hl hid
      exact hnone (List.any_eq_true.mpr ⟨l, hl, decide_eq_true hid⟩)

theorem not_mem_writeLocation_cleared {locations locations' : List ListingLocation} {listingId : Id}
    (h : writeLocation w locations listingId .cleared = some locations') :
    ∀ loc ∈ locations', loc.listingId ≠ listingId := by
  cases h
  intro loc hloc
  exact of_decide_eq_true (List.mem_filter.mp hloc).2

theorem publishableLocationColumns_isSome {edit : CollectionLocationEdit} (h : edit ≠ .cleared) :
    (publishableLocationColumns edit).1.isSome ∧ (publishableLocationColumns edit).2.isSome := by
  cases edit with
  | cleared => exact absurd rfl h
  | addressOnly location => exact ⟨rfl, rfl⟩
  | relocated location point => exact ⟨rfl, rfl⟩

theorem Tables.Districted.restated (hd : t.Districted) {listings : List Listing}
    (howned : ∀ loc ∈ t.locations, ∃ l ∈ listings, l.id = loc.listingId)
    (hfrom : ∀ l ∈ listings, ∃ l₀ ∈ t.listings, l₀.id = l.id ∧ l₀.outwardCode = l.outwardCode ∧
      l₀.town = l.town) : Tables.Districted { t with listings := listings } := by
  refine ⟨hd.locationIds, howned, ?_⟩
  intro loc hloc l hl hid
  obtain ⟨l₀, hl₀, hid₀, houtward, htown⟩ := hfrom l hl
  have hdistricts := hd.districts loc hloc l₀ hl₀ (hid₀.trans hid)
  rwa [houtward, htown] at hdistricts

/-- The district and the town are written with the location they are of. -/
theorem Moved.districted (h : Moved w t d c t' c') (hs : t.Sound) (hd : t.Districted) : t'.Districted := by
  have howned := h.owned hd.owned
  cases h with
  | drafted hfresh =>
    rename_i draft categoryId categoryVersionId answer
    have hnew : ∀ loc ∈ t.locations, loc.listingId ≠ d.id := by
      intro loc hloc hid
      obtain ⟨l, hl, hlid⟩ := hd.owned loc hloc
      exact hfresh l hl (hlid.trans hid)
    refine ⟨?_, howned, ?_⟩
    · cases hlocation : draft.collectionLocation with
      | none =>
        simpa using hd.locationIds
      | some location => exact Keyed.nodup_append hd.locationIds hnew
    · intro loc hloc l hl hid
      obtain hloc | hloc := List.mem_append.mp hloc
      · obtain hl | hl := List.mem_append.mp hl
        · exact hd.districts loc hloc l hl hid
        · rw [List.mem_singleton.mp hl] at hid
          exact absurd hid.symm (hnew loc hloc)
      · obtain ⟨location, hlocation, rfl⟩ := Option.map_eq_some_iff.mp (Option.mem_toList.mp hloc)
        obtain hl | hl := List.mem_append.mp hl
        · exact absurd hid (hfresh l hl)
        · rw [List.mem_singleton.mp hl, hlocation]
          exact ⟨rfl, rfl⟩
  | updated hrow hlocations =>
    rename_i p categoryVersionId row locations
    obtain ⟨hmem, hrowid, hrowowner⟩ := Tables.findRow_spec hrow
    refine ⟨writeLocation_ids hlocations hd.locationIds, howned, ?_⟩
    intro loc hloc l hl hid
    obtain ⟨hold, hother⟩ | ⟨l₀, hl₀, hid₀, -, rfl⟩ := mem_updateRows.mp hl
    · obtain ⟨loc₀, hloc₀, hlocid, -⟩ | ⟨hwritten, -⟩ := mem_writeLocation hlocations hloc
      · exact hd.districts loc₀ hloc₀ l hold (hid.trans hlocid.symm)
      · have hsame : l = row := hs.listing_eq hold hmem ((hid.trans hwritten).trans hrowid.symm)
        exact absurd ⟨hid.trans hwritten, hsame ▸ hrowowner⟩ hother
    · apply publishableLocationColumns_isSome
      intro hcleared
      rw [hcleared] at hlocations
      exact not_mem_writeLocation_cleared hlocations loc hloc (hid.symm.trans hid₀)
  | published hrow =>
    apply hd.restated howned
    intro l hl
    obtain ⟨hold, -⟩ | ⟨l₀, hl₀, -, -, rfl⟩ := mem_updateRows.mp hl
    · exact ⟨l, hold, rfl, rfl, rfl⟩
    · exact ⟨l₀, hl₀, rfl, rfl, rfl⟩
  | paused hrow =>
    apply hd.restated howned
    intro l hl
    obtain ⟨hold, -⟩ | ⟨l₀, hl₀, -, -, rfl⟩ := mem_updateRows.mp hl
    · exact ⟨l, hold, rfl, rfl, rfl⟩
    · exact ⟨l₀, hl₀, rfl, rfl, rfl⟩
  | _ => exact ⟨hd.locationIds, hd.owned, hd.districts⟩

theorem searchable_of_run {s₀ s : State} {as : List Action} (h₀ : s₀.tables.Sound)
    (hd : s₀.tables.Districted) (hidle : s₀.calls = []) (hr : run (machine w).step s₀ as = some s) :
    (s.tables.listings.map (·.id)).Nodup ∧
      (∀ l ∈ s.tables.listings, (s.tables.findVersion l.categoryVersionId).isSome) ∧ s.tables.Districted := by
  have hholds : Holds (fun t => t.Sound ∧ t.Districted) (Tables.Judged w) s := by
    refine Holds.after_run ?_ ?_ (holds_of_no_calls hidle ⟨h₀, hd⟩) hr
    · intro t r _
      cases r <;> trivial
    · intro t d c t' c' hs hc h
      have hmoved := next_moved h
      exact ⟨⟨hmoved.sound hs.1 hc, hmoved.districted hs.1 hs.2⟩, hmoved.judged hs.1 hc,
        fun c₂ hc₂ => hc₂.grows hmoved.grows⟩
  obtain ⟨⟨hs, hdistricted⟩, -⟩ := hholds
  refine ⟨hs.listingIds, ?_, hdistricted⟩
  intro l hl
  obtain ⟨v, hv, hid, -⟩ := hs.fits l hl
  rw [← hid, hs.findVersion hv]
  rfl

end

end RentalMarket.Catalogue
