import RentalMarket.Catalogue.Search

namespace RentalMarket.Catalogue

open RentalMarket.Core RentalMarket.Pricing RentalMarket.Civil
open RentalMarket.Booking (Period reasonUnavailable)

section

variable {z : Zone} {p : Provided} {db : Database} {origin : Point} {period : Option Period}

/-- A row of the radius query: a listing anybody may see, in the category, matching
the keyword, near enough, and free by the booking path's own answer. -/
def Found (p : Provided) (db : Database) (search : ListingSearchQuery z) (origin : Point)
    (period : Option Period) (row : DistanceRow) : Prop :=
  ∃ l ∈ db.tables.listings, ∃ loc ∈ db.tables.locations, ∃ point,
    loc.listingId = l.id ∧ loc.point = some point ∧ isPubliclyVisible l.status l.moderationState = true ∧
    (∀ slug c, search.category = some slug → db.tables.findCategory slug = some c → l.categoryId = c.id) ∧
    (∀ keyword, search.keyword = some keyword → p.matchesQuery l keyword = true) ∧
    (∀ wanted, period = some wanted → reasonUnavailable db.blocks db.bookings l.id wanted = none) ∧
    p.stDWithin ⟨point.fuzzedLatitude, point.fuzzedLongitude⟩ origin (milesToMetres search.radiusMiles) = true ∧
    row = ⟨l.id, p.stDistance ⟨point.fuzzedLatitude, point.fuzzedLongitude⟩ origin⟩

/-- The period the two dates of a search are, from the midnight of the first to the
midnight after the last. -/
def Spans (dates : Option (SearchDates z)) (period : Option Period) : Prop :=
  match dates with
  | none => period = none
  | some dates => ∃ d e : Date, dates.availableFrom = d.toISODate ∧ dates.availableTo = e.toISODate ∧
      period = some (Booking.periodFromLocalDates z d.number e.number)

/-- The row's listing is one whose owner has declared to be private. -/
def Database.declaredPrivate (db : Database) (row : DistanceRow) : Bool :=
  db.tables.listings.any (fun l => decide (l.id = row.listingId ∧ db.ownerStatus l.ownerId = some .privateOwner))

theorem freeForDates_iff {l : Listing} {wanted : Period} (hwanted : wanted.Nonempty) :
    freeForDates db (some wanted) l = true ↔ reasonUnavailable db.blocks db.bookings l.id wanted = none := by
  rw [Booking.reasonUnavailable_eq_none, Booking.isBlocked_eq_false, Booking.isBooked, List.any_eq_false,
    freeForDates, Bool.and_eq_true, Bool.not_eq_true', Bool.not_eq_true', List.any_eq_false, List.any_eq_false]
  apply and_congr
  · apply forall₂_congr
    intro b hb
    rw [Period.overlaps_eq_rangeOverlaps hwanted (db.blockEnds b hb), Period.rangeOverlaps_comm,
      Bool.and_eq_true, decide_eq_true_iff, not_and, Bool.not_eq_true]
  · apply forall₂_congr
    intro bk hbk
    rw [Period.overlaps_eq_rangeOverlaps hwanted (db.bookingEnds bk hbk), Period.rangeOverlaps_comm]

theorem joined_eq_some {search : NearbySearch z} {loc : ListingLocation} {l : Listing} {row : DistanceRow} :
    joined p db origin period search loc l = some row ↔ ∃ point, loc.point = some point ∧
      l.id = loc.listingId ∧ isPubliclyVisible l.status l.moderationState = true ∧
      search.categoryId.all (fun categoryId => l.categoryId = categoryId) = true ∧
      search.keyword.all (fun keyword => p.matchesQuery l keyword) = true ∧ freeForDates db period l = true ∧
      p.stDWithin ⟨point.fuzzedLatitude, point.fuzzedLongitude⟩ origin (milesToMetres search.radiusMiles) =
        true ∧
      row = ⟨l.id, p.stDistance ⟨point.fuzzedLatitude, point.fuzzedLongitude⟩ origin⟩ := by
  rw [joined, Option.bind_eq_some_iff]
  apply exists_congr
  intro point
  apply and_congr_right
  intro _
  rw [Option.ite_none_right_eq_some, Option.some.injEq, isPubliclyVisible, Bool.and_eq_true,
    decide_eq_true_iff, decide_eq_true_iff]
  constructor
  · rintro ⟨⟨hid, hstatus, hmoderation, hcategory, hkeyword, hfree, hwithin⟩, hrow⟩
    exact ⟨hid, ⟨hstatus, hmoderation⟩, hcategory, hkeyword, hfree, hwithin, hrow.symm⟩
  · rintro ⟨hid, ⟨hstatus, hmoderation⟩, hcategory, hkeyword, hfree, hwithin, hrow⟩
    exact ⟨⟨hid, hstatus, hmoderation, hcategory, hkeyword, hfree, hwithin⟩, hrow.symm⟩

/-- The query finds the rows it is about, and no others. -/
theorem mem_radiusRows {search : ListingSearchQuery z} {categoryId : Option Id} {row : DistanceRow}
    (hcategory : resolveSearchCategory db.tables search.category = .ok categoryId)
    (hperiod : ∀ wanted, period = some wanted → wanted.Nonempty) :
    row ∈ radiusRows p db origin period (search.toNearbySearch categoryId) ↔
      Found p db search origin period row := by
  have hin : ∀ l : Listing, categoryId.all (fun categoryId => l.categoryId = categoryId) = true ↔
      ∀ slug c, search.category = some slug → db.tables.findCategory slug = some c → l.categoryId = c.id := by
    intro l
    cases hslug : search.category with
    | none =>
      rw [hslug] at hcategory
      cases hcategory
      simp
    | some slug =>
      rw [hslug, resolveSearchCategory] at hcategory
      cases hc : db.tables.findCategory slug with
      | none =>
        rw [hc] at hcategory
        cases hcategory
      | some c =>
        rw [hc] at hcategory
        cases hcategory
        rw [Option.all_some, decide_eq_true_iff]
        constructor
        · rintro h slug c' ⟨⟩ hc'
          rw [hc] at hc'
          cases hc'
          exact h
        · intro h
          exact h slug c rfl hc
  have hfree : ∀ l : Listing, freeForDates db period l = true ↔
      ∀ wanted, period = some wanted → reasonUnavailable db.blocks db.bookings l.id wanted = none := by
    intro l
    cases period with
    | none => simp [freeForDates]
    | some wanted =>
      rw [freeForDates_iff (hperiod wanted rfl)]
      simp
  have hkeyword : ∀ l : Listing, search.keyword.all (fun keyword => p.matchesQuery l keyword) = true ↔
      ∀ keyword, search.keyword = some keyword → p.matchesQuery l keyword = true := by
    intro l
    cases search.keyword <;> simp
  simp only [radiusRows, List.mem_flatMap, List.mem_filterMap, joined_eq_some]
  constructor
  · rintro ⟨loc, hloc, l, hl, point, hpoint, hid, hvisible, hincategory, hmatches, hisfree, hwithin, hrow⟩
    exact ⟨l, hl, loc, hloc, point, hid.symm, hpoint, hvisible, (hin l).mp hincategory,
      (hkeyword l).mp hmatches, (hfree l).mp hisfree, hwithin, hrow⟩
  · rintro ⟨l, hl, loc, hloc, point, hid, hpoint, hvisible, hincategory, hmatches, hisfree, hwithin, hrow⟩
    exact ⟨loc, hloc, l, hl, point, hpoint, hid.symm, hvisible, (hin l).mpr hincategory,
      (hkeyword l).mpr hmatches, (hfree l).mpr hisfree, hwithin, hrow⟩

theorem radiusRows_nodup (search : NearbySearch z) :
    ((radiusRows p db origin period search).map (·.listingId)).Nodup := by
  have hid : ∀ loc l row, joined p db origin period search loc l = some row →
      row.listingId = l.id ∧ row.listingId = loc.listingId := by
    intro loc l row h
    obtain ⟨point, -, hid, -, -, -, -, -, rfl⟩ := joined_eq_some.mp h
    exact ⟨rfl, hid⟩
  rw [radiusRows, List.map_flatMap, List.nodup_flatMap]
  constructor
  · intro loc _
    apply Keyed.nodup_filterMap db.listingIds
    intro l row h
    exact (hid loc l row h).1
  · have hlocations := db.districted.locationIds
    rw [List.Nodup, List.pairwise_map] at hlocations
    apply hlocations.imp
    intro loc loc' hne
    apply List.disjoint_left.mpr
    intro id hid₁ hid₂
    obtain ⟨row, hrow, rfl⟩ := List.mem_map.mp hid₁
    obtain ⟨row', hrow', hsame⟩ := List.mem_map.mp hid₂
    obtain ⟨l, -, hl⟩ := List.mem_filterMap.mp hrow
    obtain ⟨l', -, hl'⟩ := List.mem_filterMap.mp hrow'
    apply hne
    rw [← (hid loc l row hl).2, ← (hid loc' l' row' hl').2, hsame]

theorem sortedRows_pairwise {rows : List DistanceRow} (h : (rows.map (·.listingId)).Nodup) :
    (sortedRows rows).Pairwise (fun row row' => row.key < row'.key) := by
  have hperm := List.perm_insertionSort (fun row row' : DistanceRow => row.key ≤ row'.key) rows
  have hsorted : (sortedRows rows).Pairwise (fun row row' => row.key ≤ row'.key) := by
    have htotal : Std.Total (fun row row' : DistanceRow => row.key ≤ row'.key) :=
      ⟨fun row row' => le_total row.key row'.key⟩
    have htrans : IsTrans DistanceRow (fun row row' => row.key ≤ row'.key) :=
      ⟨fun _ _ _ => le_trans⟩
    exact List.pairwise_insertionSort (fun row row' : DistanceRow => row.key ≤ row'.key) rows
  have hdistinct : ((sortedRows rows).map (·.listingId)).Nodup := (hperm.map _).nodup_iff.mpr h
  rw [List.Nodup, List.pairwise_map] at hdistinct
  apply (hsorted.and hdistinct).imp
  rintro row row' ⟨hle, hne⟩
  apply lt_of_le_of_ne hle
  intro hkey
  exact hne (congrArg (fun key => (ofLex key).2) hkey)

theorem summaryOf_eq_some (t : Tables) {l : Listing} (houtward : l.outwardCode.isSome) (htown : l.town.isSome)
    (hversion : (t.findVersion l.categoryVersionId).isSome) :
    ∃ summary, t.summaryOf l = some summary ∧ summary.ownerId = l.ownerId := by
  obtain ⟨outwardCode, houtward⟩ := Option.isSome_iff_exists.mp houtward
  obtain ⟨town, htown⟩ := Option.isSome_iff_exists.mp htown
  obtain ⟨version, hversion⟩ := Option.isSome_iff_exists.mp hversion
  rw [Tables.summaryOf, houtward, htown, hversion]
  exact ⟨_, rfl, rfl⟩

theorem summaryOf_id {t : Tables} {l : Listing} {summary : PublicListingSummary}
    (h : t.summaryOf l = some summary) : summary.id = l.id := by
  obtain ⟨outwardCode, -, h⟩ := Option.bind_eq_some_iff.mp h
  obtain ⟨town, -, h⟩ := Option.bind_eq_some_iff.mp h
  obtain ⟨version, -, rfl⟩ := Option.map_eq_some_iff.mp h
  rfl

/-- Nothing the query found is lost on the way, except for its owner. -/
theorem hydrate_found {search : ListingSearchQuery z} {ids : List Id} {row : DistanceRow}
    (h : Found p db search origin period row) (hid : row.listingId ∈ ids) :
    (hydrate db (db.tables.findPublishedSummaries ids) (toNearbyListing row)).map
        (fun view => (view.listing.id, view.distance)) =
      if db.declaredPrivate row then some (row.listingId, bucketDistance row.metres) else none := by
  obtain ⟨l, hl, loc, hloc, point, hlocid, -, hvisible, -, -, -, -, rfl⟩ := h
  obtain ⟨houtward, htown⟩ := db.districted.districts loc hloc l hl hlocid.symm
  obtain ⟨summary, hsummary, howner⟩ := summaryOf_eq_some db.tables houtward htown (db.pinned l hl)
  have hmem : summary ∈ db.tables.findPublishedSummaries ids := by
    apply List.mem_filterMap.mpr
    exact ⟨l, List.mem_filter.mpr ⟨hl, decide_eq_true ⟨hid, hvisible⟩⟩, hsummary⟩
  have hkeys : ((db.tables.findPublishedSummaries ids).map (·.id)).Nodup := by
    apply Keyed.nodup_filterMap (db.listingIds.sublist (List.filter_sublist.map _))
    intro l summary
    exact summaryOf_id
  have hfind : (db.tables.findPublishedSummaries ids).find? (fun summary => summary.id = l.id) = some summary := by
    have hfind := Keyed.find?_key hkeys hmem
    rwa [summaryOf_id hsummary] at hfind
  have hprivate : db.declaredPrivate ⟨l.id, p.stDistance ⟨point.fuzzedLatitude, point.fuzzedLongitude⟩ origin⟩ =
      decide (db.ownerStatus l.ownerId = some .privateOwner) := by
    rw [Bool.eq_iff_iff, Database.declaredPrivate, List.any_eq_true, decide_eq_true_iff]
    constructor
    · rintro ⟨l', hl', h⟩
      obtain ⟨hid', hstatus⟩ := of_decide_eq_true h
      rwa [Keyed.eq_of_key db.listingIds hl' hl hid'] at hstatus
    · intro h
      exact ⟨l, hl, decide_eq_true ⟨rfl, h⟩⟩
  rw [hprivate, hydrate, toNearbyListing, hfind, Option.bind_some, howner]
  split
  · rename_i hstatus
    rw [hstatus, if_pos (decide_eq_true rfl), Option.map_some, summaryOf_id hsummary]
  · rename_i hstatus
    rw [if_neg (fun h => hstatus (of_decide_eq_true h)), Option.map_none]

theorem SearchDates.written (dates : SearchDates z) : ∃ d e : Date, dates.availableFrom = d.toISODate ∧
    dates.availableTo = e.toISODate ∧ d.Written ∧ e.Written ∧ d.number ≤ e.number := by
  obtain ⟨days, hdays, -⟩ := dates.short
  obtain ⟨startAt, hstart, hdays⟩ := Refusal.bind_eq_ok.mp hdays
  obtain ⟨endAt, hend, -⟩ := Refusal.bind_eq_ok.mp hdays
  obtain ⟨d, hd, hdw, -⟩ := Time.startOfLocalDay_eq_ok.mp hstart
  obtain ⟨e, he, hew, -⟩ := Time.startOfLocalDay_eq_ok.mp hend
  have hordered := dates.ordered
  rw [hd, he, not_lt] at hordered
  exact ⟨d, e, hd, he, hdw, hew, (Date.toISODate_le_iff hdw hew).mp hordered⟩

theorem searchedPeriod_ok_iff (dates : Option (SearchDates z)) :
    (∃ period, searchedPeriod dates = .ok period) ↔
      ∀ d, dates = some d → d.availableTo ≠ "9999-12-31" := by
  cases dates with
  | none => simp [searchedPeriod]
  | some dates =>
    obtain ⟨d, e, hd, he, hdw, hew, hle⟩ := dates.written
    have hperiod : (∃ period, searchedPeriod (some dates) = .ok period) ↔
        ∃ wanted, Booking.Wire.periodFromLocalDates z dates.availableFrom dates.availableTo = .ok wanted := by
      constructor
      · rintro ⟨period, h⟩
        obtain ⟨wanted, h, -⟩ := Refusal.map_eq_ok.mp h
        exact ⟨wanted, h⟩
      · rintro ⟨wanted, h⟩
        exact ⟨_, Refusal.map_eq_ok.mpr ⟨wanted, h, rfl⟩⟩
    rw [hperiod, Booking.Wire.exists_period_iff hd he hdw hew]
    simp

theorem searchedPeriod_nonempty {dates : Option (SearchDates z)} (h : searchedPeriod dates = .ok period) :
    ∀ wanted, period = some wanted → wanted.Nonempty := by
  rintro wanted rfl
  cases dates with
  | none => cases h
  | some dates =>
    obtain ⟨wanted', h, hsame⟩ := Refusal.map_eq_ok.mp h
    cases hsame
    obtain ⟨d, e, hd, he, hdw, hew, -, rfl⟩ := Booking.Wire.periodFromLocalDates_eq_ok.mp h
    have hordered := dates.ordered
    rw [hd, he, not_lt] at hordered
    exact Booking.periodFromLocalDates_nonempty z ((Date.toISODate_le_iff hdw hew).mp hordered)

theorem spans_of_searchedPeriod {dates : Option (SearchDates z)} (h : searchedPeriod dates = .ok period) :
    Spans dates period := by
  cases dates with
  | none =>
    cases h
    rfl
  | some dates =>
    obtain ⟨wanted, hwanted, rfl⟩ := Refusal.map_eq_ok.mp h
    obtain ⟨d, e, hd, he, -, -, -, rfl⟩ := Booking.Wire.periodFromLocalDates_eq_ok.mp hwanted
    exact ⟨d, e, hd, he, rfl⟩

def pageOf (db : Database) (found : List DistanceRow) (page : Nat) : NearbySearchResults :=
  let window := Paging.window found searchResultLimit (resultsToSkip page)
  let summaries := db.tables.findPublishedSummaries (window.map (·.listingId))
  ⟨(window.map toNearbyListing).filterMap (hydrate db summaries),
    decide (resultsToSkip page + searchResultLimit < found.length)⟩

theorem findWithin_eq_ok {search : NearbySearch z} (horigin : p.geocode search.originPostcode = some origin)
    (hperiod : searchedPeriod search.dates = .ok period) :
    findWithin p db search = .ok (some
      ⟨(Paging.window (sortedRows (radiusRows p db origin period search)) search.window.limit
          search.window.offset).map toNearbyListing,
        decide (search.window.offset + search.window.limit <
          (sortedRows (radiusRows p db origin period search)).length)⟩) := by
  rw [findWithin, horigin, hperiod]
  simp only [Except.map, Paging.fitTo_probe]

theorem searchNearby_eq_ok {search : ListingSearchQuery z} {categoryId : Option Id}
    (horigin : p.geocode search.postcode = some origin)
    (hcategory : resolveSearchCategory db.tables search.category = .ok categoryId)
    (hperiod : searchedPeriod search.dates = .ok period) :
    searchNearby p db search =
      .ok (some (pageOf db (sortedRows (radiusRows p db origin period (search.toNearbySearch categoryId)))
        search.page)) := by
  have hids : ∀ rows : List DistanceRow,
      (rows.map toNearbyListing).map (·.listingId) = rows.map (·.listingId) := by
    intro rows
    rw [List.map_map]
    rfl
  have hwithin : findWithin p db (search.toNearbySearch categoryId) = _ := findWithin_eq_ok horigin hperiod
  rw [searchNearby, hcategory]
  simp only [Except.bind, hwithin, hids]
  rfl

theorem searchNearby_eq_error {search : ListingSearchQuery z} {categoryId : Option Id} {message : String}
    (horigin : p.geocode search.postcode = some origin)
    (hcategory : resolveSearchCategory db.tables search.category = .ok categoryId)
    (hperiod : searchedPeriod search.dates = .error message) :
    searchNearby p db search = .error (.time message) := by
  have hwithin : findWithin p db (search.toNearbySearch categoryId) = .error message := by
    simp only [findWithin, ListingSearchQuery.toNearbySearch, horigin, hperiod, Except.map]
  rw [searchNearby, hcategory]
  simp only [Except.bind, hwithin]

theorem pageOf_results {search : ListingSearchQuery z} {found : List DistanceRow}
    (hfound : ∀ row ∈ found, Found p db search origin period row) (page : Nat) :
    (pageOf db found page).results.map (fun view => (view.listing.id, view.distance)) =
      ((Paging.window found searchResultLimit (resultsToSkip page)).filter db.declaredPrivate).map
        (fun row => (row.listingId, bucketDistance row.metres)) := by
  have hwindow : ∀ row ∈ Paging.window found searchResultLimit (resultsToSkip page),
      Found p db search origin period row := by
    intro row hrow
    exact hfound row (List.mem_of_mem_drop (List.mem_of_mem_take hrow))
  rw [pageOf, List.filterMap_map, List.map_filterMap, ← List.filterMap_eq_filter, List.map_filterMap]
  apply List.filterMap_congr
  intro row hrow
  rw [Function.comp_apply, hydrate_found (hwindow row hrow) (List.mem_map_of_mem hrow), Option.guard]
  split
  · rfl
  · rfl

/-- The pages of a search are cut from one list, nearest first: the rows of the
radius query, each once. Together the first pages show what private owners have
among the rows they cover, and a page says there is more exactly when there is. -/
def PagesAgree (p : Provided) (db : Database) (search : ListingSearchQuery z) (origin : Point) : Prop :=
  ∃ period, Spans search.dates period ∧ ∃ found : List DistanceRow,
    found.Pairwise (fun row row' => row.key < row'.key) ∧ (found.map (·.listingId)).Nodup ∧
    (∀ row, row ∈ found ↔ Found p db search origin period row) ∧ ∃ pages : Nat → NearbySearchResults,
      (∀ page first_le le_max,
        searchNearby p db (search.onPage page first_le le_max) = .ok (some (pages page)) ∧
        ((pages page).truncated = true ↔ page * searchPageSize < found.length)) ∧
      ∀ count ≤ maxSearchPage,
        ((List.range' firstSearchPage count).flatMap (fun page => (pages page).results)).map
            (fun view => (view.listing.id, view.distance)) =
          ((found.take (count * searchPageSize)).filter db.declaredPrivate).map
            (fun row => (row.listingId, bucketDistance row.metres))

theorem not_pagesAgree_of_error {search : ListingSearchQuery z} {failure : SearchFailure}
    (h : searchNearby p db search = .error failure) : ¬PagesAgree p db search origin := by
  rintro ⟨period, -, found, -, -, -, pages, hpages, -⟩
  have hpage := (hpages search.page search.first_le search.le_max).1
  rw [ListingSearchQuery.onPage, h] at hpage
  cases hpage

theorem pagesAgree_of_period {search : ListingSearchQuery z} {categoryId : Option Id}
    (horigin : p.geocode search.postcode = some origin)
    (hcategory : resolveSearchCategory db.tables search.category = .ok categoryId)
    (hperiod : searchedPeriod search.dates = .ok period) : PagesAgree p db search origin := by
  let found := sortedRows (radiusRows p db origin period (search.toNearbySearch categoryId))
  have hperm : found.Perm (radiusRows p db origin period (search.toNearbySearch categoryId)) :=
    List.perm_insertionSort _ _
  have hfound : ∀ row, row ∈ found ↔ Found p db search origin period row := by
    intro row
    rw [hperm.mem_iff]
    exact mem_radiusRows hcategory (searchedPeriod_nonempty hperiod)
  have hnodup : ((radiusRows p db origin period (search.toNearbySearch categoryId)).map (·.listingId)).Nodup :=
    radiusRows_nodup _
  refine ⟨period, spans_of_searchedPeriod hperiod, found, sortedRows_pairwise hnodup, (hperm.map _).nodup_iff.mpr hnodup, hfound,
    pageOf db found, ?_, ?_⟩
  · intro page first_le le_max
    constructor
    · exact searchNearby_eq_ok horigin hcategory hperiod
    · simp only [firstSearchPage] at first_le
      rw [pageOf, decide_eq_true_iff, resultsToSkip, searchResultLimit, firstSearchPage, ← Nat.succ_mul,
        Nat.succ_eq_add_one, Nat.sub_add_cancel first_le]
  · intro count _
    rw [List.map_flatMap]
    simp only [pageOf_results (fun row hrow => (hfound row).mp hrow)]
    rw [← List.map_flatMap, ← List.filter_flatMap, ← Paging.flatMap_window, List.range'_eq_map_range,
      List.flatMap_map]
    simp only [resultsToSkip, searchResultLimit, Nat.add_sub_cancel_left]

end

/-- PostGIS along one meridian, and a text search that knows titles. -/
def sampleProvided : Provided where
  geocode _ := some ⟨54, -1⟩
  stDistance a b := |a.latitude - b.latitude| * 111320
  stDWithin a b metres := decide (|a.latitude - b.latitude| * 111320 ≤ metres)
  matchesQuery l keyword := decide (l.details.title = keyword)

/-- Three mowers, of which one is a trader's and one is blocked for a week. -/
def sampleDatabase : Database where
  tables := (sampleStart
    [sampleListing .published "A petrol mower", { sampleListing .published "A rotary mower" with
      id := "rotary", ownerId := "tom" }, { sampleListing .published "A hand mower" with id := "hand" }]
    [sampleLocation ⟨0, 600⟩, { sampleLocation ⟨0, 500⟩ with listingId := "rotary" },
      { sampleLocation ⟨0, 2600⟩ with listingId := "hand" }]).tables
  blocks := [⟨"k1", "hand", Booking.periodFromLocalDates Zone.utc 738975 738981, none⟩]
  bookings := []
  ownerStatus id := if id = "tom" then some .professionalTrader else some .privateOwner
  listingIds := by decide +kernel
  pinned := by decide +kernel
  districted := ⟨by decide +kernel, by decide +kernel, by decide +kernel⟩
  blockEnds := by simpa using Booking.periodFromLocalDates_nonempty Zone.utc (by decide)
  bookingEnds := by simp

def sampleSearch (dates : Option (SearchDates Zone.utc)) : ListingSearchQuery Zone.utc where
  postcode := "YO1 7HH"
  radiusMiles := 5
  page := 1
  category := some "mowers"
  keyword := none
  dates := dates
  radius := by decide
  first_le := by decide
  le_max := by decide

def weekend : SearchDates Zone.utc :=
  ⟨"2024-03-30", "2024-03-31", by decide +kernel, 2, by decide +kernel, by decide +kernel⟩

def lastDay : SearchDates Zone.utc :=
  ⟨"9999-12-31", "9999-12-31", by decide +kernel, 2, by decide +kernel, by decide +kernel⟩

section

variable {z : Zone} {p : Provided} {db : Database} {origin : Point}

/-- For a search that has an origin and names a known category, the pages agree with
the booking path unless its dates end on the last day of the calendar. -/
theorem search_pages_agree_iff {search : ListingSearchQuery z} (horigin : p.geocode search.postcode = some origin)
    (hcategory : ∀ slug, search.category = some slug → (db.tables.findCategory slug).isSome) :
    PagesAgree p db search origin ↔ ∀ dates, search.dates = some dates → dates.availableTo ≠ "9999-12-31" := by
  have hresolved : ∃ categoryId, resolveSearchCategory db.tables search.category = .ok categoryId := by
    cases hslug : search.category with
    | none => exact ⟨none, rfl⟩
    | some slug =>
      obtain ⟨c, hc⟩ := Option.isSome_iff_exists.mp (hcategory slug hslug)
      refine ⟨some c.id, ?_⟩
      rw [resolveSearchCategory, hc]
  obtain ⟨categoryId, hcategoryId⟩ := hresolved
  rw [← searchedPeriod_ok_iff]
  constructor
  · intro hagree
    cases hperiod : searchedPeriod search.dates with
    | ok period => exact ⟨period, rfl⟩
    | error message =>
      exact absurd hagree (not_pagesAgree_of_error (searchNearby_eq_error horigin hcategoryId hperiod))
  · rintro ⟨period, hperiod⟩
    exact pagesAgree_of_period horigin hcategoryId hperiod

end

theorem a_weekend_is_searched : PagesAgree sampleProvided sampleDatabase (sampleSearch (some weekend)) ⟨54, -1⟩ := by
  refine (search_pages_agree_iff rfl ?_).mpr ?_
  · rintro slug ⟨⟩
    decide +kernel
  · rintro dates ⟨⟩
    decide +kernel

/-- A search for the last day the contract accepts is answered by an error. -/
theorem a_search_for_the_last_day_throws :
    searchNearby sampleProvided sampleDatabase (sampleSearch (some lastDay)) =
      .error (.time "Not a valid calendar date: +010000-01-01") ∧
    ¬PagesAgree sampleProvided sampleDatabase (sampleSearch (some lastDay)) ⟨54, -1⟩ := by
  have hcategory : resolveSearchCategory sampleDatabase.tables (some "mowers") = .ok (some "cat") := by
    decide +kernel
  have hperiod : searchedPeriod (some lastDay) = .error "Not a valid calendar date: +010000-01-01" := by
    decide +kernel
  have herror : searchNearby sampleProvided sampleDatabase (sampleSearch (some lastDay)) =
      .error (.time "Not a valid calendar date: +010000-01-01") :=
    searchNearby_eq_error rfl hcategory hperiod
  exact ⟨herror, not_pagesAgree_of_error herror⟩

end RentalMarket.Catalogue
