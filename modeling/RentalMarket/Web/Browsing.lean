import RentalMarket.Catalogue.SearchPages
import RentalMarket.Catalogue.SearchUrl
import RentalMarket.Pricing.DailyPrice
import RentalMarket.Lib.Runs

namespace RentalMarket.Web

open RentalMarket.Core RentalMarket.Pricing RentalMarket.Catalogue Script Runs

section Links

variable {z : Zone}

def searchPage (search : ListingSearchQuery z) : SearchPage := ⟨search.page, search.first_le, search.le_max⟩

def searchRadius (search : ListingSearchQuery z) : SearchRadius := ⟨search.radiusMiles, search.radius⟩

def atPage (search : ListingSearchQuery z) : SearchPage → ListingSearchQuery z
  | ⟨page, isPage⟩ => search.onPage page isPage.1 isPage.2

theorem firstSearchPage_isPage : firstSearchPage ≤ firstSearchPage ∧ firstSearchPage ≤ maxSearchPage := by
  decide

def firstPage : SearchPage := ⟨firstSearchPage, firstSearchPage_isPage⟩

def nextSearchPage (page : SearchPage) : Option SearchPage :=
  if h : maxSearchPage ≤ page.1 then none else some ⟨page.1 + 1, Nat.le_succ_of_le page.2.1, Nat.lt_of_not_le h⟩

def previousSearchPage (page : SearchPage) : Option SearchPage :=
  if h : page.1 ≤ firstSearchPage then none
  else some ⟨page.1 - 1, Nat.le_sub_one_of_lt (Nat.lt_of_not_le h), (Nat.sub_le _ _).trans page.2.2⟩

def widerRadius (radius : SearchRadius) : Option SearchRadius :=
  match h : searchRadiiMiles[searchRadiiMiles.idxOf radius.1 + 1]? with
  | none => none
  | some next => some ⟨next, List.mem_of_getElem? h⟩

def browseHref (search : ListingSearchQuery z) : String := "/browse" ++ "?" ++ listingSearchQueryString search

def publicListingSearchPath (search : ListingSearchQuery z) : String :=
  "/public/listings" ++ "?" ++ listingSearchQueryString search

def nextSearchHref (search : ListingSearchQuery z) (hasMore : Bool) : Option (String × SearchPage) :=
  match nextSearchPage (searchPage search) with
  | none => none
  | some next => if hasMore then some (browseHref (atPage search next), next) else none

def previousSearchHref (search : ListingSearchQuery z) : Option (String × SearchPage) :=
  (previousSearchPage (searchPage search)).map (fun previous => (browseHref (atPage search previous), previous))

def withRadius (search : ListingSearchQuery z) : SearchRadius → ListingSearchQuery z
  | ⟨radiusMiles, radius⟩ => { search with radiusMiles := radiusMiles, radius := radius }

def widerSearchHref (search : ListingSearchQuery z) : Option (String × SearchRadius) :=
  (widerRadius (searchRadius search)).map (fun wider => (browseHref (atPage (withRadius search wider) firstPage), wider))

end Links

structure ListingCard where
  id : Id
  title : String
  categoryName : String
  outwardCode : String
  town : String
  inclusiveDailyPrice : InclusiveDailyPrice
  distance : DistanceBucket
  ownerStatus : OwnerStatus
  deriving DecidableEq

inductive SearchOriginStatus where
  | placed
  | unplaceable
  deriving DecidableEq, Repr

structure PublicListingSearchResults (z : Zone) where
  results : List ListingCard
  truncated : Bool
  radiusMiles : SearchRadius
  page : SearchPage
  category : Option String
  keyword : Option String
  dates : Option (SearchDates z)
  originStatus : SearchOriginStatus

structure PublicCategory where
  slug : String
  name : String
  deriving DecidableEq, Repr

/-- What goes on behind a visit to the page: what is in the tables by then, and
which of the reads come off. -/
structure Visit where
  db : Database
  categoriesRead : Bool
  searchRead : Bool
  geocodes : Bool

/-- A geocoder that is down places nothing. -/
def Visit.placing (v : Visit) (p : Provided) : Provided := if v.geocodes then p else { p with geocode := fun _ => none }

section Page

variable {z : Zone} (p : Provided)

def toSummary (view : NearbyListingView) : Except String ListingCard :=
  (inclusiveDailyPrice exactPercentageOf view.listing.rates view.listing.currentFeePolicy).bind (fun price =>
    match price with
    | none => .error ("Listing " ++ view.listing.id ++
        " is published with no daily rate, which publication should have refused")
    | some price => .ok ⟨view.listing.id, view.listing.title, view.listing.categoryName, view.listing.outwardCode,
        view.listing.town, price, view.distance, view.ownerStatus⟩)

def answerTo (request : ListingSearchQuery z) (results : List ListingCard) (truncated : Bool)
    (originStatus : SearchOriginStatus) : PublicListingSearchResults z :=
  ⟨results, truncated, searchRadius request, searchPage request, request.category, request.keyword, request.dates,
    originStatus⟩

/-- What `search` answers to a request that parses: the results, or the status of the
refusal. -/
def answerSearch (db : Database) (request : ListingSearchQuery z) : Except Nat (PublicListingSearchResults z) :=
  match searchNearby p db request with
  | .error (.unknownCategory _) => .error 400
  | .error (.time _) => .error 500
  | .ok none => .ok (answerTo request [] false .unplaceable)
  | .ok (some found) =>
    match found.results.mapM toSummary with
    | .error _ => .error 500
    | .ok results => .ok (answerTo request results found.truncated .placed)

/-- `PublicListingSearchController.search` -/
def search (z : Zone) (db : Database) (query : Record String) : Except Nat (PublicListingSearchResults z) :=
  match parseListingSearchQuery z query with
  | none => .error 400
  | some request => answerSearch p db request

def queryOf (url : String) : List Char := (url.toList.dropWhile (fun c => c ≠ '?')).tail

/-- Any answer but the results is `unreachable`. -/
def fetchListingSearch (db : Database) (asked : ListingSearchQuery z) : Option (PublicListingSearchResults z) :=
  (Percent.decodeQuery true (queryOf (publicListingSearchPath asked))).bind (fun query => (search p z db query).toOption)

def categoryListLimit : Nat := 500

def listCategoryNames (t : Tables) (limit : Nat) : List PublicCategory :=
  (t.categories.take limit).filterMap (fun c => (t.latest c.id).map (fun v => ⟨c.slug, v.configuration.name⟩))

def publicCategories (t : Tables) : List PublicCategory :=
  (Paging.fitTo (listCategoryNames t (Paging.probe categoryListLimit)) categoryListLimit).items

def categoryOptions (v : Visit) : List PublicCategory := if v.categoriesRead then publicCategories v.db.tables else []

/-- With no categories to go by the answer is left to the API. -/
def namesAnUnknownCategory (category : Option String) (known : List PublicCategory) : Bool :=
  match category with
  | none => false
  | some slug => if known = [] then false else !known.any (fun candidate => candidate.slug = slug)

def first (params : Record String) (name : String) : Option String :=
  (params.get name).filter (fun value => trim value ≠ "")

def submitted (params : Record String) : Record String :=
  parameterNames.filterMap (fun name => (first params name).map (fun value => (name, value)))

inductive BrowsePage (z : Zone) where
  /-- Nothing has been typed yet. -/
  | prompt
  | refused
  | unknownCategory (search : ListingSearchQuery z)
  | unavailable
  | couldNotSearch (postcode : String)
  | nothingFound (search : ListingSearchQuery z)
  | nothingFurther (search : ListingSearchQuery z)
  | found (search : ListingSearchQuery z) (cards : List ListingCard) (truncated : Bool)

/-- The search on the page is the one that was answered. Only its postcode is the asker's. -/
def browseResults (asked : ListingSearchQuery z) (results : PublicListingSearchResults z) : BrowsePage z :=
  let current : ListingSearchQuery z :=
    ⟨asked.postcode, results.radiusMiles.1, results.page.1, results.category, results.keyword, results.dates,
      results.radiusMiles.2, results.page.2.1, results.page.2.2⟩
  if results.originStatus = .unplaceable then .couldNotSearch current.postcode
  else if results.results = [] then
    if current.page = firstSearchPage then .nothingFound current else .nothingFurther current
  else .found current results.results results.truncated

def browsePage (z : Zone) (v : Visit) (params : Record String) : BrowsePage z :=
  match first params "postcode" with
  | none => .prompt
  | some _ =>
    match parseListingSearchQuery z (submitted params) with
    | none => .refused
    | some asked =>
      if namesAnUnknownCategory asked.category (categoryOptions v) then .unknownCategory asked
      else
        match if v.searchRead then fetchListingSearch (v.placing p) v.db asked else none with
        | none => .unavailable
        | some results => browseResults asked results

inductive Offer where
  | previous
  | next
  /-- Start again from the first page. -/
  | startAgain
  | withoutKeyword
  | allCategories
  | wider
  deriving DecidableEq, Repr

def BrowsePage.links : BrowsePage z → List (Offer × String)
  | nothingFound search =>
    (if search.keyword = none then [] else
      [(.withoutKeyword, browseHref (atPage { search with keyword := none } firstPage))]) ++
    (if search.category = none then [] else
      [(.allCategories, browseHref (atPage { search with category := none } firstPage))]) ++
    ((widerSearchHref search).map (fun wider => (.wider, wider.1))).toList
  | nothingFurther search => [(.startAgain, browseHref (atPage search firstPage))]
  | found search _ truncated =>
    ((previousSearchHref search).map (fun previous => (.previous, previous.1))).toList ++
      ((nextSearchHref search truncated).map (fun next => (.next, next.1))).toList
  | prompt | refused | unknownCategory _ | unavailable | couldNotSearch _ => []

/-- A link is followed, on a visit of its own. -/
def follow (page : BrowsePage z) (a : Offer × Visit) : Option (BrowsePage z) :=
  (page.links.find? (fun link => link.1 = a.1)).bind (fun link =>
    (Percent.decodeQuery true (queryOf link.2)).map (browsePage p z a.2))

def Offer.target (search : ListingSearchQuery z) : Offer → Option (ListingSearchQuery z)
  | previous => (previousSearchPage (searchPage search)).map (atPage search)
  | next => (nextSearchPage (searchPage search)).map (atPage search)
  | startAgain => some (atPage search firstPage)
  | withoutKeyword => some (atPage { search with keyword := none } firstPage)
  | allCategories => some (atPage { search with category := none } firstPage)
  | wider => (widerRadius (searchRadius search)).map (fun wider => atPage (withRadius search wider) firstPage)

def BrowsePage.shows : BrowsePage z → Option (ListingSearchQuery z)
  | nothingFound search | nothingFurther search | found search _ _ => some search
  | prompt | refused | unknownCategory _ | unavailable | couldNotSearch _ => none

/-- A page that answers a search, if only by saying that there is no searching from there. -/
def BrowsePage.Answers (search : ListingSearchQuery z) (page : BrowsePage z) : Prop :=
  page.shows = some search ∨ page = .couldNotSearch search.postcode

end Page

section

variable {z : Zone} {p : Provided} {db db' : Database} {v : Visit} {asked search target : ListingSearchQuery z}
  {page : BrowsePage z}

theorem queryOf_append {path : String} (h : '?' ∉ path.toList) (query : String) :
    queryOf (path ++ "?" ++ query) = query.toList := by
  rw [queryOf, String.toList_append, String.toList_append, List.append_assoc, List.dropWhile_append_of_pos]
  · rfl
  · intro c hc
    apply decide_eq_true
    rintro rfl
    exact h hc

theorem decodeQuery_browseHref (search : ListingSearchQuery z) :
    Percent.decodeQuery true (queryOf (browseHref search)) = some (parametersOf search) := by
  have hquery : queryOf (browseHref search) = (listingSearchQueryString search).toList :=
    queryOf_append (by decide +kernel : '?' ∉ "/browse".toList) _
  rw [hquery, decodeQuery_listingSearchQueryString]

theorem decodeQuery_publicListingSearchPath (search : ListingSearchQuery z) :
    Percent.decodeQuery true (queryOf (publicListingSearchPath search)) = some (parametersOf search) := by
  have hquery : queryOf (publicListingSearchPath search) = (listingSearchQueryString search).toList :=
    queryOf_append (by decide +kernel : '?' ∉ "/public/listings".toList) _
  rw [hquery, decodeQuery_listingSearchQueryString]

theorem fetchListingSearch_eq (h : Accepted asked) :
    fetchListingSearch p db asked = (answerSearch p db asked).toOption := by
  rw [fetchListingSearch, decodeQuery_publicListingSearchPath, Option.bind_some, Web.search, parse_parametersOf h]

/-- Nothing that an accepted search writes is blank. -/
theorem trim_ne_of_get (h : Accepted asked) {name value : String} (hname : name ∈ parameterNames)
    (hget : (parametersOf asked).get name = some value) : trim value ≠ "" := by
  obtain ⟨hpostcode, hradius, hkeyword, hcategory, hpage, hfrom, hto⟩ := get_parametersOf (q := asked)
  have hdate {text : String} (htext : ∃ t, Time.startOfLocalDay z text = .ok t) : trim text ≠ "" := by
    obtain ⟨t, ht⟩ := htext
    intro hblank
    have hagain := calendarDateSchema_again ht
    rw [blankIsAbsent, if_pos hblank] at hagain
    cases hagain
  intro hblank
  simp only [parameterNames, List.mem_cons, List.not_mem_nil, or_false] at hname
  obtain rfl | rfl | rfl | rfl | rfl | rfl | rfl := hname
  · cases hpostcode.symm.trans hget
    have hagain := h.postcode
    have hnone : postcodeSchema (some asked.postcode) = none := by
      rw [postcodeSchema, Option.bind_some, hblank]
      decide +kernel
    rw [hnone] at hagain
    cases hagain
  · cases hradius.symm.trans hget
    have hagain := searchRadiusMilesSchema_toString (searchRadius asked)
    rw [searchRadius, searchRadiusMilesSchema, readNumber_blank hblank] at hagain
    cases hagain
  · rw [hpage] at hget
    split at hget
    · cases hget
      have hagain := searchPageSchema_toString (searchPage asked)
      rw [searchPage, searchPageSchema, readNumber_blank hblank] at hagain
      cases hagain
    · cases hget
  · have hagain := h.category
    rw [hcategory.symm.trans hget, searchCategorySchema, if_pos hblank] at hagain
    cases hagain
  · have hagain := h.keyword
    rw [hkeyword.symm.trans hget, searchKeywordSchema, if_pos hblank] at hagain
    cases hagain
  · obtain ⟨dates, -, rfl⟩ := Option.map_eq_some_iff.mp (hfrom.symm.trans hget)
    exact hdate dates.starts.1 hblank
  · obtain ⟨dates, -, rfl⟩ := Option.map_eq_some_iff.mp (hto.symm.trans hget)
    exact hdate dates.starts.2 hblank

theorem first_parametersOf (h : Accepted asked) {name : String} (hname : name ∈ parameterNames) :
    first (parametersOf asked) name = (parametersOf asked).get name := by
  rw [first]
  cases hvalue : (parametersOf asked).get name with
  | none => rfl
  | some value =>
    rw [Option.filter_some, if_pos]
    exact decide_eq_true (trim_ne_of_get h hname hvalue)

theorem get_of_names (value : String → Option String) (names : List String) (name : String) :
    Record.get (names.filterMap (fun name => (value name).map (fun text => (name, text)))) name =
      if name ∈ names then value name else none := by
  induction names with
  | nil => rfl
  | cons head names ih =>
    rw [List.filterMap_cons]
    by_cases hhead : head = name
    · subst hhead
      rw [if_pos List.mem_cons_self]
      cases hvalue : value head with
      | some text => simp [Record.get]
      | none =>
        rw [Option.map_none]
        simp only [ih, hvalue, ite_self]
    · have hmem : name ∈ head :: names ↔ name ∈ names := by
        rw [List.mem_cons, or_iff_right (Ne.symm hhead)]
      simp only [hmem, ← ih]
      cases value head with
      | some text => simp [Record.get, hhead]
      | none => rfl

theorem get_submitted (params : Record String) {name : String} (hname : name ∈ parameterNames) :
    (submitted params).get name = first params name := by
  rw [submitted, get_of_names, if_pos hname]

theorem parse_submitted (h : Accepted asked) :
    parseListingSearchQuery z (submitted (parametersOf asked)) = some asked := by
  have hsame : ∀ name ∈ parameterNames, (submitted (parametersOf asked)).get name = (parametersOf asked).get name := by
    intro name hname
    rw [get_submitted _ hname, first_parametersOf h hname]
  rw [← parse_parametersOf h]
  simp only [parseListingSearchQuery, hsame _ (by decide : "postcode" ∈ parameterNames),
    hsame _ (by decide : "radiusMiles" ∈ parameterNames), hsame _ (by decide : "page" ∈ parameterNames),
    hsame _ (by decide : "category" ∈ parameterNames), hsame _ (by decide : "keyword" ∈ parameterNames),
    hsame _ (by decide : "availableFrom" ∈ parameterNames), hsame _ (by decide : "availableTo" ∈ parameterNames)]

theorem browsePage_parametersOf (h : Accepted asked) :
    browsePage p z v (parametersOf asked) =
      if namesAnUnknownCategory asked.category (categoryOptions v) then .unknownCategory asked
      else match if v.searchRead then (answerSearch (v.placing p) v.db asked).toOption else none with
        | none => .unavailable
        | some results => browseResults asked results := by
  have hpostcode : first (parametersOf asked) "postcode" = some asked.postcode := by
    rw [first_parametersOf h (by decide), get_parametersOf.1]
  rw [browsePage, hpostcode]
  simp only [parse_submitted h, fetchListingSearch_eq h]

/-- Every listing that anybody may see has a price to be shown. -/
def Priced (db : Database) : Prop :=
  ∀ l ∈ db.tables.listings, isPubliclyVisible l.status l.moderationState = true →
    ∀ summary, db.tables.summaryOf l = some summary →
      ∃ price, inclusiveDailyPrice exactPercentageOf summary.rates summary.currentFeePolicy = .ok (some price)

theorem toSummary_eq_ok {view : NearbyListingView} {price : InclusiveDailyPrice}
    (h : inclusiveDailyPrice exactPercentageOf view.listing.rates view.listing.currentFeePolicy = .ok (some price)) :
    ∃ card, toSummary view = .ok card ∧ (card.id, card.distance) = (view.listing.id, view.distance) := by
  rw [toSummary, h]
  exact ⟨_, rfl, rfl⟩

theorem mapM_toSummary {views : List NearbyListingView}
    (h : ∀ view ∈ views, ∃ price,
      inclusiveDailyPrice exactPercentageOf view.listing.rates view.listing.currentFeePolicy = .ok (some price)) :
    ∃ cards, views.mapM toSummary = .ok cards ∧
      cards.map (fun card => (card.id, card.distance)) = views.map (fun view => (view.listing.id, view.distance)) := by
  induction views with
  | nil => exact ⟨[], rfl, rfl⟩
  | cons view views ih =>
    obtain ⟨price, hprice⟩ := h view List.mem_cons_self
    obtain ⟨card, hcard, hid⟩ := toSummary_eq_ok hprice
    obtain ⟨cards, hcards, hids⟩ := ih (fun view hview => h view (List.mem_cons_of_mem _ hview))
    refine ⟨card :: cards, ?_, ?_⟩
    · rw [List.mapM_cons, hcard, hcards]
      rfl
    · rw [List.map_cons, List.map_cons, hid, hids]

theorem priced_of_hydrate (h : Priced db) {ids : List Id} {found : NearbyListing} {view : NearbyListingView}
    (hview : hydrate db (db.tables.findPublishedSummaries ids) found = some view) :
    ∃ price, inclusiveDailyPrice exactPercentageOf view.listing.rates view.listing.currentFeePolicy = .ok (some price) := by
  obtain ⟨summary, hfind, hview⟩ := Option.bind_eq_some_iff.mp hview
  have hlisting : view.listing = summary := by
    split at hview
    · cases hview
      rfl
    · cases hview
  obtain ⟨l, hl, hsummary⟩ := List.mem_filterMap.mp (List.mem_of_find?_eq_some hfind)
  obtain ⟨hl, hvisible⟩ := List.mem_filter.mp hl
  rw [hlisting]
  exact h l hl (of_decide_eq_true hvisible).2 summary hsummary

structure Answerable (p : Provided) (db : Database) (search : ListingSearchQuery z) : Prop where
  accepted : Accepted search
  listed : ∀ slug, search.category = some slug → slug ∈ (publicCategories db.tables).map (·.slug)
  period : ∃ period, searchedPeriod search.dates = .ok period
  placed : ∃ origin, p.geocode search.postcode = some origin

theorem browseResults_placed (cards : List ListingCard) (truncated : Bool) :
    browseResults asked (answerTo asked cards truncated .placed) =
      if cards = [] then if asked.page = firstSearchPage then .nothingFound asked else .nothingFurther asked
      else .found asked cards truncated := rfl

theorem shows_browseResults_placed (cards : List ListingCard) (truncated : Bool) :
    (browseResults asked (answerTo asked cards truncated .placed)).shows = some asked := by
  rw [browseResults_placed]
  split
  · split
    · rfl
    · rfl
  · rfl

theorem searchNearby_found {found : NearbySearchResults} (h : searchNearby p db asked = .ok (some found)) :
    ∃ categoryId origin period, resolveSearchCategory db.tables asked.category = .ok categoryId ∧
      p.geocode asked.postcode = some origin ∧ searchedPeriod asked.dates = .ok period ∧
      found = pageOf db (sortedRows (radiusRows p db origin period (asked.toNearbySearch categoryId))) asked.page := by
  cases hcategory : resolveSearchCategory db.tables asked.category with
  | error failure =>
    rw [searchNearby, hcategory] at h
    cases h
  | ok categoryId =>
    cases horigin : p.geocode asked.postcode with
    | none =>
      have hwithin : findWithin p db (asked.toNearbySearch categoryId) = .ok none := by
        rw [findWithin, ListingSearchQuery.toNearbySearch, horigin]
      rw [searchNearby, hcategory] at h
      simp only [Except.bind, hwithin] at h
      cases h
    | some origin =>
      cases hperiod : searchedPeriod asked.dates with
      | error message =>
        rw [searchNearby_eq_error horigin hcategory hperiod] at h
        cases h
      | ok period =>
        rw [searchNearby_eq_ok horigin hcategory hperiod] at h
        exact ⟨categoryId, origin, period, rfl, rfl, rfl, (Option.some.inj (Except.ok.inj h)).symm⟩

theorem answerSearch_found {found : NearbySearchResults} (hpriced : Priced db)
    (h : searchNearby p db asked = .ok (some found)) :
    ∃ cards, answerSearch p db asked = .ok (answerTo asked cards found.truncated .placed) ∧
      cards.map (fun card => (card.id, card.distance)) =
        found.results.map (fun view => (view.listing.id, view.distance)) := by
  have hviews : ∀ view ∈ found.results, ∃ price,
      inclusiveDailyPrice exactPercentageOf view.listing.rates view.listing.currentFeePolicy = .ok (some price) := by
    obtain ⟨categoryId, origin, period, -, -, -, rfl⟩ := searchNearby_found h
    intro view hview
    obtain ⟨found, -, hview⟩ := List.mem_filterMap.mp hview
    exact priced_of_hydrate hpriced hview
  obtain ⟨cards, hcards, hids⟩ := mapM_toSummary hviews
  refine ⟨cards, ?_, hids⟩
  rw [answerSearch, h]
  simp only [hcards]

theorem geocode_placing {postcode : String} {origin : Point} (h : (v.placing p).geocode postcode = some origin) :
    p.geocode postcode = some origin := by
  rw [Visit.placing] at h
  split at h
  · exact h
  · cases h

theorem answerSearch_eq_ok {results : PublicListingSearchResults z} (h : answerSearch p db asked = .ok results) :
    results = answerTo asked [] false .unplaceable ∨ ∃ found cards, searchNearby p db asked = .ok (some found) ∧
      results = answerTo asked cards found.truncated .placed := by
  rw [answerSearch] at h
  cases hfound : searchNearby p db asked with
  | error failure =>
    rw [hfound] at h
    cases failure with
    | unknownCategory slug => cases h
    | time message => cases h
  | ok found =>
    rw [hfound] at h
    cases found with
    | none => exact .inl (Except.ok.inj h).symm
    | some found =>
      cases hcards : found.results.mapM toSummary with
      | error message =>
        simp only [hcards] at h
        cases h
      | ok cards =>
        simp only [hcards] at h
        exact .inr ⟨found, cards, rfl, (Except.ok.inj h).symm⟩

theorem mem_of_namesAnUnknownCategory {slug : String} {known : List PublicCategory} (hknown : known ≠ [])
    (h : namesAnUnknownCategory (some slug) known = false) : slug ∈ known.map (·.slug) := by
  rw [namesAnUnknownCategory, if_neg hknown, Bool.not_eq_false', List.any_eq_true] at h
  obtain ⟨candidate, hcandidate, hslug⟩ := h
  exact List.mem_map.mpr ⟨candidate, hcandidate, of_decide_eq_true hslug⟩

theorem searchNearby_of_shows {results : PublicListingSearchResults z} (h : Accepted asked)
    (hresults : fetchListingSearch p db asked = some results)
    (hshows : (browseResults asked results).shows = some search) :
    search = asked ∧ ∃ found, searchNearby p db asked = .ok (some found) := by
  rw [fetchListingSearch_eq h] at hresults
  cases hanswer : answerSearch p db asked with
  | error status =>
    rw [hanswer] at hresults
    cases hresults
  | ok answer =>
    rw [hanswer] at hresults
    cases hresults
    obtain rfl | ⟨found, cards, hfound, rfl⟩ := answerSearch_eq_ok hanswer
    · cases hshows
    · rw [shows_browseResults_placed] at hshows
      cases hshows
      exact ⟨rfl, found, hfound⟩

/-- How a page came to show a search. The link to that search opens the page again. -/
theorem browsePage_shows {params : Record String} (h : (browsePage p z v params).shows = some search) :
    Accepted search ∧ namesAnUnknownCategory search.category (categoryOptions v) = false ∧ v.searchRead = true ∧
      (∃ found, searchNearby (v.placing p) v.db search = .ok (some found)) ∧
      browsePage p z v params = browsePage p z v (parametersOf search) := by
  rw [browsePage] at h ⊢
  cases hpostcode : first params "postcode" with
  | none =>
    simp only [hpostcode] at h
    cases h
  | some postcode =>
    cases hparse : parseListingSearchQuery z (submitted params) with
    | none =>
      simp only [hpostcode, hparse] at h
      cases h
    | some asked =>
      simp only [hpostcode, hparse] at h
      split at h
      · cases h
      · rename_i hknown
        split at h
        · cases h
        · rename_i results hresults
          have haccepted := accepted_of_parse hparse
          split at hresults
          · rename_i hread
            obtain ⟨rfl, hfound⟩ := searchNearby_of_shows haccepted hresults h
            refine ⟨haccepted, Bool.not_eq_true _ ▸ hknown, hread, hfound, ?_⟩
            rw [browsePage_parametersOf haccepted, ← fetchListingSearch_eq haccepted, if_neg hknown, if_pos hread]
            simp only [if_neg hknown, if_pos hread]
          · cases hresults

theorem answerable_of_shows {params : Record String} (hoptions : categoryOptions v ≠ [])
    (h : (browsePage p z v params).shows = some search) : Answerable p v.db search := by
  obtain ⟨haccepted, hknown, -, ⟨found, hfound⟩, -⟩ := browsePage_shows h
  obtain ⟨categoryId, origin, period, -, horigin, hperiod, -⟩ := searchNearby_found hfound
  refine ⟨haccepted, ?_, ⟨period, hperiod⟩, ⟨origin, geocode_placing horigin⟩⟩
  intro slug hslug
  rw [hslug] at hknown
  have hmem := mem_of_namesAnUnknownCategory hoptions hknown
  rw [categoryOptions] at hmem
  split at hmem
  · exact hmem
  · cases hmem

/-- Categories are created with their first version, and stay. -/
structure Later (db db' : Database) : Prop where
  categories : db.tables.categories <+: db'.tables.categories
  versions : ∀ c ∈ db.tables.categories, (db'.tables.latest c.id).isSome = (db.tables.latest c.id).isSome

theorem slugs_publicCategories (t : Tables) : (publicCategories t).map (·.slug) =
    (((t.categories.take (Paging.probe categoryListLimit)).filter (fun c => (t.latest c.id).isSome)).map (·.slug)).take
      categoryListLimit := by
  rw [publicCategories, Paging.fitTo, List.map_take, listCategoryNames, List.map_filterMap]
  congr 1
  induction t.categories.take (Paging.probe categoryListLimit) with
  | nil => rfl
  | cons c categories ih =>
    rw [List.filterMap_cons, List.filter_cons]
    cases t.latest c.id with
    | none => exact ih
    | some version => rw [Option.map_some, Option.map_some, Option.isSome_some, if_pos rfl, List.map_cons, ih]

theorem Later.slugs (h : Later db db') :
    (publicCategories db.tables).map (·.slug) <+: (publicCategories db'.tables).map (·.slug) := by
  rw [slugs_publicCategories, slugs_publicCategories]
  apply List.IsPrefix.take
  apply List.IsPrefix.map
  have hsame : (db.tables.categories.take (Paging.probe categoryListLimit)).filter (fun c => (db.tables.latest c.id).isSome) =
      (db.tables.categories.take (Paging.probe categoryListLimit)).filter (fun c => (db'.tables.latest c.id).isSome) := by
    apply List.filter_congr
    intro c hc
    exact (h.versions c (List.mem_of_mem_take hc)).symm
  rw [hsame]
  apply List.IsPrefix.filter
  exact h.categories.take _

theorem Answerable.later (h : Answerable p db search) (hl : Later db db') : Answerable p db' search where
  accepted := h.accepted
  listed slug hslug := hl.slugs.subset (h.listed slug hslug)
  period := h.period
  placed := h.placed

theorem Answerable.resolved (h : Answerable p db search) :
    ∃ categoryId, resolveSearchCategory db.tables search.category = .ok categoryId := by
  cases hcategory : search.category with
  | none => exact ⟨none, rfl⟩
  | some slug =>
    obtain ⟨listed, hlisted, hslug⟩ := List.mem_map.mp (h.listed slug hcategory)
    obtain ⟨c, hc, hname⟩ := List.mem_filterMap.mp (List.mem_of_mem_take hlisted)
    obtain ⟨version, -, rfl⟩ := Option.map_eq_some_iff.mp hname
    have hfind : (db.tables.findCategory slug).isSome := by
      rw [Tables.findCategory, List.find?_isSome]
      exact ⟨c, List.mem_of_mem_take hc, decide_eq_true hslug⟩
    obtain ⟨category, hcategory⟩ := Option.isSome_iff_exists.mp hfind
    refine ⟨some category.id, ?_⟩
    rw [resolveSearchCategory, hcategory]

theorem Answerable.offered {offer : Offer} (h : Answerable p db search) (ht : offer.target search = some target) :
    Answerable p db target := by
  cases offer with
  | previous =>
    obtain ⟨⟨page, isPage⟩, -, rfl⟩ := Option.map_eq_some_iff.mp ht
    exact ⟨⟨h.accepted.postcode, h.accepted.category, h.accepted.keyword⟩, h.listed, h.period, h.placed⟩
  | next =>
    obtain ⟨⟨page, isPage⟩, -, rfl⟩ := Option.map_eq_some_iff.mp ht
    exact ⟨⟨h.accepted.postcode, h.accepted.category, h.accepted.keyword⟩, h.listed, h.period, h.placed⟩
  | startAgain =>
    cases ht
    exact ⟨⟨h.accepted.postcode, h.accepted.category, h.accepted.keyword⟩, h.listed, h.period, h.placed⟩
  | withoutKeyword =>
    cases ht
    exact ⟨⟨h.accepted.postcode, h.accepted.category, rfl⟩, h.listed, h.period, h.placed⟩
  | allCategories =>
    cases ht
    exact ⟨⟨h.accepted.postcode, rfl, h.accepted.keyword⟩, nofun, h.period, h.placed⟩
  | wider =>
    obtain ⟨⟨radiusMiles, radius⟩, -, rfl⟩ := Option.map_eq_some_iff.mp ht
    exact ⟨⟨h.accepted.postcode, h.accepted.category, h.accepted.keyword⟩, h.listed, h.period, h.placed⟩

/-- What a page's links are to. -/
theorem target_of_mem_links {offer : Offer} {href : String} (h : (offer, href) ∈ page.links) :
    ∃ search target, page.shows = some search ∧ offer.target search = some target ∧ href = browseHref target := by
  cases page with
  | nothingFound search =>
    obtain hmem | hmem := List.mem_append.mp h
    · obtain hmem | hmem := List.mem_append.mp hmem
      · split at hmem
        · cases hmem
        · cases List.mem_singleton.mp hmem
          exact ⟨search, _, rfl, rfl, rfl⟩
      · split at hmem
        · cases hmem
        · cases List.mem_singleton.mp hmem
          exact ⟨search, _, rfl, rfl, rfl⟩
    · obtain ⟨wider, hwider, hlink⟩ := Option.map_eq_some_iff.mp (Option.mem_toList.mp hmem)
      obtain ⟨radius, hradius, rfl⟩ := Option.map_eq_some_iff.mp hwider
      cases hlink
      exact ⟨search, _, rfl, by rw [Offer.target, hradius, Option.map_some], rfl⟩
  | nothingFurther search =>
    cases List.mem_singleton.mp h
    exact ⟨search, _, rfl, rfl, rfl⟩
  | found search cards truncated =>
    obtain hmem | hmem := List.mem_append.mp h
    · obtain ⟨previous, hprevious, hlink⟩ := Option.map_eq_some_iff.mp (Option.mem_toList.mp hmem)
      obtain ⟨previousPage, hpage, rfl⟩ := Option.map_eq_some_iff.mp hprevious
      cases hlink
      exact ⟨search, _, rfl, by rw [Offer.target, hpage, Option.map_some], rfl⟩
    · obtain ⟨next, hnext, hlink⟩ := Option.map_eq_some_iff.mp (Option.mem_toList.mp hmem)
      rw [nextSearchHref] at hnext
      split at hnext
      · cases hnext
      · rename_i page hpage
        split at hnext
        · cases hnext
          cases hlink
          exact ⟨search, _, rfl, by rw [Offer.target, hpage, Option.map_some], rfl⟩
        · cases hnext
  | prompt => cases h
  | refused => cases h
  | unknownCategory search => cases h
  | unavailable => cases h
  | couldNotSearch postcode => cases h

theorem follow_of_mem_links {offer : Offer} {href : String} (h : (offer, href) ∈ page.links)
    (hshows : page.shows = some search) (ht : offer.target search = some target) :
    follow p page (offer, v) = some (browsePage p z v (parametersOf target)) := by
  cases hfind : page.links.find? (fun link => link.1 = offer) with
  | none => exact absurd (decide_eq_true rfl) (List.find?_eq_none.mp hfind _ h)
  | some link =>
    obtain ⟨offer', href'⟩ := link
    have hoffer := List.find?_some hfind
    simp only [decide_eq_true_eq] at hoffer
    subst hoffer
    obtain ⟨search', target', hshows', ht', rfl⟩ := target_of_mem_links (List.mem_of_find?_eq_some hfind)
    cases hshows.symm.trans hshows'
    cases ht.symm.trans ht'
    rw [follow, hfind, Option.bind_some, decodeQuery_browseHref, Option.map_some]

theorem followed {a : Offer × Visit} {page' : BrowsePage z} (h : follow p page a = some page') :
    ∃ search target, page.shows = some search ∧ a.1.target search = some target ∧
      page' = browsePage p z a.2 (parametersOf target) := by
  obtain ⟨⟨offer, href⟩, hfind, -⟩ := Option.bind_eq_some_iff.mp h
  have hoffer := List.find?_some hfind
  simp only [decide_eq_true_eq] at hoffer
  subst hoffer
  obtain ⟨search, target, hshows, ht, -⟩ := target_of_mem_links (List.mem_of_find?_eq_some hfind)
  refine ⟨search, target, hshows, ht, ?_⟩
  have hfollow := follow_of_mem_links (p := p) (v := a.2) (List.mem_of_find?_eq_some hfind) hshows ht
  exact Option.some.inj (h.symm.trans hfollow)

theorem namesAnUnknownCategory_of_listed
    (h : ∀ slug, search.category = some slug → slug ∈ (publicCategories v.db.tables).map (·.slug)) :
    namesAnUnknownCategory search.category (categoryOptions v) = false := by
  cases hcategory : search.category with
  | none => rfl
  | some slug =>
    rw [namesAnUnknownCategory]
    split
    · rfl
    · rename_i hoptions
      obtain ⟨category, hcategory, hslug⟩ := List.mem_map.mp (h slug hcategory)
      rw [Bool.not_eq_false', List.any_eq_true]
      rw [categoryOptions] at hoptions ⊢
      split at hoptions
      · rw [if_pos (by assumption)]
        exact ⟨category, hcategory, decide_eq_true hslug⟩
      · exact absurd rfl hoptions

theorem browsePage_answers (h : Answerable p v.db search) (hpriced : Priced v.db) (hread : v.searchRead = true) :
    (browsePage p z v (parametersOf search)).shows = some search ∨
      v.geocodes = false ∧ browsePage p z v (parametersOf search) = .couldNotSearch search.postcode := by
  obtain ⟨categoryId, hcategory⟩ := h.resolved
  obtain ⟨period, hperiod⟩ := h.period
  obtain ⟨origin, horigin⟩ := h.placed
  have hknown : ¬namesAnUnknownCategory search.category (categoryOptions v) = true := by
    rw [namesAnUnknownCategory_of_listed h.listed]
    exact Bool.false_ne_true
  rw [browsePage_parametersOf h.accepted, if_neg hknown, if_pos hread]
  cases hgeocodes : v.geocodes with
  | true =>
    left
    have hfound : searchNearby p v.db search = _ := searchNearby_eq_ok horigin hcategory hperiod
    obtain ⟨cards, hcards, -⟩ := answerSearch_found hpriced hfound
    have hplacing : v.placing p = p := if_pos hgeocodes
    rw [hplacing, hcards]
    exact shows_browseResults_placed _ _
  | false =>
    right
    have hplacing : v.placing p = { p with geocode := fun _ => none } := if_neg (by rw [hgeocodes]; exact Bool.false_ne_true)
    have hwithin : findWithin (v.placing p) v.db (search.toNearbySearch categoryId) = .ok none := by
      rw [hplacing, findWithin]
    have hnone : searchNearby (v.placing p) v.db search = .ok none := by
      rw [searchNearby, hcategory]
      simp only [Except.bind, hwithin]
    rw [answerSearch, hnone]
    exact ⟨rfl, rfl⟩

theorem shows_parametersOf (h : Accepted target)
    (hshows : (browsePage p z v (parametersOf target)).shows = some search) : search = target := by
  rw [browsePage_parametersOf h] at hshows
  split at hshows
  · cases hshows
  · split at hshows
    · cases hshows
    · rename_i results hresults
      split at hresults
      · rw [← fetchListingSearch_eq h] at hresults
        exact (searchNearby_of_shows h hresults hshows).1
      · cases hresults

theorem answerable_of_run {v₀ : Visit} {params : Record String} {as : List (Offer × Visit)}
    (hoptions : categoryOptions v₀ ≠ []) (hr : run (follow p) (browsePage p z v₀ params) as = some page)
    (hshows : page.shows = some search) : Answerable p v₀.db search := by
  have hpreserved : ∀ search, page.shows = some search → Answerable p v₀.db search := by
    refine run_preserves (P := fun page : BrowsePage z => ∀ search, page.shows = some search → Answerable p v₀.db search)
      ?_ hr ?_
    · intro page a page' hpage hfollow search' hshows'
      obtain ⟨search, target, hshows, ht, rfl⟩ := followed hfollow
      have htarget := (hpage search hshows).offered ht
      rw [shows_parametersOf htarget.accepted hshows']
      exact htarget
    · intro search hshows
      exact answerable_of_shows hoptions hshows
  exact hpreserved search hshows

/-- No link is dead. Where every public listing has its price, and whatever has
been browsed, from a page with its choice of categories: a link of the page one
has come to opens a page of its own search, which is the search of the page but
for what the link says, as soon as that search is read; and it is shown, unless
its origin is not placed this time. -/
theorem no_link_is_dead (p : Provided) {z : Zone} {v₀ : Visit} {params : Record String} {as : List (Offer × Visit)}
    {page : BrowsePage z} (hoptions : categoryOptions v₀ ≠ [])
    (hr : run (follow p) (browsePage p z v₀ params) as = some page) {offer : Offer} {href : String}
    (hlink : (offer, href) ∈ page.links) {v : Visit} (hlater : Later v₀.db v.db) (hpriced : Priced v.db)
    (hread : v.searchRead = true) :
    ∃ search target page', page.shows = some search ∧ offer.target search = some target ∧
      href = browseHref target ∧ follow p page (offer, v) = some page' ∧
      (page'.shows = some target ∨ v.geocodes = false ∧ page' = .couldNotSearch target.postcode) := by
  obtain ⟨search, target, hshows, ht, hhref⟩ := target_of_mem_links hlink
  have hanswerable := ((answerable_of_run hoptions hr hshows).offered ht).later hlater
  exact ⟨search, target, _, hshows, ht, hhref, follow_of_mem_links hlink hshows ht,
    browsePage_answers hanswerable hpriced hread⟩

end

def sampleVisit : Visit := ⟨sampleDatabase, true, true, true⟩

theorem sampleDatabase_priced : Priced sampleDatabase := by
  have hpriced : ∀ l ∈ sampleDatabase.tables.listings, (sampleDatabase.tables.summaryOf l).all (fun summary =>
      (inclusiveDailyPrice exactPercentageOf summary.rates summary.currentFeePolicy).toOption.join.isSome) = true := by
    decide +kernel
  intro l hl _ summary hsummary
  have hprice := hpriced l hl
  rw [hsummary, Option.all_some] at hprice
  cases h : inclusiveDailyPrice exactPercentageOf summary.rates summary.currentFeePolicy with
  | error message =>
    rw [h] at hprice
    cases hprice
  | ok price =>
    rw [h] at hprice
    obtain ⟨shown, hshown⟩ := Option.isSome_iff_exists.mp hprice
    cases hshown
    exact ⟨shown, rfl⟩

def lookingForASaw : Record String := [("postcode", "YO1 7HH"), ("category", "mowers"), ("keyword", "A saw")]

theorem no_link_is_dead_wider : ∃ page page' : BrowsePage .utc,
    run (follow sampleProvided) (browsePage sampleProvided .utc sampleVisit lookingForASaw) [(.wider, sampleVisit)] = some page ∧
    follow sampleProvided page (.withoutKeyword, sampleVisit) = some page' ∧ page'.shows.isSome = true := by
  have hrun : (run (follow sampleProvided) (browsePage sampleProvided .utc sampleVisit lookingForASaw)
      [(.wider, sampleVisit)]).map (fun page => page.links.map (·.1)) =
        some [.withoutKeyword, .allCategories, .wider] := by
    decide +kernel
  obtain ⟨page, hpage, hlinks⟩ := Option.map_eq_some_iff.mp hrun
  have hmem : Offer.withoutKeyword ∈ page.links.map (·.1) := by
    rw [hlinks]
    exact List.mem_cons_self
  obtain ⟨⟨offer, href⟩, hlink, rfl⟩ := List.mem_map.mp hmem
  have hlater : Later sampleDatabase sampleDatabase := ⟨List.prefix_rfl, fun c _ => rfl⟩
  obtain ⟨search, target, page', -, -, -, hfollow, hshows | hdown⟩ := no_link_is_dead sampleProvided
    (by decide +kernel) hpage hlink hlater sampleDatabase_priced (v := sampleVisit) rfl
  · exact ⟨page, page', hpage, hfollow, by rw [hshows]; rfl⟩
  · cases hdown.1

end RentalMarket.Web
