import RentalMarket.Web.Browsing

namespace RentalMarket.Web

open RentalMarket.Core RentalMarket.Catalogue Script

def BrowsePage.cards {z : Zone} : BrowsePage z → List ListingCard
  | found _ cards _ => cards
  | prompt | refused | unknownCategory _ | unavailable | couldNotSearch _ | nothingFound _ | nothingFurther _ => []

/-- The pages one sees who turns to the next for as long as there is a link to it,
and so many times at most. -/
def turnPages {z : Zone} (p : Provided) (v : Visit) : Nat → BrowsePage z → List (BrowsePage z)
  | 0, page => [page]
  | turns + 1, page => page :: (follow p page (.next, v)).elim [] (turnPages p v turns)

def ListingCard.place (card : ListingCard) : Id × DistanceBucket := (card.id, card.distance)

def placeOf (row : DistanceRow) : Id × DistanceBucket := (row.listingId, bucketDistance row.metres)

section

variable {z : Zone} {p : Provided} {v : Visit} {asked search : ListingSearchQuery z} {page : BrowsePage z}
  {found : List DistanceRow} {cards : SearchPage → List ListingCard} {k : SearchPage}

def showing (search : ListingSearchQuery z) (cards : List ListingCard) (truncated : Bool) : BrowsePage z :=
  browseResults search (answerTo search cards truncated .placed)

theorem cards_showing (search : ListingSearchQuery z) (cards : List ListingCard) (truncated : Bool) :
    (showing search cards truncated).cards = cards := by
  rw [showing, browseResults_placed]
  split
  · rename_i hnone
    rw [hnone]
    split
    · rfl
    · rfl
  · rfl

/-- What the pages of a search show while nothing is written: their windows of
one list, less what is not shown. -/
structure Paged (p : Provided) (v : Visit) (asked : ListingSearchQuery z) (found : List DistanceRow)
    (cards : SearchPage → List ListingCard) : Prop where
  accepted : Accepted asked
  page : ∀ k : SearchPage, browsePage p z v (parametersOf (atPage asked k)) =
    showing (atPage asked k) (cards k) (decide (k.1 * searchPageSize < found.length))
  places : ∀ k : SearchPage, (cards k).map ListingCard.place =
    ((Paging.window found searchPageSize (resultsToSkip k.1)).filter v.db.declaredPrivate).map placeOf

/-- A page's link to the next is there for what it shows, where there is more and pages are left. -/
theorem mem_links_next {cards : List ListingCard} {truncated : Bool} {href : String} :
    (.next, href) ∈ (showing search cards truncated).links ↔ cards ≠ [] ∧ truncated = true ∧
      ∃ next, nextSearchPage (searchPage search) = some next ∧ href = browseHref (atPage search next) := by
  rw [showing, browseResults_placed]
  by_cases hnone : cards = []
  · rw [if_pos hnone]
    constructor
    · intro h
      split at h
      · obtain h | h := List.mem_append.mp h
        · obtain h | h := List.mem_append.mp h
          · split at h
            · cases h
            · cases List.mem_singleton.mp h
          · split at h
            · cases h
            · cases List.mem_singleton.mp h
        · obtain ⟨wider, -, hlink⟩ := Option.map_eq_some_iff.mp (Option.mem_toList.mp h)
          cases hlink
      · cases List.mem_singleton.mp h
    · rintro ⟨hcards, -⟩
      exact absurd hnone hcards
  · rw [if_neg hnone, BrowsePage.links, nextSearchHref]
    constructor
    · intro h
      obtain h | h := List.mem_append.mp h
      · obtain ⟨previous, -, hlink⟩ := Option.map_eq_some_iff.mp (Option.mem_toList.mp h)
        cases hlink
      · obtain ⟨next, hnext, hlink⟩ := Option.map_eq_some_iff.mp (Option.mem_toList.mp h)
        split at hnext
        · cases hnext
        · rename_i page hpage
          split at hnext
          · rename_i htruncated
            cases hnext
            cases hlink
            exact ⟨hnone, htruncated, page, hpage, rfl⟩
          · cases hnext
    · rintro ⟨-, htruncated, next, hnext, rfl⟩
      simp only [hnext, htruncated, if_true]
      exact List.mem_append_right _ (List.mem_singleton_self _)

theorem shows_showing (search : ListingSearchQuery z) (cards : List ListingCard) (truncated : Bool) :
    (showing search cards truncated).shows = some search := shows_browseResults_placed cards truncated

theorem follow_eq_none {offer : Offer} (h : ∀ href, (offer, href) ∉ page.links) : follow p page (offer, v) = none := by
  rw [follow, Option.bind_eq_none_iff]
  intro link hlink
  have hoffer := List.find?_some hlink
  simp only [decide_eq_true_eq] at hoffer
  exact absurd (hoffer ▸ List.mem_of_find?_eq_some hlink) (h link.2)

theorem follow_next (hp : Paged p v asked found cards) (k : SearchPage) :
    follow p (browsePage p z v (parametersOf (atPage asked k))) (.next, v) =
      if cards k ≠ [] ∧ k.1 * searchPageSize < found.length then
        (nextSearchPage k).map (fun next => browsePage p z v (parametersOf (atPage asked next)))
      else none := by
  rw [hp.page]
  split
  · rename_i hmore
    cases hnext : nextSearchPage k with
    | none =>
      apply follow_eq_none
      intro href hlink
      obtain ⟨-, -, next, hnext', -⟩ := mem_links_next.mp hlink
      cases hnext.symm.trans hnext'
    | some next =>
      have hlink : (.next, browseHref (atPage asked next)) ∈
          (showing (atPage asked k) (cards k) (decide (k.1 * searchPageSize < found.length))).links :=
        mem_links_next.mpr ⟨hmore.1, decide_eq_true hmore.2, next, hnext, rfl⟩
      have htarget : Offer.next.target (atPage asked k) = some (atPage asked next) := by
        show (nextSearchPage k).map (atPage asked) = _
        rw [hnext, Option.map_some]
      rw [follow_of_mem_links hlink (shows_showing _ _ _) htarget, Option.map_some]
  · rename_i hend
    apply follow_eq_none
    intro href hlink
    obtain ⟨hcards, htruncated, -⟩ := mem_links_next.mp hlink
    exact hend ⟨hcards, of_decide_eq_true htruncated⟩

theorem previousSearchPage_of_next {next : SearchPage} (hnext : nextSearchPage k = some next) :
    previousSearchPage next = some k := by
  rw [nextSearchPage] at hnext
  split at hnext
  · cases hnext
  · cases hnext
    have hlow := k.2.1
    rw [previousSearchPage, dif_neg (by simp only [firstSearchPage] at hlow ⊢; omega)]
    rfl

theorem follow_previous (hp : Paged p v asked found cards) {next : SearchPage} (hnext : nextSearchPage k = some next)
    (hcards : cards next ≠ []) :
    follow p (browsePage p z v (parametersOf (atPage asked next))) (.previous, v) =
      some (browsePage p z v (parametersOf (atPage asked k))) := by
  have hprevious := previousSearchPage_of_next hnext
  have htarget : Offer.previous.target (atPage asked next) = some (atPage asked k) := by
    show (previousSearchPage next).map (atPage asked) = _
    rw [hprevious, Option.map_some]
  rw [hp.page next]
  apply follow_of_mem_links _ (shows_showing _ _ _) htarget
  · exact browseHref (atPage asked k)
  · rw [showing, browseResults_placed, if_neg hcards]
    apply List.mem_append_left
    apply Option.mem_toList.mpr
    show (previousSearchHref (atPage asked next)).map _ = _
    rw [previousSearchHref]
    show ((previousSearchPage next).map _).map _ = _
    rw [hprevious]
    rfl

theorem nextSearchPage_cases (k : SearchPage) :
    (k.1 = maxSearchPage ∧ nextSearchPage k = none) ∨ ∃ next, nextSearchPage k = some next ∧ next.1 = k.1 + 1 := by
  rw [nextSearchPage]
  split
  · rename_i hlast
    exact .inl ⟨le_antisymm k.2.2 hlast, rfl⟩
  · exact .inr ⟨_, rfl, rfl⟩

theorem window_succ (rows : List DistanceRow) (offset count : Nat) :
    Paging.window rows searchPageSize offset ++ Paging.window rows (count * searchPageSize) (offset + searchPageSize) =
      Paging.window rows ((count + 1) * searchPageSize) offset := by
  rw [Paging.window, Paging.window, Paging.window, ← List.drop_drop, ← List.take_add, Nat.succ_mul, Nat.add_comm]

/-- Pages in a row, from the `k`-th on: what they show, why they end, and that each
is behind its next. -/
structure Turned (p : Provided) (v : Visit) (found : List DistanceRow) (k : SearchPage) (pages : List (BrowsePage z)) :
    Prop where
  bound : k.1 + pages.length ≤ maxSearchPage + 1
  places : (pages.flatMap BrowsePage.cards).map ListingCard.place =
    ((Paging.window found (pages.length * searchPageSize) (resultsToSkip k.1)).filter v.db.declaredPrivate).map placeOf
  ends : k.1 + pages.length = maxSearchPage + 1 ∨
    found.length ≤ resultsToSkip k.1 + pages.length * searchPageSize ∨ ∃ page ∈ pages, page.cards = []
  back : pages.IsChain (fun page page' => page'.cards ≠ [] → follow p page' (.previous, v) = some page)

theorem resultsToSkip_add (k : SearchPage) : resultsToSkip k.1 + searchPageSize = k.1 * searchPageSize := by
  have hlow := k.2.1
  simp only [resultsToSkip, firstSearchPage, searchPageSize] at hlow ⊢
  omega

theorem Turned.alone (hp : Paged p v asked found cards)
    (hend : k.1 = maxSearchPage ∨ found.length ≤ k.1 * searchPageSize ∨ cards k = []) :
    Turned p v found k [browsePage p z v (parametersOf (atPage asked k))] where
  bound := Nat.succ_le_succ k.2.2
  places := by
    rw [List.flatMap_singleton, hp.page, cards_showing, hp.places, List.length_singleton, Nat.one_mul]
  ends := by
    rw [List.length_singleton, Nat.one_mul, resultsToSkip_add]
    obtain hlast | hfound | hnone := hend
    · exact .inl (by rw [hlast])
    · exact .inr (.inl hfound)
    · exact .inr (.inr ⟨_, List.mem_singleton_self _, by rw [hp.page, cards_showing, hnone]⟩)
  back := List.isChain_singleton _

theorem Turned.cons (hp : Paged p v asked found cards) {next : SearchPage} (hnext : nextSearchPage k = some next)
    (hsucc : next.1 = k.1 + 1) {pages : List (BrowsePage z)} (h : Turned p v found next pages)
    (hhead : ∀ page ∈ pages.head?, page = browsePage p z v (parametersOf (atPage asked next))) :
    Turned p v found k (browsePage p z v (parametersOf (atPage asked k)) :: pages) where
  bound := by
    have hbound := h.bound
    rw [List.length_cons]
    omega
  places := by
    have hskip : resultsToSkip next.1 = resultsToSkip k.1 + searchPageSize := by
      rw [resultsToSkip_add, hsucc]
      rfl
    rw [List.flatMap_cons, List.map_append, h.places, hp.page, cards_showing, hp.places, hskip, ← List.map_append,
      ← List.filter_append, window_succ, List.length_cons]
  ends := by
    have hskip : resultsToSkip next.1 = resultsToSkip k.1 + searchPageSize := by
      rw [resultsToSkip_add, hsucc]
      rfl
    rw [List.length_cons]
    obtain hlast | hfound | ⟨page, hpage, hnone⟩ := h.ends
    · exact .inl (by omega)
    · refine .inr (.inl ?_)
      rw [hskip] at hfound
      rw [Nat.succ_mul]
      omega
    · exact .inr (.inr ⟨page, List.mem_cons_of_mem _ hpage, hnone⟩)
  back := by
    rw [List.isChain_cons]
    refine ⟨fun page hpage hcards => ?_, h.back⟩
    obtain rfl := hhead page hpage
    rw [hp.page, cards_showing] at hcards
    exact follow_previous hp hnext hcards

theorem head?_turnPages (turns : Nat) (page : BrowsePage z) : (turnPages p v turns page).head? = some page := by
  cases turns with
  | zero => rfl
  | succ turns => rfl

theorem turned_turnPages (hp : Paged p v asked found cards) (turns : Nat) (k : SearchPage)
    (hturns : maxSearchPage ≤ k.1 + turns) :
    Turned p v found k (turnPages p v turns (browsePage p z v (parametersOf (atPage asked k)))) := by
  induction turns generalizing k with
  | zero => exact Turned.alone hp (.inl (le_antisymm k.2.2 hturns))
  | succ turns ih =>
    rw [turnPages, follow_next hp]
    by_cases hmore : cards k ≠ [] ∧ k.1 * searchPageSize < found.length
    · rw [if_pos hmore]
      obtain ⟨hlast, hnone⟩ | ⟨next, hnext, hsucc⟩ := nextSearchPage_cases k
      · rw [hnone]
        exact Turned.alone hp (.inl hlast)
      · rw [hnext, Option.map_some, Option.elim_some]
        apply Turned.cons hp hnext hsucc (ih next (by omega))
        intro page hpage
        rw [head?_turnPages] at hpage
        exact (Option.some.inj hpage).symm
    · rw [if_neg hmore]
      apply Turned.alone hp
      by_cases hcards : cards k = []
      · exact .inr (.inr hcards)
      · exact .inr (.inl (Nat.le_of_not_lt (fun h => hmore ⟨hcards, h⟩)))

/-- The pages of a search that is shown are those of what it found. -/
theorem paged_of_shows {params : Record String} (hpriced : Priced v.db)
    (h : (browsePage p z v params).shows = some asked) :
    ∃ (found : List DistanceRow) (origin : Point) (period : Option Booking.Period) (cards : SearchPage → List ListingCard),
      p.geocode asked.postcode = some origin ∧ Spans asked.dates period ∧
      (∀ row, row ∈ found ↔ Found p v.db asked origin period row) ∧
      found.Pairwise (fun row row' => row.key < row'.key) ∧ (found.map (·.listingId)).Nodup ∧
      Paged p v asked found cards := by
  obtain ⟨haccepted, hknown, hread, ⟨first, hfirst⟩, -⟩ := browsePage_shows h
  obtain ⟨categoryId, origin, period, hcategory, horigin, hperiod, -⟩ := searchNearby_found hfirst
  have hplacing : v.placing p = p := by
    rw [Visit.placing] at horigin ⊢
    split
    · rfl
    · rename_i hdown
      rw [if_neg hdown] at horigin
      cases horigin
  rw [hplacing] at horigin
  have hnodup : ((radiusRows p v.db origin period (asked.toNearbySearch categoryId)).map (·.listingId)).Nodup :=
    radiusRows_nodup _
  let found := sortedRows (radiusRows p v.db origin period (asked.toNearbySearch categoryId))
  have hperm : found.Perm (radiusRows p v.db origin period (asked.toNearbySearch categoryId)) := List.perm_insertionSort _ _
  have hfound : ∀ row, row ∈ found ↔ Found p v.db asked origin period row := by
    intro row
    rw [hperm.mem_iff]
    exact mem_radiusRows hcategory (searchedPeriod_nonempty hperiod)
  have hanswer (k : SearchPage) : searchNearby p v.db (atPage asked k) = .ok (some (pageOf v.db found k.1)) :=
    searchNearby_eq_ok horigin hcategory hperiod
  choose cards hcards hplaces using fun k => answerSearch_found hpriced (hanswer k)
  refine ⟨found, origin, period, cards, horigin, spans_of_searchedPeriod hperiod, hfound, sortedRows_pairwise hnodup,
    (hperm.map _).nodup_iff.mpr hnodup, haccepted, fun k => ?_, fun k => ?_⟩
  · have haccepted' : Accepted (atPage asked k) := ⟨haccepted.postcode, haccepted.category, haccepted.keyword⟩
    have hcategories : ¬namesAnUnknownCategory (atPage asked k).category (categoryOptions v) = true := by
      rw [Bool.not_eq_true]
      exact hknown
    rw [browsePage_parametersOf haccepted', if_neg hcategories, if_pos hread, hplacing, hcards, showing]
    have hmore : (pageOf v.db found k.1).truncated = decide (k.1 * searchPageSize < found.length) := by
      rw [pageOf, ← resultsToSkip_add]
      rfl
    rw [hmore]
    rfl
  · exact (hplaces k).trans (pageOf_results (fun row hrow => (hfound row).mp hrow) k.1)

/-- Turning the pages from the first shows each listing once. Where every public
listing has its price, and whatever page of a search one has come to, if it is
the first: while nothing is written, the pages one turns to show the listings of
private owners among the nearest rows that the search found, each once, nearest
first; there are as many pages as are served, or as there are rows, or one of
them shows nothing; and one gets back from each the way one came. -/
theorem turning_pages_shows_each_once (p : Provided) {z : Zone} {v : Visit} {params : Record String}
    {asked : ListingSearchQuery z} (hpriced : Priced v.db) (hshows : (browsePage p z v params).shows = some asked)
    (hfirst : asked.page = firstSearchPage) :
    let pages := turnPages p v maxSearchPage (browsePage p z v params)
    ∃ (found : List DistanceRow) (origin : Point) (period : Option Booking.Period),
      p.geocode asked.postcode = some origin ∧ Spans asked.dates period ∧
      (∀ row, row ∈ found ↔ Found p v.db asked origin period row) ∧
      found.Pairwise (fun row row' => row.key < row'.key) ∧ pages.length ≤ maxSearchPage ∧
      (pages.flatMap BrowsePage.cards).map ListingCard.place =
        ((found.take (pages.length * searchPageSize)).filter v.db.declaredPrivate).map placeOf ∧
      ((pages.flatMap BrowsePage.cards).map (·.id)).Nodup ∧
      (pages.length = maxSearchPage ∨ found.length ≤ pages.length * searchPageSize ∨ ∃ page ∈ pages, page.cards = []) ∧
      pages.IsChain (fun page page' => page'.cards ≠ [] → follow p page' (.previous, v) = some page) := by
  intro pages
  obtain ⟨found, origin, period, cards, horigin, hspans, hfound, hsorted, hnodup, hp⟩ := paged_of_shows hpriced hshows
  have hpage : browsePage p z v params = browsePage p z v (parametersOf (atPage asked firstPage)) := by
    obtain ⟨postcode, radiusMiles, page, category, keyword, dates, radius, first_le, le_max⟩ := asked
    subst hfirst
    exact (browsePage_shows hshows).2.2.2.2
  have hturned : Turned p v found firstPage pages := by
    show Turned p v found firstPage (turnPages p v maxSearchPage (browsePage p z v params))
    rw [hpage]
    exact turned_turnPages hp maxSearchPage firstPage (by decide)
  have hplaces : (pages.flatMap BrowsePage.cards).map ListingCard.place =
      ((found.take (pages.length * searchPageSize)).filter v.db.declaredPrivate).map placeOf := hturned.places
  refine ⟨found, origin, period, horigin, hspans, hfound, hsorted, ?_, hplaces, ?_, ?_, hturned.back⟩
  · have hbound := hturned.bound
    simp only [firstPage, firstSearchPage] at hbound
    omega
  · have hids : (pages.flatMap BrowsePage.cards).map (·.id) =
        ((found.take (pages.length * searchPageSize)).filter v.db.declaredPrivate).map (·.listingId) := by
      have hfst := congrArg (List.map Prod.fst) hplaces
      rw [List.map_map, List.map_map] at hfst
      exact hfst
    rw [hids]
    exact List.Nodup.sublist ((List.filter_sublist.trans (List.take_sublist _ _)).map _) hnodup
  · obtain hlast | hend := hturned.ends
    · simp only [firstPage, firstSearchPage] at hlast
      exact .inl (by omega)
    · simp only [firstPage, resultsToSkip, Nat.sub_self, Nat.zero_mul, Nat.zero_add] at hend
      exact .inr hend

end

def lookingForAMower : Record String := [("postcode", "YO1 7HH"), ("radiusMiles", "10"), ("category", "mowers")]

theorem turning_pages_shows_each_once_mowers :
    let pages := turnPages sampleProvided sampleVisit maxSearchPage
      (browsePage sampleProvided .utc sampleVisit lookingForAMower)
    (pages.flatMap BrowsePage.cards).map (·.id) = ["mower", "hand"] ∧ ((pages.flatMap BrowsePage.cards).map (·.id)).Nodup := by
  have hpage : (browsePage sampleProvided .utc sampleVisit lookingForAMower).shows.map (·.page) = some firstSearchPage := by
    decide +kernel
  obtain ⟨asked, hshows, hfirst⟩ := Option.map_eq_some_iff.mp hpage
  obtain ⟨found, origin, period, -, -, -, -, -, -, hnodup, -⟩ :=
    turning_pages_shows_each_once sampleProvided sampleDatabase_priced hshows hfirst
  exact ⟨by decide +kernel, hnodup⟩

end RentalMarket.Web
