import RentalMarket.Catalogue.Search
import RentalMarket.Core.Postcode
import RentalMarket.Lib.Percent
import RentalMarket.Lib.ReadNumber

namespace RentalMarket.Catalogue

open RentalMarket.Core RentalMarket.Pricing Script

def postcodeSchema (raw : Option String) : Option String :=
  raw.bind fun raw =>
    let trimmed := trim raw
    if Postcode.isValid trimmed then (Postcode.parse trimmed).toOption else none

def defaultSearchRadiusMiles : Nat := 5

abbrev SearchRadius := {radius : Nat // radius ∈ searchRadiiMiles}

abbrev SearchPage := {page : Nat // firstSearchPage ≤ page ∧ page ≤ maxSearchPage}

def searchRadiusMilesSchema (raw : Option String) : Option SearchRadius :=
  match raw with
  | none => some ⟨defaultSearchRadiusMiles, by decide⟩
  | some raw =>
    (readNumber raw).bind fun value =>
      let radius := value.num.toNat
      if h : radius ∈ searchRadiiMiles then if (radius : ℚ) = value then some ⟨radius, h⟩ else none else none

def searchPageSchema (raw : Option String) : Option SearchPage :=
  match raw with
  | none => some ⟨firstSearchPage, by decide⟩
  | some raw =>
    (readNumber raw).bind fun value =>
      let page := value.num.toNat
      if h : firstSearchPage ≤ page ∧ page ≤ maxSearchPage then
        if (page : ℚ) = value then some ⟨page, h⟩ else none
      else none

def minCategorySlugLength : Nat := 2

def maxCategorySlugLength : Nat := 64

/-- A blank slug is no category. Any other is not trimmed. -/
def searchCategorySchema (raw : Option String) : Option (Option String) :=
  match raw with
  | none => some none
  | some slug =>
    if trim slug = "" then some none
    else if minCategorySlugLength ≤ length slug ∧ length slug ≤ maxCategorySlugLength ∧ isJoinedBy '-' slug = true then
      some (some slug)
    else none

def maxSearchKeywordLength : Nat := 100

def searchKeywordSchema (raw : Option String) : Option (Option String) :=
  match raw with
  | none => some none
  | some raw =>
    let trimmed := trim raw
    if trimmed = "" then some none
    else if length trimmed ≤ maxSearchKeywordLength then some (some trimmed)
    else none

def calendarDateSchema (z : Zone) (raw : String) : Option String :=
  let trimmed := trim raw
  match Time.startOfLocalDay z trimmed with
  | .ok _ => some trimmed
  | .error _ => none

/-- A blank parameter is one that was not sent. -/
def blankIsAbsent {α : Type*} (schema : String → Option α) (raw : Option String) : Option (Option α) :=
  match raw with
  | none => some none
  | some raw => if trim raw = "" then some none else (schema raw).map some

/-- Two dates in order, a hire's length apart at most. -/
def checkedDates (z : Zone) (availableFrom availableTo : String) : Option (SearchDates z) :=
  if hordered : availableTo < availableFrom then none
  else
    match hdays : searchedDays z availableFrom availableTo with
    | .error _ => none
    | .ok days =>
      if hshort : days ≤ maxMaximumRentalDays then some ⟨availableFrom, availableTo, hordered, days, hdays, hshort⟩
      else none

def searchDatesSchema (z : Zone) (availableFrom availableTo : Option String) : Option (Option (SearchDates z)) :=
  (blankIsAbsent (calendarDateSchema z) availableFrom).bind fun first =>
    (blankIsAbsent (calendarDateSchema z) availableTo).bind fun last =>
      match first, last with
      | none, none => some none
      | some first, some last => (checkedDates z first last).map some
      | _, _ => none

def parseListingSearchQuery (z : Zone) (raw : Record String) : Option (ListingSearchQuery z) := do
  let postcode ← postcodeSchema (raw.get "postcode")
  let radius ← searchRadiusMilesSchema (raw.get "radiusMiles")
  let page ← searchPageSchema (raw.get "page")
  let category ← searchCategorySchema (raw.get "category")
  let keyword ← searchKeywordSchema (raw.get "keyword")
  let dates ← searchDatesSchema z (raw.get "availableFrom") (raw.get "availableTo")
  return ⟨postcode, radius.1, page.1, category, keyword, dates, radius.2, page.2.1, page.2.2⟩

def listingSearchQueryString {z : Zone} (search : ListingSearchQuery z) : String :=
  let parts := ["postcode=" ++ Percent.encodeURIComponent search.postcode,
    "radiusMiles=" ++ toString search.radiusMiles]
  let parts := match search.keyword with
    | some keyword => parts ++ ["keyword=" ++ Percent.encodeURIComponent keyword]
    | none => parts
  let parts := match search.category with
    | some category => parts ++ ["category=" ++ Percent.encodeURIComponent category]
    | none => parts
  let parts := if search.page ≠ firstSearchPage then parts ++ ["page=" ++ toString search.page] else parts
  let parts := match search.dates with
    | some dates => parts ++ ["availableFrom=" ++ dates.availableFrom, "availableTo=" ++ dates.availableTo]
    | none => parts
  "&".intercalate parts

section Fields

variable {z : Zone} {raw : Option String}

theorem readNumber_toString : ∀ n : ℕ, n < 101 → readNumber (toString n) = some (n : ℚ) := by decide +kernel

theorem postcodeSchema_again {postcode : String} (h : postcodeSchema raw = some postcode) :
    postcodeSchema (some postcode) = some postcode := by
  obtain ⟨typed, -, h⟩ := Option.bind_eq_some_iff.mp h
  dsimp only at h
  split at h
  · rename_i hvalid
    rw [Postcode.parse_of_isValid hvalid] at h
    have hspelled : Postcode.spelled (Postcode.strip (trim typed)) = postcode := Option.some.inj h
    obtain ⟨hvalid', hparse⟩ := Postcode.parse_spelled hvalid
    have htrim := Postcode.trim_spelled hvalid
    rw [hspelled] at hvalid' hparse htrim
    rw [postcodeSchema, Option.bind_some]
    dsimp only
    rw [htrim, if_pos hvalid', hparse]
    rfl
  · cases h

theorem searchRadiusMilesSchema_toString (radius : SearchRadius) :
    searchRadiusMilesSchema (some (toString radius.1)) = some radius := by
  obtain ⟨radius, h⟩ := radius
  have hsmall : ∀ radius ∈ searchRadiiMiles, radius < 101 := by decide
  rw [searchRadiusMilesSchema, readNumber_toString radius (hsmall radius h), Option.bind_some]
  dsimp only
  rw [Rat.num_natCast, Int.toNat_natCast, dif_pos h, if_pos rfl]

theorem searchPageSchema_toString (page : SearchPage) : searchPageSchema (some (toString page.1)) = some page := by
  obtain ⟨page, h⟩ := page
  have hsmall : page < 101 := lt_of_le_of_lt h.2 (by decide)
  rw [searchPageSchema, readNumber_toString page hsmall, Option.bind_some]
  dsimp only
  rw [Rat.num_natCast, Int.toNat_natCast, dif_pos h, if_pos rfl]

theorem searchCategorySchema_again {category : Option String} (h : searchCategorySchema raw = some category) :
    searchCategorySchema category = some category := by
  rw [searchCategorySchema.eq_def] at h
  split at h
  · cases h
    rfl
  · rename_i slug
    split at h
    · cases h
      rfl
    · rename_i hblank
      split at h
      · rename_i hvalid
        cases h
        rw [searchCategorySchema, if_neg hblank, if_pos hvalid]
      · cases h

theorem searchKeywordSchema_again {keyword : Option String} (h : searchKeywordSchema raw = some keyword) :
    searchKeywordSchema keyword = some keyword := by
  rw [searchKeywordSchema.eq_def] at h
  split at h
  · cases h
    rfl
  · rename_i typed
    dsimp only at h
    split at h
    · cases h
      rfl
    · rename_i hblank
      split at h
      · rename_i hshort
        cases h
        rw [searchKeywordSchema, trim_trim, if_neg hblank, if_pos hshort]
      · cases h

theorem startOfLocalDay_ok {text : String} {t : Int} (h : Time.startOfLocalDay z text = .ok t) :
    ∃ d : Civil.Date, text = d.toISODate ∧ d.Written := by
  rw [Time.startOfLocalDay] at h
  split at h
  · cases h
  · rename_i d hd
    exact ⟨d, Civil.Date.fromFormat_eq_some.mp hd⟩

theorem SearchDates.starts (dates : SearchDates z) :
    (∃ t, Time.startOfLocalDay z dates.availableFrom = .ok t) ∧ ∃ t, Time.startOfLocalDay z dates.availableTo = .ok t := by
  obtain ⟨days, hdays, -⟩ := dates.short
  rw [searchedDays] at hdays
  cases hfrom : Time.startOfLocalDay z dates.availableFrom with
  | error message =>
    rw [hfrom] at hdays
    cases hdays
  | ok first =>
    cases hto : Time.startOfLocalDay z dates.availableTo with
    | error message =>
      rw [hfrom, hto] at hdays
      cases hdays
    | ok last => exact ⟨⟨first, rfl⟩, last, rfl⟩

theorem toISODate_plain {d : Civil.Date} (hd : d.Written) {c : Char} (hc : c ∈ d.toISODate.toList) :
    c = '-' ∨ c.isDigit = true := by
  have hdigit (n : Nat) : (Nat.digitChar (n % 10)).isDigit = true := by
    rw [Nat.isDigit_digitChar, decide_eq_true_eq]
    omega
  rw [Civil.Date.toList_toISODate hd] at hc
  simp only [List.mem_cons, List.not_mem_nil, or_false] at hc
  rcases hc with rfl | rfl | rfl | rfl | rfl | rfl | rfl | rfl | rfl | rfl
  all_goals first | exact .inl rfl | exact .inr (hdigit _)

theorem calendarDateSchema_again {text : String} {t : Int} (h : Time.startOfLocalDay z text = .ok t) :
    blankIsAbsent (calendarDateSchema z) (some text) = some (some text) := by
  obtain ⟨d, rfl, hd⟩ := startOfLocalDay_ok h
  have hspace : ∀ c ∈ d.toISODate.toList, isSpace c = false := by
    intro c hc
    obtain rfl | hdigit := toISODate_plain hd hc
    · decide
    · exact isSpace_of_isDigit hdigit
  have htrim : trim d.toISODate = d.toISODate :=
    trim_eq_self (fun c hc => hspace c (List.mem_of_mem_head? hc)) (fun c hc => hspace c (List.mem_of_mem_getLast? hc))
  have hne : d.toISODate ≠ "" := by
    intro heq
    have hlist := Civil.Date.toList_toISODate hd
    rw [heq] at hlist
    cases hlist
  rw [blankIsAbsent, htrim, if_neg hne, calendarDateSchema, htrim, h]
  rfl

theorem checkedDates_self (dates : SearchDates z) :
    checkedDates z dates.availableFrom dates.availableTo = some dates := by
  obtain ⟨first, last, hordered, days, hdays, hshort⟩ := dates
  rw [checkedDates, dif_neg hordered]
  split
  · rename_i hfailed
    rw [hdays] at hfailed
    cases hfailed
  · rename_i found hfound
    rw [hdays] at hfound
    cases hfound
    exact dif_pos hshort

theorem searchDatesSchema_self (dates : Option (SearchDates z)) :
    searchDatesSchema z (dates.map (·.availableFrom)) (dates.map (·.availableTo)) = some dates := by
  cases dates with
  | none => rfl
  | some dates =>
    obtain ⟨⟨t, hfrom⟩, t', hto⟩ := dates.starts
    rw [searchDatesSchema, Option.map_some, Option.map_some, calendarDateSchema_again hfrom, calendarDateSchema_again hto,
      Option.bind_some, Option.bind_some]
    dsimp only
    rw [checkedDates_self]
    rfl

end Fields

section Query

variable {z : Zone} (q : ListingSearchQuery z)

def parametersOf : Record String :=
  [("postcode", q.postcode), ("radiusMiles", toString q.radiusMiles)] ++
    (q.keyword.toList.map fun keyword => ("keyword", keyword)) ++
    (q.category.toList.map fun category => ("category", category)) ++
    (if q.page ≠ firstSearchPage then [("page", toString q.page)] else []) ++
    q.dates.toList.flatMap fun dates => [("availableFrom", dates.availableFrom), ("availableTo", dates.availableTo)]

variable {q}

/-- An accepted search is one whose texts are accepted as they are. -/
structure Accepted (q : ListingSearchQuery z) : Prop where
  postcode : postcodeSchema (some q.postcode) = some q.postcode
  category : searchCategorySchema q.category = some q.category
  keyword : searchKeywordSchema q.keyword = some q.keyword

theorem accepted_of_parse {raw : Record String} (h : parseListingSearchQuery z raw = some q) : Accepted q := by
  simp only [parseListingSearchQuery, Option.bind_eq_bind, Option.bind_eq_some_iff] at h
  obtain ⟨postcode, hpostcode, radius, -, page, -, category, hcategory, keyword, hkeyword, dates, -, hq⟩ := h
  cases hq
  exact ⟨postcodeSchema_again hpostcode, searchCategorySchema_again hcategory, searchKeywordSchema_again hkeyword⟩

theorem record_get_append {V : Type*} (record record' : Record V) (key : String) :
    Record.get (record ++ record') key = (record.get key).or (Record.get record' key) := by
  rw [Record.get, List.find?_append, Option.map_or]
  rfl

theorem record_get_toList (name key : String) (value : Option String) :
    Record.get (value.toList.map fun value => (name, value)) key = if name = key then value else none := by
  cases value with
  | none => simp [Record.get]
  | some value =>
    by_cases hkey : name = key
    · simp [Record.get, hkey]
    · simp [Record.get, hkey]

/-- Each name is written for one parameter, and read as that. -/
theorem get_parametersOf :
    (parametersOf q).get "postcode" = some q.postcode ∧
    (parametersOf q).get "radiusMiles" = some (toString q.radiusMiles) ∧
    (parametersOf q).get "keyword" = q.keyword ∧ (parametersOf q).get "category" = q.category ∧
    (parametersOf q).get "page" = (if q.page ≠ firstSearchPage then some (toString q.page) else none) ∧
    (parametersOf q).get "availableFrom" = q.dates.map (·.availableFrom) ∧
    (parametersOf q).get "availableTo" = q.dates.map (·.availableTo) := by
  have hfirst (key : String) : Record.get [("postcode", q.postcode), ("radiusMiles", toString q.radiusMiles)] key =
      if "postcode" = key then some q.postcode else if "radiusMiles" = key then some (toString q.radiusMiles) else none := by
    by_cases hp : "postcode" = key
    · simp [Record.get, hp]
    · by_cases hr : "radiusMiles" = key
      · simp [Record.get, hp, hr]
      · simp [Record.get, hp, hr]
  have hpage (key : String) :
      Record.get (if q.page ≠ firstSearchPage then [("page", toString q.page)] else []) key =
        if "page" = key then if q.page ≠ firstSearchPage then some (toString q.page) else none else none := by
    by_cases hp : "page" = key
    · split <;> simp_all [Record.get]
    · split <;> simp_all [Record.get]
  have hdates (key : String) :
      Record.get (q.dates.toList.flatMap fun dates =>
          [("availableFrom", dates.availableFrom), ("availableTo", dates.availableTo)]) key =
        if "availableFrom" = key then q.dates.map (·.availableFrom)
        else if "availableTo" = key then q.dates.map (·.availableTo) else none := by
    cases q.dates with
    | none => simp [Record.get]
    | some dates =>
      by_cases hf : "availableFrom" = key
      · simp [Record.get, hf]
      · by_cases ht : "availableTo" = key
        · simp [Record.get, hf, ht]
        · simp [Record.get, hf, ht]
  simp only [parametersOf, record_get_append, hfirst, record_get_toList, hpage, hdates]
  simp

theorem parse_parametersOf (h : Accepted q) : parseListingSearchQuery z (parametersOf q) = some q := by
  obtain ⟨hpostcode, hradius, hkeyword, hcategory, hpage, hfrom, hto⟩ := get_parametersOf (q := q)
  have hradius' := searchRadiusMilesSchema_toString ⟨q.radiusMiles, q.radius⟩
  have hpage' : searchPageSchema ((parametersOf q).get "page") = some ⟨q.page, q.first_le, q.le_max⟩ := by
    rw [hpage]
    split
    · exact searchPageSchema_toString ⟨q.page, q.first_le, q.le_max⟩
    · rename_i hfirst
      simp only [ne_eq, Decidable.not_not] at hfirst
      simp only [searchPageSchema, hfirst]
  simp only [parseListingSearchQuery, hpage', hpostcode, hradius, hkeyword, hcategory, hfrom, hto, h.postcode, h.category,
    h.keyword, hradius', searchDatesSchema_self, Option.bind_eq_bind, Option.bind_some]
  rfl

def partOf (parameter : String × String) : String := parameter.1 ++ "=" ++ Percent.encodeURIComponent parameter.2

theorem toList_partOf {parameter : String × String} (hname : Percent.encode parameter.1.toList = parameter.1.toList) :
    (partOf parameter).toList = Percent.encode parameter.1.toList ++ '=' :: Percent.encode parameter.2.toList := by
  rw [hname]
  simp only [partOf, Percent.encodeURIComponent, String.toList_append, String.toList_ofList, List.append_assoc]
  rfl

theorem encodeURIComponent_plain {value : String} (h : ∀ c ∈ value.toList, c = '-' ∨ c.isDigit = true) :
    Percent.encodeURIComponent value = value := by
  rw [Percent.encodeURIComponent, Percent.encode_of_unreserved, String.ofList_toList]
  intro c hc
  obtain rfl | hdigit := h c hc
  · decide
  · simp [Percent.isUnreserved, Char.isAlphanum, hdigit]

theorem encodeURIComponent_toString (n : Nat) : Percent.encodeURIComponent (toString n) = toString n := by
  apply encodeURIComponent_plain
  intro c hc
  have hdigits : (toString n).toList = Nat.toDigits 10 n := by simp [toString, Nat.repr]
  rw [hdigits] at hc
  exact .inr (Nat.isDigit_of_mem_toDigits (by decide) (by decide) hc)

theorem encodeURIComponent_date {text : String} {t : Int} (h : Time.startOfLocalDay z text = .ok t) :
    Percent.encodeURIComponent text = text := by
  obtain ⟨d, rfl, hd⟩ := startOfLocalDay_ok h
  exact encodeURIComponent_plain (fun c hc => toISODate_plain hd hc)

theorem listingSearchQueryString_eq : listingSearchQueryString q = "&".intercalate ((parametersOf q).map partOf) := by
  have hwritten {name value : String} {start : String} (hstart : start = name ++ "=")
      (hvalue : Percent.encodeURIComponent value = value) : start ++ value = partOf (name, value) := by
    rw [partOf, hvalue, hstart]
  have hencoded {name value : String} {start : String} (hstart : start = name ++ "=") :
      start ++ Percent.encodeURIComponent value = partOf (name, value) := by
    rw [partOf, hstart]
  have hpostcode : "postcode=" ++ Percent.encodeURIComponent q.postcode = partOf ("postcode", q.postcode) :=
    hencoded (by decide)
  have hradius : "radiusMiles=" ++ toString q.radiusMiles = partOf ("radiusMiles", toString q.radiusMiles) :=
    hwritten (by decide) (encodeURIComponent_toString _)
  have hpage : "page=" ++ toString q.page = partOf ("page", toString q.page) :=
    hwritten (by decide) (encodeURIComponent_toString _)
  have hkeyword (keyword : String) : "keyword=" ++ Percent.encodeURIComponent keyword = partOf ("keyword", keyword) :=
    hencoded (by decide)
  have hcategory (category : String) :
      "category=" ++ Percent.encodeURIComponent category = partOf ("category", category) := hencoded (by decide)
  have hdates (dates : SearchDates z) :
      "availableFrom=" ++ dates.availableFrom = partOf ("availableFrom", dates.availableFrom) ∧
        "availableTo=" ++ dates.availableTo = partOf ("availableTo", dates.availableTo) := by
    obtain ⟨⟨t, hfrom⟩, t', hto⟩ := dates.starts
    exact ⟨hwritten (by decide) (encodeURIComponent_date hfrom), hwritten (by decide) (encodeURIComponent_date hto)⟩
  rw [listingSearchQueryString, parametersOf, hpostcode, hradius, hpage]
  by_cases hfirst : q.page ≠ firstSearchPage
  · rw [if_pos hfirst, if_pos hfirst]
    cases q.keyword <;> cases q.category <;> cases q.dates <;> simp [hkeyword, hcategory, (hdates _).1, (hdates _).2]
  · rw [if_neg hfirst, if_neg hfirst]
    cases q.keyword <;> cases q.category <;> cases q.dates <;> simp [hkeyword, hcategory, (hdates _).1, (hdates _).2]

theorem encode_name {parameter : String × String} (h : parameter ∈ parametersOf q) :
    Percent.encode parameter.1.toList = parameter.1.toList := by
  have hnames : ∀ name ∈ ["postcode", "radiusMiles", "keyword", "category", "page", "availableFrom", "availableTo"],
      Percent.encode name.toList = name.toList := by decide +kernel
  apply hnames
  rw [parametersOf] at h
  simp only [List.mem_append, List.mem_map, List.mem_flatMap, List.mem_cons, List.not_mem_nil, or_false] at h
  obtain (((hfirst | ⟨_, -, rfl⟩) | ⟨_, -, rfl⟩) | hpage) | ⟨_, -, hdate⟩ := h
  · obtain rfl | rfl := hfirst
    all_goals simp
  · simp
  · simp
  · split at hpage
    · rw [List.mem_singleton.mp hpage]
      simp
    · cases hpage
  · obtain rfl | rfl := hdate
    all_goals simp

theorem decodeQuery_listingSearchQueryString (form : Bool) :
    Percent.decodeQuery form (listingSearchQueryString q).toList = some (parametersOf q) := by
  have hparts : ((parametersOf q).map partOf).map String.toList =
      (parametersOf q).map fun e => Percent.encode e.1.toList ++ '=' :: Percent.encode e.2.toList := by
    rw [List.map_map]
    exact List.map_congr_left fun e he => toList_partOf (encode_name he)
  have hquery : (listingSearchQueryString q).toList = Percent.encodeQuery (parametersOf q) := by
    rw [listingSearchQueryString_eq, String.toList_intercalate, hparts]
    rfl
  rw [hquery, Percent.decodeQuery_encodeQuery]
  exact List.cons_ne_nil _ _

end Query

end RentalMarket.Catalogue
