import RentalMarket.Catalogue.SearchQuery

namespace RentalMarket.Catalogue

open RentalMarket.Core RentalMarket.Pricing Script

/-- What an absent parameter stands for, where it stands for a value. -/
def defaultOf : String → Option String
  | "radiusMiles" => some (toString defaultSearchRadiusMiles)
  | "page" => some (toString firstSearchPage)
  | _ => none

def tidied (name : String) (value : Option String) : Option String :=
  match value with
  | none => defaultOf name
  | some value => if trim value = "" then defaultOf name else some (trim value)

def parameterNames : List String :=
  ["postcode", "radiusMiles", "page", "category", "keyword", "availableFrom", "availableTo"]

section

variable {z : Zone} {raw : Option String}

theorem readNumber_trim (s : String) : readNumber (trim s) = readNumber s := by
  rw [readNumber, trim_trim, ← readNumber]

theorem readNumber_blank {s : String} (h : trim s = "") : readNumber s = some 0 := by
  rw [readNumber, h]
  rfl

theorem postcodeSchema_tidied {postcode : String} (h : postcodeSchema raw = some postcode) :
    postcodeSchema (tidied "postcode" raw) = some postcode := by
  cases raw with
  | none => cases h
  | some typed =>
    rw [tidied]
    split
    · rename_i hblank
      have hnone : postcodeSchema (some typed) = none := by
        rw [postcodeSchema, Option.bind_some, hblank]
        decide +kernel
      rw [hnone] at h
      cases h
    · rw [← h]
      simp only [postcodeSchema, Option.bind_some, trim_trim]

theorem searchRadiusMilesSchema_tidied {radius : SearchRadius} (h : searchRadiusMilesSchema raw = some radius) :
    searchRadiusMilesSchema (tidied "radiusMiles" raw) = some radius := by
  cases raw with
  | none =>
    rw [← h]
    exact searchRadiusMilesSchema_toString ⟨defaultSearchRadiusMiles, by decide⟩
  | some typed =>
    rw [tidied]
    split
    · rename_i hblank
      have hnone : searchRadiusMilesSchema (some typed) = none := by
        rw [searchRadiusMilesSchema, readNumber_blank hblank]
        decide
      rw [hnone] at h
      cases h
    · rw [← h]
      simp only [searchRadiusMilesSchema, readNumber_trim]

theorem searchPageSchema_tidied {page : SearchPage} (h : searchPageSchema raw = some page) :
    searchPageSchema (tidied "page" raw) = some page := by
  cases raw with
  | none =>
    rw [← h]
    exact searchPageSchema_toString ⟨firstSearchPage, by decide⟩
  | some typed =>
    rw [tidied]
    split
    · rename_i hblank
      have hnone : searchPageSchema (some typed) = none := by
        rw [searchPageSchema, readNumber_blank hblank]
        decide
      rw [hnone] at h
      cases h
    · rw [← h]
      simp only [searchPageSchema, readNumber_trim]

theorem mem_splitOn {joiner c : Char} {text : List Char} (h : c ∈ text) :
    c = joiner ∨ ∃ word ∈ text.splitOn joiner, c ∈ word := by
  induction text with
  | nil => cases h
  | cons d text ih =>
    rw [List.splitOn_cons_eq_if_modifyHead]
    by_cases hd : d = joiner
    · rw [if_pos (beq_iff_eq.mpr hd)]
      obtain rfl | hc := List.mem_cons.mp h
      · exact .inl hd
      · exact (ih hc).imp_right fun ⟨word, hword, hc⟩ => ⟨word, List.mem_cons_of_mem _ hword, hc⟩
    · rw [if_neg (by simpa using hd)]
      cases hsplit : text.splitOn joiner with
      | nil => exact absurd hsplit (List.splitOn_ne_nil _ _)
      | cons first rest =>
        rw [hsplit] at ih
        rw [List.modifyHead_cons]
        obtain rfl | hc := List.mem_cons.mp h
        · exact .inr ⟨_, List.mem_cons_self, List.mem_cons_self⟩
        · refine (ih hc).imp_right fun ⟨word, hword, hc⟩ => ?_
          obtain rfl | hword := List.mem_cons.mp hword
          · exact ⟨_, List.mem_cons_self, List.mem_cons_of_mem _ hc⟩
          · exact ⟨word, List.mem_cons_of_mem _ hword, hc⟩

theorem isSpace_of_isJoinedBy {joiner : Char} {s : String} (hjoiner : isSpace joiner = false)
    (h : isJoinedBy joiner s = true) : ∀ c ∈ s.toList, isSpace c = false := by
  intro c hc
  have hmem : c = joiner ∨ ∃ word ∈ s.toList.splitOn joiner, c ∈ word := mem_splitOn hc
  obtain heq | ⟨word, hword, hc⟩ := hmem
  · rw [heq]
    exact hjoiner
  · have hvalid := List.all_eq_true.mp h word hword
    rw [Bool.and_eq_true] at hvalid
    have hplain := List.all_eq_true.mp hvalid.2 c hc
    rw [Bool.or_eq_true] at hplain
    obtain hlower | hdigit := hplain
    · have hrange := Ascii.toNat_of_isLower hlower
      exact Ascii.isSpace_of_visible (by omega) (by omega)
    · exact isSpace_of_isDigit hdigit

theorem searchCategorySchema_tidied {category : Option String} (h : searchCategorySchema raw = some category) :
    searchCategorySchema (tidied "category" raw) = some category := by
  cases raw with
  | none => exact h
  | some slug =>
    rw [tidied]
    by_cases hblank : trim slug = ""
    · rw [if_pos hblank, ← h, searchCategorySchema, if_pos hblank]
      rfl
    · have hvalid : isJoinedBy '-' slug = true := by
        rw [searchCategorySchema, if_neg hblank] at h
        split at h
        · rename_i hvalid
          exact hvalid.2.2
        · cases h
      have hspace := isSpace_of_isJoinedBy (by decide) hvalid
      have htrim : trim slug = slug :=
        trim_eq_self (fun c hc => hspace c (List.mem_of_mem_head? hc)) (fun c hc => hspace c (List.mem_of_mem_getLast? hc))
      rw [if_neg hblank, htrim, h]

theorem searchKeywordSchema_tidied {keyword : Option String} (h : searchKeywordSchema raw = some keyword) :
    searchKeywordSchema (tidied "keyword" raw) = some keyword := by
  cases raw with
  | none => exact h
  | some typed =>
    rw [tidied, ← h]
    by_cases hblank : trim typed = ""
    · rw [if_pos hblank, searchKeywordSchema, if_pos hblank]
      rfl
    · rw [if_neg hblank, searchKeywordSchema, searchKeywordSchema, trim_trim]

theorem blankIsAbsent_tidied {name : String} (hname : defaultOf name = none) :
    blankIsAbsent (calendarDateSchema z) (tidied name raw) = blankIsAbsent (calendarDateSchema z) raw := by
  cases raw with
  | none =>
    rw [tidied, hname]
  | some typed =>
    rw [tidied]
    by_cases hblank : trim typed = ""
    · rw [if_pos hblank, hname, blankIsAbsent, blankIsAbsent, if_pos hblank]
    · rw [if_neg hblank, blankIsAbsent, blankIsAbsent, trim_trim, calendarDateSchema, calendarDateSchema, trim_trim]

theorem eq_of_tidied {raw raw' : Record String} {q q' : ListingSearchQuery z}
    (hsame : ∀ name ∈ parameterNames, tidied name (raw.get name) = tidied name (raw'.get name))
    (h : parseListingSearchQuery z raw = some q) (h' : parseListingSearchQuery z raw' = some q') : q = q' := by
  have hfield {α : Type} {schema : Option String → Option α} {name : String} {a b : α} (hname : name ∈ parameterNames)
      (ha : schema (tidied name (raw.get name)) = some a) (hb : schema (tidied name (raw'.get name)) = some b) : a = b := by
    rw [hsame name hname, hb] at ha
    exact (Option.some.inj ha).symm
  have hdate {name : String} (hname : name ∈ parameterNames) (hnone : defaultOf name = none) :
      blankIsAbsent (calendarDateSchema z) (raw.get name) = blankIsAbsent (calendarDateSchema z) (raw'.get name) := by
    rw [← blankIsAbsent_tidied hnone, hsame name hname, blankIsAbsent_tidied hnone]
  simp only [parseListingSearchQuery, Option.bind_eq_bind, Option.bind_eq_some_iff] at h h'
  obtain ⟨postcode, hpostcode, radius, hradius, page, hpage, category, hcategory, keyword, hkeyword, dates, hdates, hq⟩ := h
  obtain ⟨postcode', hpostcode', radius', hradius', page', hpage', category', hcategory', keyword', hkeyword', dates',
    hdates', hq'⟩ := h'
  have hpostcodes := hfield (by decide) (postcodeSchema_tidied hpostcode) (postcodeSchema_tidied hpostcode')
  have hradii := hfield (by decide) (searchRadiusMilesSchema_tidied hradius) (searchRadiusMilesSchema_tidied hradius')
  have hpages := hfield (by decide) (searchPageSchema_tidied hpage) (searchPageSchema_tidied hpage')
  have hcategories := hfield (by decide) (searchCategorySchema_tidied hcategory) (searchCategorySchema_tidied hcategory')
  have hkeywords := hfield (by decide) (searchKeywordSchema_tidied hkeyword) (searchKeywordSchema_tidied hkeyword')
  have hpairs : dates = dates' := by
    rw [searchDatesSchema, hdate (by decide) rfl, hdate (by decide) rfl, ← searchDatesSchema, hdates'] at hdates
    exact (Option.some.inj hdates).symm
  subst hpostcodes hradii hpages hcategories hkeywords hpairs
  exact Option.some.inj (hq.symm.trans hq')

end

/-- What is written of an accepted search is read as that search, by either decoding. Two searches are written
alike exactly if they are the same, as they are if the queries differ by white space, blanks and defaults. -/
theorem query_string_is_canonical {z : Zone} {raw raw' : Record String} {q q' : ListingSearchQuery z}
    (h : parseListingSearchQuery z raw = some q) (h' : parseListingSearchQuery z raw' = some q') :
    (∀ form, (Percent.decodeQuery form (listingSearchQueryString q).toList).bind (parseListingSearchQuery z) = some q) ∧
    (listingSearchQueryString q = listingSearchQueryString q' ↔ q = q') ∧
    ((∀ name ∈ parameterNames, tidied name (raw.get name) = tidied name (raw'.get name)) → q = q') := by
  have hread {raw : Record String} {q : ListingSearchQuery z} (h : parseListingSearchQuery z raw = some q) (form : Bool) :
      (Percent.decodeQuery form (listingSearchQueryString q).toList).bind (parseListingSearchQuery z) = some q := by
    rw [decodeQuery_listingSearchQueryString, Option.bind_some, parse_parametersOf (accepted_of_parse h)]
  refine ⟨hread h, ⟨fun heq => ?_, fun heq => heq ▸ rfl⟩, fun hsame => eq_of_tidied hsame h h'⟩
  have hq := hread h false
  rw [heq, hread h'] at hq
  exact (Option.some.inj hq).symm

def sawSubmitted : Record String := [("postcode", "bs78aa"), ("radiusMiles", "5"), ("keyword", " saw & drill=100%+é "),
  ("category", ""), ("availableFrom", "2026-08-20"), ("availableTo", "2026-08-22")]

def sawTyped : Record String := [("postcode", " bs78aa"), ("keyword", "saw & drill=100%+é"), ("page", " 1 "),
  ("availableFrom", "2026-08-20 "), ("availableTo", "2026-08-22")]

theorem saw_is_one_search : ∃ q q', parseListingSearchQuery .utc sawSubmitted = some q ∧
    parseListingSearchQuery .utc sawTyped = some q' ∧ q = q' := by
  obtain ⟨q, hq⟩ := Option.isSome_iff_exists.mp
    (show (parseListingSearchQuery .utc sawSubmitted).isSome = true by decide +kernel)
  obtain ⟨q', hq'⟩ := Option.isSome_iff_exists.mp
    (show (parseListingSearchQuery .utc sawTyped).isSome = true by decide +kernel)
  exact ⟨q, q', hq, hq', (query_string_is_canonical hq hq').2.2 (by decide +kernel)⟩

end RentalMarket.Catalogue
