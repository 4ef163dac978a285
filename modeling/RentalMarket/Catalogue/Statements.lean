import RentalMarket.Catalogue.Listings

namespace RentalMarket.Catalogue

open RentalMarket.Core RentalMarket.Pricing

/-- Answers and a transport requirement that the checks of a submission let
through under a version. -/
structure CategoryVersion.Takes (v : CategoryVersion) (values : ListingAttributeValues)
    (transportRequirement : Option TransportRequirement) : Prop where
  validated : ∃ raw, validateAttributeValues v.configuration.attributes raw = .ok values
  offered : ∀ requirement, transportRequirement = some requirement →
    offersTransportRequirement v.configuration.transportOptions requirement = true

theorem judgeSubmission_ok {slug : String} {version : CategoryVersion} {submittedVersion : Nat}
    {raw : Option Answers} {transportRequirement : Option TransportRequirement}
    {values : ListingAttributeValues}
    (h : judgeSubmission slug version submittedVersion raw transportRequirement = .ok values) :
    version.versionNumber = submittedVersion ∧ version.Takes values transportRequirement := by
  simp only [judgeSubmission] at h
  split at h
  · cases h
  · rename_i hversion
    refine ⟨not_not.mp hversion, ?_⟩
    cases hvalues : validateAttributeValues version.configuration.attributes raw with
    | error issues =>
      rw [hvalues] at h
      cases h
    | ok found =>
      rw [hvalues] at h
      cases transportRequirement with
      | none =>
        cases h
        exact ⟨⟨raw, hvalues⟩, fun _ hsome => absurd hsome (by simp)⟩
      | some requirement =>
        simp only at h
        split at h
        · rename_i hoffered
          cases h
          refine ⟨⟨raw, hvalues⟩, ?_⟩
          intro requirement' hsame
          cases hsame
          exact hoffered
        · cases h

namespace Tables

variable {t : Tables}

theorem latest_mem {categoryId : Id} {v : CategoryVersion} (h : t.latest categoryId = some v) :
    v ∈ t.versions ∧ v.categoryId = categoryId := by
  have hmem := List.argmax_mem h
  rw [List.mem_filter, decide_eq_true_eq] at hmem
  exact hmem

theorem findOption_spec {slug : String} {option : CategoryOption} (h : t.findOption slug = some option) :
    t.findCategory slug = some option.category ∧ t.latest option.category.id = some option.version := by
  obtain ⟨c, hc, h⟩ := Option.bind_eq_some_iff.mp h
  obtain ⟨v, hv, rfl⟩ := Option.map_eq_some_iff.mp h
  exact ⟨hc, hv⟩

theorem findCategory_spec {slug : String} {c : Category} (h : t.findCategory slug = some c) :
    c ∈ t.categories ∧ c.slug = slug :=
  ⟨List.mem_of_find?_eq_some h, by simpa using List.find?_some h⟩

theorem findRow_spec {id ownerId : Id} {l : Listing} (h : t.findRow id ownerId = some l) :
    l ∈ t.listings ∧ l.id = id ∧ l.ownerId = ownerId :=
  ⟨List.mem_of_find?_eq_some h, by simpa using List.find?_some h⟩

theorem findLocation_spec {listingId : Id} {l : ListingLocation} (h : t.findLocation listingId = some l) :
    l ∈ t.locations ∧ l.listingId = listingId :=
  ⟨List.mem_of_find?_eq_some h, by simpa using List.find?_some h⟩

theorem toRecord_spec {l : Listing} {record : ListingRecord} (h : t.toRecord l = some record) :
    ∃ v c, t.findVersion l.categoryVersionId = some v ∧ c ∈ t.categories ∧ c.id = v.categoryId ∧
      record = ⟨l.id, l.ownerId, c.slug, v.configuration, v.versionNumber, l.details, l.attributes,
        (t.findLocation l.id).map (·.postcode), ((t.findLocation l.id).bind (·.point)).isSome, l.status,
        l.moderationState⟩ := by
  obtain ⟨v, hv, h⟩ := Option.bind_eq_some_iff.mp h
  obtain ⟨c, hc, rfl⟩ := Option.map_eq_some_iff.mp h
  exact ⟨v, c, hv, List.mem_of_find?_eq_some hc, by simpa using List.find?_some hc, rfl⟩

theorem findOwnedBy_spec {id ownerId : Id} {record : ListingRecord}
    (h : t.findOwnedBy id ownerId = some record) :
    ∃ l, t.findRow id ownerId = some l ∧ t.toRecord l = some record :=
  Option.bind_eq_some_iff.mp h

end Tables

theorem mem_updateRows {listings : List Listing} {id ownerId : Id} {change : Listing → Listing} {l : Listing} :
    l ∈ updateRows listings id ownerId change ↔
      (l ∈ listings ∧ ¬(l.id = id ∧ l.ownerId = ownerId)) ∨
        ∃ l₀ ∈ listings, l₀.id = id ∧ l₀.ownerId = ownerId ∧ l = change l₀ := by
  rw [updateRows, List.mem_map]
  constructor
  · rintro ⟨l₀, hl₀, rfl⟩
    by_cases hrow : l₀.id = id ∧ l₀.ownerId = ownerId
    · rw [if_pos hrow]
      exact .inr ⟨l₀, hl₀, hrow.1, hrow.2, rfl⟩
    · rw [if_neg hrow]
      exact .inl ⟨hl₀, hrow⟩
  · rintro (⟨hl, hrow⟩ | ⟨l₀, hl₀, hid, howner, rfl⟩)
    · exact ⟨l, hl, if_neg hrow⟩
    · exact ⟨l₀, hl₀, if_pos ⟨hid, howner⟩⟩

def Call.unwritten : Call → Bool
  | rereading _ _ => false
  | auditing _ _ _ => false
  | returned (.refused _) => true
  | returned _ => false
  | _ => true

inductive Moved (w : Wiring) (t : Tables) (d : Draw) : Call → Tables → Call → Prop
  | failed {c : Call} (hfails : d.fails = true) : Moved w t d c t (.returned .threw)
  | stopped {c : Call} {answer : Answer} (hopen : c.unwritten = true) : Moved w t d c t (.returned answer)
  | reread {id ownerId : Id} :
      Moved w t d (.rereading id ownerId) t (.returned (.listing (t.findOwnedBy id ownerId)))
  | judgedDraft {submitted : SubmittedListing} {option : CategoryOption} {draft : ListingDraft} {c' : Call}
      (hoption : t.findOption draft.categorySlug = some option)
      (hversion : option.version.versionNumber = draft.categoryVersionNumber)
      (htakes : option.version.Takes draft.attributes draft.details.transportRequirement)
      (hunplaced : draft.locatedPoint = none)
      (hthere : c' = .draftPin draft ∨ ∃ postcode, c' = .draftLocate draft postcode) :
      Moved w t d (.draftRead submitted) t c'
  | locatedDraft {draft : ListingDraft} {postcode : String} :
      Moved w t d (.draftLocate draft postcode) t (.draftPin { draft with locatedPoint := locate w d })
  | pinnedDraft {draft : ListingDraft} {option : CategoryOption}
      (hoption : t.findOption draft.categorySlug = some option)
      (hversion : option.version.versionNumber = draft.categoryVersionNumber) :
      Moved w t d (.draftPin draft) t (.draftWrite draft option.category.id option.version.id)
  | drafted {draft : ListingDraft} {categoryId categoryVersionId : Id} {answer : Option ListingRecord}
      (hid : ∀ l ∈ t.listings, l.id ≠ d.id) :
      Moved w t d (.draftWrite draft categoryId categoryVersionId)
        { t with
          listings := t.listings ++ [⟨d.id, draft.ownerId, categoryId, categoryVersionId, draft.details,
            draft.attributes, draft.collectionLocation.map (fun location => outwardCode location.postcode),
            draft.collectionLocation.map (·.town), .draft, .approved⟩]
          locations := t.locations ++ (draft.collectionLocation.map (fun location =>
            ⟨d.id, location.postcode, w.encrypt d.id location.line1 location.line2,
              draft.locatedPoint⟩)).toList }
        (.returned (.listing answer))
  | foundEdited {id ownerId : Id} {submitted : SubmittedListingEdit} {listing : ListingRecord}
      (hlisting : t.findOwnedBy id ownerId = some listing) :
      Moved w t d (.editRead id ownerId submitted) t (.editOption listing submitted)
  | placingEdit {listing : ListingRecord} {submitted : SubmittedListingEdit} {option : CategoryOption}
      {edit : ListingEdit} {location : ListingCollectionLocation}
      (hoption : t.findOption listing.categorySlug = some option)
      (hversion : option.version.versionNumber = edit.categoryVersionNumber)
      (htakes : option.version.Takes edit.attributes edit.details.transportRequirement) :
      Moved w t d (.editOption listing submitted) t
        (.editOffset listing option.version.configuration edit location)
  | judgedEdit {listing : ListingRecord} {submitted : SubmittedListingEdit} {option : CategoryOption}
      {edit : ListingEdit} {c' : Call}
      (hoption : t.findOption listing.categorySlug = some option)
      (hversion : option.version.versionNumber = edit.categoryVersionNumber)
      (htakes : option.version.Takes edit.attributes edit.details.transportRequirement)
      (hunplaced : edit.collectionLocation = .cleared ∨ ∃ location, edit.collectionLocation =
        .addressOnly location ∧ listing.postcode = some location.postcode ∧ listing.isLocated = true)
      (hthere : c' = recheck w listing option.version.configuration edit false) :
      Moved w t d (.editOption listing submitted) t c'
  | offsetRead {listing : ListingRecord} {pinning : CategoryConfiguration} {edit : ListingEdit}
      {location : ListingCollectionLocation} :
      Moved w t d (.editOffset listing pinning edit location) t
        (.editLocate listing pinning edit location (t.findFuzzOffset listing.id listing.ownerId))
  | placedEdit {listing : ListingRecord} {pinning : CategoryConfiguration} {edit : ListingEdit}
      {location : ListingCollectionLocation} {offset : Option FuzzOffset} {c' : Call}
      (hthere : c' = recheck w listing pinning
        { edit with collectionLocation := .relocated location (offset.elim (locate w d) (relocate w d)) }
        offset.isNone) :
      Moved w t d (.editLocate listing pinning edit location offset) t c'
  | updateFound {p : PendingEdit} {l : Listing} (hrow : t.findRow p.id p.ownerId = some l) :
      Moved w t d (.updateRead p) t (.updateLatest p l.categoryId)
  | pinnedUpdate {p : PendingEdit} {categoryId : Id} {v : CategoryVersion}
      (hlatest : t.latest categoryId = some v) (hversion : v.versionNumber = p.edit.categoryVersionNumber) :
      Moved w t d (.updateLatest p categoryId) t (.updateWrite p v.id)
  | updated {p : PendingEdit} {categoryVersionId : Id} {l : Listing} {locations : List ListingLocation}
      (hrow : t.findRow p.id p.ownerId = some l)
      (hlocations : writeLocation w t.locations p.id p.edit.collectionLocation = some locations) :
      Moved w t d (.updateWrite p categoryVersionId)
        { t with
          listings := updateRows t.listings p.id p.ownerId (applyEdit p.edit categoryVersionId)
          locations := locations }
        (.rereading p.id p.ownerId)
  | publishing {id ownerId : Id} (henabled : d.publicationEnabled = true) :
      Moved w t d (.publishSwitch id ownerId) t (.publishRead id ownerId)
  | judgedPublish {id ownerId : Id} {listing : ListingRecord}
      (hlisting : t.findOwnedBy id ownerId = some listing)
      (hcomplete : publicationBlockers (recordCandidate w listing) = []) :
      Moved w t d (.publishRead id ownerId) t (.publishWrite id ownerId)
  | published {id ownerId : Id} {l : Listing} (hrow : t.findRow id ownerId = some l) :
      Moved w t d (.publishWrite id ownerId)
        { t with listings := updateRows t.listings id ownerId (fun l => { l with status := .published }) }
        (.rereading id ownerId)
  | judgedPause {id ownerId : Id} {listing : ListingRecord}
      (hlisting : t.findOwnedBy id ownerId = some listing)
      (hallowed : transitionRefusal .pause listing.status = none) :
      Moved w t d (.pauseRead id ownerId) t (.pauseWrite id ownerId)
  | paused {id ownerId : Id} {l : Listing} (hrow : t.findRow id ownerId = some l) :
      Moved w t d (.pauseWrite id ownerId)
        { t with listings := updateRows t.listings id ownerId (fun l => { l with status := .paused }) }
        (.rereading id ownerId)
  | judgedReconfiguration {r : Reconfiguration} {option : CategoryOption}
      (hoption : t.findOption r.slug = some option) :
      Moved w t d (.reconfigureRead r) t (.addVersionRead r option.version)
  | currentRead {r : Reconfiguration} {before : CategoryVersion} {option : CategoryOption}
      (hoption : t.findOption r.slug = some option) :
      Moved w t d (.addVersionRead r before) t (.addVersionInsert r before option.version)
  | versionAdded {r : Reconfiguration} {before current : CategoryVersion}
      (hid : ∀ v ∈ t.versions, v.id ≠ d.id)
      (hnumber : ∀ v ∈ t.versions, v.categoryId = current.categoryId →
        v.versionNumber ≠ current.versionNumber + 1) :
      Moved w t d (.addVersionInsert r before current)
        { t with versions := t.versions ++
          [⟨d.id, current.categoryId, current.versionNumber + 1, r.configuration, r.actorId⟩] }
        (.auditing r before
          ⟨d.id, current.categoryId, current.versionNumber + 1, r.configuration, r.actorId⟩)
  | audited {r : Reconfiguration} {before after : CategoryVersion} :
      Moved w t d (.auditing r before after)
        { t with audit := t.audit ++ [⟨r.actorId, "category.reconfigured", after.categoryId,
          some (w.digest (auditable r.slug before.configuration)),
          some (w.digest (auditable r.slug after.configuration)), r.reason⟩] }
        (.returned (.reconfigured after))


section

variable {w : Wiring} {t t' : Tables} {d : Draw} {c c' : Call}

theorem recheck_cases (w : Wiring) (listing : ListingRecord) (pinning : CategoryConfiguration)
    (edit : ListingEdit) (drawn : Bool) :
    (∃ refusal, recheck w listing pinning edit drawn = .returned (.refused refusal)) ∨
      ∃ checked, recheck w listing pinning edit drawn =
          .updateRead ⟨listing.id, listing.ownerId, edit, checked, drawn⟩ ∧
        (checked = true ↔ listing.status = .published) ∧
        (checked = true → publicationBlockers (editedCandidate w listing.ownerId pinning edit) = []) := by
  simp only [recheck]
  split
  · exact .inl ⟨_, rfl⟩
  · rename_i hgo
    refine .inr ⟨_, rfl, decide_eq_true_iff, ?_⟩
    intro hchecked
    exact not_not.mp (fun hblocked => hgo ⟨hchecked, hblocked⟩)

theorem nextDraft_moved (h : nextDraft w t d c = some (t', c')) : Moved w t d c t' c' := by
  cases c with
  | draftRead submitted =>
    obtain ⟨rfl, rfl⟩ := Prod.mk.inj (Option.some.inj h)
    split
    · exact .stopped rfl
    · rename_i option hoption
      split
      · exact .stopped rfl
      · rename_i values hvalues
        obtain ⟨-, htakes⟩ := judgeSubmission_ok hvalues
        split
        · exact .judgedDraft hoption rfl htakes rfl (.inl rfl)
        · exact .judgedDraft hoption rfl htakes rfl (.inr ⟨_, rfl⟩)
  | draftLocate draft postcode =>
    cases h
    exact .locatedDraft
  | draftPin draft =>
    obtain ⟨rfl, rfl⟩ := Prod.mk.inj (Option.some.inj h)
    split
    · exact .stopped rfl
    · rename_i option hoption
      split
      · exact .stopped rfl
      · rename_i hversion
        exact .pinnedDraft hoption (not_not.mp hversion)
  | draftWrite draft categoryId categoryVersionId =>
    simp only [nextDraft] at h
    split at h
    · cases h
    · rename_i hid
      cases h
      exact .drafted (by simpa using hid)
  | _ => cases h

theorem nextEdit_moved (h : nextEdit w t d c = some (t', c')) : Moved w t d c t' c' := by
  cases c with
  | editRead id ownerId submitted =>
    obtain ⟨rfl, rfl⟩ := Prod.mk.inj (Option.some.inj h)
    cases hlisting : t.findOwnedBy id ownerId with
    | none => exact .stopped rfl
    | some listing => exact .foundEdited hlisting
  | editOption listing submitted =>
    obtain ⟨rfl, rfl⟩ := Prod.mk.inj (Option.some.inj h)
    split
    · exact .stopped rfl
    · rename_i option hoption
      split
      · exact .stopped rfl
      · rename_i values hvalues
        obtain ⟨hversion, htakes⟩ := judgeSubmission_ok hvalues
        simp only [editJudged]
        split
        · exact .judgedEdit hoption hversion htakes (.inl rfl) rfl
        · rename_i location _
          split
          · rename_i hunmoved
            exact .judgedEdit hoption hversion htakes (.inr ⟨location, rfl, hunmoved⟩) rfl
          · exact .placingEdit hoption hversion htakes
  | editOffset listing pinning edit location =>
    cases h
    exact .offsetRead
  | editLocate listing pinning edit location offset =>
    cases h
    exact .placedEdit rfl
  | updateRead p =>
    obtain ⟨rfl, rfl⟩ := Prod.mk.inj (Option.some.inj h)
    cases hrow : t.findRow p.id p.ownerId with
    | none => exact .stopped rfl
    | some l => exact .updateFound hrow
  | updateLatest p categoryId =>
    obtain ⟨rfl, rfl⟩ := Prod.mk.inj (Option.some.inj h)
    split
    · exact .stopped rfl
    · rename_i v hlatest
      split
      · exact .stopped rfl
      · rename_i hversion
        exact .pinnedUpdate hlatest (not_not.mp hversion)
  | updateWrite p categoryVersionId =>
    have h := Option.some.inj h
    split at h
    · obtain ⟨rfl, rfl⟩ := Prod.mk.inj h
      exact .stopped rfl
    · rename_i l hrow
      split at h
      · obtain ⟨rfl, rfl⟩ := Prod.mk.inj h
        exact .stopped rfl
      · rename_i locations hlocations
        obtain ⟨rfl, rfl⟩ := Prod.mk.inj h
        exact .updated hrow hlocations
  | _ => cases h

theorem nextStatus_moved (h : nextStatus w t d c = some (t', c')) : Moved w t d c t' c' := by
  cases c with
  | publishSwitch id ownerId =>
    obtain ⟨rfl, rfl⟩ := Prod.mk.inj (Option.some.inj h)
    split
    · rename_i henabled
      exact .publishing henabled
    · exact .stopped rfl
  | publishRead id ownerId =>
    obtain ⟨rfl, rfl⟩ := Prod.mk.inj (Option.some.inj h)
    split
    · exact .stopped rfl
    · rename_i listing hlisting
      rw [transitionRefusal_publish]
      simp only
      split
      · exact .stopped rfl
      · rename_i hcomplete
        exact .judgedPublish hlisting (not_not.mp hcomplete)
  | publishWrite id ownerId =>
    have h := Option.some.inj h
    split at h
    · obtain ⟨rfl, rfl⟩ := Prod.mk.inj h
      exact .stopped rfl
    · rename_i l hrow
      obtain ⟨rfl, rfl⟩ := Prod.mk.inj h
      exact .published hrow
  | pauseRead id ownerId =>
    obtain ⟨rfl, rfl⟩ := Prod.mk.inj (Option.some.inj h)
    split
    · exact .stopped rfl
    · rename_i listing hlisting
      split
      · exact .stopped rfl
      · rename_i hallowed
        exact .judgedPause hlisting hallowed
  | pauseWrite id ownerId =>
    have h := Option.some.inj h
    split at h
    · obtain ⟨rfl, rfl⟩ := Prod.mk.inj h
      exact .stopped rfl
    · rename_i l hrow
      obtain ⟨rfl, rfl⟩ := Prod.mk.inj h
      exact .paused hrow
  | _ => cases h

theorem nextReconfigure_moved (h : nextReconfigure w t d c = some (t', c')) : Moved w t d c t' c' := by
  cases c with
  | reconfigureRead r =>
    obtain ⟨rfl, rfl⟩ := Prod.mk.inj (Option.some.inj h)
    split
    · exact .stopped rfl
    · rename_i option hoption
      simp only [refuseNegativeMargin]
      split
      · exact .stopped rfl
      · split
        · exact .judgedReconfiguration hoption
        · exact .stopped rfl
  | addVersionRead r before =>
    obtain ⟨rfl, rfl⟩ := Prod.mk.inj (Option.some.inj h)
    split
    · exact .stopped rfl
    · rename_i option hoption
      exact .currentRead hoption
  | addVersionInsert r before current =>
    simp only [nextReconfigure] at h
    split at h
    · cases h
    · rename_i hid
      split at h
      · cases h
        exact .stopped rfl
      · rename_i hnumber
        cases h
        exact .versionAdded (by simpa using hid) (by simpa using hnumber)
  | auditing r before after =>
    cases h
    exact .audited
  | _ => cases h

/-- A statement does one of these things. -/
theorem next_moved (h : next w t d c = some (t', c')) : Moved w t d c t' c' := by
  rw [next] at h
  split at h
  · cases h
  · split at h
    · rename_i hfails
      cases h
      exact .failed hfails
    · cases c with
      | draftRead _ => exact nextDraft_moved h
      | draftLocate _ _ => exact nextDraft_moved h
      | draftPin _ => exact nextDraft_moved h
      | draftWrite _ _ _ => exact nextDraft_moved h
      | editRead _ _ _ => exact nextEdit_moved h
      | editOption _ _ => exact nextEdit_moved h
      | editOffset _ _ _ _ => exact nextEdit_moved h
      | editLocate _ _ _ _ _ => exact nextEdit_moved h
      | updateRead _ => exact nextEdit_moved h
      | updateLatest _ _ => exact nextEdit_moved h
      | updateWrite _ _ => exact nextEdit_moved h
      | publishSwitch _ _ => exact nextStatus_moved h
      | publishRead _ _ => exact nextStatus_moved h
      | publishWrite _ _ => exact nextStatus_moved h
      | pauseRead _ _ => exact nextStatus_moved h
      | pauseWrite _ _ => exact nextStatus_moved h
      | rereading _ _ =>
        cases h
        exact .reread
      | reconfigureRead _ => exact nextReconfigure_moved h
      | addVersionRead _ _ => exact nextReconfigure_moved h
      | addVersionInsert _ _ _ => exact nextReconfigure_moved h
      | auditing _ _ _ => exact nextReconfigure_moved h
      | returned _ => cases h

end

theorem next_of_fails {w : Wiring} {t t' : Tables} {d : Draw} {c c' : Call} (h : next w t d c = some (t', c'))
    (hfails : d.fails = true) : t' = t ∧ c' = .returned .threw := by
  simp only [next, hfails, if_true] at h
  split at h
  · cases h
  · cases h
    exact ⟨rfl, rfl⟩

/-- What no statement takes away: categories, versions, and whose and of what a
listing is. -/
structure Grows (t t' : Tables) : Prop where
  categories : t'.categories = t.categories
  versions : ∀ v ∈ t.versions, v ∈ t'.versions
  listings : ∀ l ∈ t.listings, ∃ l' ∈ t'.listings,
    l'.id = l.id ∧ l'.ownerId = l.ownerId ∧ l'.categoryId = l.categoryId

section

variable {w : Wiring} {t t' : Tables} {d : Draw} {c c' : Call}

theorem Grows.refl (t : Tables) : Grows t t :=
  ⟨rfl, fun _ hv => hv, fun l hl => ⟨l, hl, rfl, rfl, rfl⟩⟩

theorem Grows.of_updateRows {id ownerId : Id} {change : Listing → Listing} {locations : List ListingLocation}
    (hid : ∀ l, (change l).id = l.id) (howner : ∀ l, (change l).ownerId = l.ownerId)
    (hcategory : ∀ l, (change l).categoryId = l.categoryId) :
    Grows t { t with listings := updateRows t.listings id ownerId change, locations := locations } := by
  refine ⟨rfl, fun _ hv => hv, ?_⟩
  intro l hl
  by_cases hrow : l.id = id ∧ l.ownerId = ownerId
  · exact ⟨change l, mem_updateRows.mpr (.inr ⟨l, hl, hrow.1, hrow.2, rfl⟩), hid l, howner l, hcategory l⟩
  · exact ⟨l, mem_updateRows.mpr (.inl ⟨hl, hrow⟩), rfl, rfl, rfl⟩

theorem Moved.grows (h : Moved w t d c t' c') : Grows t t' := by
  cases h with
  | drafted hid =>
    exact ⟨rfl, fun _ hv => hv, fun l hl => ⟨l, List.mem_append_left _ hl, rfl, rfl, rfl⟩⟩
  | updated hrow hlocations => exact .of_updateRows (fun _ => rfl) (fun _ => rfl) (fun _ => rfl)
  | published hrow => exact .of_updateRows (fun _ => rfl) (fun _ => rfl) (fun _ => rfl)
  | paused hrow => exact .of_updateRows (fun _ => rfl) (fun _ => rfl) (fun _ => rfl)
  | versionAdded hid hnumber =>
    exact ⟨rfl, fun _ hv => List.mem_append_left _ hv, fun l hl => ⟨l, hl, rfl, rfl, rfl⟩⟩
  | audited => exact ⟨rfl, fun _ hv => hv, fun l hl => ⟨l, hl, rfl, rfl, rfl⟩⟩
  | _ => exact .refl t

theorem step_grows {s s' : State} {a : Action} (h : (machine w).step s a = some s') :
    Grows s.tables s'.tables := by
  obtain hsame | ⟨i, d, c, c', -, -, hnext⟩ := Interleaving.step_tables h
  · exact hsame ▸ .refl _
  · exact (next_moved hnext).grows

theorem Moved.unwritten (h : Moved w t d c t' c') (hto : c'.unwritten = true) :
    c.unwritten = true ∧ t' = t := by
  cases h with
  | failed _ => cases hto
  | stopped hopen => exact ⟨hopen, rfl⟩
  | reread => cases hto
  | drafted _ => cases hto
  | updated _ _ => cases hto
  | published _ => cases hto
  | paused _ => cases hto
  | versionAdded _ _ => cases hto
  | audited => cases hto
  | _ => exact ⟨rfl, rfl⟩

end

def sampleWiring : Wiring where
  applyFuzzOffset located offset := ⟨located.latitude + offset.distanceMetres / 111320, located.longitude⟩
  encrypt id line1 line2 := id ++ "|" ++ line1 ++ "|" ++ line2.getD ""
  digest category := category.slug ++ "|" ++ category.name
  ownerStatus _ := some .privateOwner

def sampleConfiguration (name : String) : CategoryConfiguration where
  name := name
  riskLevel := .low
  reportableActivity := .none
  attributes := [⟨"power", "Power", true, .choice [⟨"petrol", "Petrol"⟩, ⟨"battery", "Battery"⟩]⟩]
  transportOptions := []
  feePolicy := gardening
  damageSecurity := none
  maximumRentalDays := 14
  requestExpiryHours := 24

def sampleAnswers : Answers := ⟨[("power", .text "petrol")], List.nodup_singleton _⟩

def sampleDetails (description : String) : ListingDetails where
  title := "Mower"
  description := description
  replacementValue := ⟨30000, .gbp⟩
  transportRequirement := none
  requiresTwoPersonLift := false
  rates := ⟨some ⟨1500, .gbp⟩, none, none⟩

def sampleAddress : ListingCollectionLocation := ⟨"1 High Street", none, "York", "YO1 7HH"⟩

def sampleStart (listings : List Listing) (locations : List ListingLocation) : State :=
  ⟨⟨[⟨"cat", "mowers"⟩], [⟨"v1", "cat", 1, sampleConfiguration "Mowers", "ada"⟩], listings, locations, []⟩, []⟩

def sampleListing (status : ListingStatus) (description : String) : Listing :=
  ⟨"mower", "olive", "cat", "v1", sampleDetails description, [("power", .text "petrol")], some "YO1", some "York",
    status, .approved⟩

def samplePoint (offset : FuzzOffset) : LocatedListingPoint := fuzzedAt sampleWiring ⟨54, -1⟩ offset

def sampleLocation (offset : FuzzOffset) : ListingLocation :=
  ⟨"mower", "YO1 7HH", "mower|1 High Street|", some (samplePoint offset)⟩

def sampleEdit (version : Nat) (description : String) (location : Option ListingCollectionLocation) : Request :=
  .edit "mower" "olive" ⟨version, sampleDetails description, some sampleAnswers, location⟩

def runs (i : Nat) (id : Id) (offset : FuzzOffset) : Action :=
  .exec i ⟨id, some ⟨54, -1⟩, offset, true, false⟩

def sampleReconfigure (name : String) : Request :=
  .reconfigure ⟨"ada", "mowers", sampleConfiguration name, "seasonal"⟩

end RentalMarket.Catalogue
