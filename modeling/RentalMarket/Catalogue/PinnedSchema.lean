import RentalMarket.Catalogue.Statements
import RentalMarket.Lib.Keyed

namespace RentalMarket.Catalogue

open RentalMarket.Core RentalMarket.Pricing Runs Interleaving

namespace Tables

/-- What a row stores was judged against the version it is pinned to, which is of
its own category. -/
def Fits (t : Tables) (l : Listing) : Prop :=
  ∃ v ∈ t.versions, v.id = l.categoryVersionId ∧ v.categoryId = l.categoryId ∧
    v.Takes l.attributes l.details.transportRequirement

/-- The unique columns, and rows that fit. -/
structure Sound (t : Tables) : Prop where
  slugs : (t.categories.map (·.slug)).Nodup
  versionIds : (t.versions.map (·.id)).Nodup
  numbers : (t.versions.map (fun v => (v.categoryId, v.versionNumber))).Nodup
  listingIds : (t.listings.map (·.id)).Nodup
  fits : ∀ l ∈ t.listings, t.Fits l

structure JudgedDraft (t : Tables) (draft : ListingDraft) (c : Category) (v : CategoryVersion) : Prop where
  category : t.findCategory draft.categorySlug = some c
  version : v ∈ t.versions
  categoryId : v.categoryId = c.id
  number : v.versionNumber = draft.categoryVersionNumber
  takes : v.Takes draft.attributes draft.details.transportRequirement

def Read (t : Tables) (listing : ListingRecord) : Prop :=
  ∃ l ∈ t.listings, l.id = listing.id ∧ ∃ c ∈ t.categories, c.slug = listing.categorySlug ∧ c.id = l.categoryId

structure JudgedEdit (t : Tables) (id : Id) (edit : ListingEdit) (v : CategoryVersion) : Prop where
  version : v ∈ t.versions
  number : v.versionNumber = edit.categoryVersionNumber
  takes : v.Takes edit.attributes edit.details.transportRequirement
  listing : ∃ l ∈ t.listings, l.id = id ∧ l.categoryId = v.categoryId

def Checked (w : Wiring) (p : PendingEdit) (v : CategoryVersion) : Prop :=
  p.checked = true → publicationBlockers (editedCandidate w p.ownerId v.configuration p.edit) = []

/-- What a call carries was judged against the version that it will pin. -/
def Judged (w : Wiring) (t : Tables) : Call → Prop
  | .draftLocate draft _ => ∃ c v, t.JudgedDraft draft c v
  | .draftPin draft => ∃ c v, t.JudgedDraft draft c v
  | .draftWrite draft categoryId categoryVersionId =>
    ∃ v ∈ t.versions, v.id = categoryVersionId ∧ v.categoryId = categoryId ∧
      v.Takes draft.attributes draft.details.transportRequirement
  | .editOption listing _ => t.Read listing
  | .editOffset listing pinning edit _ => ∃ v, t.JudgedEdit listing.id edit v ∧ v.configuration = pinning
  | .editLocate listing pinning edit _ _ => ∃ v, t.JudgedEdit listing.id edit v ∧ v.configuration = pinning
  | .updateRead p => ∃ v, t.JudgedEdit p.id p.edit v ∧ Checked w p v
  | .updateLatest p categoryId => ∃ v, t.JudgedEdit p.id p.edit v ∧ Checked w p v ∧ v.categoryId = categoryId
  | .updateWrite p categoryVersionId =>
    ∃ v, t.JudgedEdit p.id p.edit v ∧ Checked w p v ∧ v.id = categoryVersionId
  | _ => True

section

variable {w : Wiring} {t t' : Tables}

theorem Fits.grows {l l' : Listing} (h : t.Fits l) (hg : Grows t t') (hcategory : l'.categoryId = l.categoryId)
    (hversion : l'.categoryVersionId = l.categoryVersionId) (hattributes : l'.attributes = l.attributes)
    (hdetails : l'.details = l.details) : t'.Fits l' := by
  obtain ⟨v, hv, hid, hcat, htakes⟩ := h
  rw [Fits, hcategory, hversion, hattributes, hdetails]
  exact ⟨v, hg.versions v hv, hid, hcat, htakes⟩

theorem JudgedDraft.grows {draft : ListingDraft} {c : Category} {v : CategoryVersion}
    (h : t.JudgedDraft draft c v) (hg : Grows t t') : t'.JudgedDraft draft c v :=
  { h with
    category := by
      rw [findCategory, hg.categories]
      exact h.category
    version := hg.versions v h.version }

theorem JudgedEdit.grows {id : Id} {edit : ListingEdit} {v : CategoryVersion} (h : t.JudgedEdit id edit v)
    (hg : Grows t t') : t'.JudgedEdit id edit v := by
  refine { h with version := hg.versions v h.version, listing := ?_ }
  obtain ⟨l, hl, hid, hcategory⟩ := h.listing
  obtain ⟨l', hl', hid', -, hcategory'⟩ := hg.listings l hl
  exact ⟨l', hl', hid'.trans hid, hcategory'.trans hcategory⟩

theorem Read.grows {listing : ListingRecord} (h : t.Read listing) (hg : Grows t t') : t'.Read listing := by
  obtain ⟨l, hl, hid, c, hc, hslug, hcategory⟩ := h
  obtain ⟨l', hl', hid', -, hcategory'⟩ := hg.listings l hl
  refine ⟨l', hl', hid'.trans hid, c, ?_, hslug, hcategory.trans hcategory'.symm⟩
  rw [hg.categories]
  exact hc

theorem Judged.grows {c : Call} (h : t.Judged w c) (hg : Grows t t') : t'.Judged w c := by
  cases c with
  | draftLocate draft postcode =>
    obtain ⟨c, v, h⟩ := h
    exact ⟨c, v, h.grows hg⟩
  | draftPin draft =>
    obtain ⟨c, v, h⟩ := h
    exact ⟨c, v, h.grows hg⟩
  | draftWrite draft categoryId categoryVersionId =>
    obtain ⟨v, hv, h⟩ := h
    exact ⟨v, hg.versions v hv, h⟩
  | editOption listing submitted => exact Read.grows h hg
  | editOffset listing pinning edit location =>
    obtain ⟨v, h, hpinning⟩ := h
    exact ⟨v, h.grows hg, hpinning⟩
  | editLocate listing pinning edit location offset =>
    obtain ⟨v, h, hpinning⟩ := h
    exact ⟨v, h.grows hg, hpinning⟩
  | updateRead p =>
    obtain ⟨v, h, hchecked⟩ := h
    exact ⟨v, h.grows hg, hchecked⟩
  | updateLatest p categoryId =>
    obtain ⟨v, h, hchecked⟩ := h
    exact ⟨v, h.grows hg, hchecked⟩
  | updateWrite p categoryVersionId =>
    obtain ⟨v, h, hchecked⟩ := h
    exact ⟨v, h.grows hg, hchecked⟩
  | _ => trivial

namespace Sound

theorem version_eq (hs : t.Sound) {v v' : CategoryVersion} (hv : v ∈ t.versions) (hv' : v' ∈ t.versions)
    (hcategory : v.categoryId = v'.categoryId) (hnumber : v.versionNumber = v'.versionNumber) : v = v' :=
  Keyed.eq_of_key hs.numbers hv hv' (by rw [hcategory, hnumber])

theorem listing_eq (hs : t.Sound) {l l' : Listing} (hl : l ∈ t.listings) (hl' : l' ∈ t.listings)
    (hid : l.id = l'.id) : l = l' := Keyed.eq_of_key hs.listingIds hl hl' hid

theorem findVersion (hs : t.Sound) {v : CategoryVersion} (hv : v ∈ t.versions) : t.findVersion v.id = some v :=
  Keyed.find?_key hs.versionIds hv

theorem read (hs : t.Sound) {id ownerId : Id} {listing : ListingRecord}
    (h : t.findOwnedBy id ownerId = some listing) : t.Read listing := by
  obtain ⟨l, hrow, hrecord⟩ := findOwnedBy_spec h
  obtain ⟨v, c, hv, hc, hcid, rfl⟩ := toRecord_spec hrecord
  obtain ⟨hl, -, -⟩ := findRow_spec hrow
  obtain ⟨v', hv', hid, hcategory, -⟩ := hs.fits l hl
  rw [← hid, hs.findVersion hv'] at hv
  cases hv
  exact ⟨l, hl, rfl, c, hc, rfl, hcid.trans hcategory⟩

/-- The version that is current for a slug is one of the category of the listing
that was read. -/
theorem judgedEdit (hs : t.Sound) {listing : ListingRecord} (hread : t.Read listing) {option : CategoryOption}
    (hoption : t.findOption listing.categorySlug = some option) {edit : ListingEdit}
    (hnumber : option.version.versionNumber = edit.categoryVersionNumber)
    (htakes : option.version.Takes edit.attributes edit.details.transportRequirement) :
    t.JudgedEdit listing.id edit option.version := by
  obtain ⟨l, hl, hid, c, hc, hslug, hcategory⟩ := hread
  obtain ⟨hcategoryfound, hlatest⟩ := findOption_spec hoption
  obtain ⟨hoptionc, hoptions⟩ := findCategory_spec hcategoryfound
  obtain ⟨hv, hvcategory⟩ := latest_mem hlatest
  have hsame : option.category = c := Keyed.eq_of_key hs.slugs hoptionc hc (hoptions.trans hslug.symm)
  refine ⟨hv, hnumber, htakes, l, hl, hid, ?_⟩
  rw [hvcategory, hsame, hcategory]

theorem updateRows (hs : t.Sound) {id ownerId : Id} {change : Listing → Listing}
    {locations : List ListingLocation} (hid : ∀ l, (change l).id = l.id)
    (hfits : ∀ l ∈ t.listings, l.id = id → t.Fits (change l)) :
    Sound { t with listings := Catalogue.updateRows t.listings id ownerId change, locations := locations } := by
  refine { hs with listingIds := ?_, fits := ?_ }
  · have hids : (Catalogue.updateRows t.listings id ownerId change).map (·.id) = t.listings.map (·.id) := by
      rw [Catalogue.updateRows, List.map_map]
      apply List.map_congr_left
      intro l _
      simp only [Function.comp_apply]
      split
      · exact hid l
      · rfl
    exact hids ▸ hs.listingIds
  · intro l hl
    obtain ⟨hold, -⟩ | ⟨l₀, hl₀, hid₀, -, rfl⟩ := mem_updateRows.mp hl
    · exact hs.fits l hold
    · exact hfits l₀ hl₀ hid₀

end Sound

end

end Tables

section

variable {w : Wiring} {t t' : Tables} {d : Draw} {c c' : Call}

/-- What a statement writes fits, if what its call carries was judged. -/
theorem Moved.sound (h : Moved w t d c t' c') (hs : t.Sound) (hc : t.Judged w c) : t'.Sound := by
  have hg := h.grows
  cases h with
  | drafted hid =>
    rename_i draft categoryId categoryVersionId answer
    refine { hs with listingIds := Keyed.nodup_append hs.listingIds hid, fits := ?_ }
    intro l hl
    obtain hold | hnew := List.mem_append.mp hl
    · exact (hs.fits l hold).grows hg rfl rfl rfl rfl
    · rw [List.mem_singleton.mp hnew]
      exact hc
  | updated hrow hlocations =>
    rename_i p categoryVersionId l₀ locations
    obtain ⟨v, hjudged, -, hvid⟩ := hc
    refine hs.updateRows (fun _ => rfl) ?_
    intro l hl hid
    obtain ⟨l₁, hl₁, hid₁, hcategory⟩ := hjudged.listing
    have hsame : l₁ = l := hs.listing_eq hl₁ hl (hid₁.trans hid.symm)
    rw [hsame] at hcategory
    exact ⟨v, hjudged.version, hvid, hcategory.symm, hjudged.takes⟩
  | published hrow => exact hs.updateRows (fun _ => rfl) (fun l hl _ => hs.fits l hl)
  | paused hrow => exact hs.updateRows (fun _ => rfl) (fun l hl _ => hs.fits l hl)
  | versionAdded hid hnumber =>
    refine { hs with versionIds := Keyed.nodup_append hs.versionIds hid, numbers := ?_, fits := ?_ }
    · apply Keyed.nodup_append hs.numbers
      intro v hv hsame
      obtain ⟨hcategory, hversion⟩ := Prod.mk.inj hsame
      exact hnumber v hv hcategory hversion
    · intro l hl
      exact (hs.fits l hl).grows hg rfl rfl rfl rfl
  | audited => exact { hs with fits := fun l hl => (hs.fits l hl).grows hg rfl rfl rfl rfl }
  | _ => exact hs

/-- Where a statement takes its call, what the call carries is judged too. -/
theorem Moved.judged (h : Moved w t d c t' c') (hs : t.Sound) (hc : t.Judged w c) : t'.Judged w c' := by
  cases h with
  | judgedDraft hoption hversion htakes hunplaced hthere =>
    rename_i submitted option draft
    obtain ⟨hcategory, hlatest⟩ := Tables.findOption_spec hoption
    obtain ⟨hv, hvcategory⟩ := Tables.latest_mem hlatest
    have hdraft : t.JudgedDraft draft option.category option.version :=
      ⟨hcategory, hv, hvcategory, hversion, htakes⟩
    obtain rfl | ⟨postcode, rfl⟩ := hthere
    · exact ⟨_, _, hdraft⟩
    · exact ⟨_, _, hdraft⟩
  | locatedDraft =>
    obtain ⟨c, v, hdraft⟩ := hc
    exact ⟨c, v, { hdraft with }⟩
  | pinnedDraft hoption hversion =>
    rename_i draft option
    obtain ⟨c, v, hdraft⟩ := hc
    obtain ⟨hcategory, hlatest⟩ := Tables.findOption_spec hoption
    obtain ⟨hv, hvcategory⟩ := Tables.latest_mem hlatest
    have hsame : option.category = c := Option.some.inj (hcategory.symm.trans hdraft.category)
    have hversions : option.version = v := hs.version_eq hv hdraft.version
      (by rw [hvcategory, hsame, hdraft.categoryId]) (by rw [hversion, hdraft.number])
    exact ⟨v, hdraft.version, by rw [hversions], by rw [hsame, hdraft.categoryId], hdraft.takes⟩
  | foundEdited hlisting => exact hs.read hlisting
  | placingEdit hoption hversion htakes => exact ⟨_, hs.judgedEdit hc hoption hversion htakes, rfl⟩
  | judgedEdit hoption hversion htakes hunplaced hthere =>
    have hedit := hs.judgedEdit hc hoption hversion htakes
    rename_i listing submitted option edit
    obtain ⟨refusal, hstop⟩ | ⟨checked, hgo, -, hcomplete⟩ :=
      recheck_cases w listing option.version.configuration edit false
    · rw [hthere, hstop]
      trivial
    · rw [hthere, hgo]
      exact ⟨_, hedit, hcomplete⟩
  | offsetRead => exact hc
  | placedEdit hthere =>
    rename_i listing pinning edit location offset
    obtain ⟨v, hedit, rfl⟩ := hc
    obtain ⟨refusal, hstop⟩ | ⟨checked, hgo, -, hcomplete⟩ :=
      recheck_cases w listing v.configuration
        { edit with collectionLocation :=
            .relocated location (offset.elim (locate w d) (relocate w d)) } offset.isNone
    · rw [hthere, hstop]
      trivial
    · rw [hthere, hgo]
      exact ⟨v, { hedit with }, hcomplete⟩
  | updateFound hrow =>
    rename_i p l
    obtain ⟨v, hedit, hchecked⟩ := hc
    obtain ⟨hl, hid, -⟩ := Tables.findRow_spec hrow
    obtain ⟨l₁, hl₁, hid₁, hcategory⟩ := hedit.listing
    have hsame : l₁ = l := hs.listing_eq hl₁ hl (hid₁.trans hid.symm)
    exact ⟨v, hedit, hchecked, by rw [← hcategory, hsame]⟩
  | pinnedUpdate hlatest hversion =>
    obtain ⟨v, hedit, hchecked, hcategory⟩ := hc
    obtain ⟨hv, hvcategory⟩ := Tables.latest_mem hlatest
    have hsame := hs.version_eq hv hedit.version (hvcategory.trans hcategory.symm)
      (hversion.trans hedit.number.symm)
    exact ⟨v, hedit, hchecked, by rw [hsame]⟩
  | _ => trivial

/-- The tables stay sound and what is judged stays judged, whatever the order of
the statements. -/
theorem sound_of_run {s₀ s : State} {as : List Action} (h₀ : s₀.tables.Sound) (hidle : s₀.calls = [])
    (hr : run (machine w).step s₀ as = some s) : Holds Tables.Sound (Tables.Judged w) s := by
  refine Holds.after_run ?_ ?_ (holds_of_no_calls hidle h₀) hr
  · intro t r _
    cases r <;> trivial
  · intro t d c t' c' hs hc h
    have hmoved := next_moved h
    exact ⟨hmoved.sound hs hc, hmoved.judged hs hc, fun c₂ hc₂ => hc₂.grows hmoved.grows⟩

end

/-- Whatever the order of drafts, edits and reconfigurations, every listing's
answers and transport requirement are what the checks let through under the very
version the row is pinned to, and a call that was refused has written nothing. -/
theorem stored_answers_fit {w : Wiring} {s₀ s : State} {as : List Action} (h₀ : s₀.tables.Sound)
    (hidle : s₀.calls = []) (hr : run (machine w).step s₀ as = some s) :
    (∀ l ∈ s.tables.listings, ∃ v, s.tables.findVersion l.categoryVersionId = some v ∧
      v.categoryId = l.categoryId ∧ v.Takes l.attributes l.details.transportRequirement ∧
      ∀ e ∈ l.attributes, ∃ a ∈ v.configuration.attributes, a.key = e.1 ∧ a.Legal e.2) ∧
    ∀ (i : Nat) (slug : String) (submitted current : Nat),
      s.calls[i]? = some (.returned (.refused (.categoryChanged slug submitted current))) →
        WroteNothing (machine w) s₀ as i := by
  obtain ⟨hs, -⟩ := sound_of_run h₀ hidle hr
  constructor
  · intro l hl
    obtain ⟨v, hv, hid, hcategory, htakes⟩ := hs.fits l hl
    obtain ⟨raw, hraw⟩ := htakes.validated
    exact ⟨v, hid ▸ hs.findVersion hv, hcategory, htakes, validateAttributeValues_legal hraw⟩
  · intro i slug submitted current hc
    refine wroteNothing_of_run (fun t d c t' c' h hto => (next_moved h).unwritten hto) hr ?_
    intro c' hc'
    rw [hc] at hc'
    cases hc'
    rfl

theorem sampleAnswers_fit : validateAttributeValues (sampleConfiguration "Mowers").attributes (some sampleAnswers) =
    .ok [("power", .text "petrol")] := by
  decide +kernel

theorem sampleStart_sound (status : ListingStatus) (description : String) (locations : List ListingLocation) :
    (sampleStart [sampleListing status description] locations).tables.Sound := by
  refine ⟨List.nodup_singleton _, List.nodup_singleton _, List.nodup_singleton _, List.nodup_singleton _, ?_⟩
  intro l hl
  rw [List.mem_singleton.mp hl]
  refine ⟨_, List.mem_singleton_self _, rfl, rfl, ⟨some sampleAnswers, sampleAnswers_fit⟩, ?_⟩
  intro requirement hsome
  cases hsome

/-- An edit is judged under the first version, and another version lands before
the edit is written. -/
def overtaken : List Action :=
  .arrive (sampleEdit 1 "A petrol mower" none) :: List.replicate 3 (runs 0 "x" ⟨0, 0⟩) ++
    .arrive (sampleReconfigure "Lawn mowers") :: List.replicate 4 (runs 1 "v2" ⟨0, 0⟩) ++
      [runs 0 "x" ⟨0, 0⟩]

theorem an_overtaken_edit_leaves_what_fits : ∃ s,
    run (machine sampleWiring).step (sampleStart [sampleListing .draft ""] [sampleLocation ⟨0, 600⟩]) overtaken = some s ∧
      (∀ l ∈ s.tables.listings, ∃ v, s.tables.findVersion l.categoryVersionId = some v ∧
        v.categoryId = l.categoryId ∧ v.Takes l.attributes l.details.transportRequirement ∧
        ∀ e ∈ l.attributes, ∃ a ∈ v.configuration.attributes, a.key = e.1 ∧ a.Legal e.2) ∧
      s.calls[0]? = some (.returned (.refused (.categoryChanged "mowers" 1 2))) ∧
      WroteNothing (machine sampleWiring) (sampleStart [sampleListing .draft ""] [sampleLocation ⟨0, 600⟩]) overtaken 0 := by
  have hrun : (run (machine sampleWiring).step (sampleStart [sampleListing .draft ""] [sampleLocation ⟨0, 600⟩]) overtaken).map
      (fun s => s.calls[0]?) = some (some (.returned (.refused (.categoryChanged "mowers" 1 2)))) := by
    decide +kernel
  obtain ⟨s, hr, hc⟩ := Option.map_eq_some_iff.mp hrun
  obtain ⟨hfits, hrefused⟩ := stored_answers_fit (sampleStart_sound .draft "" [sampleLocation ⟨0, 600⟩]) rfl hr
  exact ⟨s, hr, hfits, hc, hrefused 0 "mowers" 1 2 hc⟩

end RentalMarket.Catalogue
