import RentalMarket.Catalogue.PinnedSchema

namespace RentalMarket.Catalogue

open RentalMarket.Core RentalMarket.Pricing Runs Interleaving

/-- A stored row against the version it is pinned to. -/
def storedCandidate (w : Wiring) (t : Tables) (l : Listing) (v : CategoryVersion) : PublicationCandidate where
  description := l.details.description
  attributes := l.attributes
  categoryAttributes := v.configuration.attributes
  categoryTransportOptions := v.configuration.transportOptions
  transportRequirement := l.details.transportRequirement
  rates := l.details.rates
  hasCollectionLocation := (t.findLocation l.id).isSome
  isLocated := ((t.findLocation l.id).bind (·.point)).isSome
  ownerStatus := w.ownerStatus l.ownerId

namespace Tables

def complete (w : Wiring) (t : Tables) (l : Listing) : Bool :=
  (t.findVersion l.categoryVersionId).any (fun v => publicationBlockers (storedCandidate w t l v) = [])

/-- A published listing is complete. -/
def PublishedComplete (w : Wiring) (t : Tables) : Prop :=
  ∀ l ∈ t.listings, l.status = .published → t.complete w l = true

theorem complete_iff {w : Wiring} {t : Tables} {l : Listing} : t.complete w l = true ↔
    ∃ v, t.findVersion l.categoryVersionId = some v ∧ publicationBlockers (storedCandidate w t l v) = [] := by
  simp [complete, Option.any_eq_true]

end Tables

/-- An edit of the listing is written which leaves something out and was not checked, as its
listing was no published one when it was read. -/
def writesPermissively (w : Wiring) (s : State) (id : Id) : Action → Bool
  | .arrive _ => false
  | .exec i d => !d.fails &&
    match s.calls[i]? with
    | some (.updateWrite p categoryVersionId) =>
      decide (p.id = id) && (s.tables.findRow p.id p.ownerId).isSome && !p.checked &&
        (s.tables.findVersion categoryVersionId).any (fun v =>
          publicationBlockers (editedCandidate w p.ownerId v.configuration p.edit) ≠ [])
    | _ => false

/-- In the run a permissive edit of the listing was written after the publish had judged it. -/
def Overlapped (w : Wiring) (s₀ : State) (as : List Action) (i : Nat) (id : Id) : Prop :=
  ∃ pre a post t ownerId, as = pre ++ a :: post ∧ run (machine w).step s₀ pre = some t ∧
    t.calls[i]? = some (.publishWrite id ownerId) ∧ writesPermissively w t id a = true

/-- No permissive edit is written to a listing that is published by then, and a publish that one
has overlapped finds the row made complete again. -/
def KeptApart (w : Wiring) (s₀ : State) (as : List Action) : Prop :=
  ∀ pre a post t, as = pre ++ a :: post → run (machine w).step s₀ pre = some t →
    (∀ l ∈ t.tables.listings, l.status = .published → writesPermissively w t l.id a = false) ∧
    ∀ i d id ownerId, a = .exec i d → d.fails = false → t.calls[i]? = some (.publishWrite id ownerId) →
      Overlapped w s₀ pre i id → ∀ l, t.tables.findRow id ownerId = some l → t.tables.complete w l = true

/-- No permissive edit is written while the listing is published or a publish has judged it. -/
def apart (w : Wiring) (s : State) (a : Action) : Bool :=
  s.tables.listings.all (fun l => !writesPermissively w s l.id a ||
    decide (l.status ≠ .published) && s.calls.all (fun c =>
      match c with
      | .publishWrite id _ => decide (id ≠ l.id)
      | _ => true))

section

variable {w : Wiring} {t t' : Tables} {d : Draw} {c c' : Call}

theorem complete_of_judged {id ownerId : Id} {listing : ListingRecord}
    (hlisting : t.findOwnedBy id ownerId = some listing)
    (hcomplete : publicationBlockers (recordCandidate w listing) = []) {l : Listing}
    (hrow : t.findRow id ownerId = some l) : t.complete w l = true := by
  obtain ⟨l', hrow', hrecord⟩ := Tables.findOwnedBy_spec hlisting
  rw [hrow] at hrow'
  cases hrow'
  obtain ⟨v, c, hv, -, -, rfl⟩ := Tables.toRecord_spec hrecord
  refine Tables.complete_iff.mpr ⟨v, hv, ?_⟩
  rw [← hcomplete]
  simp only [storedCandidate, recordCandidate, Option.isSome_map]

theorem publicationBlockers_eq_nil {candidate : PublicationCandidate} :
    publicationBlockers candidate = [] ↔ descriptionBlockers candidate.description = [] ∧
      attributeBlockers candidate.attributes candidate.categoryAttributes = [] ∧
      transportBlockers candidate.categoryTransportOptions candidate.transportRequirement = [] ∧
      rateBlockers candidate.rates = [] ∧ ownerBlockers candidate.ownerStatus = [] ∧
      candidate.hasCollectionLocation = true ∧ candidate.isLocated = true := by
  have hlocation : locationBlockers candidate.hasCollectionLocation candidate.isLocated = [] ↔
      candidate.hasCollectionLocation = true ∧ candidate.isLocated = true := by
    simp only [locationBlockers]
    split
    · simp_all
    · split <;> simp_all
  simp only [publicationBlockers, List.append_eq_nil_iff, hlocation, and_assoc]

def editedRow (w : Wiring) (listingId : Id) (edit : CollectionLocationEdit) (old : Option ListingLocation) :
    Option ListingLocation :=
  match edit with
  | .cleared => none
  | .addressOnly location => old.map (fun l =>
      { l with
        postcode := location.postcode
        encryptedDetail := w.encrypt listingId location.line1 location.line2 })
  | .relocated location point =>
    some ⟨listingId, location.postcode, w.encrypt listingId location.line1 location.line2, point⟩

theorem find?_changedLocation {locations : List ListingLocation} {listingId : Id}
    (change : ListingLocation → ListingLocation)
    (hchange : ∀ l, l.listingId = listingId → (change l).listingId = listingId) (x : Id) :
    (locations.map (fun l => if l.listingId = listingId then change l else l)).find? (fun l => l.listingId = x) =
      if x = listingId then (locations.find? (fun l => l.listingId = x)).map change
      else locations.find? (fun l => l.listingId = x) := by
  induction locations with
  | nil => split <;> rfl
  | cons l locations ih =>
    rw [List.map_cons, List.find?_cons, List.find?_cons, ih]
    by_cases hl : l.listingId = listingId
    · by_cases hx : x = listingId
      · simp [hl, hx, hchange l hl]
      · simp [hl, hx, hchange l hl, Ne.symm hx]
    · by_cases hx : x = listingId
      · simp [hl, hx]
      · simp [hl, hx]

theorem any_location {locations : List ListingLocation} {listingId : Id} :
    locations.any (fun l => l.listingId = listingId) = true ↔
      ∃ l, locations.find? (fun l => l.listingId = listingId) = some l := by
  rw [← Option.isSome_iff_exists, List.find?_isSome, List.any_eq_true]

theorem findLocation_writeLocation {locations : List ListingLocation} {listingId : Id} {edit : CollectionLocationEdit}
    (h : writeLocation w t.locations listingId edit = some locations) (x : Id) :
    locations.find? (fun l => l.listingId = x) =
      if x = listingId then editedRow w listingId edit (t.findLocation x) else t.findLocation x := by
  cases edit with
  | cleared =>
    cases h
    rw [List.find?_filter]
    split
    · rename_i hx
      simp [editedRow, hx]
    · rename_i hx
      rw [Tables.findLocation]
      congr 1
      funext l
      by_cases hl : l.listingId = x
      · simp [hl, hx]
      · simp [hl]
  | addressOnly location =>
    simp only [writeLocation] at h
    split at h
    · cases h
      exact find?_changedLocation (fun l => { l with
        postcode := location.postcode
        encryptedDetail := w.encrypt listingId location.line1 location.line2 }) (fun _ hl => hl) x
    · cases h
  | relocated location point =>
    simp only [writeLocation] at h
    split at h
    · rename_i hany
      cases h
      rw [find?_changedLocation (fun _ => ⟨listingId, location.postcode,
        w.encrypt listingId location.line1 location.line2, point⟩) (fun _ _ => rfl)]
      split
      · rename_i hx
        obtain ⟨l, hl⟩ := any_location.mp hany
        rw [hx, hl]
        rfl
      · rfl
    · rename_i hany
      cases h
      rw [List.find?_append]
      split
      · rename_i hx
        have hnone : t.locations.find? (fun l => l.listingId = x) = none := by
          rw [hx]
          exact Option.eq_none_iff_forall_ne_some.mpr (fun l hl => hany (any_location.mpr ⟨l, hl⟩))
        rw [hnone]
        simp [editedRow, hx]
      · rename_i hx
        simp [Tables.findLocation, Ne.symm hx]

theorem complete_frame {l l' : Listing} (h : t.complete w l = true) (hid : l'.id = l.id)
    (howner : l'.ownerId = l.ownerId) (hdetails : l'.details = l.details) (hattributes : l'.attributes = l.attributes)
    (hpinned : l'.categoryVersionId = l.categoryVersionId)
    (hversion : ∀ v, t.findVersion l.categoryVersionId = some v → t'.findVersion l.categoryVersionId = some v)
    (hlocation : t'.findLocation l.id = t.findLocation l.id) : t'.complete w l' = true := by
  obtain ⟨v, hv, hblockers⟩ := Tables.complete_iff.mp h
  refine Tables.complete_iff.mpr ⟨v, hpinned ▸ hversion v hv, ?_⟩
  rw [← hblockers]
  simp only [storedCandidate, hid, howner, hdetails, hattributes, hlocation]

theorem located_of_complete {l : Listing} (h : t.complete w l = true) :
    ∃ location point, t.findLocation l.id = some location ∧ location.point = some point := by
  obtain ⟨v, -, hblockers⟩ := Tables.complete_iff.mp h
  obtain ⟨-, -, -, -, -, -, hlocated⟩ := publicationBlockers_eq_nil.mp hblockers
  obtain ⟨point, hpoint⟩ := Option.isSome_iff_exists.mp hlocated
  obtain ⟨location, hlocation, hpoint⟩ := Option.bind_eq_some_iff.mp hpoint
  exact ⟨location, point, hlocation, hpoint⟩

theorem edited_blockers_iff {l : Listing} {p : PendingEdit} {locations : List ListingLocation}
    {categoryVersionId : Id} {v : CategoryVersion} (hid : l.id = p.id) (howner : l.ownerId = p.ownerId)
    {location : ListingLocation} {point : LocatedListingPoint} (hlocation : t.findLocation l.id = some location)
    (hpoint : location.point = some point)
    (hwritten : writeLocation w t.locations p.id p.edit.collectionLocation = some locations)
    (hlocations : t'.locations = locations) :
    publicationBlockers (storedCandidate w t' (applyEdit p.edit categoryVersionId l) v) = [] ↔
      publicationBlockers (editedCandidate w p.ownerId v.configuration p.edit) = [] := by
  have hfound : t'.findLocation l.id = editedRow w p.id p.edit.collectionLocation (some location) := by
    rw [Tables.findLocation, hlocations, findLocation_writeLocation hwritten, if_pos hid, hlocation]
  rw [publicationBlockers_eq_nil, publicationBlockers_eq_nil]
  simp only [storedCandidate, editedCandidate, applyEdit, hfound, howner]
  cases hedit : p.edit.collectionLocation with
  | cleared => simp [editedRow]
  | addressOnly address => simp [editedRow, willBeLocated, hpoint]
  | relocated address placed => simp [editedRow, willBeLocated]

theorem Moved.findVersion (h : Moved w t d c t' c') {id : Id} {v : CategoryVersion}
    (hv : t.findVersion id = some v) : t'.findVersion id = some v := by
  cases h with
  | versionAdded hid hnumber =>
    rw [Tables.findVersion, List.find?_append, ← Tables.findVersion, hv]
    rfl
  | _ => exact hv

theorem other_listing (hs : t.Sound) {id ownerId : Id} {row l : Listing} (hrow : t.findRow id ownerId = some row)
    (hl : l ∈ t.listings) (hother : ¬(l.id = id ∧ l.ownerId = ownerId)) : l.id ≠ id := by
  obtain ⟨hmem, hid, howner⟩ := Tables.findRow_spec hrow
  intro hsame
  have heq : l = row := hs.listing_eq hl hmem (hsame.trans hid.symm)
  exact hother ⟨hsame, heq ▸ howner⟩

theorem findRow_of_mem (hs : t.Sound) {l : Listing} (hl : l ∈ t.listings) : t.findRow l.id l.ownerId = some l := by
  have hfound : (t.findRow l.id l.ownerId).isSome = true := by
    rw [Tables.findRow, List.find?_isSome]
    exact ⟨l, hl, by simp⟩
  obtain ⟨row, hrow⟩ := Option.isSome_iff_exists.mp hfound
  obtain ⟨hmem, hid, -⟩ := Tables.findRow_spec hrow
  rw [hrow, hs.listing_eq hmem hl hid]

theorem same_listing (hs : t.Sound) {id ownerId : Id} {row l : Listing} (hrow : t.findRow id ownerId = some row)
    (hl : l ∈ t.listings) (hid : l.id = id) : l = row := by
  obtain ⟨hmem, hid', -⟩ := Tables.findRow_spec hrow
  exact hs.listing_eq hl hmem (hid.trans hid'.symm)

/-- A row before a statement and after it: only a publish publishes it, and only an edit that
leaves something out unchecked can make it incomplete. -/
structure CameFrom (w : Wiring) (t t' : Tables) (c : Call) (l l' : Listing) : Prop where
  id : l.id = l'.id
  ownerId : l.ownerId = l'.ownerId
  published : l'.status = .published → l.status = .published ∨ c = .publishWrite l.id l.ownerId
  complete : t.complete w l = true → (∀ p categoryVersionId v, c = .updateWrite p categoryVersionId → p.id = l.id →
    t.findRow p.id p.ownerId = some l → t.findVersion categoryVersionId = some v →
      p.checked = true ∨ publicationBlockers (editedCandidate w p.ownerId v.configuration p.edit) = []) →
    t'.complete w l' = true

/-- Where the rows after a statement were before it. -/
theorem Moved.row (h : Moved w t d c t' c') (hs : t.Sound) (hc : t.Judged w c) {l' : Listing}
    (hl' : l' ∈ t'.listings) : l'.status ≠ .published ∧ (∀ l ∈ t.listings, l.id ≠ l'.id) ∨
      ∃ l ∈ t.listings, CameFrom w t t' c l l' := by
  have hversion : ∀ {id v}, t.findVersion id = some v → t'.findVersion id = some v := h.findVersion
  have hkept (hlocation : t'.findLocation l'.id = t.findLocation l'.id) (hl : l' ∈ t.listings) :
      ∃ l ∈ t.listings, CameFrom w t t' c l l' :=
    ⟨l', hl, rfl, rfl, .inl, fun hcomplete _ => complete_frame hcomplete rfl rfl rfl rfl rfl (fun v => hversion) hlocation⟩
  cases h with
  | drafted hfresh =>
    obtain hold | hnew := List.mem_append.mp hl'
    · refine .inr ⟨l', hold, rfl, rfl, .inl, fun hcomplete _ => ?_⟩
      obtain ⟨location, -, hlocation, -⟩ := located_of_complete hcomplete
      refine complete_frame hcomplete rfl rfl rfl rfl rfl (fun v => hversion) ?_
      rw [hlocation, Tables.findLocation, List.find?_append, ← Tables.findLocation, hlocation]
      rfl
    · rw [List.mem_singleton.mp hnew]
      exact .inl ⟨nofun, hfresh⟩
  | updated hrow hlocations =>
    rename_i p categoryVersionId row locations
    right
    obtain ⟨hold, hother⟩ | ⟨l₀, hl₀, hid, howner, rfl⟩ := mem_updateRows.mp hl'
    · refine hkept ?_ hold
      rw [Tables.findLocation, findLocation_writeLocation hlocations, if_neg (other_listing hs hrow hold hother)]
    · refine ⟨l₀, hl₀, rfl, rfl, .inl, fun hcomplete hedit => ?_⟩
      obtain ⟨v, hjudged, hchecked, rfl⟩ := hc
      have hfound := hs.findVersion hjudged.version
      obtain ⟨location, point, hlocation, hpoint⟩ := located_of_complete hcomplete
      refine Tables.complete_iff.mpr ⟨v, hfound, ?_⟩
      apply (edited_blockers_iff hid howner hlocation hpoint hlocations rfl).mpr
      rw [← same_listing hs hrow hl₀ hid] at hrow
      obtain hcheck | hblockers := hedit p v.id v rfl hid.symm hrow hfound
      · exact hchecked hcheck
      · exact hblockers
  | published hrow =>
    right
    obtain ⟨hold, -⟩ | ⟨l₀, hl₀, hid, howner, rfl⟩ := mem_updateRows.mp hl'
    · exact hkept rfl hold
    · refine ⟨l₀, hl₀, rfl, rfl, fun _ => .inr (by rw [hid, howner]), fun hcomplete _ => ?_⟩
      exact complete_frame hcomplete rfl rfl rfl rfl rfl (fun v => hversion) rfl
  | paused hrow =>
    right
    obtain ⟨hold, -⟩ | ⟨l₀, hl₀, -, -, rfl⟩ := mem_updateRows.mp hl'
    · exact hkept rfl hold
    · refine ⟨l₀, hl₀, rfl, rfl, nofun, fun hcomplete _ => ?_⟩
      exact complete_frame hcomplete rfl rfl rfl rfl rfl (fun v => hversion) rfl
  | versionAdded hid hnumber => exact .inr (hkept rfl hl')
  | audited => exact .inr (hkept rfl hl')
  | _ => exact .inr (hkept rfl hl')

theorem writeLocation_of_found (w : Wiring) {listingId : Id} (edit : CollectionLocationEdit)
    {location : ListingLocation} (h : t.findLocation listingId = some location) :
    ∃ locations, writeLocation w t.locations listingId edit = some locations := by
  have hany := any_location.mpr ⟨location, h⟩
  cases edit with
  | cleared => exact ⟨_, rfl⟩
  | addressOnly address =>
    rw [writeLocation, if_pos hany]
    exact ⟨_, rfl⟩
  | relocated address point =>
    simp only [writeLocation, if_pos hany]
    exact ⟨_, rfl⟩

theorem publish_leaves_complete {id ownerId : Id} {row : Listing} (hrow : t.findRow id ownerId = some row)
    (h : ({ t with listings := updateRows t.listings id ownerId (fun l => { l with status := .published }) } :
      Tables).PublishedComplete w) : t.complete w row = true := by
  obtain ⟨hmem, hid, howner⟩ := Tables.findRow_spec hrow
  have hafter := h _ (mem_updateRows.mpr (.inr ⟨row, hmem, hid, howner, rfl⟩)) rfl
  exact complete_frame hafter rfl rfl rfl rfl rfl (fun _ hv => hv) rfl

theorem edit_leaves_complete {p : PendingEdit} {row : Listing} {categoryVersionId : Id} {v : CategoryVersion}
    {locations : List ListingLocation} (hrow : t.findRow p.id p.ownerId = some row)
    (hpublished : row.status = .published) {location : ListingLocation} {point : LocatedListingPoint}
    (hlocation : t.findLocation row.id = some location) (hpoint : location.point = some point)
    (hlocations : writeLocation w t.locations p.id p.edit.collectionLocation = some locations)
    (hv : t.findVersion categoryVersionId = some v)
    (h : ({ t with
      listings := updateRows t.listings p.id p.ownerId (applyEdit p.edit categoryVersionId)
      locations := locations } : Tables).PublishedComplete w) :
    publicationBlockers (editedCandidate w p.ownerId v.configuration p.edit) = [] := by
  obtain ⟨hmem, hid, howner⟩ := Tables.findRow_spec hrow
  have hafter := h _ (mem_updateRows.mpr (.inr ⟨row, hmem, hid, howner, rfl⟩)) hpublished
  obtain ⟨v', hv', hblockers⟩ := Tables.complete_iff.mp hafter
  have hsame : some v' = some v := hv'.symm.trans hv
  cases hsame
  exact (edited_blockers_iff hid howner hlocation hpoint hlocations rfl).mp hblockers

section

variable {s s' s₀ : State} {a : Action} {as : List Action} {i : Nat} {id ownerId : Id}

theorem Overlapped.longer (h : Overlapped w s₀ as i id) : Overlapped w s₀ (as ++ [a]) i id := by
  obtain ⟨pre, b, post, t, ownerId, rfl, hpre, hc, hwrites⟩ := h
  exact ⟨pre, b, post ++ [a], t, ownerId, by simp, hpre, hc, hwrites⟩

theorem KeptApart.left {bs : List Action} (h : KeptApart w s₀ (as ++ bs)) : KeptApart w s₀ as := by
  rintro pre a post t rfl hpre
  exact h pre a (post ++ bs) t (by simp) hpre

theorem writesPermissively_iff {d : Draw} {p : PendingEdit} {categoryVersionId : Id}
    (hc : s.calls[i]? = some (.updateWrite p categoryVersionId)) : writesPermissively w s id (.exec i d) = true ↔
      d.fails = false ∧ p.id = id ∧ (s.tables.findRow p.id p.ownerId).isSome = true ∧ p.checked = false ∧
        ∃ v, s.tables.findVersion categoryVersionId = some v ∧
          publicationBlockers (editedCandidate w p.ownerId v.configuration p.edit) ≠ [] := by
  simp [writesPermissively, hc, Option.any_eq_true, and_assoc]

theorem listing_of_writesPermissively (h : writesPermissively w s id a = true) : ∃ l ∈ s.tables.listings, l.id = id := by
  cases a with
  | arrive r => cases h
  | exec i d =>
    cases hc : s.calls[i]? with
    | none => simp [writesPermissively, hc] at h
    | some c =>
      cases c with
      | updateWrite p categoryVersionId =>
        obtain ⟨-, rfl, hfound, -⟩ := (writesPermissively_iff hc).mp h
        obtain ⟨row, hrow⟩ := Option.isSome_iff_exists.mp hfound
        obtain ⟨hl, hid, -⟩ := Tables.findRow_spec hrow
        exact ⟨row, hl, hid⟩
      | _ => simp [writesPermissively, hc] at h

theorem CameFrom.complete_of_step {d : Draw} {t' : Tables} {l l' : Listing} (h : CameFrom w s.tables t' c l l')
    (hc : s.calls[i]? = some c) (hsucceeds : d.fails = false)
    (hspares : writesPermissively w s l.id (.exec i d) = false) (hcomplete : s.tables.complete w l = true) :
    t'.complete w l' = true := by
  refine h.complete hcomplete (fun p categoryVersionId v hupdate hid hrow hv => ?_)
  subst hupdate
  by_contra hpermissive
  push Not at hpermissive
  obtain ⟨hunchecked, hblockers⟩ := hpermissive
  rw [Bool.eq_false_iff] at hspares
  refine hspares ((writesPermissively_iff hc).mpr ⟨hsucceeds, hid, ?_, by simpa using hunchecked, v, hv, hblockers⟩)
  rw [hrow]
  rfl

/-- What holds while edits and publishes are kept apart: a published row is complete, and so is
one that a publish has judged and no permissive edit has overlapped. -/
structure Kept (w : Wiring) (s₀ : State) (as : List Action) (s : State) : Prop where
  published : s.tables.PublishedComplete w
  judged : ∀ (i : Nat) (id ownerId : Id), s.calls[i]? = some (.publishWrite id ownerId) →
    ¬Overlapped w s₀ as i id → ∃ l ∈ s.tables.listings, l.id = id ∧ s.tables.complete w l = true

namespace Kept

theorem step_published (hk : Kept w s₀ as s) (hs : Holds Tables.Sound (Tables.Judged w) s)
    (hapart : KeptApart w s₀ (as ++ [a])) (hr : run (machine w).step s₀ as = some s)
    (h : (machine w).step s a = some s') : s'.tables.PublishedComplete w := by
  obtain hsame | ⟨i, d, c, c', rfl, hc, hnext⟩ := step_tables h
  · rw [hsame]
    exact hk.published
  cases hfails : d.fails with
  | true =>
    rw [(next_of_fails hnext hfails).1]
    exact hk.published
  | false =>
    obtain ⟨hedits, hpublishes⟩ := hapart as (.exec i d) [] s rfl hr
    intro l' hl' hpublished
    obtain ⟨hunpublished, -⟩ | ⟨l, hl, hfrom⟩ := (next_moved hnext).row hs.1 (hs.2 i c hc) hl'
    · exact absurd hpublished hunpublished
    · obtain hbefore | rfl := hfrom.published hpublished
      · exact hfrom.complete_of_step hc hfails (hedits l hl hbefore) (hk.published l hl hbefore)
      · refine hfrom.complete ?_ (fun _ _ _ hupdate => by cases hupdate)
        by_cases hoverlapped : Overlapped w s₀ as i l.id
        · exact hpublishes i d l.id l.ownerId rfl hfails hc hoverlapped l (findRow_of_mem hs.1 hl)
        · obtain ⟨l₀, hl₀, hid, hcomplete⟩ := hk.judged i l.id l.ownerId hc hoverlapped
          rwa [hs.1.listing_eq hl hl₀ hid.symm]

theorem recheck_ne_publishWrite (w : Wiring) (listing : ListingRecord) (pinning : CategoryConfiguration)
    (edit : ListingEdit) (drawn : Bool) : recheck w listing pinning edit drawn ≠ .publishWrite id ownerId := by
  obtain ⟨refusal, hgo⟩ | ⟨checked, hgo, -⟩ := recheck_cases w listing pinning edit drawn <;> rw [hgo] <;> nofun

theorem step_complete (hs : Holds Tables.Sound (Tables.Judged w) s)
    (h : (machine w).step s a = some s') {l : Listing} (hl : l ∈ s.tables.listings) (hcomplete : s.tables.complete w l = true)
    (hspares : writesPermissively w s l.id a = false) :
    ∃ l' ∈ s'.tables.listings, l'.id = l.id ∧ s'.tables.complete w l' = true := by
  obtain hsame | ⟨i, d, c, c', rfl, hc, hnext⟩ := step_tables h
  · rw [hsame]
    exact ⟨l, hl, rfl, hcomplete⟩
  cases hfails : d.fails with
  | true =>
    rw [(next_of_fails hnext hfails).1]
    exact ⟨l, hl, rfl, hcomplete⟩
  | false =>
    obtain ⟨l', hl', hid, -⟩ := (step_grows h).listings l hl
    refine ⟨l', hl', hid, ?_⟩
    obtain ⟨-, hfresh⟩ | ⟨l₀, hl₀, hfrom⟩ := (next_moved hnext).row hs.1 (hs.2 i c hc) hl'
    · exact absurd hid.symm (hfresh l hl)
    · obtain rfl : l₀ = l := hs.1.listing_eq hl₀ hl (hfrom.id.trans hid)
      exact hfrom.complete_of_step hc hfails hspares hcomplete

theorem step_judged (hk : Kept w s₀ as s) (hs : Holds Tables.Sound (Tables.Judged w) s)
    (hr : run (machine w).step s₀ as = some s) (h : (machine w).step s a = some s')
    (hc : s'.calls[i]? = some (.publishWrite id ownerId)) (hoverlapped : ¬Overlapped w s₀ (as ++ [a]) i id) :
    ∃ l ∈ s'.tables.listings, l.id = id ∧ s'.tables.complete w l = true := by
  obtain ⟨hold, -⟩ | ⟨r, -, hstart⟩ | ⟨d, c, rfl, hc₀, hnext⟩ := step_call h hc
  · obtain ⟨l, hl, rfl, hcomplete⟩ := hk.judged i id ownerId hold (fun hbefore => hoverlapped hbefore.longer)
    refine step_complete hs h hl hcomplete ?_
    rw [Bool.eq_false_iff]
    exact fun hwrites => hoverlapped ⟨as, a, [], s, ownerId, rfl, hr, hold, hwrites⟩
  · cases r <;> cases hstart
  · generalize s'.tables = t' at *
    cases next_moved hnext with
    | judgedPublish hlisting hblockers =>
      obtain ⟨l, hrow, -⟩ := Tables.findOwnedBy_spec hlisting
      obtain ⟨hl, hid, -⟩ := Tables.findRow_spec hrow
      exact ⟨l, hl, hid, complete_of_judged hlisting hblockers hrow⟩
    | judgedDraft hoption hversion htakes hunplaced hthere =>
      obtain hthere | ⟨postcode, hthere⟩ := hthere <;> cases hthere
    | judgedEdit hoption hversion htakes hunplaced hthere => exact absurd hthere.symm (recheck_ne_publishWrite _ _ _ _ _)
    | placedEdit hthere => exact absurd hthere.symm (recheck_ne_publishWrite _ _ _ _ _)

theorem after_step (hk : Kept w s₀ as s) (hs : Holds Tables.Sound (Tables.Judged w) s)
    (hapart : KeptApart w s₀ (as ++ [a])) (hr : run (machine w).step s₀ as = some s)
    (h : (machine w).step s a = some s') : Kept w s₀ (as ++ [a]) s' where
  published := hk.step_published hs hapart hr h
  judged _ _ _ hc hoverlapped := hk.step_judged hs hr h hc hoverlapped

end Kept

theorem not_permissive_of_complete (hs : s.tables.Sound) (hcomplete : s.tables.PublishedComplete w)
    (h : (machine w).step s a = some s') (hcomplete' : s'.tables.PublishedComplete w) {l : Listing}
    (hl : l ∈ s.tables.listings) (hpublished : l.status = .published) : writesPermissively w s l.id a = false := by
  rw [Bool.eq_false_iff]
  intro hwrites
  cases a with
  | arrive r => cases hwrites
  | exec i d =>
    obtain ⟨c, c', hc, hnext, -⟩ := step_exec.mp h
    cases c with
    | updateWrite p categoryVersionId =>
      obtain ⟨hfails, hid, hfound, -, v, hv, hblockers⟩ := (writesPermissively_iff hc).mp hwrites
      obtain ⟨row, hrow⟩ := Option.isSome_iff_exists.mp hfound
      obtain rfl : l = row := same_listing hs hrow hl hid.symm
      obtain ⟨location, point, hlocation, hpoint⟩ := located_of_complete (hcomplete l hl hpublished)
      obtain ⟨locations, hlocations⟩ := writeLocation_of_found w p.edit.collectionLocation (hid ▸ hlocation)
      simp only [machine, next, Call.isReturned, hfails, nextStatement, nextEdit, hrow, hlocations,
        Bool.false_eq_true, if_false, Option.some.injEq, Prod.mk.injEq] at hnext
      obtain ⟨htables, -⟩ := hnext
      exact hblockers (edit_leaves_complete hrow hpublished hlocation hpoint hlocations hv (htables ▸ hcomplete'))
    | _ => simp [writesPermissively, hc] at hwrites

theorem complete_of_publish {d : Draw} (hc : s.calls[i]? = some (.publishWrite id ownerId)) (hfails : d.fails = false)
    (h : (machine w).step s (.exec i d) = some s') (hcomplete' : s'.tables.PublishedComplete w) {l : Listing}
    (hrow : s.tables.findRow id ownerId = some l) : s.tables.complete w l = true := by
  obtain ⟨c', hnext, -⟩ := step_ran hc h
  simp only [machine, next, Call.isReturned, hfails, nextStatement, nextStatus, hrow, Bool.false_eq_true,
    if_false, Option.some.injEq, Prod.mk.injEq] at hnext
  obtain ⟨htables, -⟩ := hnext
  exact publish_leaves_complete hrow (htables ▸ hcomplete')

theorem keptApart_of_apart (hmeets : Meets (machine w).step (fun s a => apart w s a = true) s₀ as) :
    KeptApart w s₀ as := by
  have hapart {pre post : List Action} {b : Action} {t : State} (hcut : as = pre ++ b :: post)
      (hpre : run (machine w).step s₀ pre = some t) {l : Listing} (hl : l ∈ t.tables.listings)
      (hwrites : writesPermissively w t l.id b = true) :
      l.status ≠ .published ∧ ∀ c ∈ t.calls, ∀ ownerId, c ≠ .publishWrite l.id ownerId := by
    have hall := meets_iff.mp hmeets pre b post t hcut hpre
    have hrow := List.all_eq_true.mp hall l hl
    simp only [hwrites, Bool.not_true, Bool.false_or, Bool.and_eq_true, decide_eq_true_eq] at hrow
    obtain ⟨hunpublished, hcalls⟩ := hrow
    refine ⟨hunpublished, fun c hc ownerId hpublish => ?_⟩
    have hother := List.all_eq_true.mp hcalls c hc
    rw [hpublish] at hother
    exact of_decide_eq_true hother rfl
  intro pre a post t hcut hpre
  refine ⟨?_, ?_⟩
  · intro l hl hpublished
    rw [Bool.eq_false_iff]
    exact fun hwrites => (hapart hcut hpre hl hwrites).1 hpublished
  · rintro i d id ownerId rfl - - ⟨bs, b, cs, u, ownerId', rfl, hbs, hc, hwrites⟩ l -
    obtain ⟨l₀, hl₀, rfl⟩ := listing_of_writesPermissively hwrites
    have hcut' : as = bs ++ b :: (cs ++ .exec i d :: post) := by rw [hcut, List.append_assoc, List.cons_append]
    exact absurd rfl ((hapart hcut' hbs hl₀ hwrites).2 _ (List.mem_of_getElem? hc) ownerId')

/-- Published listings are complete in every state of a run exactly when permissive edits and
publishes are kept apart, and so when none is written while its listing is published or judged. -/
theorem published_listings_complete_iff (h₀ : s₀.tables.Sound) (hidle : s₀.calls = [])
    (hcomplete : s₀.tables.PublishedComplete w) (hr : run (machine w).step s₀ as = some s) :
    ((∀ pre post u, as = pre ++ post → run (machine w).step s₀ pre = some u → u.tables.PublishedComplete w) ↔
      KeptApart w s₀ as) ∧
    (Meets (machine w).step (fun s a => apart w s a = true) s₀ as →
      ∀ pre post u, as = pre ++ post → run (machine w).step s₀ pre = some u → u.tables.PublishedComplete w) := by
  have hcomplete_of (hapart : KeptApart w s₀ as) (pre post : List Action) (u : State) (hcut : as = pre ++ post)
      (hpre : run (machine w).step s₀ pre = some u) : u.tables.PublishedComplete w := by
    subst hcut
    have hkept : Kept w s₀ pre u := by
      refine run_induction (P := fun bs u => KeptApart w s₀ bs → Kept w s₀ bs u) ?_ ?_ hpre hapart.left
      · intro _
        refine ⟨hcomplete, fun i id ownerId hc => ?_⟩
        rw [hidle] at hc
        cases hc
      · intro bs v a v' hv ih hstep hbs
        exact (ih hbs.left).after_step (sound_of_run h₀ hidle hv) hbs hv hstep
    exact hkept.published
  refine ⟨⟨?_, hcomplete_of⟩, fun hmeets => hcomplete_of (keptApart_of_apart hmeets)⟩
  · intro hall pre a post t hcut hpre
    rw [hcut] at hr
    obtain ⟨t', h, -⟩ := run_rest hr hpre
    have hnext : run (machine w).step s₀ (pre ++ [a]) = some t' :=
      run_append_eq_some.mpr ⟨t, hpre, run_cons_eq_some.mpr ⟨t', h, rfl⟩⟩
    have hafter := hall (pre ++ [a]) post t' (by simp [hcut]) hnext
    refine ⟨fun l hl hpublished => ?_, ?_⟩
    · exact not_permissive_of_complete (sound_of_run h₀ hidle hpre).1 (hall pre (a :: post) t hcut hpre) h hafter hl
        hpublished
    · rintro i d id ownerId rfl hfails hc - l hrow
      exact complete_of_publish hc hfails h hafter hrow

end

end

def readyDraft : State := sampleStart [sampleListing .draft "A petrol mower"] [sampleLocation ⟨0, 600⟩]

def publishedThenEdited : List Action :=
  .arrive (.publish "mower" "olive") :: List.replicate 4 (runs 0 "x" ⟨0, 0⟩) ++
    .arrive (.pause "mower" "olive") :: List.replicate 3 (runs 1 "x" ⟨0, 0⟩) ++
      .arrive (.publish "mower" "olive") :: List.replicate 4 (runs 2 "x" ⟨0, 0⟩) ++
        .arrive (sampleEdit 1 "Petrol, serviced" (some sampleAddress)) :: List.replicate 6 (runs 3 "x" ⟨0, 0⟩)

theorem a_published_mower_is_complete :
    ∃ s, run (machine sampleWiring).step readyDraft publishedThenEdited = some s ∧
      s.tables.listings = [sampleListing .published "Petrol, serviced"] ∧
      ∀ pre post u, publishedThenEdited = pre ++ post → run (machine sampleWiring).step readyDraft pre = some u →
        u.tables.PublishedComplete sampleWiring := by
  have hrun : (run (machine sampleWiring).step readyDraft publishedThenEdited).map (·.tables.listings) =
      some [sampleListing .published "Petrol, serviced"] := by
    decide +kernel
  obtain ⟨s, hr, hlistings⟩ := Option.map_eq_some_iff.mp hrun
  have hcomplete : readyDraft.tables.PublishedComplete sampleWiring := by
    intro l hl hpublished
    rw [List.mem_singleton.mp hl] at hpublished
    cases hpublished
  exact ⟨s, hr, hlistings, (published_listings_complete_iff (sampleStart_sound _ _ _) rfl hcomplete hr).2
    (by decide +kernel)⟩

/-- An edit reads the draft, a publish judges it and publishes it, and the edit
writes a blank description, which nobody checks on a draft. -/
def blankedWhilePublishing : List Action :=
  .arrive (sampleEdit 1 "" (some sampleAddress)) :: runs 0 "x" ⟨0, 0⟩ ::
    .arrive (.publish "mower" "olive") :: List.replicate 4 (runs 1 "x" ⟨0, 0⟩) ++
      List.replicate 5 (runs 0 "x" ⟨0, 0⟩)

theorem a_published_mower_loses_its_description :
    ∃ s, run (machine sampleWiring).step readyDraft blankedWhilePublishing = some s ∧
      readyDraft.tables.Sound ∧ readyDraft.tables.PublishedComplete sampleWiring ∧
      ∃ l ∈ s.tables.listings, l.status = .published ∧ s.tables.complete sampleWiring l = false := by
  have hrun : (run (machine sampleWiring).step readyDraft blankedWhilePublishing).map (fun s =>
      (s.tables.listings, s.tables.complete sampleWiring (sampleListing .published ""))) =
        some ([sampleListing .published ""], false) := by
    decide +kernel
  obtain ⟨s, hr, hend⟩ := Option.map_eq_some_iff.mp hrun
  obtain ⟨hlistings, hincomplete⟩ := Prod.mk.inj hend
  refine ⟨s, hr, sampleStart_sound _ _ _, ?_, _, hlistings ▸ List.mem_singleton_self _, rfl, hincomplete⟩
  intro l hl hpublished
  rw [List.mem_singleton.mp hl] at hpublished
  cases hpublished

end RentalMarket.Catalogue
