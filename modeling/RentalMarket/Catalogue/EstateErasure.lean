import RentalMarket.Catalogue.Estate

namespace RentalMarket.Catalogue.Estate

open Runs Interleaving

def Platform.Owns (p : Platform) (id ownerId : Id) : Prop :=
  ∃ l ∈ p.catalogue.listings, l.id = id ∧ l.ownerId = ownerId

/-- The rows refer to one another as the tables have it. -/
structure Platform.Sound (p : Platform) : Prop where
  owner : ∀ {id o o'}, p.Owns id o → p.Owns id o' → o = o'
  located : ∀ x ∈ p.catalogue.locations, ∃ o, p.Owns x.listingId o
  pictured : ∀ row ∈ p.storage.table.rows, ∃ o, p.Owns row.listingId o
  booked : ∀ id ∈ p.bookings, ∃ o, p.Owns id o

/-- Nothing is left of the account but what somebody has booked, and of that
neither an address nor a photograph. -/
structure Platform.Bare (p : Platform) (ownerId : Id) : Prop where
  listings : ∀ id, p.Owns id ownerId → id ∈ p.bookings
  addresses : ∀ x ∈ p.catalogue.locations, ¬ p.Owns x.listingId ownerId
  photographs : ∀ row ∈ p.storage.table.rows, ¬ p.Owns row.listingId ownerId

inductive News where
  | nothing
  | listing (id ownerId : Id)
  | photograph (listingId : Id)
  | booking (listingId : Id)

def News.Fits (p : Platform) : News → Prop
  | nothing => True
  | listing id ownerId => ∀ o, p.Owns id o → o = ownerId
  | photograph listingId => ∃ o, p.Owns listingId o
  | booking listingId => ∃ o, p.Owns listingId o

/-- The statement brings this and no more, and takes no listing away. -/
structure Adds (p p' : Platform) (news : News) : Prop where
  owns : ∀ id o, p'.Owns id o ↔ p.Owns id o ∨ news = .listing id o
  addresses : ∀ x ∈ p'.catalogue.locations, (∃ o, news = .listing x.listingId o) ∨
    ∃ x₀ ∈ p.catalogue.locations, x₀.listingId = x.listingId
  photographs : ∀ row ∈ p'.storage.table.rows, news = .photograph row.listingId ∨
    ∃ row₀ ∈ p.storage.table.rows, row₀.listingId = row.listingId
  bookings : ∀ id, id ∈ p'.bookings ↔ id ∈ p.bookings ∨ news = .booking id

def writes : Catalogue.Call → Option Id
  | .draftWrite draft _ _ => some draft.ownerId
  | .updateWrite p _ => some p.ownerId
  | _ => none

def Call.hasErased (ownerId : Id) : Call → Bool
  | .erasing (.returned ownerId' .erased) => ownerId' = ownerId
  | _ => false

/-- The erasure is past the photographs of this listing. -/
def Call.hasSwept (p : Platform) (listingId : Id) : Call → Bool
  | .erasing (.deleting _ retain) => retain.contains listingId
  | .erasing (.returned ownerId .erased) => p.ownerOf listingId = some ownerId
  | _ => false

/-- Once erasure `i` has come back its account lists nothing more, and no
photograph is inserted where it has been past the photographs. -/
def spares (i : Nat) (s : State) : Action → Bool
  | .arrive _ => true
  | .exec j _ => match s.calls[j]? with
    | some (.owner c) => (writes c).all (fun ownerId => !(s.calls[i]?).any (Call.hasErased ownerId))
    | some (.photograph (.creating media _)) => !(s.calls[i]?).any (Call.hasSwept s.tables media.listingId)
    | _ => true

/-- Where a call of an erasure may be. -/
def Erasing.Ok (p : Platform) : Erasing → Prop
  | reading _ owned retain => ∀ id ∈ retain, id ∈ owned ∧ id ∈ p.bookings
  | discarding _ owned retain _ => ∀ id ∈ retain, id ∈ owned ∧ id ∈ p.bookings
  | deleting _ retain =>
    (∀ id ∈ retain, id ∈ p.bookings) ∧ ∀ row ∈ p.storage.table.rows, row.listingId ∉ retain
  | returned ownerId .erased => p.Bare ownerId
  | _ => True

structure Kept (i : Nat) (s : State) : Prop where
  sound : s.tables.Sound
  erasing : ∀ e : Erasing, s.calls[i]? = some (.erasing e) → e.Ok s.tables

inductive Wrote (p : Platform) (d : Draw) : Call → Platform → Call → Prop
  | quiet {c c' : Call} {p' : Platform} (hadds : Adds p p' .nothing) (hother : ∀ e, c' ≠ .erasing e) :
      Wrote p d c p' c'
  | listed {x x' : Catalogue.Call} {p' : Platform} {id ownerId : Id} (hwrites : writes x = some ownerId)
      (hfits : (News.listing id ownerId).Fits p) (hadds : Adds p p' (.listing id ownerId)) :
      Wrote p d (.owner x) p' (.owner x')
  | photographed {media : Media.NewListingMedia} {last : Option Nat} {x' : Media.Call} {p' : Platform}
      (hfits : (News.photograph media.listingId).Fits p) (hadds : Adds p p' (.photograph media.listingId)) :
      Wrote p d (.photograph (.creating media last)) p' (.photograph x')
  | booked {id : Id} {p' : Platform} (hfits : (News.booking id).Fits p) (hadds : Adds p p' (.booking id)) :
      Wrote p d (.booking id) p' (.booked id true)
  | failed {e : Erasing} (hfails : d.fails = true) : Wrote p d (.erasing e) p (.erasing (.returned e.ownerId .threw))
  | owned {ownerId : Id} :
      Wrote p d (.erasing (.listing ownerId)) p (.erasing (.asking ownerId (p.listIdsOwnedBy ownerId)))
  | asked {ownerId : Id} {owned : List Id} : Wrote p d (.erasing (.asking ownerId owned)) p
      (.erasing (.reading ownerId owned (p.findBookedListings owned)))
  | unpictured {ownerId : Id} {owned retain : List Id} (hnone : p.storage.table.listForListings owned = []) :
      Wrote p d (.erasing (.reading ownerId owned retain)) p (.erasing (.deleting ownerId retain))
  | read {ownerId : Id} {owned retain : List Id} {keys : List String} :
      Wrote p d (.erasing (.reading ownerId owned retain)) p (.erasing (.discarding ownerId owned retain keys))
  | discarded {ownerId : Id} {owned retain : List Id} {key : String} {keys : List String}
      {answer : Media.DeleteAnswer} : Wrote p d (.erasing (.discarding ownerId owned retain (key :: keys)))
      { p with storage := p.storage.discardKey Media.Storage.erasedWithAccount key answer }
      (.erasing (.discarding ownerId owned retain keys))
  | swept {ownerId : Id} {owned retain : List Id} : Wrote p d (.erasing (.discarding ownerId owned retain []))
      { p with storage := { p.storage with table := p.storage.table.deleteFor owned } }
      (.erasing (.deleting ownerId retain))
  | refused {ownerId : Id} {retain : List Id} (hrefused : p.eraseOwnedBy ownerId retain = none) :
      Wrote p d (.erasing (.deleting ownerId retain)) p (.erasing (.returned ownerId .threw))
  | erased {ownerId : Id} {retain : List Id} {p' : Platform}
      (herased : p.eraseOwnedBy ownerId retain = some p') :
      Wrote p d (.erasing (.deleting ownerId retain)) p' (.erasing (.returned ownerId .erased))

section

variable {w : Wiring} {p p' : Platform} {d : Draw} {c c' : Call}

theorem adds_nothing (hlistings : p'.catalogue.listings = p.catalogue.listings)
    (haddresses : ∀ x ∈ p'.catalogue.locations, ∃ x₀ ∈ p.catalogue.locations, x₀.listingId = x.listingId)
    (hrows : ∀ row ∈ p'.storage.table.rows, ∃ row₀ ∈ p.storage.table.rows, row₀.listingId = row.listingId)
    (hbookings : p'.bookings = p.bookings) : Adds p p' .nothing where
  owns id o := by
    rw [Platform.Owns, hlistings, or_iff_left nofun]
    rfl
  addresses x hx := .inr (haddresses x hx)
  photographs row hrow := .inr (hrows row hrow)
  bookings id := by
    rw [hbookings, or_iff_left nofun]

theorem adds_self (p : Platform) : Adds p p .nothing :=
  adds_nothing rfl (fun x hx => ⟨x, hx, rfl⟩) (fun row hrow => ⟨row, hrow, rfl⟩) rfl

theorem owns_updateRows {t : Tables} {id ownerId : Id} {change : Listing → Listing}
    (hid : ∀ l, (change l).id = l.id) (howner : ∀ l, (change l).ownerId = l.ownerId) (k o : Id) :
    (∃ l ∈ updateRows t.listings id ownerId change, l.id = k ∧ l.ownerId = o) ↔
      ∃ l ∈ t.listings, l.id = k ∧ l.ownerId = o := by
  constructor
  · rintro ⟨l, hl, rfl, rfl⟩
    obtain ⟨hl, -⟩ | ⟨l₀, hl₀, -, -, rfl⟩ := mem_updateRows.mp hl
    · exact ⟨l, hl, rfl, rfl⟩
    · exact ⟨l₀, hl₀, (hid l₀).symm, (howner l₀).symm⟩
  · rintro ⟨l, hl, rfl, rfl⟩
    by_cases hrow : l.id = id ∧ l.ownerId = ownerId
    · exact ⟨change l, mem_updateRows.mpr (.inr ⟨l, hl, hrow.1, hrow.2, rfl⟩), hid l, howner l⟩
    · exact ⟨l, mem_updateRows.mpr (.inl ⟨hl, hrow⟩), rfl, rfl⟩

/-- What an owner's statement brings. -/
theorem moved_wrote {t' : Tables} {x x' : Catalogue.Call} (hs : p.Sound)
    (h : Moved w.toWiring p.catalogue d.toDraw x t' x') :
    Wrote p d (.owner x) { p with catalogue := t' } (.owner x') := by
  have hquiet : ∀ {t' : Tables} {x x' : Catalogue.Call}, t'.listings = p.catalogue.listings →
      t'.locations = p.catalogue.locations → Wrote p d (.owner x) { p with catalogue := t' } (.owner x') := by
    intro t' x x' hlistings hlocations
    refine .quiet (adds_nothing hlistings ?_ (fun row hrow => ⟨row, hrow, rfl⟩) rfl) nofun
    intro y hy
    exact ⟨y, hlocations ▸ hy, rfl⟩
  have hupdates : ∀ {x x' : Catalogue.Call} {id ownerId : Id} {change : Listing → Listing},
      (∀ l, (change l).id = l.id) → (∀ l, (change l).ownerId = l.ownerId) → Wrote p d (.owner x)
        { p with catalogue := { p.catalogue with
          listings := updateRows p.catalogue.listings id ownerId change } } (.owner x') := by
    intro x x' id ownerId change hid howner
    refine .quiet ⟨fun k o => ?_, fun y hy => .inr ⟨y, hy, rfl⟩, fun row hrow => .inr ⟨row, hrow, rfl⟩,
      fun k => (or_iff_left nofun).symm⟩ nofun
    rw [or_iff_left nofun]
    exact owns_updateRows hid howner k o
  cases h with
  | @drafted draft categoryId categoryVersionId answer hid =>
    refine @Wrote.listed p d _ _ _ d.id draft.ownerId rfl ?_ ⟨fun k o => ?_, fun y hy => ?_,
      fun row hrow => .inr ⟨row, hrow, rfl⟩, fun k => (or_iff_left nofun).symm⟩
    · rintro o ⟨l, hl, hsame, -⟩
      exact absurd hsame (hid l hl)
    · simp only [Platform.Owns, List.mem_append, List.mem_singleton, or_and_right, exists_or,
        exists_eq_left, News.listing.injEq]
    · obtain hy | hy := List.mem_append.mp hy
      · exact .inr ⟨y, hy, rfl⟩
      · rw [Option.mem_toList, Option.map_eq_some_iff] at hy
        obtain ⟨location, -, rfl⟩ := hy
        exact .inl ⟨_, rfl⟩
  | @updated e categoryVersionId l locations hrow hlocations =>
    obtain ⟨hl, hid, howner⟩ := Tables.findRow_spec hrow
    refine @Wrote.listed p d _ _ _ e.id e.ownerId rfl (fun o ho => hs.owner ho ⟨l, hl, hid, howner⟩)
      ⟨fun k o => ?_, fun y hy => ?_, fun row hrow => .inr ⟨row, hrow, rfl⟩, fun k => (or_iff_left nofun).symm⟩
    · have hsame := @owns_updateRows p.catalogue e.id e.ownerId (applyEdit e.edit categoryVersionId)
        (fun _ => rfl) (fun _ => rfl) k o
      rw [Platform.Owns, hsame, News.listing.injEq]
      refine ⟨.inl, ?_⟩
      rintro (hown | ⟨rfl, rfl⟩)
      · exact hown
      · exact ⟨l, hl, hid, howner⟩
    · obtain ⟨y₀, hy₀, hsame, -⟩ | ⟨hsame, -⟩ := mem_writeLocation hlocations hy
      · exact .inr ⟨y₀, hy₀, hsame⟩
      · exact .inl ⟨_, by rw [hsame]⟩
  | published hrow => exact hupdates (fun _ => rfl) (fun _ => rfl)
  | paused hrow => exact hupdates (fun _ => rfl) (fun _ => rfl)
  | _ => exact hquiet rfl rfl

theorem ownerOf_eq_some (hs : p.Sound) {id ownerId : Id} :
    p.ownerOf id = some ownerId ↔ p.Owns id ownerId := by
  rw [Platform.ownerOf, Option.map_eq_some_iff]
  constructor
  · rintro ⟨l, hl, rfl⟩
    exact ⟨l, List.mem_of_find?_eq_some hl, by simpa using List.find?_some hl, rfl⟩
  · rintro ⟨l, hl, hid, howner⟩
    obtain ⟨l', hl'⟩ := Option.isSome_iff_exists.mp
      (List.find?_isSome.mpr ⟨l, hl, decide_eq_true hid⟩ : (p.catalogue.listings.find? (fun l => l.id = id)).isSome)
    refine ⟨l', hl', ?_⟩
    exact hs.owner ⟨l', List.mem_of_find?_eq_some hl', by simpa using List.find?_some hl', rfl⟩
      ⟨l, hl, hid, howner⟩

theorem exists_owns {id : Id} (h : (p.ownerOf id).isNone = false) : ∃ o, p.Owns id o := by
  obtain ⟨o, ho⟩ := Option.isSome_iff_exists.mp (by simpa using h)
  obtain ⟨l, hl, howner⟩ := Option.map_eq_some_iff.mp ho
  exact ⟨o, l, List.mem_of_find?_eq_some hl, by simpa using List.find?_some hl, howner⟩

theorem photograph_wrote {s' : Media.Storage} {x x' : Media.Call} (hthere : p.orphans x = false)
    (h : Media.next (w.media p) p.storage d.media x = some (s', x')) :
    Wrote p d (.photograph x) { p with storage := s' } (.photograph x') := by
  have hquiet : (∀ row ∈ s'.table.rows, ∃ row₀ ∈ p.storage.table.rows, row₀.listingId = row.listingId) →
      Wrote p d (.photograph x) { p with storage := s' } (.photograph x') :=
    fun hrows => .quiet (adds_nothing rfl (fun y hy => ⟨y, hy, rfl⟩) hrows rfl) nofun
  obtain hsame | ⟨media, last, rfl, -, hcreate⟩ | ⟨keeps, hkeep⟩ | ⟨listingId, mediaIds, hreorder⟩ :=
    Media.next_table h
  · exact hquiet (fun row hrow => ⟨row, hsame ▸ hrow, rfl⟩)
  · refine .photographed (exists_owns hthere) ⟨fun k o => (or_iff_left nofun).symm, fun y hy => .inr ⟨y, hy, rfl⟩,
      fun row hrow => ?_, fun k => (or_iff_left nofun).symm⟩
    rw [Media.MediaTable.create_rows hcreate] at hrow
    obtain hrow | hrow := List.mem_append.mp hrow
    · exact .inr ⟨row, hrow, rfl⟩
    · rw [List.mem_singleton.mp hrow]
      exact .inl rfl
  · refine hquiet (fun row hrow => ⟨row, ?_, rfl⟩)
    rw [hkeep] at hrow
    exact List.mem_of_mem_filter hrow
  · refine hquiet (fun row hrow => ?_)
    have hids := List.mem_map_of_mem (f := fun row : Media.ListingMediaRecord => row.listingId) hrow
    rw [hreorder, Media.MediaTable.reorder_listingIds] at hids
    exact List.mem_map.mp hids

theorem erasing_wrote {e e' : Erasing} (h : nextErasing p d e = some (p', e')) :
    Wrote p d (.erasing e) p' (.erasing e') := by
  cases e with
  | returned ownerId answer => cases h
  | listing ownerId =>
    simp only [nextErasing] at h
    split at h <;> cases h
    · exact .failed ‹_›
    · exact .owned
  | asking ownerId owned =>
    simp only [nextErasing] at h
    split at h <;> cases h
    · exact .failed ‹_›
    · exact .asked
  | reading ownerId owned booked =>
    simp only [nextErasing] at h
    split at h
    · cases h
      exact .failed ‹_›
    · obtain ⟨rfl, rfl⟩ := Prod.mk.inj (Option.some.inj h)
      split
      · rename_i hnone
        exact .unpictured hnone
      · exact .read
  | discarding ownerId owned booked keys =>
    cases keys with
    | nil =>
      simp only [nextErasing] at h
      split at h <;> cases h
      · exact .failed ‹_›
      · exact .swept
    | cons key keys =>
      cases h
      exact .discarded
  | deleting ownerId booked =>
    simp only [nextErasing] at h
    split at h
    · cases h
      exact .failed ‹_›
    · obtain hsame := Option.some.inj h
      cases herased : p.eraseOwnedBy ownerId booked with
      | none =>
        rw [herased] at hsame
        cases hsame
        exact .refused herased
      | some p₁ =>
        rw [herased] at hsame
        cases hsame
        exact .erased herased

theorem next_wrote (hs : p.Sound) (h : next w p d c = some (p', c')) : Wrote p d c p' c' := by
  cases c with
  | owner x =>
    obtain ⟨⟨t', x'⟩, hnext, hsame⟩ := Option.map_eq_some_iff.mp h
    cases hsame
    exact moved_wrote hs (next_moved hnext)
  | photograph x =>
    simp only [next] at h
    split at h
    · cases h
      exact .quiet (adds_self p) nofun
    · rename_i hthere
      obtain ⟨⟨s', x'⟩, hnext, hsame⟩ := Option.map_eq_some_iff.mp h
      cases hsame
      exact photograph_wrote (by simpa using hthere) hnext
  | booking id =>
    simp only [next] at h
    split at h
    · cases h
      exact .quiet (adds_self p) nofun
    · rename_i hgo
      cases h
      rw [Bool.or_eq_true, not_or, Bool.not_eq_true, Bool.not_eq_true] at hgo
      refine .booked (exists_owns hgo.2) ⟨fun k o => (or_iff_left nofun).symm, fun y hy => .inr ⟨y, hy, rfl⟩,
        fun row hrow => .inr ⟨row, hrow, rfl⟩, fun k => ?_⟩
      rw [List.mem_append, List.mem_singleton, News.booking.injEq, eq_comm]
  | booked id placed => cases h
  | erasing e =>
    obtain ⟨⟨p₁, e'⟩, hnext, hsame⟩ := Option.map_eq_some_iff.mp h
    cases hsame
    exact erasing_wrote hnext

structure Erases (p p' : Platform) (ownerId : Id) (retain : List Id) : Prop where
  owns : ∀ id o, p'.Owns id o ↔ p.Owns id o ∧ ¬(o = ownerId ∧ id ∉ retain)
  addresses : ∀ x ∈ p'.catalogue.locations, x ∈ p.catalogue.locations ∧ x.listingId ∉ retain ∧
    ¬ p.Owns x.listingId ownerId
  photographs : ∀ row ∈ p'.storage.table.rows, row ∈ p.storage.table.rows ∧
    (row.listingId ∈ retain ∨ ¬ p.Owns row.listingId ownerId)
  bookings : p'.bookings = p.bookings
  spared : ∀ id ∈ p.bookings, p.Owns id ownerId → id ∈ retain

theorem mem_gone {ownerId : Id} {retain : List Id} {id : Id} :
    id ∈ (p.catalogue.listings.filter (fun l => decide (l.ownerId = ownerId) && !retain.contains l.id)).map (·.id) ↔
      p.Owns id ownerId ∧ id ∉ retain := by
  simp only [List.mem_map, List.mem_filter, Bool.and_eq_true, decide_eq_true_eq, Bool.not_eq_true',
    List.contains_eq_mem, decide_eq_false_iff_not, Platform.Owns]
  constructor
  · rintro ⟨l, ⟨hl, howner, hkept⟩, rfl⟩
    exact ⟨⟨l, hl, rfl, howner⟩, hkept⟩
  · rintro ⟨⟨l, hl, rfl, howner⟩, hkept⟩
    exact ⟨l, ⟨hl, howner, hkept⟩, rfl⟩

theorem eraseOwnedBy_erases {ownerId : Id} {retain : List Id} (h : p.eraseOwnedBy ownerId retain = some p') :
    Erases p p' ownerId retain := by
  simp only [Platform.eraseOwnedBy] at h
  split at h
  · cases h
  · rename_i hfree
    cases h
    refine ⟨fun id o => ?_, fun x hx => ?_, fun row hrow => ?_, rfl, fun id hid howner => ?_⟩
    · simp only [Platform.Owns, List.mem_filter, Bool.not_eq_true', Bool.and_eq_false_iff,
        decide_eq_false_iff_not, Bool.not_eq_false', List.contains_eq_mem, decide_eq_true_eq]
      constructor
      · rintro ⟨l, ⟨hl, hkept⟩, rfl, rfl⟩
        exact ⟨⟨l, hl, rfl, rfl⟩, by tauto⟩
      · rintro ⟨⟨l, hl, rfl, rfl⟩, hkept⟩
        exact ⟨l, ⟨hl, by tauto⟩, rfl, rfl⟩
    · obtain ⟨hx, hkept⟩ := List.mem_filter.mp hx
      rw [Bool.and_eq_true, Bool.not_eq_true', Bool.not_eq_true', List.contains_eq_mem, List.contains_eq_mem,
        decide_eq_false_iff_not, decide_eq_false_iff_not, mem_gone] at hkept
      exact ⟨hx, hkept.1, fun howner => hkept.2 ⟨howner, hkept.1⟩⟩
    · obtain ⟨hrow, hkept⟩ := List.mem_filter.mp hrow
      rw [Bool.not_eq_true', List.contains_eq_mem, decide_eq_false_iff_not, mem_gone, not_and_not_right] at hkept
      exact ⟨hrow, by tauto⟩
    · by_contra hkept
      exact hfree (List.any_eq_true.mpr ⟨id, mem_gone.mpr ⟨howner, hkept⟩, by simpa using hid⟩)

theorem eraseOwnedBy_eq_none {ownerId : Id} {retain : List Id} :
    p.eraseOwnedBy ownerId retain = none ↔ ∃ id ∈ p.bookings, p.Owns id ownerId ∧ id ∉ retain := by
  simp only [Platform.eraseOwnedBy]
  split
  · rename_i hbooked
    obtain ⟨id, hid, hbooking⟩ := List.any_eq_true.mp hbooked
    exact iff_of_true rfl ⟨id, by simpa using hbooking, mem_gone.mp hid⟩
  · rename_i hfree
    refine iff_of_false nofun ?_
    rintro ⟨id, hid, hgone⟩
    exact hfree (List.any_eq_true.mpr ⟨id, mem_gone.mpr hgone, by simpa using hid⟩)

theorem Platform.Sound.adds (hs : p.Sound) {news : News} (hfits : news.Fits p) (hadds : Adds p p' news) :
    p'.Sound where
  owner := by
    intro id o o' h h'
    obtain h | rfl := (hadds.owns id o).mp h
    · obtain h' | hnews := (hadds.owns id o').mp h'
      · exact hs.owner h h'
      · rw [hnews] at hfits
        exact hfits o h
    · obtain h' | hnews := (hadds.owns id o').mp h'
      · exact (hfits o' h').symm
      · exact (News.listing.inj hnews).2
  located x hx := by
    obtain ⟨o, rfl⟩ | ⟨x₀, hx₀, hsame⟩ := hadds.addresses x hx
    · exact ⟨o, (hadds.owns _ o).mpr (.inr rfl)⟩
    · obtain ⟨o, ho⟩ := hs.located x₀ hx₀
      exact ⟨o, (hadds.owns _ o).mpr (.inl (hsame ▸ ho))⟩
  pictured row hrow := by
    obtain hnews | ⟨row₀, hrow₀, hsame⟩ := hadds.photographs row hrow
    · rw [hnews] at hfits
      obtain ⟨o, ho⟩ := hfits
      exact ⟨o, (hadds.owns _ o).mpr (.inl ho)⟩
    · obtain ⟨o, ho⟩ := hs.pictured row₀ hrow₀
      exact ⟨o, (hadds.owns _ o).mpr (.inl (hsame ▸ ho))⟩
  booked id hid := by
    obtain hid | hnews := (hadds.bookings id).mp hid
    · obtain ⟨o, ho⟩ := hs.booked id hid
      exact ⟨o, (hadds.owns _ o).mpr (.inl ho)⟩
    · rw [hnews] at hfits
      obtain ⟨o, ho⟩ := hfits
      exact ⟨o, (hadds.owns _ o).mpr (.inl ho)⟩

theorem Platform.Sound.erases (hs : p.Sound) {ownerId : Id} {retain : List Id}
    (herases : Erases p p' ownerId retain) : p'.Sound where
  owner h h' := hs.owner ((herases.owns _ _).mp h).1 ((herases.owns _ _).mp h').1
  located x hx := by
    obtain ⟨hx₀, -, hother⟩ := herases.addresses x hx
    obtain ⟨o, ho⟩ := hs.located x hx₀
    refine ⟨o, (herases.owns _ o).mpr ⟨ho, ?_⟩⟩
    rintro ⟨rfl, -⟩
    exact hother ho
  pictured row hrow := by
    obtain ⟨hrow₀, hkept⟩ := herases.photographs row hrow
    obtain ⟨o, ho⟩ := hs.pictured row hrow₀
    refine ⟨o, (herases.owns _ o).mpr ⟨ho, ?_⟩⟩
    rintro ⟨rfl, hgone⟩
    obtain hretained | hother := hkept
    · exact hgone hretained
    · exact hother ho
  booked id hid := by
    rw [herases.bookings] at hid
    obtain ⟨o, ho⟩ := hs.booked id hid
    refine ⟨o, (herases.owns _ o).mpr ⟨ho, ?_⟩⟩
    rintro ⟨rfl, hgone⟩
    exact hgone (herases.spared id hid ho)

theorem Platform.Bare.adds {ownerId : Id} (hb : p.Bare ownerId) {news : News} (hfits : news.Fits p)
    (hadds : Adds p p' news) (hlisting : ∀ id, news ≠ .listing id ownerId)
    (hphotograph : ∀ id, news = .photograph id → ¬ p.Owns id ownerId) : p'.Bare ownerId := by
  have howns : ∀ id, p'.Owns id ownerId → p.Owns id ownerId := by
    intro id h
    obtain h | hnews := (hadds.owns id ownerId).mp h
    · exact h
    · exact absurd hnews (hlisting id)
  refine ⟨fun id h => (hadds.bookings id).mpr (.inl (hb.listings id (howns id h))), fun x hx h => ?_,
    fun row hrow h => ?_⟩
  · obtain ⟨o, rfl⟩ | ⟨x₀, hx₀, hsame⟩ := hadds.addresses x hx
    · refine hlisting x.listingId ?_
      rw [hfits ownerId (howns _ h)]
    · exact hb.addresses x₀ hx₀ (hsame ▸ howns _ h)
  · obtain hnews | ⟨row₀, hrow₀, hsame⟩ := hadds.photographs row hrow
    · exact hphotograph _ hnews (howns _ h)
    · exact hb.photographs row₀ hrow₀ (hsame ▸ howns _ h)

theorem Platform.Bare.erases {ownerId ownerId' : Id} (hb : p.Bare ownerId) {retain : List Id}
    (herases : Erases p p' ownerId' retain) : p'.Bare ownerId := by
  have howns : ∀ id, p'.Owns id ownerId → p.Owns id ownerId := fun id h => ((herases.owns id ownerId).mp h).1
  refine ⟨fun id h => ?_, fun x hx h => ?_, fun row hrow h => ?_⟩
  · rw [herases.bookings]
    exact hb.listings id (howns id h)
  · exact hb.addresses x (herases.addresses x hx).1 (howns _ h)
  · exact hb.photographs row (herases.photographs row hrow).1 (howns _ h)

theorem bare_of_erases {ownerId : Id} {retain : List Id} (herases : Erases p p' ownerId retain)
    (hretain : ∀ id ∈ retain, id ∈ p.bookings)
    (hswept : ∀ row ∈ p.storage.table.rows, row.listingId ∉ retain) : p'.Bare ownerId := by
  refine ⟨fun id h => ?_, fun x hx h => ?_, fun row hrow h => ?_⟩
  · rw [herases.bookings]
    obtain ⟨-, hkept⟩ := (herases.owns id ownerId).mp h
    exact hretain id (by tauto)
  · exact (herases.addresses x hx).2.2 ((herases.owns _ _).mp h).1
  · obtain ⟨hrow₀, hretained | hother⟩ := herases.photographs row hrow
    · exact hswept row hrow₀ hretained
    · exact hother ((herases.owns _ _).mp h).1

theorem Erasing.Ok.adds {e : Erasing} (h : e.Ok p) (hs : p.Sound) {news : News} (hfits : news.Fits p)
    (hadds : Adds p p' news)
    (hlisting : ∀ id ownerId, news = .listing id ownerId → (Call.erasing e).hasErased ownerId = false)
    (hphotograph : ∀ id, news = .photograph id → (Call.erasing e).hasSwept p id = false) : e.Ok p' := by
  have hbookings : ∀ id ∈ p.bookings, id ∈ p'.bookings := fun id hid => (hadds.bookings id).mpr (.inl hid)
  cases e with
  | listing ownerId => trivial
  | asking ownerId owned => trivial
  | reading ownerId owned retain => exact fun id hid => ⟨(h id hid).1, hbookings id (h id hid).2⟩
  | discarding ownerId owned retain keys => exact fun id hid => ⟨(h id hid).1, hbookings id (h id hid).2⟩
  | deleting ownerId retain =>
    refine ⟨fun id hid => hbookings id (h.1 id hid), fun row hrow hretained => ?_⟩
    obtain hnews | ⟨row₀, hrow₀, hsame⟩ := hadds.photographs row hrow
    · have hunswept := hphotograph _ hnews
      simp [Call.hasSwept, hretained] at hunswept
    · exact h.2 row₀ hrow₀ (hsame ▸ hretained)
  | returned ownerId answer =>
    cases answer with
    | threw => trivial
    | erased =>
      refine Platform.Bare.adds h hfits hadds ?_ ?_
      · rintro id rfl
        have hlive := hlisting id ownerId rfl
        simp [Call.hasErased] at hlive
      · intro id hnews hown
        have hunswept := hphotograph id hnews
        rw [Call.hasSwept, (ownerOf_eq_some hs).mpr hown] at hunswept
        simp at hunswept

theorem Erasing.Ok.erases {e : Erasing} (h : e.Ok p) {ownerId : Id} {retain : List Id}
    (herases : Erases p p' ownerId retain) : e.Ok p' := by
  cases e with
  | listing ownerId => trivial
  | asking ownerId owned => trivial
  | reading ownerId owned retain =>
    rw [Ok, herases.bookings]
    exact h
  | discarding ownerId owned retain keys =>
    rw [Ok, herases.bookings]
    exact h
  | deleting ownerId retain =>
    rw [Ok, herases.bookings]
    exact ⟨h.1, fun row hrow => h.2 row (herases.photographs row hrow).1⟩
  | returned ownerId answer =>
    cases answer with
    | threw => trivial
    | erased => exact Platform.Bare.erases h herases

theorem wrote_ok {e e' : Erasing} (h : Wrote p d (.erasing e) p' (.erasing e')) (hok : e.Ok p) : e'.Ok p' := by
  cases h with
  | quiet hadds hother => exact absurd rfl (hother e')
  | failed hfails => trivial
  | owned => trivial
  | asked =>
    intro id hid
    obtain ⟨howned, hbooked⟩ := List.mem_filter.mp hid
    exact ⟨howned, by simpa using hbooked⟩
  | unpictured hnone =>
    refine ⟨fun id hid => (hok id hid).2, fun row hrow hretained => ?_⟩
    have hread := Media.mem_listForListings.mpr ⟨hrow, (hok _ hretained).1⟩
    rw [hnone] at hread
    cases hread
  | read => exact hok
  | discarded => exact hok
  | swept =>
    refine ⟨fun id hid => (hok id hid).2, fun row hrow hretained => ?_⟩
    exact (Media.mem_deleteFor.mp hrow).2 (hok _ hretained).1
  | refused hrefused => trivial
  | erased herased => exact bare_of_erases (eraseOwnedBy_erases herased) hok.1 hok.2

/-- What a statement brings, or the transaction that erases. -/
theorem Wrote.cases (h : Wrote p d c p' c') :
    (∃ news, news.Fits p ∧ Adds p p' news ∧
      (∀ id ownerId, news = .listing id ownerId → ∃ x, c = .owner x ∧ writes x = some ownerId) ∧
      (∀ id, news = .photograph id → ∃ media last, c = .photograph (.creating media last) ∧ media.listingId = id) ∧
      ∀ id, news = .booking id → c = .booking id) ∨
    ∃ ownerId retain, c = .erasing (.deleting ownerId retain) ∧ Erases p p' ownerId retain := by
  cases h with
  | quiet hadds hother => exact .inl ⟨.nothing, trivial, hadds, nofun, nofun, nofun⟩
  | @listed x x' p' id ownerId hwrites hfits hadds =>
    refine .inl ⟨.listing id ownerId, hfits, hadds, ?_, nofun, nofun⟩
    rintro id' ownerId' ⟨⟩
    exact ⟨x, rfl, hwrites⟩
  | @photographed media last x' p' hfits hadds =>
    refine .inl ⟨.photograph media.listingId, hfits, hadds, nofun, ?_, nofun⟩
    rintro id ⟨⟩
    exact ⟨media, last, rfl, rfl⟩
  | @booked id p' hfits hadds =>
    refine .inl ⟨.booking id, hfits, hadds, nofun, nofun, ?_⟩
    rintro id' ⟨⟩
    rfl
  | @discarded ownerId owned retain key keys answer =>
    refine .inl ⟨.nothing, trivial, adds_nothing rfl (fun x hx => ⟨x, hx, rfl⟩) (fun row hrow => ?_) rfl, nofun,
      nofun, nofun⟩
    cases answer <;> exact ⟨row, hrow, rfl⟩
  | swept =>
    refine .inl ⟨.nothing, trivial, adds_nothing rfl (fun x hx => ⟨x, hx, rfl⟩) (fun row hrow => ?_) rfl, nofun,
      nofun, nofun⟩
    exact ⟨row, (Media.mem_deleteFor.mp hrow).1, rfl⟩
  | erased herased => exact .inr ⟨_, _, rfl, eraseOwnedBy_erases herased⟩
  | _ => exact .inl ⟨.nothing, trivial, adds_self p, nofun, nofun, nofun⟩

variable {s s' : State} {a : Action} {i : Nat}

/-- Whoever's statement it is, the tables stay sound and the erasure may be
where it is. -/
theorem ok_step (h : Kept i s) (ha : spares i s a = true) (hx : (machine w).step s a = some s') :
    s'.tables.Sound ∧ ∀ e, s.calls[i]? = some (.erasing e) → e.Ok s'.tables := by
  obtain hsame | ⟨j, d, c, c', rfl, hc, hnext⟩ := step_tables hx
  · rw [hsame]
    exact ⟨h.sound, h.erasing⟩
  · obtain ⟨news, hfits, hadds, hlisting, hphotograph, -⟩ | ⟨ownerId, retain, -, herases⟩ :=
      (next_wrote h.sound hnext).cases
    · refine ⟨h.sound.adds hfits hadds, fun e he => (h.erasing e he).adds h.sound hfits hadds ?_ ?_⟩
      · intro id ownerId hnews
        obtain ⟨x, rfl, hwrites⟩ := hlisting id ownerId hnews
        simpa [spares, hc, hwrites, he] using ha
      · intro id hnews
        obtain ⟨media, last, rfl, rfl⟩ := hphotograph id hnews
        simpa [spares, hc, he] using ha
    · exact ⟨h.sound.erases herases, fun e he => (h.erasing e he).erases herases⟩

theorem kept_step (h : Kept i s) (ha : spares i s a = true) (hx : (machine w).step s a = some s') :
    Kept i s' := by
  obtain ⟨hsound, hstays⟩ := ok_step h ha hx
  refine ⟨hsound, fun e hie => ?_⟩
  obtain ⟨hold, -⟩ | ⟨r, rfl, hr⟩ | ⟨d, c, rfl, hc, hnext⟩ := step_call hx hie
  · exact hstays e hold
  · cases r with
    | erase ownerId =>
      cases hr
      trivial
    | _ => cases hr
  · have hwrote := next_wrote h.sound hnext
    cases c with
    | erasing e₀ => exact wrote_ok hwrote (h.erasing e₀ hc)
    | _ =>
      cases hwrote with
      | quiet hadds hother => exact absurd rfl (hother e)

/-- The listings an erasure has in hand, from when it has looked until it is over. -/
def Erasing.known : Erasing → Option (List Id)
  | asking _ owned => some owned
  | reading _ _ retain => some retain
  | discarding _ _ retain _ => some retain
  | deleting _ retain => some retain
  | _ => none

/-- The erasure is between its first statement and its last, and the listing is
its account's. -/
def Call.isErasing (p : Platform) (listingId : Id) : Call → Bool
  | .erasing e => e.known.isSome && p.ownerOf listingId = some e.ownerId
  | _ => false

/-- No statement of erasure `i` fails, and nobody books a listing of its account
while it is between its first and its last. -/
def undisturbed (i : Nat) (s : State) : Action → Bool
  | .arrive _ => true
  | .exec j d => match s.calls[j]? with
    | some (.booking id) => !(s.calls[i]?).any (Call.isErasing s.tables id)
    | some (.erasing _) => !(j = i && d.fails)
    | _ => true

/-- The erasure has in hand every listing of its account that is booked, and has
not failed. -/
structure Erasing.Knows (p : Platform) (e : Erasing) : Prop where
  known : ∀ known ∈ e.known, ∀ id ∈ p.bookings, p.Owns id e.ownerId → id ∈ known
  unfailed : ∀ ownerId, e ≠ .returned ownerId .threw

theorem Erasing.Knows.adds {e : Erasing} (h : e.Knows p) (hs : p.Sound) {news : News} (hfits : news.Fits p)
    (hadds : Adds p p' news)
    (hbooking : ∀ id, news = .booking id → p.Owns id e.ownerId → e.known = none) : e.Knows p' := by
  refine ⟨fun known hknown id hid howns => ?_, h.unfailed⟩
  have hbefore : p.Owns id e.ownerId := by
    obtain howns | rfl := (hadds.owns id e.ownerId).mp howns
    · exact howns
    · obtain hid | hnews := (hadds.bookings id).mp hid
      · obtain ⟨o, ho⟩ := hs.booked id hid
        exact hfits o ho ▸ ho
      · cases hnews
  obtain hid | hnews := (hadds.bookings id).mp hid
  · exact h.known known hknown id hid hbefore
  · rw [hbooking id hnews hbefore] at hknown
    cases hknown

theorem Erasing.Knows.erases {e : Erasing} (h : e.Knows p) {ownerId : Id} {retain : List Id}
    (herases : Erases p p' ownerId retain) : e.Knows p' := by
  refine ⟨fun known hknown id hid howns => ?_, h.unfailed⟩
  rw [herases.bookings] at hid
  exact h.known known hknown id hid ((herases.owns id e.ownerId).mp howns).1

theorem wrote_knows {e e' : Erasing} (h : Wrote p d (.erasing e) p' (.erasing e')) (hknows : e.Knows p)
    (hworks : d.fails = false) : e'.Knows p' := by
  cases h with
  | quiet hadds hother => exact absurd rfl (hother e')
  | failed hfails =>
    rw [hworks] at hfails
    cases hfails
  | @owned ownerId =>
    refine ⟨?_, nofun⟩
    rintro known ⟨⟩ id - ⟨l, hl, rfl, howner⟩
    exact List.mem_map_of_mem (List.mem_filter.mpr ⟨hl, decide_eq_true howner⟩)
  | @asked ownerId owned =>
    refine ⟨?_, nofun⟩
    rintro known ⟨⟩ id hid howns
    exact List.mem_filter.mpr ⟨hknows.known owned rfl id hid howns, by simpa using hid⟩
  | unpictured hnone => exact ⟨hknows.known, nofun⟩
  | read => exact ⟨hknows.known, nofun⟩
  | discarded => exact ⟨hknows.known, nofun⟩
  | swept => exact ⟨hknows.known, nofun⟩
  | refused hrefused =>
    obtain ⟨id, hid, howns, hgone⟩ := eraseOwnedBy_eq_none.mp hrefused
    exact absurd (hknows.known _ rfl id hid howns) hgone
  | erased herased => exact ⟨nofun, nofun⟩

structure Undisturbed (i : Nat) (s : State) : Prop where
  sound : s.tables.Sound
  knows : ∀ e : Erasing, s.calls[i]? = some (.erasing e) → e.Knows s.tables

theorem knows_step (h : Undisturbed i s) (ha : undisturbed i s a = true)
    (hx : (machine w).step s a = some s') :
    s'.tables.Sound ∧ ∀ e, s.calls[i]? = some (.erasing e) → e.Knows s'.tables := by
  obtain hsame | ⟨j, d, c, c', rfl, hc, hnext⟩ := step_tables hx
  · rw [hsame]
    exact ⟨h.sound, h.knows⟩
  · obtain ⟨news, hfits, hadds, -, -, hbooking⟩ | ⟨ownerId, retain, -, herases⟩ :=
      (next_wrote h.sound hnext).cases
    · refine ⟨h.sound.adds hfits hadds, fun e he => (h.knows e he).adds h.sound hfits hadds ?_⟩
      intro id hnews howns
      cases hbooking id hnews
      have howner := (ownerOf_eq_some h.sound).mpr howns
      simpa [undisturbed, hc, he, Call.isErasing, howner] using ha
    · exact ⟨h.sound.erases herases, fun e he => (h.knows e he).erases herases⟩

theorem undisturbed_step (h : Undisturbed i s) (ha : undisturbed i s a = true)
    (hx : (machine w).step s a = some s') : Undisturbed i s' := by
  obtain ⟨hsound, hstays⟩ := knows_step h ha hx
  refine ⟨hsound, fun e hie => ?_⟩
  obtain ⟨hold, -⟩ | ⟨r, rfl, hr⟩ | ⟨d, c, rfl, hc, hnext⟩ := step_call hx hie
  · exact hstays e hold
  · cases r with
    | erase ownerId =>
      cases hr
      exact ⟨nofun, nofun⟩
    | _ => cases hr
  · have hwrote := next_wrote h.sound hnext
    cases c with
    | erasing e₀ =>
      have hworks : d.fails = false := by simpa [undisturbed, hc] using ha
      exact wrote_knows hwrote (h.knows e₀ hc) hworks
    | _ =>
      cases hwrote with
      | quiet hadds hother => exact absurd rfl (hother e)

/-- How far an erasure is from its answer: the statement it is at, and the
objects it has still to delete there. -/
def Erasing.left : Erasing → ℕ ×ₗ ℕ
  | listing _ => toLex (5, 0)
  | asking _ _ => toLex (4, 0)
  | reading _ _ _ => toLex (3, 0)
  | discarding _ _ _ keys => toLex (2, keys.length)
  | deleting _ _ => toLex (1, 0)
  | returned _ _ => toLex (0, 0)

theorem wrote_left {e e' : Erasing} (h : Wrote p d (.erasing e) p' (.erasing e'))
    (hopen : ∀ answer, e ≠ .returned e.ownerId answer) : e'.left < e.left := by
  cases h with
  | quiet hadds hother => exact absurd rfl (hother e')
  | failed hfails =>
    cases e with
    | returned ownerId answer => exact absurd rfl (hopen answer)
    | _ => simp [Erasing.left, Prod.Lex.toLex_lt_toLex]
  | _ => simp [Erasing.left, Prod.Lex.toLex_lt_toLex]

theorem exists_nextErasing (p : Platform) (d : Draw) (e : Erasing) :
    (∃ answer, e = .returned e.ownerId answer) ∨ ∃ r, nextErasing p d e = some r := by
  cases e with
  | returned ownerId answer => exact .inl ⟨answer, rfl⟩
  | discarding ownerId owned booked keys =>
    right
    cases keys with
    | nil =>
      simp only [nextErasing]
      split
      · exact ⟨_, rfl⟩
      · exact ⟨_, rfl⟩
    | cons key keys => exact ⟨_, rfl⟩
  | _ =>
    right
    simp only [nextErasing]
    split
    · exact ⟨_, rfl⟩
    · exact ⟨_, rfl⟩

end

/-- Olive's mower, which somebody has booked, and her drill, of which there is a
photograph. -/
def sampleEstate : Platform where
  catalogue := (sampleStart [sampleListing .published "A petrol mower",
    { sampleListing .published "A drill" with id := "drill" }]
    [sampleLocation ⟨0, 600⟩, { sampleLocation ⟨0, 600⟩ with listingId := "drill" }]).tables
  storage := Media.storedDrill
  bookings := ["mower"]

def sampleWiring : Wiring where
  toWiring := Catalogue.sampleWiring
  prepareImage _ := .error (.notAnImage, "That file is not an image")
  signedUrl key := key

def sampleDraw : Draw := ⟨⟨"saw", some ⟨54, -1⟩, ⟨0, 600⟩, true, false⟩, 1700, .done, .done⟩

def runs (i : Nat) : Action := .exec i sampleDraw

theorem sampleEstate_sound : sampleEstate.Sound where
  owner := by
    rintro id o o' ⟨l, hl, rfl, rfl⟩ ⟨l', hl', -, rfl⟩
    have howner : ∀ l ∈ sampleEstate.catalogue.listings, l.ownerId = "olive" := by
      decide +kernel
    rw [howner l hl, howner l' hl']
  located := by
    have hthere : ∀ x ∈ sampleEstate.catalogue.locations, ∃ l ∈ sampleEstate.catalogue.listings, l.id = x.listingId := by
      decide +kernel
    intro x hx
    obtain ⟨l, hl, hid⟩ := hthere x hx
    exact ⟨l.ownerId, l, hl, hid, rfl⟩
  pictured := by
    have hthere : ∀ row ∈ sampleEstate.storage.table.rows,
        ∃ l ∈ sampleEstate.catalogue.listings, l.id = row.listingId := by
      decide +kernel
    intro row hrow
    obtain ⟨l, hl, hid⟩ := hthere row hrow
    exact ⟨l.ownerId, l, hl, hid, rfl⟩
  booked := by
    have hthere : ∀ id ∈ sampleEstate.bookings, ∃ l ∈ sampleEstate.catalogue.listings, l.id = id := by
      decide +kernel
    intro id hid
    obtain ⟨l, hl, hsame⟩ := hthere id hid
    exact ⟨l.ownerId, l, hl, hsame, rfl⟩

/-- An erasure is refused only for a booking. Whatever else goes on meanwhile,
other erasures of the account among it: an erasure no statement of which fails,
and none of whose listings anybody books from its first statement to its last,
has come back erased or has a next statement, each of which brings it nearer to
its answer. -/
theorem an_erasure_is_refused_only_for_a_booking (w : Wiring) {s₀ s : State} {as : List Action} {i : Nat}
    (hnew : s₀.calls.length ≤ i) (hsound : s₀.tables.Sound) (hr : run (machine w).step s₀ as = some s)
    (hmeets : Meets (machine w).step (fun u a => undisturbed i u a = true) s₀ as) {e : Erasing}
    (hcall : s.calls[i]? = some (.erasing e)) :
    e = .returned e.ownerId .erased ∨ ∀ d, ∃ s' e', (machine w).step s (.exec i d) = some s' ∧
      s'.calls[i]? = some (.erasing e') ∧ e'.left < e.left := by
  have h : Undisturbed i s := by
    refine run_preserves_of_meets (P := Undisturbed i) (fun u a u' hu ha hx => undisturbed_step hu ha hx) hr
      hmeets ⟨hsound, fun e he => ?_⟩
    rw [List.getElem?_eq_none hnew] at he
    cases he
  by_cases hopen : ∀ answer, e ≠ .returned e.ownerId answer
  · right
    intro d
    obtain ⟨answer, hover⟩ | ⟨⟨p', e'⟩, hnext⟩ := exists_nextErasing s.tables d e
    · exact absurd hover (hopen answer)
    · refine ⟨⟨p', s.calls.set i (.erasing e')⟩, e', ?_, ?_, wrote_left (erasing_wrote hnext) hopen⟩
      · exact step_exec.mpr ⟨_, _, hcall, by simp [machine, next, hnext], rfl⟩
      · rw [List.getElem?_set_self', hcall]
        rfl
  · left
    simp only [not_forall, not_not] at hopen
    obtain ⟨answer, hover⟩ := hopen
    cases answer with
    | erased => exact hover
    | threw => exact absurd hover ((h.knows e hcall).unfailed e.ownerId)

def erasedAgain : List Action :=
  .arrive (.erase "olive") :: .exec 0 { sampleDraw with fails := true } ::
    .arrive (.erase "olive") :: List.replicate 7 (runs 1)

theorem an_erasure_is_refused_only_for_a_booking_mower : ∃ s e,
    run (machine sampleWiring).step ⟨sampleEstate, []⟩ erasedAgain = some s ∧
      s.calls[1]? = some (.erasing e) ∧ e = .returned "olive" .erased := by
  have hrun : (run (machine sampleWiring).step ⟨sampleEstate, []⟩ erasedAgain).map (·.calls) =
      some [.erasing (.returned "olive" .threw), .erasing (.returned "olive" .erased)] := by
    decide +kernel
  have hmeets : Meets (machine sampleWiring).step (fun u a => undisturbed 1 u a = true) ⟨sampleEstate, []⟩
      erasedAgain := by
    decide +kernel
  obtain ⟨s, hr, hcalls⟩ := Option.map_eq_some_iff.mp hrun
  have hcall : s.calls[1]? = some (.erasing (.returned "olive" .erased)) := by
    rw [hcalls]
    rfl
  obtain hover | hgoes := an_erasure_is_refused_only_for_a_booking sampleWiring (Nat.zero_le 1)
    sampleEstate_sound hr hmeets hcall
  · exact ⟨s, _, hr, hcall, hover⟩
  · obtain ⟨s', e', -, -, hnearer⟩ := hgoes sampleDraw
    exact absurd hnearer not_lt_bot

end RentalMarket.Catalogue.Estate
