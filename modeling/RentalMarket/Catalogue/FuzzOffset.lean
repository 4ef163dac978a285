import RentalMarket.Catalogue.Statements
import RentalMarket.Lib.Keyed

namespace RentalMarket.Catalogue

open RentalMarket.Core RentalMarket.Pricing Runs Interleaving

def Tables.Stored (t : Tables) (listingId : Id) (point : LocatedListingPoint) : Prop :=
  ∃ l ∈ t.locations, l.listingId = listingId ∧ l.point = some point

/-- A point whose published half is its true half, moved by its offset. -/
def LocatedListingPoint.Assembled (w : Wiring) (point : LocatedListingPoint) : Prop :=
  point = fuzzedAt w ⟨point.latitude, point.longitude⟩ point.offset

/-- A location is a listing's, which has one at most, and its point is assembled. -/
structure Tables.Placed (w : Wiring) (t : Tables) : Prop where
  listingIds : (t.locations.map (·.listingId)).Nodup
  owned : ∀ l ∈ t.locations, ∃ row ∈ t.listings, row.id = l.listingId
  assembled : ∀ l ∈ t.locations, ∀ point, l.point = some point → point.Assembled w

def Call.places (d : Draw) : Call → Option (Id × LocatedListingPoint)
  | draftWrite draft _ _ => draft.locatedPoint.map (fun point => (d.id, point))
  | updateWrite p _ =>
    match p.edit.collectionLocation with
    | .relocated _ point => point.map (fun point => (p.id, point))
    | _ => none
  | _ => none

section

variable {w : Wiring} {t t' : Tables} {d : Draw} {c c' : Call}

theorem fuzzedAt_assembled (w : Wiring) (located : Point) (offset : FuzzOffset) :
    (fuzzedAt w located offset).Assembled w := rfl

theorem locate_assembled {point : LocatedListingPoint} (h : locate w d = some point) : point.Assembled w := by
  obtain ⟨located, -, rfl⟩ := Option.map_eq_some_iff.mp h
  exact fuzzedAt_assembled w located d.offset

theorem relocate_assembled {offset : FuzzOffset} {point : LocatedListingPoint}
    (h : relocate w d offset = some point) : point.Assembled w ∧ point.offset = offset := by
  obtain ⟨located, -, rfl⟩ := Option.map_eq_some_iff.mp h
  exact ⟨fuzzedAt_assembled w located offset, rfl⟩

/-- Where the rows come from after the location has been written. -/
theorem mem_writeLocation {locations locations' : List ListingLocation} {listingId : Id}
    {edit : CollectionLocationEdit} (h : writeLocation w locations listingId edit = some locations')
    {l : ListingLocation} (hl : l ∈ locations') :
    (∃ l₀ ∈ locations, l₀.listingId = l.listingId ∧ l₀.point = l.point) ∨
      l.listingId = listingId ∧ ∃ location, edit = .relocated location l.point := by
  cases edit with
  | cleared =>
    cases h
    exact .inl ⟨l, List.mem_of_mem_filter hl, rfl, rfl⟩
  | addressOnly location =>
    simp only [writeLocation] at h
    split at h
    · cases h
      obtain ⟨l₀, hl₀, rfl⟩ := List.mem_map.mp hl
      refine .inl ⟨l₀, hl₀, ?_⟩
      split
      · exact ⟨rfl, rfl⟩
      · exact ⟨rfl, rfl⟩
    · cases h
  | relocated location point =>
    simp only [writeLocation] at h
    split at h
    · cases h
      obtain ⟨l₀, hl₀, rfl⟩ := List.mem_map.mp hl
      split
      · exact .inr ⟨rfl, location, rfl⟩
      · exact .inl ⟨l₀, hl₀, rfl, rfl⟩
    · cases h
      obtain hold | hnew := List.mem_append.mp hl
      · exact .inl ⟨l, hold, rfl, rfl⟩
      · rw [List.mem_singleton.mp hnew]
        exact .inr ⟨rfl, location, rfl⟩

/-- A point that is stored was stored before, or is the one the call was about to
write, to a new listing or to the one that it edits. -/
theorem Moved.stored (h : Moved w t d c t' c') {listingId : Id} {point : LocatedListingPoint}
    (hpoint : t'.Stored listingId point) : t.Stored listingId point ∨
      c.places d = some (listingId, point) ∧
        ((∀ l ∈ t.listings, l.id ≠ listingId) ∨ ∃ p categoryVersionId, c = .updateWrite p categoryVersionId) := by
  obtain ⟨l, hl, hid, hstored⟩ := hpoint
  cases h with
  | drafted hfresh =>
    rename_i draft categoryId categoryVersionId answer
    obtain hold | hnew := List.mem_append.mp hl
    · exact .inl ⟨l, hold, hid, hstored⟩
    · obtain ⟨location, -, rfl⟩ := Option.map_eq_some_iff.mp (Option.mem_toList.mp hnew)
      refine .inr ⟨?_, .inl (hid ▸ hfresh)⟩
      simp only [Call.places] at hstored ⊢
      rw [hstored, ← hid]
      rfl
  | updated hrow hlocations =>
    rename_i p categoryVersionId row locations
    obtain ⟨l₀, hl₀, hid₀, hpoint₀⟩ | ⟨hwritten, location, hedit⟩ := mem_writeLocation hlocations hl
    · exact .inl ⟨l₀, hl₀, hid₀.trans hid, hpoint₀.trans hstored⟩
    · refine .inr ⟨?_, .inr ⟨p, categoryVersionId, rfl⟩⟩
      simp only [Call.places, hedit, hstored]
      rw [← hid, hwritten]
      rfl
  | _ => exact .inl ⟨l, hl, hid, hstored⟩

theorem places_updateWrite {p : PendingEdit} {categoryVersionId listingId : Id} {point : LocatedListingPoint}
    (h : (Call.updateWrite p categoryVersionId).places d = some (listingId, point)) :
    listingId = p.id ∧ ∃ location, p.edit.collectionLocation = .relocated location (some point) := by
  simp only [Call.places] at h
  split at h
  · rename_i location new hedit
    obtain ⟨point', hnew, hpair⟩ := Option.map_eq_some_iff.mp h
    obtain ⟨rfl, rfl⟩ := Prod.mk.inj hpair
    exact ⟨rfl, location, by rw [hedit, hnew]⟩
  · cases h

theorem Moved.owned (h : Moved w t d c t' c')
    (howned : ∀ l ∈ t.locations, ∃ row ∈ t.listings, row.id = l.listingId) :
    ∀ l ∈ t'.locations, ∃ row ∈ t'.listings, row.id = l.listingId := by
  have hgrows := h.grows
  have hold : ∀ l ∈ t.locations, ∃ row ∈ t'.listings, row.id = l.listingId := by
    intro l hl
    obtain ⟨row, hrow, hid⟩ := howned l hl
    obtain ⟨row', hrow', hid', -⟩ := hgrows.listings row hrow
    exact ⟨row', hrow', hid'.trans hid⟩
  intro l hl
  cases h with
  | drafted hfresh =>
    obtain hl | hnew := List.mem_append.mp hl
    · exact hold l hl
    · obtain ⟨location, -, rfl⟩ := Option.map_eq_some_iff.mp (Option.mem_toList.mp hnew)
      exact ⟨_, List.mem_append_right _ (List.mem_singleton_self _), rfl⟩
  | updated hrow hlocations =>
    obtain ⟨l₀, hl₀, hid₀, -⟩ | ⟨hwritten, -⟩ := mem_writeLocation hlocations hl
    · exact hid₀ ▸ hold l₀ hl₀
    · obtain ⟨hmem, hid, -⟩ := Tables.findRow_spec hrow
      obtain ⟨row', hrow', hid', -⟩ := hgrows.listings _ hmem
      exact ⟨row', hrow', hid'.trans (hid.trans hwritten.symm)⟩
  | _ => exact hold l hl

end

def EverStored (w : Wiring) (s₀ : State) (as : List Action) (listingId : Id) (point : LocatedListingPoint) : Prop :=
  ∃ pre post u, as = pre ++ post ∧ run (machine w).step s₀ pre = some u ∧ u.tables.Stored listingId point

/-- No edit that found no offset to keep places a listing that has had a point
before. -/
def DrawnOnce (w : Wiring) (s₀ : State) (as : List Action) : Prop :=
  ∀ (pre : List Action) (i : Nat) (d : Draw) (post : List Action) (u : State) (p : PendingEdit)
    (categoryVersionId : Id), as = pre ++ .exec i d :: post → run (machine w).step s₀ pre = some u →
      u.calls[i]? = some (.updateWrite p categoryVersionId) → d.fails = false → p.drawn = true →
        ∀ location new, p.edit.collectionLocation = .relocated location (some new) →
          ∀ old, ¬EverStored w s₀ pre p.id old

/-- An edit that places its listing does so with an offset the listing has had,
unless it drew one. -/
def PendingEdit.Keeps (w : Wiring) (s₀ : State) (as : List Action) (p : PendingEdit) : Prop :=
  ∀ location new, p.edit.collectionLocation = .relocated location (some new) → new.Assembled w ∧
    (p.drawn = false → ∃ point, EverStored w s₀ as p.id point ∧ point.offset = new.offset)

/-- The points a call carries are assembled, and one that was not drawn is the
listing's offset applied again. -/
def Carries (w : Wiring) (s₀ : State) (as : List Action) : Call → Prop
  | .draftPin draft => ∀ point, draft.locatedPoint = some point → point.Assembled w
  | .draftWrite draft _ _ => ∀ point, draft.locatedPoint = some point → point.Assembled w
  | .editLocate listing _ _ _ offset =>
    ∀ o, offset = some o → ∃ point, EverStored w s₀ as listing.id point ∧ point.offset = o
  | .updateRead p => p.Keeps w s₀ as
  | .updateLatest p _ => p.Keeps w s₀ as
  | .updateWrite p _ => p.Keeps w s₀ as
  | _ => True

structure Steady (w : Wiring) (s₀ : State) (as : List Action) (s : State) : Prop where
  owned : ∀ l ∈ s.tables.locations, ∃ row ∈ s.tables.listings, row.id = l.listingId
  calls : ∀ (i : Nat) (c : Call), s.calls[i]? = some c → Carries w s₀ as c
  listed : ∀ listingId point, EverStored w s₀ as listingId point → ∃ row ∈ s.tables.listings, row.id = listingId
  assembled : ∀ listingId point, EverStored w s₀ as listingId point → point.Assembled w
  once : ∀ listingId point point', EverStored w s₀ as listingId point → EverStored w s₀ as listingId point' →
    point.offset = point'.offset

section

variable {w : Wiring} {s₀ s s' : State} {as : List Action} {a : Action}

theorem EverStored.longer {listingId : Id} {point : LocatedListingPoint}
    (h : EverStored w s₀ as listingId point) : EverStored w s₀ (as ++ [a]) listingId point := by
  obtain ⟨pre, post, u, rfl, hpre, hstored⟩ := h
  exact ⟨pre, post ++ [a], u, List.append_assoc _ _ _, hpre, hstored⟩

theorem EverStored.now (hr : run (machine w).step s₀ as = some s) {listingId : Id} {point : LocatedListingPoint}
    (h : s.tables.Stored listingId point) : EverStored w s₀ as listingId point :=
  ⟨as, [], s, (List.append_nil as).symm, hr, h⟩

/-- What has been stored in a run has been stored before its last step, or is in
the state it ends in. -/
theorem EverStored.before_or_now (hr : run (machine w).step s₀ (as ++ [a]) = some s') {listingId : Id}
    {point : LocatedListingPoint} (h : EverStored w s₀ (as ++ [a]) listingId point) :
    EverStored w s₀ as listingId point ∨ s'.tables.Stored listingId point := by
  obtain ⟨pre, post, u, hcut, hpre, hstored⟩ := h
  obtain rfl | ⟨post, b, rfl⟩ := List.eq_nil_or_concat post
  · rw [List.append_nil] at hcut
    rw [← hcut, hr] at hpre
    cases hpre
    exact .inr hstored
  · rw [List.concat_eq_append, ← List.append_assoc] at hcut
    exact .inl ⟨pre, post, u, (List.append_inj' hcut rfl).1, hpre, hstored⟩

theorem Carries.longer {c : Call} (h : Carries w s₀ as c) : Carries w s₀ (as ++ [a]) c := by
  have hkeeps : ∀ {p : PendingEdit}, p.Keeps w s₀ as → p.Keeps w s₀ (as ++ [a]) := by
    intro p hp location new hedit
    obtain ⟨hassembled, hold⟩ := hp location new hedit
    refine ⟨hassembled, ?_⟩
    intro hdrawn
    obtain ⟨point, hever, hoffset⟩ := hold hdrawn
    exact ⟨point, hever.longer, hoffset⟩
  cases c with
  | editLocate listing pinning edit location offset =>
    intro o ho
    obtain ⟨point, hever, hoffset⟩ := h o ho
    exact ⟨point, hever.longer, hoffset⟩
  | updateRead p => exact hkeeps h
  | updateLatest p categoryId => exact hkeeps h
  | updateWrite p categoryVersionId => exact hkeeps h
  | _ => exact h

theorem stored_of_findFuzzOffset {t : Tables} {id ownerId : Id} {offset : FuzzOffset}
    (h : t.findFuzzOffset id ownerId = some offset) : ∃ point, t.Stored id point ∧ point.offset = offset := by
  obtain ⟨row, -, hfound⟩ := Option.bind_eq_some_iff.mp h
  obtain ⟨point, hfind, hoffset⟩ := Option.map_eq_some_iff.mp hfound
  obtain ⟨l, hl, hpoint⟩ := Option.bind_eq_some_iff.mp hfind
  obtain ⟨hmem, hid⟩ := Tables.findLocation_spec hl
  exact ⟨point, ⟨l, hmem, hid, hpoint⟩, hoffset⟩

/-- Where a statement takes its call, the points it carries are as they should be. -/
theorem Moved.carries {d : Draw} {c c' : Call} {t' : Tables} (h : Moved w s.tables d c t' c')
    (hr : run (machine w).step s₀ as = some s) (hc : Carries w s₀ as c) : Carries w s₀ as c' := by
  cases h with
  | judgedDraft hoption hversion htakes hunplaced hthere =>
    obtain rfl | ⟨postcode, rfl⟩ := hthere
    · intro point hpoint
      rw [hunplaced] at hpoint
      cases hpoint
    · trivial
  | locatedDraft =>
    intro point hpoint
    exact locate_assembled hpoint
  | pinnedDraft hoption hversion => exact hc
  | offsetRead =>
    intro o ho
    obtain ⟨point, hstored, hoffset⟩ := stored_of_findFuzzOffset ho
    exact ⟨point, .now hr hstored, hoffset⟩
  | judgedEdit hoption hversion htakes hunplaced hthere =>
    rename_i listing submitted option edit
    obtain ⟨refusal, hstop⟩ | ⟨checked, hgo, -, -⟩ :=
      recheck_cases w listing option.version.configuration edit false
    · rw [hthere, hstop]
      trivial
    · rw [hthere, hgo]
      intro location new hedit
      obtain hcleared | ⟨location', haddress, -⟩ := hunplaced
      · rw [hcleared] at hedit
        cases hedit
      · rw [haddress] at hedit
        cases hedit
  | placedEdit hthere =>
    rename_i listing pinning edit location offset
    obtain ⟨refusal, hstop⟩ | ⟨checked, hgo, -, -⟩ :=
      recheck_cases w listing pinning
        { edit with collectionLocation :=
            .relocated location (offset.elim (locate w d) (relocate w d)) } offset.isNone
    · rw [hthere, hstop]
      trivial
    · rw [hthere, hgo]
      intro location' new hedit
      obtain ⟨-, hnew⟩ := CollectionLocationEdit.relocated.inj hedit
      cases offset with
      | none => exact ⟨locate_assembled hnew, fun hdrawn => absurd hdrawn (by simp)⟩
      | some o =>
        obtain ⟨hassembled, hoffset⟩ := relocate_assembled hnew
        obtain ⟨point, hever, hpoint⟩ := hc o rfl
        exact ⟨hassembled, fun _ => ⟨point, hever, hpoint.trans hoffset.symm⟩⟩
  | updateFound hrow => exact hc
  | pinnedUpdate hlatest hversion => exact hc
  | _ => trivial

theorem Carries.assembled {c : Call} {d : Draw} {listingId : Id} {point : LocatedListingPoint}
    (h : Carries w s₀ as c) (hplaces : c.places d = some (listingId, point)) : point.Assembled w := by
  cases c with
  | draftWrite draft categoryId categoryVersionId =>
    obtain ⟨point', hpoint, hpair⟩ := Option.map_eq_some_iff.mp hplaces
    cases hpair
    exact h point hpoint
  | updateWrite p categoryVersionId =>
    obtain ⟨-, location, hedit⟩ := places_updateWrite hplaces
    exact (h location point hedit).1
  | _ => cases hplaces

/-- A point that comes to be stored has the offset of one that the listing has
had, or the listing has had none. -/
theorem Steady.placing (hs : Steady w s₀ as s) {i : Nat} {d : Draw} {c : Call} (hc : s.calls[i]? = some c)
    (hr : run (machine w).step s₀ as = some s) (hfails : d.fails = false)
    (hdrawn : DrawnOnce w s₀ (as ++ [.exec i d])) {listingId : Id} {point : LocatedListingPoint}
    (hplaces : c.places d = some (listingId, point))
    (hwhere : (∀ l ∈ s.tables.listings, l.id ≠ listingId) ∨
      ∃ p categoryVersionId, c = .updateWrite p categoryVersionId) :
    (∃ old, EverStored w s₀ as listingId old ∧ old.offset = point.offset) ∨
      ∀ old, ¬EverStored w s₀ as listingId old := by
  obtain hfresh | ⟨p, categoryVersionId, rfl⟩ := hwhere
  · right
    intro old hold
    obtain ⟨row, hrow, hid⟩ := hs.listed listingId old hold
    exact hfresh row hrow hid
  · obtain ⟨rfl, location, hedit⟩ := places_updateWrite hplaces
    cases hnew : p.drawn with
    | false => exact .inl ((hs.calls i _ hc location point hedit).2 hnew)
    | true => exact .inr (hdrawn as i d [] s p categoryVersionId rfl hr hc hfails hnew location point hedit)

theorem Steady.origin (hs : Steady w s₀ as s) (hr : run (machine w).step s₀ as = some s)
    (h : (machine w).step s a = some s') (hdrawn : DrawnOnce w s₀ (as ++ [a])) {listingId : Id}
    {point : LocatedListingPoint} (hever : EverStored w s₀ (as ++ [a]) listingId point) :
    (∃ old, EverStored w s₀ as listingId old ∧ old.offset = point.offset) ∨
      (∀ old, ¬EverStored w s₀ as listingId old) ∧ ∃ i d c, a = .exec i d ∧ s.calls[i]? = some c ∧
        c.places d = some (listingId, point) := by
  have hlonger : run (machine w).step s₀ (as ++ [a]) = some s' :=
    run_append_eq_some.mpr ⟨s, hr, run_cons_eq_some.mpr ⟨s', h, rfl⟩⟩
  obtain hbefore | hnow := hever.before_or_now hlonger
  · exact .inl ⟨point, hbefore, rfl⟩
  · cases a with
    | arrive r =>
      cases h
      exact .inl ⟨point, .now hr hnow, rfl⟩
    | exec i d =>
      obtain ⟨c, c', hc, hnext, -⟩ := step_exec.mp h
      obtain hold | ⟨hplaces, hwhere⟩ := (next_moved hnext).stored hnow
      · exact .inl ⟨point, .now hr hold, rfl⟩
      · cases hfails : d.fails with
        | true =>
          have hsame : s'.tables = s.tables := (next_of_fails hnext hfails).1
          rw [hsame] at hnow
          exact .inl ⟨point, .now hr hnow, rfl⟩
        | false =>
          obtain hold | hnone := hs.placing hc hr hfails hdrawn hplaces hwhere
          · exact .inl hold
          · exact .inr ⟨hnone, i, d, c, rfl, hc, hplaces⟩

theorem Steady.after_step (hs : Steady w s₀ as s) (hr : run (machine w).step s₀ as = some s)
    (h : (machine w).step s a = some s') (hdrawn : DrawnOnce w s₀ (as ++ [a])) :
    Steady w s₀ (as ++ [a]) s' := by
  have hlonger : run (machine w).step s₀ (as ++ [a]) = some s' :=
    run_append_eq_some.mpr ⟨s, hr, run_cons_eq_some.mpr ⟨s', h, rfl⟩⟩
  have howned : ∀ l ∈ s'.tables.locations, ∃ row ∈ s'.tables.listings, row.id = l.listingId := by
    obtain hsame | ⟨i, d, c, c', rfl, -, hnext⟩ := step_tables h
    · rw [hsame]
      exact hs.owned
    · exact (next_moved hnext).owned hs.owned
  refine ⟨howned, ?_, ?_, ?_, ?_⟩
  · intro j x hx
    obtain ⟨hold, -⟩ | ⟨r, -, rfl⟩ | ⟨d, c, rfl, hc, hnext⟩ := step_call h hx
    · exact (hs.calls j x hold).longer
    · cases r <;> trivial
    · exact ((next_moved hnext).carries hr (hs.calls j c hc)).longer
  · intro listingId point hever
    obtain hbefore | ⟨l, hl, rfl, -⟩ := hever.before_or_now hlonger
    · obtain ⟨row, hrow, hid⟩ := hs.listed listingId point hbefore
      obtain ⟨row', hrow', hid', -⟩ := (step_grows h).listings row hrow
      exact ⟨row', hrow', hid'.trans hid⟩
    · exact howned l hl
  · intro listingId point hever
    obtain hbefore | hnow := hever.before_or_now hlonger
    · exact hs.assembled listingId point hbefore
    · obtain hsame | ⟨i, d, c, c', -, hc, hnext⟩ := step_tables h
      · rw [hsame] at hnow
        exact hs.assembled listingId point (.now hr hnow)
      · obtain hold | ⟨hplaces, -⟩ := (next_moved hnext).stored hnow
        · exact hs.assembled listingId point (.now hr hold)
        · exact (hs.calls i c hc).assembled hplaces
  · intro listingId point point' hever hever'
    obtain ⟨old, hold, ho⟩ | ⟨hnone, i, d, c, rfl, hc, hplaces⟩ := hs.origin hr h hdrawn hever
    · obtain ⟨old', hold', ho'⟩ | ⟨hnone', -⟩ := hs.origin hr h hdrawn hever'
      · rw [← ho, ← ho']
        exact hs.once listingId old old' hold hold'
      · exact absurd hold (hnone' old)
    · obtain ⟨old', hold', -⟩ | ⟨-, i', d', c', hsame, hc', hplaces'⟩ := hs.origin hr h hdrawn hever'
      · exact absurd hold' (hnone old')
      · cases hsame
        rw [hc] at hc'
        cases hc'
        rw [hplaces] at hplaces'
        cases hplaces'
        rfl

theorem Steady.start (h₀ : s₀.tables.Placed w) (hidle : s₀.calls = []) : Steady w s₀ [] s₀ := by
  have hstart : ∀ {listingId point}, EverStored w s₀ [] listingId point → s₀.tables.Stored listingId point := by
    rintro listingId point ⟨pre, post, u, hcut, hpre, hstored⟩
    obtain ⟨rfl, -⟩ := List.append_eq_nil_iff.mp hcut.symm
    cases hpre
    exact hstored
  refine ⟨h₀.owned, ?_, ?_, ?_, ?_⟩
  · intro i c hc
    rw [hidle] at hc
    cases hc
  · intro listingId point hever
    obtain ⟨l, hl, rfl, -⟩ := hstart hever
    exact h₀.owned l hl
  · intro listingId point hever
    obtain ⟨l, hl, -, hpoint⟩ := hstart hever
    exact h₀.assembled l hl point hpoint
  · intro listingId point point' hever hever'
    obtain ⟨l, hl, hid, hpoint⟩ := hstart hever
    obtain ⟨l', hl', hid', hpoint'⟩ := hstart hever'
    have hsame : l = l' := Keyed.eq_of_key h₀.listingIds hl hl' (hid.trans hid'.symm)
    rw [hsame, hpoint'] at hpoint
    cases hpoint
    rfl

theorem DrawnOnce.shorter (h : DrawnOnce w s₀ (as ++ [a])) : DrawnOnce w s₀ as := by
  intro pre i d post u p categoryVersionId hcut
  refine h pre i d (post ++ [a]) u p categoryVersionId ?_
  rw [hcut, List.append_assoc, List.cons_append]

/-- In a run in which no edit that found no offset places a listing that has had a
point before, every point a listing ever has was made with one offset. -/
theorem offset_is_drawn_once (h₀ : s₀.tables.Placed w) (hidle : s₀.calls = [])
    (hr : run (machine w).step s₀ as = some s) (hdrawn : DrawnOnce w s₀ as) (listingId : Id) :
    ∃ offset, ∀ point, EverStored w s₀ as listingId point → point.Assembled w ∧ point.offset = offset := by
  have hs : Steady w s₀ as s := by
    refine run_induction (P := fun as s => DrawnOnce w s₀ as → Steady w s₀ as s) ?_ ?_ hr hdrawn
    · exact fun _ => .start h₀ hidle
    · intro as s a s' hr ih h hdrawn
      exact (ih hdrawn.shorter).after_step hr h hdrawn
  by_cases hnone : ∃ point, EverStored w s₀ as listingId point
  · obtain ⟨first, hfirst⟩ := hnone
    refine ⟨first.offset, ?_⟩
    intro point hever
    exact ⟨hs.assembled listingId point hever, hs.once listingId point first hever hfirst⟩
  · exact ⟨⟨0, 0⟩, fun point hever => absurd ⟨point, hever⟩ hnone⟩

/-- The write that a step comes to has found an offset, if it is one of an edit. -/
def keepsOffset (s : State) : Action → Bool
  | .exec i _ =>
    match s.calls[i]? with
    | some (.updateWrite p _) => !p.drawn
    | _ => true
  | .arrive _ => true

theorem drawnOnce_of_meets (h : Meets (machine w).step (fun s a => keepsOffset s a = true) s₀ as) :
    DrawnOnce w s₀ as := by
  intro pre i d post u p categoryVersionId hcut hpre hc _ hdrawn
  have hkeeps := meets_iff.mp h pre (.exec i d) post u hcut hpre
  simp [keepsOffset, hc, hdrawn] at hkeeps

end

def inYork : State := sampleStart [sampleListing .draft "A petrol mower"] [sampleLocation ⟨0, 600⟩]

def moved : List Action :=
  .arrive (sampleEdit 1 "A petrol mower" (some { sampleAddress with postcode := "YO24 1AA" })) ::
    List.replicate 8 (runs 0 "x" ⟨0, 900⟩)

theorem a_moved_listing_keeps_its_offset :
    (∃ s, run (machine sampleWiring).step inYork moved = some s ∧
      s.tables.locations.map (·.postcode) = ["YO24 1AA"]) ∧
    ∃ offset, ∀ point, EverStored sampleWiring inYork moved "mower" point →
      point.Assembled sampleWiring ∧ point.offset = offset := by
  have hrun : (run (machine sampleWiring).step inYork moved).map (fun s => s.tables.locations.map (·.postcode)) =
      some ["YO24 1AA"] := by
    decide +kernel
  obtain ⟨s, hr, hpostcode⟩ := Option.map_eq_some_iff.mp hrun
  have hplaced : inYork.tables.Placed sampleWiring := by
    refine ⟨by decide, ?_, ?_⟩
    · intro l hl
      rw [List.mem_singleton.mp hl]
      exact ⟨_, List.mem_singleton_self _, rfl⟩
    · intro l hl point hpoint
      rw [List.mem_singleton.mp hl] at hpoint
      cases hpoint
      rfl
  have hkeeps : Meets (machine sampleWiring).step (fun s a => keepsOffset s a = true) inYork moved := by
    decide +kernel
  exact ⟨⟨s, hr, hpostcode⟩, offset_is_drawn_once hplaced rfl hr (drawnOnce_of_meets hkeeps) "mower"⟩

/-- A draft with an address, an edit without one, and an edit with the address
again. -/
def readded : List Action :=
  .arrive (.createDraft ⟨"olive", "mowers", 1, sampleDetails "", some sampleAnswers, some sampleAddress⟩) ::
    List.replicate 4 (runs 0 "mower" ⟨0, 600⟩) ++ .arrive (sampleEdit 1 "" none) ::
      List.replicate 6 (runs 1 "x" ⟨0, 700⟩) ++ .arrive (sampleEdit 1 "" (some sampleAddress)) ::
        List.replicate 8 (runs 2 "x" ⟨0, 900⟩)

theorem an_address_added_again_is_drawn_again : ∃ first second,
    EverStored sampleWiring (sampleStart [] []) readded "mower" first ∧
      EverStored sampleWiring (sampleStart [] []) readded "mower" second ∧
      first.latitude = second.latitude ∧ first.longitude = second.longitude ∧ first.offset ≠ second.offset := by
  have hfirst : (run (machine sampleWiring).step (sampleStart [] []) (readded.take 5)).map
      (fun s => s.tables.locations) = some [sampleLocation ⟨0, 600⟩] := by
    decide +kernel
  have hsecond : (run (machine sampleWiring).step (sampleStart [] []) readded).map
      (fun s => s.tables.locations) = some [sampleLocation ⟨0, 900⟩] := by
    decide +kernel
  obtain ⟨u, hu, hlocations⟩ := Option.map_eq_some_iff.mp hfirst
  obtain ⟨s, hs, hlocations'⟩ := Option.map_eq_some_iff.mp hsecond
  refine ⟨samplePoint ⟨0, 600⟩, samplePoint ⟨0, 900⟩, ?_, ?_, rfl, rfl, by decide⟩
  · refine ⟨readded.take 5, readded.drop 5, u, (List.take_append_drop 5 readded).symm, hu, ?_⟩
    exact ⟨sampleLocation ⟨0, 600⟩, hlocations ▸ List.mem_singleton_self _, rfl, rfl⟩
  · refine .now hs ?_
    exact ⟨sampleLocation ⟨0, 900⟩, hlocations' ▸ List.mem_singleton_self _, rfl, rfl⟩

end RentalMarket.Catalogue
