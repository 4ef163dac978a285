import RentalMarket.Catalogue.Photographs

namespace RentalMarket.Catalogue.Media

open Runs Interleaving

def overfills (s : State Storage Call) : Action Request Draw → Bool
  | .arrive _ => false
  | .exec i d =>
    match s.calls[i]? with
    | some (.creating media _) =>
      !d.fails && decide (listingMediaLimit ≤ (s.tables.table.rowsOf media.listingId).length)
    | _ => false

def untroubled : Draw := ⟨false, "", 0, .done, .done⟩

def undisturbed (s : State Storage Call) (request : Request) (statements : Nat) : List (Action Request Draw) :=
  .arrive request :: List.replicate statements (.exec s.calls.length untroubled)

/-- The owner puts the photographs in this order: the contract takes it, the service
takes it, and the photographs are then listed in it. -/
def Accepts (w : Wiring) (s : State Storage Call) (listingId ownerId : Id) (mediaIds : List Id) : Prop :=
  parseListingMediaOrder (orderBody mediaIds) = some mediaIds ∧
    ∃ s' media, run (service w).step s (undisturbed s (.reorder listingId ownerId mediaIds) 4) = some s' ∧
      s'.calls[s.calls.length]? = some (.returned (.photographs media)) ∧
      listFor w s'.tables listingId ownerId = some media ∧ media.map (·.id) = mediaIds

def initial : State Storage Call := ⟨⟨.empty, [], []⟩, []⟩

namespace MediaTable

variable {m : MediaTable} {listingId : Id}

theorem rowsOf_length (m : MediaTable) (listingId : Id) :
    (m.rowsOf listingId).length = (m.rows.map (·.listingId)).count listingId := by
  rw [rowsOf, List.count, List.countP_map, List.countP_eq_length_filter]
  rfl

theorem listFor_length (m : MediaTable) (listingId : Id) :
    (m.listFor listingId).length = (m.rowsOf listingId).length := length_sortedBy

theorem rowsOf_keep_le (p : ListingMediaRecord → Bool) : ((m.keep p).rowsOf listingId).length ≤ (m.rowsOf listingId).length :=
  (List.filter_sublist.filter _).length_le

theorem place_listingIds (m : MediaTable) (listingId id : Id) (position : Nat) :
    (m.place listingId id position).rows.map (·.listingId) = m.rows.map (·.listingId) := by
  rw [place, change, List.map_map]
  apply List.map_congr_left
  intro row _
  rw [Function.comp_apply]
  split <;> rfl

theorem reorder_listingIds (m : MediaTable) (listingId : Id) (mediaIds : List Id) :
    (m.reorder listingId mediaIds).rows.map (·.listingId) = m.rows.map (·.listingId) := by
  unfold reorder
  induction mediaIds.zipIdx generalizing m with
  | nil => rfl
  | cons p l ih =>
    rw [List.foldl_cons, ih]
    exact place_listingIds m listingId p.1 p.2

def placed (listingId : Id) (mediaIds : List Id) (first : Nat) (row : ListingMediaRecord) : ListingMediaRecord :=
  if row.listingId = listingId ∧ row.id ∈ mediaIds then { row with position := first + mediaIds.idxOf row.id } else row

@[simp] theorem placed_id (listingId : Id) (mediaIds : List Id) (first : Nat) (row : ListingMediaRecord) :
    (placed listingId mediaIds first row).id = row.id := by
  unfold placed
  split <;> rfl

@[simp] theorem placed_listingId (listingId : Id) (mediaIds : List Id) (first : Nat) (row : ListingMediaRecord) :
    (placed listingId mediaIds first row).listingId = row.listingId := by
  unfold placed
  split <;> rfl

theorem foldl_place (m : MediaTable) (listingId : Id) {mediaIds : List Id} (first : Nat) (hn : mediaIds.Nodup) :
    ((mediaIds.zipIdx first).foldl (fun m p => m.place listingId p.1 p.2) m).rows =
      m.rows.map (placed listingId mediaIds first) := by
  induction mediaIds generalizing m first with
  | nil =>
    have hnone : placed listingId [] first = id := by
      funext row
      simp [placed]
    rw [hnone, List.map_id]
    rfl
  | cons id mediaIds ih =>
    rw [List.nodup_cons] at hn
    rw [List.zipIdx_cons, List.foldl_cons, ih _ _ hn.2, place, change, List.map_map]
    apply List.map_congr_left
    intro row _
    rw [Function.comp_apply]
    unfold placed
    by_cases hlisting : row.listingId = listingId
    · by_cases hid : row.id = id
      · subst hid
        simp [hlisting, hn.1]
      · by_cases hmem : row.id ∈ mediaIds
        · simp [hlisting, hid, hmem, List.idxOf_cons_ne _ (Ne.symm hid)]
          omega
        · simp [hlisting, hid, hmem]
    · simp [hlisting]

theorem reorder_rowsOf (m : MediaTable) (listingId : Id) {mediaIds : List Id} (hn : mediaIds.Nodup) :
    (m.reorder listingId mediaIds).rowsOf listingId = (m.rowsOf listingId).map (placed listingId mediaIds 0) := by
  rw [rowsOf, reorder, foldl_place m listingId 0 hn, List.filter_map, rowsOf]
  simp only [Function.comp_def, placed_listingId]

theorem reorder_ids (m : MediaTable) (listingId : Id) {mediaIds : List Id} (hn : mediaIds.Nodup) :
    ((m.reorder listingId mediaIds).rowsOf listingId).map (·.id) = (m.rowsOf listingId).map (·.id) := by
  rw [reorder_rowsOf m listingId hn, List.map_map]
  apply List.map_congr_left
  intro row _
  exact placed_id listingId mediaIds 0 row

theorem reorder_position {row : ListingMediaRecord} {mediaIds : List Id} (hn : mediaIds.Nodup)
    (hrow : row ∈ (m.reorder listingId mediaIds).rowsOf listingId) (hmem : row.id ∈ mediaIds) :
    row.position = mediaIds.idxOf row.id := by
  rw [reorder_rowsOf m listingId hn] at hrow
  obtain ⟨before, hbefore, rfl⟩ := List.mem_map.mp hrow
  rw [placed_id] at hmem
  have hlisting : before.listingId = listingId := by simpa using (List.mem_filter.mp hbefore).2
  rw [placed_id, placed, if_pos ⟨hlisting, hmem⟩, Nat.zero_add]

theorem listFor_reorder {mediaIds : List Id} (hperm : mediaIds.Perm ((m.listFor listingId).map (·.id))) :
    ((m.reorder listingId mediaIds).listFor listingId).map (·.id) = mediaIds := by
  have hbefore : ((m.listFor listingId).map (·.id)).Perm ((m.rowsOf listingId).map (·.id)) := sortedBy_perm.map _
  have hn : mediaIds.Nodup := by
    apply (hperm.trans hbefore).nodup_iff.mpr
    exact m.ids.sublist (List.filter_sublist.map _)
  have hafter : (((m.reorder listingId mediaIds).listFor listingId).map (·.id)).Perm mediaIds := by
    have hsame : (((m.reorder listingId mediaIds).listFor listingId).map (·.id)).Perm
        ((m.rowsOf listingId).map (·.id)) := by
      rw [← reorder_ids m listingId hn]
      exact sortedBy_perm.map _
    exact hsame.trans (hperm.trans hbefore).symm
  apply eq_of_idxOf_pairwise hafter hn
  rw [List.pairwise_map]
  have hsorted : ((m.reorder listingId mediaIds).listFor listingId).Pairwise
      (fun row row' => row.inOwnersOrder ≤ row'.inOwnersOrder) := sortedBy_pairwise
  have hplace : ∀ row ∈ (m.reorder listingId mediaIds).listFor listingId, row.position = mediaIds.idxOf row.id := by
    intro row hrow
    apply reorder_position hn (mem_sortedBy.mp hrow)
    exact hafter.mem_iff.mp (List.mem_map_of_mem hrow)
  apply hsorted.imp_of_mem
  intro row row' hrow hrow' hle
  rw [← hplace row hrow, ← hplace row' hrow']
  have hpositions := Prod.Lex.monotone_fst _ _ hle
  exact hpositions

theorem create_rows {media : NewListingMedia} {last : Option Nat} {id : Id} {now : Int} {m' : MediaTable}
    (h : m.create media last id now = some m') : m'.rows = m.rows ++ [appended media last id now] := by
  unfold create at h
  split at h <;> cases h
  rfl

theorem listFor_uuid {id : Id} (h : id ∈ (m.listFor listingId).map (·.id)) : isUuid id = true := by
  obtain ⟨row, hrow, rfl⟩ := List.mem_map.mp h
  exact m.uuids row (List.mem_of_mem_filter (mem_sortedBy.mp hrow))

end MediaTable

theorem parse_orderBody {mediaIds : List Id} (huuid : ∀ id ∈ mediaIds, isUuid id = true) :
    parseListingMediaOrder (orderBody mediaIds) =
      if 1 ≤ mediaIds.length ∧ mediaIds.length ≤ listingMediaLimit then some mediaIds else none := by
  have hread : ∀ ids : List Id, (∀ id ∈ ids, isUuid id = true) → (ids.map Json.string).mapM uuidOf = some ids := by
    intro ids hids
    induction ids with
    | nil => rfl
    | cons id ids ih =>
      rw [List.forall_mem_cons] at hids
      rw [List.map_cons, List.mapM_cons, ih hids.2, uuidOf, if_pos hids.1]
      rfl
  rw [orderBody, parseListingMediaOrder, List.length_map, hread mediaIds huuid]

theorem sameSet_of_perm {held asked : List Id} (hn : held.Nodup) (h : asked.Perm held) : sameSet held asked = true := by
  have hasked := h.nodup_iff.mpr hn
  simp only [sameSet, hasked.dedup, hn.dedup, h.length_eq, decide_true, Bool.true_and, List.all_eq_true,
    List.contains_iff_mem]
  intro id hid
  exact h.mem_iff.mpr hid

section

variable {w : Wiring} {s s' : Storage} {d : Draw} {c c' : Call}

theorem putting_table (s : Storage) (key : String) (next : Call) (answer : PutAnswer) :
    (putting s key next answer).1.table = s.table := by
  have hput : (s.put key).table = s.table := by
    unfold Storage.put
    split <;> rfl
  cases answer with
  | done => exact hput
  | failed reason stored =>
    cases stored
    · rfl
    · exact hput

/-- The table is written by three statements. -/
theorem next_table (h : next w s d c = some (s', c')) : s'.table = s.table ∨
    (∃ media last, c = .creating media last ∧ d.fails = false ∧ s.table.create media last d.id d.now = some s'.table) ∨
    (∃ p, s'.table = s.table.keep p) ∨
    ∃ listingId mediaIds, s'.table = s.table.reorder listingId mediaIds := by
  cases c with
  | returned answer => cases h
  | owning request =>
    simp only [next] at h
    split at h
    · cases h
      exact .inl rfl
    · split at h <;> cases h <;> exact .inl rfl
  | listing listingId =>
    simp only [next] at h
    split at h <;> cases h <;> exact .inl rfl
  | counting listingId bytes =>
    simp only [next] at h
    split at h
    · cases h
      exact .inl rfl
    · split at h <;> cases h <;> exact .inl rfl
  | preparing listingId bytes =>
    simp only [next] at h
    split at h <;> cases h <;> exact .inl rfl
  | puttingDisplay listingId mediaId prepared =>
    obtain rfl : _ = s' := congrArg Prod.fst (Option.some.inj h)
    exact .inl (putting_table s _ _ d.put)
  | puttingThumbnail listingId mediaId prepared =>
    obtain rfl : _ = s' := congrArg Prod.fst (Option.some.inj h)
    exact .inl (putting_table s _ _ d.put)
  | readingLast media =>
    simp only [next] at h
    split at h <;> cases h <;> exact .inl rfl
  | creating media last =>
    simp only [next] at h
    split at h
    · cases h
      exact .inl rfl
    · rename_i hworks
      obtain ⟨table, htable, hpair⟩ := Option.map_eq_some_iff.mp h
      cases hpair
      exact .inr (.inl ⟨media, last, rfl, by simpa using hworks, htable⟩)
  | removing listingId mediaId =>
    simp only [next] at h
    split at h
    · cases h
      exact .inl rfl
    · split at h
      · cases h
        exact .inl rfl
      · rename_i row table hremove
        obtain ⟨row', -, hpair⟩ := Option.map_eq_some_iff.mp hremove
        cases hpair
        cases h
        exact .inr (.inr (.inl ⟨_, rfl⟩))
  | discarding keys =>
    cases keys with
    | nil =>
      cases h
      exact .inl rfl
    | cons key keys =>
      cases h
      cases hd : d.delete <;> exact .inl rfl
  | checking listingId mediaIds =>
    simp only [next] at h
    split at h
    · cases h
      exact .inl rfl
    · split at h <;> cases h <;> exact .inl rfl
  | reordering listingId mediaIds =>
    simp only [next] at h
    split at h
    · cases h
      exact .inl rfl
    · cases h
      exact .inr (.inr (.inr ⟨listingId, mediaIds, rfl⟩))

/-- No listing has more photographs than it may. -/
def Bounded (s : Storage) : Prop := ∀ listingId, (s.table.rowsOf listingId).length ≤ listingMediaLimit

theorem Bounded.next (hb : Bounded s) (hroom : ∀ media last, c = .creating media last → d.fails = false →
    (s.table.rowsOf media.listingId).length < listingMediaLimit) (h : next w s d c = some (s', c')) : Bounded s' := by
  intro listingId
  obtain hsame | ⟨media, last, hc, hworks, hcreate⟩ | ⟨p, hkeep⟩ | ⟨listing, mediaIds, hreorder⟩ := next_table h
  · rw [hsame]
    exact hb listingId
  · have hroom := hroom media last hc hworks
    rw [MediaTable.rowsOf, MediaTable.create_rows hcreate, List.filter_append, List.length_append]
    by_cases hlisting : media.listingId = listingId
    · subst hlisting
      have hone := List.length_filter_le (fun row : ListingMediaRecord => decide (row.listingId = media.listingId))
        [MediaTable.appended media last d.id d.now]
      rw [List.length_singleton] at hone
      exact Nat.succ_le_of_lt hroom |>.trans' (Nat.add_le_add_left hone _)
    · have hnone : [MediaTable.appended media last d.id d.now].filter (fun row => row.listingId = listingId) = [] := by
        simpa [MediaTable.appended] using hlisting
      rw [hnone]
      exact hb listingId
  · rw [hkeep]
    exact (MediaTable.rowsOf_keep_le p).trans (hb listingId)
  · rw [hreorder, MediaTable.rowsOf_length, MediaTable.reorder_listingIds, ← MediaTable.rowsOf_length]
    exact hb listingId

end

section

variable {w : Wiring} {s s' : State Storage Call} {listingId ownerId : Id} {mediaIds : List Id}

/-- An order of all of a listing's photographs is refused by nothing but the
contract's bound. -/
theorem accepts_of_perm (howner : existsOwnedBy w listingId ownerId = true)
    (hperm : mediaIds.Perm ((s.tables.table.listFor listingId).map (·.id)))
    (hbound : 1 ≤ mediaIds.length ∧ mediaIds.length ≤ listingMediaLimit) : Accepts w s listingId ownerId mediaIds := by
  have huuid : ∀ id ∈ mediaIds, isUuid id = true := fun id hid => MediaTable.listFor_uuid (hperm.mem_iff.mp hid)
  have hn : ((s.tables.table.listFor listingId).map (·.id)).Nodup :=
    (sortedBy_perm.map _).nodup_iff.mpr (s.tables.table.ids.sublist (List.filter_sublist.map _))
  have hsame : sameSet ((s.tables.table.listFor listingId).map (·.id)) mediaIds = true := sameSet_of_perm hn hperm
  refine ⟨by rw [parse_orderBody huuid, if_pos hbound], ?_⟩
  let after : Storage := { s.tables with table := s.tables.table.reorder listingId mediaIds }
  refine ⟨⟨after, s.calls ++ [.returned (.photographs (sign w (after.table.listFor listingId)))]⟩,
    sign w (after.table.listFor listingId), ?_, ?_, ?_, ?_⟩
  · rw [undisturbed, run_cons_eq_some]
    refine ⟨⟨s.tables, s.calls ++ [.owning (.reorder listingId ownerId mediaIds)]⟩, rfl, ?_⟩
    have howned : next w s.tables untroubled (.owning (.reorder listingId ownerId mediaIds)) =
        some (s.tables, .checking listingId mediaIds) := by
      simp [next, untroubled, Request.listingId, Request.ownerId, howner, Request.owned]
    have hchecked : next w s.tables untroubled (.checking listingId mediaIds) =
        some (s.tables, .reordering listingId mediaIds) := by
      simp [next, untroubled, hsame]
    have hreordered : next w s.tables untroubled (.reordering listingId mediaIds) = some (after, .listing listingId) := rfl
    have hlisted : next w after untroubled (.listing listingId) =
        some (after, .returned (.photographs (sign w (after.table.listFor listingId)))) := rfl
    simp only [List.replicate, run_cons, run_nil, step_last, service, howned, hchecked, hreordered, hlisted,
      Option.map_some, Option.bind_some]
  · exact List.getElem?_concat_length
  · rw [listFor, if_pos howner]
  · rw [sign, List.map_map]
    exact MediaTable.listFor_reorder hperm

theorem not_accepts_of_many (hmany : listingMediaLimit < mediaIds.length) (huuid : ∀ id ∈ mediaIds, isUuid id = true) :
    ¬Accepts w s listingId ownerId mediaIds := by
  rintro ⟨hparse, -⟩
  rw [parse_orderBody huuid, if_neg (fun h => absurd h.2 hmany.not_ge)] at hparse
  cases hparse

theorem run_bounded {as : List (Action Request Draw)} (hr : run (service w).step initial as = some s)
    (hmeets : Meets (service w).step (fun s a => overfills s a = false) initial as) : Bounded s.tables := by
  have h : Holds (T := Storage) (C := Call) Bounded (fun _ _ => True) s := by
    refine Holds.after_run_of_meets (fun _ _ _ => trivial) ?_ (holds_of_no_calls rfl (fun _ => Nat.zero_le _)) hr hmeets
    intro u i d c t' c' hb _ hroom hc hnext
    refine ⟨hb.next ?_ hnext, trivial, fun _ _ => trivial⟩
    rintro media last rfl hworks
    simpa [overfills, hc, hworks] using hroom
  exact h.1

end

/-- What an owner sees they can reorder, as long as it is not more than a listing may
have. In every state that calls can reach, every order of a listing's photographs is
accepted if and only if they are no more than that; and they are no more where no
photograph has been written to a full listing. -/
theorem every_order_accepted_iff (w : Wiring) {s : State Storage Call} {as : List (Action Request Draw)}
    {listingId ownerId : Id} {media : List OwnerListingMedia}
    (hr : run (service w).step initial as = some s) (hlist : listFor w s.tables listingId ownerId = some media)
    (hsome : media ≠ []) :
    ((∀ mediaIds, mediaIds.Perm (media.map (·.id)) → Accepts w s listingId ownerId mediaIds) ↔
      media.length ≤ listingMediaLimit) ∧
    (Meets (service w).step (fun s a => overfills s a = false) initial as →
      ∀ mediaIds, mediaIds.Perm (media.map (·.id)) → Accepts w s listingId ownerId mediaIds) := by
  have howner : existsOwnedBy w listingId ownerId = true ∧ sign w (s.tables.table.listFor listingId) = media := by
    unfold listFor at hlist
    split at hlist <;> cases hlist
    exact ⟨‹_›, rfl⟩
  obtain ⟨howner, rfl⟩ := howner
  have hids : (sign w (s.tables.table.listFor listingId)).map (·.id) = (s.tables.table.listFor listingId).map (·.id) := by
    rw [sign, List.map_map]
    rfl
  have hlength : (sign w (s.tables.table.listFor listingId)).length = (s.tables.table.rowsOf listingId).length := by
    rw [sign, List.length_map, MediaTable.listFor_length]
  have haccepts : (sign w (s.tables.table.listFor listingId)).length ≤ listingMediaLimit →
      ∀ mediaIds, mediaIds.Perm ((sign w (s.tables.table.listFor listingId)).map (·.id)) →
        Accepts w s listingId ownerId mediaIds := by
    intro hbound mediaIds hperm
    have hcount := hperm.length_eq
    rw [List.length_map] at hcount
    apply accepts_of_perm howner (hids ▸ hperm)
    rw [hcount]
    exact ⟨List.length_pos_iff.mpr hsome, hbound⟩
  refine ⟨⟨fun hall => ?_, haccepts⟩, fun hmeets => haccepts ?_⟩
  · apply not_lt.mp
    intro hmany
    refine not_accepts_of_many ?_ ?_ (hall _ (List.Perm.refl _))
    · rwa [List.length_map]
    · intro id hid
      rw [hids] at hid
      exact MediaTable.listFor_uuid hid
  · rw [hlength]
    exact run_bounded hr hmeets listingId

def drillWiring : Wiring where
  ownerOf := fun _ => some "owner"
  prepareImage := fun _ => .ok ⟨"image/webp", ⟨1600, 1200, 250000⟩, ⟨400, 300, 20000⟩, "e3b0c442"⟩
  signedUrl := fun key => "https://objects.test/" ++ key

/-- What the `n`th upload draws. -/
def drawOf (n : Nat) : Draw :=
  ⟨false, "6f1c0f52-8a0e-4c11-9d2f-0c5a7e1b2d" ++ toString (10 + n), n, .done, .done⟩

/-- Uploads of as many photographs at once: all of them are counted before the first
is written. -/
def uploads (count : Nat) : List (Action Request Draw) :=
  (List.range count).map (fun _ => .arrive (.add "drill" "owner" [])) ++
    (List.range count).flatMap (fun n => List.replicate 2 (.exec n (drawOf n))) ++
    (List.range count).flatMap (fun n => List.replicate 5 (.exec n (drawOf n)))

theorem two_photographs_are_reordered : ∃ s media, run (service drillWiring).step initial (uploads 2) = some s ∧
    listFor drillWiring s.tables "drill" "owner" = some media ∧ media.length = 2 ∧
    Accepts drillWiring s "drill" "owner" (media.map (·.id)).reverse := by
  have hrun : ((run (service drillWiring).step initial (uploads 2)).bind
      (fun s => listFor drillWiring s.tables "drill" "owner")).map (·.length) = some 2 := by decide +kernel
  obtain ⟨media, hmedia, hlength⟩ := Option.map_eq_some_iff.mp hrun
  obtain ⟨s, hs, hlist⟩ := Option.bind_eq_some_iff.mp hmedia
  have hmeets : Meets (service drillWiring).step (fun s a => overfills s a = false) initial (uploads 2) := by
    decide +kernel
  have hsome : media ≠ [] := by
    rintro rfl
    cases hlength
  refine ⟨s, media, hs, hlist, hlength, ?_⟩
  exact (every_order_accepted_iff drillWiring hs hlist hsome).2 hmeets _ (List.reverse_perm _)

/-- Eleven uploads pass the cap, and the contract takes none of their orders. -/
theorem eleven_photographs_cannot_be_reordered : ∃ s media,
    run (service drillWiring).step initial (uploads 11) = some s ∧ s.calls.all (·.isOver) = true ∧
    listFor drillWiring s.tables "drill" "owner" = some media ∧ media ≠ [] ∧
    ¬Accepts drillWiring s "drill" "owner" (media.map (·.id)) := by
  have hrun : (run (service drillWiring).step initial (uploads 11)).map (fun s => (s.calls.all (·.isOver),
      (listFor drillWiring s.tables "drill" "owner").map (fun media =>
        (media.length, parseListingMediaOrder (orderBody (media.map (·.id))))))) = some (true, some (11, none)) := by
    decide +kernel
  obtain ⟨s, hs, hfacts⟩ := Option.map_eq_some_iff.mp hrun
  obtain ⟨hover, hlisted⟩ := Prod.mk.inj hfacts
  obtain ⟨media, hlist, hmedia⟩ := Option.map_eq_some_iff.mp hlisted
  obtain ⟨hlength, hparse⟩ := Prod.mk.inj hmedia
  refine ⟨s, media, hs, hover, hlist, ?_, ?_⟩
  · rintro rfl
    cases hlength
  · rintro ⟨hparsed, -⟩
    rw [hparse] at hparsed
    cases hparsed

end RentalMarket.Catalogue.Media
