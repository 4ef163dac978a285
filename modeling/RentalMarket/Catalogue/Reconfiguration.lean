import RentalMarket.Catalogue.Statements
import RentalMarket.Lib.Keyed

namespace RentalMarket.Catalogue

open RentalMarket.Core RentalMarket.Pricing Runs Interleaving

structure Link where
  actorId : Id
  beforeHash : Option String
  afterHash : Option String
  deriving DecidableEq, Repr

def link (w : Wiring) (slug : String) (before after : CategoryVersion) : Link :=
  ⟨after.createdById, some (w.digest (auditable slug before.configuration)),
    some (w.digest (auditable slug after.configuration))⟩

namespace Tables

def versionsOf (t : Tables) (categoryId : Id) : List CategoryVersion :=
  t.versions.filter (fun v => v.categoryId = categoryId)

def linksOf (w : Wiring) (t : Tables) (c : Category) : List Link :=
  List.zipWith (link w c.slug) (t.versionsOf c.id) (t.versionsOf c.id).tail

def entriesOf (t : Tables) (categoryId : Id) : List Link :=
  (t.audit.filter (fun e => e.action = "category.reconfigured" ∧ e.targetId = categoryId)).map
    (fun e => ⟨e.actorId, e.beforeHash, e.afterHash⟩)

/-- A category's versions are numbered from one, without gaps. -/
def Numbered (t : Tables) : Prop :=
  ∀ c ∈ t.categories, (t.versionsOf c.id).map (·.versionNumber) = List.range' 1 (t.versionsOf c.id).length

end Tables

def Call.pending (w : Wiring) (categoryId : Id) : Call → Option Link
  | auditing r before after =>
    if after.categoryId = categoryId then
      some ⟨r.actorId, some (w.digest (auditable r.slug before.configuration)),
        some (w.digest (auditable r.slug after.configuration))⟩
    else none
  | _ => none

def Named (t : Tables) : Call → Prop
  | .addVersionInsert r _ current =>
    ∃ c, t.findCategory r.slug = some c ∧ current ∈ t.versions ∧ current.categoryId = c.id
  | _ => True

/-- Every version that is inserted replaces one that has the digest of what its call
calls the state before, and no entry fails to be written. -/
def describes (w : Wiring) (s : State) : Action → Bool
  | .exec i d =>
    match s.calls[i]? with
    | some (.addVersionInsert r before current) =>
      d.fails || s.tables.versions.any (fun v => v.categoryId = current.categoryId ∧
        v.versionNumber = current.versionNumber + 1) ||
      decide (w.digest (auditable r.slug before.configuration) =
        w.digest (auditable r.slug current.configuration))
    | _ => true
  | .arrive _ => true

def auditsSucceed (s : State) : Action → Bool
  | .exec i d =>
    match s.calls[i]? with
    | some (.auditing _ _ _) => !d.fails
    | _ => true
  | .arrive _ => true

section

variable {w : Wiring} {t t' : Tables} {d : Draw} {c c' : Call}

theorem zipWith_tail_concat {α β : Type} (f : α → α → β) (l : List α) (a b : α) :
    List.zipWith f (l ++ [a] ++ [b]) (l ++ [a] ++ [b]).tail =
      List.zipWith f (l ++ [a]) (l ++ [a]).tail ++ [f a b] := by
  have hne : l ++ [a] ≠ [] := by simp
  have hlength : l.length = (l ++ [a]).tail.length := by simp
  calc List.zipWith f (l ++ [a] ++ [b]) (l ++ [a] ++ [b]).tail
      = List.zipWith f (l ++ [a, b]) ((l ++ [a]).tail ++ [b]) := by
        rw [List.tail_append_of_ne_nil hne, List.append_assoc]
        rfl
    _ = List.zipWith f l (l ++ [a]).tail ++ [f a b] := by
        rw [List.zipWith_append hlength]
        rfl
    _ = List.zipWith f (l ++ [a]) ((l ++ [a]).tail ++ []) ++ [f a b] := by
        rw [List.zipWith_append hlength]
        simp
    _ = List.zipWith f (l ++ [a]) (l ++ [a]).tail ++ [f a b] := by
        rw [List.append_nil]

theorem mem_versionsOf {categoryId : Id} {v : CategoryVersion} :
    v ∈ t.versionsOf categoryId ↔ v ∈ t.versions ∧ v.categoryId = categoryId := by
  rw [Tables.versionsOf, List.mem_filter, decide_eq_true_eq]

/-- The version whose successor's number is free is its category's last. -/
theorem last_of_free (hnumbered : t.Numbered) {category : Category} (hcategory : category ∈ t.categories)
    {current : CategoryVersion} (hcurrent : current ∈ t.versions) (hid : current.categoryId = category.id)
    (hfree : ∀ v ∈ t.versions, v.categoryId = current.categoryId →
      v.versionNumber ≠ current.versionNumber + 1) :
    current.versionNumber = (t.versionsOf category.id).length ∧
      ∃ earlier, t.versionsOf category.id = earlier ++ [current] := by
  have hnumbers := hnumbered category hcategory
  have hmem : current ∈ t.versionsOf category.id := mem_versionsOf.mpr ⟨hcurrent, hid⟩
  have hrange : current.versionNumber ∈ List.range' 1 (t.versionsOf category.id).length := by
    rw [← hnumbers]
    exact List.mem_map_of_mem hmem
  have hlength : current.versionNumber = (t.versionsOf category.id).length := by
    by_contra hne
    have hnext : current.versionNumber + 1 ∈ List.range' 1 (t.versionsOf category.id).length := by
      rw [List.mem_range'_1] at hrange ⊢
      omega
    rw [← hnumbers] at hnext
    obtain ⟨v, hv, hnumber⟩ := List.mem_map.mp hnext
    obtain ⟨hvmem, hvid⟩ := mem_versionsOf.mp hv
    exact hfree v hvmem (hvid.trans hid.symm) hnumber
  refine ⟨hlength, ?_⟩
  obtain hnil | ⟨earlier, last, hlast⟩ := List.eq_nil_or_concat' (t.versionsOf category.id)
  · rw [hnil] at hmem
    cases hmem
  · refine ⟨earlier, ?_⟩
    have hnodup : ((t.versionsOf category.id).map (·.versionNumber)).Nodup := by
      rw [hnumbers]
      exact List.nodup_range'
    have hlastmem : last ∈ t.versionsOf category.id := by
      rw [hlast]
      exact List.mem_append_right _ List.mem_cons_self
    have hlastnumber : last.versionNumber = (t.versionsOf category.id).length := by
      rw [hlast, List.length_append, List.length_singleton, List.range'_1_concat, List.map_append,
        List.map_singleton] at hnumbers
      have hends := (List.append_inj' hnumbers rfl).2
      rw [hlast, List.length_append, List.length_singleton, List.singleton_inj.mp hends]
      omega
    have hsame : current = last := Keyed.eq_of_key hnodup hmem hlastmem (hlength.trans hlastnumber.symm)
    rw [hsame, hlast]

theorem versionsOf_append (v : CategoryVersion) (categoryId : Id) :
    ({ t with versions := t.versions ++ [v] } : Tables).versionsOf categoryId =
      if v.categoryId = categoryId then t.versionsOf categoryId ++ [v] else t.versionsOf categoryId := by
  rw [Tables.versionsOf, List.filter_append]
  split
  · rename_i hcategory
    rw [List.filter_singleton, decide_eq_true hcategory]
    rfl
  · rename_i hcategory
    rw [List.filter_singleton, decide_eq_false hcategory]
    simp [Tables.versionsOf]

/-- The database's keys, and versions without gaps. -/
structure Tables.Catalogued (t : Tables) : Prop where
  categoryIds : (t.categories.map (·.id)).Nodup
  numbered : t.Numbered

theorem Named.current {r : Reconfiguration} {before current : CategoryVersion}
    (h : Named t (.addVersionInsert r before current)) : current ∈ t.versions := by
  obtain ⟨-, -, hcurrent, -⟩ := h
  exact hcurrent

theorem Named.grows (h : Named t c) (hg : Grows t t') : Named t' c := by
  cases c with
  | addVersionInsert r before current =>
    obtain ⟨category, hcategory, hcurrent, hid⟩ := h
    refine ⟨category, ?_, hg.versions current hcurrent, hid⟩
    rw [Tables.findCategory, hg.categories]
    exact hcategory
  | _ => trivial

theorem recheck_named (listing : ListingRecord) (pinning : CategoryConfiguration) (edit : ListingEdit)
    (drawn : Bool) : Named t (recheck w listing pinning edit drawn) := by
  obtain ⟨refusal, hstop⟩ | ⟨checked, hgo, -⟩ := recheck_cases w listing pinning edit drawn
  · rw [hstop]
    trivial
  · rw [hgo]
    trivial

theorem Moved.named (h : Moved w t d c t' c') : Named t' c' := by
  cases h with
  | currentRead hoption =>
    obtain ⟨hcategory, hlatest⟩ := Tables.findOption_spec hoption
    obtain ⟨hv, hid⟩ := Tables.latest_mem hlatest
    exact ⟨_, hcategory, hv, hid⟩
  | judgedDraft hoption hversion htakes hunplaced hthere => obtain rfl | ⟨postcode, rfl⟩ := hthere <;> trivial
  | judgedEdit hoption hversion htakes hunplaced hthere => exact hthere ▸ recheck_named _ _ _ _
  | placedEdit hthere => exact hthere ▸ recheck_named _ _ _ _
  | _ => trivial

theorem Moved.catalogued (h : Moved w t d c t' c') (ht : t.Catalogued) (hc : Named t c) : t'.Catalogued := by
  cases h with
  | versionAdded hid hnumber =>
    rename_i r before current
    refine ⟨ht.categoryIds, ?_⟩
    intro category hcategory
    rw [versionsOf_append]
    split
    · rename_i hsame
      obtain ⟨category', hfound, hcurrent, hcid⟩ := hc
      obtain ⟨hlength, -⟩ := last_of_free ht.numbered hcategory hcurrent hsame hnumber
      rw [List.map_append, List.map_singleton, ht.numbered category hcategory, List.length_append,
        List.length_singleton, List.range'_1_concat, hlength, Nat.add_comm 1]
    · exact ht.numbered category hcategory
  | drafted _ => exact ⟨ht.categoryIds, ht.numbered⟩
  | updated _ _ => exact ⟨ht.categoryIds, ht.numbered⟩
  | published _ => exact ⟨ht.categoryIds, ht.numbered⟩
  | paused _ => exact ⟨ht.categoryIds, ht.numbered⟩
  | audited => exact ⟨ht.categoryIds, ht.numbered⟩
  | _ => exact ht

theorem linksOf_append {category : Category} {earlier : List CategoryVersion} {current : CategoryVersion}
    (hlast : t.versionsOf category.id = earlier ++ [current]) {v : CategoryVersion}
    (hid : v.categoryId = category.id) :
    ({ t with versions := t.versions ++ [v] } : Tables).linksOf w category =
      t.linksOf w category ++ [link w category.slug current v] := by
  rw [Tables.linksOf, versionsOf_append, if_pos hid, hlast, zipWith_tail_concat, Tables.linksOf, hlast]

theorem entriesOf_append (e : AuditEntry) (categoryId : Id) :
    ({ t with audit := t.audit ++ [e] } : Tables).entriesOf categoryId =
      if e.action = "category.reconfigured" ∧ e.targetId = categoryId then
        t.entriesOf categoryId ++ [⟨e.actorId, e.beforeHash, e.afterHash⟩]
      else t.entriesOf categoryId := by
  rw [Tables.entriesOf, List.filter_append, List.filter_singleton]
  split
  · rename_i hentry
    rw [decide_eq_true hentry]
    simp [Tables.entriesOf]
  · rename_i hentry
    rw [decide_eq_false hentry]
    simp [Tables.entriesOf]

/-- The entries of a category, and the ones its calls have still to write, are one
for each version after the first. -/
def Chained (w : Wiring) (s : State) : Prop :=
  ∀ c ∈ s.tables.categories,
    (s.tables.entriesOf c.id ++ s.calls.filterMap (Call.pending w c.id)).Perm (s.tables.linksOf w c)

theorem recheck_pending (listing : ListingRecord) (pinning : CategoryConfiguration) (edit : ListingEdit)
    (drawn : Bool) (categoryId : Id) : (recheck w listing pinning edit drawn).pending w categoryId = none := by
  obtain ⟨refusal, hstop⟩ | ⟨checked, hgo, -⟩ := recheck_cases w listing pinning edit drawn
  · rw [hstop]
    rfl
  · rw [hgo]
    rfl

theorem pending_of_unwritten (h : c.unwritten = true) (categoryId : Id) : c.pending w categoryId = none := by
  cases c with
  | auditing r before after => cases h
  | _ => rfl

/-- What a statement adds to the entries, and to those still to write, it adds to
the versions. -/
theorem Moved.linked (h : Moved w t d c t' c') (ht : t.Catalogued) (hc : Named t c)
    (hdescribes : ∀ r before current, c = .addVersionInsert r before current → c' ≠ .returned .threw →
      (∀ v ∈ t.versions, v.categoryId = current.categoryId → v.versionNumber ≠ current.versionNumber + 1) →
        w.digest (auditable r.slug before.configuration) = w.digest (auditable r.slug current.configuration))
    (haudits : ∀ r before after, c = .auditing r before after → d.fails = false)
    {category : Category} (hcategory : category ∈ t.categories) (x : Link) :
    (t'.entriesOf category.id).count x + (c'.pending w category.id).toList.count x +
        (t.linksOf w category).count x =
      (t.entriesOf category.id).count x + (c.pending w category.id).toList.count x +
        (t'.linksOf w category).count x := by
  cases h with
  | failed hfails =>
    have hnone : c.pending w category.id = none := by
      cases c with
      | auditing r before after =>
        rw [haudits r before after rfl] at hfails
        cases hfails
      | _ => rfl
    rw [hnone]
    rfl
  | stopped hopen =>
    rw [pending_of_unwritten hopen]
    rfl
  | versionAdded hid hnumber =>
    rename_i r before current
    by_cases hsame : current.categoryId = category.id
    · obtain ⟨-, earlier, hlast⟩ := last_of_free ht.numbered hcategory (Named.current hc) hsame hnumber
      have hslug : r.slug = category.slug := by
        obtain ⟨category', hfound, -, hid'⟩ := hc
        obtain ⟨hcategory', hslug⟩ := Tables.findCategory_spec hfound
        have : category' = category := Keyed.eq_of_key ht.categoryIds hcategory' hcategory (hid'.symm.trans hsame)
        rw [← hslug, this]
      have hdigest := hdescribes r before current rfl (by simp) hnumber
      rw [hslug] at hdigest
      rw [linksOf_append (v := ⟨d.id, current.categoryId, current.versionNumber + 1, r.configuration, r.actorId⟩)
        hlast hsame, List.count_append]
      simp only [Call.pending, if_pos hsame, hslug, hdigest, link,
        Option.toList_some, Option.toList_none, List.count_nil]
      simp only [Tables.entriesOf]
      omega
    · have hlinks : Tables.linksOf w { t with versions := t.versions ++
          [⟨d.id, current.categoryId, current.versionNumber + 1, r.configuration, r.actorId⟩] } category =
            t.linksOf w category := by
        rw [Tables.linksOf, versionsOf_append, if_neg hsame, Tables.linksOf]
      rw [hlinks]
      simp only [Call.pending, if_neg hsame]
      rfl
  | audited =>
    rename_i r before after
    rw [entriesOf_append]
    by_cases hsame : after.categoryId = category.id
    · rw [if_pos ⟨rfl, hsame⟩, List.count_append]
      simp only [Call.pending, if_pos hsame, Option.toList_some, Option.toList_none, List.count_nil]
      simp only [Tables.linksOf, Tables.versionsOf]
      omega
    · rw [if_neg (fun hboth => hsame hboth.2)]
      simp only [Call.pending, if_neg hsame]
      rfl
  | judgedDraft hoption hversion htakes hunplaced hthere => obtain rfl | ⟨postcode, rfl⟩ := hthere <;> rfl
  | judgedEdit hoption hversion htakes hunplaced hthere =>
    rw [hthere, recheck_pending]
    rfl
  | placedEdit hthere =>
    rw [hthere, recheck_pending]
    rfl
  | _ => rfl

section

variable {s s' s₀ : State} {a : Action} {as : List Action}

theorem catalogued_of_run (h₀ : s₀.tables.Catalogued) (hidle : s₀.calls = [])
    (hr : run (machine w).step s₀ as = some s) : Holds Tables.Catalogued Named s := by
  refine Holds.after_run ?_ ?_ (holds_of_no_calls hidle h₀) hr
  · intro t r _
    cases r <;> trivial
  · intro t d c t' c' ht hc h
    have hmoved := next_moved h
    exact ⟨hmoved.catalogued ht hc, hmoved.named, fun c₂ hc₂ => hc₂.grows hmoved.grows⟩

theorem count_filterMap_cons {α β : Type} [DecidableEq β] (f : α → Option β) (a : α) (l : List α) (x : β) :
    ((a :: l).filterMap f).count x = (f a).toList.count x + (l.filterMap f).count x := by
  rw [List.filterMap_cons]
  cases f a with
  | none => simp
  | some b => simp [List.count_cons, Nat.add_comm]

theorem chained_step (hs : Holds Tables.Catalogued Named s) (hchained : Chained w s)
    (hdescribes : describes w s a = true) (haudits : auditsSucceed s a = true)
    (h : (machine w).step s a = some s') : Chained w s' := by
  intro category hcategory
  rw [(step_grows h).categories] at hcategory
  have hbefore := List.perm_iff_count.mp (hchained category hcategory)
  apply List.perm_iff_count.mpr
  intro x
  have hbefore := hbefore x
  rw [List.count_append] at hbefore ⊢
  cases a with
  | arrive r =>
    cases h
    have hstart : [start r].filterMap (Call.pending w category.id) = [] := by
      cases r <;> rfl
    simp only [machine, List.filterMap_append, hstart, List.append_nil]
    exact hbefore
  | exec i d =>
    obtain ⟨c, c', hc, hnext, hperm⟩ := calls_perm h
    have hcalls := List.perm_iff_count.mp (hperm.filterMap (Call.pending w category.id)) x
    rw [count_filterMap_cons, count_filterMap_cons] at hcalls
    have hthrown : d.fails = true → c' = .returned .threw := fun hfails => (next_of_fails hnext hfails).2
    have hlinked := (next_moved hnext).linked hs.1 (hs.2 i c hc) ?_ ?_ hcategory x
    · omega
    · rintro r before current rfl hthrew hfree
      cases hfails : d.fails with
      | true => exact absurd (hthrown hfails) hthrew
      | false =>
        have htaken : s.tables.versions.any (fun v => v.categoryId = current.categoryId ∧
            v.versionNumber = current.versionNumber + 1) = false := by
          simpa using hfree
        simp only [describes, hc, hfails, htaken, Bool.false_or] at hdescribes
        exact of_decide_eq_true hdescribes
    · rintro r before after rfl
      simpa [auditsSucceed, hc] using haudits

/-- Whatever the order of the statements, a category's versions are numbered from
one without gaps; and where every version that is added replaces what its call read
first, each version after the first has its entry, once every call has returned. -/
theorem audit_trail_is_a_chain (h₀ : s₀.tables.Catalogued) (hidle : s₀.calls = [])
    (hlinked : ∀ c ∈ s₀.tables.categories, (s₀.tables.entriesOf c.id).Perm (s₀.tables.linksOf w c))
    (hr : run (machine w).step s₀ as = some s)
    (haudits : Meets (machine w).step (fun s a => auditsSucceed s a = true) s₀ as) :
    s.tables.Numbered ∧
      (Meets (machine w).step (fun s a => describes w s a = true) s₀ as →
        (∀ c ∈ s.calls, c.isReturned = true) →
          ∀ c ∈ s.tables.categories, (s.tables.entriesOf c.id).Perm (s.tables.linksOf w c)) := by
  refine ⟨(catalogued_of_run h₀ hidle hr).1.numbered, ?_⟩
  intro hdescribes hreturned category hcategory
  have hchained : Chained w s := by
    refine run_induction (P := fun bs s => Meets (machine w).step
      (fun s a => auditsSucceed s a = true ∧ describes w s a = true) s₀ bs → Chained w s) ?_ ?_ hr
      (meets_and haudits hdescribes)
    · intro _ category hcategory
      rw [hidle, List.filterMap_nil, List.append_nil]
      exact hlinked category hcategory
    · intro bs u a u' hu ih hstep hmeets
      obtain ⟨hauditok, hdescribesok⟩ := meets_iff.mp hmeets bs a [] u rfl hu
      exact chained_step (catalogued_of_run h₀ hidle hu) (ih (meets_left hmeets)) hdescribesok hauditok hstep
  have hnone : s.calls.filterMap (Call.pending w category.id) = [] := by
    refine List.filterMap_eq_nil_iff.mpr ?_
    intro c hc
    have hover := hreturned c hc
    cases c with
    | auditing r before after => cases hover
    | _ => rfl
  have hperm := hchained category hcategory
  rw [hnone, List.append_nil] at hperm
  exact hperm

end

end

theorem sampleStart_catalogued (listings : List Listing) (locations : List ListingLocation) :
    (sampleStart listings locations).tables.Catalogued := by
  refine ⟨List.nodup_singleton _, ?_⟩
  intro c hc
  rw [List.mem_singleton.mp hc]
  rfl

def inTurn : List Action :=
  .arrive (sampleReconfigure "Lawn mowers") :: List.replicate 3 (runs 0 "v2" ⟨0, 0⟩) ++
    .arrive (sampleReconfigure "Garden mowers") :: List.replicate 4 (runs 1 "v3" ⟨0, 0⟩) ++ [runs 0 "x" ⟨0, 0⟩]

theorem reconfigurations_in_turn_are_chained : ∃ s,
    run (machine sampleWiring).step (sampleStart [] []) inTurn = some s ∧
      s.tables.versions.map (·.versionNumber) = [1, 2, 3] ∧
      s.tables.Numbered ∧ ∀ c ∈ s.tables.categories,
        (s.tables.entriesOf c.id).Perm (s.tables.linksOf sampleWiring c) := by
  have hrun : (run (machine sampleWiring).step (sampleStart [] []) inTurn).map (fun s =>
      (s.tables.versions.map (·.versionNumber), s.calls.all (·.isReturned))) = some ([1, 2, 3], true) := by
    decide +kernel
  obtain ⟨s, hr, hend⟩ := Option.map_eq_some_iff.mp hrun
  obtain ⟨hnumbers, hreturned⟩ := Prod.mk.inj hend
  have hlinked : ∀ c ∈ (sampleStart [] []).tables.categories,
      ((sampleStart [] []).tables.entriesOf c.id).Perm ((sampleStart [] []).tables.linksOf sampleWiring c) := by
    intro c hc
    rw [List.mem_singleton.mp hc]
    exact .refl _
  obtain ⟨hnumbered, hchain⟩ :=
    audit_trail_is_a_chain (sampleStart_catalogued [] []) rfl hlinked hr (by decide +kernel)
  exact ⟨s, hr, hnumbers, hnumbered, hchain (by decide +kernel) (List.all_eq_true.mp hreturned)⟩

/-- A reconfiguration reads the first version, another one lands, and the first
then adds its own on top of that. -/
def staleBefore : List Action :=
  .arrive (sampleReconfigure "Garden mowers") :: runs 0 "x" ⟨0, 0⟩ ::
    .arrive (sampleReconfigure "Lawn mowers") :: List.replicate 4 (runs 1 "v2" ⟨0, 0⟩) ++
      List.replicate 3 (runs 0 "v3" ⟨0, 0⟩)

theorem a_stale_before_state_breaks_the_chain : ∃ s,
    run (machine sampleWiring).step (sampleStart [] []) staleBefore = some s ∧
      (∀ c ∈ s.calls, c.isReturned = true) ∧
      Meets (machine sampleWiring).step (fun s a => auditsSucceed s a = true) (sampleStart [] []) staleBefore ∧
      s.tables.linksOf sampleWiring ⟨"cat", "mowers"⟩ =
        [⟨"ada", some "mowers|Mowers", some "mowers|Lawn mowers"⟩,
          ⟨"ada", some "mowers|Lawn mowers", some "mowers|Garden mowers"⟩] ∧
      s.tables.entriesOf "cat" =
        [⟨"ada", some "mowers|Mowers", some "mowers|Lawn mowers"⟩,
          ⟨"ada", some "mowers|Mowers", some "mowers|Garden mowers"⟩] ∧
      ¬(s.tables.entriesOf "cat").Perm (s.tables.linksOf sampleWiring ⟨"cat", "mowers"⟩) := by
  have hrun : (run (machine sampleWiring).step (sampleStart [] []) staleBefore).map (fun s =>
      (s.calls.all (·.isReturned), s.tables.linksOf sampleWiring ⟨"cat", "mowers"⟩, s.tables.entriesOf "cat")) =
        some (true,
          [⟨"ada", some "mowers|Mowers", some "mowers|Lawn mowers"⟩,
            ⟨"ada", some "mowers|Lawn mowers", some "mowers|Garden mowers"⟩],
          [⟨"ada", some "mowers|Mowers", some "mowers|Lawn mowers"⟩,
            ⟨"ada", some "mowers|Mowers", some "mowers|Garden mowers"⟩]) := by
    decide +kernel
  obtain ⟨s, hr, hend⟩ := Option.map_eq_some_iff.mp hrun
  obtain ⟨hreturned, hends⟩ := Prod.mk.inj hend
  obtain ⟨hlinks, hentries⟩ := Prod.mk.inj hends
  refine ⟨s, hr, List.all_eq_true.mp hreturned, by decide +kernel, hlinks, hentries, ?_⟩
  rw [hlinks, hentries]
  decide +kernel

end RentalMarket.Catalogue
