import RentalMarket.Catalogue.Moderation

namespace RentalMarket.Catalogue.Moderation

open Script Runs Interleaving

section

variable {w : Wiring} {p p' : Platform} {d : Draw} {c c' : Call} {s s' : State} {a : Action} {id : Id}

/-- What an owner's statement may do to the rows, as far as moderators care: it
takes none away, keeps what was decided of each, and a new one is approved. -/
structure OwnersMove (t t' : Tables) : Prop where
  stays : ∀ l ∈ t.listings, ∃ l' ∈ t'.listings, l'.id = l.id
  came : ∀ l' ∈ t'.listings, (∃ l ∈ t.listings, l.id = l'.id ∧ l.moderationState = l'.moderationState) ∨
    (∀ l ∈ t.listings, l.id ≠ l'.id) ∧ l'.moderationState = .approved

theorem ownersMove_of_eq {t t' : Tables} (h : t'.listings = t.listings) : OwnersMove t t' := by
  refine ⟨?_, ?_⟩
  · rw [h]
    exact fun l hl => ⟨l, hl, rfl⟩
  · rw [h]
    exact fun l hl => .inl ⟨l, hl, rfl, rfl⟩

theorem ownersMove_updateRows {t t' : Tables} {listingId ownerId : Id} (change : Listing → Listing)
    (hid : ∀ l, (change l).id = l.id) (hstate : ∀ l, (change l).moderationState = l.moderationState)
    (h : t'.listings = updateRows t.listings listingId ownerId change) : OwnersMove t t' := by
  refine ⟨fun l hl => ?_, fun l' hl' => ?_⟩
  · rw [h]
    by_cases hrow : l.id = listingId ∧ l.ownerId = ownerId
    · exact ⟨change l, mem_updateRows.mpr (.inr ⟨l, hl, hrow.1, hrow.2, rfl⟩), hid l⟩
    · exact ⟨l, mem_updateRows.mpr (.inl ⟨hl, hrow⟩), rfl⟩
  · rw [h] at hl'
    obtain ⟨hl, -⟩ | ⟨l, hl, -, -, rfl⟩ := mem_updateRows.mp hl'
    · exact .inl ⟨l', hl, rfl, rfl⟩
    · exact .inl ⟨l, hl, (hid l).symm, (hstate l).symm⟩

theorem moved_ownersMove {t t' : Tables} {d : Catalogue.Draw} {c c' : Catalogue.Call}
    (h : Moved w.toWiring t d c t' c') : OwnersMove t t' := by
  cases h with
  | drafted hid =>
    refine ⟨fun l hl => ⟨l, List.mem_append_left _ hl, rfl⟩, fun l' hl' => ?_⟩
    obtain hl | hl := List.mem_append.mp hl'
    · exact .inl ⟨l', hl, rfl, rfl⟩
    · rw [List.mem_singleton.mp hl]
      exact .inr ⟨hid, rfl⟩
  | @updated p categoryVersionId =>
    exact ownersMove_updateRows (applyEdit p.edit categoryVersionId) (fun _ => rfl)
      (fun _ => rfl) rfl
  | published hrow =>
    exact ownersMove_updateRows (fun l => { l with status := .published }) (fun _ => rfl)
      (fun _ => rfl) rfl
  | paused hrow =>
    exact ownersMove_updateRows (fun l => { l with status := .paused }) (fun _ => rfl)
      (fun _ => rfl) rfl
  | _ => exact ownersMove_of_eq rfl

inductive Decided (w : Wiring) (p : Platform) (d : Draw) : Deciding → Platform → Deciding → Prop
  | ended {c : Deciding} {answer : Answer} (hanswer : ∀ after, answer ≠ .moderated after) :
      Decided w p d c p (.returned c.request answer)
  | found {r : ModerationRequest} {before : ModeratedListing} :
      Decided w p d (.reading r) p (.existing r before)
  | confirmed {r : ModerationRequest} {before : ModeratedListing} :
      Decided w p d (.existing r before) p (.writing r before)
  | wrote {r : ModerationRequest} {before : ModeratedListing}
      (hworks : d.fails = false) (hallowed : Platform.decisionAllowed r = true) :
      Decided w p d (.writing r before) (p.decide r d.now) (.rereading r before)
  | reread {r : ModerationRequest} {before after : ModeratedListing}
      (hafter : p.findForModeration r.listingId = some after) :
      Decided w p d (.rereading r before) p (.auditing r before after)
  | audited {r : ModerationRequest} {before after : ModeratedListing} :
      Decided w p d (.auditing r before after)
        { p with audit := p.audit ++ [auditEntry w r before after] } (.returned r (.moderated after))

theorem nextDeciding_decided {x x' : Deciding} (hworks : d.fails = false)
    (h : nextDeciding w p d x = some (p', x')) :
    Decided w p d x p' x' := by
  cases x with
  | reading r =>
    obtain ⟨rfl, rfl⟩ := Prod.mk.inj (Option.some.inj h)
    cases p.findForModeration r.listingId with
    | none => exact .ended (c := .reading r) nofun
    | some before => exact .found
  | existing r before =>
    obtain ⟨rfl, rfl⟩ := Prod.mk.inj (Option.some.inj h)
    split
    · exact .confirmed
    · exact .ended (c := .existing r before) nofun
  | writing r before =>
    simp only [nextDeciding, Option.some.injEq] at h
    split at h
    · rename_i hgo
      obtain ⟨rfl, rfl⟩ := Prod.mk.inj h
      rw [Bool.and_eq_true] at hgo
      exact .wrote hworks hgo.2
    · obtain ⟨rfl, rfl⟩ := Prod.mk.inj h
      exact .ended (c := .writing r before) nofun
  | rereading r before =>
    obtain ⟨rfl, rfl⟩ := Prod.mk.inj (Option.some.inj h)
    cases hafter : p.findForModeration r.listingId with
    | none => exact .ended (c := .rereading r before) nofun
    | some after => exact .reread hafter
  | auditing r before after =>
    obtain ⟨rfl, rfl⟩ := Prod.mk.inj (Option.some.inj h)
    exact .audited
  | returned r answer => cases h

theorem next_cases (h : next w p d c = some (p', c')) :
    (∃ x x', c = .owner x ∧ c' = .owner x' ∧ OwnersMove p.catalogue p'.catalogue ∧
      p'.decisions = p.decisions ∧ p'.audit = p.audit) ∨
    ∃ x x', c = .moderator x ∧ c' = .moderator x' ∧ Decided w p d x p' x' := by
  cases c with
  | owner x =>
    obtain ⟨⟨t', x'⟩, hnext, hsame⟩ := Option.map_eq_some_iff.mp h
    obtain ⟨rfl, rfl⟩ := Prod.mk.inj hsame
    exact .inl ⟨x, x', rfl, rfl, moved_ownersMove (next_moved hnext), rfl, rfl⟩
  | moderator x =>
    have hrest : ∀ {y : Deciding}, (if d.fails then some (p, Call.moderator (.returned y.request .threw))
        else (nextDeciding w p d y).map (fun r => (r.1, Call.moderator r.2))) = some (p', c') →
        ∃ x x', Call.moderator y = .moderator x ∧ c' = .moderator x' ∧ Decided w p d x p' x' := by
      intro y h
      split at h
      · obtain ⟨rfl, rfl⟩ := Prod.mk.inj (Option.some.inj h)
        exact ⟨y, _, rfl, rfl, .ended nofun⟩
      · rename_i hworks
        obtain ⟨⟨q, x'⟩, hnext, hsame⟩ := Option.map_eq_some_iff.mp h
        obtain ⟨rfl, rfl⟩ := Prod.mk.inj hsame
        exact ⟨y, x', rfl, rfl, nextDeciding_decided (by simpa using hworks) hnext⟩
    right
    cases x with
    | returned r answer => cases h
    | reading r => exact hrest h
    | existing r before => exact hrest h
    | writing r before => exact hrest h
    | rereading r before => exact hrest h
    | auditing r before after => exact hrest h

def TakenDown (p : Platform) (id : Id) : Prop :=
  (∃ l ∈ p.catalogue.listings, l.id = id) ∧
    ∀ l ∈ p.catalogue.listings, l.id = id → l.moderationState ≠ .approved

def reinstates (id : Id) (s : State) : Action → Bool
  | .arrive _ => false
  | .exec i d => !d.fails &&
    match s.calls[i]? with
    | some (.moderator (.writing r _)) => decide (r.listingId = id ∧ r.state = .approved)
    | _ => false

theorem OwnersMove.takenDown {t t' : Tables} (h : OwnersMove t t')
    (hthere : ∃ l ∈ t.listings, l.id = id)
    (hdown : ∀ l ∈ t.listings, l.id = id → l.moderationState ≠ .approved) :
    (∃ l ∈ t'.listings, l.id = id) ∧ ∀ l ∈ t'.listings, l.id = id → l.moderationState ≠ .approved := by
  obtain ⟨l, hl, hid⟩ := hthere
  refine ⟨?_, fun l' hl' hid' => ?_⟩
  · obtain ⟨l', hl', hsame⟩ := h.stays l hl
    exact ⟨l', hl', hsame.trans hid⟩
  · obtain ⟨l₀, hl₀, hid₀, hstate⟩ | ⟨hnew, -⟩ := h.came l' hl'
    · rw [← hstate]
      exact hdown l₀ hl₀ (hid₀.trans hid')
    · exact absurd (hid.trans hid'.symm) (hnew l hl)

theorem takenDown_decide {r : ModerationRequest} {now : Int} (h : TakenDown p id)
    (hr : ¬ (r.listingId = id ∧ r.state = .approved)) : TakenDown (p.decide r now) id := by
  obtain ⟨⟨l, hl, hid⟩, hdown⟩ := h
  refine ⟨⟨_, List.mem_map_of_mem hl, ?_⟩, fun l' hl' hid' => ?_⟩
  · split
    · exact hid
    · exact hid
  · obtain ⟨l₀, hl₀, rfl⟩ := List.mem_map.mp hl'
    by_cases hlisting : l₀.id = r.listingId
    · simp only [hlisting, if_true] at hid' ⊢
      exact fun hstate => hr ⟨hid', hstate⟩
    · simp only [hlisting, if_false] at hid' ⊢
      exact hdown l₀ hl₀ hid'

theorem takenDown_step (h : TakenDown s.tables id) (ha : reinstates id s a = false)
    (hx : (machine w).step s a = some s') : TakenDown s'.tables id := by
  obtain hsame | ⟨i, d, c, c', rfl, hc, hnext⟩ := step_tables hx
  · rw [hsame]
    exact h
  · generalize s'.tables = p' at hnext ⊢
    obtain ⟨x, x', rfl, rfl, hmove, -, -⟩ | ⟨x, x', rfl, rfl, hdecided⟩ := next_cases hnext
    · exact hmove.takenDown h.1 h.2
    · cases hdecided with
      | wrote hworks hallowed =>
        refine takenDown_decide h (fun hr => ?_)
        simp [reinstates, hworks, hc, hr] at ha
      | _ => exact h

theorem trim_of_spaces {reason : String} (h : ∀ c ∈ reason.toList, c = ' ') : trim reason = "" := by
  have hnone : reason.toList.dropWhile isSpace = [] := by
    refine List.dropWhile_eq_nil_iff.mpr (fun c hc => ?_)
    rw [h c hc]
    rfl
  rw [trim, hnone]
  rfl

theorem decisionAllowed_of_reason {r : ModerationRequest}
    (h : r.state = .approved ∨ trimmedReason r ≠ "") : Platform.decisionAllowed r = true := by
  obtain happroved | hreason := h
  · simp [Platform.decisionAllowed, happroved]
  · have hstored : storedReason (trimmedReason r) = some (trimmedReason r) := if_neg hreason
    rw [Platform.decisionAllowed, hstored, Bool.or_eq_true]
    right
    rw [Option.any_some, List.any_eq_true]
    by_contra hblank
    have hspaces : ∀ c ∈ (trimmedReason r).toList, c = ' ' := by
      intro c hc
      by_contra hne
      exact hblank ⟨c, hc, by simpa using hne⟩
    cases hgiven : r.reason with
    | none =>
      rw [trimmedReason, hgiven] at hreason
      exact hreason rfl
    | some reason =>
      simp only [trimmedReason, hgiven, Option.map_some, Option.getD_some] at hreason hspaces
      have hempty := trim_of_spaces hspaces
      rw [trim_trim] at hempty
      exact hreason hempty

def Asked (as : List Action) (r : ModerationRequest) : Prop :=
  .arrive (.moderate r) ∈ as ∧ (r.state = .approved ∨ trimmedReason r ≠ "")

/-- A row that is hidden is hidden by one request, which all its columns are of. -/
def Explained (as : List Action) (p : Platform) (l : Listing) : Prop :=
  l.moderationState ≠ .approved → ∃ r now, Asked as r ∧ r.listingId = l.id ∧
    r.state = l.moderationState ∧ p.decisions l.id = some ⟨storedReason (trimmedReason r), r.actorId, now⟩

def DecidingOk (w : Wiring) (as : List Action) (p : Platform) : Deciding → Prop
  | .returned r (.moderated after) => Asked as r ∧ ∃ before, auditEntry w r before after ∈ p.audit
  | .returned _ _ => True
  | x => Asked as x.request

structure Accounted (w : Wiring) (as : List Action) (s : State) : Prop where
  rows : ∀ l ∈ s.tables.catalogue.listings, Explained as s.tables l
  calls : ∀ (i : Nat) (x : Deciding), s.calls[i]? = some (.moderator x) → DecidingOk w as s.tables x

theorem Asked.mono {as bs : List Action} {r : ModerationRequest} (h : Asked as r) (hsub : as ⊆ bs) :
    Asked bs r := ⟨hsub h.1, h.2⟩

theorem DecidingOk.mono {as bs : List Action} {x : Deciding} (h : DecidingOk w as p x)
    (hsub : as ⊆ bs) (haudit : ∀ e ∈ p.audit, e ∈ p'.audit) : DecidingOk w bs p' x := by
  cases x with
  | returned r answer =>
    cases answer with
    | moderated after =>
      obtain ⟨hasked, before, hentry⟩ := h
      exact ⟨hasked.mono hsub, before, haudit _ hentry⟩
    | _ => trivial
  | _ => exact Asked.mono h hsub

theorem decidingOk_start {as : List Action} (r : ModerationRequest)
    (h : .arrive (.moderate r) ∈ as) : DecidingOk w as p (startDeciding r) := by
  unfold startDeciding
  split
  · trivial
  · rename_i hgo
    refine ⟨h, ?_⟩
    by_contra hnone
    obtain ⟨hhides, hblank⟩ := not_or.mp hnone
    exact hgo ⟨decide_eq_true hhides, not_not.mp hblank⟩

theorem decided_ok {as : List Action} {x x' : Deciding} (h : Decided w p d x p' x')
    (hok : DecidingOk w as p x) :
    DecidingOk w as p' x' ∧ ∀ e ∈ p.audit, e ∈ p'.audit := by
  cases h with
  | ended hanswer =>
    refine ⟨?_, fun e he => he⟩
    rename_i answer
    cases answer with
    | moderated after => exact absurd rfl (hanswer after)
    | _ => trivial
  | found => exact ⟨hok, fun e he => he⟩
  | confirmed => exact ⟨hok, fun e he => he⟩
  | wrote hworks hallowed => exact ⟨hok, fun e he => he⟩
  | reread hafter => exact ⟨hok, fun e he => he⟩
  | audited =>
    exact ⟨⟨hok, _, List.mem_append_right _ (List.mem_singleton_self _)⟩,
      fun e he => List.mem_append_left _ he⟩

theorem explained_decide {as : List Action} {r : ModerationRequest} {now : Int}
    (h : ∀ l ∈ p.catalogue.listings, Explained as p l) (hr : Asked as r) :
    ∀ l ∈ (p.decide r now).catalogue.listings, Explained as (p.decide r now) l := by
  intro l' hl' hhidden
  obtain ⟨l, hl, rfl⟩ := List.mem_map.mp hl'
  by_cases hlisting : l.id = r.listingId
  · simp only [hlisting, if_true] at hhidden ⊢
    exact ⟨r, now, hr, rfl, rfl, Function.update_self _ _ _⟩
  · simp only [hlisting, if_false] at hhidden ⊢
    obtain ⟨r', now', hasked, hid, hstate, hdecision⟩ := h l hl hhidden
    refine ⟨r', now', hasked, hid, hstate, ?_⟩
    rw [← hdecision]
    exact Function.update_of_ne hlisting _ _

theorem explained_owner {as : List Action} (hmove : OwnersMove p.catalogue p'.catalogue)
    (hdecisions : p'.decisions = p.decisions)
    (h : ∀ l ∈ p.catalogue.listings, Explained as p l) :
    ∀ l ∈ p'.catalogue.listings, Explained as p' l := by
  intro l' hl' hhidden
  obtain ⟨l, hl, hid, hstate⟩ | ⟨-, hnew⟩ := hmove.came l' hl'
  · rw [← hstate] at hhidden
    obtain ⟨r, now, hasked, hlisting, hsame, hdecision⟩ := h l hl hhidden
    refine ⟨r, now, hasked, hlisting.trans hid, hsame.trans hstate, ?_⟩
    rw [hdecisions, ← hid]
    exact hdecision
  · exact absurd hnew hhidden

theorem Explained.mono {as bs : List Action} {l : Listing} (h : Explained as p l) (hsub : as ⊆ bs) :
    Explained bs p l := by
  intro hhidden
  obtain ⟨r, now, hasked, hrest⟩ := h hhidden
  exact ⟨r, now, hasked.mono hsub, hrest⟩

theorem decided_rows {as : List Action} {x x' : Deciding} (h : Decided w p d x p' x')
    (hrows : ∀ l ∈ p.catalogue.listings, Explained as p l) (hok : DecidingOk w as p x) :
    ∀ l ∈ p'.catalogue.listings, Explained as p' l := by
  cases h with
  | wrote hworks hallowed => exact explained_decide hrows hok
  | _ => exact hrows

theorem accounted_tables {as : List Action} (h : Accounted w as s)
    (hx : (machine w).step s a = some s') :
    (∀ l ∈ s'.tables.catalogue.listings, Explained as s'.tables l) ∧
      ∀ e ∈ s.tables.audit, e ∈ s'.tables.audit := by
  obtain hsame | ⟨i, d, c, c', rfl, hc, hnext⟩ := step_tables hx
  · rw [hsame]
    exact ⟨h.rows, fun e he => he⟩
  · obtain ⟨x, x', rfl, rfl, hmove, hdecisions, haudit⟩ | ⟨x, x', rfl, rfl, hdecided⟩ :=
      next_cases hnext
    · refine ⟨explained_owner hmove hdecisions h.rows, ?_⟩
      rw [haudit]
      exact fun e he => he
    · have hok := h.calls i x hc
      exact ⟨decided_rows hdecided h.rows hok, (decided_ok hdecided hok).2⟩

theorem accounted_step {as : List Action} (h : Accounted w as s) (hx : (machine w).step s a = some s') :
    Accounted w (as ++ [a]) s' := by
  have hsub : as ⊆ as ++ [a] := List.subset_append_left _ _
  obtain ⟨hrows, haudit⟩ := accounted_tables h hx
  refine ⟨fun l hl => (hrows l hl).mono hsub, fun i x hxi => ?_⟩
  obtain ⟨hold, -⟩ | ⟨r, rfl, hr⟩ | ⟨d, c, rfl, hc, hnext⟩ := step_call hx hxi
  · exact (h.calls i x hold).mono hsub haudit
  · cases r with
    | owner r => cases hr
    | moderate r =>
      cases hr
      exact decidingOk_start r (List.mem_append_right _ (List.mem_singleton_self _))
  · obtain ⟨y, y', rfl, hy, -⟩ | ⟨y, y', rfl, hy, hdecided⟩ := next_cases hnext
    · cases hy
    · cases hy
      exact (decided_ok hdecided (h.calls i y hc)).1.mono hsub (fun e he => he)

end

def sampleWiring : Wiring where
  toWiring := Catalogue.sampleWiring
  digestDecision decision := decision.2.getD ""

def samplePlatform : Platform :=
  ⟨(sampleStart [sampleListing .published "A petrol mower"] [sampleLocation ⟨0, 600⟩]).tables, fun _ => none, []⟩

def runs (i : Nat) : Action := .exec i ⟨⟨"x", some ⟨54, -1⟩, ⟨0, 0⟩, true, false⟩, 1700⟩

def sampleTakedown : ModerationRequest := ⟨"mower", .rejected, some " Not safe to hire out ", "ada"⟩

def rejectedThenPublished : List Action :=
  .arrive (.moderate sampleTakedown) :: List.replicate 5 (runs 0) ++
    .arrive (.owner (.pause "mower" "olive")) :: List.replicate 3 (runs 1) ++
    .arrive (.owner (.publish "mower" "olive")) :: List.replicate 4 (runs 2)

/-- A takedown stands until a moderator takes it back. Once a listing is held
for review or rejected, nothing that owners do in any order (publish, resume,
edit, list again) and nothing that moderators decide of other listings shows it
to anybody again. -/
theorem takedown_stands (w : Wiring) {s s' : State} {as : List Action} {id : Id}
    (hdown : TakenDown s.tables id) (hr : run (machine w).step s as = some s')
    (hmeets : Meets (machine w).step (fun u a => reinstates id u a = false) s as) :
    TakenDown s'.tables id ∧
      (∀ l ∈ s'.tables.catalogue.listings, l.id = id →
        isPubliclyVisible l.status l.moderationState = false) ∧
      ∀ ids, id ∉ (s'.tables.catalogue.findPublishedSummaries ids).map (·.id) := by
  have h : TakenDown s'.tables id :=
    run_preserves_of_meets (P := fun u : State => TakenDown u.tables id)
      (fun u a u' hu ha hx => takenDown_step hu ha hx) hr hmeets hdown
  have hhidden : ∀ l ∈ s'.tables.catalogue.listings, l.id = id →
      isPubliclyVisible l.status l.moderationState = false := by
    intro l hl hid
    simp [isPubliclyVisible, h.2 l hl hid]
  refine ⟨h, hhidden, fun ids hmem => ?_⟩
  obtain ⟨summary, hsummary, hid⟩ := List.mem_map.mp hmem
  obtain ⟨l, hl, hof⟩ := List.mem_filterMap.mp hsummary
  obtain ⟨hrow, hvisible⟩ := List.mem_filter.mp hl
  rw [decide_eq_true_eq] at hvisible
  have hsame : summary.id = l.id := by
    obtain ⟨outwardCode, -, hof⟩ := Option.bind_eq_some_iff.mp hof
    obtain ⟨town, -, hof⟩ := Option.bind_eq_some_iff.mp hof
    obtain ⟨version, -, rfl⟩ := Option.map_eq_some_iff.mp hof
    rfl
  have hno := hhidden l hrow (hsame.symm.trans hid)
  rw [hvisible.2] at hno
  cases hno

theorem takedown_stands_rejected :
    ∃ s s', run (machine sampleWiring).step ⟨samplePlatform, []⟩ (rejectedThenPublished.take 6) = some s ∧
      run (machine sampleWiring).step s (rejectedThenPublished.drop 6) = some s' ∧
      s'.tables.catalogue.listings.map (fun l => (l.status, l.moderationState)) = [(.published, .rejected)] ∧
      "mower" ∉ (s'.tables.catalogue.findPublishedSummaries ["mower"]).map (·.id) := by
  have hboth : (run (machine sampleWiring).step ⟨samplePlatform, []⟩ (rejectedThenPublished.take 6)).bind
      (fun s => (run (machine sampleWiring).step s (rejectedThenPublished.drop 6)).map (fun s' =>
        (decide (Meets (machine sampleWiring).step (fun u a => reinstates "mower" u a = false) s
            (rejectedThenPublished.drop 6)),
          s.tables.catalogue.listings.map (fun l => (l.id, l.moderationState)),
          s'.tables.catalogue.listings.map (fun l => (l.status, l.moderationState))))) =
      some (true, [("mower", .rejected)], [(.published, .rejected)]) := by
    decide +kernel
  obtain ⟨s, hs, hrest⟩ := Option.bind_eq_some_iff.mp hboth
  obtain ⟨s', hs', hfacts⟩ := Option.map_eq_some_iff.mp hrest
  obtain ⟨hmeets, hbefore, hafter⟩ := by simpa only [Prod.mk.injEq] using hfacts
  obtain ⟨l, hl, hsame⟩ := List.map_eq_singleton_iff.mp hbefore
  obtain ⟨hid, hstate⟩ := Prod.mk.inj hsame
  have hdown : TakenDown s.tables "mower" := by
    rw [TakenDown, hl]
    simp [hid, hstate]
  exact ⟨s, s', hs, hs', hafter,
    (takedown_stands sampleWiring hdown hs' (of_decide_eq_true hmeets)).2.2 ["mower"]⟩

/-- Every takedown can be answered for. From listings that are all approved, in
any order of statements: a hidden listing carries, all of one request, its state,
its moderator and a reason that is not blank; a moderator who was told that the
decision stands is in the audit trail; and the table never has to refuse what
the service has let through. -/
theorem takedowns_are_accounted_for (w : Wiring) {s₀ s : State} {as : List Action}
    (hidle : s₀.calls = [])
    (happroved : ∀ l ∈ s₀.tables.catalogue.listings, l.moderationState = .approved)
    (hr : run (machine w).step s₀ as = some s) :
    (∀ l ∈ s.tables.catalogue.listings, l.moderationState ≠ .approved → ∃ r now,
      .arrive (.moderate r) ∈ as ∧ r.listingId = l.id ∧ r.state = l.moderationState ∧
        trimmedReason r ≠ "" ∧
        s.tables.decisions l.id = some ⟨some (trimmedReason r), r.actorId, now⟩) ∧
    (∀ (i : Nat) (r : ModerationRequest) (after : ModeratedListing),
      s.calls[i]? = some (.moderator (.returned r (.moderated after))) →
        .arrive (.moderate r) ∈ as ∧ ∃ before, auditEntry w r before after ∈ s.tables.audit) ∧
    ∀ (i : Nat) (r : ModerationRequest) (before : ModeratedListing),
      s.calls[i]? = some (.moderator (.writing r before)) → Platform.decisionAllowed r = true := by
  have h : Accounted w as s := by
    refine run_induction (P := fun as s => Accounted w as s) ?_ ?_ hr
    · refine ⟨fun l hl hhidden => absurd (happroved l hl) hhidden, fun i x hx => ?_⟩
      rw [hidle] at hx
      cases hx
    · exact fun as u a u' _ hu hx => accounted_step hu hx
  refine ⟨fun l hl hhidden => ?_, fun i r after hc => ?_, fun i r before hc => ?_⟩
  · obtain ⟨r, now, ⟨harrived, hreason⟩, hid, hstate, hdecision⟩ := h.rows l hl hhidden
    have hgiven : trimmedReason r ≠ "" := by
      obtain happroves | hgiven := hreason
      · exact absurd (hstate.symm.trans happroves) hhidden
      · exact hgiven
    refine ⟨r, now, harrived, hid, hstate, hgiven, ?_⟩
    rw [hdecision, storedReason, if_neg hgiven]
  · obtain ⟨hasked, hentry⟩ := h.calls i _ hc
    exact ⟨hasked.1, hentry⟩
  · have hasked : Asked as r := h.calls i _ hc
    exact decisionAllowed_of_reason hasked.2

theorem takedowns_are_accounted_for_rejected :
    ∃ s, run (machine sampleWiring).step ⟨samplePlatform, []⟩ rejectedThenPublished = some s ∧
      s.tables.audit = [⟨"ada", "listing.moderated", "mower", some "", some "Not safe to hire out",
        "Not safe to hire out"⟩] ∧
      ∃ l ∈ s.tables.catalogue.listings, l.status = .published ∧ ∃ now,
        s.tables.decisions l.id = some ⟨some "Not safe to hire out", "ada", now⟩ := by
  have hrun : (run (machine sampleWiring).step ⟨samplePlatform, []⟩ rejectedThenPublished).map (fun s =>
      (s.tables.audit, s.tables.catalogue.listings.map (fun l => (l.status, l.moderationState)))) =
      some ([⟨"ada", "listing.moderated", "mower", some "", some "Not safe to hire out",
        "Not safe to hire out"⟩], [(.published, .rejected)]) := by
    decide +kernel
  obtain ⟨s, hr, hend⟩ := Option.map_eq_some_iff.mp hrun
  obtain ⟨haudit, hlistings⟩ := Prod.mk.inj hend
  obtain ⟨l, hl, hsame⟩ := List.map_eq_singleton_iff.mp hlistings
  obtain ⟨hpublished, hrejected⟩ := Prod.mk.inj hsame
  have hmem : l ∈ s.tables.catalogue.listings := hl ▸ List.mem_singleton_self l
  have happroved : ∀ l ∈ samplePlatform.catalogue.listings, l.moderationState = .approved := by
    decide +kernel
  obtain ⟨r, now, harrived, -, -, -, hdecision⟩ :=
    (takedowns_are_accounted_for sampleWiring rfl happroved hr).1 l hmem (by rw [hrejected]; decide)
  have hr' : r = sampleTakedown := by
    simpa [rejectedThenPublished, runs, List.replicate] using harrived
  subst hr'
  exact ⟨s, hr, haudit, l, hmem, hpublished, now, hdecision⟩

end RentalMarket.Catalogue.Moderation
