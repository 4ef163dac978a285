import RentalMarket.Identity.Mirror

namespace RentalMarket.Identity

open RentalMarket.Core RentalMarket.Booking Runs

section

variable {k : String} {w : Wiring} {s s' : State} {a : Action}

def Ending (k : String) (s : State) : Prop :=
  s.tables.users.standing k = .gone ∨ ∃ (i : Nat) (c : Call), s.calls[i]? = some c ∧ c.closing = true

/-- A call that closes the account found it live, so that it is live still or its
tombstone has found its address free. -/
def Graves (k : String) (s : State) : Prop :=
  ∀ (i : Nat) (c : Call), s.calls[i]? = some c → c.closing = true →
    s.tables.users.standing k = .live ∨ s.tables.users.graveTaken k = false

namespace Told

theorem standing_of_subject (hs : Told k s) {i : Nat} {c : Call} {user : MirroredUser}
    (hc : s.calls[i]? = some c) (hsubject : c.subject = some user) : s.tables.users.standing k ≠ .unknown := by
  obtain ⟨u, hu, -⟩ := hs.known i c user hc hsubject
  intro hunknown
  rw [Users.standing_unknown_iff.mp hunknown] at hu
  cases hu

theorem gone (hs : Told k s) (h : step w s a = some s') (hgone : s.tables.users.standing k = .gone) :
    s'.tables.users.standing k = .gone := by
  obtain hsame | ⟨-, hunknown, -⟩ | ⟨-, -, hgone', -⟩ := (hs.step_mirrors h).standing
  · rw [hsame, hgone]
  · rw [hgone] at hunknown
    cases hunknown
  · exact hgone'

theorem gone_of_tombstone (hs : Told k s) {i : Nat} {c : Call} {user : MirroredUser}
    (hc : s.calls[i]? = some c) (hsubject : c.subject = some user) (now : Instant) :
    (s.tables.users.tombstone user.id now).standing k = .gone := by
  obtain ⟨u, hu, hid⟩ := hs.known i c user hc hsubject
  rw [← hid]
  have hfind : (s.tables.users.tombstone u.id now).findByClerkUserId k = some { u with
      deletedAt := some now, deletionRequestedAt := some now, email := tombstoneEmail u.id } :=
    Users.findByClerkUserId_changed hu (fun _ => rfl)
  rw [Users.standing_of_find hfind]
  rfl

theorem ending (hs : Told k s) (h : step w s a = some s') (hsucceeds : a.succeeds = true)
    (hfree : graveFree s a = true) (hending : Ending k s) : Ending k s' := by
  obtain hgone | ⟨i, c, hc, hclosing⟩ := hending
  · exact .inl (hs.gone h hgone)
  · by_cases hother : ∀ d, a ≠ .exec i d
    · exact .inr ⟨i, c, step_stays h hc hother, hclosing⟩
    · push Not at hother
      obtain ⟨d, rfl⟩ := hother
      rw [Action.succeeds, Bool.not_eq_true'] at hsucceeds
      obtain ⟨c', hnext, hc'⟩ := step_ran hc hsucceeds h
      cases c with
      | erasing stage user cause =>
        have hnext := Option.some.inj hnext
        cases stage with
        | tombstone =>
          left
          simp only [graveFree, hc, Bool.not_eq_true'] at hfree
          simp only [nextErasing, hfree, Bool.false_eq_true, if_false, Prod.mk.injEq] at hnext
          obtain ⟨ht, -⟩ := hnext
          rw [← ht]
          exact hs.gone_of_tombstone hc rfl d.now
        | _ =>
          right
          obtain ⟨-, rfl⟩ := Prod.mk.inj hnext
          exact ⟨i, _, hc', rfl⟩
      | _ => cases hclosing

/-- Once there is a row, the look-up of a deletion finds it closed or starts to
close it. -/
theorem ending_of_looksUp (hs : Told k s) (h : step w s a = some s') (hsucceeds : a.succeeds = true)
    (hlooks : s.looksUp a = true) (hknown : s.tables.users.standing k ≠ .unknown) : Ending k s' := by
  cases a with
  | exec i d =>
    rw [Action.succeeds, Bool.not_eq_true'] at hsucceeds
    obtain ⟨externalId, clerkUserId, hc⟩ := looksUp_iff.mp hlooks
    have htells := hs.tells i _ hc
    rw [Call.tells, Bool.decide_iff] at htells
    subst htells
    obtain ⟨c', hnext, hc'⟩ := step_ran hc hsucceeds h
    obtain ⟨ht, hto⟩ := Prod.mk.inj (Option.some.inj hnext)
    cases hfind : s.tables.users.findByClerkUserId clerkUserId with
    | none => exact absurd (Users.standing_unknown_iff.mpr hfind) hknown
    | some u =>
      simp only [hfind] at hto
      split at hto
      · rename_i hdeleted
        left
        rw [← ht, Users.standing_of_find hfind, if_pos hdeleted]
      · right
        exact ⟨i, c', hc', by rw [← hto]; rfl⟩
  | _ => cases hlooks

theorem standing_of_closing (hs : Told k s) {i : Nat} {c : Call} (hc : s.calls[i]? = some c)
    (hclosing : c.closing = true) : s.tables.users.standing k ≠ .unknown := by
  cases c with
  | erasing stage user cause => exact hs.standing_of_subject hc rfl
  | _ => cases hclosing

theorem graves (hs : Told k s) (ha : a.tells k = true) (h : step w s a = some s') (hgraves : Graves k s) :
    Graves k s' := by
  have hmirrors := hs.step_mirrors h
  have hstays (hknown : s.tables.users.standing k ≠ .unknown)
      (hbefore : s.tables.users.standing k = .live ∨ s.tables.users.graveTaken k = false) :
      s'.tables.users.standing k = .live ∨ s'.tables.users.graveTaken k = false := by
    rw [hmirrors.graveTaken hknown]
    obtain hsame | ⟨-, hunknown, -⟩ | ⟨-, hfree, -⟩ := hmirrors.standing
    · rw [hsame]
      exact hbefore
    · exact absurd hunknown hknown
    · exact .inr hfree
  intro i c hc hclosing
  obtain hold | rfl | ⟨externalId, event, rfl, rfl⟩ | ⟨d, c₀, -, -, hc₀, hnext⟩ := step_delivered ha h hc
  · exact hstays (hs.standing_of_closing hold hclosing) (hgraves i c hold hclosing)
  · cases hclosing
  · cases hclosing
  · obtain hclosing₀ | ⟨-, hlive⟩ := next_closing hnext (hs.tells i c₀ hc₀) hclosing
    · exact hstays (hs.standing_of_closing hc₀ hclosing₀) (hgraves i c₀ hc₀ hclosing₀)
    · refine hstays ?_ (.inl hlive)
      rw [hlive]
      nofun

theorem unasked (hs : Told k s) (ha : a.tells k = true) (h : step w s a = some s')
    (hlooks : s.looksUp a = false) (hlive : s.tables.users.standing k = .live)
    (hnone : ∀ (i : Nat) (c : Call), s.calls[i]? = some c → c.closing = false) :
    s'.tables.users.standing k = .live ∧
      ∀ (i : Nat) (c : Call), s'.calls[i]? = some c → c.closing = false := by
  refine ⟨?_, ?_⟩
  · obtain hsame | ⟨-, hunknown, -⟩ | ⟨-, -, -, i, c, hc, hclosing⟩ := (hs.step_mirrors h).standing
    · rw [hsame, hlive]
    · rw [hlive] at hunknown
      cases hunknown
    · rw [hnone i c hc] at hclosing
      cases hclosing
  · intro i c hc
    obtain hold | rfl | ⟨externalId, event, rfl, rfl⟩ | ⟨d, c₀, rfl, -, hc₀, hnext⟩ := step_delivered ha h hc
    · exact hnone i c hold
    · rfl
    · rfl
    · by_contra hclosing
      obtain hclosing₀ | ⟨⟨externalId, clerkUserId, rfl⟩, -⟩ :=
        next_closing hnext (hs.tells i c₀ hc₀) (by simpa using hclosing)
      · rw [hnone i c₀ hc₀] at hclosing₀
        cases hclosing₀
      · rw [looksUp_iff.mpr ⟨externalId, clerkUserId, hc₀⟩] at hlooks
        cases hlooks

end Told

end

def Tables.Claimed (t : Tables) (externalId : String) : Prop := ∃ x ∈ t.deliveries, x.1 = externalId

section

variable {k : String} {w : Wiring} {t t' : Tables} {locked : Id → Bool} {d : Draw} {c : Call}

theorem written_deliveries (hw : Written w t locked d c t') :
    t'.deliveries = t.deliveries ∨
      (∃ externalId event, c = .claiming externalId event ∧
        t'.deliveries = t.deliveries ++ [(externalId, false)]) ∨
      ∃ externalId, c = .processing externalId ∧
        t'.deliveries = t.deliveries.map (fun e => if e.1 = externalId then (e.1, true) else e) := by
  cases hw with
  | claimed externalId event => exact .inr (.inl ⟨externalId, event, rfl, rfl⟩)
  | processed externalId => exact .inr (.inr ⟨externalId, rfl, rfl⟩)
  | _ => exact .inl rfl

theorem written_claimed (hw : Written w t locked d c t') {externalId : String} :
    t'.Claimed externalId ↔ t.Claimed externalId ∨ ∃ event, c = .claiming externalId event ∧
      t'.deliveries = t.deliveries ++ [(externalId, false)] := by
  obtain hsame | ⟨claimed, event, rfl, hnew⟩ | ⟨processed, rfl, hmap⟩ := written_deliveries hw
  · simp only [Tables.Claimed, hsame]
    constructor
    · exact .inl
    · rintro (hold | ⟨event, rfl, hnew⟩)
      · exact hold
      · exact absurd (congrArg List.length hnew) (by simp)
  · simp only [Tables.Claimed, hnew, List.mem_append, List.mem_singleton]
    constructor
    · rintro ⟨x, hx | rfl, rfl⟩
      · exact .inl ⟨x, hx, rfl⟩
      · exact .inr ⟨event, rfl, rfl⟩
    · rintro (⟨x, hx, rfl⟩ | ⟨event', ⟨⟩, -⟩)
      · exact ⟨x, .inl hx, rfl⟩
      · exact ⟨_, .inr rfl, rfl⟩
  · simp only [Tables.Claimed, hmap, List.mem_map]
    constructor
    · rintro ⟨x, ⟨y, hy, rfl⟩, rfl⟩
      left
      exact ⟨y, hy, (by split <;> rfl)⟩
    · rintro (⟨x, hx, rfl⟩ | ⟨event', ⟨⟩, -⟩)
      exact ⟨_, ⟨x, hx, rfl⟩, by split <;> rfl⟩

end

section

variable {k : String} {w : Wiring} {s₀ s s' : State} {a : Action} {as : List Action}

theorem step_claimed_mono (h : step w s a = some s') {externalId : String}
    (hclaimed : s.tables.Claimed externalId) : s'.tables.Claimed externalId := by
  obtain ht | ⟨i, d, c, -, -, -, hw⟩ := step_tables h
  · rw [ht]
    exact hclaimed
  · exact (written_claimed hw).mpr (.inl hclaimed)

def Arrived (externalId : String) (event : Event) (s : State) : Prop :=
  (∃ i : Nat, s.calls[i]? = some (.claiming externalId event)) ∨ s.tables.Claimed externalId

theorem step_arrived (h : step w s a = some s') (hsucceeds : a.succeeds = true) {externalId : String}
    {event : Event} (harrived : Arrived externalId event s) : Arrived externalId event s' := by
  obtain ⟨i, hc⟩ | hclaimed := harrived
  · by_cases hother : ∀ d, a ≠ .exec i d
    · exact .inl ⟨i, step_stays h hc hother⟩
    · push Not at hother
      obtain ⟨d, rfl⟩ := hother
      rw [Action.succeeds, Bool.not_eq_true'] at hsucceeds
      obtain ⟨c', hnext, -⟩ := step_ran hc hsucceeds h
      right
      simp only [next] at hnext
      split at hnext
      · rename_i hany
        obtain ⟨ht, -⟩ := Prod.mk.inj (Option.some.inj hnext)
        rw [← ht]
        simpa [Tables.Claimed] using hany
      · obtain ⟨ht, -⟩ := Prod.mk.inj (Option.some.inj hnext)
        rw [← ht]
        exact ⟨(externalId, false), List.mem_append_right _ List.mem_cons_self, rfl⟩
  · exact .inr (step_claimed_mono h hclaimed)

theorem run_arrived (hr : run (step w) s₀ as = some s) (hsucceeds : ∀ a ∈ as, a.succeeds = true)
    {externalId : String} {event : Event} (hevent : .event externalId event ∈ as) :
    Arrived externalId event s := by
  obtain ⟨pre, post, rfl⟩ := List.append_of_mem hevent
  obtain ⟨t, hpre, hr⟩ := run_append_eq_some.mp hr
  obtain ⟨u, hu, hpost⟩ := run_cons_eq_some.mp hr
  have harrived : Arrived externalId event u := by
    cases hu
    exact .inl ⟨t.calls.length, List.getElem?_concat_length⟩
  have hmeets : Meets (step w) (fun _ a => a.succeeds = true) u post :=
    meets_of_forall (fun a ha => hsucceeds a (List.mem_append_right _ (List.mem_cons_of_mem _ ha)))
  exact run_preserves_of_meets (fun _ _ _ hs ha h => step_arrived h ha hs) hpost hmeets harrived

/-- The deliveries that a run has recorded, while no deletion is looked up: each
of its deletions waits for its look-up. -/
structure Unlooked (s₀ : State) (as : List Action) (s : State) : Prop where
  sent : ∀ (i : Nat) (externalId : String) (event : Event), s.calls[i]? = some (.claiming externalId event) →
    .event externalId event ∈ as
  waits : ∀ externalId, s.tables.Claimed externalId → s₀.tables.Claimed externalId ∨
    ∃ event, .event externalId event ∈ as ∧ ∀ clerkUserId, event = .deleted clerkUserId →
      ∃ i : Nat, s.calls[i]? = some (.deletedRead externalId clerkUserId)

theorem Unlooked.after_step (hs : Unlooked s₀ as s) (h : step w s a = some s') (ha : a ∈ as)
    (htells : a.tells k = true) (hsucceeds : a.succeeds = true) (hlooks : s.looksUp a = false) :
    Unlooked s₀ as s' := by
  have hwaits {externalId clerkUserId : String} {i : Nat}
      (hc : s.calls[i]? = some (.deletedRead externalId clerkUserId)) :
      s'.calls[i]? = some (.deletedRead externalId clerkUserId) := by
    refine step_stays h hc ?_
    rintro d rfl
    rw [looksUp_iff.mpr ⟨externalId, clerkUserId, hc⟩] at hlooks
    cases hlooks
  refine ⟨?_, ?_⟩
  · intro i externalId event hc
    obtain hold | ⟨⟨⟩⟩ | ⟨e, told, rfl, ⟨⟩⟩ | ⟨d, c₀, -, -, hc₀, hnext⟩ := step_delivered htells h hc
    · exact hs.sent i externalId event hold
    · exact ha
    · cases next_moved hnext with
      | resolving c c' h => cases nextResolving_entry h
  · intro externalId hclaimed
    have hold (hclaimed : s.tables.Claimed externalId) : s₀.tables.Claimed externalId ∨
        ∃ event, .event externalId event ∈ as ∧ ∀ clerkUserId, event = .deleted clerkUserId →
          ∃ i : Nat, s'.calls[i]? = some (.deletedRead externalId clerkUserId) := by
      obtain hstart | ⟨event, hevent, hwait⟩ := hs.waits externalId hclaimed
      · exact .inl hstart
      · refine .inr ⟨event, hevent, ?_⟩
        intro clerkUserId hdeleted
        obtain ⟨i, hc⟩ := hwait clerkUserId hdeleted
        exact ⟨i, hwaits hc⟩
    obtain ht | ⟨i, d, c, rfl, hc, hfails, hw⟩ := step_tables h
    · rw [ht] at hclaimed
      exact hold hclaimed
    · obtain hclaimed | ⟨event, rfl, hnew⟩ := (written_claimed hw).mp hclaimed
      · exact hold hclaimed
      · refine .inr ⟨event, hs.sent i externalId event hc, ?_⟩
        rintro clerkUserId rfl
        obtain ⟨c', hnext, hc'⟩ := step_ran hc hfails h
        simp only [next] at hnext
        split at hnext
        · obtain ⟨ht, -⟩ := Prod.mk.inj (Option.some.inj hnext)
          rw [← ht] at hnew
          exact absurd (congrArg List.length hnew) (by simp)
        · obtain ⟨-, rfl⟩ := Prod.mk.inj (Option.some.inj hnext)
          exact ⟨i, hc'⟩

theorem looked_up (hidle : s₀.calls = []) (hr : run (step w) s₀ as = some s)
    (htells : ∀ a ∈ as, a.tells k = true) (hsucceeds : ∀ a ∈ as, a.succeeds = true)
    (hown : ∀ externalId event event', Action.event externalId event ∈ as → .event externalId event' ∈ as →
      event = event')
    (hnew : ∀ externalId event, Action.event externalId event ∈ as → ¬s₀.tables.Claimed externalId)
    (hdeleted : ∃ externalId, Action.event externalId (.deleted k) ∈ as)
    (hover : ∀ c ∈ s.calls, c.isReturned = true) :
    ¬Meets (step w) (fun s a => s.looksUp a = false) s₀ as := by
  intro hlooks
  obtain ⟨externalId, hevent⟩ := hdeleted
  have hstart : Unlooked s₀ as s₀ := by
    refine ⟨?_, fun externalId h => .inl h⟩
    intro i externalId event hc
    rw [hidle] at hc
    cases hc
  have hmeets : Meets (step w) (fun s a => s.looksUp a = false ∧ a ∈ as ∧ a.tells k = true ∧
      a.succeeds = true) s₀ as :=
    meets_and hlooks (meets_of_forall (C := fun a => a ∈ as ∧ a.tells k = true ∧ a.succeeds = true)
      (fun a ha => ⟨ha, htells a ha, hsucceeds a ha⟩))
  have hs : Unlooked s₀ as s := run_preserves_of_meets
    (fun _ _ _ hs ha h => hs.after_step h ha.2.1 ha.2.2.1 ha.2.2.2 ha.1) hr hmeets hstart
  have hopen {i : Nat} {c : Call} (hc : s.calls[i]? = some c) : c.isReturned = true :=
    hover c (List.mem_of_getElem? hc)
  obtain ⟨i, hc⟩ | hclaimed := run_arrived hr hsucceeds hevent
  · cases hopen hc
  · obtain hbefore | ⟨event, hevent', hwait⟩ := hs.waits externalId hclaimed
    · exact hnew externalId _ hevent hbefore
    · obtain ⟨i, hc⟩ := hwait k (hown externalId _ _ hevent' hevent)
      cases hopen hc

/-- Every statement that inserts the account's row is followed by the look-up of a
deletion. -/
def LookedUpAfter (w : Wiring) (s₀ : State) (as : List Action) : Prop :=
  ∀ pre a post t t', as = pre ++ a :: post → run (step w) s₀ pre = some t → step w t a = some t' →
    t.creates a = true → ¬Meets (step w) (fun s a => s.looksUp a = false) t' post

namespace Told

theorem start (hidle : s₀.calls = []) (hclerks : (s₀.tables.users.map (·.clerkUserId)).Nodup) :
    Told k s₀ := by
  refine ⟨hclerks, ?_, ?_⟩
  · intro i c hc
    rw [hidle] at hc
    cases hc
  · intro i c user hc
    rw [hidle] at hc
    cases hc

theorem after_run (hs : Told k s₀) (hr : run (step w) s₀ as = some s) (htells : ∀ a ∈ as, a.tells k = true) :
    Told k s :=
  run_preserves_of_meets (fun _ _ _ hs ha h => hs.after_step ha h) hr (meets_of_forall htells) hs

theorem known_after_run (hs : Told k s₀) (hr : run (step w) s₀ as = some s)
    (htells : ∀ a ∈ as, a.tells k = true) (hknown : s₀.tables.users.standing k ≠ .unknown) :
    s.tables.users.standing k ≠ .unknown := by
  refine (run_preserves_of_meets (P := fun s => Told k s ∧ s.tables.users.standing k ≠ .unknown) ?_ hr
    (meets_of_forall htells) ⟨hs, hknown⟩).2
  rintro s a s' ⟨hs, hknown⟩ ha h
  refine ⟨hs.after_step ha h, ?_⟩
  obtain hsame | ⟨-, hunknown, -⟩ | ⟨-, -, hgone, -⟩ := (hs.step_mirrors h).standing
  · rw [hsame]
    exact hknown
  · exact absurd hunknown hknown
  · rw [hgone]
    nofun

theorem gone_of_look_up (hs : Told k s₀) (hr : run (step w) s₀ as = some s)
    (htells : ∀ a ∈ as, a.tells k = true) (hsucceeds : ∀ a ∈ as, a.succeeds = true)
    (hfree : Meets (step w) (fun s a => graveFree s a = true) s₀ as)
    (hknown : s₀.tables.users.standing k ≠ .unknown)
    (hlooks : ¬Meets (step w) (fun s a => s.looksUp a = false) s₀ as)
    (hover : ∀ c ∈ s.calls, c.isReturned = true) : s.tables.users.standing k = .gone := by
  rw [meets_iff] at hlooks
  push Not at hlooks
  obtain ⟨pre, a, post, t, rfl, hpre, hlooks⟩ := hlooks
  obtain ⟨t', ht, hpost⟩ := run_rest hr hpre
  have htells_pre : ∀ a ∈ pre, a.tells k = true := fun a ha => htells a (List.mem_append_left _ ha)
  have ha : a ∈ pre ++ a :: post := List.mem_append_right _ List.mem_cons_self
  have hmem : ∀ b ∈ post, b ∈ pre ++ a :: post :=
    fun b hb => List.mem_append_right _ (List.mem_cons_of_mem _ hb)
  have htold := hs.after_run hpre htells_pre
  have hending := htold.ending_of_looksUp ht (hsucceeds a ha) (by simpa using hlooks)
    (hs.known_after_run hpre htells_pre hknown)
  have hfree_post := ((meets_cons ht).mp (meets_right hfree hpre)).2
  have hmeets := meets_and hfree_post (meets_of_forall (C := fun a => a.tells k = true ∧ a.succeeds = true)
    (fun b hb => ⟨htells b (hmem b hb), hsucceeds b (hmem b hb)⟩))
  have hend : Told k s ∧ Ending k s := by
    refine run_preserves_of_meets (P := fun s => Told k s ∧ Ending k s) ?_ hpost hmeets
      ⟨htold.after_step (htells a ha) ht, hending⟩
    rintro s a s' ⟨hs, hending⟩ ⟨hfree, hta, hsa⟩ h
    exact ⟨hs.after_step hta h, hs.ending h hsa hfree hending⟩
  obtain hgone | ⟨i, c, hc, hclosing⟩ := hend.2
  · exact hgone
  · rw [Call.closing_of_returned (hover c (List.mem_of_getElem? hc))] at hclosing
    cases hclosing

theorem created (hs : Told k s₀) (hr : run (step w) s₀ as = some s) (htells : ∀ a ∈ as, a.tells k = true)
    (hunknown : s₀.tables.users.standing k = .unknown) (hlive : s.tables.users.standing k = .live) :
    ∃ pre a post t t', as = pre ++ a :: post ∧ run (step w) s₀ pre = some t ∧ step w t a = some t' ∧
      t.creates a = true ∧ t'.tables.users.standing k = .live := by
  induction as generalizing s₀ with
  | nil =>
    cases hr
    rw [hunknown] at hlive
    cases hlive
  | cons a as ih =>
    obtain ⟨u, hu, hr⟩ := run_cons_eq_some.mp hr
    obtain hsame | ⟨hcreates, -, hlive'⟩ | ⟨hknown, -, -, -⟩ := (hs.step_mirrors hu).standing
    · obtain ⟨pre, b, post, t, t', rfl, hpre, hrest⟩ := ih
        (hs.after_step (htells a List.mem_cons_self) hu) hr
        (fun b hb => htells b (List.mem_cons_of_mem _ hb)) (hsame.trans hunknown)
      exact ⟨a :: pre, b, post, t, t', rfl, run_cons_eq_some.mpr ⟨u, hu, hpre⟩, hrest⟩
    · exact ⟨[], a, as, s₀, u, rfl, rfl, hu, hcreates, hlive'⟩
    · exact absurd hunknown hknown

theorem graves_after_run (hs : Told k s₀) (hr : run (step w) s₀ as = some s)
    (htells : ∀ a ∈ as, a.tells k = true) (hgraves : Graves k s₀) : Graves k s := by
  refine (run_preserves_of_meets (P := fun s => Told k s ∧ Graves k s) ?_ hr (meets_of_forall htells)
    ⟨hs, hgraves⟩).2
  rintro s a s' ⟨hs, hgraves⟩ ha h
  exact ⟨hs.after_step ha h, hs.graves ha h hgraves⟩

/-- Where a row is inserted nobody is about to close it. -/
theorem creating (hs : Told k s) (ha : a.tells k = true) (h : step w s a = some s')
    (hcreates : s.creates a = true) :
    s'.tables.users.standing k = .live ∧
      ∀ (i : Nat) (c : Call), s'.calls[i]? = some c → c.closing = false := by
  obtain ⟨i, d, r, rfl, hc⟩ : ∃ (i : Nat) (d : Draw) (r : Resolving),
      a = .exec i d ∧ s.calls[i]? = some (.creating r) := by
    simp only [State.creates] at hcreates
    split at hcreates
    · split at hcreates
      · rename_i i d _ r hc
        exact ⟨i, d, r, rfl, hc⟩
      · cases hcreates
    · cases hcreates
  obtain ⟨rfl, -⟩ := Resolving.tells_iff.mp (hs.tells i _ hc)
  obtain ⟨hfails, hfree⟩ := (creates_iff hc).mp hcreates
  have hnone : s.tables.users.findByClerkUserId r.clerkUserId = none :=
    List.find?_eq_none.mpr (fun u hu => by simpa using (hfree u hu).1)
  have hunknown := Users.standing_unknown_iff.mpr hnone
  refine ⟨?_, ?_⟩
  · obtain ⟨c', hnext, -⟩ := step_ran hc hfails h
    simp only [next, nextResolving] at hnext
    split at hnext
    · rename_i hany
      obtain ⟨u, hu, hsame⟩ := List.any_eq_true.mp hany
      simp [hfree u hu] at hsame
    · split at hnext
      · cases hnext
      · obtain ⟨ht, -⟩ := Prod.mk.inj (Option.some.inj hnext)
        rw [← ht]
        exact Users.standing_append hnone d.id r.email
  · intro j c hc'
    by_contra hclosing
    rw [Bool.not_eq_false] at hclosing
    obtain hold | rfl | ⟨externalId, event, -, rfl⟩ | ⟨d', c₀, -, -, hc₀, hnext⟩ := step_delivered ha h hc'
    · exact hs.standing_of_closing hold hclosing hunknown
    · cases hclosing
    · cases hclosing
    · obtain hclosing₀ | ⟨-, hlive⟩ := next_closing hnext (hs.tells j c₀ hc₀) hclosing
      · exact hs.standing_of_closing hc₀ hclosing₀ hunknown
      · rw [hunknown] at hlive
        cases hlive

theorem live_of_not_graveFree (hs : Told k s) (hgraves : Graves k s) (htaken : graveFree s a = false) :
    s.tables.users.standing k = .live ∧ s.tables.users.graveTaken k = true := by
  have htomb : ∃ (i : Nat) (user : MirroredUser) (cause : EraseCause),
      s.calls[i]? = some (.erasing .tombstone user cause) ∧
        s.tables.users.emailTaken user.id (tombstoneEmail user.id) = true := by
    simp only [graveFree] at htaken
    split at htaken
    · split at htaken
      · rename_i i _ _ user cause hc
        exact ⟨i, user, cause, hc, by simpa using htaken⟩
      · cases htaken
    · cases htaken
  obtain ⟨i, user, cause, hc, htaken⟩ := htomb
  obtain ⟨u, hu, hid⟩ := hs.known i _ user hc rfl
  have htaken : s.tables.users.graveTaken k = true := by
    rw [Users.graveTaken_of_find hu, hid]
    exact htaken
  obtain hlive | hfree := hgraves i _ hc rfl
  · exact ⟨hlive, htaken⟩
  · rw [htaken] at hfree
    cases hfree

theorem live_of_unasked (hs : Told k s₀) (hr : run (step w) s₀ as = some s)
    (htells : ∀ a ∈ as, a.tells k = true)
    (hlooks : Meets (step w) (fun s a => s.looksUp a = false) s₀ as)
    (hlive : s₀.tables.users.standing k = .live)
    (hnone : ∀ (i : Nat) (c : Call), s₀.calls[i]? = some c → c.closing = false) :
    s.tables.users.standing k = .live := by
  refine (run_preserves_of_meets (P := fun s => Told k s ∧ s.tables.users.standing k = .live ∧
    ∀ (i : Nat) (c : Call), s.calls[i]? = some c → c.closing = false) ?_ hr
    (meets_and hlooks (meets_of_forall htells)) ⟨hs, hlive, hnone⟩).2.1
  rintro s a s' ⟨hs, hlive, hnone⟩ ⟨hlooks, ha⟩ h
  exact ⟨hs.after_step ha h, hs.unasked ha h hlooks hlive hnone⟩

theorem live_of_graveTaken (hs : Told k s₀) (hr : run (step w) s₀ as = some s)
    (htells : ∀ a ∈ as, a.tells k = true) (hlive : s₀.tables.users.standing k = .live)
    (htaken : s₀.tables.users.graveTaken k = true) : s.tables.users.standing k = .live := by
  refine (run_preserves_of_meets (P := fun s => Told k s ∧ s.tables.users.standing k = .live ∧
    s.tables.users.graveTaken k = true) ?_ hr (meets_of_forall htells) ⟨hs, hlive, htaken⟩).2.1
  rintro s a s' ⟨hs, hlive, htaken⟩ ha h
  have hmirrors := hs.step_mirrors h
  have hknown : s.tables.users.standing k ≠ .unknown := by
    rw [hlive]
    nofun
  refine ⟨hs.after_step ha h, ?_, by rw [hmirrors.graveTaken hknown, htaken]⟩
  obtain hsame | ⟨-, hunknown, -⟩ | ⟨-, hfree, -, -⟩ := hmirrors.standing
  · rw [hsame, hlive]
  · exact absurd hunknown hknown
  · rw [htaken] at hfree
    cases hfree

end Told

/-- Deliveries about one account that all go through, whatever their order, leave
no live row of it just when a row that they create is looked up for a deletion
afterwards and nobody has the address of its tombstone. -/
theorem deletion_wins_iff (w : Wiring) {s₀ s : State} {as : List Action} {k : String} (hidle : s₀.calls = [])
    (hclerks : (s₀.tables.users.map (·.clerkUserId)).Nodup) (htells : ∀ a ∈ as, a.tells k = true)
    (hsucceeds : ∀ a ∈ as, a.succeeds = true)
    (hown : ∀ externalId event event', Action.event externalId event ∈ as → .event externalId event' ∈ as →
      event = event')
    (hnew : ∀ externalId event, Action.event externalId event ∈ as → ¬s₀.tables.Claimed externalId)
    (hdeleted : ∃ externalId, Action.event externalId (.deleted k) ∈ as)
    (hr : run (step w) s₀ as = some s) (hover : ∀ c ∈ s.calls, c.isReturned = true) :
    (∀ u ∈ s.tables.users, u.clerkUserId = k → u.deletedAt ≠ none) ↔
      LookedUpAfter w s₀ as ∧ Meets (step w) (fun s a => graveFree s a = true) s₀ as := by
  have hstart : Told k s₀ := .start hidle hclerks
  rw [Users.not_live_iff (hstart.after_run hr htells).clerks]
  constructor
  · intro hend
    have hmem {pre post : List Action} {a b : Action} (hb : b ∈ post) : b ∈ pre ++ a :: post :=
      List.mem_append_right _ (List.mem_cons_of_mem _ hb)
    have hnoGraves : Graves k s₀ := by
      intro i c hc
      rw [hidle] at hc
      cases hc
    refine ⟨?_, meets_iff.mpr ?_⟩
    · rintro pre a post t t' rfl hpre ht hcreates hlooks
      obtain ⟨t₀, ht₀, hpost⟩ := run_rest hr hpre
      rw [ht] at ht₀
      cases ht₀
      have htold := hstart.after_run hpre (fun b hb => htells b (List.mem_append_left _ hb))
      have ha := htells a (List.mem_append_right _ List.mem_cons_self)
      obtain ⟨hlive, hnone⟩ := htold.creating ha ht hcreates
      exact hend ((htold.after_step ha ht).live_of_unasked hpost (fun b hb => htells b (hmem hb)) hlooks hlive
        hnone)
    · rintro pre a post t rfl hpre
      have htells_pre : ∀ b ∈ pre, b.tells k = true := fun b hb => htells b (List.mem_append_left _ hb)
      have htold := hstart.after_run hpre htells_pre
      have hgraves := hstart.graves_after_run hpre htells_pre hnoGraves
      obtain ⟨t', ht, hpost⟩ := run_rest hr hpre
      by_contra htaken
      obtain ⟨hlive, htaken⟩ := htold.live_of_not_graveFree hgraves (by simpa using htaken)
      refine hend (htold.live_of_graveTaken (run_cons_eq_some.mpr ⟨t', ht, hpost⟩) ?_ hlive htaken)
      intro b hb
      exact htells b (List.mem_append_right _ hb)
  · rintro ⟨hafter, hfree⟩ hlive
    have hgone : s.tables.users.standing k = .gone := by
      by_cases hunknown : s₀.tables.users.standing k = .unknown
      · obtain ⟨pre, a, post, t, t', rfl, hpre, ht, hcreates, hlive'⟩ :=
          hstart.created hr htells hunknown hlive
        obtain ⟨t₀, ht₀, hpost⟩ := run_rest hr hpre
        rw [ht] at ht₀
        cases ht₀
        have hmem : ∀ b ∈ post, b ∈ pre ++ a :: post :=
          fun b hb => List.mem_append_right _ (List.mem_cons_of_mem _ hb)
        have htold := hstart.after_run hpre (fun b hb => htells b (List.mem_append_left _ hb))
        have htold' := htold.after_step (htells a (List.mem_append_right _ List.mem_cons_self)) ht
        refine htold'.gone_of_look_up hpost (fun b hb => htells b (hmem b hb))
          (fun b hb => hsucceeds b (hmem b hb)) ((meets_cons ht).mp (meets_right hfree hpre)).2 ?_
          (hafter pre a post t t' rfl hpre ht hcreates) hover
        rw [hlive']
        nofun
      · exact hstart.gone_of_look_up hr htells hsucceeds hfree hunknown
          (looked_up hidle hr htells hsucceeds hown hnew hdeleted hover) hover
    rw [hgone] at hlive
    cases hlive

end

/-- A person signs up and leaves, and word of the one comes after word of the
other. -/
def deletedFirst : List Action :=
  .event "msg-2" (.deleted "clerk-cat") :: List.replicate 3 (runs 0 0 "x") ++
    .event "msg-1" (.upserted "clerk-cat" "cat@example.com") :: List.replicate 4 (runs 1 0 "cat")

theorem deletedFirst_leaves_a_live_row :
    ∃ s, run (step sampleWiring) (sampleStart []) deletedFirst = some s ∧
      (∀ c ∈ s.calls, c = .returned (.applied true)) ∧
      ∃ u ∈ s.tables.users, u.clerkUserId = "clerk-cat" ∧ u.deletedAt = none := by
  have hrun : (run (step sampleWiring) (sampleStart []) deletedFirst).map (fun s =>
      (s.calls, s.tables.users.map (fun u => (u.clerkUserId, u.deletedAt)))) =
        some ([.returned (.applied true), .returned (.applied true)], [("clerk-cat", none)]) := by
    decide +kernel
  obtain ⟨s, hr, hend⟩ := Option.map_eq_some_iff.mp hrun
  obtain ⟨hcalls, husers⟩ := Prod.mk.inj hend
  obtain ⟨u, hu, huser⟩ := List.mem_map.mp (husers ▸ List.mem_singleton_self _)
  obtain ⟨hclerk, hlive⟩ := Prod.mk.inj huser
  refine ⟨s, hr, ?_, u, hu, hclerk, hlive⟩
  intro c hc
  rw [hcalls] at hc
  simpa using hc

def deletedLast : List Action :=
  .event "msg-1" (.upserted "clerk-cat" "cat@example.com") :: List.replicate 4 (runs 0 0 "cat") ++
    .event "msg-2" (.deleted "clerk-cat") :: List.replicate 9 (runs 1 0 "x") ++
      .event "msg-1" (.upserted "clerk-cat" "cat@example.com") :: [runs 2 0 "x"]

def deletedLastEvent (externalId : String) : Event :=
  if externalId = "msg-1" then .upserted "clerk-cat" "cat@example.com" else .deleted "clerk-cat"

theorem deletedLast_sent {externalId : String} {event : Event}
    (h : Action.event externalId event ∈ deletedLast) : event = deletedLastEvent externalId := by
  simp only [deletedLast, runs, List.replicate, List.cons_append, List.nil_append, List.mem_cons,
    Action.event.injEq, List.not_mem_nil, or_false, reduceCtorEq, false_or] at h
  obtain ⟨rfl, rfl⟩ | ⟨rfl, rfl⟩ | ⟨rfl, rfl⟩ := h
  · rfl
  · rfl
  · rfl

theorem deletedLast_leaves_no_live_row :
    ∃ s, run (step sampleWiring) (sampleStart []) deletedLast = some s ∧
      ((∀ u ∈ s.tables.users, u.clerkUserId = "clerk-cat" → u.deletedAt ≠ none) ↔
        LookedUpAfter sampleWiring (sampleStart []) deletedLast ∧
          Meets (step sampleWiring) (fun s a => graveFree s a = true) (sampleStart []) deletedLast) := by
  have hrun : (run (step sampleWiring) (sampleStart []) deletedLast).map (·.calls) =
      some [.returned (.applied true), .returned (.applied true), .returned (.applied false)] := by
    decide +kernel
  obtain ⟨s, hr, hcalls⟩ := Option.map_eq_some_iff.mp hrun
  refine ⟨s, hr, deletion_wins_iff sampleWiring rfl List.nodup_nil (by decide +kernel) (by decide +kernel) ?_ ?_
    ?_ hr ?_⟩
  · intro externalId event event' h h'
    have hsame : event = deletedLastEvent externalId ∧ event' = deletedLastEvent externalId :=
      ⟨deletedLast_sent h, deletedLast_sent h'⟩
    rw [hsame.1, hsame.2]
  · rintro externalId event - ⟨x, hx, -⟩
    cases hx
  · exact ⟨"msg-2", by simp [deletedLast]⟩
  · rw [hcalls]
    decide +kernel

end RentalMarket.Identity
