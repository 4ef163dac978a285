import RentalMarket.Identity.Statements

namespace RentalMarket.Identity

open RentalMarket.Core RentalMarket.Booking Runs

def EraseStage.afterProfile : EraseStage → Bool
  | profile => false
  | _ => true

def EraseStage.afterQuotes : EraseStage → Bool
  | activity => true
  | tombstone => true
  | _ => false

def Call.erases (reached : EraseStage → Bool) (userId : Id) : Call → Bool
  | erasing stage user _ => reached stage && decide (user.id = userId)
  | _ => false

/-- The account is deleted, or a deletion of it has come this far. -/
def State.closing (s : State) (reached : EraseStage → Bool) (userId : Id) : Bool :=
  s.tables.users.any (fun u => decide (u.id = userId) && u.deletedAt.isSome) ||
    s.calls.any (Call.erases reached userId)

/-- A profile is not saved for an account whose profile has been erased, nor a
quote for one whose quotes have. And no deletion goes unrecorded. -/
def writesSpare (s : State) : Action → Bool
  | .exec i d =>
    match s.calls[i]? with
    | some (.saveWrite userId _) => d.fails || !s.closing EraseStage.afterProfile userId
    | some (.quoteWrite row) =>
      d.fails || !(quoteAllowed row && s.tables.quotes.all (fun q => q.id ≠ row.id)) ||
        !s.closing EraseStage.afterQuotes row.renterId
    | some (.recording _ _) => !d.fails
    | _ => true
  | _ => true

namespace Tables

def Unprofiled (t : Tables) (userId : Id) : Prop :=
  (∀ p ∈ t.profiles, p.userId ≠ userId) ∧ ∀ a ∈ t.addresses, a.userId ≠ userId

def Unquoted (t : Tables) (userId : Id) : Prop := ∀ q ∈ t.quotes, q.renterId = userId → unbooked t q = false

end Tables

section

variable {w : Wiring} {t t' : Tables} {locked : Id → Bool} {d : Draw} {c : Call} {userId : Id}

theorem unprofiled_save {k : Id} {input : ProfileInput} (h : t.Unprofiled userId) (hk : k ≠ userId) :
    (saveProfile w t k input).Unprofiled userId := by
  constructor
  · intro p hp
    obtain hold | hnew := List.mem_append.mp hp
    · exact h.1 p (List.mem_of_mem_filter hold)
    · rw [List.mem_singleton.mp hnew]
      exact hk
  · intro a ha
    obtain hold | hnew := List.mem_append.mp ha
    · exact h.2 a (List.mem_of_mem_filter hold)
    · obtain ⟨b, -, rfl⟩ := Option.map_eq_some_iff.mp (Option.mem_toList.mp hnew)
      exact hk

theorem written_unprofiled (hw : Written w t locked d c t') (h : t.Unprofiled userId)
    (hother : ∀ k input, c = .saveWrite k input → k ≠ userId) : t'.Unprofiled userId := by
  cases hw with
  | saved k input => exact unprofiled_save h (hother k input rfl)
  | erasedProfile user cause =>
    exact ⟨fun p hp => h.1 p (List.mem_of_mem_filter hp), fun a ha => h.2 a (List.mem_of_mem_filter ha)⟩
  | _ => exact h

theorem written_unquoted (hw : Written w t locked d c t') (h : t.Unquoted userId)
    (hother : ∀ row, c = .quoteWrite row → row.renterId ≠ userId) : t'.Unquoted userId := by
  cases hw with
  | quoted row hnew =>
    intro q hq hrenter
    obtain hold | hnew := List.mem_append.mp hq
    · exact h q hold hrenter
    · rw [List.mem_singleton.mp hnew] at hrenter
      exact absurd hrenter (hother row rfl)
  | erasedQuotes user cause =>
    intro q hq hrenter
    exact h q (List.mem_of_mem_filter hq) hrenter
  | _ => exact h

/-- A row that is deleted after a statement was so before, or is what the
statement was there to delete. -/
theorem written_deletedAt (hw : Written w t locked d c t') {u : MirroredUser} (hu : u ∈ t'.users)
    (hdeleted : u.deletedAt ≠ none) :
    (∃ old ∈ t.users, old.id = u.id ∧ old.deletedAt ≠ none) ∨
      ∃ user cause, c = .erasing .tombstone user cause ∧ user.id = u.id := by
  have hupdate (k : Id) (change : MirroredUser → MirroredUser) (hu : u ∈ t.users.update k change)
      (hid : ∀ u, (change u).id = u.id) (hkeeps : ∀ u, (change u).deletedAt = u.deletedAt) :
      ∃ old ∈ t.users, old.id = u.id ∧ old.deletedAt ≠ none := by
    obtain ⟨hold, -⟩ | ⟨old, hold, -, rfl⟩ := Users.mem_update hu
    · exact ⟨u, hold, rfl, hdeleted⟩
    · exact ⟨old, hold, (hid old).symm, by rw [← hkeeps]; exact hdeleted⟩
  cases hw with
  | created r hid hclerk =>
    obtain hold | hnew := List.mem_append.mp hu
    · exact .inl ⟨u, hold, rfl, hdeleted⟩
    · rw [List.mem_singleton.mp hnew] at hdeleted
      exact absurd rfl hdeleted
  | corrected r user hfree => exact .inl (hupdate _ _ hu (fun _ => rfl) (fun _ => rfl))
  | applied actor decision claimed counted => exact .inl (hupdate _ _ hu (fun _ => rfl) (fun _ => rfl))
  | suspended actor target reason counted => exact .inl (hupdate _ _ hu (fun _ => rfl) (fun _ => rfl))
  | reinstated actor target reason => exact .inl (hupdate _ _ hu (fun _ => rfl) (fun _ => rfl))
  | tombstoned user cause hfree =>
    obtain ⟨hold, -⟩ | ⟨old, hold, hid, rfl⟩ := Users.mem_update hu
    · exact .inl ⟨u, hold, rfl, hdeleted⟩
    · exact .inr ⟨user, cause, rfl, hid.symm⟩
  | _ => exact .inl ⟨u, hu, rfl, hdeleted⟩

end

theorem State.closing_iff {s : State} {reached : EraseStage → Bool} {userId : Id} :
    s.closing reached userId = true ↔ (∃ u ∈ s.tables.users, u.id = userId ∧ u.deletedAt ≠ none) ∨
      ∃ (i : Nat) (stage : EraseStage) (user : MirroredUser) (cause : EraseCause),
        s.calls[i]? = some (.erasing stage user cause) ∧ reached stage = true ∧ user.id = userId := by
  rw [State.closing, Bool.or_eq_true]
  apply or_congr
  · simp [Option.isSome_iff_ne_none]
  · rw [List.any_eq_true]
    constructor
    · rintro ⟨c, hc, herases⟩
      obtain ⟨i, hi⟩ := List.mem_iff_getElem?.mp hc
      cases c with
      | erasing stage user cause =>
        simp only [Call.erases, Bool.and_eq_true, decide_eq_true_eq] at herases
        exact ⟨i, stage, user, cause, hi, herases⟩
      | _ => cases herases
    · rintro ⟨i, stage, user, cause, hi, hreached, hid⟩
      exact ⟨_, List.mem_of_getElem? hi, by simp [Call.erases, hreached, hid]⟩

section

variable {w : Wiring} {s s' : State} {a : Action}

/-- An account comes to be closed at one statement of its deletion. -/
theorem step_closing {reached : EraseStage → Bool} (htombstone : reached .tombstone = true)
    (hprofile : reached .profile = false) (h : step w s a = some s') {userId : Id}
    (hclosing : s'.closing reached userId = true) :
    s.closing reached userId = true ∨
      ∃ (d : Draw) (stage stage' : EraseStage) (user : MirroredUser) (cause : EraseCause),
        nextErasing s.tables d stage user cause = (s'.tables, .erasing stage' user cause) ∧
          user.id = userId ∧ reached stage = false ∧ reached stage' = true := by
  obtain ⟨u, hu, hid, hdeleted⟩ | ⟨i, stage', user, cause, hc, hreached, hid⟩ := State.closing_iff.mp hclosing
  · left
    obtain ht | ⟨i, d, c, -, hc, -, hw⟩ := step_tables h
    · rw [ht] at hu
      exact State.closing_iff.mpr (.inl ⟨u, hu, hid, hdeleted⟩)
    · obtain ⟨old, hold, hold_id, hdeleted⟩ | ⟨user, cause, rfl, huser⟩ := written_deletedAt hw hu hdeleted
      · exact State.closing_iff.mpr (.inl ⟨old, hold, hold_id.trans hid, hdeleted⟩)
      · exact State.closing_iff.mpr (.inr ⟨i, .tombstone, user, cause, hc, htombstone, huser.trans hid⟩)
  · obtain ⟨hold, -⟩ | ⟨-, hidle⟩ | ⟨d, c, -, hc₀, hnext⟩ := step_call h hc
    · exact .inl (State.closing_iff.mpr (.inr ⟨i, stage', user, cause, hold, hreached, hid⟩))
    · cases hidle
    · have herasing (stage : EraseStage) (hc₀ : s.calls[i]? = some (.erasing stage user cause))
          (hnext : nextErasing s.tables d stage user cause = (s'.tables, .erasing stage' user cause)) :
          s.closing reached userId = true ∨
            ∃ (d : Draw) (stage stage' : EraseStage) (user : MirroredUser) (cause : EraseCause),
              nextErasing s.tables d stage user cause = (s'.tables, .erasing stage' user cause) ∧
                user.id = userId ∧ reached stage = false ∧ reached stage' = true := by
        cases hstage : reached stage with
        | true => exact .inl (State.closing_iff.mpr (.inr ⟨i, stage, user, cause, hc₀, hstage, hid⟩))
        | false => exact .inr ⟨d, stage, stage', user, cause, hnext, hid, hstage, hreached⟩
      cases next_moved hnext with
      | resolving c c' h => cases nextResolving_entry h
      | erasingEvent externalId clerkUserId user hfind =>
        rw [hprofile] at hreached
        cases hreached
      | erasingRequest userId user hfind =>
        rw [hprofile] at hreached
        cases hreached
      | toListings user cause => exact herasing _ hc₀ (Option.some.inj hnext)
      | toQuotes user cause => exact herasing _ hc₀ (Option.some.inj hnext)
      | toActivity user cause => exact herasing _ hc₀ (Option.some.inj hnext)
      | toTombstone user cause => exact herasing _ hc₀ (Option.some.inj hnext)

/-- What holds between any two statements: nothing that a deletion has erased
has come back. -/
structure Sealed (s : State) : Prop where
  unprofiled : ∀ userId, s.closing EraseStage.afterProfile userId = true → s.tables.Unprofiled userId
  unquoted : ∀ userId, s.closing EraseStage.afterQuotes userId = true → s.tables.Unquoted userId

namespace Sealed

theorem step_unprofiled (hs : Sealed s) (h : step w s a = some s') (hspares : writesSpare s a = true)
    {userId : Id} (hclosing : s'.closing EraseStage.afterProfile userId = true) :
    s'.tables.Unprofiled userId := by
  obtain hbefore | ⟨d, stage, stage', user, cause, hnext, rfl, hstage, -⟩ := step_closing rfl rfl h hclosing
  · obtain ht | ⟨i, d, c, rfl, hc, hfails, hw⟩ := step_tables h
    · rw [ht]
      exact hs.unprofiled userId hbefore
    · refine written_unprofiled hw (hs.unprofiled userId hbefore) ?_
      rintro k input rfl rfl
      simp [writesSpare, hc, hfails, hbefore] at hspares
  · cases stage with
    | profile =>
      obtain ⟨ht, -⟩ := Prod.mk.inj hnext
      rw [← ht]
      exact ⟨fun p hp => by simpa using List.of_mem_filter hp, fun a ha => by simpa using List.of_mem_filter ha⟩
    | _ => cases hstage

theorem step_unquoted (hs : Sealed s) (h : step w s a = some s') (hspares : writesSpare s a = true)
    {userId : Id} (hclosing : s'.closing EraseStage.afterQuotes userId = true) :
    s'.tables.Unquoted userId := by
  obtain hbefore | ⟨d, stage, stage', user, cause, hnext, rfl, hstage, hstage'⟩ :=
    step_closing rfl rfl h hclosing
  · obtain ht | ⟨i, d, c, rfl, hc, hfails, hw⟩ := step_tables h
    · rw [ht]
      exact hs.unquoted userId hbefore
    · refine written_unquoted hw (hs.unquoted userId hbefore) ?_
      rintro row rfl rfl
      simp only [writesSpare, hc, hfails, hbefore, written_quoteWrite hw] at hspares
      cases hspares
  · obtain ⟨ht, hstage''⟩ := Prod.mk.inj hnext
    cases stage with
    | quotes =>
      rw [← ht]
      intro q hq hrenter
      have hkept := List.of_mem_filter hq
      rw [decide_eq_true hrenter, Bool.true_and, Bool.not_eq_true'] at hkept
      exact hkept
    | profile =>
      cases hstage''
      cases hstage'
    | listings =>
      cases hstage''
      cases hstage'
    | _ => cases hstage

theorem after_step (hs : Sealed s) (h : step w s a = some s') (hspares : writesSpare s a = true) : Sealed s' where
  unprofiled := fun _ hclosing => hs.step_unprofiled h hspares hclosing
  unquoted := fun _ hclosing => hs.step_unquoted h hspares hclosing

end Sealed

theorem step_erasing {i : Nat} {d : Draw} {stage : EraseStage} {user : MirroredUser} {cause : EraseCause}
    (hc : s.calls[i]? = some (.erasing stage user cause)) (h : step w s (.exec i d) = some s') :
    s'.tables.users = s.tables.users ∨
      stage = .tombstone ∧ d.fails = false ∧
        s.tables.users.emailTaken user.id (tombstoneEmail user.id) = false := by
  cases step_cases h with
  | failed i d c hc' hopen hfails => exact .inl rfl
  | advanced i d c t c' hc' hopen hfails hnext =>
    rw [hc] at hc'
    cases hc'
    obtain rfl | hw := next_tables hnext
    · exact .inl rfl
    · cases hw with
      | erasedProfile user cause => exact .inl rfl
      | erasedQuotes user cause => exact .inl rfl
      | tombstoned user cause hfree => exact .inr ⟨rfl, hfails, hfree⟩

theorem step_processing {i : Nat} {d : Draw} {externalId : String}
    (hc : s.calls[i]? = some (.processing externalId)) (h : step w s (.exec i d) = some s') :
    ∃ answer, s'.calls[i]? = some (.returned answer) := by
  cases step_cases h with
  | failed i d c hc' hopen hfails => exact ⟨.threw, by rw [List.getElem?_set_self', hc]; rfl⟩
  | advanced i d c t c' hc' hopen hfails hnext =>
    rw [hc] at hc'
    cases hc'
    cases hnext
    exact ⟨_, by rw [List.getElem?_set_self', hc]; rfl⟩

/-- Where a call is once its erasure has closed the account: before the record of it, at its end,
or past a delivery's. -/
def Call.Closed (user : MirroredUser) (cause : EraseCause) (c : Call) : Prop :=
  c = .recording user cause ∨ c = cause.done ∨ ∃ externalId answer, cause = .event externalId ∧ c = .returned answer

theorem step_closed {i : Nat} {user : MirroredUser} {cause : EraseCause} {c : Call}
    (hspares : writesSpare s a = true) (h : step w s a = some s') (hc : s.calls[i]? = some c)
    (hclosed : c.Closed user cause) : ∃ c', s'.calls[i]? = some c' ∧ c'.Closed user cause := by
  by_cases ha : ∃ d, a = .exec i d
  · obtain ⟨d, rfl⟩ := ha
    obtain rfl | rfl | ⟨externalId, answer, -, rfl⟩ := hclosed
    · have hsucceeds : d.fails = false := by simpa [writesSpare, hc] using hspares
      obtain ⟨c', hnext, hc'⟩ := step_ran hc hsucceeds h
      obtain ⟨-, rfl⟩ := Prod.mk.inj (Option.some.inj hnext)
      exact ⟨_, hc', .inr (.inl rfl)⟩
    · cases cause with
      | request => exact absurd h (by simp [step, exec, hc, EraseCause.done, Call.isReturned])
      | event externalId =>
        obtain ⟨answer, hc'⟩ := step_processing hc h
        exact ⟨_, hc', .inr (.inr ⟨externalId, answer, rfl, rfl⟩)⟩
    · exact absurd h (by simp [step, exec, hc, Call.isReturned])
  · exact ⟨c, step_stays h hc (fun d hd => ha ⟨d, hd⟩), hclosed⟩

theorem closed_of_run {i : Nat} {d : Draw} {user : MirroredUser} {cause : EraseCause} {s₀ t : State}
    {pre post : List Action} (hr : run (step w) s₀ (pre ++ .exec i d :: post) = some s)
    (hspares : Meets (step w) (fun s a => writesSpare s a = true) s₀ (pre ++ .exec i d :: post))
    (hpre : run (step w) s₀ pre = some t) (hc : t.calls[i]? = some (.erasing .tombstone user cause))
    (hsucceeds : d.fails = false) (hfree : t.tables.users.emailTaken user.id (tombstoneEmail user.id) = false) :
    ∃ c, s.calls[i]? = some c ∧ c.Closed user cause := by
  obtain ⟨t', h, hpost⟩ := run_rest hr hpre
  obtain ⟨c', hnext, hc'⟩ := step_ran hc hsucceeds h
  simp only [next, nextErasing, hfree, Bool.false_eq_true, if_false, Option.some.injEq] at hnext
  obtain ⟨-, rfl⟩ := Prod.mk.inj hnext
  refine run_preserves_of_meets (P := fun s => ∃ c, s.calls[i]? = some c ∧ c.Closed user cause) ?_ hpost
    ((meets_cons h).mp (meets_right hspares hpre)).2 ⟨_, hc', .inl rfl⟩
  rintro s a t ⟨c, hc, hclosed⟩ hspares h
  exact step_closed hspares h hc hclosed

theorem step_deletionRead {i : Nat} {d : Draw} {userId : Id} {user : MirroredUser}
    (hc : s.calls[i]? = some (.deletionRead userId)) (hfails : d.fails = false)
    (hfind : s.tables.users.findById userId = some user) (hlive : user.deletedAt = none)
    (h : step w s (.exec i d) = some s') : s'.calls[i]? = some (.erasing .profile user .request) := by
  cases step_cases h with
  | failed i d c hc' hopen hfails' =>
    rw [hfails] at hfails'
    cases hfails'
  | advanced i d c t c' hc' hopen hfails' hnext =>
    rw [hc] at hc'
    cases hc'
    simp only [next, hfind, hlive, Option.isSome_none, Bool.false_eq_true, if_false] at hnext
    cases hnext
    rw [List.getElem?_set_self', hc]
    rfl

end

/-- Erased data does not come back in a run that writes nothing for an account
after its deletion has erased what is written. And a deletion that fails leaves
every account as it was, so that it can be asked for again, if none fails at the
very last, where the account is closed and the trail is to say so. -/
theorem erased_data_stays_away (w : Wiring) {s₀ s : State} {as : List Action} (hidle : s₀.calls = [])
    (hclean : ∀ u ∈ s₀.tables.users, u.deletedAt ≠ none →
      s₀.tables.Unprofiled u.id ∧ s₀.tables.Unquoted u.id)
    (hr : run (step w) s₀ as = some s) (hspares : Meets (step w) (fun s a => writesSpare s a = true) s₀ as) :
    (∀ u ∈ s.tables.users, u.deletedAt ≠ none → (∀ p ∈ s.tables.profiles, p.userId ≠ u.id) ∧
      (∀ a ∈ s.tables.addresses, a.userId ≠ u.id) ∧
      ∀ q ∈ s.tables.quotes, q.renterId = u.id → unbooked s.tables q = false) ∧
    (∀ i d s' stage user cause, s.calls[i]? = some (.erasing stage user cause) →
      step w s (.exec i d) = some s' → s'.tables.users = s.tables.users ∨
        stage = .tombstone ∧ d.fails = false ∧
          s.tables.users.emailTaken user.id (tombstoneEmail user.id) = false) ∧
    (∀ pre i d post t user cause, as = pre ++ .exec i d :: post → run (step w) s₀ pre = some t →
      t.calls[i]? = some (.erasing .tombstone user cause) → d.fails = false →
      t.tables.users.emailTaken user.id (tombstoneEmail user.id) = false →
      ∃ c, s.calls[i]? = some c ∧ c.Closed user cause) ∧
    (∀ i d s' userId user, s.calls[i]? = some (.deletionRead userId) → d.fails = false →
      s.tables.users.findById userId = some user → user.deletedAt = none →
      step w s (.exec i d) = some s' → s'.calls[i]? = some (.erasing .profile user .request)) := by
  have hstart : Sealed s₀ := by
    have hdeleted (reached : EraseStage → Bool) (userId : Id) (h : s₀.closing reached userId = true) :
        s₀.tables.Unprofiled userId ∧ s₀.tables.Unquoted userId := by
      obtain ⟨u, hu, rfl, hdeleted⟩ | ⟨i, stage, user, cause, hc, -⟩ := State.closing_iff.mp h
      · exact hclean u hu hdeleted
      · rw [hidle] at hc
        cases hc
    exact ⟨fun userId h => (hdeleted _ userId h).1, fun userId h => (hdeleted _ userId h).2⟩
  have hs : Sealed s := run_preserves_of_meets (fun _ _ _ hs hc h => hs.after_step h hc) hr hspares hstart
  refine ⟨?_, ?_, ?_, ?_⟩
  · intro u hu hdeleted
    have hclosing (reached : EraseStage → Bool) : s.closing reached u.id = true :=
      State.closing_iff.mpr (.inl ⟨u, hu, rfl, hdeleted⟩)
    obtain ⟨hprofiles, haddresses⟩ := hs.unprofiled u.id (hclosing _)
    exact ⟨hprofiles, haddresses, hs.unquoted u.id (hclosing _)⟩
  · intro i d s' stage user cause hc h
    exact step_erasing hc h
  · rintro pre i d post t user cause rfl hpre hc hsucceeds hfree
    exact closed_of_run hr hspares hpre hc hsucceeds hfree
  · intro i d s' userId user hc hfails hfind hlive h
    exact step_deletionRead hc hfails hfind hlive h

def unsaved : State := sampleStart [sampleAccount "cat" .user]

theorem unsaved_clean : ∀ u ∈ unsaved.tables.users, u.deletedAt ≠ none →
    unsaved.tables.Unprofiled u.id ∧ unsaved.tables.Unquoted u.id := by
  intro u hu hdeleted
  rw [List.mem_singleton.mp hu] at hdeleted
  exact absurd rfl hdeleted

def saves : Action := asks "cat" (.saveMine ⟨"Cat", none, none, none⟩)

def savedThenDeleted : List Action :=
  saves :: List.replicate 3 (runs 0 0 "x") ++ asks "cat" .requestDeletion :: List.replicate 8 (runs 1 0 "x")

theorem a_profile_saved_before_is_erased :
    ∃ s, run (step sampleWiring) unsaved savedThenDeleted = some s ∧
      ∀ u ∈ s.tables.users, u.deletedAt ≠ none → ∀ p ∈ s.tables.profiles, p.userId ≠ u.id := by
  have hrun : (run (step sampleWiring) unsaved savedThenDeleted).isSome = true := by decide +kernel
  obtain ⟨s, hr⟩ := Option.isSome_iff_exists.mp hrun
  have hclean := (erased_data_stays_away sampleWiring rfl unsaved_clean hr (by decide +kernel)).1
  exact ⟨s, hr, fun u hu hdeleted => (hclean u hu hdeleted).1⟩

def savedAfterDeleted : List Action :=
  saves :: List.replicate 2 (runs 0 0 "x") ++ asks "cat" .requestDeletion :: List.replicate 8 (runs 1 0 "x") ++
    [runs 0 0 "x"]

theorem a_profile_saved_after_is_kept :
    unsaved.calls = [] ∧
      (∀ u ∈ unsaved.tables.users, u.deletedAt ≠ none →
        unsaved.tables.Unprofiled u.id ∧ unsaved.tables.Unquoted u.id) ∧
      ∃ s, run (step sampleWiring) unsaved savedAfterDeleted = some s ∧
        s.calls = [.returned .saved, .returned .deleted] ∧
        ∃ u ∈ s.tables.users, u.deletedAt ≠ none ∧ ∃ p ∈ s.tables.profiles, p.userId = u.id := by
  have hrun : (run (step sampleWiring) unsaved savedAfterDeleted).map (fun s =>
      (s.calls, s.tables.users.map (fun u => (u.id, u.deletedAt.isSome)),
        s.tables.profiles.map (·.userId))) =
        some ([.returned .saved, .returned .deleted], [("cat", true)], ["cat"]) := by
    decide +kernel
  obtain ⟨s, hr, hend⟩ := Option.map_eq_some_iff.mp hrun
  obtain ⟨hcalls, hend⟩ := Prod.mk.inj hend
  obtain ⟨husers, hprofiles⟩ := Prod.mk.inj hend
  obtain ⟨u, hu, huser⟩ := List.mem_map.mp (husers ▸ List.mem_singleton_self _)
  obtain ⟨p, hp, hprofile⟩ := List.mem_map.mp (hprofiles ▸ List.mem_singleton_self _)
  obtain ⟨hid, hdeleted⟩ := Prod.mk.inj huser
  refine ⟨rfl, unsaved_clean, s, hr, hcalls, u, hu, ?_, p, hp, hprofile.trans hid.symm⟩
  rw [← Option.isSome_iff_ne_none]
  exact hdeleted

/-- The trail cannot be written, so the deletion has failed, and there is nobody left to ask again. -/
example : (run (step sampleWiring) unsaved (asks "cat" .requestDeletion :: List.replicate 7 (runs 0 0 "x") ++
    [.exec 0 ⟨0, "x", ⟨drillCatalogue, []⟩, true⟩, asks "cat" .requestDeletion, runs 1 0 "x"])).map (fun s =>
      (s.calls, s.tables.users.map (·.deletedAt))) =
    some ([.returned .threw, .returned .unauthorised], [some 0]) := by
  decide +kernel

end RentalMarket.Identity
