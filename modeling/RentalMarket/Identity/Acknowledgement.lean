import RentalMarket.Identity.Deliveries

namespace RentalMarket.Identity

open RentalMarket.Core RentalMarket.Booking Runs

def EraseStage.earlier : EraseStage → List EraseStage
  | profile => []
  | listings => [profile]
  | quotes => [profile, listings]
  | activity => [profile, listings, quotes]
  | tombstone => [profile, listings, quotes, activity]

theorem EraseStage.mem_earlier_tombstone (stage : EraseStage) : stage = tombstone ∨ stage ∈ tombstone.earlier := by
  cases stage <;> decide

/-- In the run a stage of an account's erasure has gone through: no statement failed, and the last
found the address of the tombstone free. -/
def Ran (w : Wiring) (s₀ : State) (as : List Action) (id : Id) (stage : EraseStage) : Prop :=
  ∃ (pre : List Action) (i : Nat) (d : Draw) (post : List Action) (t : State) (user : MirroredUser)
    (cause : EraseCause), as = pre ++ .exec i d :: post ∧ run (step w) s₀ pre = some t ∧
      t.calls[i]? = some (.erasing stage user cause) ∧ user.id = id ∧ d.fails = false ∧
      (stage = .tombstone → t.tables.users.emailTaken user.id (tombstoneEmail user.id) = false)

def Action.redelivers (externalId k : String) : Action → Bool
  | .request _ _ _ _ => false
  | .event e told => decide (e = externalId ∧ told = .deleted k)
  | .exec _ _ => true

section

variable {w : Wiring} {s₀ s s' : State} {a : Action} {as : List Action} {id : Id} {externalId k : String}

theorem Ran.longer {stage : EraseStage} (h : Ran w s₀ as id stage) : Ran w s₀ (as ++ [a]) id stage := by
  obtain ⟨pre, i, d, post, t, user, cause, rfl, hpre, hc, hid, hthrough⟩ := h
  exact ⟨pre, i, d, post ++ [a], t, user, cause, by simp, hpre, hc, hid, hthrough⟩

theorem Ran.now (hr : run (step w) s₀ as = some s) {i : Nat} {d : Draw} {stage : EraseStage}
    {user : MirroredUser} {cause : EraseCause} (hc : s.calls[i]? = some (.erasing stage user cause))
    (hfails : d.fails = false)
    (hfree : stage = .tombstone → s.tables.users.emailTaken user.id (tombstoneEmail user.id) = false) :
    Ran w s₀ (as ++ [.exec i d]) user.id stage :=
  ⟨as, i, d, [], s, user, cause, rfl, hr, hc, rfl, hfails, hfree⟩

theorem tells_of_redelivers (h : a.redelivers externalId k = true) : a.tells k = true := by
  cases a with
  | request clerkUserId email secondFactor r => cases h
  | event e told =>
    obtain ⟨-, rfl⟩ := of_decide_eq_true h
    exact decide_eq_true rfl
  | exec i d => rfl

/-- What a call that applies the event may say of the account. -/
def Honest (w : Wiring) (s₀ : State) (as : List Action) (s : State) (externalId k : String) (id : Id) :
    Call → Prop
  | .claiming e event => e = externalId ∧ event = .deleted k
  | .deletedRead e clerkUserId => e = externalId ∧ clerkUserId = k
  | .erasing stage user cause => cause = .event externalId ∧ user.id = id ∧
      ∀ stage' ∈ stage.earlier, Ran w s₀ as id stage'
  | .recording _ cause => cause = .event externalId ∧ s.tables.users.standing k = .gone
  | .processing e => e = externalId ∧ s.tables.users.standing k = .gone
  | .returned (.applied true) => s.tables.users.standing k = .gone
  | .returned (.applied false) => s.tables.Claimed externalId
  | .returned _ => True
  | _ => False

structure Redelivered (w : Wiring) (s₀ : State) (as : List Action) (externalId k : String) (u₀ : MirroredUser)
    (s : State) : Prop where
  told : Told k s
  row : ∃ u, s.tables.users.findByClerkUserId k = some u ∧ u.id = u₀.id
  erased : u₀.deletedAt = none → s.tables.users.standing k = .gone → ∀ stage, Ran w s₀ as u₀.id stage
  closed : Ran w s₀ as u₀.id .tombstone → s.tables.users.standing k = .gone
  buried : u₀.deletedAt ≠ none → s.tables.users.standing k = .gone
  honest : ∀ (i : Nat) (c : Call), s.calls[i]? = some c → Honest w s₀ as s externalId k u₀.id c
  processed : (externalId, true) ∈ s.tables.deliveries → s.tables.users.standing k = .gone

namespace Redelivered

variable {u₀ : MirroredUser}

theorem honest_stays (hs : Redelivered w s₀ as externalId k u₀ s) (h : step w s a = some s') {c : Call}
    (hc : Honest w s₀ as s externalId k id c) : Honest w s₀ (as ++ [a]) s' externalId k id c := by
  cases c with
  | claiming e event => exact hc
  | deletedRead e clerkUserId => exact hc
  | erasing stage user cause =>
    obtain ⟨hcause, hid, hran⟩ := hc
    exact ⟨hcause, hid, fun stage' hearlier => (hran stage' hearlier).longer⟩
  | recording user cause => exact ⟨hc.1, hs.told.gone h hc.2⟩
  | processing e => exact ⟨hc.1, hs.told.gone h hc.2⟩
  | returned answer =>
    cases answer with
    | applied fresh =>
      cases fresh with
      | true => exact hs.told.gone h hc
      | false => exact step_claimed_mono h hc
    | _ => trivial
  | _ => exact hc.elim

/-- What a call may say once it has run a statement of its own. -/
theorem honest_next (hs : Redelivered w s₀ as externalId k u₀ s) (hr : run (step w) s₀ as = some s)
    (h : step w s a = some s') {i : Nat} {d : Draw} (ha : a = .exec i d) (hfails : d.fails = false)
    {c c' : Call} (hc : s.calls[i]? = some c) (hnext : next w s.tables s.locked d c = some (s'.tables, c')) :
    Honest w s₀ (as ++ [a]) s' externalId k u₀.id c' := by
  have hhonest := hs.honest i c hc
  cases c with
  | claiming e event =>
    obtain ⟨rfl, rfl⟩ := hhonest
    simp only [next] at hnext
    split at hnext
    · rename_i hany
      obtain ⟨ht, rfl⟩ := Prod.mk.inj (Option.some.inj hnext)
      rw [Honest, ← ht]
      simpa [Tables.Claimed] using hany
    · obtain ⟨-, rfl⟩ := Prod.mk.inj (Option.some.inj hnext)
      exact ⟨rfl, rfl⟩
  | deletedRead e clerkUserId =>
    obtain ⟨rfl, rfl⟩ := hhonest
    obtain ⟨u, hfind, hid⟩ := hs.row
    simp only [next, hfind] at hnext
    obtain ⟨ht, hto⟩ := Prod.mk.inj (Option.some.inj hnext)
    split at hto
    · rename_i hdeleted
      subst hto
      refine ⟨rfl, ?_⟩
      rw [← ht, Users.standing_of_find hfind, if_pos hdeleted]
    · subst hto
      exact ⟨rfl, hid, fun _ hmem => absurd hmem List.not_mem_nil⟩
  | erasing stage user cause =>
    obtain ⟨rfl, hid, hran⟩ := hhonest
    have hnow (hstage : stage ≠ .tombstone) : Ran w s₀ (as ++ [a]) u₀.id stage := by
      rw [← hid, ha]
      exact .now hr hc hfails (fun h => absurd h hstage)
    have hearlier : ∀ stage' ∈ stage.earlier, Ran w s₀ (as ++ [a]) u₀.id stage' :=
      fun stage' hmem => (hran stage' hmem).longer
    have hnext := Option.some.inj hnext
    cases stage with
    | tombstone =>
      simp only [nextErasing] at hnext
      split at hnext
      · obtain ⟨-, rfl⟩ := Prod.mk.inj hnext
        trivial
      · obtain ⟨ht, rfl⟩ := Prod.mk.inj hnext
        refine ⟨rfl, ?_⟩
        rw [← ht]
        exact hs.told.gone_of_tombstone hc rfl d.now
    | _ =>
      obtain ⟨-, rfl⟩ := Prod.mk.inj hnext
      refine ⟨rfl, hid, ?_⟩
      simp only [EraseStage.earlier, List.forall_mem_cons, List.not_mem_nil, false_imp_iff, implies_true,
        and_true] at hearlier ⊢
      simp only [hearlier, hnow (by decide), and_self]
  | recording user cause =>
    obtain ⟨rfl, hgone⟩ := hhonest
    obtain ⟨-, rfl⟩ := Prod.mk.inj (Option.some.inj hnext)
    exact ⟨rfl, hs.told.gone h hgone⟩
  | processing e =>
    obtain ⟨rfl, hgone⟩ := hhonest
    obtain ⟨-, rfl⟩ := Prod.mk.inj (Option.some.inj hnext)
    exact hs.told.gone h hgone
  | returned answer => cases hnext
  | _ => exact hhonest.elim

theorem erased_next (hs : Redelivered w s₀ as externalId k u₀ s) (hr : run (step w) s₀ as = some s)
    (h : step w s a = some s') (hlive : u₀.deletedAt = none) (hgone : s'.tables.users.standing k = .gone)
    (stage : EraseStage) : Ran w s₀ (as ++ [a]) u₀.id stage := by
  by_cases hbefore : s.tables.users.standing k = .gone
  · exact (hs.erased hlive hbefore stage).longer
  · have hmirrors := hs.told.step_mirrors h
    revert hmirrors hgone
    generalize s'.tables.users = users
    intro hgone hmirrors
    cases hmirrors with
    | kept => exact absurd hgone hbefore
    | created id email hcreates hnone =>
      rw [Users.standing_append hnone] at hgone
      cases hgone
    | corrected u email hu =>
      have hfind : (s.tables.users.setEmail u.id email).findByClerkUserId k = some { u with email := email } :=
        Users.findByClerkUserId_changed hu (fun _ => rfl)
      rw [Users.standing_of_find hfind] at hgone
      rw [Users.standing_of_find hu] at hbefore
      exact absurd hgone hbefore
    | closed i d user u cause hc hfails hu hid hfree =>
      obtain ⟨-, huser, hran⟩ := hs.honest i _ hc
      obtain rfl | hearlier := stage.mem_earlier_tombstone
      · rw [← huser]
        exact .now hr hc hfails (fun _ => by rw [hid]; exact hfree)
      · exact (hran stage hearlier).longer

theorem closed_next (hs : Redelivered w s₀ as externalId k u₀ s) (hr : run (step w) s₀ as = some s)
    (h : step w s a = some s') (hran : Ran w s₀ (as ++ [a]) u₀.id .tombstone) :
    s'.tables.users.standing k = .gone := by
  obtain ⟨pre, i, d, post, t, user, cause, hcut, hpre, hc, hid, hfails, hfree⟩ := hran
  obtain ⟨rfl, rfl⟩ | ⟨post, rfl⟩ := append_cut hcut
  · rw [hr] at hpre
    cases hpre
    obtain ⟨c', hnext, -⟩ := step_ran hc hfails h
    simp only [next, nextErasing, hfree rfl, Bool.false_eq_true, if_false, Option.some.injEq] at hnext
    obtain ⟨ht, -⟩ := Prod.mk.inj hnext
    rw [← ht]
    exact hs.told.gone_of_tombstone hc rfl d.now
  · exact hs.told.gone h (hs.closed ⟨pre, i, d, post, t, user, cause, rfl, hpre, hc, hid, hfails, hfree⟩)

theorem processed_next (hs : Redelivered w s₀ as externalId k u₀ s) (h : step w s a = some s')
    (hprocessed : (externalId, true) ∈ s'.tables.deliveries) : s'.tables.users.standing k = .gone := by
  obtain ht | ⟨i, d, c, -, hc, -, hw⟩ := step_tables h
  · rw [ht] at hprocessed ⊢
    exact hs.processed hprocessed
  · obtain hsame | ⟨e, event, rfl, hnew⟩ | ⟨e, rfl, hmap⟩ := written_deliveries hw
    · rw [hsame] at hprocessed
      exact hs.told.gone h (hs.processed hprocessed)
    · rw [hnew] at hprocessed
      obtain hold | hfresh := List.mem_append.mp hprocessed
      · exact hs.told.gone h (hs.processed hold)
      · cases List.mem_singleton.mp hfresh
    · obtain ⟨-, hgone⟩ := hs.honest i _ hc
      exact hs.told.gone h hgone

theorem after_step (hs : Redelivered w s₀ as externalId k u₀ s) (hr : run (step w) s₀ as = some s)
    (ha : a.redelivers externalId k = true) (h : step w s a = some s') :
    Redelivered w s₀ (as ++ [a]) externalId k u₀ s' where
  told := hs.told.after_step (tells_of_redelivers ha) h
  row := by
    obtain ⟨u, hu, hid⟩ := hs.row
    obtain ⟨u', hu', hid'⟩ := (hs.told.step_mirrors h).find hu
    exact ⟨u', hu', hid'.trans hid⟩
  erased := fun hlive hgone stage => hs.erased_next hr h hlive hgone stage
  closed := hs.closed_next hr h
  buried := fun hdeleted => hs.told.gone h (hs.buried hdeleted)
  honest := by
    intro i c hc
    obtain hold | rfl | ⟨e, event, rfl, rfl⟩ | ⟨d, c₀, hexec, hfails, hc₀, hnext⟩ :=
      step_delivered (tells_of_redelivers ha) h hc
    · exact hs.honest_stays h (hs.honest i c hold)
    · trivial
    · have hsame : e = externalId ∧ event = .deleted k := of_decide_eq_true ha
      exact hsame
    · exact hs.honest_next hr h hexec hfails hc₀ hnext
  processed := hs.processed_next h

theorem start (hidle : s₀.calls = []) (hclerks : (s₀.tables.users.map (·.clerkUserId)).Nodup)
    (hfind : s₀.tables.users.findByClerkUserId k = some u₀) (hnew : ¬s₀.tables.Claimed externalId) :
    Redelivered w s₀ [] externalId k u₀ s₀ where
  told := .start hidle hclerks
  row := ⟨u₀, hfind, rfl⟩
  erased := by
    intro hlive hgone
    rw [Users.standing_of_find hfind, hlive] at hgone
    cases hgone
  closed := by
    rintro ⟨pre, i, d, post, t, user, cause, hcut, -⟩
    cases pre <;> cases hcut
  buried := by
    intro hdeleted
    rw [Users.standing_of_find hfind, if_pos (Option.isSome_iff_ne_none.mpr hdeleted)]
  honest := by
    intro i c hc
    rw [hidle] at hc
    cases hc
  processed := fun h => absurd ⟨_, h, rfl⟩ hnew

end Redelivered

theorem redelivered_of_run (hidle : s₀.calls = []) (hclerks : (s₀.tables.users.map (·.clerkUserId)).Nodup)
    {u₀ : MirroredUser} (hfind : s₀.tables.users.findByClerkUserId k = some u₀)
    (hnew : ¬s₀.tables.Claimed externalId) (has : ∀ a ∈ as, a.redelivers externalId k = true)
    (hr : run (step w) s₀ as = some s) : Redelivered w s₀ as externalId k u₀ s := by
  refine run_induction (P := fun bs s => (∀ a ∈ bs, a.redelivers externalId k = true) →
    Redelivered w s₀ bs externalId k u₀ s) ?_ ?_ hr has
  · exact fun _ => .start hidle hclerks hfind hnew
  · intro bs s a t hr hs h hbs
    exact (hs (fun b hb => hbs b (List.mem_append_left _ hb))).after_step hr
      (hbs a (List.mem_append_right _ List.mem_cons_self)) h

end

/-- The account is closed, and every stage of its erasure has gone through in the run. -/
def Erased (w : Wiring) (s₀ : State) (as : List Action) (k : String) (u₀ : MirroredUser) (s : State) : Prop :=
  (∃ u, s.tables.users.findByClerkUserId k = some u ∧ u.id = u₀.id ∧ u.deletedAt ≠ none) ∧
    (u₀.deletedAt = none → ∀ stage, Ran w s₀ as u₀.id stage)

def State.answers (s : State) (externalId : String) (i : Nat) (d : Draw) : Prop :=
  (∃ event, s.calls[i]? = some (.claiming externalId event)) ∧ d.fails = false ∧ s.tables.Claimed externalId

/-- No redelivery is answered before the erasure of the live account has run its last statement. -/
def AnsweredAfter (w : Wiring) (s₀ : State) (as : List Action) (externalId : String) (u₀ : MirroredUser) : Prop :=
  ∀ pre i d post t, as = pre ++ .exec i d :: post → run (step w) s₀ pre = some t → t.answers externalId i d →
    u₀.deletedAt = none → Ran w s₀ pre u₀.id .tombstone

section

variable {w : Wiring} {s₀ s s' : State} {a : Action} {as : List Action} {externalId k : String} {u₀ : MirroredUser}

theorem AnsweredAfter.left {bs : List Action} (h : AnsweredAfter w s₀ (as ++ bs) externalId u₀) :
    AnsweredAfter w s₀ as externalId u₀ := by
  rintro pre i d post t rfl hpre hanswers hlive
  exact h pre i d (post ++ bs) t (by simp) hpre hanswers hlive

theorem next_answers {t t' : Tables} {locked : Id → Bool} {d : Draw} {c : Call} (hc : Honest w s₀ as s externalId k u₀.id c)
    (h : next w t locked d c = some (t', .returned (.applied false))) :
    (∃ event, c = .claiming externalId event) ∧ t.Claimed externalId ∧ t' = t := by
  cases c with
  | claiming e event =>
    obtain ⟨rfl, rfl⟩ := hc
    simp only [next] at h
    split at h
    · rename_i hany
      cases h
      exact ⟨⟨_, rfl⟩, by simpa [Tables.Claimed] using hany, rfl⟩
    · cases h
  | deletedRead e clerkUserId =>
    simp only [next] at h
    split at h
    · cases h
    · split at h <;> cases h
  | erasing stage user cause =>
    cases stage <;> simp only [next, nextErasing] at h
    case tombstone => split at h <;> cases h
    all_goals cases h
  | recording user cause =>
    obtain ⟨rfl, -⟩ := hc
    cases h
  | processing e => cases h
  | returned answer => cases h
  | _ => exact hc.elim

namespace Redelivered

theorem erased_iff (hs : Redelivered w s₀ as externalId k u₀ s) :
    Erased w s₀ as k u₀ s ↔ s.tables.users.standing k = .gone := by
  obtain ⟨u, hu, hid⟩ := hs.row
  constructor
  · rintro ⟨⟨v, hv, -, hdeleted⟩, -⟩
    rw [Users.standing_of_find hv, if_pos (Option.isSome_iff_ne_none.mpr hdeleted)]
  · intro hgone
    refine ⟨⟨u, hu, hid, ?_⟩, fun hlive => hs.erased hlive hgone⟩
    rw [Users.standing_of_find hu] at hgone
    split at hgone
    · rename_i hdeleted
      exact Option.isSome_iff_ne_none.mp hdeleted
    · cases hgone

theorem answered_next (hs : Redelivered w s₀ as externalId k u₀ s) (hr : run (step w) s₀ as = some s)
    (ha : a.redelivers externalId k = true) (h : step w s a = some s')
    (hafter : AnsweredAfter w s₀ (as ++ [a]) externalId u₀)
    (hbefore : .returned (.applied false) ∈ s.calls → s.tables.users.standing k = .gone)
    (hcall : .returned (.applied false) ∈ s'.calls) : s'.tables.users.standing k = .gone := by
  obtain ⟨i, hc⟩ := List.mem_iff_getElem?.mp hcall
  obtain hold | ⟨⟨⟩⟩ | ⟨e, event, rfl, ⟨⟩⟩ | ⟨d, c, rfl, hfails, hc₀, hnext⟩ :=
    step_delivered (tells_of_redelivers ha) h hc
  · exact hs.told.gone h (hbefore (List.mem_of_getElem? hold))
  · obtain ⟨⟨event, rfl⟩, hclaimed, ht⟩ := next_answers (hs.honest i c hc₀) hnext
    rw [ht]
    obtain hlive | hdeleted := eq_or_ne u₀.deletedAt none
    · exact hs.closed (hafter as i d [] s rfl hr ⟨⟨event, hc₀⟩, hfails, hclaimed⟩ hlive)
    · exact hs.buried hdeleted

theorem of_answered (hs : Redelivered w s₀ as externalId k u₀ s) {i : Nat} {d : Draw}
    (hanswers : s.answers externalId i d) (h : step w s (.exec i d) = some s') (hlive : u₀.deletedAt = none) (herased : .returned (.applied false) ∈ s'.calls →
      Erased w s₀ (as ++ [.exec i d]) k u₀ s') : Ran w s₀ as u₀.id .tombstone := by
  obtain ⟨⟨event, hc⟩, hfails, hclaimed⟩ := hanswers
  obtain ⟨c', hnext, hc'⟩ := step_ran hc hfails h
  have hany : s.tables.deliveries.any (fun e => e.1 = externalId) = true := by simpa [Tables.Claimed] using hclaimed
  simp only [next, hany, if_true, Option.some.injEq] at hnext
  obtain ⟨ht, rfl⟩ := Prod.mk.inj hnext
  obtain ⟨⟨u, hu, -, hdeleted⟩, -⟩ := herased (List.mem_of_getElem? hc')
  apply hs.erased hlive
  rw [← ht] at hu
  rw [Users.standing_of_find hu, if_pos (Option.isSome_iff_ne_none.mpr hdeleted)]

end Redelivered

end

/-- A deletion that a call has acknowledged as applied has happened, and so has
one whose delivery is marked processed. That the delivery had been recorded
before is all that the other acknowledgement says: it is true of the deletion
too just where no redelivery is answered before the erasure has come to its end. -/
theorem applied_deletions_have_happened (w : Wiring) {s₀ s : State} {as : List Action} {externalId k : String}
    {u₀ : MirroredUser} (hidle : s₀.calls = []) (hclerks : (s₀.tables.users.map (·.clerkUserId)).Nodup)
    (hfind : s₀.tables.users.findByClerkUserId k = some u₀) (hnew : ¬s₀.tables.Claimed externalId)
    (has : ∀ a ∈ as, a.redelivers externalId k = true) (hr : run (step w) s₀ as = some s) :
    (.returned (.applied true) ∈ s.calls ∨ (externalId, true) ∈ s.tables.deliveries → Erased w s₀ as k u₀ s) ∧
    (.returned (.applied false) ∈ s.calls → s.tables.Claimed externalId) ∧
    ((∀ pre post t fresh, as = pre ++ post → run (step w) s₀ pre = some t →
        .returned (.applied fresh) ∈ t.calls → Erased w s₀ pre k u₀ t) ↔
      AnsweredAfter w s₀ as externalId u₀) := by
  have hat (pre : List Action) (t : State) (hpre : ∀ a ∈ pre, a ∈ as) (hrpre : run (step w) s₀ pre = some t) :
      Redelivered w s₀ pre externalId k u₀ t :=
    redelivered_of_run hidle hclerks hfind hnew (fun a ha => has a (hpre a ha)) hrpre
  have hs := hat as s (fun _ ha => ha) hr
  refine ⟨?_, ?_, ?_, ?_⟩
  · intro hdone
    rw [hs.erased_iff]
    obtain hcall | hprocessed := hdone
    · obtain ⟨i, hc⟩ := List.mem_iff_getElem?.mp hcall
      exact hs.honest i _ hc
    · exact hs.processed hprocessed
  · intro hcall
    obtain ⟨i, hc⟩ := List.mem_iff_getElem?.mp hcall
    exact hs.honest i _ hc
  · rintro herased pre i d post t rfl hpre hanswers hlive
    obtain ⟨t', h, -⟩ := run_rest hr hpre
    refine (hat pre t (fun a ha => List.mem_append_left _ ha) hpre).of_answered hanswers h hlive (fun hcall => ?_)
    exact herased (pre ++ [.exec i d]) post t' false (by simp) (run_append_eq_some.mpr ⟨t, hpre, by simp [run_cons, h]⟩) hcall
  · rintro hafter pre post t fresh rfl hpre hcall
    have ht := hat pre t (fun a ha => List.mem_append_left _ ha) hpre
    rw [ht.erased_iff]
    cases fresh with
    | true =>
      obtain ⟨i, hc⟩ := List.mem_iff_getElem?.mp hcall
      exact ht.honest i _ hc
    | false =>
      refine run_induction (P := fun bs t => (∀ a ∈ bs, a ∈ pre ++ post) → AnsweredAfter w s₀ bs externalId u₀ →
        .returned (.applied false) ∈ t.calls → t.tables.users.standing k = .gone) ?_ ?_ hpre
        (fun a ha => List.mem_append_left _ ha) hafter.left hcall
      · intro _ _ hcall
        rw [hidle] at hcall
        cases hcall
      · intro bs t a t' hr ih h hbs hafter hcall
        exact (hat bs t (fun b hb => hbs b (List.mem_append_left _ hb)) hr).answered_next hr
          (has a (hbs a (List.mem_append_right _ List.mem_cons_self))) h hafter
          (ih (fun b hb => hbs b (List.mem_append_left _ hb)) hafter.left) hcall

def deletionTold : Action := .event "msg-1" (.deleted "clerk-cat")

def present : State := sampleStart [sampleAccount "cat" .user]

theorem present_clerks : (present.tables.users.map (·.clerkUserId)).Nodup := by decide +kernel

theorem present_cat : present.tables.users.findByClerkUserId "clerk-cat" = some (sampleAccount "cat" .user) := by
  decide +kernel

theorem present_unclaimed : ¬present.tables.Claimed "msg-1" := by
  rintro ⟨x, hx, -⟩
  cases hx

/-- The first delivery is claimed and its first eraser fails; the provider
delivers again. -/
def retriedDeletion : List Action :=
  deletionTold :: List.replicate 2 (runs 0 0 "x") ++ .exec 0 ⟨0, "x", ⟨drillCatalogue, []⟩, true⟩ ::
    deletionTold :: [runs 1 0 "x"]

theorem a_retried_deletion_is_acknowledged_undone :
    ∃ s, run (step sampleWiring) present retriedDeletion = some s ∧ .returned (.applied false) ∈ s.calls ∧
      (∀ a ∈ retriedDeletion, a.redelivers "msg-1" "clerk-cat" = true) ∧
      ∀ u ∈ s.tables.users, u.clerkUserId = "clerk-cat" → u.deletedAt = none := by
  have hrun : (run (step sampleWiring) present retriedDeletion).map (fun s => (s.calls, s.tables.users)) =
      some ([.returned .threw, .returned (.applied false)], [sampleAccount "cat" .user]) := by
    decide +kernel
  obtain ⟨s, hr, hend⟩ := Option.map_eq_some_iff.mp hrun
  obtain ⟨hcalls, husers⟩ := Prod.mk.inj hend
  refine ⟨s, hr, ?_, by decide +kernel, ?_⟩
  · rw [hcalls]
    exact List.mem_cons_of_mem _ List.mem_cons_self
  · intro u hu _
    rw [husers] at hu
    rw [List.mem_singleton.mp hu]
    rfl

def repeatedDeletion : List Action :=
  deletionTold :: List.replicate 9 (runs 0 0 "x") ++ deletionTold :: [runs 1 0 "x"]

theorem an_acknowledged_deletion_has_happened :
    ∃ s, run (step sampleWiring) present repeatedDeletion = some s ∧
      (∃ u, s.tables.users.findByClerkUserId "clerk-cat" = some u ∧ u.id = "cat" ∧ u.deletedAt ≠ none) ∧
      ∀ stage, Ran sampleWiring present repeatedDeletion "cat" stage := by
  have hrun : (run (step sampleWiring) present repeatedDeletion).map (·.calls) =
      some [.returned (.applied true), .returned (.applied false)] := by
    decide +kernel
  obtain ⟨s, hr, hcalls⟩ := Option.map_eq_some_iff.mp hrun
  have hdone : .returned (.applied true) ∈ s.calls := by
    rw [hcalls]
    exact List.mem_cons_self
  obtain ⟨hgone, hran⟩ := (applied_deletions_have_happened sampleWiring rfl present_clerks present_cat
    present_unclaimed (by decide +kernel) hr).1 (.inl hdone)
  exact ⟨s, hr, hgone, hran rfl⟩

end RentalMarket.Identity
