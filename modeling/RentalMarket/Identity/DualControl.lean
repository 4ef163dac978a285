import RentalMarket.Identity.Statements

namespace RentalMarket.Identity

open RentalMarket.Core RentalMarket.Booking Runs

namespace Users

variable {users : Users} {id : Id} {change : MirroredUser → MirroredUser}

def roleOf (users : Users) (id : Id) : Option UserRole := (users.findById id).map (·.role)

theorem roleOf_update (hid : ∀ u, (change u).id = u.id) (hrole : ∀ u, (change u).role = u.role) (k : Id) :
    (users.update id change).roleOf k = users.roleOf k := by
  rw [roleOf, findById_update hid, Option.map_map, roleOf]
  congr 1
  funext u
  simp only [Function.comp_apply]
  split
  · exact hrole u
  · rfl

@[simp] theorem roleOf_setEmail (email : String) (k : Id) :
    (users.setEmail id email).roleOf k = users.roleOf k := by
  apply roleOf_update <;> simp

@[simp] theorem roleOf_setSuspension (suspension : Option Suspension) (k : Id) :
    (users.setSuspension id suspension).roleOf k = users.roleOf k := by
  apply roleOf_update <;> simp

@[simp] theorem roleOf_tombstone (now : Instant) (k : Id) :
    (users.tombstone id now).roleOf k = users.roleOf k := by
  apply roleOf_update <;> simp

theorem roleOf_setRole_of_ne {role : UserRole} {k : Id} (hne : k ≠ id) :
    (users.setRole id role).roleOf k = users.roleOf k := by
  rw [roleOf, setRole, findById_update, roleOf]
  · cases h : users.findById k with
    | none => rfl
    | some u =>
      have hu : u.id ≠ id := by
        rw [findById_id h]
        exact hne
      simp only [Option.map_some, if_neg hu]
  · intro u
    rfl

theorem roleOf_setRole_self {role r : UserRole} (h : users.roleOf id = some r) :
    (users.setRole id role).roleOf id = some role := by
  obtain ⟨u, hu, -⟩ := Option.map_eq_some_iff.mp h
  rw [roleOf, setRole, findById_update, hu]
  · simp only [Option.map_some, if_pos (findById_id hu)]
  · intro u
    rfl

end Users

/-- One row is approved and what it proposes is done, and nothing else is. -/
structure Applied (t t' : Tables) (row : AdminApproval) (decision : Decision) : Prop where
  mem : row ∈ t.approvals
  pending : row.approved = none ∧ row.cancelled = none
  inTime : decision.instant < row.expiresAt
  fourEyes : decision.byId ≠ row.proposedById
  tables : t' = { t with
    approvals := updateApproval t.approvals row.id (fun a => { a with approved := some decision })
    users := t.users.setRole row.userId row.role }

section

variable {w : Wiring} {t t' : Tables} {locked : Id → Bool} {d : Draw} {c c' : Call}

/-- Only a transaction that claimed a proposal changes a role. -/
theorem written_roleOf (hw : Written w t locked d c t') {id : Id} {r : UserRole}
    (hr : t.users.roleOf id = some r) :
    t'.users.roleOf id = some r ∨ ∃ actor decision claimed counted,
      c = .role (.approveApply actor decision claimed counted) ∧ claimed.userId = id ∧
      t' = { t with
        approvals := updateApproval t.approvals claimed.id (fun a => { a with approved := some decision })
        users := t.users.setRole claimed.userId claimed.role } := by
  cases hw with
  | created r' hid hclerk =>
    left
    obtain ⟨u, hu, hrole⟩ := Option.map_eq_some_iff.mp hr
    exact Option.map_eq_some_iff.mpr ⟨u, Users.findById_append hu, hrole⟩
  | corrected r' user hfree =>
    left
    simpa using hr
  | suspended actor target reason counted =>
    left
    simpa using hr
  | reinstated actor target reason =>
    left
    simpa using hr
  | tombstoned user cause hfree =>
    left
    simpa using hr
  | applied actor decision claimed counted =>
    by_cases hid : claimed.userId = id
    · exact .inr ⟨actor, decision, claimed, counted, rfl, hid, rfl⟩
    · left
      rw [← hr]
      exact Users.roleOf_setRole_of_ne (Ne.symm hid)
  | _ => exact .inl hr

end

/-- The state in which the service is started: the database's own constraints
hold of the proposals. -/
structure Start (s : State) : Prop where
  idle : s.calls = []
  ids : (s.tables.approvals.map (·.id)).Nodup
  singular : ∀ a ∈ s.tables.approvals, a.approved = none ∨ a.cancelled = none

/-- What holds of the proposals between any two statements. -/
structure Controlled (s : State) : Prop where
  ids : (s.tables.approvals.map (·.id)).Nodup
  singular : ∀ a ∈ s.tables.approvals, a.approved = none ∨ a.cancelled = none
  held : ∀ (i : Nat) (actor : Administrator) (decision : Decision) (claimed : AdminApproval)
    (counted : Option Nat), s.calls[i]? = some (.role (.approveApply actor decision claimed counted)) →
      claimed ∈ s.tables.approvals ∧ claimable claimed decision = true ∧ decision.byId = actor.1.id
  apart : ∀ (i j : Nat) (c c' : Call) (id : Id), s.calls[i]? = some c → s.calls[j]? = some c' →
    c.holds id = true → c'.holds id = true → i = j

theorem Start.controlled {s : State} (h : Start s) : Controlled s := by
  refine ⟨h.ids, h.singular, ?_, ?_⟩
  · intro i actor decision claimed counted hc
    rw [h.idle] at hc
    cases hc
  · intro i j c c' id hc
    rw [h.idle] at hc
    cases hc

theorem claimable_iff {row : AdminApproval} {decision : Decision} :
    claimable row decision = true ↔ row.approved = none ∧ row.cancelled = none ∧
      decision.instant < row.expiresAt ∧ row.proposedById ≠ decision.byId := by
  simp [claimable, and_assoc]

theorem cancellable_iff {row : AdminApproval} :
    cancellable row = true ↔ row.approved = none ∧ row.cancelled = none := by
  simp [cancellable]

theorem Call.holds_iff {id : Id} {c : Call} :
    c.holds id = true ↔ ∃ actor decision claimed counted,
      c = .role (.approveApply actor decision claimed counted) ∧ claimed.id = id := by
  constructor
  · intro h
    cases c with
    | role c =>
      cases c with
      | approveApply actor decision claimed counted =>
        exact ⟨actor, decision, claimed, counted, rfl, by simpa [Call.holds] using h⟩
      | _ => cases h
    | _ => cases h
  · rintro ⟨actor, decision, claimed, counted, rfl, hid⟩
    simpa [Call.holds] using hid

theorem State.not_holds_of_not_locked {s : State} {id : Id} (h : s.locked id = false) {i : Nat} {c : Call}
    (hc : s.calls[i]? = some c) : c.holds id = false := by
  rw [State.locked, List.any_eq_false] at h
  simpa using h c (List.mem_of_getElem? hc)

section

variable {w : Wiring} {s s' : State} {a : Action}

/-- A transaction that is open after a step was open before it, or has just
claimed a row that nobody held. -/
theorem step_held (h : step w s a = some s') {j : Nat} {actor : Administrator} {decision : Decision}
    {claimed : AdminApproval} {counted : Option Nat}
    (hx : s'.calls[j]? = some (.role (.approveApply actor decision claimed counted))) :
    (s.calls[j]? = some (.role (.approveApply actor decision claimed counted)) ∧ ∀ d, a ≠ .exec j d) ∨
      ((∃ d, a = .exec j d) ∧ s'.tables = s.tables ∧ s.locked claimed.id = false ∧
        claimed ∈ s.tables.approvals ∧ claimable claimed decision = true ∧ decision.byId = actor.1.id) := by
  obtain hold | ⟨-, hidle⟩ | ⟨d, c, ha, -, hnext⟩ := step_call h hx
  · exact .inl hold
  · cases hidle
  · right
    have htables := next_tables hnext
    cases next_moved hnext with
    | resolving c c' h => cases nextResolving_entry h
    | claiming actor proposal claimed reason counted hlock hfind hclaim =>
      have ht : s'.tables = s.tables := by
        cases htables with
        | inl ht => exact ht
        | inr hw => cases hw
      rw [← findApproval_id hfind] at hlock
      exact ⟨⟨d, ha⟩, ht, hlock, mem_of_findApproval hfind, hclaim, rfl⟩

end

section

variable {w : Wiring} {t t' : Tables} {locked : Id → Bool} {d : Draw} {c : Call}

theorem written_ids (hw : Written w t locked d c t') (hids : (t.approvals.map (·.id)).Nodup) :
    (t'.approvals.map (·.id)).Nodup := by
  cases hw with
  | proposed actor userId role reason hid => exact Keyed.nodup_append hids hid
  | applied actor decision claimed counted =>
    simp only
    rw [updateApproval_ids]
    · exact hids
    · intro a
      rfl
  | cancelled actor approvalId reason row hlock hrow hpending =>
    simp only
    rw [updateApproval_ids]
    · exact hids
    · intro a
      rfl
  | _ => exact hids

/-- A row stays as it is unless its own transaction commits, or somebody
cancels it while it is pending and nobody holds it. -/
theorem written_keeps (hw : Written w t locked d c t') (hids : (t.approvals.map (·.id)).Nodup)
    {row : AdminApproval} (hrow : row ∈ t.approvals) (hholds : c.holds row.id = false)
    (hcancel : locked row.id = true ∨ cancellable row = false) : row ∈ t'.approvals := by
  cases hw with
  | proposed actor userId role reason hid => exact List.mem_append_left _ hrow
  | applied actor decision claimed counted =>
    apply mem_updateApproval_of_ne hrow
    intro hid
    simp [Call.holds, hid] at hholds
  | cancelled actor approvalId reason found hlock hfound hpending =>
    apply mem_updateApproval_of_ne hrow
    intro hid
    cases hcancel with
    | inl hlocked =>
      rw [hid, hlock] at hlocked
      cases hlocked
    | inr hdecided =>
      have heq : row = found :=
        Keyed.eq_of_key hids hrow (mem_of_findApproval hfound) (hid.trans (findApproval_id hfound).symm)
      rw [heq, hpending] at hdecided
      cases hdecided
  | _ => exact hrow

theorem written_singular (hw : Written w t locked d c t') (hids : (t.approvals.map (·.id)).Nodup)
    (hsingular : ∀ a ∈ t.approvals, a.approved = none ∨ a.cancelled = none)
    (hheld : ∀ actor decision claimed counted, c = .role (.approveApply actor decision claimed counted) →
      claimed ∈ t.approvals ∧ claimable claimed decision = true) :
    ∀ a ∈ t'.approvals, a.approved = none ∨ a.cancelled = none := by
  intro a ha
  cases hw with
  | proposed actor userId role reason hid =>
    cases List.mem_append.mp ha with
    | inl ha => exact hsingular a ha
    | inr ha =>
      rw [List.mem_singleton.mp ha]
      exact .inl rfl
  | applied actor decision claimed counted =>
    obtain ⟨hclaimed, hclaim⟩ := hheld actor decision claimed counted rfl
    obtain ⟨ha, -⟩ | ⟨old, hold, hid, rfl⟩ := mem_updateApproval ha
    · exact hsingular a ha
    · rw [Keyed.eq_of_key hids hold hclaimed hid]
      exact .inr (claimable_iff.mp hclaim).2.1
  | cancelled actor approvalId reason found hlock hfound hpending =>
    obtain ⟨ha, -⟩ | ⟨old, hold, hid, rfl⟩ := mem_updateApproval ha
    · exact hsingular a ha
    · have heq : old = found :=
        Keyed.eq_of_key hids hold (mem_of_findApproval hfound) (hid.trans (findApproval_id hfound).symm)
      rw [heq]
      exact .inl (cancellable_iff.mp hpending).1
  | _ => exact hsingular a ha

end

namespace Controlled

variable {w : Wiring} {s s' : State} {a : Action}

theorem not_holds (hs : Controlled s) {row : AdminApproval} (hrow : row ∈ s.tables.approvals)
    (hdecided : cancellable row = false) {i : Nat} {c : Call} (hc : s.calls[i]? = some c) :
    c.holds row.id = false := by
  by_contra hholds
  rw [Bool.not_eq_false] at hholds
  obtain ⟨actor, decision, claimed, counted, rfl, hid⟩ := Call.holds_iff.mp hholds
  obtain ⟨hclaimed, hclaim, -⟩ := hs.held _ _ _ _ _ hc
  have heq : claimed = row := Keyed.eq_of_key hs.ids hclaimed hrow hid
  obtain ⟨happroved, hcancelled, -⟩ := claimable_iff.mp hclaim
  rw [heq] at happroved hcancelled
  rw [cancellable_iff.mpr ⟨happroved, hcancelled⟩] at hdecided
  cases hdecided

theorem step_decided (hs : Controlled s) (h : step w s a = some s') {row : AdminApproval}
    (hrow : row ∈ s.tables.approvals) (hdecided : cancellable row = false) :
    row ∈ s'.tables.approvals := by
  obtain ht | ⟨i, d, c, -, hc, -, hw⟩ := step_tables h
  · rw [ht]
    exact hrow
  · exact written_keeps hw hs.ids hrow (hs.not_holds hrow hdecided hc) (.inr hdecided)

theorem step_claimed (hs : Controlled s) (h : step w s a = some s') {j : Nat} (hother : ∀ d, a ≠ .exec j d)
    {c : Call} {row : AdminApproval} (hc : s.calls[j]? = some c) (hholds : c.holds row.id = true)
    (hrow : row ∈ s.tables.approvals) : row ∈ s'.tables.approvals := by
  obtain ht | ⟨i, d, c', ha, hc', -, hw⟩ := step_tables h
  · rw [ht]
    exact hrow
  · refine written_keeps hw hs.ids hrow ?_ (.inl ?_)
    · by_contra hholds'
      rw [Bool.not_eq_false] at hholds'
      have hij : i = j := hs.apart i j c' c row.id hc' hc hholds' hholds
      rw [hij] at ha
      exact hother d ha
    · rw [State.locked, List.any_eq_true]
      exact ⟨c, List.mem_of_getElem? hc, hholds⟩

theorem step_holds_apart (hs : Controlled s) (h : step w s a = some s') {i j : Nat} {c c' : Call} {id : Id}
    (hc : s'.calls[i]? = some c) (hc' : s'.calls[j]? = some c') (hholds : c.holds id = true)
    (hholds' : c'.holds id = true) : i = j := by
  obtain ⟨actor, decision, claimed, counted, rfl, rfl⟩ := Call.holds_iff.mp hholds
  obtain ⟨actor', decision', claimed', counted', rfl, hid⟩ := Call.holds_iff.mp hholds'
  obtain ⟨hold, -⟩ | ⟨⟨d, ha⟩, -, hfree, -⟩ := step_held h hc
  · obtain ⟨hold', -⟩ | ⟨-, -, hfree, -⟩ := step_held h hc'
    · exact hs.apart i j _ _ claimed.id hold hold' hholds hholds'
    · rw [hid] at hfree
      rw [State.not_holds_of_not_locked hfree hold] at hholds
      cases hholds
  · obtain ⟨hold', -⟩ | ⟨⟨d', ha'⟩, -⟩ := step_held h hc'
    · rw [State.not_holds_of_not_locked hfree hold'] at hholds'
      cases hholds'
    · rw [ha] at ha'
      cases ha'
      rfl

theorem after_step (hs : Controlled s) (h : step w s a = some s') : Controlled s' where
  ids := by
    obtain ht | ⟨i, d, c, -, hc, -, hw⟩ := step_tables h
    · rw [ht]
      exact hs.ids
    · exact written_ids hw hs.ids
  singular := by
    obtain ht | ⟨i, d, c, -, hc, -, hw⟩ := step_tables h
    · rw [ht]
      exact hs.singular
    · refine written_singular hw hs.ids hs.singular ?_
      rintro actor decision claimed counted rfl
      obtain ⟨hmem, hclaim, -⟩ := hs.held _ _ _ _ _ hc
      exact ⟨hmem, hclaim⟩
  held := by
    intro j actor decision claimed counted hc
    obtain ⟨hold, hother⟩ | ⟨-, ht, -, hmem, hclaim, hby⟩ := step_held h hc
    · obtain ⟨hmem, hrest⟩ := hs.held _ _ _ _ _ hold
      exact ⟨hs.step_claimed h hother hold (by simp [Call.holds]) hmem, hrest⟩
    · rw [ht]
      exact ⟨hmem, hclaim, hby⟩
  apart := fun i j c c' id hc hc' hholds hholds' => hs.step_holds_apart h hc hc' hholds hholds'

end Controlled

def RoleCall.actor : RoleCall → Administrator
  | proposeRead actor _ _ _ => actor
  | proposeCount actor _ _ _ => actor
  | proposeWrite actor _ _ _ => actor
  | approveFind actor _ _ => actor
  | approveRead actor _ _ => actor
  | approveCount actor _ _ => actor
  | approveClaim actor _ _ _ => actor
  | approveApply actor _ _ _ => actor
  | cancelFind actor _ _ => actor
  | cancelWrite actor _ _ => actor

def Call.person : Call → Option MirroredUser
  | correcting _ user => some user
  | role c => some c.actor.1
  | _ => none

theorem Call.person_of_idle {c : Call} (h : c.idle = true) : c.person = none := by
  cases c with
  | correcting r user => cases h
  | role c => cases h
  | _ => rfl

section

variable {w : Wiring} {t t' : Tables} {locked : Id → Bool} {d : Draw} {c c' : Call} {u : MirroredUser}

theorem authorise_person {secondFactor : Bool} {r : Request} {user : MirroredUser}
    (h : (authorise secondFactor r user).person = some u) : u = user := by
  simp only [authorise] at h
  split at h
  · cases h
  · cases r with
    | readMine => cases h
    | requestDeletion => cases h
    | saveMine input => cases h
    | quote listingId request => cases h
    | _ =>
      simp only at h
      repeat' split at h
      all_goals
        cases h
        try rfl

theorem resolved_person {r : Resolving} {user : MirroredUser} (h : (resolved r user).person = some u) :
    u = user := by
  rw [resolved] at h
  split at h
  · exact authorise_person h
  · cases h

theorem upserted_person {r : Resolving} {user : MirroredUser} (h : (upserted r user).person = some u) :
    u = user := by
  rw [upserted] at h
  split at h
  · split at h <;> cases h
  · split at h
    · exact resolved_person h
    · cases h
      rfl

theorem nextResolving_person (h : nextResolving t d c = some (t', c')) (hp : c'.person = some u) :
    c.person = some u ∨ u ∈ t.users ∨ u ∈ t'.users := by
  have hfound (r : Resolving) (other : Call) (hnone : other.person = none)
      (hp : ((t.users.findByClerkUserId r.clerkUserId).elim other (upserted r)).person = some u) :
      u ∈ t.users := by
    cases hfind : t.users.findByClerkUserId r.clerkUserId with
    | none =>
      rw [hfind, Option.elim_none, hnone] at hp
      cases hp
    | some user =>
      rw [hfind] at hp
      rw [upserted_person hp]
      exact Users.mem_of_findByClerkUserId hfind
  cases c with
  | finding r =>
    cases h
    exact .inr (.inl (hfound r _ rfl hp))
  | refinding r =>
    cases h
    exact .inr (.inl (hfound r _ rfl hp))
  | creating r =>
    simp only [nextResolving] at h
    split at h
    · cases h
      cases hp
    · split at h
      · cases h
      · cases h
        right
        right
        rw [upserted_person hp]
        exact List.mem_append_right _ (List.mem_singleton.mpr rfl)
  | correcting r user =>
    simp only [nextResolving] at h
    split at h
    · cases h
      left
      rw [resolved_person hp]
      rfl
    · cases hfind : (t.users.setEmail user.id r.email).findById user.id with
      | none =>
        rw [hfind] at h
        cases h
        cases hp
      | some corrected =>
        rw [hfind] at h
        cases h
        right
        right
        rw [resolved_person hp]
        exact Users.mem_of_findById hfind
  | _ => cases h

theorem next_person (h : next w t locked d c = some (t', c')) (hp : c'.person = some u) :
    c.person = some u ∨ u ∈ t.users ∨ u ∈ t'.users := by
  cases next_moved h with
  | resolving c c' h => exact nextResolving_person h hp
  | returned c answer => cases hp
  | processing c externalId => cases hp
  | upserting externalId clerkUserId email => cases hp
  | deleting externalId clerkUserId => cases hp
  | erasingEvent externalId clerkUserId user hfind => cases hp
  | erasingRequest userId user hfind => cases hp
  | toListings user cause => cases hp
  | toQuotes user cause => cases hp
  | toActivity user cause => cases hp
  | toTombstone user cause => cases hp
  | saving userId input => cases hp
  | quoting userId listingId request row hrow => cases hp
  | suspendCounting actor userId reason target => cases hp
  | suspendUncounted actor userId reason target hfind hkeeps => cases hp
  | suspendCounted actor target reason hcount => cases hp
  | reinstating actor userId reason target => cases hp
  | _ => exact .inl hp

end

/-- A row was in the table at some point of the run. -/
def WasThere (w : Wiring) (s₀ : State) (as : List Action) (u : MirroredUser) : Prop :=
  ∃ pre post s, as = pre ++ post ∧ run (step w) s₀ pre = some s ∧ u ∈ s.tables.users

/-- Somebody was an administrator then, and not suspended. -/
def WasAdministrator (w : Wiring) (s₀ : State) (as : List Action) (id : Id) : Prop :=
  ∃ u, WasThere w s₀ as u ∧ u.id = id ∧ u.role = .admin ∧ u.suspension = none

theorem WasThere.longer {w : Wiring} {s₀ : State} {as : List Action} {u : MirroredUser}
    (h : WasThere w s₀ as u) (a : Action) : WasThere w s₀ (as ++ [a]) u := by
  obtain ⟨pre, post, s, rfl, hrun, hu⟩ := h
  exact ⟨pre, post ++ [a], s, List.append_assoc _ _ _, hrun, hu⟩

theorem wasThere_now {w : Wiring} {s₀ s : State} {as : List Action} {u : MirroredUser}
    (hr : run (step w) s₀ as = some s) (hu : u ∈ s.tables.users) : WasThere w s₀ as u :=
  ⟨as, [], s, (List.append_nil as).symm, hr, hu⟩

theorem run_person {w : Wiring} {s₀ s : State} {as : List Action} (hidle : s₀.calls = [])
    (hr : run (step w) s₀ as = some s) :
    ∀ (i : Nat) (c : Call) (u : MirroredUser), s.calls[i]? = some c → c.person = some u →
      WasThere w s₀ as u := by
  refine run_induction (P := fun as s => ∀ (i : Nat) (c : Call) (u : MirroredUser),
    s.calls[i]? = some c → c.person = some u → WasThere w s₀ as u) ?_ ?_ hr
  · intro i c u hc
    rw [hidle] at hc
    cases hc
  · intro as s a s' hr ih h i c u hc hp
    have hr' : run (step w) s₀ (as ++ [a]) = some s' :=
      run_append_eq_some.mpr ⟨s, hr, run_cons_eq_some.mpr ⟨s', h, rfl⟩⟩
    obtain ⟨hold, -⟩ | ⟨-, hidle⟩ | ⟨d, c₀, -, hc₀, hnext⟩ := step_call h hc
    · exact (ih i c u hold hp).longer a
    · rw [Call.person_of_idle hidle] at hp
      cases hp
    · obtain hp₀ | hu | hu := next_person hnext hp
      · exact (ih i c₀ u hc₀ hp₀).longer a
      · exact (wasThere_now hr hu).longer a
      · exact wasThere_now hr' hu

/-- The calls of `RoleApprovalService.approve`. -/
def RoleCall.approves : RoleCall → Bool
  | approveFind _ _ _ => true
  | approveRead _ _ _ => true
  | approveCount _ _ _ => true
  | approveClaim _ _ _ _ => true
  | approveApply _ _ _ _ => true
  | _ => false

section

variable {w : Wiring} {s s' : State}

theorem approve_refused {i : Nat} {d : Draw} {c : RoleCall} (hc : s.calls[i]? = some (.role c))
    (happroves : c.approves = true) (h : step w s (.exec i d) = some s')
    (hrefused : ∀ approval, s'.calls[i]? ≠ some (.returned (.approved approval))) :
    s'.tables = s.tables := by
  cases step_cases h with
  | failed i d c hc hopen hfails => rfl
  | advanced i d c' t c'' hc' hopen hfails hnext =>
    rw [hc] at hc'
    cases hc'
    cases c with
    | approveApply actor decision claimed counted =>
      simp only [next, nextRole] at hnext
      split at hnext
      · cases hnext
        rfl
      · obtain ⟨-, happroved⟩ := Prod.mk.inj (Option.some.inj hnext)
        refine absurd ?_ (hrefused { claimed with approved := some decision })
        rw [List.getElem?_set_self', hc, happroved]
        rfl
    | _ =>
      cases next_tables hnext with
      | inl ht => exact ht
      | inr hw => cases hw <;> cases happroves

theorem Applied.unique {t t' : Tables} (hids : (t.approvals.map (·.id)).Nodup) {row row' : AdminApproval}
    {decision decision' : Decision} (h : Applied t t' row decision) (h' : Applied t t' row' decision') :
    row = row' ∧ decision = decision' := by
  have hmem : { row with approved := some decision } ∈ t'.approvals := by
    rw [h.tables]
    exact mem_updateApproval_self h.mem rfl
  rw [h'.tables] at hmem
  obtain ⟨hold, -⟩ | ⟨old, hold, hid, heq⟩ := mem_updateApproval hmem
  · have hrow : { row with approved := some decision } = row := Keyed.eq_of_key hids hold h.mem rfl
    have happroved := congrArg AdminApproval.approved hrow
    rw [h.pending.1] at happroved
    cases happroved
  · obtain ⟨hrow, -, -, -, -, -, happroved, -⟩ := AdminApproval.mk.inj heq
    exact ⟨Keyed.eq_of_key hids h.mem h'.mem (hrow.trans hid), Option.some.inj happroved⟩

theorem Controlled.role_changed (hs : Controlled s) {a : Action} (h : step w s a = some s') {id : Id}
    {r : UserRole} (hr : s.tables.users.roleOf id = some r) (hchanged : s'.tables.users.roleOf id ≠ some r) :
    ∃ (i : Nat) (actor : Administrator) (decision : Decision) (claimed : AdminApproval)
      (counted : Option Nat), s.calls[i]? = some (.role (.approveApply actor decision claimed counted)) ∧
      Applied s.tables s'.tables claimed decision ∧ claimed.userId = id ∧ decision.byId = actor.1.id := by
  obtain ht | ⟨i, d, c, -, hc, -, hw⟩ := step_tables h
  · rw [ht] at hchanged
    exact absurd hr hchanged
  · obtain hsame | ⟨actor, decision, claimed, counted, rfl, hid, ht⟩ := written_roleOf hw hr
    · exact absurd hsame hchanged
    · obtain ⟨hmem, hclaim, hby⟩ := hs.held _ _ _ _ _ hc
      obtain ⟨happroved, hcancelled, hbefore, hother⟩ := claimable_iff.mp hclaim
      exact ⟨i, actor, decision, claimed, counted, hc,
        ⟨hmem, ⟨happroved, hcancelled⟩, hbefore, Ne.symm hother, ht⟩, hid, hby⟩

theorem Controlled.after_run {as : List Action} (hs : Controlled s) (hr : run (step w) s as = some s') :
    Controlled s' :=
  run_preserves (fun _ _ _ hs h => hs.after_step h) hr hs

theorem Controlled.run_decided {as : List Action} (hs : Controlled s) (hr : run (step w) s as = some s')
    {row : AdminApproval} (hrow : row ∈ s.tables.approvals) (hdecided : cancellable row = false) :
    row ∈ s'.tables.approvals := by
  have hkept : Controlled s' ∧ row ∈ s'.tables.approvals :=
    run_preserves (P := fun s => Controlled s ∧ row ∈ s.tables.approvals)
      (fun _ _ _ hs h => ⟨hs.1.after_step h, hs.1.step_decided h hs.2 hdecided⟩) hr ⟨hs, hrow⟩
  exact hkept.2

/-- Dual control. In every run, a role changes only as the effect of the one
proposal that is approved with it: pending until then, approved in time, and by
an administrator other than the one who made it. From then on the proposal
stays as it is and is not applied again, and an approval that is not granted
has written nothing. -/
theorem roles_change_under_dual_control (w : Wiring) {s₀ s : State} {as : List Action} (hstart : Start s₀)
    (hr : run (step w) s₀ as = some s) :
    (∀ a s' id r, step w s a = some s' → s.tables.users.roleOf id = some r →
      s'.tables.users.roleOf id ≠ some r →
        ∃! p : AdminApproval × Decision, Applied s.tables s'.tables p.1 p.2 ∧ p.1.userId = id ∧
          s'.tables.users.roleOf id = some p.1.role ∧ WasAdministrator w s₀ as p.2.byId) ∧
    (∀ row ∈ s.tables.approvals, row.approved ≠ none → row.cancelled = none ∧
      ∀ bs s', run (step w) s bs = some s' → row ∈ s'.tables.approvals ∧
        ∀ a s'' other decision, step w s' a = some s'' →
          Applied s'.tables s''.tables other decision → other.id ≠ row.id) ∧
    (∀ i d c s', s.calls[i]? = some (.role c) → c.approves = true → step w s (.exec i d) = some s' →
      (∀ approval, s'.calls[i]? ≠ some (.returned (.approved approval))) → s'.tables = s.tables) := by
  have hs : Controlled s := hstart.controlled.after_run hr
  refine ⟨?_, ?_, ?_⟩
  · intro a s' id r h hrole hchanged
    obtain ⟨i, actor, decision, claimed, counted, hc, happlied, hid, hby⟩ := hs.role_changed h hrole hchanged
    refine ⟨(claimed, decision), ⟨happlied, hid, ?_, actor.1, ?_, hby.symm, actor.2⟩, ?_⟩
    · rw [happlied.tables]
      subst hid
      exact Users.roleOf_setRole_self hrole
    · exact run_person hstart.idle hr i _ actor.1 hc rfl
    · intro p hp
      obtain ⟨hrow, hdecision⟩ := hp.1.unique hs.ids happlied
      exact Prod.ext hrow hdecision
  · intro row hrow happroved
    have hdecided : cancellable row = false := by
      rw [← Bool.not_eq_true, cancellable_iff]
      exact fun h => happroved h.1
    refine ⟨(hs.singular row hrow).resolve_left happroved, ?_⟩
    intro bs s' hr'
    have hkept := hs.run_decided hr' hrow hdecided
    refine ⟨hkept, ?_⟩
    intro a s'' other decision h happlied hid
    rw [Keyed.eq_of_key (hs.after_run hr').ids happlied.mem hkept hid] at happlied
    exact happroved happlied.pending.1
  · intro i d c s' hc happroves h hrefused
    exact approve_refused hc happroves h hrefused

end

def promotion : List Action :=
  [asks "ada" (.proposeRoleChange "cat" .admin "cover"), runs 0 0 "x", runs 0 0 "x", runs 0 0 "p1",
    asks "ben" (.approve "p1" "agreed"), runs 1 5 "x", runs 1 5 "x", runs 1 5 "x", runs 1 5 "x"]

def promotionStart : State :=
  sampleStart [sampleAccount "ada" .admin, sampleAccount "ben" .admin, sampleAccount "cat" .user]

theorem cat_is_promoted_under_dual_control :
    ∃ s s', run (step sampleWiring) promotionStart promotion = some s ∧
      step sampleWiring s (runs 1 5 "x") = some s' ∧ s.tables.users.roleOf "cat" = some .user ∧
      s'.tables.users.roleOf "cat" = some .admin ∧
      ∃! p : AdminApproval × Decision, Applied s.tables s'.tables p.1 p.2 ∧ p.1.userId = "cat" ∧
        s'.tables.users.roleOf "cat" = some p.1.role ∧
        WasAdministrator sampleWiring promotionStart promotion p.2.byId := by
  have hrun : (run (step sampleWiring) promotionStart promotion).bind (fun s =>
      (step sampleWiring s (runs 1 5 "x")).map (fun s' =>
        (s.tables.users.roleOf "cat", s'.tables.users.roleOf "cat"))) = some (some .user, some .admin) := by
    decide +kernel
  obtain ⟨s, hr, hrun⟩ := Option.bind_eq_some_iff.mp hrun
  obtain ⟨s', h, hroles⟩ := Option.map_eq_some_iff.mp hrun
  obtain ⟨hbefore, hafter⟩ := Prod.mk.inj hroles
  have hstart : Start promotionStart := ⟨rfl, by decide, by decide⟩
  refine ⟨s, s', hr, h, hbefore, hafter, ?_⟩
  refine (roles_change_under_dual_control sampleWiring hstart hr).1 _ s' "cat" .user h hbefore ?_
  rw [hafter]
  decide

end RentalMarket.Identity
