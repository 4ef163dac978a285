import RentalMarket.Identity.Administrators

namespace RentalMarket.Identity

open RentalMarket.Core RentalMarket.Booking Runs

/-- Requests arrive one at a time. -/
def inTurn (s : State) : Action → Bool
  | .exec _ _ => true
  | _ => s.calls.all Call.isReturned

/-- A deletion that is carried out leaves another administrator, or takes
none. -/
def deletionSpares (s : State) : Action → Bool
  | .exec i d =>
    match s.calls[i]? with
    | some (.erasing .tombstone user _) =>
      d.fails || s.tables.users.emailTaken user.id (tombstoneEmail user.id) || s.tables.users.spared user.id
    | _ => true
  | _ => true

def Call.Settled (t : Tables) : Call → Prop
  | role (.approveRead _ proposal _) => findApproval t.approvals proposal.id = some proposal
  | role (.approveCount _ proposal _) => findApproval t.approvals proposal.id = some proposal
  | role (.approveClaim _ proposal _ _) => findApproval t.approvals proposal.id = some proposal ∧
      (proposal.role ≠ .admin → t.users.spared proposal.userId = true)
  | role (.approveApply _ _ claimed _) => claimed.role ≠ .admin → t.users.spared claimed.userId = true
  | suspension (.write _ target _ _) => t.users.spared target.id = true
  | _ => True

/-- What holds between any two statements of a run that takes its requests one
at a time. -/
structure Orderly (s : State) : Prop where
  ids : (s.tables.users.map (·.id)).Nodup
  one : 0 < s.tables.users.countAdministrators
  last : ∀ (i : Nat) (c : Call), s.calls[i]? = some c → c.isReturned = false → i + 1 = s.calls.length
  settled : ∀ (i : Nat) (c : Call), s.calls[i]? = some c → c.Settled s.tables

section

variable {w : Wiring} {t t' : Tables} {locked : Id → Bool} {d : Draw} {c c' : Call}

theorem settled_of_entry (h : c.entry = true) : c.Settled t := by
  cases c with
  | suspension c => cases c <;> trivial
  | role c => cases c <;> trivial
  | _ => trivial

theorem settled_of_returned (h : c.isReturned = true) : c.Settled t := by
  cases c with
  | returned answer => trivial
  | _ => cases h

theorem settled_of_idle (h : c.idle = true) : c.Settled t := by
  cases c with
  | suspension c => cases h
  | role c => cases h
  | _ => trivial

theorem spared_of_keeps (hids : (t.users.map (·.id)).Nodup) {id : Id} {target : MirroredUser}
    {becoming : Option UserRole} (hfind : t.users.findById id = some target)
    (hkeeps : removesAdministrator target becoming = false) (hbecoming : becoming ≠ some .admin) :
    t.users.spared id = true := by
  rw [Users.spared, Bool.or_eq_true]
  right
  apply Users.powerless_of_role hids hfind
  intro hrole
  simp [removesAdministrator, hrole, hbecoming] at hkeeps

/-- A statement finds what its call then acts on, and what was found before is
still so. -/
theorem next_settled (hids : (t.users.map (·.id)).Nodup) (h : next w t locked d c = some (t', c'))
    (hc : c.Settled t) : c'.Settled t' := by
  have htables := next_tables h
  cases next_moved h with
  | resolving c c' h => exact settled_of_entry (nextResolving_entry h)
  | approving actor approvalId reason proposal hfind =>
    obtain rfl | hw := htables
    · show findApproval _ _ = _
      rw [findApproval_id hfind]
      exact hfind
    · cases hw
  | approveCounting actor proposal reason =>
    obtain rfl | hw := htables
    · exact hc
    · cases hw
  | approveUncounted actor proposal reason target hfind hkeeps =>
    obtain rfl | hw := htables
    · refine ⟨hc, fun hrole => spared_of_keeps hids hfind hkeeps ?_⟩
      simpa using hrole
    · cases hw
  | approveCounted actor proposal reason hcount =>
    obtain rfl | hw := htables
    · refine ⟨hc, fun _ => ?_⟩
      rw [Users.spared, decide_eq_true hcount, Bool.true_or]
    · cases hw
  | claiming actor proposal claimed reason counted hlock hfind hclaim =>
    obtain rfl | hw := htables
    · rw [hc.1] at hfind
      cases hfind
      exact hc.2
    · cases hw
  | suspendUncounted actor userId reason target hfind hkeeps =>
    obtain rfl | hw := htables
    · show Users.spared _ _ = _
      rw [Users.findById_id hfind]
      exact spared_of_keeps hids hfind hkeeps (Option.some_ne_none _).symm
    · cases hw
  | suspendCounted actor target reason hcount =>
    obtain rfl | hw := htables
    · show Users.spared _ _ = _
      rw [Users.spared, decide_eq_true hcount, Bool.true_or]
    · cases hw
  | _ => trivial

end

theorem Staffed.orderly {s : State} (h : Staffed s) : Orderly s := by
  refine ⟨h.ids, h.one, ?_, ?_⟩
  · intro i c hc
    rw [h.idle] at hc
    cases hc
  · intro i c hc
    rw [h.idle] at hc
    cases hc

section

variable {w : Wiring} {s s' : State} {a : Action}

namespace Orderly

theorem settled_of_other (hs : Orderly s) {t : Tables} {i j : Nat} {c c' : Call} (hc : s.calls[i]? = some c)
    (hopen : c.isReturned = false) (hc' : s.calls[j]? = some c') (hij : i ≠ j) : c'.Settled t := by
  apply settled_of_returned
  by_contra hrunning
  rw [Bool.not_eq_true] at hrunning
  have hi := hs.last i c hc hopen
  have hj := hs.last j c' hc' hrunning
  omega

theorem step_last (hs : Orderly s) (h : step w s a = some s') (hturn : inTurn s a = true) :
    ∀ (i : Nat) (c : Call), s'.calls[i]? = some c → c.isReturned = false → i + 1 = s'.calls.length := by
  intro i c hc hopen
  have happend (new : Call) (hturn : s.calls.all Call.isReturned = true)
      (hc : (s.calls ++ [new])[i]? = some c) : i + 1 = (s.calls ++ [new]).length := by
    obtain ⟨hlt, -⟩ := List.getElem?_eq_some_iff.mp hc
    rw [List.length_append, List.length_singleton] at hlt ⊢
    rw [List.getElem?_append] at hc
    split at hc
    · rw [List.all_eq_true.mp hturn c (List.mem_of_getElem? hc)] at hopen
      cases hopen
    · omega
  have hset (j : Nat) (c₀ new : Call) (hc₀ : s.calls[j]? = some c₀) (hopen₀ : c₀.isReturned = false)
      (hc : (s.calls.set j new)[i]? = some c) : i + 1 = (s.calls.set j new).length := by
    rw [List.length_set]
    by_cases hij : j = i
    · rw [← hij]
      exact hs.last j c₀ hc₀ hopen₀
    · rw [List.getElem?_set_ne hij] at hc
      exact hs.last i c hc hopen
  cases step_cases h with
  | asked clerkUserId email secondFactor r => exact happend _ hturn hc
  | told externalId event => exact happend _ hturn hc
  | failed j d c₀ hc₀ hopen₀ hfails => exact hset j c₀ _ hc₀ hopen₀ hc
  | advanced j d c₀ t c' hc₀ hopen₀ hfails hnext => exact hset j c₀ c' hc₀ hopen₀ hc

theorem step_settled (hs : Orderly s) (h : step w s a = some s') :
    ∀ (i : Nat) (c : Call), s'.calls[i]? = some c → c.Settled s'.tables := by
  intro i c hc
  obtain ⟨hold, hother⟩ | ⟨-, hidle⟩ | ⟨d, c₀, -, hc₀, hnext⟩ := step_call h hc
  · obtain ht | ⟨j, d, c₀, ha, hc₀, hfails, hw⟩ := step_tables h
    · rw [ht]
      exact hs.settled i c hold
    · refine hs.settled_of_other hc₀ (written_open hw) hold ?_
      intro hij
      rw [hij] at ha
      exact hother d ha
  · exact settled_of_idle hidle
  · exact next_settled hs.ids hnext (hs.settled i c₀ hc₀)

theorem spared (hs : Orderly s) {i : Nat} {d : Draw} {c : Call} {t' : Tables} {id : Id}
    (hspares : deletionSpares s (.exec i d) = true) (hc : s.calls[i]? = some c) (hfails : d.fails = false)
    (hw : Written w s.tables s.locked d c t') (hid : c.removes = some id) :
    s.tables.users.spared id = true := by
  have hsettled := hs.settled i c hc
  cases hw with
  | suspended actor target reason counted =>
    cases hid
    exact hsettled
  | tombstoned user cause hfree =>
    cases hid
    simpa only [deletionSpares, hc, hfails, hfree, Bool.false_or] using hspares
  | applied actor decision claimed counted =>
    simp only [Call.removes] at hid
    split at hid
    · cases hid
    · rename_i hrole
      cases hid
      exact hsettled hrole
  | _ => cases hid

theorem after_step (hs : Orderly s) (h : step w s a = some s') (hturn : inTurn s a = true)
    (hspares : deletionSpares s a = true) : Orderly s' where
  ids := step_user_ids h hs.ids
  one := by
    obtain ht | ⟨i, d, c, rfl, hc, hfails, hw⟩ := step_tables h
    · rw [ht]
      exact hs.one
    · exact written_count hw hs.ids hs.one (fun id hid => hs.spared hspares hc hfails hw hid)
  last := hs.step_last h hturn
  settled := hs.step_settled h

end Orderly

theorem step_of_not_spares (h : step w s a = some s') (hspares : deletionSpares s a = false) :
    s'.tables.users.countAdministrators = 0 := by
  cases step_cases h with
  | asked clerkUserId email secondFactor r => cases hspares
  | told externalId event => cases hspares
  | failed i d c hc hopen hfails =>
    simp only [deletionSpares] at hspares
    split at hspares
    · rw [hfails, Bool.true_or, Bool.true_or] at hspares
      cases hspares
    · cases hspares
  | advanced i d c t c' hc hopen hfails hnext =>
    simp only [deletionSpares] at hspares
    split at hspares
    · rename_i user cause hc'
      rw [hc] at hc'
      cases hc'
      rw [hfails, Bool.false_or, Bool.or_eq_false_iff] at hspares
      obtain ⟨hfree, hspared⟩ := hspares
      simp only [next, nextErasing, hfree, Bool.false_eq_true, if_false] at hnext
      cases hnext
      apply Users.count_update_of_not_spared hspared
      intro u
      simp [MirroredUser.usable]
    · cases hspares

end

/-- In every run that takes its requests one at a time, an administrator
remains after every step exactly when no deletion is of the last one. -/
theorem administrators_remain_iff_deletions_spare (w : Wiring) {s₀ s : State} {as : List Action}
    (hstart : Staffed s₀) (hr : run (step w) s₀ as = some s)
    (hturn : Meets (step w) (fun s a => inTurn s a = true) s₀ as) :
    (∀ pre post t, as = pre ++ post → run (step w) s₀ pre = some t →
      ∃ u ∈ t.tables.users, u.role = .admin ∧ u.deletedAt = none ∧ u.suspension = none) ↔
        Meets (step w) (fun s a => deletionSpares s a = true) s₀ as := by
  constructor
  · intro hremain
    refine meets_iff.mpr (fun pre a post t hcut hpre => ?_)
    by_contra hspares
    rw [Bool.not_eq_true] at hspares
    rw [hcut] at hr
    obtain ⟨t', ht, hr⟩ := run_append_eq_some.mp hr
    rw [hpre] at ht
    cases ht
    obtain ⟨u, hu, -⟩ := run_cons_eq_some.mp hr
    have hnext : run (step w) s₀ (pre ++ [a]) = some u :=
      run_append_eq_some.mpr ⟨t, hpre, run_cons_eq_some.mpr ⟨u, hu, rfl⟩⟩
    have hone := hremain (pre ++ [a]) post u (by rw [hcut, List.append_assoc, List.singleton_append]) hnext
    rw [← Users.count_pos_iff, step_of_not_spares hu hspares] at hone
    exact Nat.lt_irrefl 0 hone
  · intro hspares pre post t hcut hpre
    subst hcut
    have ht : Orderly t :=
      run_preserves_of_meets (fun _ _ _ hs hc h => hs.after_step h hc.1 hc.2) hpre
        (meets_and (meets_left hturn) (meets_left hspares)) hstart.orderly
    exact Users.count_pos_iff.mp ht.one

def deletes (id : Id) : Action := asks id .requestDeletion

def lastDeletion : List Action := deletes "ada" :: List.replicate 8 (runs 0 0 "x")

theorem an_administrator_remains_after_deletion :
    ∃ s, run (step sampleWiring) twoAdministrators lastDeletion = some s ∧
      ∀ pre post t, lastDeletion = pre ++ post → run (step sampleWiring) twoAdministrators pre = some t →
        ∃ u ∈ t.tables.users, u.role = .admin ∧ u.deletedAt = none ∧ u.suspension = none := by
  have hrun : ((run (step sampleWiring) twoAdministrators lastDeletion).isSome) = true := by decide +kernel
  obtain ⟨s, hr⟩ := Option.isSome_iff_exists.mp hrun
  have hstart : Staffed twoAdministrators := ⟨rfl, by decide, by decide⟩
  exact ⟨s, hr, (administrators_remain_iff_deletions_spare sampleWiring hstart hr (by decide +kernel)).mpr
    (by decide +kernel)⟩

def oneAdministrator : State := sampleStart [sampleAccount "ada" .admin, sampleAccount "cat" .user]

theorem the_last_administrator_is_deleted :
    Staffed oneAdministrator ∧
      Meets (step sampleWiring) (fun s a => inTurn s a = true) oneAdministrator lastDeletion ∧
      ∃ s, run (step sampleWiring) oneAdministrator lastDeletion = some s ∧
        ¬∃ u ∈ s.tables.users, u.role = .admin ∧ u.deletedAt = none ∧ u.suspension = none := by
  have hrun : (run (step sampleWiring) oneAdministrator lastDeletion).map (fun s =>
      s.tables.users.countAdministrators) = some 0 := by decide +kernel
  obtain ⟨s, hr, hnone⟩ := Option.map_eq_some_iff.mp hrun
  refine ⟨⟨rfl, by decide, by decide⟩, by decide +kernel, s, hr, ?_⟩
  rw [← Users.count_pos_iff, hnone]
  exact Nat.lt_irrefl 0

end RentalMarket.Identity
