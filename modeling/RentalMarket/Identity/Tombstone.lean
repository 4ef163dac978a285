import RentalMarket.Identity.Statements

namespace RentalMarket.Identity

open RentalMarket.Core RentalMarket.Booking Runs

/-- A deleted account's row holds the address of its tombstone. -/
def MirroredUser.Erased (u : MirroredUser) : Prop := u.deletedAt ≠ none → u.email = tombstoneEmail u.id

/-- A correction that is written does not reach a row deleted since it was
read, with another address than the tombstone's. -/
def correctionSpares (s : State) : Action → Bool
  | .exec i d =>
    match s.calls[i]? with
    | some (.correcting r user) => d.fails || s.tables.users.emailTaken user.id r.email ||
        s.tables.users.all (fun u =>
          decide (u.id ≠ user.id) || u.deletedAt.isNone || decide (r.email = tombstoneEmail u.id))
    | _ => true
  | _ => true

section

variable {w : Wiring} {t t' : Tables} {locked : Id → Bool} {d : Draw} {c : Call}

theorem written_erased (hw : Written w t locked d c t') (herased : ∀ u ∈ t.users, u.Erased)
    (hspares : ∀ r user, c = .correcting r user → ∀ u ∈ t.users, u.id = user.id → u.deletedAt ≠ none →
      r.email = tombstoneEmail u.id) : ∀ u ∈ t'.users, u.Erased := by
  intro u hu
  cases hw with
  | created r hid hclerk =>
    cases List.mem_append.mp hu with
    | inl hold => exact herased u hold
    | inr hnew =>
      rw [List.mem_singleton.mp hnew]
      exact fun hdeleted => absurd rfl hdeleted
  | corrected r user hfree =>
    obtain ⟨hold, -⟩ | ⟨old, hold, hid, rfl⟩ := Users.mem_update hu
    · exact herased u hold
    · exact hspares r user rfl old hold hid
  | applied actor decision claimed counted =>
    obtain ⟨hold, -⟩ | ⟨old, hold, -, rfl⟩ := Users.mem_update hu
    · exact herased u hold
    · exact herased old hold
  | suspended actor target reason counted =>
    obtain ⟨hold, -⟩ | ⟨old, hold, -, rfl⟩ := Users.mem_update hu
    · exact herased u hold
    · exact herased old hold
  | reinstated actor target reason =>
    obtain ⟨hold, -⟩ | ⟨old, hold, -, rfl⟩ := Users.mem_update hu
    · exact herased u hold
    · exact herased old hold
  | tombstoned user cause hfree =>
    obtain ⟨hold, -⟩ | ⟨old, hold, hid, rfl⟩ := Users.mem_update hu
    · exact herased u hold
    · intro _
      simp only
      rw [hid]
  | _ => exact herased u hu

/-- No statement clears `deletedAt`. -/
theorem written_deleted (hw : Written w t locked d c t') {id : Id} {u : MirroredUser}
    (hu : t.users.findById id = some u) (hdeleted : u.deletedAt ≠ none) :
    ∃ u', t'.users.findById id = some u' ∧ u'.deletedAt ≠ none := by
  have hupdate (k : Id) (change : MirroredUser → MirroredUser) (hid : ∀ u, (change u).id = u.id)
      (hkeeps : (change u).deletedAt ≠ none) :
      ∃ u', (t.users.update k change).findById id = some u' ∧ u'.deletedAt ≠ none := by
    rw [Users.findById_update hid, hu]
    by_cases hk : u.id = k
    · exact ⟨change u, by rw [Option.map_some, if_pos hk], hkeeps⟩
    · exact ⟨u, by rw [Option.map_some, if_neg hk], hdeleted⟩
  cases hw with
  | created r hid hclerk => exact ⟨u, Users.findById_append hu, hdeleted⟩
  | corrected r user hfree => exact hupdate _ _ (fun _ => rfl) hdeleted
  | applied actor decision claimed counted => exact hupdate _ _ (fun _ => rfl) hdeleted
  | suspended actor target reason counted => exact hupdate _ _ (fun _ => rfl) hdeleted
  | reinstated actor target reason => exact hupdate _ _ (fun _ => rfl) hdeleted
  | tombstoned user cause hfree => exact hupdate _ _ (fun _ => rfl) nofun
  | _ => exact ⟨u, hu, hdeleted⟩

end

section

variable {w : Wiring} {s s' : State} {a : Action}

theorem correctionSpares_iff {i : Nat} {d : Draw} {r : Resolving} {user : MirroredUser}
    (hc : s.calls[i]? = some (.correcting r user)) (hfails : d.fails = false)
    (hfree : s.tables.users.emailTaken user.id r.email = false) :
    correctionSpares s (.exec i d) = true ↔
      ∀ u ∈ s.tables.users, u.id = user.id → u.deletedAt ≠ none → r.email = tombstoneEmail u.id := by
  simp only [correctionSpares, hc, hfails, hfree, Bool.false_or, List.all_eq_true, Bool.or_eq_true,
    decide_eq_true_eq, Option.isNone_iff_eq_none]
  constructor
  · intro h u hu hid hdeleted
    obtain (hother | hlive) | htombstone := h u hu
    · exact absurd hid hother
    · exact absurd hlive hdeleted
    · exact htombstone
  · intro h u hu
    by_cases hid : u.id = user.id
    · by_cases hlive : u.deletedAt = none
      · exact .inl (.inr hlive)
      · exact .inr (h u hu hid hlive)
    · exact .inl (.inl hid)

theorem step_erased (h : step w s a = some s') (herased : ∀ u ∈ s.tables.users, u.Erased)
    (hspares : correctionSpares s a = true) : ∀ u ∈ s'.tables.users, u.Erased := by
  obtain ht | ⟨i, d, c, rfl, hc, hfails, hw⟩ := step_tables h
  · rw [ht]
    exact herased
  · refine written_erased hw herased ?_
    rintro r user rfl
    exact (correctionSpares_iff hc hfails (written_correcting hw)).mp hspares

theorem step_deleted (h : step w s a = some s') {id : Id} {u : MirroredUser}
    (hu : s.tables.users.findById id = some u) (hdeleted : u.deletedAt ≠ none) :
    ∃ u', s'.tables.users.findById id = some u' ∧ u'.deletedAt ≠ none := by
  obtain ht | ⟨i, d, c, -, -, -, hw⟩ := step_tables h
  · rw [ht]
    exact ⟨u, hu, hdeleted⟩
  · exact written_deleted hw hu hdeleted

/-- A correction that does reach such a row undoes its erasure. -/
theorem step_of_not_correctionSpares (h : step w s a = some s') (hspares : correctionSpares s a = false) :
    ∃ u ∈ s'.tables.users, ¬u.Erased := by
  cases step_cases h with
  | asked clerkUserId email secondFactor r => cases hspares
  | told externalId event => cases hspares
  | failed i d c hc hopen hfails =>
    simp only [correctionSpares] at hspares
    split at hspares
    · rw [hfails, Bool.true_or, Bool.true_or] at hspares
      cases hspares
    · cases hspares
  | advanced i d c t c' hc hopen hfails hnext =>
    have hcorrecting : ∃ r user, c = .correcting r user := by
      simp only [correctionSpares] at hspares
      split at hspares
      · rename_i r user hc'
        rw [hc] at hc'
        exact ⟨r, user, Option.some.inj hc'⟩
      · cases hspares
    obtain ⟨r, user, rfl⟩ := hcorrecting
    have hfree : s.tables.users.emailTaken user.id r.email = false := by
      by_contra htaken
      rw [Bool.not_eq_false] at htaken
      simp [correctionSpares, hc, htaken] at hspares
    rw [← Bool.not_eq_true, correctionSpares_iff hc hfails hfree] at hspares
    push Not at hspares
    obtain ⟨u, hu, hid, hdeleted, hother⟩ := hspares
    have hmem : { u with email := r.email } ∈ s.tables.users.setEmail user.id r.email :=
      Users.mem_update_self hu hid
    simp only [next, nextResolving, hfree, Bool.false_eq_true, if_false] at hnext
    cases hfind : (s.tables.users.setEmail user.id r.email).findById user.id with
    | none => exact absurd hid (by simpa using List.find?_eq_none.mp hfind _ hmem)
    | some corrected =>
      rw [hfind] at hnext
      cases hnext
      exact ⟨_, hmem, fun herased => hother (herased hdeleted)⟩

end

/-- Erasure is final, in a run, exactly when every correction spares the rows
that were deleted since it read them. `deletedAt` itself is never cleared. -/
theorem erasure_final_iff_corrections_spare (w : Wiring) {s₀ s : State} {as : List Action}
    (hstart : ∀ u ∈ s₀.tables.users, u.Erased) (hr : run (step w) s₀ as = some s) :
    ((∀ pre post t, as = pre ++ post → run (step w) s₀ pre = some t →
      ∀ u ∈ t.tables.users, u.deletedAt ≠ none → u.email = tombstoneEmail u.id) ↔
        Meets (step w) (fun s a => correctionSpares s a = true) s₀ as) ∧
    (∀ pre post t id u, as = pre ++ post → run (step w) s₀ pre = some t →
      t.tables.users.findById id = some u → u.deletedAt ≠ none →
        ∃ u', s.tables.users.findById id = some u' ∧ u'.deletedAt ≠ none) := by
  refine ⟨⟨?_, ?_⟩, ?_⟩
  · intro hfinal
    refine meets_iff.mpr (fun pre a post t hcut hpre => ?_)
    by_contra hspares
    rw [Bool.not_eq_true] at hspares
    rw [hcut] at hr
    obtain ⟨t', ht, hr⟩ := run_append_eq_some.mp hr
    rw [hpre] at ht
    cases ht
    obtain ⟨v, hv, -⟩ := run_cons_eq_some.mp hr
    obtain ⟨u, hu, hundone⟩ := step_of_not_correctionSpares hv hspares
    refine hundone (hfinal (pre ++ [a]) post v ?_ ?_ u hu)
    · rw [hcut, List.append_assoc, List.singleton_append]
    · exact run_append_eq_some.mpr ⟨t, hpre, run_cons_eq_some.mpr ⟨v, hv, rfl⟩⟩
  · intro hspares pre post t hcut hpre
    subst hcut
    exact run_preserves_of_meets (fun _ _ _ hs hc h => step_erased h hs hc) hpre (meets_left hspares) hstart
  · intro pre post t id u hcut hpre hu hdeleted
    rw [hcut] at hr
    obtain ⟨t', ht, hr⟩ := run_append_eq_some.mp hr
    rw [hpre] at ht
    cases ht
    exact run_preserves (P := fun s => ∃ u, s.tables.users.findById id = some u ∧ u.deletedAt ≠ none)
      (fun _ _ _ ⟨_, hu, hdeleted⟩ h => step_deleted h hu hdeleted) hr ⟨u, hu, hdeleted⟩

def oneAccount : State := sampleStart [sampleAccount "cat" .user]

theorem oneAccount_erased : ∀ u ∈ oneAccount.tables.users, u.Erased := by
  intro u hu hdeleted
  rw [List.mem_singleton.mp hu] at hdeleted
  exact absurd rfl hdeleted

def orderedDeliveries : List Action :=
  .event "e1" (.upserted "clerk-cat" "new@example.com") :: List.replicate 4 (runs 0 0 "x") ++
    .event "e2" (.deleted "clerk-cat") :: List.replicate 9 (runs 1 0 "x")

theorem an_erasure_in_order_is_final :
    ∃ s, run (step sampleWiring) oneAccount orderedDeliveries = some s ∧
      ∀ pre post t, orderedDeliveries = pre ++ post → run (step sampleWiring) oneAccount pre = some t →
        ∀ u ∈ t.tables.users, u.deletedAt ≠ none → u.email = tombstoneEmail u.id := by
  have hrun : (run (step sampleWiring) oneAccount orderedDeliveries).isSome = true := by decide +kernel
  obtain ⟨s, hr⟩ := Option.isSome_iff_exists.mp hrun
  exact ⟨s, hr, (erasure_final_iff_corrections_spare sampleWiring oneAccount_erased hr).1.mpr (by decide +kernel)⟩

def crossedDeliveries : List Action :=
  [.event "e1" (.upserted "clerk-cat" "new@example.com"), runs 0 0 "x", runs 0 0 "x",
    .event "e2" (.deleted "clerk-cat"), runs 1 0 "x", runs 1 0 "x", runs 1 0 "x", runs 1 0 "x", runs 1 0 "x",
    runs 1 0 "x", runs 1 0 "x", runs 0 0 "x"]

theorem a_correction_undoes_an_erasure :
    (∀ u ∈ oneAccount.tables.users, u.Erased) ∧
      ∃ s, run (step sampleWiring) oneAccount crossedDeliveries = some s ∧
        ∃ u ∈ s.tables.users, u.deletedAt ≠ none ∧ u.email = "new@example.com" ∧
          u.email ≠ tombstoneEmail u.id := by
  have hrun : (run (step sampleWiring) oneAccount crossedDeliveries).map (fun s =>
      s.tables.users.map (fun u => (u.id, u.deletedAt.isSome, u.email))) =
        some [("cat", true, "new@example.com")] := by
    decide +kernel
  obtain ⟨s, hr, hrow⟩ := Option.map_eq_some_iff.mp hrun
  refine ⟨oneAccount_erased, s, hr, ?_⟩
  obtain ⟨u, hu, hrow⟩ := List.mem_map.mp (hrow ▸ List.mem_singleton_self _)
  obtain ⟨hid, hdeleted, hemail⟩ := Prod.mk.inj hrow |>.imp_right Prod.mk.inj
  refine ⟨u, hu, ?_, hemail, ?_⟩
  · rw [← Option.isSome_iff_ne_none]
    exact hdeleted
  · rw [hemail, hid]
    decide

end RentalMarket.Identity
