import RentalMarket.Identity.Statements

namespace RentalMarket.Identity

open RentalMarket.Core RentalMarket.Booking Runs

namespace Users

variable {users : Users} {id : Id} {change : MirroredUser → MirroredUser}

def powerless (users : Users) (id : Id) : Bool := users.all (fun u => decide (u.id ≠ id) || !u.usable)

def spared (users : Users) (id : Id) : Bool := decide (1 < users.countAdministrators) || users.powerless id

theorem powerless_iff : users.powerless id = true ↔ ∀ u ∈ users, u.id = id → u.usable = false := by
  simp only [powerless, List.all_eq_true, Bool.or_eq_true, decide_eq_true_eq, Bool.not_eq_true', Decidable.imp_iff_not_or]

theorem powerless_of_role (hids : (users.map (·.id)).Nodup) {u : MirroredUser} (hu : users.findById id = some u)
    (hrole : u.role ≠ .admin) : users.powerless id = true := by
  rw [powerless_iff]
  intro v hv hid
  rw [Keyed.eq_of_key hids hv (mem_of_findById hu) (hid.trans (findById_id hu).symm)]
  simp [MirroredUser.usable, hrole]

theorem count_pos_iff : 0 < users.countAdministrators ↔
    ∃ u ∈ users, u.role = .admin ∧ u.deletedAt = none ∧ u.suspension = none := by
  simp [countAdministrators, List.length_pos_iff_exists_mem, MirroredUser.usable, and_assoc]

theorem count_update_mono (hchange : ∀ u, u.usable = true → (change u).usable = true) :
    users.countAdministrators ≤ (users.update id change).countAdministrators :=
  Keyed.length_filter_changed_mono (fun u _ _ hu => hchange u hu)

theorem count_update_of_spared (hids : (users.map (·.id)).Nodup) (hone : 0 < users.countAdministrators)
    (hspared : users.spared id = true) : 0 < (users.update id change).countAdministrators := by
  rw [spared, Bool.or_eq_true, decide_eq_true_eq, powerless_iff] at hspared
  cases hspared with
  | inl hmore =>
    have hlost : users.countAdministrators ≤ (users.update id change).countAdministrators + 1 :=
      Keyed.length_filter_changed hids _
    omega
  | inr hpowerless =>
    have hkept : users.countAdministrators ≤ (users.update id change).countAdministrators := by
      apply Keyed.length_filter_changed_mono
      intro u hu hid husable
      rw [hpowerless u hu hid] at husable
      cases husable
    omega

theorem count_update_of_not_spared (hspared : users.spared id = false)
    (hchange : ∀ u, (change u).usable = false) : (users.update id change).countAdministrators = 0 := by
  rw [spared, Bool.or_eq_false_iff, decide_eq_false_iff_not] at hspared
  obtain ⟨hfew, hpowerless⟩ := hspared
  rw [← Bool.not_eq_true, powerless_iff] at hpowerless
  push Not at hpowerless
  obtain ⟨last, hlast, hid, husable⟩ := hpowerless
  have hlast : last ∈ users.filter MirroredUser.usable := List.mem_filter.mpr ⟨hlast, by simpa using husable⟩
  rw [countAdministrators, List.length_eq_zero_iff, List.filter_eq_nil_iff]
  intro u hu hu'
  obtain ⟨hu, hother⟩ | ⟨old, -, -, rfl⟩ := mem_update hu
  · have hu : u ∈ users.filter MirroredUser.usable := List.mem_filter.mpr ⟨hu, hu'⟩
    obtain ⟨v, hv⟩ := List.length_eq_one_iff.mp (Nat.le_antisymm (Nat.le_of_not_lt hfew)
      (List.length_pos_of_mem hu))
    rw [hv, List.mem_singleton] at hu hlast
    rw [hu, ← hlast] at hother
    exact hother hid
  · rw [hchange] at hu'
    cases hu'

end Users

/-- The account whose administration the next statement may end. -/
def Call.removes : Call → Option Id
  | suspension (.write _ target _ _) => some target.id
  | role (.approveApply _ _ claimed _) => if claimed.role = .admin then none else some claimed.userId
  | erasing .tombstone user _ => some user.id
  | _ => none

section

variable {w : Wiring} {t t' : Tables} {locked : Id → Bool} {d : Draw} {c c' : Call}

theorem written_user_ids (hw : Written w t locked d c t') (hids : (t.users.map (·.id)).Nodup) :
    (t'.users.map (·.id)).Nodup := by
  have hupdate (id : Id) (change : MirroredUser → MirroredUser) (hchange : ∀ u, (change u).id = u.id) :
      ((t.users.update id change).map (·.id)).Nodup := by
    rw [Users.update_ids hchange]
    exact hids
  cases hw with
  | created r hid hclerk => exact Keyed.nodup_append hids hid
  | corrected r user hfree => exact hupdate _ _ (fun _ => rfl)
  | applied actor decision claimed counted => exact hupdate _ _ (fun _ => rfl)
  | suspended actor target reason counted => exact hupdate _ _ (fun _ => rfl)
  | reinstated actor target reason => exact hupdate _ _ (fun _ => rfl)
  | tombstoned user cause hfree => exact hupdate _ _ (fun _ => rfl)
  | _ => exact hids

theorem written_count (hw : Written w t locked d c t') (hids : (t.users.map (·.id)).Nodup)
    (hone : 0 < t.users.countAdministrators)
    (hspared : ∀ id, c.removes = some id → t.users.spared id = true) :
    0 < t'.users.countAdministrators := by
  cases hw with
  | created r hid hclerk =>
    have hmore : t.users.countAdministrators ≤
        Users.countAdministrators (t.users ++ [Users.newUser d.id r.clerkUserId r.email]) := by
      simp only [Users.countAdministrators, List.filter_append, List.length_append]
      omega
    exact Nat.lt_of_lt_of_le hone hmore
  | corrected r user hfree => exact Nat.lt_of_lt_of_le hone (Users.count_update_mono (fun _ hu => hu))
  | reinstated actor target reason =>
    refine Nat.lt_of_lt_of_le hone (Users.count_update_mono ?_)
    intro u hu
    simp only [MirroredUser.usable, Bool.and_eq_true] at hu
    simp [MirroredUser.usable, hu]
  | suspended actor target reason counted =>
    exact Users.count_update_of_spared hids hone (hspared _ rfl)
  | tombstoned user cause hfree =>
    exact Users.count_update_of_spared hids hone (hspared _ rfl)
  | applied actor decision claimed counted =>
    by_cases hrole : claimed.role = .admin
    · refine Nat.lt_of_lt_of_le hone (Users.count_update_mono ?_)
      intro u hu
      simp only [MirroredUser.usable, Bool.and_eq_true] at hu
      simp [MirroredUser.usable, hu, hrole]
    · exact Users.count_update_of_spared hids hone (hspared _ (if_neg hrole))
  | _ => exact hone

end

def Call.counted : Call → Option Nat
  | suspension (.write _ _ _ counted) => counted
  | role (.approveClaim _ _ _ counted) => counted
  | role (.approveApply _ _ _ counted) => counted
  | _ => none

def Resolving.deletes (r : Resolving) : Bool :=
  match r.cause with
  | .request _ .requestDeletion => true
  | _ => false

def Call.deletes : Call → Bool
  | finding r => r.deletes
  | creating r => r.deletes
  | refinding r => r.deletes
  | correcting r _ => r.deletes
  | claiming _ (.deleted _) => true
  | deletedRead _ _ => true
  | deletionRead _ => true
  | erasing _ _ _ => true
  | _ => false

def Action.deletes : Action → Bool
  | request _ _ _ .requestDeletion => true
  | event _ (.deleted _) => true
  | _ => false

section

variable {w : Wiring} {t t' : Tables} {locked : Id → Bool} {d : Draw} {c c' : Call}

theorem resolved_deletes {r : Resolving} {user : MirroredUser} (h : r.deletes = false) :
    (resolved r user).deletes = false := by
  rw [resolved]
  rw [Resolving.deletes] at h
  cases hcause : r.cause with
  | event externalId => rfl
  | request secondFactor request =>
    rw [hcause] at h
    simp only [authorise]
    split
    · rfl
    · cases request with
      | requestDeletion => cases h
      | readMine => rfl
      | saveMine input => rfl
      | quote listingId request => rfl
      | _ =>
        simp only
        repeat' split
        all_goals rfl

theorem upserted_deletes {r : Resolving} {user : MirroredUser} (h : r.deletes = false) :
    (upserted r user).deletes = false := by
  rw [upserted]
  split
  · split <;> rfl
  · split
    · exact resolved_deletes h
    · exact h

theorem nextResolving_deletes (h : nextResolving t d c = some (t', c')) (hc : c.deletes = false) :
    c'.deletes = false := by
  cases c with
  | finding r =>
    cases h
    cases t.users.findByClerkUserId r.clerkUserId with
    | none => exact hc
    | some user => exact upserted_deletes hc
  | refinding r =>
    cases h
    cases t.users.findByClerkUserId r.clerkUserId with
    | none => rfl
    | some user => exact upserted_deletes hc
  | creating r =>
    simp only [nextResolving] at h
    split at h
    · cases h
      exact hc
    · split at h
      · cases h
      · cases h
        exact upserted_deletes hc
  | correcting r user =>
    simp only [nextResolving] at h
    split at h
    · cases h
      exact resolved_deletes hc
    · cases hfind : (t.users.setEmail user.id r.email).findById user.id with
      | none =>
        rw [hfind] at h
        cases h
        rfl
      | some corrected =>
        rw [hfind] at h
        cases h
        exact resolved_deletes hc
  | _ => cases h

theorem next_deletes (h : next w t locked d c = some (t', c')) (hc : c.deletes = false) :
    c'.deletes = false := by
  cases next_moved h with
  | resolving c c' h => exact nextResolving_deletes h hc
  | deleting externalId clerkUserId => cases hc
  | erasingEvent externalId clerkUserId user hfind => cases hc
  | erasingRequest userId user hfind => cases hc
  | toListings user cause => cases hc
  | toQuotes user cause => cases hc
  | toActivity user cause => cases hc
  | toTombstone user cause => cases hc
  | _ => rfl

theorem counted_of_entry (h : c.entry = true) : c.counted = none := by
  cases c with
  | suspension c => cases c <;> first | rfl | cases h
  | role c => cases c <;> first | rfl | cases h
  | _ => rfl

theorem next_counted (h : next w t locked d c = some (t', c')) {n : Nat} (hn : c'.counted = some n) :
    c.counted = some n ∨ 1 < n := by
  cases next_moved h with
  | resolving c c' h =>
    rw [counted_of_entry (nextResolving_entry h)] at hn
    cases hn
  | approveCounted actor proposal reason hcount =>
    cases hn
    exact .inr hcount
  | suspendCounted actor target reason hcount =>
    cases hn
    exact .inr hcount
  | claiming actor proposal claimed reason counted hlock hfind hclaim => exact .inl hn
  | _ => cases hn

end

/-- Nothing is under way, and there is an administrator who can act. -/
structure Staffed (s : State) : Prop where
  idle : s.calls = []
  ids : (s.tables.users.map (·.id)).Nodup
  one : 0 < s.tables.users.countAdministrators

/-- What a call counted still stands as it writes: the account it takes is no
usable administrator, or there are as many as it counted. -/
def countStands (s : State) : Action → Bool
  | .exec i d => d.fails || (s.calls[i]?).all (fun c => c.removes.all (fun id =>
      s.tables.users.powerless id || c.counted.any (fun n => decide (n ≤ s.tables.users.countAdministrators))))
  | _ => true

/-- What holds between any two statements as long as nobody asks to be
deleted. -/
structure Administered (s : State) : Prop where
  ids : (s.tables.users.map (·.id)).Nodup
  one : 0 < s.tables.users.countAdministrators
  counted : ∀ (i : Nat) (c : Call) (n : Nat), s.calls[i]? = some c → c.counted = some n → 1 < n
  undeleted : ∀ (i : Nat) (c : Call), s.calls[i]? = some c → c.deletes = false

theorem Staffed.administered {s : State} (h : Staffed s) : Administered s := by
  refine ⟨h.ids, h.one, ?_, ?_⟩
  · intro i c n hc
    rw [h.idle] at hc
    cases hc
  · intro i c hc
    rw [h.idle] at hc
    cases hc

section

variable {w : Wiring} {s s' : State} {a : Action}

theorem step_user_ids (h : step w s a = some s') (hids : (s.tables.users.map (·.id)).Nodup) :
    (s'.tables.users.map (·.id)).Nodup := by
  obtain ht | ⟨i, d, c, -, -, -, hw⟩ := step_tables h
  · rw [ht]
    exact hids
  · exact written_user_ids hw hids

theorem step_deletes (h : step w s a = some s') (ha : a.deletes = false)
    (hs : ∀ (i : Nat) (c : Call), s.calls[i]? = some c → c.deletes = false) :
    ∀ (i : Nat) (c : Call), s'.calls[i]? = some c → c.deletes = false := by
  intro i c hc
  have happend (new : Call) (hnew : new.deletes = false) (hc : (s.calls ++ [new])[i]? = some c) :
      c.deletes = false := by
    rw [List.getElem?_append] at hc
    split at hc
    · exact hs i c hc
    · rw [List.mem_singleton.mp (List.mem_of_getElem? hc)]
      exact hnew
  cases step_cases h with
  | asked clerkUserId email secondFactor r => exact happend _ (by cases r <;> first | rfl | cases ha) hc
  | told externalId event => exact happend _ (by cases event <;> first | rfl | cases ha) hc
  | failed j d c₀ hc₀ hopen hfails =>
    rw [List.getElem?_set] at hc
    split at hc
    · split at hc
      · cases hc
        rfl
      · cases hc
    · exact hs i c hc
  | advanced j d c₀ t c' hc₀ hopen hfails hnext =>
    rw [List.getElem?_set] at hc
    split at hc
    · split at hc
      · cases hc
        exact next_deletes hnext (hs j c₀ hc₀)
      · cases hc
    · exact hs i c hc

namespace Administered

theorem spared (hs : Administered s) {i : Nat} {d : Draw} {c : Call} {id : Id}
    (hstands : countStands s (.exec i d) = true) (hc : s.calls[i]? = some c) (hfails : d.fails = false)
    (hid : c.removes = some id) : s.tables.users.spared id = true := by
  rw [countStands, hfails, hc, Option.all_some, hid, Option.all_some, Bool.false_or, Bool.or_eq_true] at hstands
  rw [Users.spared, Bool.or_eq_true, decide_eq_true_eq]
  cases hstands with
  | inl hpowerless => exact .inr hpowerless
  | inr hcount =>
    left
    cases hn : c.counted with
    | none =>
      rw [hn] at hcount
      cases hcount
    | some n =>
      rw [hn, Option.any_some, decide_eq_true_eq] at hcount
      exact Nat.lt_of_lt_of_le (hs.counted i c n hc hn) hcount

theorem after_step (hs : Administered s) (h : step w s a = some s') (ha : a.deletes = false)
    (hstands : countStands s a = true) : Administered s' where
  ids := step_user_ids h hs.ids
  one := by
    obtain ht | ⟨i, d, c, rfl, hc, hfails, hw⟩ := step_tables h
    · rw [ht]
      exact hs.one
    · exact written_count hw hs.ids hs.one (fun id hid => hs.spared hstands hc hfails hid)
  counted := by
    intro i c n hc hn
    obtain ⟨hold, -⟩ | ⟨-, hidle⟩ | ⟨d, c₀, -, hc₀, hnext⟩ := step_call h hc
    · exact hs.counted i c n hold hn
    · cases c with
      | suspension c => cases hidle
      | role c => cases hidle
      | _ => cases hn
    · obtain hold | hmore := next_counted hnext hn
      · exact hs.counted i c₀ n hc₀ hold
      · exact hmore
  undeleted := step_deletes h ha hs.undeleted

end Administered

end

/-- An administrator remains, in every run of suspensions and role changes,
whatever their order, in which every count still stands when it is acted on. -/
theorem administrators_remain_while_counts_stand (w : Wiring) {s₀ s : State} {as : List Action}
    (hstart : Staffed s₀) (hr : run (step w) s₀ as = some s) (has : ∀ a ∈ as, a.deletes = false)
    (hstands : Meets (step w) (fun s a => countStands s a = true) s₀ as) :
    ∃ u ∈ s.tables.users, u.role = .admin ∧ u.deletedAt = none ∧ u.suspension = none := by
  have hs : Administered s :=
    run_preserves_of_meets (fun _ _ _ hs hc h => hs.after_step h hc.1 hc.2) hr
      (meets_and (meets_of_forall has) hstands) hstart.administered
  exact Users.count_pos_iff.mp hs.one

def suspends (actor target : Id) : Action := asks actor (.suspend target "dispute")

def threeAdministrators : State :=
  sampleStart [sampleAccount "ada" .admin, sampleAccount "ben" .admin, sampleAccount "cat" .admin]

def oneSuspension : List Action := [suspends "ada" "ben", runs 0 0 "x", runs 0 0 "x", runs 0 0 "x", runs 0 0 "x"]

theorem an_administrator_remains_after_suspension :
    ∃ s, run (step sampleWiring) threeAdministrators oneSuspension = some s ∧
      ∃ u ∈ s.tables.users, u.role = .admin ∧ u.deletedAt = none ∧ u.suspension = none := by
  have hrun : ((run (step sampleWiring) threeAdministrators oneSuspension).isSome) = true := by decide +kernel
  obtain ⟨s, hr⟩ := Option.isSome_iff_exists.mp hrun
  have hstart : Staffed threeAdministrators := ⟨rfl, by decide, by decide⟩
  exact ⟨s, hr, administrators_remain_while_counts_stand sampleWiring hstart hr (by decide) (by decide +kernel)⟩

def twoAdministrators : State := sampleStart [sampleAccount "ada" .admin, sampleAccount "ben" .admin]

def duel : List Action :=
  [suspends "ada" "ben", runs 0 0 "x", runs 0 0 "x", suspends "ben" "ada", runs 1 0 "x", runs 1 0 "x",
    runs 0 0 "x", runs 1 0 "x", runs 0 0 "x", runs 1 0 "x"]

theorem duel_leaves_nobody :
    Staffed twoAdministrators ∧ (∀ a ∈ duel, a.deletes = false) ∧
      ∃ s, run (step sampleWiring) twoAdministrators duel = some s ∧
        ¬∃ u ∈ s.tables.users, u.role = .admin ∧ u.deletedAt = none ∧ u.suspension = none := by
  have hrun : (run (step sampleWiring) twoAdministrators duel).map (fun s =>
      s.tables.users.countAdministrators) = some 0 := by decide +kernel
  obtain ⟨s, hr, hnone⟩ := Option.map_eq_some_iff.mp hrun
  refine ⟨⟨rfl, by decide, by decide⟩, by decide, s, hr, ?_⟩
  rw [← Users.count_pos_iff, hnone]
  exact Nat.lt_irrefl 0

end RentalMarket.Identity
