import RentalMarket.Identity.Statements

namespace RentalMarket.Identity

open RentalMarket.Core RentalMarket.Booking Runs

def Event.clerkUserId : Event → String
  | upserted clerkUserId _ => clerkUserId
  | deleted clerkUserId => clerkUserId

def Action.tells (k : String) : Action → Bool
  | request _ _ _ _ => false
  | event _ told => decide (told.clerkUserId = k)
  | exec _ _ => true

def Action.succeeds : Action → Bool
  | exec _ d => !d.fails
  | _ => true

def Resolving.tells (k : String) (r : Resolving) : Bool :=
  decide (r.clerkUserId = k) &&
    match r.cause with
    | .request _ _ => false
    | .event _ => true

def Call.tells (k : String) : Call → Bool
  | finding r => r.tells k
  | creating r => r.tells k
  | refinding r => r.tells k
  | correcting r _ => r.tells k
  | claiming _ told => decide (told.clerkUserId = k)
  | deletedRead _ clerkUserId => decide (clerkUserId = k)
  | processing _ => true
  | erasing _ _ cause => decide (cause ≠ .request)
  | recording _ cause => decide (cause ≠ .request)
  | returned _ => true
  | _ => false

def Call.subject : Call → Option MirroredUser
  | correcting _ user => some user
  | erasing _ user _ => some user
  | _ => none

def Call.closing : Call → Bool
  | erasing _ _ _ => true
  | _ => false

theorem Call.closing_of_returned {c : Call} (h : c.isReturned = true) : c.closing = false := by
  cases c with
  | returned answer => rfl
  | _ => cases h

inductive Standing where
  | unknown
  | live
  | gone
  deriving DecidableEq, Repr

namespace Users

def standing (users : Users) (k : String) : Standing :=
  (users.findByClerkUserId k).elim .unknown (fun u => if u.deletedAt.isSome then .gone else .live)

def graveTaken (users : Users) (k : String) : Bool :=
  (users.findByClerkUserId k).elim false (fun u => users.emailTaken u.id (tombstoneEmail u.id))

variable {users : Users} {k : String}

theorem findByClerkUserId_clerk {u : MirroredUser} (h : users.findByClerkUserId k = some u) :
    u.clerkUserId = k := by
  simpa using List.find?_some h

theorem findByClerkUserId_update {id : Id} {change : MirroredUser → MirroredUser}
    (hclerk : ∀ u, (change u).clerkUserId = u.clerkUserId) :
    (users.update id change).findByClerkUserId k =
      (users.findByClerkUserId k).map (fun u => if u.id = id then change u else u) := by
  rw [update, findByClerkUserId, findByClerkUserId, List.find?_map]
  congr 2
  funext u
  rw [Function.comp_apply]
  split
  · rw [hclerk]
  · rfl

theorem findByClerkUserId_changed {change : MirroredUser → MirroredUser} {u : MirroredUser}
    (h : users.findByClerkUserId k = some u) (hclerk : ∀ u, (change u).clerkUserId = u.clerkUserId) :
    (users.update u.id change).findByClerkUserId k = some (change u) := by
  rw [findByClerkUserId_update hclerk, h, Option.map_some, if_pos rfl]

theorem emailTaken_update {id : Id} {change : MirroredUser → MirroredUser} {email : String}
    (hid : ∀ u, (change u).id = u.id) : (users.update id change).emailTaken id email = users.emailTaken id email := by
  rw [update, emailTaken, emailTaken, List.any_map]
  congr 1
  funext u
  rw [Function.comp_apply]
  split
  · rename_i hu
    simp [hid, hu]
  · rfl

theorem standing_unknown_iff : users.standing k = .unknown ↔ users.findByClerkUserId k = none := by
  rw [standing]
  cases users.findByClerkUserId k with
  | none => simp
  | some u =>
    simp only [Option.elim_some]
    split <;> simp

theorem standing_of_find {u : MirroredUser} (h : users.findByClerkUserId k = some u) :
    users.standing k = if u.deletedAt.isSome then .gone else .live := by
  rw [standing, h, Option.elim_some]

theorem standing_append (h : users.findByClerkUserId k = none) (id : Id) (email : String) :
    Users.standing (users ++ [newUser id k email]) k = .live := by
  have hfind : Users.findByClerkUserId (users ++ [newUser id k email]) k = some (newUser id k email) := by
    rw [findByClerkUserId] at h ⊢
    rw [List.find?_append, h]
    simp [newUser]
  rw [standing_of_find hfind]
  rfl

theorem graveTaken_of_find {u : MirroredUser} (h : users.findByClerkUserId k = some u) :
    users.graveTaken k = users.emailTaken u.id (tombstoneEmail u.id) := by
  rw [graveTaken, h, Option.elim_some]

theorem not_live_iff (hclerks : (users.map (·.clerkUserId)).Nodup) :
    (∀ u ∈ users, u.clerkUserId = k → u.deletedAt ≠ none) ↔ users.standing k ≠ .live := by
  constructor
  · intro h hlive
    cases hfind : users.findByClerkUserId k with
    | none =>
      rw [standing_unknown_iff.mpr hfind] at hlive
      cases hlive
    | some u =>
      have hdeleted := h u (mem_of_findByClerkUserId hfind) (findByClerkUserId_clerk hfind)
      rw [standing_of_find hfind, if_pos (Option.isSome_iff_ne_none.mpr hdeleted)] at hlive
      cases hlive
  · rintro h u hu rfl hlive
    have hfind : users.findByClerkUserId u.clerkUserId = some u := Keyed.find?_key hclerks hu
    rw [standing_of_find hfind, hlive] at h
    exact h rfl

end Users

def State.creates (s : State) : Action → Bool
  | .exec i d =>
    match s.calls[i]? with
    | some (.creating r) => !d.fails &&
        !s.tables.users.any (fun u => decide (u.clerkUserId = r.clerkUserId) || sameAddress u.email r.email)
    | _ => false
  | _ => false

def State.looksUp (s : State) : Action → Bool
  | .exec i _ =>
    match s.calls[i]? with
    | some (.deletedRead _ _) => true
    | _ => false
  | _ => false

/-- A statement that closes an account finds the address of its tombstone free. -/
def graveFree (s : State) : Action → Bool
  | .exec i _ =>
    match s.calls[i]? with
    | some (.erasing .tombstone user _) => !s.tables.users.emailTaken user.id (tombstoneEmail user.id)
    | _ => true
  | _ => true

inductive Mirrors (k : String) (s : State) : Action → Users → Prop
  | kept {a : Action} : Mirrors k s a s.tables.users
  | created {a : Action} (id : Id) (email : String) (hcreates : s.creates a = true)
      (hnone : s.tables.users.findByClerkUserId k = none) :
      Mirrors k s a (s.tables.users ++ [Users.newUser id k email])
  | corrected {a : Action} (u : MirroredUser) (email : String)
      (hu : s.tables.users.findByClerkUserId k = some u) : Mirrors k s a (s.tables.users.setEmail u.id email)
  | closed (i : Nat) (d : Draw) (user u : MirroredUser) (cause : EraseCause)
      (hc : s.calls[i]? = some (.erasing .tombstone user cause)) (hfails : d.fails = false)
      (hu : s.tables.users.findByClerkUserId k = some u) (hid : user.id = u.id)
      (hfree : s.tables.users.emailTaken u.id (tombstoneEmail u.id) = false) :
      Mirrors k s (.exec i d) (s.tables.users.tombstone u.id d.now)

structure Told (k : String) (s : State) : Prop where
  clerks : (s.tables.users.map (·.clerkUserId)).Nodup
  tells : ∀ (i : Nat) (c : Call), s.calls[i]? = some c → c.tells k = true
  known : ∀ (i : Nat) (c : Call) (user : MirroredUser), s.calls[i]? = some c → c.subject = some user →
    ∃ u, s.tables.users.findByClerkUserId k = some u ∧ u.id = user.id

section

variable {k : String} {w : Wiring} {t t' : Tables} {locked : Id → Bool} {d : Draw} {c c' : Call}

theorem Resolving.tells_iff {r : Resolving} :
    r.tells k = true ↔ r.clerkUserId = k ∧ ∃ externalId, r.cause = .event externalId := by
  rw [tells, Bool.and_eq_true, decide_eq_true_eq]
  apply and_congr_right
  intro _
  cases r.cause with
  | request secondFactor request => simp
  | event externalId => simp

theorem resolved_told {r : Resolving} (hr : r.tells k = true) (user : MirroredUser) :
    ∃ externalId, resolved r user = .processing externalId := by
  obtain ⟨-, externalId, hcause⟩ := Resolving.tells_iff.mp hr
  exact ⟨externalId, by rw [resolved, hcause]⟩

theorem upserted_told {r : Resolving} (hr : r.tells k = true) (user : MirroredUser) :
    (∃ externalId, upserted r user = .processing externalId) ∨ upserted r user = .correcting r user := by
  rw [upserted]
  split
  · obtain ⟨-, externalId, hcause⟩ := Resolving.tells_iff.mp hr
    exact .inl ⟨externalId, by rw [hcause]⟩
  · split
    · exact .inl (resolved_told hr user)
    · exact .inr rfl

theorem upserted_keeps {r : Resolving} (hr : r.tells k = true) {user : MirroredUser}
    (hfind : t'.users.findByClerkUserId k = some user) :
    (upserted r user).tells k = true ∧
      ∀ u, (upserted r user).subject = some u → t'.users.findByClerkUserId k = some u := by
  obtain ⟨externalId, hto⟩ | hto := upserted_told hr user
  · rw [hto]
    exact ⟨rfl, nofun⟩
  · rw [hto]
    refine ⟨hr, ?_⟩
    rintro u ⟨⟩
    exact hfind

theorem nextResolving_keeps (h : nextResolving t d c = some (t', c')) (hc : c.tells k = true) :
    c'.tells k = true ∧ ∀ u, c'.subject = some u → t'.users.findByClerkUserId k = some u := by
  cases c with
  | finding r =>
    cases h
    obtain ⟨rfl, -⟩ := Resolving.tells_iff.mp hc
    cases hfind : t.users.findByClerkUserId r.clerkUserId with
    | none => exact ⟨hc, fun u hu => absurd hu (Option.some_ne_none u).symm⟩
    | some user =>
      have hkept := upserted_keeps hc hfind
      rw [hfind] at hkept
      exact hkept
  | refinding r =>
    cases h
    obtain ⟨rfl, -⟩ := Resolving.tells_iff.mp hc
    cases hfind : t.users.findByClerkUserId r.clerkUserId with
    | none => exact ⟨rfl, fun u hu => absurd hu (Option.some_ne_none u).symm⟩
    | some user =>
      have hkept := upserted_keeps hc hfind
      rw [hfind] at hkept
      exact hkept
  | creating r =>
    simp only [nextResolving] at h
    split at h
    · cases h
      exact ⟨hc, fun u hu => absurd hu (Option.some_ne_none u).symm⟩
    · rename_i hfree
      split at h
      · cases h
      · cases h
        obtain ⟨rfl, -⟩ := Resolving.tells_iff.mp hc
        refine upserted_keeps hc ?_
        simp only [List.any_eq_true, not_exists, not_and, Bool.or_eq_true, decide_eq_true_eq, not_or] at hfree
        rw [Users.findByClerkUserId, List.find?_append, List.find?_eq_none.mpr]
        · simp [Users.newUser]
        · intro u hu
          simpa using (hfree u hu).1
  | correcting r user =>
    simp only [nextResolving] at h
    split at h
    · cases h
      obtain ⟨externalId, hto⟩ := resolved_told hc user
      rw [hto]
      exact ⟨rfl, fun u hu => absurd hu (Option.some_ne_none u).symm⟩
    · cases hfind : (t.users.setEmail user.id r.email).findById user.id with
      | none =>
        rw [hfind] at h
        cases h
        exact ⟨rfl, fun u hu => absurd hu (Option.some_ne_none u).symm⟩
      | some corrected =>
        rw [hfind] at h
        cases h
        obtain ⟨externalId, hto⟩ := resolved_told hc corrected
        rw [hto]
        exact ⟨rfl, fun u hu => absurd hu (Option.some_ne_none u).symm⟩
  | _ => cases h

theorem subject_none {p : MirroredUser → Prop} (h : c'.subject = none) : ∀ u, c'.subject = some u → p u := by
  rw [h]
  rintro u ⟨⟩

/-- A call about the account stays one, and goes on with the row it has just
found or with the one it had. -/
theorem next_keeps (h : next w t locked d c = some (t', c')) (hc : c.tells k = true) :
    c'.tells k = true ∧
      ∀ u, c'.subject = some u → c.subject = some u ∨ t'.users.findByClerkUserId k = some u := by
  cases next_moved h with
  | resolving c c' h =>
    obtain ⟨htells, hfound⟩ := nextResolving_keeps h hc
    exact ⟨htells, fun u hu => .inr (hfound u hu)⟩
  | upserting externalId clerkUserId email =>
    refine ⟨?_, subject_none rfl⟩
    rw [Call.tells, Bool.decide_iff] at hc
    exact Resolving.tells_iff.mpr ⟨hc, externalId, rfl⟩
  | deleting externalId clerkUserId => exact ⟨hc, subject_none rfl⟩
  | erasingEvent externalId clerkUserId user hfind =>
    refine ⟨rfl, ?_⟩
    rintro u ⟨⟩
    obtain ⟨rfl, -⟩ := Prod.mk.inj (Option.some.inj h)
    rw [Call.tells, Bool.decide_iff] at hc
    rw [← hc]
    exact .inr hfind
  | toListings user cause => exact ⟨hc, fun u hu => .inl hu⟩
  | toQuotes user cause => exact ⟨hc, fun u hu => .inl hu⟩
  | toActivity user cause => exact ⟨hc, fun u hu => .inl hu⟩
  | toTombstone user cause => exact ⟨hc, fun u hu => .inl hu⟩
  | toRecording user cause => exact ⟨hc, subject_none rfl⟩
  | _ => first | exact ⟨rfl, subject_none rfl⟩ | cases hc

theorem next_closing (h : next w t locked d c = some (t', c')) (hc : c.tells k = true)
    (hclosing : c'.closing = true) :
    c.closing = true ∨
      (∃ externalId clerkUserId, c = .deletedRead externalId clerkUserId) ∧ t.users.standing k = .live := by
  cases next_moved h with
  | resolving c c' h =>
    have hentry := nextResolving_entry h
    cases c' with
    | erasing stage user cause => cases hentry
    | _ => cases hclosing
  | erasingEvent externalId clerkUserId user hfind =>
    right
    refine ⟨⟨externalId, clerkUserId, rfl⟩, ?_⟩
    rw [Call.tells, Bool.decide_iff] at hc
    subst hc
    obtain ⟨-, hto⟩ := Prod.mk.inj (Option.some.inj h)
    rw [Users.standing_of_find hfind]
    simp only [hfind] at hto
    split at hto
    · cases hto
    · rename_i hlive
      rw [if_neg hlive]
  | erasingRequest userId user hfind => cases hc
  | toListings user cause => exact .inl rfl
  | toQuotes user cause => exact .inl rfl
  | toActivity user cause => exact .inl rfl
  | toTombstone user cause => exact .inl rfl
  | _ => cases hclosing

end

section

variable {k : String} {w : Wiring} {s s' : State} {a : Action}

theorem creates_iff {i : Nat} {d : Draw} {r : Resolving} (hc : s.calls[i]? = some (.creating r)) :
    s.creates (.exec i d) = true ↔ d.fails = false ∧
      ∀ u ∈ s.tables.users, u.clerkUserId ≠ r.clerkUserId ∧ sameAddress u.email r.email = false := by
  simp [State.creates, hc]

theorem looksUp_iff {i : Nat} {d : Draw} : s.looksUp (.exec i d) = true ↔
    ∃ externalId clerkUserId, s.calls[i]? = some (.deletedRead externalId clerkUserId) := by
  rw [State.looksUp]
  split
  · rename_i externalId clerkUserId hc
    exact ⟨fun _ => ⟨externalId, clerkUserId, hc⟩, fun _ => rfl⟩
  · rename_i hother
    constructor
    · nofun
    · rintro ⟨externalId, clerkUserId, hc⟩
      exact absurd hc (hother externalId clerkUserId)

/-- How a call can have come to be where it is, when all there is is deliveries. -/
theorem step_delivered (ha : a.tells k = true) (h : step w s a = some s') {j : Nat} {x : Call}
    (hx : s'.calls[j]? = some x) :
    s.calls[j]? = some x ∨ x = .returned .threw ∨
      (∃ externalId event, a = .event externalId event ∧ x = .claiming externalId event) ∨
      ∃ d c, a = .exec j d ∧ d.fails = false ∧ s.calls[j]? = some c ∧
        next w s.tables s.locked d c = some (s'.tables, x) := by
  cases step_cases h with
  | asked clerkUserId email secondFactor r => cases ha
  | told externalId event =>
    simp only [List.getElem?_append] at hx
    split at hx
    · exact .inl hx
    · have hmem := List.mem_of_getElem? hx
      exact .inr (.inr (.inl ⟨externalId, event, rfl, List.mem_singleton.mp hmem⟩))
  | failed i d c hc hopen hfails =>
    by_cases hij : i = j
    · subst hij
      rw [List.getElem?_set_self', hc] at hx
      cases hx
      exact .inr (.inl rfl)
    · rw [List.getElem?_set_ne hij] at hx
      exact .inl hx
  | advanced i d c t c' hc hopen hfails hnext =>
    by_cases hij : i = j
    · subst hij
      rw [List.getElem?_set_self', hc] at hx
      cases hx
      exact .inr (.inr (.inr ⟨d, c, rfl, hfails, hc, hnext⟩))
    · rw [List.getElem?_set_ne hij] at hx
      exact .inl hx

namespace Told

theorem step_mirrors (hs : Told k s) (h : step w s a = some s') : Mirrors k s a s'.tables.users := by
  obtain ht | ⟨i, d, c, rfl, hc, hfails, hw⟩ := step_tables h
  · rw [ht]
    exact .kept
  · have htells := hs.tells i c hc
    have hknown := hs.known i c
    cases step_cases h with
    | failed i d c' hc' hopen hfails' =>
      rw [hfails] at hfails'
      cases hfails'
    | advanced i d c' t c'' hc' hopen hfails' hnext =>
      rw [hc] at hc'
      cases hc'
      revert hw hnext
      simp only
      intro hw hnext
      cases hw with
      | created r hid hclerk =>
        simp only [next, nextResolving] at hnext
        split at hnext
        · rename_i hany
          obtain ⟨hsame, -⟩ := Prod.mk.inj (Option.some.inj hnext)
          exact absurd (congrArg (fun t : Tables => t.users.length) hsame) (by simp)
        · rename_i hfree
          obtain ⟨rfl, -⟩ := Resolving.tells_iff.mp htells
          refine .created d.id r.email ?_ ?_
          · simp [State.creates, hc, hfails, hfree]
          · exact List.find?_eq_none.mpr (fun u hu => by simpa using hclerk u hu)
      | corrected r user hfree =>
        obtain ⟨u, hu, hid⟩ := hknown user hc rfl
        rw [← hid]
        exact .corrected u r.email hu
      | tombstoned user cause hfree =>
        obtain ⟨u, hu, hid⟩ := hknown user hc rfl
        rw [← hid] at hfree ⊢
        exact .closed i d user u cause hc hfails hu hid.symm hfree
      | claimed externalId event => exact .kept
      | processed externalId => exact .kept
      | erasedProfile user cause => exact .kept
      | erasedQuotes user cause => exact .kept
      | _ => cases htells

end Told

namespace Mirrors

variable {users : Users}

theorem find (h : Mirrors k s a users) {u : MirroredUser} (hu : s.tables.users.findByClerkUserId k = some u) :
    ∃ u', users.findByClerkUserId k = some u' ∧ u'.id = u.id := by
  have hupdate (id : Id) (change : MirroredUser → MirroredUser) (hid : ∀ u, (change u).id = u.id)
      (hclerk : ∀ u, (change u).clerkUserId = u.clerkUserId) :
      ∃ u', (s.tables.users.update id change).findByClerkUserId k = some u' ∧ u'.id = u.id := by
    rw [Users.findByClerkUserId_update hclerk, hu]
    refine ⟨_, rfl, ?_⟩
    simp only
    split
    · exact hid u
    · rfl
  cases h with
  | kept => exact ⟨u, hu, rfl⟩
  | created id email hcreates hnone =>
    rw [hnone] at hu
    cases hu
  | corrected v email hv => exact hupdate _ _ (fun _ => rfl) (fun _ => rfl)
  | closed i d user v cause hc hfails hv hid hfree => exact hupdate _ _ (fun _ => rfl) (fun _ => rfl)

theorem clerks (h : Mirrors k s a users) (hclerks : (s.tables.users.map (·.clerkUserId)).Nodup) :
    (users.map (·.clerkUserId)).Nodup := by
  have hupdate (id : Id) (change : MirroredUser → MirroredUser)
      (hclerk : ∀ u, (change u).clerkUserId = u.clerkUserId) :
      ((s.tables.users.update id change).map (·.clerkUserId)).Nodup := by
    have hsame : (s.tables.users.update id change).map (·.clerkUserId) = s.tables.users.map (·.clerkUserId) := by
      rw [Users.update, List.map_map]
      apply List.map_congr_left
      intro u _
      rw [Function.comp_apply]
      split
      · exact hclerk u
      · rfl
    rw [hsame]
    exact hclerks
  cases h with
  | kept => exact hclerks
  | created id email hcreates hnone =>
    refine Keyed.nodup_append hclerks ?_
    intro u hu
    simpa [Users.newUser] using List.find?_eq_none.mp hnone u hu
  | corrected v email hv => exact hupdate _ _ (fun _ => rfl)
  | closed i d user v cause hc hfails hv hid hfree => exact hupdate _ _ (fun _ => rfl)

theorem standing (h : Mirrors k s a users) :
    users.standing k = s.tables.users.standing k ∨
      (s.creates a = true ∧ s.tables.users.standing k = .unknown ∧ users.standing k = .live) ∨
      (s.tables.users.standing k ≠ .unknown ∧ s.tables.users.graveTaken k = false ∧
        users.standing k = .gone ∧ ∃ (i : Nat) (c : Call), s.calls[i]? = some c ∧ c.closing = true) := by
  cases h with
  | kept => exact .inl rfl
  | created id email hcreates hnone =>
    exact .inr (.inl ⟨hcreates, Users.standing_unknown_iff.mpr hnone, Users.standing_append hnone id email⟩)
  | corrected v email hv =>
    left
    have hfind : (s.tables.users.setEmail v.id email).findByClerkUserId k = some { v with email := email } :=
      Users.findByClerkUserId_changed hv (fun _ => rfl)
    rw [Users.standing_of_find hfind, Users.standing_of_find hv]
  | closed i d user v cause hc hfails hv hid hfree =>
    right
    right
    have hfind : (s.tables.users.tombstone v.id d.now).findByClerkUserId k = some { v with
        deletedAt := some d.now, deletionRequestedAt := some d.now, email := tombstoneEmail v.id } :=
      Users.findByClerkUserId_changed hv (fun _ => rfl)
    refine ⟨?_, ?_, ?_, i, _, hc, rfl⟩
    · intro hunknown
      rw [Users.standing_unknown_iff.mp hunknown] at hv
      cases hv
    · rw [Users.graveTaken_of_find hv]
      exact hfree
    · rw [Users.standing_of_find hfind]
      rfl

theorem graveTaken (h : Mirrors k s a users) (hknown : s.tables.users.standing k ≠ .unknown) :
    users.graveTaken k = s.tables.users.graveTaken k := by
  cases h with
  | kept => rfl
  | created id email hcreates hnone => exact absurd (Users.standing_unknown_iff.mpr hnone) hknown
  | corrected v email hv =>
    have hfind : (s.tables.users.setEmail v.id email).findByClerkUserId k = some { v with email := email } :=
      Users.findByClerkUserId_changed hv (fun _ => rfl)
    rw [Users.graveTaken_of_find hfind, Users.graveTaken_of_find hv]
    exact Users.emailTaken_update (fun _ => rfl)
  | closed i d user v cause hc hfails hv hid hfree =>
    have hfind : (s.tables.users.tombstone v.id d.now).findByClerkUserId k = some { v with
        deletedAt := some d.now, deletionRequestedAt := some d.now, email := tombstoneEmail v.id } :=
      Users.findByClerkUserId_changed hv (fun _ => rfl)
    rw [Users.graveTaken_of_find hfind, Users.graveTaken_of_find hv]
    exact Users.emailTaken_update (fun _ => rfl)

end Mirrors

namespace Told

theorem after_step (hs : Told k s) (ha : a.tells k = true) (h : step w s a = some s') : Told k s' := by
  have hmirrors := hs.step_mirrors h
  refine ⟨hmirrors.clerks hs.clerks, ?_, ?_⟩
  · intro i c hc
    obtain hold | rfl | ⟨externalId, event, rfl, rfl⟩ | ⟨d, c₀, -, -, hc₀, hnext⟩ := step_delivered ha h hc
    · exact hs.tells i c hold
    · rfl
    · exact ha
    · exact (next_keeps hnext (hs.tells i c₀ hc₀)).1
  · intro i c user hc hsubject
    have hstays {u : MirroredUser} (hu : ∃ v, s.tables.users.findByClerkUserId k = some v ∧ v.id = u.id) :
        ∃ v, s'.tables.users.findByClerkUserId k = some v ∧ v.id = u.id := by
      obtain ⟨v, hv, hid⟩ := hu
      obtain ⟨v', hv', hid'⟩ := hmirrors.find hv
      exact ⟨v', hv', hid'.trans hid⟩
    obtain hold | rfl | ⟨externalId, event, rfl, rfl⟩ | ⟨d, c₀, -, -, hc₀, hnext⟩ := step_delivered ha h hc
    · exact hstays (hs.known i c user hold hsubject)
    · cases hsubject
    · cases hsubject
    · obtain hold | hfind := (next_keeps hnext (hs.tells i c₀ hc₀)).2 user hsubject
      · exact hstays (hs.known i c₀ user hc₀ hold)
      · exact ⟨user, hfind, rfl⟩

end Told

end

end RentalMarket.Identity
