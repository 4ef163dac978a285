import RentalMarket.Identity.Accounts

namespace RentalMarket.Identity

open RentalMarket.Core RentalMarket.Booking Runs

inductive Written (w : Wiring) (t : Tables) (locked : Id → Bool) (d : Draw) : Call → Tables → Prop
  | created (r : Resolving) (hid : ∀ u ∈ t.users, u.id ≠ d.id)
      (hclerk : ∀ u ∈ t.users, u.clerkUserId ≠ r.clerkUserId) :
      Written w t locked d (.creating r)
        { t with users := t.users ++ [Users.newUser d.id r.clerkUserId r.email] }
  | corrected (r : Resolving) (user : MirroredUser) (hfree : t.users.emailTaken user.id r.email = false) :
      Written w t locked d (.correcting r user) { t with users := t.users.setEmail user.id r.email }
  | claimed (externalId : String) (event : Event) :
      Written w t locked d (.claiming externalId event)
        { t with deliveries := t.deliveries ++ [(externalId, false)] }
  | processed (externalId : String) :
      Written w t locked d (.processing externalId)
        { t with deliveries := t.deliveries.map (fun e => if e.1 = externalId then (e.1, true) else e) }
  | proposed (actor : Administrator) (userId : Id) (role : UserRole) (reason : String)
      (hid : ∀ a ∈ t.approvals, a.id ≠ d.id) :
      Written w t locked d (.role (.proposeWrite actor userId role reason))
        { t with approvals := t.approvals ++ [newApproval d.id actor userId role reason d.now] }
  | applied (actor : Administrator) (decision : Decision) (claimed : AdminApproval) (counted : Option Nat) :
      Written w t locked d (.role (.approveApply actor decision claimed counted))
        { t with
          approvals := updateApproval t.approvals claimed.id (fun a => { a with approved := some decision })
          users := t.users.setRole claimed.userId claimed.role }
  | cancelled (actor : Administrator) (approvalId : Id) (reason : String) (row : AdminApproval)
      (hlock : locked approvalId = false) (hrow : findApproval t.approvals approvalId = some row)
      (hpending : cancellable row = true) :
      Written w t locked d (.role (.cancelWrite actor approvalId reason))
        { t with
          approvals := updateApproval t.approvals approvalId
            (fun a => { a with cancelled := some ⟨actor.1.id, reason, d.now⟩ }) }
  | suspended (actor : Administrator) (target : MirroredUser) (reason : String) (counted : Option Nat) :
      Written w t locked d (.suspension (.write actor target reason counted))
        { t with users := t.users.setSuspension target.id (some ⟨d.now, actor.1.id, reason⟩) }
  | reinstated (actor : Administrator) (target : MirroredUser) (reason : String) :
      Written w t locked d (.suspension (.reinstateWrite actor target reason))
        { t with users := t.users.setSuspension target.id none }
  | erasedProfile (user : MirroredUser) (cause : EraseCause) :
      Written w t locked d (.erasing .profile user cause)
        { t with
          profiles := t.profiles.filter (fun p => p.userId ≠ user.id)
          addresses := t.addresses.filter (fun a => a.userId ≠ user.id) }
  | erasedQuotes (user : MirroredUser) (cause : EraseCause) :
      Written w t locked d (.erasing .quotes user cause)
        { t with quotes := t.quotes.filter (fun q => !(decide (q.renterId = user.id) && unbooked t q)) }
  | tombstoned (user : MirroredUser) (cause : EraseCause)
      (hfree : t.users.emailTaken user.id (tombstoneEmail user.id) = false) :
      Written w t locked d (.erasing .tombstone user cause)
        { t with users := t.users.tombstone user.id d.now }
  | saved (userId : Id) (input : ProfileInput) :
      Written w t locked d (.saveWrite userId input) (saveProfile w t userId input)
  | quoted (row : QuoteRow) (hnew : (quoteAllowed row && t.quotes.all (fun q => q.id ≠ row.id)) = true) :
      Written w t locked d (.quoteWrite row) { t with quotes := t.quotes ++ [row] }

section

variable {w : Wiring} {t t' : Tables} {locked : Id → Bool} {d : Draw} {c' : Call}

theorem nextResolving_tables {c : Call} (h : nextResolving t d c = some (t', c')) :
    t' = t ∨ Written w t locked d c t' := by
  cases c with
  | finding r =>
    cases h
    exact .inl rfl
  | refinding r =>
    cases h
    exact .inl rfl
  | creating r =>
    simp only [nextResolving] at h
    split at h
    · cases h
      exact .inl rfl
    · rename_i hfree
      split at h
      · cases h
      · rename_i hid
        cases h
        refine .inr (.created r (by simpa using hid) ?_)
        intro u hu hclerk
        refine hfree (List.any_eq_true.mpr ⟨u, hu, ?_⟩)
        simp [hclerk]
  | correcting r user =>
    simp only [nextResolving] at h
    split at h
    · cases h
      exact .inl rfl
    · rename_i hfree
      cases hfind : (t.users.setEmail user.id r.email).findById user.id with
      | none =>
        rw [hfind] at h
        cases h
        exact .inl rfl
      | some corrected =>
        rw [hfind] at h
        cases h
        exact .inr (.corrected r user (by simpa using hfree))
  | _ => cases h

theorem nextRole_tables {c : RoleCall} (h : nextRole t locked d c = some (t', c')) :
    t' = t ∨ Written w t locked d (.role c) t' := by
  cases c with
  | proposeRead actor userId role reason =>
    left
    simp only [nextRole] at h
    repeat' split at h
    all_goals
      cases h
      rfl
  | proposeCount actor target role reason =>
    left
    simp only [nextRole] at h
    split at h
    all_goals
      cases h
      rfl
  | proposeWrite actor userId role reason =>
    simp only [nextRole] at h
    split at h
    · cases h
    · rename_i hid
      cases h
      exact .inr (.proposed actor userId role reason (by simpa using hid))
  | approveFind actor approvalId reason =>
    cases h
    exact .inl rfl
  | approveRead actor proposal reason =>
    left
    simp only [nextRole] at h
    repeat' split at h
    all_goals
      cases h
      rfl
  | approveCount actor proposal reason =>
    left
    simp only [nextRole] at h
    split at h
    all_goals
      cases h
      rfl
  | approveClaim actor proposal reason counted =>
    left
    simp only [nextRole] at h
    repeat' split at h
    all_goals
      cases h
      try rfl
  | approveApply actor decision claimed counted =>
    simp only [nextRole] at h
    split at h
    · cases h
      exact .inl rfl
    · cases h
      exact .inr (.applied actor decision claimed counted)
  | cancelFind actor approvalId reason =>
    cases h
    exact .inl rfl
  | cancelWrite actor approvalId reason =>
    simp only [nextRole] at h
    split at h
    · cases h
    · rename_i hlock
      split at h
      · cases h
        exact .inl rfl
      · rename_i row hrow
        split at h
        · rename_i hpending
          cases h
          exact .inr (.cancelled actor approvalId reason row (by simpa using hlock) hrow hpending)
        · cases h
          exact .inl rfl

theorem nextSuspension_tables {c : SuspensionCall} (h : nextSuspension t d c = (t', c')) :
    t' = t ∨ Written w t locked d (.suspension c) t' := by
  cases c with
  | read actor userId reason =>
    left
    simp only [nextSuspension] at h
    split at h
    all_goals
      cases h
      rfl
  | count actor target reason =>
    left
    simp only [nextSuspension] at h
    split at h
    all_goals
      cases h
      rfl
  | write actor target reason counted =>
    cases h
    exact .inr (.suspended actor target reason counted)
  | reinstateRead actor userId reason =>
    cases h
    exact .inl rfl
  | reinstateWrite actor target reason =>
    cases h
    exact .inr (.reinstated actor target reason)

theorem nextErasing_tables {stage : EraseStage} {user : MirroredUser} {cause : EraseCause}
    (h : nextErasing t d stage user cause = (t', c')) :
    t' = t ∨ Written w t locked d (.erasing stage user cause) t' := by
  cases stage with
  | profile =>
    cases h
    exact .inr (.erasedProfile user cause)
  | listings =>
    cases h
    exact .inl rfl
  | quotes =>
    cases h
    exact .inr (.erasedQuotes user cause)
  | activity =>
    cases h
    exact .inl rfl
  | tombstone =>
    simp only [nextErasing] at h
    split at h
    · cases h
      exact .inl rfl
    · rename_i hfree
      cases h
      exact .inr (.tombstoned user cause (by simpa using hfree))

/-- A statement leaves the tables, or writes what its call was there to write. -/
theorem next_tables {c : Call} (h : next w t locked d c = some (t', c')) :
    t' = t ∨ Written w t locked d c t' := by
  cases c with
  | finding r => exact nextResolving_tables h
  | creating r => exact nextResolving_tables h
  | refinding r => exact nextResolving_tables h
  | correcting r user => exact nextResolving_tables h
  | role c => exact nextRole_tables h
  | suspension c => exact nextSuspension_tables (Option.some.inj h)
  | erasing stage user cause => exact nextErasing_tables (Option.some.inj h)
  | claiming externalId event =>
    simp only [next] at h
    split at h
    · cases h
      exact .inl rfl
    · cases h
      exact .inr (.claimed externalId event)
  | processing externalId =>
    cases h
    exact .inr (.processed externalId)
  | saveWrite userId input =>
    cases h
    exact .inr (.saved userId input)
  | quoteWrite row =>
    simp only [next, Option.some.injEq] at h
    split at h
    · rename_i hnew
      cases h
      exact .inr (.quoted row hnew)
    · cases h
      exact .inl rfl
  | deletedRead externalId clerkUserId =>
    cases h
    exact .inl rfl
  | deletionRead userId =>
    cases h
    exact .inl rfl
  | recording user cause =>
    cases h
    exact .inl rfl
  | saveRead userId input =>
    cases h
    exact .inl rfl
  | pricing userId listingId request =>
    cases h
    exact .inl rfl
  | returned answer => cases h

end

section

variable {w : Wiring} {t t' : Tables} {locked : Id → Bool} {d : Draw}

theorem written_open {c : Call} (hw : Written w t locked d c t') : c.isReturned = false := by
  cases hw <;> rfl

theorem written_correcting {r : Resolving} {user : MirroredUser}
    (hw : Written w t locked d (.correcting r user) t') : t.users.emailTaken user.id r.email = false := by
  cases hw with
  | corrected r user hfree => exact hfree

theorem written_quoteWrite {row : QuoteRow} (hw : Written w t locked d (.quoteWrite row) t') :
    (quoteAllowed row && t.quotes.all (fun q => q.id ≠ row.id)) = true := by
  cases hw with
  | quoted row hnew => exact hnew

end

def Call.entry : Call → Bool
  | creating _ => true
  | refinding _ => true
  | correcting _ _ => true
  | processing _ => true
  | role (.proposeRead _ _ _ _) => true
  | role (.approveFind _ _ _) => true
  | role (.cancelFind _ _ _) => true
  | suspension (.read _ _ _) => true
  | suspension (.reinstateRead _ _ _) => true
  | deletionRead _ => true
  | saveRead _ _ => true
  | pricing _ _ _ => true
  | returned _ => true
  | _ => false

section

variable {w : Wiring} {t t' : Tables} {locked : Id → Bool} {d : Draw} {c' : Call}

theorem authorise_entry (secondFactor : Bool) (r : Request) (user : MirroredUser) :
    (authorise secondFactor r user).entry = true := by
  simp only [authorise]
  split
  · rfl
  · cases r with
    | readMine => rfl
    | requestDeletion => rfl
    | saveMine input => rfl
    | quote listingId request => rfl
    | _ =>
      simp only
      repeat' split
      all_goals rfl

theorem resolved_entry (r : Resolving) (user : MirroredUser) : (resolved r user).entry = true := by
  rw [resolved]
  cases r.cause with
  | request secondFactor request => exact authorise_entry secondFactor request user
  | event externalId => rfl

theorem upserted_entry (r : Resolving) (user : MirroredUser) : (upserted r user).entry = true := by
  rw [upserted]
  split
  · cases r.cause <;> rfl
  · split
    · exact resolved_entry r user
    · rfl

theorem nextResolving_entry {c : Call} (h : nextResolving t d c = some (t', c')) : c'.entry = true := by
  cases c with
  | finding r =>
    cases h
    cases t.users.findByClerkUserId r.clerkUserId with
    | none => rfl
    | some user => exact upserted_entry r user
  | refinding r =>
    cases h
    cases t.users.findByClerkUserId r.clerkUserId with
    | none => rfl
    | some user => exact upserted_entry r user
  | creating r =>
    simp only [nextResolving] at h
    split at h
    · cases h
      rfl
    · split at h
      · cases h
      · cases h
        exact upserted_entry r _
  | correcting r user =>
    simp only [nextResolving] at h
    split at h
    · cases h
      exact resolved_entry r user
    · cases hfind : (t.users.setEmail user.id r.email).findById user.id with
      | none =>
        rw [hfind] at h
        cases h
        rfl
      | some corrected =>
        rw [hfind] at h
        cases h
        exact resolved_entry r corrected
  | _ => cases h

end

inductive Moved (w : Wiring) (t : Tables) (locked : Id → Bool) (d : Draw) (t' : Tables) : Call → Call → Prop
  | resolving (c c' : Call) (h : nextResolving t d c = some (t', c')) : Moved w t locked d t' c c'
  | returned (c : Call) (answer : Answer) : Moved w t locked d t' c (.returned answer)
  | processing (c : Call) (externalId : String) : Moved w t locked d t' c (.processing externalId)
  | upserting (externalId clerkUserId email : String) :
      Moved w t locked d t' (.claiming externalId (.upserted clerkUserId email))
        (.finding ⟨clerkUserId, email, .event externalId⟩)
  | deleting (externalId clerkUserId : String) :
      Moved w t locked d t' (.claiming externalId (.deleted clerkUserId)) (.deletedRead externalId clerkUserId)
  | erasingEvent (externalId clerkUserId : String) (user : MirroredUser)
      (hfind : t.users.findByClerkUserId clerkUserId = some user) :
      Moved w t locked d t' (.deletedRead externalId clerkUserId) (.erasing .profile user (.event externalId))
  | erasingRequest (userId : Id) (user : MirroredUser) (hfind : t.users.findById userId = some user) :
      Moved w t locked d t' (.deletionRead userId) (.erasing .profile user .request)
  | toListings (user : MirroredUser) (cause : EraseCause) :
      Moved w t locked d t' (.erasing .profile user cause) (.erasing .listings user cause)
  | toQuotes (user : MirroredUser) (cause : EraseCause) :
      Moved w t locked d t' (.erasing .listings user cause) (.erasing .quotes user cause)
  | toActivity (user : MirroredUser) (cause : EraseCause) :
      Moved w t locked d t' (.erasing .quotes user cause) (.erasing .activity user cause)
  | toTombstone (user : MirroredUser) (cause : EraseCause) :
      Moved w t locked d t' (.erasing .activity user cause) (.erasing .tombstone user cause)
  | toRecording (user : MirroredUser) (cause : EraseCause) :
      Moved w t locked d t' (.erasing .tombstone user cause) (.recording user cause)
  | saving (userId : Id) (input : ProfileInput) :
      Moved w t locked d t' (.saveRead userId input) (.saveWrite userId input)
  | quoting (userId listingId : Id) (request : QuoteRequest) (row : QuoteRow)
      (hrow : Deadlines.quoteAt w.quoting ⟨d.now, t.quotes, t.booking⟩ d.now d.world d.id listingId userId
        request = .ok (some row)) :
      Moved w t locked d t' (.pricing userId listingId request) (.quoteWrite row)
  | proposeCounting (actor : Administrator) (userId : Id) (target : MirroredUser) (role : UserRole)
      (reason : String) :
      Moved w t locked d t' (.role (.proposeRead actor userId role reason))
        (.role (.proposeCount actor target role reason))
  | proposing (actor : Administrator) (userId : Id) (role : UserRole) (reason : String) :
      Moved w t locked d t' (.role (.proposeRead actor userId role reason))
        (.role (.proposeWrite actor userId role reason))
  | proposingCounted (actor : Administrator) (target : MirroredUser) (role : UserRole) (reason : String) :
      Moved w t locked d t' (.role (.proposeCount actor target role reason))
        (.role (.proposeWrite actor target.id role reason))
  | approving (actor : Administrator) (approvalId : Id) (reason : String) (proposal : AdminApproval)
      (hfind : findApproval t.approvals approvalId = some proposal) :
      Moved w t locked d t' (.role (.approveFind actor approvalId reason))
        (.role (.approveRead actor proposal reason))
  | approveCounting (actor : Administrator) (proposal : AdminApproval) (reason : String) :
      Moved w t locked d t' (.role (.approveRead actor proposal reason))
        (.role (.approveCount actor proposal reason))
  | approveUncounted (actor : Administrator) (proposal : AdminApproval) (reason : String)
      (target : MirroredUser) (hfind : t.users.findById proposal.userId = some target)
      (hkeeps : removesAdministrator target (some proposal.role) = false) :
      Moved w t locked d t' (.role (.approveRead actor proposal reason))
        (.role (.approveClaim actor proposal reason none))
  | approveCounted (actor : Administrator) (proposal : AdminApproval) (reason : String)
      (hcount : 1 < t.users.countAdministrators) :
      Moved w t locked d t' (.role (.approveCount actor proposal reason))
        (.role (.approveClaim actor proposal reason (some t.users.countAdministrators)))
  | claiming (actor : Administrator) (proposal claimed : AdminApproval) (reason : String)
      (counted : Option Nat) (hlock : locked proposal.id = false)
      (hfind : findApproval t.approvals proposal.id = some claimed)
      (hclaim : claimable claimed ⟨actor.1.id, reason, d.now⟩ = true) :
      Moved w t locked d t' (.role (.approveClaim actor proposal reason counted))
        (.role (.approveApply actor ⟨actor.1.id, reason, d.now⟩ claimed counted))
  | cancelling (actor : Administrator) (approvalId : Id) (reason : String) :
      Moved w t locked d t' (.role (.cancelFind actor approvalId reason))
        (.role (.cancelWrite actor approvalId reason))
  | suspendCounting (actor : Administrator) (userId : Id) (reason : String) (target : MirroredUser) :
      Moved w t locked d t' (.suspension (.read actor userId reason))
        (.suspension (.count actor target reason))
  | suspendUncounted (actor : Administrator) (userId : Id) (reason : String) (target : MirroredUser)
      (hfind : t.users.findById userId = some target) (hkeeps : removesAdministrator target none = false) :
      Moved w t locked d t' (.suspension (.read actor userId reason))
        (.suspension (.write actor target reason none))
  | suspendCounted (actor : Administrator) (target : MirroredUser) (reason : String)
      (hcount : 1 < t.users.countAdministrators) :
      Moved w t locked d t' (.suspension (.count actor target reason))
        (.suspension (.write actor target reason (some t.users.countAdministrators)))
  | reinstating (actor : Administrator) (userId : Id) (reason : String) (target : MirroredUser) :
      Moved w t locked d t' (.suspension (.reinstateRead actor userId reason))
        (.suspension (.reinstateWrite actor target reason))

section

variable {w : Wiring} {t t' : Tables} {locked : Id → Bool} {d : Draw} {c' : Call}

theorem nextRole_moved {c : RoleCall} (h : nextRole t locked d c = some (t', c')) :
    Moved w t locked d t' (.role c) c' := by
  cases c with
  | proposeRead actor userId role reason =>
    simp only [nextRole] at h
    repeat' split at h
    all_goals cases h
    · exact .returned _ _
    · exact .returned _ _
    · exact .returned _ _
    · exact .proposeCounting actor userId _ role reason
    · exact .proposing actor userId role reason
  | proposeCount actor target role reason =>
    simp only [nextRole] at h
    split at h
    all_goals cases h
    · exact .returned _ _
    · exact .proposingCounted actor target role reason
  | proposeWrite actor userId role reason =>
    simp only [nextRole] at h
    split at h
    all_goals cases h
    exact .returned _ _
  | approveFind actor approvalId reason =>
    simp only [nextRole, requirePending] at h
    cases h
    repeat' split
    · exact .returned _ _
    · exact .returned _ _
    · exact .returned _ _
    · rename_i proposal hfind _ _
      exact .approving actor approvalId reason proposal hfind
  | approveRead actor proposal reason =>
    simp only [nextRole] at h
    split at h
    · cases h
      exact .returned _ _
    · rename_i target hfind
      repeat' split at h
      all_goals cases h
      · exact .returned _ _
      · exact .approveCounting actor proposal reason
      · rename_i hkeeps
        exact .approveUncounted actor proposal reason target hfind (by simpa using hkeeps)
  | approveCount actor proposal reason =>
    simp only [nextRole] at h
    split at h
    · cases h
      exact .returned _ _
    · rename_i hcount
      cases h
      exact .approveCounted actor proposal reason (by omega)
  | approveClaim actor proposal reason counted =>
    simp only [nextRole] at h
    split at h
    · cases h
    · rename_i hlock
      split at h
      · cases h
        exact .returned _ _
      · rename_i row hrow
        split at h
        · rename_i hclaim
          cases h
          exact .claiming actor proposal row reason counted (by simpa using hlock) hrow hclaim
        · cases h
          exact .returned _ _
  | approveApply actor decision claimed counted =>
    simp only [nextRole] at h
    split at h
    all_goals
      cases h
      exact .returned _ _
  | cancelFind actor approvalId reason =>
    simp only [nextRole, requirePending] at h
    cases h
    repeat' split
    · exact .returned _ _
    · exact .returned _ _
    · exact .cancelling actor approvalId reason
  | cancelWrite actor approvalId reason =>
    simp only [nextRole] at h
    repeat' split at h
    all_goals cases h
    all_goals exact .returned _ _

theorem nextSuspension_moved {c : SuspensionCall} (h : nextSuspension t d c = (t', c')) :
    Moved w t locked d t' (.suspension c) c' := by
  cases c with
  | read actor userId reason =>
    simp only [nextSuspension, requireSuspendable] at h
    split at h
    · cases h
      exact .returned _ _
    · cases h
      split
      · exact .returned _ _
      · rename_i target hfind
        repeat' split
        · exact .returned _ _
        · exact .returned _ _
        · exact .suspendCounting actor userId reason target
        · rename_i hkeeps
          exact .suspendUncounted actor userId reason target hfind (by simpa using hkeeps)
  | count actor target reason =>
    simp only [nextSuspension] at h
    split at h
    · cases h
      exact .returned _ _
    · rename_i hcount
      cases h
      exact .suspendCounted actor target reason (by omega)
  | write actor target reason counted =>
    cases h
    exact .returned _ _
  | reinstateRead actor userId reason =>
    simp only [nextSuspension, requireSuspendable] at h
    cases h
    repeat' split
    · exact .returned _ _
    · exact .returned _ _
    · exact .returned _ _
    · exact .reinstating actor userId reason _
  | reinstateWrite actor target reason =>
    cases h
    exact .returned _ _

theorem nextErasing_moved {stage : EraseStage} {user : MirroredUser} {cause : EraseCause}
    (h : nextErasing t d stage user cause = (t', c')) :
    Moved w t locked d t' (.erasing stage user cause) c' := by
  cases stage with
  | profile =>
    cases h
    exact .toListings user cause
  | listings =>
    cases h
    exact .toQuotes user cause
  | quotes =>
    cases h
    exact .toActivity user cause
  | activity =>
    cases h
    exact .toTombstone user cause
  | tombstone =>
    simp only [nextErasing] at h
    split at h
    · cases h
      exact .returned _ _
    · cases h
      exact .toRecording user cause

/-- Every statement of every call moves it as listed. -/
theorem next_moved {c : Call} (h : next w t locked d c = some (t', c')) : Moved w t locked d t' c c' := by
  cases c with
  | finding r => exact .resolving _ _ h
  | creating r => exact .resolving _ _ h
  | refinding r => exact .resolving _ _ h
  | correcting r user => exact .resolving _ _ h
  | role c => exact nextRole_moved h
  | suspension c => exact nextSuspension_moved (Option.some.inj h)
  | erasing stage user cause => exact nextErasing_moved (Option.some.inj h)
  | claiming externalId event =>
    simp only [next] at h
    split at h
    · cases h
      exact .returned _ _
    · cases h
      cases event with
      | upserted clerkUserId email => exact .upserting externalId clerkUserId email
      | deleted clerkUserId => exact .deleting externalId clerkUserId
  | deletedRead externalId clerkUserId =>
    simp only [next] at h
    cases h
    split
    · exact .processing _ _
    · rename_i user hfind
      split
      · exact .processing _ _
      · exact .erasingEvent externalId clerkUserId user hfind
  | processing externalId =>
    cases h
    exact .returned _ _
  | deletionRead userId =>
    simp only [next] at h
    cases h
    split
    · exact .returned _ _
    · rename_i user hfind
      split
      · exact .returned _ _
      · exact .erasingRequest userId user hfind
  | recording user cause =>
    cases h
    cases cause with
    | request => exact .returned _ _
    | event externalId => exact .processing _ _
  | saveRead userId input =>
    cases h
    exact .saving userId input
  | saveWrite userId input =>
    cases h
    exact .returned _ _
  | pricing userId listingId request =>
    simp only [next] at h
    cases h
    split
    · exact .returned _ _
    · exact .returned _ _
    · rename_i row hrow
      exact .quoting userId listingId request row hrow
  | quoteWrite row =>
    simp only [next, Option.some.injEq] at h
    split at h
    all_goals
      cases h
      exact .returned _ _
  | returned answer => cases h

end

inductive Stepped (w : Wiring) (s : State) : Action → State → Prop
  | asked (clerkUserId email : String) (secondFactor : Bool) (r : Request) :
      Stepped w s (.request clerkUserId email secondFactor r)
        { s with calls := s.calls ++ [.finding ⟨clerkUserId, email, .request secondFactor r⟩] }
  | told (externalId : String) (event : Event) :
      Stepped w s (.event externalId event) { s with calls := s.calls ++ [.claiming externalId event] }
  | failed (i : Nat) (d : Draw) (c : Call) (hc : s.calls[i]? = some c) (hopen : c.isReturned = false)
      (hfails : d.fails = true) :
      Stepped w s (.exec i d) { s with calls := s.calls.set i (.returned .threw) }
  | advanced (i : Nat) (d : Draw) (c : Call) (t : Tables) (c' : Call) (hc : s.calls[i]? = some c)
      (hopen : c.isReturned = false) (hfails : d.fails = false)
      (hnext : next w s.tables s.locked d c = some (t, c')) :
      Stepped w s (.exec i d) ⟨t, s.calls.set i c'⟩

section

variable {w : Wiring} {s s' : State} {a : Action}

theorem step_cases (h : step w s a = some s') : Stepped w s a s' := by
  cases a with
  | request clerkUserId email secondFactor r =>
    cases h
    exact .asked clerkUserId email secondFactor r
  | event externalId event =>
    cases h
    exact .told externalId event
  | exec i d =>
    obtain ⟨c, hc, h⟩ := Option.bind_eq_some_iff.mp h
    split at h
    · cases h
    · rename_i hopen
      have hopen : c.isReturned = false := by simpa using hopen
      split at h
      · rename_i hfails
        cases h
        exact .failed i d c hc hopen hfails
      · rename_i hfails
        obtain ⟨r, hnext, rfl⟩ := Option.map_eq_some_iff.mp h
        exact .advanced i d c r.1 r.2 hc hopen (by simpa using hfails) hnext

theorem step_tables (h : step w s a = some s') :
    s'.tables = s.tables ∨ ∃ i d c, a = .exec i d ∧ s.calls[i]? = some c ∧ d.fails = false ∧
      Written w s.tables s.locked d c s'.tables := by
  cases step_cases h with
  | asked clerkUserId email secondFactor r => exact .inl rfl
  | told externalId event => exact .inl rfl
  | failed i d c hc hopen hfails => exact .inl rfl
  | advanced i d c t c' hc hopen hfails hnext =>
    cases next_tables hnext with
    | inl ht => exact .inl ht
    | inr hw => exact .inr ⟨i, d, c, rfl, hc, hfails, hw⟩

/-- A call that has found nothing yet, or is over. -/
def Call.idle : Call → Bool
  | finding _ => true
  | claiming _ _ => true
  | returned _ => true
  | _ => false

/-- Where a call can be after a step. -/
theorem step_call (h : step w s a = some s') {j : Nat} {x : Call} (hx : s'.calls[j]? = some x) :
    (s.calls[j]? = some x ∧ ∀ d, a ≠ .exec j d) ∨ (s'.tables = s.tables ∧ x.idle = true) ∨
      ∃ d c, a = .exec j d ∧ s.calls[j]? = some c ∧ next w s.tables s.locked d c = some (s'.tables, x) := by
  have happend (c : Call) (hidle : c.idle = true) (hx : (s.calls ++ [c])[j]? = some x) :
      s.calls[j]? = some x ∨ x.idle = true := by
    rw [List.getElem?_append] at hx
    split at hx
    · exact .inl hx
    · right
      have hmem := List.mem_of_getElem? hx
      rw [List.mem_singleton.mp hmem]
      exact hidle
  cases step_cases h with
  | asked clerkUserId email secondFactor r =>
    cases happend _ rfl hx with
    | inl hold => exact .inl ⟨hold, nofun⟩
    | inr hidle => exact .inr (.inl ⟨rfl, hidle⟩)
  | told externalId event =>
    cases happend _ rfl hx with
    | inl hold => exact .inl ⟨hold, nofun⟩
    | inr hidle => exact .inr (.inl ⟨rfl, hidle⟩)
  | failed i d c hc hopen hfails =>
    by_cases hij : i = j
    · subst hij
      rw [List.getElem?_set_self' , hc] at hx
      cases hx
      exact .inr (.inl ⟨rfl, rfl⟩)
    · rw [List.getElem?_set_ne hij] at hx
      exact .inl ⟨hx, fun e he => hij (by cases he; rfl)⟩
  | advanced i d c t c' hc hopen hfails hnext =>
    by_cases hij : i = j
    · subst hij
      rw [List.getElem?_set_self', hc] at hx
      cases hx
      exact .inr (.inr ⟨d, c, rfl, hc, hnext⟩)
    · rw [List.getElem?_set_ne hij] at hx
      exact .inl ⟨hx, fun e he => hij (by cases he; rfl)⟩

theorem step_stays (h : step w s a = some s') {j : Nat} {x : Call} (hx : s.calls[j]? = some x)
    (hother : ∀ d, a ≠ .exec j d) : s'.calls[j]? = some x := by
  have happend (c : Call) : (s.calls ++ [c])[j]? = some x := by
    rw [List.getElem?_append_left (List.getElem?_eq_some_iff.mp hx).1]
    exact hx
  have hset (i : Nat) (d : Draw) (c : Call) (hother : ∀ d', Action.exec i d ≠ .exec j d') :
      (s.calls.set i c)[j]? = some x := by
    rw [List.getElem?_set_ne (fun hij => hother d (by rw [hij]))]
    exact hx
  cases step_cases h with
  | asked clerkUserId email secondFactor r => exact happend _
  | told externalId event => exact happend _
  | failed i d c hc hopen hfails => exact hset i d _ hother
  | advanced i d c t c' hc hopen hfails hnext => exact hset i d _ hother

theorem step_ran {i : Nat} {d : Draw} {c : Call} (hc : s.calls[i]? = some c) (hsucceeds : d.fails = false)
    (h : step w s (.exec i d) = some s') :
    ∃ c', next w s.tables s.locked d c = some (s'.tables, c') ∧ s'.calls[i]? = some c' := by
  cases step_cases h with
  | failed i d c' hc' hopen hfails =>
    rw [hsucceeds] at hfails
    cases hfails
  | advanced i d c₀ t c' hc' hopen hfails hnext =>
    rw [hc] at hc'
    cases hc'
    exact ⟨c', hnext, by rw [List.getElem?_set_self', hc]; rfl⟩

end

def sampleWiring : Wiring := ⟨Deadlines.drillWiring, fun _ line1 _ => line1⟩

def sampleAccount (id : Id) (role : UserRole) : MirroredUser :=
  ⟨id, "clerk-" ++ id, id ++ "@example.com", role, none, none, none⟩

def sampleStart (users : Users) : State := ⟨⟨users, [], [], [], [], [], .empty⟩, []⟩

def asks (id : Id) (r : Request) : Action := .request ("clerk-" ++ id) (id ++ "@example.com") true r

def runs (i : Nat) (now : Instant) (id : Id) : Action := .exec i ⟨now, id, ⟨drillCatalogue, []⟩, false⟩

end RentalMarket.Identity
