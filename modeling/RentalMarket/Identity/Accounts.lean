import RentalMarket.Booking.Deadlines
import RentalMarket.Identity.Directory
import RentalMarket.Lib.Runs

namespace RentalMarket.Identity

open RentalMarket.Core RentalMarket.Booking

structure StoredProfile where
  userId : Id
  displayName : String
  phone : Option String
  ownerStatus : Option String
  deriving DecidableEq, Repr

structure StoredAddress where
  userId : Id
  postcode : String
  town : String
  encryptedDetail : String
  deriving DecidableEq, Repr

structure AddressInput where
  postcode : String
  town : String
  line1 : String
  line2 : Option String
  deriving DecidableEq, Repr

structure ProfileInput where
  displayName : String
  phone : Option String
  ownerStatus : Option String
  address : Option AddressInput
  deriving DecidableEq, Repr

/-- The tables that hold an account and what is personal to it. A delivery is
claimed, then marked processed. -/
structure Tables where
  users : Users
  approvals : List AdminApproval
  deliveries : List (String × Bool)
  profiles : List StoredProfile
  addresses : List StoredAddress
  quotes : List QuoteRow
  booking : Booking.Tables
  deriving DecidableEq, Repr

inductive Request where
  | readMine
  | proposeRoleChange (userId : Id) (role : UserRole) (reason : String)
  | approve (approvalId : Id) (reason : String)
  | cancelApproval (approvalId : Id) (reason : String)
  | suspend (userId : Id) (reason : String)
  | reinstate (userId : Id) (reason : String)
  | requestDeletion
  | saveMine (input : ProfileInput)
  | quote (listingId : Id) (request : QuoteRequest)
  deriving DecidableEq, Repr

/-- The routes a suspended account may still reach. -/
def Request.allowsSuspended : Request → Bool
  | readMine => true
  | requestDeletion => true
  | _ => false

inductive Event where
  | upserted (clerkUserId email : String)
  | deleted (clerkUserId : String)
  deriving DecidableEq, Repr

/-- Why a person is looked up: a request to let in, with what was proved of a
second factor, or a delivery to apply. -/
inductive Cause where
  | request (secondFactor : Bool) (r : Request)
  | event (externalId : String)
  deriving DecidableEq, Repr

structure Resolving where
  clerkUserId : String
  email : String
  cause : Cause
  deriving DecidableEq, Repr

def Administrator := { u : MirroredUser // u.role = .admin ∧ u.suspension = none }

instance : DecidableEq Administrator :=
  inferInstanceAs (DecidableEq { u : MirroredUser // u.role = .admin ∧ u.suspension = none })

/-- Roles, between two statements. Once it has looked for the last
administrator a call remembers how many it counted, if it had to. -/
inductive RoleCall where
  | proposeRead (actor : Administrator) (userId : Id) (role : UserRole) (reason : String)
  | proposeCount (actor : Administrator) (target : MirroredUser) (role : UserRole) (reason : String)
  | proposeWrite (actor : Administrator) (userId : Id) (role : UserRole) (reason : String)
  | approveFind (actor : Administrator) (approvalId : Id) (reason : String)
  | approveRead (actor : Administrator) (proposal : AdminApproval) (reason : String)
  | approveCount (actor : Administrator) (proposal : AdminApproval) (reason : String)
  | approveClaim (actor : Administrator) (proposal : AdminApproval) (reason : String) (counted : Option Nat)
  | approveApply (actor : Administrator) (decision : Decision) (claimed : AdminApproval) (counted : Option Nat)
  | cancelFind (actor : Administrator) (approvalId : Id) (reason : String)
  | cancelWrite (actor : Administrator) (approvalId : Id) (reason : String)
  deriving DecidableEq

inductive SuspensionCall where
  | read (actor : Administrator) (userId : Id) (reason : String)
  | count (actor : Administrator) (target : MirroredUser) (reason : String)
  | write (actor : Administrator) (target : MirroredUser) (reason : String) (counted : Option Nat)
  | reinstateRead (actor : Administrator) (userId : Id) (reason : String)
  | reinstateWrite (actor : Administrator) (target : MirroredUser) (reason : String)
  deriving DecidableEq

/-- What an erasure does, in its order. -/
inductive EraseStage where
  | profile
  | listings
  | quotes
  | activity
  | tombstone
  deriving DecidableEq, Repr

inductive EraseCause where
  | request
  | event (externalId : String)
  deriving DecidableEq, Repr

inductive Answer where
  | refused (sentence : String)
  | conflict (sentence : String)
  | unauthorised
  | forbidden
  | userConflict
  | threw
  | read (user : MirroredUser)
  | proposed (approval : AdminApproval)
  | approved (approval : AdminApproval)
  | cancelled (approval : AdminApproval)
  | suspended (userId : Id)
  | reinstated (userId : Id)
  | deleted
  | saved
  | quoted (row : QuoteRow)
  | notFound
  | applied (fresh : Bool)
  deriving DecidableEq, Repr

inductive Call where
  | finding (r : Resolving)
  | creating (r : Resolving)
  | refinding (r : Resolving)
  | correcting (r : Resolving) (user : MirroredUser)
  | claiming (externalId : String) (event : Event)
  | deletedRead (externalId clerkUserId : String)
  | processing (externalId : String)
  | role (c : RoleCall)
  | suspension (c : SuspensionCall)
  | deletionRead (userId : Id)
  | erasing (stage : EraseStage) (user : MirroredUser) (cause : EraseCause)
  | recording (user : MirroredUser) (cause : EraseCause)
  | saveRead (userId : Id) (input : ProfileInput)
  | saveWrite (userId : Id) (input : ProfileInput)
  | pricing (userId listingId : Id) (request : QuoteRequest)
  | quoteWrite (row : QuoteRow)
  | returned (answer : Answer)
  deriving DecidableEq

namespace Call

def isReturned : Call → Bool
  | returned _ => true
  | _ => false

/-- An open transaction holds the proposal it has claimed. -/
def holds (id : Id) : Call → Bool
  | role (.approveApply _ _ claimed _) => decide (claimed.id = id)
  | _ => false

end Call

structure State where
  tables : Tables
  calls : List Call
  deriving DecidableEq

def State.setCall (s : State) (i : Nat) (c : Call) : State := { s with calls := s.calls.set i c }

/-- Another transaction has written the row and not committed. -/
def State.locked (s : State) (id : Id) : Bool := s.calls.any (Call.holds id)

/-- What a statement finds besides the tables: the clock, an id the database
draws, the other modules' tables, and whether it fails. -/
structure Draw where
  now : Instant
  id : Id
  world : Deadlines.World
  fails : Bool

structure Wiring where
  quoting : Deadlines.Wiring
  encrypt : Id → String → Option String → String

def authorise (secondFactor : Bool) (r : Request) (user : MirroredUser) : Call :=
  if user.suspension.isSome && !r.allowsSuspended then .returned .forbidden
  else
    let administrator := fun (start : Administrator → Call) =>
      if h : user.role = .admin ∧ user.suspension = none then
        if secondFactor then start ⟨user, h⟩ else .returned .forbidden
      else .returned .forbidden
    match r with
    | .readMine => .returned (.read user)
    | .proposeRoleChange userId role reason =>
      administrator (fun actor => .role (.proposeRead actor userId role reason))
    | .approve approvalId reason => administrator (fun actor => .role (.approveFind actor approvalId reason))
    | .cancelApproval approvalId reason =>
      administrator (fun actor => .role (.cancelFind actor approvalId reason))
    | .suspend userId reason => administrator (fun actor => .suspension (.read actor userId reason))
    | .reinstate userId reason =>
      administrator (fun actor => .suspension (.reinstateRead actor userId reason))
    | .requestDeletion => .deletionRead user.id
    | .saveMine input => .saveRead user.id input
    | .quote listingId request => .pricing user.id listingId request

def resolved (r : Resolving) (user : MirroredUser) : Call :=
  match r.cause with
  | .request secondFactor request => authorise secondFactor request user
  | .event externalId => .processing externalId

/-- After `upsert`: a deleted account is left alone, and a stale address is put
right. -/
def upserted (r : Resolving) (user : MirroredUser) : Call :=
  if user.deletedAt.isSome then
    match r.cause with
    | .request _ _ => .returned .unauthorised
    | .event externalId => .processing externalId
  else if user.email = r.email then resolved r user
  else .correcting r user

/-- The statements of `resolveSession` and of an upserted user's event. -/
def nextResolving (t : Tables) (d : Draw) : Call → Option (Tables × Call)
  | .finding r => some (t, (t.users.findByClerkUserId r.clerkUserId).elim (.creating r) (upserted r))
  | .creating r =>
    if t.users.any (fun u => decide (u.clerkUserId = r.clerkUserId) || sameAddress u.email r.email) then
      some (t, .refinding r)
    else if t.users.any (fun u => u.id = d.id) then none
    else
      let user := Users.newUser d.id r.clerkUserId r.email
      some ({ t with users := t.users ++ [user] }, upserted r user)
  | .refinding r =>
    some (t, (t.users.findByClerkUserId r.clerkUserId).elim (.returned .userConflict) (upserted r))
  | .correcting r user =>
    -- A correction that collides keeps the stale address.
    if t.users.emailTaken user.id r.email then some (t, resolved r user)
    else
      let users := t.users.setEmail user.id r.email
      some ((users.findById user.id).elim (t, .returned .threw)
        (fun corrected => ({ t with users := users }, resolved r corrected)))
  | _ => none

def requirePending (t : Tables) (d : Draw) (approvalId : Id) (go : AdminApproval → Call) : Call :=
  match findApproval t.approvals approvalId with
  | none => .returned (.refused noSuchProposal)
  | some proposal =>
    let state := approvalState proposal d.now
    if state ≠ .pending then .returned (.conflict (alreadyDecided state)) else go proposal

def newApproval (id : Id) (actor : Administrator) (userId : Id) (role : UserRole) (reason : String)
    (now : Instant) : AdminApproval :=
  ⟨id, userId, role, actor.1.id, reason, addHours now approvalWindowHours, none, none⟩

def nextRole (t : Tables) (locked : Id → Bool) (d : Draw) : RoleCall → Option (Tables × Call)
  | .proposeRead actor userId role reason =>
    match t.users.findById userId with
    | none => some (t, .returned (.refused noSuchAccount))
    | some target =>
      if target.deletedAt.isSome then some (t, .returned (.refused accountDeleted))
      else if target.role = role then some (t, .returned (.refused (alreadyRole role)))
      else if removesAdministrator target (some role) then
        some (t, .role (.proposeCount actor target role reason))
      else some (t, .role (.proposeWrite actor userId role reason))
  | .proposeCount actor target role reason =>
    if t.users.countAdministrators ≤ 1 then some (t, .returned (.refused lastAdministrator))
    else some (t, .role (.proposeWrite actor target.id role reason))
  | .proposeWrite actor userId role reason =>
    if t.approvals.any (fun a => a.id = d.id) then none
    else
      let row := newApproval d.id actor userId role reason d.now
      some ({ t with approvals := t.approvals ++ [row] }, .returned (.proposed row))
  | .approveFind actor approvalId reason =>
    some (t, requirePending t d approvalId (fun proposal =>
      if proposal.proposedById = actor.1.id then .returned (.refused ownProposal)
      else .role (.approveRead actor proposal reason)))
  | .approveRead actor proposal reason =>
    match t.users.findById proposal.userId with
    | none => some (t, .returned (.refused accountGone))
    | some target =>
      if target.deletedAt.isSome then some (t, .returned (.refused accountGone))
      else if removesAdministrator target (some proposal.role) then
        some (t, .role (.approveCount actor proposal reason))
      else some (t, .role (.approveClaim actor proposal reason none))
  | .approveCount actor proposal reason =>
    if t.users.countAdministrators ≤ 1 then some (t, .returned (.refused lastAdministrator))
    else some (t, .role (.approveClaim actor proposal reason (some t.users.countAdministrators)))
  | .approveClaim actor proposal reason counted =>
    -- The row lock of an open transaction makes this one wait.
    if locked proposal.id then none
    else
      let decision : Decision := ⟨actor.1.id, reason, d.now⟩
      match findApproval t.approvals proposal.id with
      | none => some (t, .returned (.conflict noLongerPending))
      | some row =>
        if claimable row decision then some (t, .role (.approveApply actor decision row counted))
        else some (t, .returned (.conflict noLongerPending))
  | .approveApply _ decision claimed _ =>
    if (t.users.findById claimed.userId).isNone then some (t, .returned .threw)
    else some ({ t with
        approvals := updateApproval t.approvals claimed.id (fun a => { a with approved := some decision })
        users := t.users.setRole claimed.userId claimed.role },
      .returned (.approved { claimed with approved := some decision }))
  | .cancelFind actor approvalId reason =>
    some (t, requirePending t d approvalId (fun _ => .role (.cancelWrite actor approvalId reason)))
  | .cancelWrite actor approvalId reason =>
    if locked approvalId then none
    else
      let decision : Decision := ⟨actor.1.id, reason, d.now⟩
      match findApproval t.approvals approvalId with
      | none => some (t, .returned (.conflict noLongerPending))
      | some row =>
        if cancellable row then
          some ({ t with
              approvals := updateApproval t.approvals approvalId (fun a => { a with cancelled := some decision }) },
            .returned (.cancelled { row with cancelled := some decision }))
        else some (t, .returned (.conflict noLongerPending))

/-- `requireSuspendable`, and what each direction asks of its target. -/
def requireSuspendable (t : Tables) (userId : Id) (go : MirroredUser → Call) : Call :=
  match t.users.findById userId with
  | none => .returned (.refused noSuchAccount)
  | some target => if target.deletedAt.isSome then .returned (.refused accountDeleted) else go target

def nextSuspension (t : Tables) (d : Draw) : SuspensionCall → Tables × Call
  | .read actor userId reason =>
    if userId = actor.1.id then (t, .returned (.refused ownSuspension))
    else (t, requireSuspendable t userId (fun target =>
      if target.suspension.isSome then .returned (.refused alreadySuspended)
      else if removesAdministrator target none then .suspension (.count actor target reason)
      else .suspension (.write actor target reason none)))
  | .count actor target reason =>
    if t.users.countAdministrators ≤ 1 then (t, .returned (.refused lastAdministrator))
    else (t, .suspension (.write actor target reason (some t.users.countAdministrators)))
  | .write actor target reason _ =>
    ({ t with users := t.users.setSuspension target.id (some ⟨d.now, actor.1.id, reason⟩) },
      .returned (.suspended target.id))
  | .reinstateRead actor userId reason =>
    (t, requireSuspendable t userId (fun target =>
      if target.suspension.isNone then .returned (.refused notSuspended)
      else .suspension (.reinstateWrite actor target reason)))
  | .reinstateWrite _ target _ =>
    ({ t with users := t.users.setSuspension target.id none }, .returned (.reinstated target.id))

/-- Where an erasure goes once it is recorded. -/
def EraseCause.done : EraseCause → Call
  | request => .returned .deleted
  | event externalId => .processing externalId

def unbooked (t : Tables) (row : QuoteRow) : Bool :=
  t.booking.bookings.all (fun b => b.quoteId ≠ row.id)

/-- `eraseAndTombstone`, module by module and then the account. That it is closed stays, whether
or not the trail then records it. -/
def nextErasing (t : Tables) (d : Draw) (stage : EraseStage) (user : MirroredUser) (cause : EraseCause) :
    Tables × Call :=
  match stage with
  | .profile =>
    ({ t with
        profiles := t.profiles.filter (fun p => p.userId ≠ user.id)
        addresses := t.addresses.filter (fun a => a.userId ≠ user.id) }, .erasing .listings user cause)
  | .listings => (t, .erasing .quotes user cause)
  | .quotes =>
    ({ t with quotes := t.quotes.filter (fun q => !(decide (q.renterId = user.id) && unbooked t q)) },
      .erasing .activity user cause)
  | .activity => (t, .erasing .tombstone user cause)
  | .tombstone =>
    if t.users.emailTaken user.id (tombstoneEmail user.id) then (t, .returned .userConflict)
    else ({ t with users := t.users.tombstone user.id d.now }, .recording user cause)

/-- `save`: the profile and the address, as one unit. -/
def saveProfile (w : Wiring) (t : Tables) (userId : Id) (input : ProfileInput) : Tables :=
  { t with
    profiles := t.profiles.filter (fun p => p.userId ≠ userId) ++
      [⟨userId, input.displayName, input.phone, input.ownerStatus⟩]
    addresses := t.addresses.filter (fun a => a.userId ≠ userId) ++
      (input.address.map (fun a =>
        (⟨userId, a.postcode, a.town, w.encrypt userId a.line1 a.line2⟩ : StoredAddress))).toList }

/-- The next statement of a call, and the tables it leaves. A call that waits
for a lock has none. -/
def next (w : Wiring) (t : Tables) (locked : Id → Bool) (d : Draw) : Call → Option (Tables × Call)
  | .finding r => nextResolving t d (.finding r)
  | .creating r => nextResolving t d (.creating r)
  | .refinding r => nextResolving t d (.refinding r)
  | .correcting r user => nextResolving t d (.correcting r user)
  | .claiming externalId event =>
    if t.deliveries.any (fun e => e.1 = externalId) then some (t, .returned (.applied false))
    else some ({ t with deliveries := t.deliveries ++ [(externalId, false)] },
      match event with
      | .upserted clerkUserId email => .finding ⟨clerkUserId, email, .event externalId⟩
      | .deleted clerkUserId => .deletedRead externalId clerkUserId)
  | .deletedRead externalId clerkUserId =>
    some (t, match t.users.findByClerkUserId clerkUserId with
      | none => .processing externalId
      | some user => if user.deletedAt.isSome then .processing externalId
        else .erasing .profile user (.event externalId))
  | .processing externalId =>
    some ({ t with deliveries := t.deliveries.map (fun e => if e.1 = externalId then (e.1, true) else e) },
      .returned (.applied true))
  | .role c => nextRole t locked d c
  | .suspension c => some (nextSuspension t d c)
  | .deletionRead userId =>
    some (t, match t.users.findById userId with
      | none => .returned .deleted
      | some user => if user.deletedAt.isSome then .returned .deleted else .erasing .profile user .request)
  | .erasing stage user cause => some (nextErasing t d stage user cause)
  | .recording _ cause => some (t, cause.done)
  | .saveRead userId input => some (t, .saveWrite userId input)
  | .saveWrite userId input => some (saveProfile w t userId input, .returned .saved)
  | .pricing userId listingId request =>
    some (t, match Deadlines.quoteAt w.quoting ⟨d.now, t.quotes, t.booking⟩ d.now d.world d.id listingId
        userId request with
      | .error sentence => .returned (.refused sentence)
      | .ok none => .returned .notFound
      | .ok (some row) => .quoteWrite row)
  | .quoteWrite row =>
    some (if quoteAllowed row && t.quotes.all (fun q => q.id ≠ row.id) then
      ({ t with quotes := t.quotes ++ [row] }, .returned (.quoted row))
    else (t, .returned .threw))
  | .returned _ => none

/-- A request arrives, or a delivery, or a call runs its next statement. A
statement that fails ends its call and rolls back what it had not committed. -/
inductive Action where
  | request (clerkUserId email : String) (secondFactor : Bool) (r : Request)
  | event (externalId : String) (event : Event)
  | exec (i : Nat) (d : Draw)

def exec (w : Wiring) (s : State) (i : Nat) (d : Draw) : Option State :=
  (s.calls[i]?).bind (fun c =>
    if c.isReturned then none
    else if d.fails then some (s.setCall i (.returned .threw))
    else (next w s.tables s.locked d c).map (fun r => { s with tables := r.1 }.setCall i r.2))

def step (w : Wiring) (s : State) : Action → Option State
  | .request clerkUserId email secondFactor r =>
    some { s with calls := s.calls ++ [.finding ⟨clerkUserId, email, .request secondFactor r⟩] }
  | .event externalId event => some { s with calls := s.calls ++ [.claiming externalId event] }
  | .exec i d => exec w s i d

end RentalMarket.Identity
