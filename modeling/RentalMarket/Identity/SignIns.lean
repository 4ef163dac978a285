import RentalMarket.Identity.Statements
import RentalMarket.Identity.UserAgent

namespace RentalMarket.Identity.SignIns

open RentalMarket.Core RentalMarket.Booking Runs

inductive AuthenticationEventType where
  | started
  | ended
  | removed
  | revoked
  deriving DecidableEq, Repr

structure SessionActivity where
  ipAddress : Option String
  browserName : Option String
  browserVersion : Option String
  deviceType : Option String
  isMobile : Option Bool
  deriving DecidableEq, Repr

def noSessionActivity : SessionActivity := ⟨none, none, none, none, none⟩

/-- The payload of a `session.*` event, once it has parsed. -/
structure SessionPayload where
  id : String
  userId : String
  createdAt : Instant
  updatedAt : Instant
  deriving DecidableEq, Repr

/-- Where `event_attributes` say that a request came from. -/
structure HttpRequest where
  clientIp : Option String
  userAgent : Option String
  deriving DecidableEq, Repr

structure SessionRecorded where
  clerkUserId : String
  clerkSessionId : String
  event : AuthenticationEventType
  occurredAt : Instant
  activity : SessionActivity
  deriving DecidableEq, Repr

def sessionEvents : String → Option AuthenticationEventType
  | "session.created" => some .started
  | "session.ended" => some .ended
  | "session.removed" => some .removed
  | "session.revoked" => some .revoked
  | _ => none

/-- `mapClerkEvent`, on the types of a session. Any other type is ignored. -/
def mapClerkEvent (type : String) (payload : SessionPayload) (request : Option HttpRequest) :
    Option SessionRecorded :=
  (sessionEvents type).map (fun event =>
    let agent := parseUserAgent (request.bind (·.userAgent))
    { clerkUserId := payload.userId
      clerkSessionId := payload.id
      event := event
      -- the update is the ending: the provider has no other time for it
      occurredAt := if event = .started then payload.createdAt else payload.updatedAt
      activity := ⟨request.bind (·.clientIp), agent.browserName, agent.browserVersion, agent.deviceType,
        agent.isMobile⟩ })

/-- A row of `authentication_events`. -/
structure AuthenticationEvent where
  id : Id
  userId : Id
  clerkSessionId : String
  event : AuthenticationEventType
  occurredAt : Instant
  activity : SessionActivity
  deriving DecidableEq, Repr

def SessionRecorded.key (e : SessionRecorded) : String × AuthenticationEventType := (e.clerkSessionId, e.event)

def AuthenticationEvent.key (row : AuthenticationEvent) : String × AuthenticationEventType :=
  (row.clerkSessionId, row.event)

/-- `eraseActivity`, on one row. -/
def AuthenticationEvent.redacted (row : AuthenticationEvent) : AuthenticationEvent :=
  { row with activity := noSessionActivity }

/-- `validIpOrNull`: `isIP` is the platform's. -/
def validIpOrNull (isIP : String → Bool) (value : Option String) : Option String :=
  value.bind (fun raw => if isIP (Script.trim raw) then some (Script.trim raw) else none)

def newRow (isIP : String → Bool) (id userId : Id) (e : SessionRecorded) : AuthenticationEvent where
  id := id
  userId := userId
  clerkSessionId := e.clerkSessionId
  event := e.event
  occurredAt := e.occurredAt
  activity := { e.activity with ipAddress := validIpOrNull isIP e.activity.ipAddress }

inductive Answer where
  | duplicate
  | dropped
  | recorded (userId : Id)
  | threw
  deriving DecidableEq, Repr

inductive Call where
  | claiming (externalId : String) (e : SessionRecorded)
  | looking (externalId : String) (e : SessionRecorded)
  /-- The find of `upsert`. -/
  | finding (externalId : String) (e : SessionRecorded) (userId : Id)
  /-- The create of `upsert`. -/
  | inserting (externalId : String) (e : SessionRecorded) (userId : Id)
  | processing (externalId : String) (e : SessionRecorded) (answer : Answer)
  | returned (e : SessionRecorded) (answer : Answer)
  deriving DecidableEq

def Call.event : Call → SessionRecorded
  | claiming _ e => e
  | looking _ e => e
  | finding _ e _ => e
  | inserting _ e _ => e
  | processing _ e _ => e
  | returned e _ => e

structure State where
  accounts : Identity.State
  events : List AuthenticationEvent
  sessions : List Call

structure Wiring where
  identity : Identity.Wiring
  isIP : String → Bool

/-- The id the database draws for a row, and whether the statement fails. -/
structure Draw where
  id : Id
  fails : Bool

inductive Action where
  | account (a : Identity.Action)
  | deliver (externalId type : String) (payload : SessionPayload) (request : Option HttpRequest)
  | exec (i : Nat) (d : Draw)

def redacts (s : Identity.State) : Identity.Action → Option Id
  | .exec i d => match s.calls[i]? with
    | some (.erasing .activity user _) => if d.fails then none else some user.id
    | _ => none
  | _ => none

def redact (userId : Option Id) (events : List AuthenticationEvent) : List AuthenticationEvent :=
  events.map (fun row => if userId = some row.userId then row.redacted else row)

def State.setDeliveries (s : State) (deliveries : List (String × Bool)) : State :=
  { s with accounts := { s.accounts with tables := { s.accounts.tables with deliveries := deliveries } } }

def State.setCall (s : State) (i : Nat) (c : Call) : State := { s with sessions := s.sessions.set i c }

/-- One statement of `applyEvent` for a session event. -/
def next (w : Wiring) (s : State) (d : Draw) : Call → Option (State × Call)
  | .claiming externalId e =>
    if s.accounts.tables.deliveries.any (fun x => x.1 = externalId) then some (s, .returned e .duplicate)
    else some (s.setDeliveries (s.accounts.tables.deliveries ++ [(externalId, false)]), .looking externalId e)
  | .looking externalId e =>
    -- no account yet: dropped, with a warning
    some (s, (s.accounts.tables.users.findByClerkUserId e.clerkUserId).elim (.processing externalId e .dropped)
      (fun user => .finding externalId e user.id))
  | .finding externalId e userId =>
    if s.events.any (fun row => row.key = e.key) then some (s, .processing externalId e (.recorded userId))
    else some (s, .inserting externalId e userId)
  | .inserting externalId e userId =>
    if s.events.any (fun row => row.key = e.key) then some (s, .returned e .threw)
    else if s.events.any (fun row => row.id = d.id) then none
    else some ({ s with events := s.events ++ [newRow w.isIP d.id userId e] }, .processing externalId e (.recorded userId))
  | .processing externalId e answer =>
    some (s.setDeliveries (s.accounts.tables.deliveries.map (fun x => if x.1 = externalId then (x.1, true) else x)),
      .returned e answer)
  | .returned _ _ => none

def exec (w : Wiring) (s : State) (i : Nat) (d : Draw) : Option State :=
  (s.sessions[i]?).bind (fun c =>
    (next w s d c).map (fun r =>
      if d.fails then s.setCall i (.returned c.event .threw) else r.1.setCall i r.2))

def step (w : Wiring) (s : State) : Action → Option State
  | .account a =>
    (Identity.step w.identity s.accounts a).map (fun accounts =>
      { s with accounts := accounts, events := redact (redacts s.accounts a) s.events })
  | .deliver externalId type payload request =>
    match mapClerkEvent type payload request with
    | none => some s
    | some e => some { s with sessions := s.sessions ++ [.claiming externalId e] }
  | .exec i d => exec w s i d

end RentalMarket.Identity.SignIns
