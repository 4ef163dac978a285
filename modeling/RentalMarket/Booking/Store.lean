import RentalMarket.Booking.StateMachine
import RentalMarket.Booking.Period
import RentalMarket.Pricing.FeePolicy
import RentalMarket.Lib.Runs
import Mathlib.Data.List.Sort
import Mathlib.Data.Prod.Lex

namespace RentalMarket.Booking

open RentalMarket.Core BookingState

/-- A row of `bookings`. The three amounts and the excess share one currency. -/
structure BookingRow where
  id : Id
  listingId : Id
  renterId : Id
  state : BookingState
  period : Period
  timeZone : String
  quoteId : Id
  categoryVersionId : Id
  itemChargeAmount : Int
  renterFeeAmount : Int
  totalAmount : Int
  currency : Currency
  itemTitle : String
  categoryName : String
  damageExcess : Option (Int × Pricing.ExcessBound)
  requestExpiresAt : Instant
  deriving DecidableEq, Repr

inductive BookingEventType where
  | requested
  | stateChanged
  | autoDeclined
  deriving DecidableEq, Repr

/-- A row of `booking_events`. A null actor is the platform itself. -/
structure BookingEvent where
  bookingId : Id
  type : BookingEventType
  fromState : Option BookingState
  toState : Option BookingState
  actorId : Option Id
  metadata : List (String × String)
  deriving DecidableEq, Repr

/-- The `CHECK` constraints of `bookings`. -/
def rowAllowed (row : BookingRow) : Bool :=
  decide (row.period.endAt > row.period.startAt) && decide (row.itemChargeAmount ≥ 0) &&
    decide (row.renterFeeAmount ≥ 0) &&
    decide (row.totalAmount = row.itemChargeAmount + row.renterFeeAmount) &&
    row.damageExcess.all (fun e => decide (e.1 ≥ 0))

/-- The states in the `WHERE` of `booking_periods_do_not_overlap`. -/
def excludeStates : List BookingState :=
  [accepted, awaitingPayment, paymentFailed, reserved, readyForCollection, securityFailed,
    collected, returnDue, late]

def requestedEvent (row : BookingRow) : BookingEvent :=
  ⟨row.id, .requested, none, some requested, some row.renterId, []⟩

def stateChangedEvent (id : Id) (src dst : BookingState) (actorId : Option Id) : BookingEvent :=
  ⟨id, .stateChanged, some src, some dst, actorId, []⟩

def autoDeclinedEvent (conflicting id : Id) : BookingEvent :=
  ⟨id, .autoDeclined, some requested, some declined, none,
    [("reason", "AUTO_DECLINED_CONFLICT"), ("conflictingBookingId", conflicting)]⟩

abbrev Pid := Nat

inductive Outcome where
  | created (row : BookingRow)
  | accepted (row : BookingRow) (autoDeclinedIds : List Id)
  | declined (id : Id)
  | advanced (id : Id)
  | swept (ids : List Id)
  | nothing
  deriving DecidableEq, Repr

/-- A store call between two statements: what it runs next, and the locals
that statement needs. Multi-row updates take their row locks one at a time. -/
inductive Proc where
  | idle
  | createRow (booking : BookingRow)
  | createEvent (booking : BookingRow)
  | acceptRead (bookingId ownerId : Id) (now : Instant)
  | acceptUpdate (booking : BookingRow) (ownerId : Id)
  | acceptEvent (booking : BookingRow) (ownerId : Id)
  | acceptConflicts (booking : BookingRow)
  | autoDecline (booking : BookingRow) (done todo : List Id)
  | declineRead (bookingId ownerId : Id)
  | declineUpdate (bookingId ownerId : Id)
  | declineEvent (bookingId ownerId : Id)
  | advanceUpdate (bookingId : Id) (src dst : BookingState) (actorId : Option Id)
  | advanceEvent (bookingId : Id) (src dst : BookingState) (actorId : Option Id)
  | sweepRead (now : Instant) (limit : Nat)
  | sweepUpdate (now : Instant) (done todo : List Id)
  | commit (outcome : Outcome)
  deriving DecidableEq, Repr

/-- The two tables as committed, and what the open transactions hold: for each
locked row the transaction and the state it wrote, the rows inserted, the
events inserted. -/
structure State where
  bookings : List BookingRow
  events : List BookingEvent
  dirty : Id → Option (Pid × BookingState)
  inserting : List (Pid × BookingRow)
  logged : Pid → List BookingEvent
  procs : Pid → Proc

namespace State

def empty : State := ⟨[], [], fun _ => none, [], fun _ => [], fun _ => .idle⟩

def find (s : State) (id : Id) : Option BookingRow := s.bookings.find? (fun r => r.id = id)

def setProc (s : State) (t : Pid) (p : Proc) : State :=
  { s with procs := Function.update s.procs t p }

def log (s : State) (t : Pid) (es : List BookingEvent) : State :=
  { s with logged := Function.update s.logged t (s.logged t ++ es) }

def unlocked (s : State) (t : Pid) (id : Id) : Bool :=
  (s.dirty id).all (fun w => w.1 = t)

def write (s : State) (t : Pid) (id : Id) (state : BookingState) : State :=
  { s with dirty := Function.update s.dirty id (some (t, state)) }

/-- Whether some version of a row, committed or not, holds the calendar. -/
def mayOccupy (s : State) (row : BookingRow) : Bool :=
  excludeStates.contains row.state ||
    (s.dirty row.id).any (fun w => excludeStates.contains w.2)

/-- The exclusion constraint, as it meets a write of `state` to `row`. An
uncommitted rival makes the writer wait just as a committed one stops it. -/
def excluded (s : State) (row : BookingRow) (state : BookingState) : Bool :=
  excludeStates.contains state && s.bookings.any (fun other =>
    decide (other.id ≠ row.id) && decide (other.listingId = row.listingId) &&
      Period.rangeOverlaps other.period row.period && s.mayOccupy other)

/-- `UPDATE bookings SET state WHERE id`. Not enabled while the row lock is
held elsewhere or the exclusion constraint stands in the way. -/
def update (s : State) (t : Pid) (row : BookingRow) (state : BookingState) : Option State :=
  if s.unlocked t row.id && !s.excluded row state then some (s.write t row.id state) else none

def conflictsWith (s : State) (booking : BookingRow) : List Id :=
  (s.bookings.filter (fun r => decide (r.id ≠ booking.id) &&
    decide (r.listingId = booking.listingId) && decide (r.state = requested) &&
    Period.overlaps booking.period.startAt booking.period.endAt r.period)).map (·.id)

def overdue (now : Instant) (row : BookingRow) : Bool :=
  decide (row.state = requested) && decide (row.requestExpiresAt ≤ now)

def expiryOrder (r r' : BookingRow) : Prop :=
  r.requestExpiresAt < r'.requestExpiresAt ∨ r.requestExpiresAt = r'.requestExpiresAt ∧ r.id ≤ r'.id

instance : DecidableRel expiryOrder := fun _ _ => inferInstanceAs (Decidable (_ ∨ _))

/-- Overdue requests, longest overdue first, at most `limit` of them. -/
def expiryCandidates (s : State) (now : Instant) (limit : Nat) : List Id :=
  (((s.bookings.filter (overdue now)).insertionSort expiryOrder).take limit).map (·.id)

/-- A row as the commit of `t` leaves it. -/
def settle (s : State) (t : Pid) (row : BookingRow) : BookingRow :=
  match s.dirty row.id with
  | some (u, state) => if u = t then { row with state := state } else row
  | none => row

/-- Release every lock of `t` and forget what it had not committed. -/
def release (s : State) (t : Pid) : State :=
  { s with
    dirty := fun id => (s.dirty id).filter (fun w => w.1 ≠ t)
    inserting := s.inserting.filter (fun i => i.1 ≠ t)
    logged := Function.update s.logged t []
    procs := Function.update s.procs t .idle }

def commit (s : State) (t : Pid) : State :=
  { s.release t with
    bookings := s.bookings.map (s.settle t) ++
      (s.inserting.filter (fun i => i.1 = t)).map (·.2)
    events := s.events ++ s.logged t }

end State

inductive Op where
  | createWithEvent (booking : BookingRow)
  | accept (bookingId ownerId : Id) (now : Instant)
  | decline (bookingId ownerId : Id) (now : Instant)
  | advance (bookingId : Id) (src dst : BookingState) (actorId : Option Id)
  | expireRequests (now : Instant) (limit : Nat)
  deriving DecidableEq, Repr

/-- The first statement of a call. A booking is created in the state that
`assertTransition` gives for a request, and `advance` is only called with a
move the state machine allows. -/
def Op.start : Op → Option Proc
  | .createWithEvent booking =>
    match assertTransition draft requested with
    | .ok state => some (.createRow { booking with state := state })
    | .error _ => none
  | .accept bookingId ownerId now => some (.acceptRead bookingId ownerId now)
  | .decline bookingId ownerId _ => some (.declineRead bookingId ownerId)
  | .advance bookingId src dst actorId =>
    match assertTransition src dst with
    | .ok dst => some (.advanceUpdate bookingId src dst actorId)
    | .error _ => none
  | .expireRequests now limit => some (.sweepRead now limit)

open State

variable (ownerOf : Id → Option Id)

def State.findForOwner (s : State) (bookingId ownerId : Id) : Option BookingRow :=
  (s.find bookingId).filter (fun r => ownerOf r.listingId = some ownerId)

/-- Run the next statement of `t`. A thrown refusal rolls the transaction back
and leaves the call idle. -/
def exec (s : State) (t : Pid) : Option State :=
  match s.procs t with
  | .idle => none
  | .createRow booking =>
    if rowAllowed booking && s.bookings.all (fun r => r.id ≠ booking.id && r.quoteId ≠ booking.quoteId)
        && s.inserting.all (fun i => i.2.id ≠ booking.id && i.2.quoteId ≠ booking.quoteId) then
      some ({ s with inserting := s.inserting ++ [(t, booking)] }.setProc t (.createEvent booking))
    else none
  | .createEvent booking =>
    some ((s.log t [requestedEvent booking]).setProc t (.commit (.created booking)))
  | .acceptRead bookingId ownerId now =>
    match s.findForOwner ownerOf bookingId ownerId with
    | none => some (s.setProc t (.commit .nothing))
    | some booking =>
      if booking.state ≠ requested then some (s.release t)
      else if booking.requestExpiresAt ≤ now then some (s.release t)
      else some (s.setProc t (.acceptUpdate booking ownerId))
  | .acceptUpdate booking ownerId =>
    (s.update t booking accepted).map (fun s' => s'.setProc t (.acceptEvent booking ownerId))
  | .acceptEvent booking ownerId =>
    some ((s.log t [stateChangedEvent booking.id requested accepted (some ownerId)]).setProc t
      (.acceptConflicts booking))
  | .acceptConflicts booking =>
    some (s.setProc t (.autoDecline booking [] (s.conflictsWith booking)))
  | .autoDecline booking done (id :: todo) =>
    if s.unlocked t id then
      some ((s.write t id declined).setProc t (.autoDecline booking (done ++ [id]) todo))
    else none
  | .autoDecline booking done [] =>
    some ((s.log t (done.map (autoDeclinedEvent booking.id))).setProc t
      (.commit (.accepted booking done)))
  | .declineRead bookingId ownerId =>
    match s.findForOwner ownerOf bookingId ownerId with
    | none => some (s.setProc t (.commit .nothing))
    | some booking =>
      if booking.state ≠ requested then some (s.release t)
      else some (s.setProc t (.declineUpdate bookingId ownerId))
  | .declineUpdate bookingId ownerId =>
    if s.unlocked t bookingId then
      some ((s.write t bookingId declined).setProc t (.declineEvent bookingId ownerId))
    else none
  | .declineEvent bookingId ownerId =>
    some ((s.log t [stateChangedEvent bookingId requested declined (some ownerId)]).setProc t
      (.commit (.declined bookingId)))
  | .advanceUpdate bookingId src dst actorId =>
    match s.find bookingId with
    | none => some (s.setProc t (.commit .nothing))
    | some row =>
      if row.state = src then
        (s.update t row dst).map (fun s' => s'.setProc t (.advanceEvent bookingId src dst actorId))
      else some (s.setProc t (.commit .nothing))
  | .advanceEvent bookingId src dst actorId =>
    some ((s.log t [stateChangedEvent bookingId src dst actorId]).setProc t
      (.commit (.advanced bookingId)))
  | .sweepRead now limit =>
    some (s.setProc t (.sweepUpdate now [] (s.expiryCandidates now limit)))
  | .sweepUpdate now done (id :: todo) =>
    match s.find id with
    | none => some (s.setProc t (.sweepUpdate now done todo))
    | some row =>
      if overdue now row then
        (s.update t row expired).map (fun s' => s'.setProc t (.sweepUpdate now (done ++ [id]) todo))
      else some (s.setProc t (.sweepUpdate now done todo))
  | .sweepUpdate _ done [] =>
    some ((s.log t (done.map (fun id => stateChangedEvent id requested expired none))).setProc t
      (.commit (.swept done)))
  | .commit _ => some (s.commit t)

/-- A call begins, runs its next statement, or is rolled back: a refused
constraint, a deadlock and a lost connection all end in `abort`, and the retry
after a deadlock is a new call. -/
inductive Action where
  | call (t : Pid) (op : Op)
  | exec (t : Pid)
  | abort (t : Pid)
  deriving DecidableEq, Repr

def step (s : State) : Action → Option State
  | .call t op => if s.procs t = .idle then op.start.map (s.setProc t) else none
  | .exec t => exec ownerOf s t
  | .abort t => if s.procs t = .idle then none else some (s.release t)

end RentalMarket.Booking
