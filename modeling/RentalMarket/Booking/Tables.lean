import RentalMarket.Booking.Availability

namespace RentalMarket.Booking

open BookingState

/-- The two tables of the booking store, each of whose calls is one
transaction here. -/
structure Tables where
  bookings : List BookingRow
  events : List BookingEvent
  deriving DecidableEq, Repr

namespace Tables

def empty : Tables := ⟨[], []⟩

def find (r : Tables) (id : Id) : Option BookingRow := r.bookings.find? (fun row => row.id = id)

def findForParty (ownerOf : Id → Option Id) (r : Tables) (bookingId userId : Id) : Option BookingRow :=
  (r.find bookingId).filter (fun row => row.renterId = userId ∨ ownerOf row.listingId = some userId)

def move (r : Tables) (ids : List Id) (state : BookingState) : List BookingRow :=
  r.bookings.map (fun row => if row.id ∈ ids then { row with state := state } else row)

def advance (r : Tables) (bookingId : Id) (src dst : BookingState) (actorId : Option Id) :
    Option Tables :=
  (r.find bookingId).bind (fun row =>
    if row.state = src then
      some ⟨r.move [bookingId] dst, r.events ++ [stateChangedEvent bookingId src dst actorId]⟩
    else none)

def quiet (r : Tables) : State := { State.empty with bookings := r.bookings, events := r.events }

/-- `createWithEvent`: `none` where a constraint refuses the row. -/
def createWithEvent (r : Tables) (booking : BookingRow) : Option Tables :=
  if rowAllowed booking && r.bookings.all (fun row => row.id ≠ booking.id && row.quoteId ≠ booking.quoteId) then
    some ⟨r.bookings ++ [booking], r.events ++ [requestedEvent booking]⟩
  else none

/-- What an acceptance writes: the answer, then the requests it runs into. -/
def accepting (r : Tables) (booking : BookingRow) (ownerId : Id) : Tables :=
  let answered : Tables := ⟨r.move [booking.id] accepted,
    r.events ++ [stateChangedEvent booking.id requested accepted (some ownerId)]⟩
  let conflicts := answered.quiet.conflictsWith booking
  ⟨answered.move conflicts declined, answered.events ++ conflicts.map (autoDeclinedEvent booking.id)⟩

/-- `accept`: `none` for a booking that is not this owner's, is no longer a live
request, or whose dates are taken. -/
def accept (ownerOf : Id → Option Id) (r : Tables) (bookingId ownerId : Id) (now : Instant) :
    Option Tables :=
  (r.quiet.findForOwner ownerOf bookingId ownerId).bind (fun booking =>
    if booking.state ≠ requested ∨ booking.requestExpiresAt ≤ now ∨ r.quiet.excluded booking accepted then
      none
    else some (r.accepting booking ownerId))

/-- `expireRequests`: the longest overdue requests, at most `limit` of them. -/
def expireRequests (r : Tables) (now : Instant) (limit : Nat) : Tables :=
  let ids := r.quiet.expiryCandidates now limit
  ⟨r.move ids expired, r.events ++ ids.map (fun id => stateChangedEvent id requested expired none)⟩

def stateOf (r : Tables) (id : Id) : Option BookingState := (r.find id).map (·.state)

theorem find_move (r : Tables) (ids : List Id) (state : BookingState) (events : List BookingEvent)
    (id : Id) : find ⟨r.move ids state, events⟩ id =
      (r.find id).map (fun row => if id ∈ ids then { row with state := state } else row) := by
  unfold find move
  induction r.bookings with
  | nil => rfl
  | cons row rows ih =>
    have hid : (if row.id ∈ ids then { row with state := state } else row : BookingRow).id = row.id := by
      split <;> rfl
    rw [List.map_cons, List.find?_cons, List.find?_cons, hid]
    by_cases h : row.id = id
    · simp [h]
    · simp [h, ih]

theorem mem_move {r : Tables} {ids : List Id} {state : BookingState} {row : BookingRow}
    (h : row ∈ r.move ids state) : ∃ old ∈ r.bookings,
      row = old ∧ old.id ∉ ids ∨ row = { old with state := state } ∧ old.id ∈ ids := by
  obtain ⟨old, hold, rfl⟩ := List.mem_map.mp h
  refine ⟨old, hold, ?_⟩
  split
  · rename_i hid
    exact .inr ⟨rfl, hid⟩
  · rename_i hid
    exact .inl ⟨rfl, hid⟩

theorem move_ids (r : Tables) (ids : List Id) (state : BookingState) :
    (r.move ids state).map (·.id) = r.bookings.map (·.id) := by
  rw [move, List.map_map]
  apply List.map_congr_left
  intro row _
  simp only [Function.comp_apply]
  split <;> rfl

theorem find_id {r : Tables} {id : Id} {row : BookingRow} (h : r.find id = some row) : row.id = id := by
  simpa using List.find?_some h

/-- A compare-and-set: it takes place exactly where the row is in the state it
names. -/
theorem advance_eq_some {r r' : Tables} {id : Id} {src dst : BookingState} {actorId : Option Id}
    (h : r.advance id src dst actorId = some r') : r.stateOf id = some src ∧
      r' = ⟨r.move [id] dst, r.events ++ [stateChangedEvent id src dst actorId]⟩ := by
  obtain ⟨row, hrow, h⟩ := Option.bind_eq_some_iff.mp h
  split at h
  · rename_i hs
    cases h
    exact ⟨by rw [stateOf, hrow, Option.map_some, hs], rfl⟩
  · cases h

theorem advance_eq_none {r : Tables} {id : Id} {src dst : BookingState} {actorId : Option Id}
    (h : r.advance id src dst actorId = none) : r.stateOf id ≠ some src := by
  intro hs
  obtain ⟨row, hrow, hstate⟩ := Option.map_eq_some_iff.mp hs
  simp [advance, hrow, hstate] at h

theorem stateOf_advance {r r' : Tables} {id : Id} {src dst : BookingState} {actorId : Option Id}
    (h : r.advance id src dst actorId = some r') (other : Id) :
    r'.stateOf other = if other = id then some dst else r.stateOf other := by
  obtain ⟨hs, rfl⟩ := advance_eq_some h
  rw [stateOf, find_move, Option.map_map]
  by_cases he : other = id
  · subst he
    obtain ⟨row, hrow, -⟩ := Option.map_eq_some_iff.mp hs
    simp [hrow]
  · simp [he, stateOf, Function.comp_def]

end Tables

end RentalMarket.Booking
