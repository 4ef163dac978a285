import RentalMarket.Booking.ExpirySweep

namespace RentalMarket.Booking

open BookingState State

structure PendingRequest where
  booking : BookingRow
  conflictCount : Nat
  deriving DecidableEq, Repr

structure AcceptanceResult where
  booking : BookingRow
  autoDeclinedIds : List Id
  deriving DecidableEq, Repr

inductive AcceptanceError where
  | stateChanged (bookingId : Id) (state : BookingState)
  | overlapping (bookingId : Id)
  deriving DecidableEq, Repr

def startOrder (r r' : BookingRow) : Prop :=
  r.period.startAt < r'.period.startAt ∨ r.period.startAt = r'.period.startAt ∧ r.id ≤ r'.id

instance : DecidableRel startOrder := fun _ _ => inferInstanceAs (Decidable (_ ∨ _))

namespace Tables

section

variable (ownerOf : Id → Option Id) (r : Tables)

/-- The rows `findPendingRequests` reads. -/
def pendingRows (listingId ownerId : Id) (now : Instant) : List BookingRow :=
  (r.bookings.filter (fun row => decide (row.listingId = listingId) && decide (ownerOf row.listingId = some ownerId) &&
    decide (row.state = requested) && decide (row.requestExpiresAt > now))).insertionSort startOrder

def findPendingRequests (listingId ownerId : Id) (now : Instant) : List PendingRequest :=
  let rows := pendingRows ownerOf r listingId ownerId now
  rows.map (fun row => ⟨row, (rows.filter (fun other =>
    decide (other.id ≠ row.id) && Period.inMemoryOverlap other.period row.period)).length⟩)

/-- `accept` with its answer. A refusal that is thrown rolls everything back. -/
def acceptReturning (bookingId ownerId : Id) (now : Instant) :
    Except AcceptanceError (Option (AcceptanceResult × Tables)) :=
  match r.quiet.findForOwner ownerOf bookingId ownerId with
  | none => .ok none
  | some booking =>
    if booking.state ≠ requested then .error (.stateChanged bookingId booking.state)
    else if booking.requestExpiresAt ≤ now then .error (.stateChanged bookingId booking.state)
    else if r.quiet.excluded booking accepted then .error (.overlapping bookingId)
    else
      let answered : Tables := ⟨r.move [booking.id] accepted,
        r.events ++ [stateChangedEvent booking.id requested accepted (some ownerId)]⟩
      let autoDeclinedIds := answered.quiet.conflictsWith booking
      .ok (some (⟨{ booking with state := accepted }, autoDeclinedIds⟩,
        ⟨answered.move autoDeclinedIds declined,
          answered.events ++ autoDeclinedIds.map (autoDeclinedEvent booking.id)⟩))

end

/-- The request `other` is in the way of `row`, live or not. -/
def competes (row other : BookingRow) : Bool :=
  decide (other.id ≠ row.id) && decide (other.listingId = row.listingId) && decide (other.state = requested) &&
    Period.overlaps row.period.startAt row.period.endAt other.period

variable {ownerOf : Id → Option Id} {r : Tables} {listingId ownerId : Id} {now : Instant} {row : BookingRow}

theorem mem_pendingRows : row ∈ pendingRows ownerOf r listingId ownerId now ↔ row ∈ r.bookings ∧
    row.listingId = listingId ∧ ownerOf row.listingId = some ownerId ∧ row.state = requested ∧
      now < row.requestExpiresAt := by
  rw [pendingRows, List.mem_insertionSort, List.mem_filter]
  simp [and_assoc]

theorem mem_findPendingRequests {request : PendingRequest} :
    request ∈ r.findPendingRequests ownerOf listingId ownerId now ↔
      request.booking ∈ pendingRows ownerOf r listingId ownerId now ∧
        request.conflictCount = ((pendingRows ownerOf r listingId ownerId now).filter (fun other =>
          decide (other.id ≠ request.booking.id) &&
            Period.inMemoryOverlap other.period request.booking.period)).length := by
  rw [findPendingRequests, List.mem_map]
  constructor
  · rintro ⟨row, hrow, rfl⟩
    exact ⟨hrow, rfl⟩
  · rintro ⟨hrow, hcount⟩
    exact ⟨request.booking, hrow, by rw [← hcount]⟩

theorem conflictCount_eq (hrow : row ∈ pendingRows ownerOf r listingId ownerId now) :
    ((pendingRows ownerOf r listingId ownerId now).filter (fun other =>
      decide (other.id ≠ row.id) && Period.inMemoryOverlap other.period row.period)).length =
        r.bookings.countP (fun other => competes row other && decide (now < other.requestExpiresAt)) := by
  obtain ⟨-, rfl, howner, -, -⟩ := mem_pendingRows.mp hrow
  have hperm := List.perm_insertionSort startOrder (r.bookings.filter (fun other =>
    decide (other.listingId = row.listingId) && decide (ownerOf other.listingId = some ownerId) &&
      decide (other.state = requested) && decide (other.requestExpiresAt > now)))
  rw [← List.countP_eq_length_filter, pendingRows, hperm.countP_eq, List.countP_filter]
  apply List.countP_congr
  intro other _
  simp only [competes, ← Period.overlaps_eq_inMemoryOverlap, Bool.and_eq_true, decide_eq_true_eq]
  constructor
  · rintro ⟨⟨hid, hover⟩, ⟨⟨hlisting, -⟩, hstate⟩, hlive⟩
    exact ⟨⟨⟨⟨hid, hlisting⟩, hstate⟩, hover⟩, hlive⟩
  · rintro ⟨⟨⟨⟨hid, hlisting⟩, hstate⟩, hover⟩, hlive⟩
    exact ⟨⟨hid, hover⟩, ⟨⟨hlisting, hlisting ▸ howner⟩, hstate⟩, hlive⟩

theorem conflictsWith_eq (row : BookingRow) :
    r.quiet.conflictsWith row = (r.bookings.filter (competes row)).map (·.id) := rfl

theorem conflictsWith_accepted (events : List BookingEvent) :
    (quiet ⟨r.move [row.id] accepted, events⟩).conflictsWith row = r.quiet.conflictsWith row := by
  rw [conflictsWith_eq, conflictsWith_eq]
  simp only [move]
  induction r.bookings with
  | nil => rfl
  | cons other rows ih =>
    rw [List.map_cons, List.filter_cons, List.filter_cons]
    by_cases hid : other.id = row.id
    · have hout : competes row other = false := by simp [competes, hid]
      have hout' : competes row { other with state := accepted } = false := by simp [competes, hid]
      have hmem : other.id ∈ [row.id] := List.mem_singleton.mpr hid
      rw [if_pos hmem, hout, hout']
      exact ih
    · have hmem : other.id ∉ [row.id] := fun h => hid (List.mem_singleton.mp h)
      rw [if_neg hmem]
      split
      · rw [List.map_cons, List.map_cons, ih]
      · exact ih

theorem acceptReturning_pending (hn : (r.bookings.map (·.id)).Nodup)
    (hrow : row ∈ pendingRows ownerOf r listingId ownerId now) :
    r.acceptReturning ownerOf row.id ownerId now =
      if r.quiet.excluded row accepted then .error (.overlapping row.id)
      else .ok (some (⟨{ row with state := accepted }, r.quiet.conflictsWith row⟩, r.accepting row ownerId)) := by
  obtain ⟨hmem, -, howner, hstate, hlive⟩ := mem_pendingRows.mp hrow
  have hfind : r.quiet.findForOwner ownerOf row.id ownerId = some row := by
    have hfind' : r.quiet.find row.id = some row := Keyed.find?_key hn hmem
    rw [State.findForOwner, hfind', Option.filter_some_pos (by simpa using howner)]
  rw [acceptReturning, hfind]
  simp only [hstate, ne_eq, not_true_eq_false, if_false, not_le.mpr hlive, conflictsWith_accepted, accepting]

theorem accept_eq (bookingId : Id) : r.accept ownerOf bookingId ownerId now =
    match r.acceptReturning ownerOf bookingId ownerId now with
    | .ok (some (_, r')) => some r'
    | _ => none := by
  rw [accept, acceptReturning]
  cases r.quiet.findForOwner ownerOf bookingId ownerId with
  | none => rfl
  | some booking =>
    by_cases hstate : booking.state = requested
    · by_cases hlapsed : booking.requestExpiresAt ≤ now
      · simp [hstate, hlapsed]
      · by_cases hexcluded : r.quiet.excluded booking accepted = true
        · simp [hstate, hlapsed, hexcluded]
        · simp [hstate, hlapsed, hexcluded, accepting]
    · simp [hstate]

theorem countP_and_eq_iff {α : Type*} {p q : α → Bool} {l : List α} :
    l.countP (fun a => p a && q a) = l.countP p ↔ ∀ a ∈ l, p a = true → q a = true := by
  induction l with
  | nil => simp
  | cons a l ih =>
    have hle : l.countP (fun a => p a && q a) ≤ l.countP p := by
      apply List.countP_mono_left
      intro b _ hb
      exact (Bool.and_eq_true _ _ ▸ hb).1
    rw [List.countP_cons, List.countP_cons, List.forall_mem_cons, ← ih]
    cases hp : p a <;> cases hq : q a <;> simp
    omega

end Tables

/-- The count shown beside a request is the number its acceptance declines. -/
def Warns (ownerOf : Id → Option Id) (r : Tables) (ownerId : Id) (now : Instant) (request : PendingRequest) : Prop :=
  ∀ result r', r.acceptReturning ownerOf request.booking.id ownerId now = .ok (some (result, r')) →
    request.conflictCount = result.autoDeclinedIds.length

theorem warns_iff (ownerOf : Id → Option Id) (r : Tables) (hn : (r.bookings.map (·.id)).Nodup)
    (listingId ownerId : Id) (now : Instant) (request : PendingRequest)
    (h : request ∈ r.findPendingRequests ownerOf listingId ownerId now) :
    Warns ownerOf r ownerId now request ↔ r.quiet.excluded request.booking accepted = true ∨
      ∀ other ∈ r.bookings, Tables.competes request.booking other = true → now < other.requestExpiresAt := by
  obtain ⟨hrow, hcount⟩ := Tables.mem_findPendingRequests.mp h
  rw [Tables.conflictCount_eq hrow] at hcount
  rw [Warns, Tables.acceptReturning_pending hn hrow]
  by_cases hexcluded : r.quiet.excluded request.booking accepted = true
  · simp [hexcluded]
  · have hdeclined : (r.quiet.conflictsWith request.booking).length =
        r.bookings.countP (Tables.competes request.booking) := by
      rw [Tables.conflictsWith_eq, List.length_map, List.countP_eq_length_filter]
    have hlive : (∀ other ∈ r.bookings, Tables.competes request.booking other = true →
        decide (now < other.requestExpiresAt) = true) ↔
          request.conflictCount = (r.quiet.conflictsWith request.booking).length := by
      rw [hcount, hdeclined]
      exact Tables.countP_and_eq_iff.symm
    simp only [decide_eq_true_eq] at hlive
    rw [if_neg hexcluded, hlive]
    constructor
    · intro hwarns
      exact .inr (hwarns _ _ rfl)
    · rintro (hexcluded' | hsame) result r' hok
      · exact absurd hexcluded' hexcluded
      · cases hok
        exact hsame

theorem two_live_requests_are_announced :
    Warns (fun _ => some "owner") ⟨[lapsing "b1" 90, lapsing "b2" 90], []⟩ "owner" 50 ⟨lapsing "b1" 90, 1⟩ :=
  (warns_iff (fun _ => some "owner") ⟨[lapsing "b1" 90, lapsing "b2" 90], []⟩ (by decide +kernel) "drill" "owner" 50
    ⟨lapsing "b1" 90, 1⟩ (by decide +kernel)).mpr (.inr (by decide +kernel))

/-- The other request has lapsed and no sweep has been since: the owner is told
of no conflict, and the acceptance declines it. -/
theorem a_lapsed_request_is_declined_unannounced :
    Tables.findPendingRequests (fun _ => some "owner") ⟨[lapsing "b1" 90, lapsing "b2" 10], []⟩ "drill" "owner" 50 =
      [⟨lapsing "b1" 90, 0⟩] ∧
    (∃ result r', Tables.acceptReturning (fun _ => some "owner") ⟨[lapsing "b1" 90, lapsing "b2" 10], []⟩ "b1" "owner"
      50 = .ok (some (result, r')) ∧ result.autoDeclinedIds = ["b2"]) ∧
    ¬ Warns (fun _ => some "owner") ⟨[lapsing "b1" 90, lapsing "b2" 10], []⟩ "owner" 50 ⟨lapsing "b1" 90, 0⟩ := by
  have haccept : ∃ result r', Tables.acceptReturning (fun _ => some "owner")
      ⟨[lapsing "b1" 90, lapsing "b2" 10], []⟩ "b1" "owner" 50 = .ok (some (result, r')) ∧
        result.autoDeclinedIds = ["b2"] := ⟨_, _, rfl, by decide +kernel⟩
  refine ⟨by decide +kernel, haccept, fun hwarns => ?_⟩
  obtain ⟨result, r', hok, hids⟩ := haccept
  have hcount := hwarns result r' hok
  rw [hids] at hcount
  cases hcount

end RentalMarket.Booking
