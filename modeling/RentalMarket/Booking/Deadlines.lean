import RentalMarket.Booking.Acceptance
import RentalMarket.Booking.Quotes

namespace RentalMarket.Booking.Deadlines

open RentalMarket.Core RentalMarket.Pricing Runs BookingState

structure Wiring where
  zone : Zone
  percentageOf : PercentageOf
  versionOf : Id → Option CategoryVersion
  ownerOf : Id → Option Id

/-- What the other modules' tables hold at the instant of a call. -/
structure World where
  catalogue : Catalogue
  blocks : List AvailabilityBlock

/-- The clock is that of the last call. -/
structure State where
  clock : Instant
  quotes : List QuoteRow
  tables : Tables

def State.start (clock : Instant) : State := ⟨clock, [], .empty⟩

section

variable (w : Wiring)

/-- `QuotesService.quote`: the row it creates, or `none` for no such listing. -/
def quoteAt (s : State) (now : Instant) (world : World) (id listingId renterId : Id)
    (request : QuoteRequest) : Except String (Option QuoteRow) :=
  match world.catalogue.findQuotable w.versionOf listingId with
  | none => .ok none
  | some listing =>
    (examineQuote w.zone listing renterId request now).bind (fun period =>
      match reasonUnavailable world.blocks s.tables.bookings listing.id period with
      | some reason => .error (describeUnavailable reason)
      | none => (priceQuote w.percentageOf w.zone listing request period).map (fun priced =>
        some (newQuote id listing renterId period priced.1 priced.2 now)))

/-- `BookingsService.request`: the row it creates, or `none` for no such
quote. -/
def requestAt (s : State) (now : Instant) (world : World) (id quoteId renterId : Id) :
    Except String (Option BookingRow) :=
  match findForRenter s.quotes quoteId renterId with
  | none => .ok none
  | some quote =>
    if quote.expiresAt ≤ now then .error priceHasExpired
    else (examineRequest (world.catalogue.findQuotable w.versionOf quote.listingId) renterId).bind
      (fun listing =>
        match reasonUnavailable world.blocks s.tables.bookings quote.listingId quote.period with
        | some reason => .error (describeUnavailable reason)
        | none =>
          match assertTransition draft requested with
          | .error _ => .error "A booking cannot move from DRAFT to REQUESTED"
          | .ok state => .ok (some (newBooking id quote listing renterId state now)))

/-- `BookingsService.accept`: the tables it leaves, or `none` where there is
nothing to accept or the store refuses. -/
def acceptAt (s : State) (now : Instant) (blocks : List AvailabilityBlock) (bookingId ownerId : Id) :
    Except String (Option Tables) :=
  match s.tables.findForParty w.ownerOf bookingId ownerId with
  | none => .ok none
  | some booking =>
    if booking.state ≠ requested then .error Acceptance.noLongerWaiting
    else if booking.requestExpiresAt ≤ now then .error Acceptance.requestHasExpired
    else match reasonUnavailable blocks s.tables.bookings booking.listingId booking.period with
      | some reason => .error (describeUnavailableToOwner reason)
      | none =>
        match assertTransition requested accepted with
        | .error _ => .error "A booking cannot move from REQUESTED to ACCEPTED"
        | .ok _ => .ok (s.tables.accept w.ownerOf bookingId ownerId now)

inductive Action where
  | quote (now : Instant) (world : World) (id listingId renterId : Id) (request : QuoteRequest)
  | request (now : Instant) (world : World) (id quoteId renterId : Id)
  | accept (now : Instant) (blocks : List AvailabilityBlock) (bookingId ownerId : Id)
  | sweep (now : Instant) (limit : Nat)

def Action.now : Action → Instant
  | .quote now _ _ _ _ _ => now
  | .request now _ _ _ _ => now
  | .accept now _ _ _ => now
  | .sweep now _ => now

def perform (s : State) : Action → State
  | .quote now world id listingId renterId request =>
    match quoteAt w s now world id listingId renterId request with
    | .ok (some row) =>
      if quoteAllowed row && s.quotes.all (fun q => q.id ≠ row.id) then
        { s with quotes := s.quotes ++ [row] } else s
    | _ => s
  | .request now world id quoteId renterId =>
    match requestAt w s now world id quoteId renterId with
    | .ok (some row) => { s with tables := (s.tables.createWithEvent row).getD s.tables }
    | _ => s
  | .accept now blocks bookingId ownerId =>
    match acceptAt w s now blocks bookingId ownerId with
    | .ok (some tables) => { s with tables := tables }
    | _ => s
  | .sweep now limit => { s with tables := s.tables.expireRequests now limit }

/-- A call at an instant no earlier than the last. -/
def step (s : State) (a : Action) : Option State :=
  if s.clock ≤ a.now then some { perform w s a with clock := a.now } else none

/-- No quote that is given outlives its own first day, and no request that is
made its hire. A call that inserts nothing may come at any time. -/
def inTime (s : State) (a : Action) : Bool :=
  match a with
  | .quote now _ _ _ _ request =>
    decide ((perform w s a).quotes = s.quotes) ||
      decide (now + quoteValidityMs ≤ w.zone.startOfLocalDay (request.startDate + 1))
  | .request now world _ quoteId renterId =>
    decide ((perform w s a).tables.bookings = s.tables.bookings) ||
      (findForRenter s.quotes quoteId renterId).all (fun quote =>
        (world.catalogue.findQuotable w.versionOf quote.listingId).all (fun listing =>
          decide (addHours now listing.currentRequestExpiryHours ≤ quote.period.endAt)))
  | _ => true

def Enters (s s' : State) (row : BookingRow) (state : BookingState) : Prop :=
  row ∈ s'.tables.bookings ∧ row.state = state ∧ s.tables.stateOf row.id ≠ some state

/-- What deadlines kept in time are worth. -/
structure Kept (s : State) : Prop where
  ids : (s.tables.bookings.map (·.id)).Nodup
  quotes : ∀ q ∈ s.quotes, q.expiresAt ≤
    w.zone.startOfLocalDay (w.zone.toLocalDate q.period.startAt + 1)
  requests : ∀ row ∈ s.tables.bookings, row.state = requested → row.requestExpiresAt ≤ row.period.endAt

end

section

variable {w : Wiring} {s s' : State}

theorem stateOf_mem {r : Tables} (h : (r.bookings.map (·.id)).Nodup) {row : BookingRow}
    (hr : row ∈ r.bookings) : r.stateOf row.id = some row.state := by
  rw [Tables.stateOf, Tables.find, Keyed.find?_key h hr, Option.map_some]

theorem not_enters_move {ids : List Id} {state dst : BookingState} {events : List BookingEvent}
    {row : BookingRow} (h : Kept w s) (hne : dst ≠ state) :
    ¬Enters s { s with tables := ⟨s.tables.move ids dst, events⟩ } row state := by
  rintro ⟨hr, hs, hnew⟩
  obtain ⟨old, hold, ⟨rfl, -⟩ | ⟨rfl, -⟩⟩ := Tables.mem_move hr
  · rw [stateOf_mem h.ids hold, hs] at hnew
    exact hnew rfl
  · exact hne hs

theorem quoteAt_row {now : Instant} {world : World} {id listingId renterId : Id} {request : QuoteRequest}
    {row : QuoteRow} (h : quoteAt w s now world id listingId renterId request = .ok (some row)) :
    row.period.startAt = w.zone.startOfLocalDay request.startDate ∧
      row.expiresAt = now + quoteValidityMs := by
  unfold quoteAt at h
  split at h
  · cases h
  · obtain ⟨period, hperiod, h⟩ := Refusal.bind_eq_ok.mp h
    obtain ⟨-, hp, -, -⟩ := examineQuote_eq_ok hperiod
    split at h
    · cases h
    · obtain ⟨priced, -, h⟩ := Refusal.map_eq_ok.mp h
      cases h
      subst hp
      exact ⟨rfl, rfl⟩

/-- A request is made off a quote that is still good, and may be answered for
the hours its listing gives. -/
theorem requestAt_row {now : Instant} {world : World} {id quoteId renterId : Id} {row : BookingRow}
    (h : requestAt w s now world id quoteId renterId = .ok (some row)) :
    ∃ quote listing, findForRenter s.quotes quoteId renterId = some quote ∧ now < quote.expiresAt ∧
      world.catalogue.findQuotable w.versionOf quote.listingId = some listing ∧
      row = newBooking id quote listing renterId requested now := by
  unfold requestAt at h
  split at h
  · cases h
  · rename_i quote hquote
    obtain ⟨hlive, h⟩ := Refusal.ite_error_eq_ok.mp h
    obtain ⟨listing, hlisting, h⟩ := Refusal.bind_eq_ok.mp h
    have hfound : world.catalogue.findQuotable w.versionOf quote.listingId = some listing := by
      unfold examineRequest at hlisting
      split at hlisting
      · cases hlisting
      · rename_i found hfound
        obtain ⟨-, hlisting⟩ := Refusal.ite_error_eq_ok.mp hlisting
        cases hlisting
        exact hfound
    split at h
    · cases h
    · simp only [assertTransition] at h
      rw [if_pos (by decide)] at h
      cases h
      exact ⟨quote, listing, hquote, not_le.mp hlive, hfound, rfl⟩

theorem accept_eq_some {ownerOf : Id → Option Id} {r r' : Tables} {bookingId ownerId : Id} {now : Instant}
    (h : r.accept ownerOf bookingId ownerId now = some r') :
    ∃ booking, r.find bookingId = some booking ∧ booking.state = requested ∧
      now < booking.requestExpiresAt ∧ r' = r.accepting booking ownerId := by
  obtain ⟨booking, hbooking, h⟩ := Option.bind_eq_some_iff.mp h
  obtain ⟨hfind, -⟩ := Option.filter_eq_some_iff.mp hbooking
  split at h
  · cases h
  · rename_i hlive
    simp only [not_or, not_not, not_le] at hlive
    cases h
    exact ⟨booking, hfind, hlive.1, hlive.2.1, rfl⟩

theorem acceptAt_tables {now : Instant} {blocks : List AvailabilityBlock} {bookingId ownerId : Id}
    {tables : Tables} (h : acceptAt w s now blocks bookingId ownerId = .ok (some tables)) :
    s.tables.accept w.ownerOf bookingId ownerId now = some tables := by
  unfold acceptAt at h
  split at h
  · cases h
  · obtain ⟨-, h⟩ := Refusal.ite_error_eq_ok.mp h
    obtain ⟨-, h⟩ := Refusal.ite_error_eq_ok.mp h
    split at h
    · cases h
    · simp only [assertTransition] at h
      rw [if_pos (by decide)] at h
      exact Except.ok.inj h

theorem mem_createWithEvent {r : Tables} {booking row : BookingRow}
    (h : row ∈ ((r.createWithEvent booking).getD r).bookings) : row ∈ r.bookings ∨ row = booking := by
  unfold Tables.createWithEvent at h
  split at h
  · simpa using h
  · exact .inl h

theorem createWithEvent_ids {r : Tables} {booking : BookingRow} (h : (r.bookings.map (·.id)).Nodup) :
    (((r.createWithEvent booking).getD r).bookings.map (·.id)).Nodup := by
  unfold Tables.createWithEvent
  split
  · rename_i hnew
    rw [Bool.and_eq_true, List.all_eq_true] at hnew
    refine Keyed.nodup_append h (fun row hrow hid => ?_)
    simpa [hid] using hnew.2 row hrow
  · exact h

theorem mem_accepting {r : Tables} {booking row : BookingRow} {ownerId : Id}
    (h : row ∈ (r.accepting booking ownerId).bookings) : ∃ old ∈ r.bookings,
      row = old ∨ row = { old with state := accepted } ∧ old.id = booking.id ∨
        row = { old with state := declined } := by
  obtain ⟨mid, hmid, ⟨rfl, -⟩ | ⟨rfl, -⟩⟩ := Tables.mem_move h
  · obtain ⟨old, hold, ⟨rfl, -⟩ | ⟨rfl, hid⟩⟩ := Tables.mem_move hmid
    · exact ⟨_, hold, .inl rfl⟩
    · exact ⟨old, hold, .inr (.inl ⟨rfl, List.mem_singleton.mp hid⟩)⟩
  · obtain ⟨old, hold, ⟨rfl, -⟩ | ⟨rfl, -⟩⟩ := Tables.mem_move hmid
    · exact ⟨_, hold, .inr (.inr rfl)⟩
    · exact ⟨old, hold, .inr (.inr rfl)⟩

theorem accepting_ids (r : Tables) (booking : BookingRow) (ownerId : Id) :
    (r.accepting booking ownerId).bookings.map (·.id) = r.bookings.map (·.id) := by
  unfold Tables.accepting
  rw [Tables.move_ids, Tables.move_ids]

theorem Kept.perform {a : Action} (h : Kept w s) (ha : inTime w s a = true) :
    Kept w (perform w s a) := by
  cases a with
  | quote now world id listingId renterId request =>
    simp only [inTime, Bool.or_eq_true, Deadlines.perform] at ha ⊢
    split
    · rename_i row hrow
      simp only [hrow] at ha
      split
      · rename_i hallowed
        simp only [hallowed, if_true] at ha
        refine ⟨h.ids, fun q hq => ?_, h.requests⟩
        obtain hsame | hlive := ha
        · -- a row that is inserted changes the table
          simpa using congrArg List.length (of_decide_eq_true hsame)
        obtain hq | rfl := (by simpa using hq : q ∈ s.quotes ∨ q = row)
        · exact h.quotes q hq
        · obtain ⟨hstart, hexpires⟩ := quoteAt_row hrow
          rw [hstart, hexpires, w.zone.toLocalDate_startOfLocalDay]
          exact of_decide_eq_true hlive
      · exact h
    · exact h
  | request now world id quoteId renterId =>
    simp only [inTime, Bool.or_eq_true, Deadlines.perform] at ha ⊢
    split
    · rename_i row hrow
      simp only [hrow] at ha
      refine ⟨createWithEvent_ids h.ids, h.quotes, fun r hr hs => ?_⟩
      obtain hsame | hlive := ha
      · exact h.requests r (of_decide_eq_true hsame ▸ hr) hs
      obtain hr | rfl := mem_createWithEvent hr
      · exact h.requests r hr hs
      · obtain ⟨quote, listing, hquote, -, hlisting, rfl⟩ := requestAt_row hrow
        have hdeadline : addHours now listing.currentRequestExpiryHours ≤ quote.period.endAt := by
          simpa [hquote, hlisting] using hlive
        exact hdeadline
    · exact h
  | accept now blocks bookingId ownerId =>
    simp only [Deadlines.perform]
    split
    · rename_i tables htables
      obtain ⟨booking, -, -, -, rfl⟩ := accept_eq_some (acceptAt_tables htables)
      refine ⟨by rw [accepting_ids]; exact h.ids, h.quotes, fun r hr hs => ?_⟩
      obtain ⟨old, hold, rfl | ⟨rfl, -⟩ | rfl⟩ := mem_accepting hr
      · exact h.requests _ hold hs
      · cases hs
      · cases hs
    · exact h
  | sweep now limit =>
    refine ⟨by simp only [Deadlines.perform, Tables.expireRequests, Tables.move_ids]; exact h.ids,
      h.quotes, fun r hr hs => ?_⟩
    obtain ⟨old, hold, ⟨rfl, -⟩ | ⟨rfl, -⟩⟩ := Tables.mem_move hr
    · exact h.requests _ hold hs
    · cases hs

theorem not_enters_same {row : BookingRow} {state : BookingState} (h : Kept w s)
    (hs : s'.tables.bookings = s.tables.bookings) : ¬Enters s s' row state := by
  rintro ⟨hr, hstate, hnew⟩
  rw [hs] at hr
  rw [stateOf_mem h.ids hr, hstate] at hnew
  exact hnew rfl

/-- How a booking comes into a state: on a quote that is still good, by the
answer to a request that is still live, or out of the running. -/
theorem Kept.enters_cases {a : Action} {row : BookingRow} {state : BookingState} (h : Kept w s)
    (he : Enters s (Deadlines.perform w s a) row state) :
    (state = requested ∧ ∃ quote ∈ s.quotes, a.now < quote.expiresAt ∧ row.period = quote.period) ∨
      (state = accepted ∧ ∃ booking ∈ s.tables.bookings, booking.state = requested ∧
        a.now < booking.requestExpiresAt ∧ row.period = booking.period) ∨
      state = declined ∨ state = expired := by
  cases a with
  | quote now world id listingId renterId request =>
    refine absurd he (not_enters_same h ?_)
    simp only [Deadlines.perform]
    split
    · split <;> rfl
    · rfl
  | request now world id quoteId renterId =>
    simp only [Deadlines.perform] at he
    split at he
    · rename_i new hnew
      obtain ⟨hr, hs, hold⟩ := he
      obtain hr | rfl := mem_createWithEvent hr
      · rw [stateOf_mem h.ids hr, hs] at hold
        exact absurd rfl hold
      · obtain ⟨quote, listing, hquote, hlive, -, rfl⟩ := requestAt_row hnew
        exact .inl ⟨hs.symm, quote, List.mem_of_find?_eq_some hquote, hlive, rfl⟩
    · exact absurd he (not_enters_same h rfl)
  | accept now blocks bookingId ownerId =>
    simp only [Deadlines.perform] at he
    split at he
    · rename_i tables htables
      obtain ⟨booking, hfind, hstate, hlive, rfl⟩ := accept_eq_some (acceptAt_tables htables)
      obtain ⟨hr, hs, hnew⟩ := he
      have hbooking : booking ∈ s.tables.bookings := List.mem_of_find?_eq_some hfind
      obtain ⟨old, hold, rfl | ⟨rfl, hid⟩ | rfl⟩ := mem_accepting hr
      · rw [stateOf_mem h.ids hold, hs] at hnew
        exact absurd rfl hnew
      · obtain rfl := Keyed.eq_of_key h.ids hold hbooking hid
        exact .inr (.inl ⟨hs.symm, old, hold, hstate, hlive, rfl⟩)
      · exact .inr (.inr (.inl hs.symm))
    · exact absurd he (not_enters_same h rfl)
  | sweep now limit =>
    by_cases hstate : expired = state
    · exact .inr (.inr (.inr hstate.symm))
    · exact absurd he (not_enters_move h hstate)

theorem Kept.enters_requested {a : Action} {row : BookingRow} (h : Kept w s)
    (he : Enters s (Deadlines.perform w s a) row requested) :
    w.zone.toLocalDate a.now ≤ w.zone.toLocalDate row.period.startAt := by
  obtain ⟨-, quote, hquote, hlive, hperiod⟩ | ⟨hs, -⟩ | hs | hs := h.enters_cases he
  · rw [hperiod]
    exact Int.lt_add_one_iff.mp (w.zone.toLocalDate_lt_iff.mpr (hlive.trans_le (h.quotes quote hquote)))
  · cases hs
  · cases hs
  · cases hs

theorem Kept.enters_accepted {a : Action} {row : BookingRow} (h : Kept w s)
    (he : Enters s (Deadlines.perform w s a) row accepted) : a.now < row.period.endAt := by
  obtain ⟨hs, -⟩ | ⟨-, booking, hbooking, hstate, hlive, hperiod⟩ | hs | hs := h.enters_cases he
  · cases hs
  · rw [hperiod]
    exact hlive.trans_le (h.requests booking hbooking hstate)
  · cases hs
  · cases hs

theorem Kept.step {a : Action} (h : Kept w s) (ha : inTime w s a = true)
    (hstep : step w s a = some s') : Kept w s' := by
  simp only [Deadlines.step, Option.ite_none_right_eq_some] at hstep
  obtain ⟨-, hs⟩ := hstep
  cases hs
  exact ⟨(h.perform ha).ids, (h.perform ha).quotes, (h.perform ha).requests⟩

theorem Kept.start (clock : Instant) : Kept w (.start clock) where
  ids := List.nodup_nil
  quotes := by simp [State.start]
  requests := by simp [State.start, Tables.empty]

theorem enters_step {a : Action} {row : BookingRow} {state : BookingState}
    (hstep : step w s a = some s') (he : Enters s s' row state) :
    Enters s (Deadlines.perform w s a) row state := by
  simp only [Deadlines.step, Option.ite_none_right_eq_some] at hstep
  obtain ⟨-, hs⟩ := hstep
  cases hs
  exact he

end

/-- Where no quote that is given outlives its first day and no request that is
made its hire, whatever the delays, no hire is booked into the past. -/
theorem never_booked_into_the_past (w : Wiring) (clock : Instant) {as pre post : List Action}
    {a : Action} {s₁ s₂ : State} (hcut : as = pre ++ a :: post)
    (hr : run (step w) (.start clock) pre = some s₁) (hstep : step w s₁ a = some s₂)
    (hmeets : Meets (step w) (fun s a => inTime w s a = true) (.start clock) as) (row : BookingRow) :
    (Enters s₁ s₂ row requested → w.zone.toLocalDate a.now ≤ w.zone.toLocalDate row.period.startAt) ∧
      (Enters s₁ s₂ row accepted → a.now < row.period.endAt) := by
  rw [hcut] at hmeets
  have hkept : Kept w s₁ :=
    run_preserves_of_meets (fun s b t h hb hs => h.step hb hs) hr (meets_left hmeets) (.start clock)
  exact ⟨fun he => hkept.enters_requested (enters_step hstep he),
    fun he => hkept.enters_accepted (enters_step hstep he)⟩

def drillWiring : Wiring where
  zone := .utc
  percentageOf := exactPercentageOf
  versionOf id := if id = "v1" then some drillVersion else none
  ownerOf _ := some "owner"

def quoteDrill (now : Instant) (endDate : Int) (h : 100 ≤ endDate) : Action :=
  .quote now ⟨drillCatalogue, []⟩ "q1" "drill" "renter" ⟨100, endDate, h⟩

def requestDrill (now : Instant) : Action := .request now ⟨drillCatalogue, []⟩ "b1" "q1" "renter"

def acceptDrill (now : Instant) : Action := .accept now [] "b1" "owner"

def bookedDrill (endDate itemCharge renterFee : Int) (requestExpiresAt : Instant) : BookingRow where
  id := "b1"
  listingId := "drill"
  renterId := "renter"
  state := requested
  period := periodFromLocalDates .utc 100 endDate
  timeZone := platformTimeZone
  quoteId := "q1"
  categoryVersionId := "v1"
  itemChargeAmount := itemCharge
  renterFeeAmount := renterFee
  totalAmount := itemCharge + renterFee
  currency := .gbp
  itemTitle := "Drill"
  categoryName := "Tools"
  damageExcess := some (8000, .percentage)
  requestExpiresAt := requestExpiresAt

/-- The bookings after a quote, after the request made on it, and after the
answer. -/
def bookingsAfter (w : Wiring) (clock : Instant) (quote request accept : Action) :
    Option (List BookingRow × List BookingRow × List BookingRow) :=
  (run (step w) (.start clock) [quote]).bind (fun s₁ =>
    (step w s₁ request).bind (fun s₂ => (step w s₂ accept).map (fun s₃ =>
      (s₁.tables.bookings, s₂.tables.bookings, s₃.tables.bookings))))

theorem enters_of_bookingsAfter (w : Wiring) (clock : Instant) (quote request accept : Action)
    (row : BookingRow) (hs : row.state = requested) (h : bookingsAfter w clock quote request accept =
      some ([], [row], [{ row with state := accepted }])) : ∃ s₁ s₂ s₃,
    run (step w) (.start clock) [quote] = some s₁ ∧ step w s₁ request = some s₂ ∧
      step w s₂ accept = some s₃ ∧ Enters s₁ s₂ row requested ∧
      Enters s₂ s₃ { row with state := accepted } accepted := by
  obtain ⟨s₁, h₁, h⟩ := Option.bind_eq_some_iff.mp h
  obtain ⟨s₂, h₂, h⟩ := Option.bind_eq_some_iff.mp h
  obtain ⟨s₃, h₃, h⟩ := Option.map_eq_some_iff.mp h
  rw [Prod.mk.injEq, Prod.mk.injEq] at h
  obtain ⟨hb₁, hb₂, hb₃⟩ := h
  refine ⟨s₁, s₂, s₃, h₁, h₂, h₃, ⟨?_, hs, ?_⟩, ?_, rfl, ?_⟩
  · rw [hb₂]
    exact List.mem_singleton_self _
  · simp [Tables.stateOf, Tables.find, hb₁]
  · rw [hb₃]
    exact List.mem_singleton_self _
  · simp [Tables.stateOf, Tables.find, hb₂, hs]

def morningQuote : Action := quoteDrill 8640000000 103 (by decide)

def morningBooking : BookingRow := bookedDrill 103 4000 400 8812860000

theorem never_booked_into_the_past_morning : ∃ s₁ s₂ s₃,
    run (step drillWiring) (.start 0) [morningQuote] = some s₁ ∧
    step drillWiring s₁ (requestDrill 8640060000) = some s₂ ∧
    step drillWiring s₂ (acceptDrill 8640120000) = some s₃ ∧
    Enters s₁ s₂ morningBooking requested ∧
    Zone.utc.toLocalDate 8640060000 ≤ Zone.utc.toLocalDate morningBooking.period.startAt ∧
    Enters s₂ s₃ { morningBooking with state := accepted } accepted ∧
    8640120000 < morningBooking.period.endAt := by
  obtain ⟨s₁, s₂, s₃, h₁, h₂, h₃, hrequested, haccepted⟩ :=
    enters_of_bookingsAfter drillWiring 0 morningQuote (requestDrill 8640060000)
      (acceptDrill 8640120000) morningBooking rfl (by decide +kernel)
  have hmeets : Meets (step drillWiring) (fun s a => inTime drillWiring s a = true) (.start 0)
      [morningQuote, requestDrill 8640060000, acceptDrill 8640120000] := by decide +kernel
  have h₁₂ : run (step drillWiring) (.start 0) ([morningQuote] ++ [requestDrill 8640060000]) = some s₂ :=
    run_append_eq_some.mpr ⟨s₁, h₁, run_cons_eq_some.mpr ⟨s₂, h₂, rfl⟩⟩
  refine ⟨s₁, s₂, s₃, h₁, h₂, h₃, hrequested, ?_, haccepted, ?_⟩
  · have hcut : [morningQuote, requestDrill 8640060000, acceptDrill 8640120000] =
        [morningQuote] ++ requestDrill 8640060000 :: [acceptDrill 8640120000] := rfl
    exact (never_booked_into_the_past drillWiring 0 hcut h₁ h₂ hmeets morningBooking).1 hrequested
  · have hcut : [morningQuote, requestDrill 8640060000, acceptDrill 8640120000] =
        ([morningQuote] ++ [requestDrill 8640060000]) ++ acceptDrill 8640120000 :: [] := rfl
    exact (never_booked_into_the_past drillWiring 0 hcut h₁₂ h₃ hmeets
      { morningBooking with state := accepted }).2 haccepted

def lateQuote : Action := quoteDrill 8725500000 100 (by decide)

def lateBooking : BookingRow := bookedDrill 100 1000 100 8899800000

/-- Ten minutes past midnight the quote is still good, and two days on so is
the request. -/
theorem booked_into_the_past : ∃ s₁ s₂ s₃,
    run (step drillWiring) (.start 0) [lateQuote] = some s₁ ∧
    step drillWiring s₁ (requestDrill 8727000000) = some s₂ ∧
    step drillWiring s₂ (acceptDrill 8899200000) = some s₃ ∧
    Enters s₁ s₂ lateBooking requested ∧
    Zone.utc.toLocalDate lateBooking.period.startAt < Zone.utc.toLocalDate 8727000000 ∧
    Enters s₂ s₃ { lateBooking with state := accepted } accepted ∧
    lateBooking.period.endAt ≤ 8899200000 := by
  obtain ⟨s₁, s₂, s₃, h₁, h₂, h₃, hrequested, haccepted⟩ :=
    enters_of_bookingsAfter drillWiring 0 lateQuote (requestDrill 8727000000)
      (acceptDrill 8899200000) lateBooking rfl (by decide +kernel)
  exact ⟨s₁, s₂, s₃, h₁, h₂, h₃, hrequested, by decide +kernel, haccepted, by decide +kernel⟩

end RentalMarket.Booking.Deadlines
