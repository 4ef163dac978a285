import RentalMarket.Booking.Billing
import RentalMarket.Booking.Reserved
import RentalMarket.Booking.Desk

namespace RentalMarket.Booking.Desk

open RentalMarket.Core RentalMarket.Pricing RentalMarket.Payments Runs BookingState

structure OnTerms (q : QuoteRow) (row : BookingRow) : Prop where
  quoteId : row.quoteId = q.id
  listingId : row.listingId = q.listingId
  renterId : row.renterId = q.renterId
  period : row.period = q.period
  itemCharge : row.itemChargeAmount = q.itemChargeAmount
  renterFee : row.renterFeeAmount = q.renterFeeAmount
  total : row.totalAmount = q.totalAmount
  currency : row.currency = q.currency
  excess : row.damageExcess = q.damageExcess
  categoryVersionId : row.categoryVersionId = q.categoryVersionId

/-- A quote is priced off a catalogue: the listing as it stands there, and the
version that is its category's current one there. -/
structure Priced (w : Wiring) (c : Catalogue) (q : QuoteRow) (listing : Listing)
    (version : CategoryVersion) (days : Int) (priced : PricedRental) : Prop where
  listed : c.listings.find? (fun l => l.id = q.listingId ∧ l.quotable) = some listing
  current : (c.newest listing.categoryId).getD listing.categoryVersionId = q.categoryVersionId
  pinned : w.versionOf q.categoryVersionId = some version
  counted : w.zone.rentalDayCount q.period.startAt q.period.endAt = .ok days
  maximum : days ≤ min version.maximumRentalDays maxMaximumRentalDays
  price : priceRental w.percentageOf days (weekdayOf (w.zone.toLocalDate q.period.startAt))
    listing.rates version.feePolicy = .ok (some priced)
  itemCharge : priced.itemCharge = ⟨q.itemChargeAmount, q.currency⟩
  renterFee : priced.renterFee = ⟨q.renterFeeAmount, q.currency⟩
  total : priced.total = ⟨q.totalAmount, q.currency⟩
  lineItems : priced.lineItems = q.lineItems
  excess : appliedExcessOrNone w.percentageOf version.damageSecurity listing.replacementValue =
    .ok (toAppliedExcess q.currency q.damageExcess)
  adds : q.totalAmount = q.itemChargeAmount + q.renterFeeAmount
  minimum : version.feePolicy.minimumBookingTotal.amount ≤ q.totalAmount

def Call.isPlain : Call → Bool
  | .looking _ _ _ _ => false
  | .pricing _ _ _ _ => false
  | .relisting _ _ => false
  | .reserving _ _ _ => false
  | .creating _ _ _ => false
  | _ => true

/-- What a step of `t` does, and the point it comes to. -/
inductive Effect (w : Wiring) (s : State) (t : Pid) (d : Draw) : State → Call → Prop where
  | plain (c : Call) (h : c.isPlain = true) : Effect w s t d s c
  | read (listing : QuotableListing) (renterId : Id) (request : QuoteRequest) (period : Period)
    (hdesk : s.desks t = .quoting listing.id renterId request)
    (hfound : s.catalogue.findQuotable w.versionOf listing.id = some listing)
    (hexamine : examineQuote w.zone listing renterId request d.now = .ok period) :
    Effect w s t d s (.looking listing renterId request period)
  | looked (listing : QuotableListing) (renterId : Id) (request : QuoteRequest) (period : Period)
    (hdesk : s.desks t = .looking listing renterId request period) :
    Effect w s t d s (.pricing listing renterId request period)
  | quoted (listing : QuotableListing) (renterId : Id) (request : QuoteRequest) (period : Period)
    (priced : PricedRental) (excess : Option AppliedExcess)
    (hdesk : s.desks t = .pricing listing renterId request period)
    (hprice : priceQuote w.percentageOf w.zone listing request period = .ok (priced, excess))
    (hnew : ∀ q ∈ s.quotes, q.id ≠ d.id) (c : Call) (h : c.isPlain = true) :
    Effect w s t d
      { s with quotes := s.quotes ++ [newQuote d.id listing renterId period priced excess d.now] } c
  | found (quote : QuoteRow) (hquote : quote ∈ s.quotes) :
    Effect w s t d s (.relisting quote quote.renterId)
  | relisted (quote : QuoteRow) (listing : QuotableListing) (renterId : Id)
    (hdesk : s.desks t = .relisting quote renterId) :
    Effect w s t d s (.reserving quote listing renterId)
  | reserved (quote : QuoteRow) (listing : QuotableListing) (renterId : Id)
    (hdesk : s.desks t = .reserving quote listing renterId) :
    Effect w s t d s (.creating quote listing renterId)
  | booked (quote : QuoteRow) (listing : QuotableListing) (renterId : Id) (tables : Tables)
    (hdesk : s.desks t = .creating quote listing renterId)
    (hcreate : s.pay.tables.createWithEvent (newBooking d.id quote listing renterId requested d.now) =
      some tables) (c : Call) (h : c.isPlain = true) : Effect w s t d (s.withTables tables) c
  | answered (tables : Tables) (hterms : tables.terms = s.pay.tables.terms) (c : Call)
    (h : c.isPlain = true) : Effect w s t d (s.withTables tables) c

/-- A request is under way on a quote its own renter was given. -/
def DeskOk (quotes : List QuoteRow) : Call → Prop
  | .relisting quote renterId => quote ∈ quotes ∧ quote.renterId = renterId
  | .reserving quote _ renterId => quote ∈ quotes ∧ quote.renterId = renterId
  | .creating quote _ renterId => quote ∈ quotes ∧ quote.renterId = renterId
  | _ => True

/-- Every booking is bound to a quote, and no two to the same. -/
structure Bound (w : Wiring) (s : State) : Prop where
  billing : Pay.Billing w.pay s.pay
  quotes : (s.quotes.map (·.id)).Nodup
  booked : ∀ row ∈ s.pay.tables.terms, ∃ q ∈ s.quotes, OnTerms q row
  once : (s.pay.tables.terms.map (·.quoteId)).Nodup
  ids : (s.pay.tables.terms.map (·.id)).Nodup
  desks : ∀ t, DeskOk s.quotes (s.desks t)

def Action.starts : Action → Option Pid
  | .quote t _ _ _ => some t
  | .request t _ _ => some t
  | .accept t _ _ => some t
  | _ => none

/-- In the run the call that `t` is in has read this listing for a quote, and
found the period it asked for lawful. -/
def ReadIn (w : Wiring) (s₀ : State) (as : List Action) (t : Pid) (listing : QuotableListing)
    (renterId : Id) (request : QuoteRequest) (period : Period) : Prop :=
  ∃ pre d mid s₁, as = pre ++ .exec t d :: mid ∧ run (step w) s₀ pre = some s₁ ∧
    s₁.desks t = .quoting listing.id renterId request ∧
    s₁.catalogue.findQuotable w.versionOf listing.id = some listing ∧
    examineQuote w.zone listing renterId request d.now = .ok period ∧ ∀ a ∈ mid, a.starts ≠ some t

def DeskRead (w : Wiring) (s₀ : State) (as : List Action) (t : Pid) : Call → Prop
  | .looking listing renterId request period => ReadIn w s₀ as t listing renterId request period
  | .pricing listing renterId request period => ReadIn w s₀ as t listing renterId request period
  | _ => True

/-- In the run a call has written this quote, at the price of what it had read. -/
def Given (w : Wiring) (s₀ : State) (as : List Action) (q : QuoteRow) : Prop :=
  ∃ before t d after s₂ s₃ listing renterId request period priced excess,
    as = before ++ .exec t d :: after ∧ run (step w) s₀ before = some s₂ ∧
    step w s₂ (.exec t d) = some s₃ ∧ s₃.quotes = s₂.quotes ++ [q] ∧
    ReadIn w s₀ before t listing renterId request period ∧
    priceQuote w.percentageOf w.zone listing request period = .ok (priced, excess) ∧
    q = newQuote d.id listing renterId period priced excess d.now

/-- Every quote was priced off a read of its own call. -/
structure Attributed (w : Wiring) (s₀ : State) (as : List Action) (s : State) : Prop where
  desks : ∀ t, DeskRead w s₀ as t (s.desks t)
  quotes : ∀ q ∈ s.quotes, Given w s₀ as q

section

variable {w : Wiring} {s s' : State} {t : Pid} {d : Draw}

theorem findQuotable_id {versionOf : Id → Option CategoryVersion} {c : Catalogue} {listingId : Id}
    {listing : QuotableListing} (h : c.findQuotable versionOf listingId = some listing) :
    listing.id = listingId := by
  obtain ⟨l, hl, h⟩ := Option.bind_eq_some_iff.mp h
  obtain ⟨pinned, -, h⟩ := Option.bind_eq_some_iff.mp h
  obtain ⟨current, -, rfl⟩ := Option.map_eq_some_iff.mp h
  have hid := List.find?_some hl
  simp only [Bool.decide_and, Bool.and_eq_true, decide_eq_true_eq] at hid
  exact hid.1

theorem exec_effect (hx : exec w s t d = some s') :
    ∃ u c, s' = u.setDesk t c ∧ Effect w s t d u c := by
  unfold exec at hx
  cases hdesk : s.desks t with
  | idle => simp [hdesk] at hx
  | returned reply => simp [hdesk] at hx
  | quoting listingId renterId request =>
    simp only [hdesk] at hx
    split at hx
    · cases hx
      exact ⟨s, _, rfl, .plain _ rfl⟩
    · rename_i listing hfound
      obtain rfl := findQuotable_id hfound
      split at hx <;> cases hx
      · exact ⟨s, _, rfl, .plain _ rfl⟩
      · rename_i period hexamine
        exact ⟨s, _, rfl, .read listing renterId request period hdesk hfound hexamine⟩
  | looking listing renterId request period =>
    simp only [hdesk] at hx
    split at hx <;> cases hx
    · exact ⟨s, _, rfl, .plain _ rfl⟩
    · exact ⟨s, _, rfl, .looked listing renterId request period hdesk⟩
  | pricing listing renterId request period =>
    simp only [hdesk] at hx
    split at hx
    · cases hx
      exact ⟨s, _, rfl, .plain _ rfl⟩
    · rename_i priced excess hprice
      split at hx <;> cases hx
      · rename_i hallowed
        rw [Bool.and_eq_true, List.all_eq_true] at hallowed
        refine ⟨_, _, rfl, .quoted listing renterId request period priced excess hdesk hprice ?_ _ rfl⟩
        intro q hq
        exact of_decide_eq_true (hallowed.2 q hq)
      · exact ⟨s, _, rfl, .plain _ rfl⟩
  | requesting quoteId renterId =>
    simp only [hdesk] at hx
    split at hx
    · cases hx
      exact ⟨s, _, rfl, .plain _ rfl⟩
    · rename_i quote hquote
      have hrenter := List.find?_some hquote
      simp only [Bool.decide_and, Bool.and_eq_true, decide_eq_true_eq] at hrenter
      obtain ⟨-, rfl⟩ := hrenter
      split at hx <;> cases hx
      · exact ⟨s, _, rfl, .plain _ rfl⟩
      · exact ⟨s, _, rfl, .found quote (List.mem_of_find?_eq_some hquote)⟩
  | relisting quote renterId =>
    simp only [hdesk] at hx
    split at hx <;> cases hx
    · exact ⟨s, _, rfl, .plain _ rfl⟩
    · exact ⟨s, _, rfl, .relisted quote _ renterId hdesk⟩
  | reserving quote listing renterId =>
    simp only [hdesk] at hx
    split at hx <;> cases hx
    · exact ⟨s, _, rfl, .plain _ rfl⟩
    · exact ⟨s, _, rfl, .reserved quote listing renterId hdesk⟩
  | creating quote listing renterId =>
    simp only [hdesk, assertTransition] at hx
    rw [if_pos (by decide)] at hx
    simp only at hx
    split at hx
    · rename_i tables hcreate
      cases hx
      exact ⟨_, _, rfl, .booked quote listing renterId tables hdesk hcreate _ rfl⟩
    · split at hx <;> cases hx
      · exact ⟨s, _, rfl, .plain _ rfl⟩
      · exact ⟨s, _, rfl, .plain _ rfl⟩
  | accepting bookingId ownerId =>
    simp only [hdesk] at hx
    split at hx
    · cases hx
      exact ⟨s, _, rfl, .plain _ rfl⟩
    · split at hx
      · cases hx
        exact ⟨s, _, rfl, .plain _ rfl⟩
      · split at hx <;> cases hx
        · exact ⟨s, _, rfl, .plain _ rfl⟩
        · exact ⟨s, _, rfl, .plain _ rfl⟩
  | clearing booking ownerId =>
    simp only [hdesk] at hx
    split at hx <;> cases hx
    · exact ⟨s, _, rfl, .plain _ rfl⟩
    · exact ⟨s, _, rfl, .plain _ rfl⟩
  | answering booking ownerId =>
    simp only [hdesk, assertTransition] at hx
    rw [if_pos (by decide)] at hx
    simp only at hx
    split at hx <;> cases hx
    · rename_i tables haccept
      exact ⟨_, _, rfl, .answered tables (Tables.terms_accept haccept) _ rfl⟩
    · exact ⟨s, _, rfl, .plain _ rfl⟩
  | readingBack bookingId userId =>
    simp only [hdesk] at hx
    obtain ⟨row, -, rfl⟩ := Option.map_eq_some_iff.mp hx
    exact ⟨s, _, rfl, .plain _ rfl⟩

theorem call_eq_some {c : Call} (hx : s.call t c = some s') : s' = s.setDesk t c := by
  simp only [State.call, Option.ite_none_right_eq_some] at hx
  exact (Option.some.inj hx.2).symm

/-- What a step can do: move a call on, start one, change what listings and
calendars say, or move a press on. -/
theorem step_cases {a : Action} (hx : step w s a = some s') :
    (∃ t d u c, a = .exec t d ∧ s' = u.setDesk t c ∧ Effect w s t d u c) ∨
      (∃ t c, a.starts = some t ∧ c.isPlain = true ∧ s' = s.setDesk t c) ∨
      (∃ catalogue blocks, a.starts = none ∧ s' = { s with catalogue := catalogue, blocks := blocks }) ∨
      ∃ b pay, a.starts = none ∧ Pay.step w.pay s.pay b = some pay ∧ s' = { s with pay := pay } := by
  cases a with
  | edit listingId title rates replacementValue quotable =>
    cases hx
    exact .inr (.inr (.inl ⟨_, s.blocks, rfl, rfl⟩))
  | reconfigure categoryId versionId =>
    simp only [step, Option.ite_none_right_eq_some] at hx
    obtain ⟨-, hx⟩ := hx
    cases hx
    exact .inr (.inr (.inl ⟨_, s.blocks, rfl, rfl⟩))
  | block blocks =>
    cases hx
    exact .inr (.inr (.inl ⟨s.catalogue, blocks, rfl, rfl⟩))
  | quote t listingId renterId request => exact .inr (.inl ⟨t, _, rfl, rfl, call_eq_some hx⟩)
  | request t quoteId renterId => exact .inr (.inl ⟨t, _, rfl, rfl, call_eq_some hx⟩)
  | accept t bookingId ownerId => exact .inr (.inl ⟨t, _, rfl, rfl, call_eq_some hx⟩)
  | exec t d =>
    obtain ⟨u, c, hs, e⟩ := exec_effect hx
    exact .inl ⟨t, d, u, c, rfl, hs, e⟩
  | pay b =>
    obtain ⟨pay, hpay, rfl⟩ := Option.map_eq_some_iff.mp hx
    exact .inr (.inr (.inr ⟨b, pay, rfl, hpay, rfl⟩))

theorem findQuotable_eq_some {c : Catalogue} {listingId : Id} {listing : QuotableListing}
    (h : c.findQuotable w.versionOf listingId = some listing) : ∃ row version,
      c.listings.find? (fun l => l.id = listingId ∧ l.quotable) = some row ∧
      (c.newest row.categoryId).getD row.categoryVersionId = listing.currentCategoryVersionId ∧
      w.versionOf listing.currentCategoryVersionId = some version ∧
      listing.rates = row.rates ∧ listing.replacementValue = row.replacementValue ∧
      listing.currentFeePolicy = version.feePolicy ∧
      listing.currentDamageSecurity = version.damageSecurity ∧
      listing.currentMaximumRentalDays = version.maximumRentalDays := by
  obtain ⟨row, hrow, h⟩ := Option.bind_eq_some_iff.mp h
  obtain ⟨pinned, -, h⟩ := Option.bind_eq_some_iff.mp h
  obtain ⟨version, hversion, rfl⟩ := Option.map_eq_some_iff.mp h
  exact ⟨row, version, hrow, rfl, hversion, rfl, rfl, rfl, rfl, rfl⟩

/-- What is examined and priced off one read is priced off the catalogue of that
read. -/
theorem priced_of_read {c : Catalogue} {listing : QuotableListing} {renterId id : Id}
    {request : QuoteRequest} {period : Period} {priced : PricedRental} {excess : Option AppliedExcess}
    {readAt now : Instant} (hfound : c.findQuotable w.versionOf listing.id = some listing)
    (hexamine : examineQuote w.zone listing renterId request readAt = .ok period)
    (hprice : priceQuote w.percentageOf w.zone listing request period = .ok (priced, excess)) :
    ∃ row version days,
      Priced w c (newQuote id listing renterId period priced excess now) row version days priced := by
  obtain ⟨row, version, hrow, hcurrent, hversion, hrates, hvalue, hpolicy, hsecurity, hmaximum⟩ :=
    findQuotable_eq_some hfound
  obtain ⟨-, hperiod, hlawful, -⟩ := examineQuote_eq_ok hexamine
  obtain ⟨-, days, hdays, hmax⟩ := refusePeriod_none hlawful
  obtain ⟨days', hdays', hpriced, hminimum, hexcess⟩ := priceQuote_eq_ok hprice
  obtain rfl : days = days' := Except.ok.inj (hdays.symm.trans hdays')
  have hstart : w.zone.toLocalDate period.startAt = request.startDate := by
    rw [hperiod]
    exact w.zone.toLocalDate_startOfLocalDay _
  refine ⟨row, version, days, ?_⟩
  refine ⟨hrow, hcurrent, hversion, hdays, ?_, ?_, rfl, rfl, rfl, rfl, ?_, ?_, ?_⟩
  · rw [← hmaximum]
    exact hmax
  · rw [← hrates, ← hpolicy]
    show priceRental _ _ (weekdayOf (w.zone.toLocalDate period.startAt)) _ _ = _
    rw [hstart]
    exact hpriced
  · rw [← hsecurity, ← hvalue]
    show _ = Except.ok (toAppliedExcess _ (damageExcessColumns excess))
    rw [toAppliedExcess_columns]
    exact hexcess
  · exact priceRental_total hpriced
  · rw [← hpolicy]
    exact refuseBelowMinimumBooking_none hminimum

theorem deskOk_of_isPlain {quotes : List QuoteRow} {c : Call} (h : c.isPlain = true) :
    DeskOk quotes c := by
  cases c <;> trivial

theorem DeskOk.mono {quotes quotes' : List QuoteRow} {c : Call} (h : DeskOk quotes c)
    (hq : quotes ⊆ quotes') : DeskOk quotes' c := by
  cases c with
  | relisting quote renterId => exact ⟨hq h.1, h.2⟩
  | reserving quote listing renterId => exact ⟨hq h.1, h.2⟩
  | creating quote listing renterId => exact ⟨hq h.1, h.2⟩
  | _ => trivial

theorem newBooking_onTerms (id : Id) (quote : QuoteRow) (listing : QuotableListing) (now : Instant) :
    OnTerms quote (newBooking id quote listing quote.renterId requested now).terms := by
  refine ⟨rfl, rfl, rfl, rfl, rfl, rfl, rfl, rfl, ?_, rfl⟩
  show damageExcessColumns (toAppliedExcess quote.currency quote.damageExcess) = quote.damageExcess
  cases quote.damageExcess <;> rfl

theorem Bound.setDesk (h : Bound w s) {c : Call} (hc : DeskOk s.quotes c) : Bound w (s.setDesk t c) := by
  refine ⟨h.billing, h.quotes, h.booked, h.once, h.ids, fun t' => ?_⟩
  by_cases ht : t' = t
  · subst ht
    rw [State.setDesk_self]
    exact hc
  · rw [State.setDesk_other _ ht]
    exact h.desks t'

theorem Bound.withTables (h : Bound w s) {tables : Tables} (hterms : tables.terms = s.pay.tables.terms) :
    Bound w (s.withTables tables) := by
  refine ⟨h.billing.withTables ?_, h.quotes, ?_, ?_, ?_, h.desks⟩
  · rw [hterms]
    exact List.Subset.refl _
  · simp only [State.withTables, hterms]
    exact h.booked
  · simp only [State.withTables, hterms]
    exact h.once
  · simp only [State.withTables, hterms]
    exact h.ids

theorem Bound.booked_new (h : Bound w s) {quote : QuoteRow} {row : BookingRow} {tables : Tables}
    (hquote : quote ∈ s.quotes) (hrow : OnTerms quote row.terms)
    (hcreate : s.pay.tables.createWithEvent row = some tables) : Bound w (s.withTables tables) := by
  obtain ⟨hterms, hnew⟩ := Tables.terms_createWithEvent hcreate
  have hfresh : ∀ x ∈ s.pay.tables.terms, x.id ≠ row.terms.id ∧ x.quoteId ≠ row.terms.quoteId := by
    intro x hx
    obtain ⟨r, hr, rfl⟩ := List.mem_map.mp hx
    exact hnew r hr
  refine ⟨h.billing.withTables ?_, h.quotes, ?_, ?_, ?_, h.desks⟩
  · rw [hterms]
    exact List.subset_append_left _ _
  · simp only [State.withTables, hterms]
    intro r hr
    obtain hold | hr := List.mem_append.mp hr
    · exact h.booked r hold
    · rw [List.mem_singleton.mp hr]
      exact ⟨quote, hquote, hrow⟩
  · simp only [State.withTables, hterms]
    exact Keyed.nodup_append h.once (fun x hx => (hfresh x hx).2)
  · simp only [State.withTables, hterms]
    exact Keyed.nodup_append h.ids (fun x hx => (hfresh x hx).1)

theorem Effect.bound {u : State} {c : Call} (h : Bound w s) (e : Effect w s t d u c) :
    Bound w u ∧ DeskOk u.quotes c := by
  have hdesk := h.desks t
  cases e with
  | plain c hc => exact ⟨h, deskOk_of_isPlain hc⟩
  | read listing renterId request period hat hfound hexamine => exact ⟨h, trivial⟩
  | looked listing renterId request period hat => exact ⟨h, trivial⟩
  | quoted listing renterId request period priced excess hat hprice hnew c hc =>
    refine ⟨⟨h.billing, Keyed.nodup_append h.quotes hnew, fun row hrow => ?_, h.once, h.ids, fun t' => ?_⟩,
      deskOk_of_isPlain hc⟩
    · obtain ⟨q, hq, hterms⟩ := h.booked row hrow
      exact ⟨q, List.mem_append_left _ hq, hterms⟩
    · exact (h.desks t').mono (List.subset_append_left _ _)
  | found quote hquote => exact ⟨h, hquote, rfl⟩
  | relisted quote listing renterId hat =>
    rw [hat] at hdesk
    exact ⟨h, hdesk⟩
  | reserved quote listing renterId hat =>
    rw [hat] at hdesk
    exact ⟨h, hdesk⟩
  | booked quote listing renterId tables hat hcreate c hc =>
    rw [hat] at hdesk
    obtain ⟨hquote, rfl⟩ := hdesk
    exact ⟨h.booked_new hquote (newBooking_onTerms _ _ _ _) hcreate, deskOk_of_isPlain hc⟩
  | answered tables hterms c hc => exact ⟨h.withTables hterms, deskOk_of_isPlain hc⟩

theorem Bound.step (h : Bound w s) {a : Action} (hx : step w s a = some s') : Bound w s' := by
  obtain ⟨t, d, u, c, -, rfl, e⟩ | ⟨t, c, -, hc, rfl⟩ | ⟨catalogue, blocks, -, rfl⟩ | ⟨b, pay, -, hpay, rfl⟩ :=
    step_cases hx
  · obtain ⟨hu, hc⟩ := e.bound h
    exact hu.setDesk hc
  · exact h.setDesk (deskOk_of_isPlain hc)
  · exact ⟨h.billing, h.quotes, h.booked, h.once, h.ids, h.desks⟩
  · have hterms := Pay.step_terms hpay
    refine ⟨h.billing.step hpay, h.quotes, ?_, ?_, ?_, h.desks⟩
    · simp only [hterms]
      exact h.booked
    · simp only [hterms]
      exact h.once
    · simp only [hterms]
      exact h.ids

section

variable {s₀ : State} {as : List Action}

theorem ReadIn.snoc {t : Pid} {listing : QuotableListing} {renterId : Id} {request : QuoteRequest}
    {period : Period} (h : ReadIn w s₀ as t listing renterId request period) {a : Action}
    (ha : a.starts ≠ some t) : ReadIn w s₀ (as ++ [a]) t listing renterId request period := by
  obtain ⟨pre, d, mid, s₁, has, hpre, hdesk, hfound, hexamine, hmid⟩ := h
  refine ⟨pre, d, mid ++ [a], s₁, ?_, hpre, hdesk, hfound, hexamine, fun b hb => ?_⟩
  · rw [has, List.append_assoc, List.cons_append]
  · obtain hb | hb := List.mem_append.mp hb
    · exact hmid b hb
    · rw [List.mem_singleton.mp hb]
      exact ha

theorem DeskRead.snoc {t : Pid} {c : Call} (h : DeskRead w s₀ as t c) {a : Action}
    (ha : a.starts ≠ some t) : DeskRead w s₀ (as ++ [a]) t c := by
  cases c with
  | looking listing renterId request period => exact ReadIn.snoc h ha
  | pricing listing renterId request period => exact ReadIn.snoc h ha
  | _ => trivial

theorem deskRead_of_isPlain {t : Pid} {c : Call} (h : c.isPlain = true) : DeskRead w s₀ as t c := by
  cases c <;> trivial

theorem Given.snoc {q : QuoteRow} (h : Given w s₀ as q) (a : Action) : Given w s₀ (as ++ [a]) q := by
  obtain ⟨before, t, d, after, s₂, s₃, listing, renterId, request, period, priced, excess, has, h⟩ := h
  refine ⟨before, t, d, after ++ [a], s₂, s₃, listing, renterId, request, period, priced, excess, ?_, h⟩
  rw [has, List.append_assoc, List.cons_append]

theorem Attributed.snoc (h : Attributed w s₀ as s) {a : Action} (ha : a.starts = none) :
    Attributed w s₀ (as ++ [a]) s := by
  refine ⟨fun t => (h.desks t).snoc ?_, fun q hq => (h.quotes q hq).snoc a⟩
  rw [ha]
  nofun

theorem Attributed.setDesk (hquotes : ∀ q ∈ s.quotes, Given w s₀ as q)
    (hdesks : ∀ t', t' ≠ t → DeskRead w s₀ as t' (s.desks t')) {c : Call} (hc : DeskRead w s₀ as t c) :
    Attributed w s₀ as (s.setDesk t c) := by
  refine ⟨fun t' => ?_, hquotes⟩
  by_cases ht : t' = t
  · subst ht
    rw [State.setDesk_self]
    exact hc
  · rw [State.setDesk_other _ ht]
    exact hdesks t' ht

theorem Effect.attributed {u : State} {c : Call} (hr : run (step w) s₀ as = some s)
    (h : Attributed w s₀ as s) (hx : step w s (.exec t d) = some (u.setDesk t c)) (e : Effect w s t d u c) :
    Attributed w s₀ (as ++ [.exec t d]) u ∧ DeskRead w s₀ (as ++ [.exec t d]) t c := by
  have hdesk := h.desks t
  have h' : Attributed w s₀ (as ++ [.exec t d]) s := h.snoc rfl
  have hown : (Action.exec t d).starts ≠ some t := nofun
  cases e with
  | plain c hc => exact ⟨h', deskRead_of_isPlain hc⟩
  | read listing renterId request period hat hfound hexamine =>
    exact ⟨h', as, d, [], s, rfl, hr, hat, hfound, hexamine, List.forall_mem_nil _⟩
  | looked listing renterId request period hat =>
    rw [hat] at hdesk
    exact ⟨h', hdesk.snoc hown⟩
  | quoted listing renterId request period priced excess hat hprice hnew c hc =>
    rw [hat] at hdesk
    refine ⟨⟨h'.desks, fun q hq => ?_⟩, deskRead_of_isPlain hc⟩
    obtain hq | hq := List.mem_append.mp hq
    · exact h'.quotes q hq
    · rw [List.mem_singleton.mp hq]
      exact ⟨as, t, d, [], s, _, listing, renterId, request, period, priced, excess, rfl, hr, hx, rfl, hdesk,
        hprice, rfl⟩
  | found quote hquote => exact ⟨h', trivial⟩
  | relisted quote listing renterId hat => exact ⟨h', trivial⟩
  | reserved quote listing renterId hat => exact ⟨h', trivial⟩
  | booked quote listing renterId tables hat hcreate c hc =>
    exact ⟨⟨h'.desks, h'.quotes⟩, deskRead_of_isPlain hc⟩
  | answered tables hterms c hc => exact ⟨⟨h'.desks, h'.quotes⟩, deskRead_of_isPlain hc⟩

theorem Attributed.step (h : Attributed w s₀ as s) (hr : run (step w) s₀ as = some s) {a : Action}
    (hx : step w s a = some s') : Attributed w s₀ (as ++ [a]) s' := by
  obtain ⟨t, d, u, c, rfl, rfl, e⟩ | ⟨t, c, ht, hc, rfl⟩ | ⟨catalogue, blocks, ha, rfl⟩ | ⟨b, pay, ha, -, rfl⟩ :=
    step_cases hx
  · obtain ⟨hu, hc⟩ := e.attributed hr h hx
    exact .setDesk hu.quotes (fun t' _ => hu.desks t') hc
  · refine .setDesk (fun q hq => (h.quotes q hq).snoc a) (fun t' hne => (h.desks t').snoc ?_)
      (deskRead_of_isPlain hc)
    rw [ht]
    exact fun heq => hne (Option.some.inj heq).symm
  · exact ⟨(h.snoc ha).desks, (h.snoc ha).quotes⟩
  · exact ⟨(h.snoc ha).desks, (h.snoc ha).quotes⟩

end

theorem Bound.start (catalogue : Catalogue) (blocks : List AvailabilityBlock) :
    Bound w (.start catalogue blocks) where
  billing := ⟨inv_empty, fun _ => trivial, by simp [State.start, Payments.State.empty, Payments.State.opened]⟩
  quotes := List.nodup_nil
  booked := by simp [State.start, Tables.terms, Tables.empty]
  once := List.nodup_nil
  ids := List.nodup_nil
  desks _ := trivial

theorem bound_run {catalogue : Catalogue} {blocks : List AvailabilityBlock} {as : List Action}
    (hr : run (step w) (.start catalogue blocks) as = some s) : Bound w s :=
  run_preserves (fun _ _ _ h hx => h.step hx) hr (.start catalogue blocks)

theorem attributed_run {catalogue : Catalogue} {blocks : List AvailabilityBlock} {as : List Action}
    (hr : run (step w) (.start catalogue blocks) as = some s) :
    Attributed w (.start catalogue blocks) as s := by
  refine run_induction (P := Attributed w (.start catalogue blocks)) ?_
    (fun as u a u' hu hread hx => hread.step hu hx) hr
  exact ⟨fun _ => trivial, by simp [State.start]⟩

theorem OnTerms.of_terms {q : QuoteRow} {row : BookingRow} (h : OnTerms q row.terms) : OnTerms q row :=
  ⟨h.quoteId, h.listingId, h.renterId, h.period, h.itemCharge, h.renterFee, h.total, h.currency, h.excess,
    h.categoryVersionId⟩

theorem Bound.settled (h : Bound w s) {row : BookingRow} (hrow : row.terms ∈ s.pay.tables.terms)
    {tx : PostedTransaction} (htx : tx ∈ s.pay.payments.capturesOf row.id) : ∃ version,
      w.versionOf row.categoryVersionId = some version ∧
      Pay.SettledUnder w.pay s.pay row version.feePolicy tx := by
  obtain ⟨policy, hpolicy, hsettled⟩ := h.billing.settled h.ids hrow htx
  obtain ⟨version, hversion, rfl⟩ := Option.map_eq_some_iff.mp hpolicy
  exact ⟨version, hversion, hsettled⟩

end

/-- The quoted terms are the booked and charged terms. Whatever is edited,
reconfigured, quoted, requested, accepted and paid in between and in whatever
order, every booking has the terms of its own quote and no other booking has
that quote; every quote was priced off the listing and the current version that
the call which wrote it had read, with no other call of its process in between;
and a hire is charged and settled for its booking's total, under the policy of
its booking's version. -/
theorem quoted_terms_are_charged (w : Wiring) (catalogue : Catalogue) (blocks : List AvailabilityBlock)
    {as : List Action} {s : State} (hr : run (step w) (.start catalogue blocks) as = some s) :
    (s.quotes.map (·.id)).Nodup ∧ (∀ row ∈ s.pay.tables.bookings, ∃ q ∈ s.quotes, OnTerms q row) ∧
    (s.pay.tables.bookings.map (·.quoteId)).Nodup ∧
    (∀ q ∈ s.quotes, ∃ pre t d mid d' post s₁ s₂ s₃ request listing version days priced,
      as = (pre ++ .exec t d :: mid) ++ .exec t d' :: post ∧
      run (step w) (.start catalogue blocks) pre = some s₁ ∧
      s₁.desks t = .quoting q.listingId q.renterId request ∧
      Priced w s₁.catalogue q listing version days priced ∧ (∀ a ∈ mid, a.starts ≠ some t) ∧
      run (step w) (.start catalogue blocks) (pre ++ .exec t d :: mid) = some s₂ ∧
      step w s₂ (.exec t d') = some s₃ ∧ s₃.quotes = s₂.quotes ++ [q] ∧ d'.id = q.id) ∧
    (∀ row ∈ s.pay.tables.bookings,
      (∀ a ∈ s.pay.payments.attemptsOf row.id .hireCharge,
        a.amount = ⟨row.totalAmount, row.currency⟩) ∧
      ∀ tx ∈ s.pay.payments.capturesOf row.id, ∃ version,
        w.versionOf row.categoryVersionId = some version ∧
        Pay.SettledUnder w.pay s.pay row version.feePolicy tx) ∧
    ∀ t row result, s.pay.calls t = .returned (.paid row result) → result.status = .succeeded →
      (∃ q ∈ s.quotes, OnTerms q row) ∧
      ((s.pay.payments.attemptsOf row.id .hireCharge).filter
        (fun a => a.status = .succeeded)).map (·.amount) = [⟨row.totalAmount, row.currency⟩] ∧
      ∃ tx version, s.pay.payments.capturesOf row.id = [tx] ∧
        w.versionOf row.categoryVersionId = some version ∧
        Pay.SettledUnder w.pay s.pay row version.feePolicy tx := by
  have h : Bound w s := bound_run hr
  refine ⟨h.quotes, fun row hrow => ?_, ?_, fun q hq => ?_, fun row hrow => ⟨fun a ha => ?_, fun tx htx => ?_⟩,
    fun t row result hcall hs => ?_⟩
  · obtain ⟨q, hq, hterms⟩ := h.booked row.terms (Tables.mem_terms hrow)
    exact ⟨q, hq, hterms.of_terms⟩
  · have honce := h.once
    rw [Tables.terms, List.map_map] at honce
    exact honce
  · obtain ⟨before, t, d', post, s₂, s₃, listing, renterId, request, period, priced, excess, has, hbefore, hx,
      hwritten, hread, hprice, rfl⟩ := (attributed_run hr).quotes q hq
    obtain ⟨pre, d, mid, s₁, rfl, hpre, hdesk, hfound, hexamine, hmid⟩ := hread
    obtain ⟨row, version, days, hpriced⟩ := priced_of_read hfound hexamine hprice
    exact ⟨pre, t, d, mid, d', post, s₁, s₂, s₃, request, row, version, days, priced, has, hpre, hdesk, hpriced,
      hmid, hbefore, hx, hwritten, rfl⟩
  · exact h.billing.amount h.ids (Tables.mem_terms hrow) ha
  · exact h.settled (Tables.mem_terms hrow) htx
  · have hok : Pay.CallOnTerms w.pay s.pay t (.returned (.paid row result)) := hcall ▸ h.billing.calls t
    obtain ⟨hterms, hpaid⟩ := hok
    obtain ⟨hcharged, hcaptured⟩ := h.billing.paid h.ids hterms (hpaid hs)
    obtain ⟨q, hq, hon⟩ := h.booked row.terms hterms
    obtain ⟨tx, htx⟩ := List.length_eq_one_iff.mp hcaptured
    obtain ⟨version, hversion, hsettled⟩ := h.settled hterms (htx ▸ List.mem_singleton_self tx)
    exact ⟨⟨q, hq, hon.of_terms⟩, hcharged, tx, version, htx, hversion, hsettled⟩

def drillWiring : Wiring where
  zone := .utc
  percentageOf := exactPercentageOf
  versionOf id := if id = "v1" then some drillVersion
    else if id = "v2" then some { drillVersion with feePolicy := ⟨2500, 2000, ⟨0, .gbp⟩, ⟨0, .gbp⟩⟩ }
    else none
  ownerOf _ := some "owner"
  bookingExists _ := true
  providerName := "fake"

/-- `count` steps of a call, a new row being under this id. -/
def deskSteps (count : Nat) (id : Id) (now : Instant) : List Action :=
  List.replicate count (.exec 0 ⟨id, now⟩)

/-- Between the quote and the request the rates double and the category gets a
new version. -/
def repricedHire : List Action :=
  .quote 0 "drill" "renter" ⟨100, 106, by decide⟩ :: deskSteps 3 "q1" 8640000000 ++
    [.edit "drill" "Big drill" ⟨some ⟨2000, .gbp⟩, none, none⟩ ⟨160000, .gbp⟩ true,
      .reconfigure "tools" "v2", .request 0 "q1" "renter"] ++ deskSteps 5 "b1" 8640060000 ++
    .accept 0 "b1" "owner" :: deskSteps 4 "b1" 8640120000 ++
    (Pay.pressSucceeds 0 ++ Pay.pressSteps 0 3 succeeds).map .pay

def repricedBooking : BookingRow where
  id := "b1"
  listingId := "drill"
  renterId := "renter"
  state := reserved
  period := periodFromLocalDates .utc 100 106
  timeZone := platformTimeZone
  quoteId := "q1"
  categoryVersionId := "v1"
  itemChargeAmount := 5000
  renterFeeAmount := 500
  totalAmount := 5500
  currency := .gbp
  itemTitle := "Big drill"
  categoryName := "Tools"
  damageExcess := some (8000, .percentage)
  requestExpiresAt := 8812860000

theorem quoted_terms_are_charged_repriced : ∃ s tx,
    run (step drillWiring) (.start drillCatalogue []) repricedHire = some s ∧
    s.pay.calls 0 = .returned (.paid repricedBooking ⟨.succeeded, none, none⟩) ∧
    ((s.pay.payments.attemptsOf "b1" .hireCharge).filter
      (fun a => a.status = .succeeded)).map (·.amount) = [⟨5500, .gbp⟩] ∧
    s.pay.payments.capturesOf "b1" = [tx] ∧
    Pay.SettledUnder drillWiring.pay s.pay repricedBooking drillVersion.feePolicy tx := by
  have hrun : (run (step drillWiring) (.start drillCatalogue []) repricedHire).map
      (fun s => s.pay.calls 0) =
      some (.returned (.paid repricedBooking ⟨.succeeded, none, none⟩)) := by decide +kernel
  obtain ⟨s, hs, hcall⟩ := Option.map_eq_some_iff.mp hrun
  obtain ⟨-, -, -, -, -, hpaid⟩ := quoted_terms_are_charged drillWiring drillCatalogue [] hs
  obtain ⟨-, hcharged, tx, version, htx, hversion, hsettled⟩ := hpaid 0 _ _ hcall rfl
  obtain rfl : drillVersion = version := Option.some.inj hversion
  exact ⟨s, tx, hs, hcall, hcharged, htx, hsettled⟩

end RentalMarket.Booking.Desk
