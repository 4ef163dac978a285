import RentalMarket.Booking.Quotes
import RentalMarket.Booking.Pay
import RentalMarket.Payments.Conservation
import RentalMarket.Pricing.Cheapest

namespace RentalMarket.Booking

open RentalMarket.Core RentalMarket.Pricing RentalMarket.Payments BookingState

/-- The range of an `INTEGER` column. -/
def int32 (n : Int) : Bool := decide (-2147483648 ≤ n ∧ n ≤ 2147483647)

/-- `length(btrim(text)) > 0` -/
def isPresent (text : String) : Bool := text.toList.any (fun c => c ≠ ' ')

/-- A row that `quotes` takes. -/
def quoteFits (row : QuoteRow) : Bool :=
  quoteAllowed row && int32 row.itemChargeAmount && int32 row.renterFeeAmount && int32 row.totalAmount &&
    row.damageExcess.all (fun e => int32 e.1)

/-- A row that `bookings` takes. -/
def bookingFits (row : BookingRow) : Bool :=
  rowAllowed row && int32 row.itemChargeAmount && int32 row.renterFeeAmount && int32 row.totalAmount &&
    row.damageExcess.all (fun e => int32 e.1)

/-- `booking_event_transition_is_complete` -/
def eventFits (event : BookingEvent) : Bool := event.fromState.isNone || event.toState.isSome

/-- A row that `payment_intents` takes: the constraints as they stand once a
hold need not divide. -/
def intentFits (row : PaymentIntent) : Bool :=
  isPresent row.attemptKey && decide (0 < row.amount.amount) && int32 row.amount.amount &&
  (match row.purpose, row.division with
    | .hireCharge, some (itemCharge, renterFee) =>
      decide (0 < itemCharge.amount) && decide (0 ≤ renterFee.amount) &&
        decide (itemCharge.amount + renterFee.amount = row.amount.amount) &&
        int32 itemCharge.amount && int32 renterFee.amount
    | .damageSecurity, none => true
    | _, _ => false) &&
  (decide (row.status ≠ .succeeded) || row.providerReference.isSome) &&
  (decide (row.status ≠ .failed) || row.failure.isSome)

/-- A transaction that the ledger's tables take with its entries, the deferred
trigger included. -/
def transactionFits (posted : PostedTransaction) : Bool :=
  isPresent posted.idempotencyKey && posted.reversesTransactionId.all (fun id => id ≠ posted.id) &&
    posted.entries.all (fun e => decide (0 < e.amount.amount) && int32 e.amount.amount) &&
    decide (2 ≤ posted.entries.length) &&
    decide (Money.total (amountsOn .debit posted.entries) = Money.total (amountsOn .credit posted.entries))

def securityInstructionOf (booking : BookingRow) (ownerId : Id) : DamageSecurityInstruction :=
  ⟨booking.id, ownerId, booking.categoryVersionId,
    (toAppliedExcess booking.currency booking.damageExcess).map (·.amount)⟩

/-- Every row a booking goes on to write fits its table: its own, its history's,
the attempt that pays for it with the transaction of its capture, and the hold
taken at the handover, if there is one. -/
structure BookingRowsFit (w : Payments.Wiring) (booking : BookingRow) : Prop where
  row : bookingFits booking
  events : eventFits (requestedEvent booking) ∧
    ∀ src dst actorId, eventFits (stateChangedEvent booking.id src dst actorId)
  hire : ∀ ownerId, ∃ settlement,
    Payments.settle w booking.id booking.categoryVersionId (Pay.chargeOf booking) = .ok settlement ∧
    ∀ s failedAttempts,
      let opened := newIntent s ((Pay.instructionOf booking ownerId).toInstruction.propose w failedAttempts)
      intentFits opened ∧ intentAllowed w opened.toNewPaymentIntent = w.bookingExists booking.id ∧
      opened.charge = some (Pay.chargeOf booking) ∧
      ∀ clearing payable revenue, ∃ entries,
        hireCaptureEntries settlement clearing payable revenue = .ok entries ∧
        ∀ attempt now transactionId,
          let draft := captureDraft opened attempt settlement.renterPays.currency now entries
          assertPostable draft = .ok () ∧ transactionFits { draft with id := transactionId }
  hold : ∀ ownerId (s : Payments.State) t, (s.procs t).isFree →
    let instruction := securityInstructionOf booking ownerId
    Payments.step w s (.holdDamageSecurity t instruction) = some (s.setProc t (.returned .notRequired)) ∨
      ∃ excess, Payments.step w s (.holdDamageSecurity t instruction) =
          some (s.setProc t (.keying (instruction.toInstruction excess))) ∧
        ∀ s failedAttempts,
          let opened := newIntent s ((instruction.toInstruction excess).propose w failedAttempts)
          intentFits opened ∧ intentAllowed w opened.toNewPaymentIntent = w.bookingExists booking.id ∧
          opened.division = none

/-- Every row a priced hire goes on to write. The listing a request reads its
names and its deadline from may have changed since the quote, and a booking's
state changes after it. -/
structure RowsFit (w : Payments.Wiring) (listing : QuotableListing) (period : Period)
    (priced : PricedRental) (excess : Option AppliedExcess) : Prop where
  quote : ∀ id renterId now, quoteFits (newQuote id listing renterId period priced excess now)
  booking : ∀ quoteId id renterId now now' state (listing' : QuotableListing),
    BookingRowsFit w (newBooking id (newQuote quoteId listing renterId period priced excess now) listing'
      renterId state now')
  account : ∀ spec identity, accountIdentityOf spec = .ok identity → isPresent identity

structure TermsWithin (booking : BookingRow) : Prop where
  period : booking.period.startAt < booking.period.endAt
  itemCharge : 100 ≤ booking.itemChargeAmount ∧ booking.itemChargeAmount ≤ 88000000
  renterFee : 0 ≤ booking.renterFeeAmount ∧ booking.renterFeeAmount ≤ 89000000
  total : booking.totalAmount = booking.itemChargeAmount + booking.renterFeeAmount
  excess : ∀ e, booking.damageExcess = some e → 0 ≤ e.1 ∧ e.1 ≤ 1000000

theorem int32_of_within {n : Int} (hlow : 0 ≤ n) (hhigh : n ≤ 177000000) : int32 n = true := by
  rw [int32, decide_eq_true_iff]
  omega

theorem settleHire_ok {policy : CategoryFeePolicy} (hpolicy : policy.Accepted) (charge : HireCharge)
    (hitem : 100 ≤ charge.itemCharge.amount) (hfee : 0 ≤ charge.renterFee.amount)
    (htotal : charge.total.amount = charge.itemCharge.amount + charge.renterFee.amount)
    (hsafe : charge.total.amount ≤ 1000000000) :
    ∃ settlement, settleHire exactPercentageOf charge policy = .ok settlement ∧
      settlement.renterPays = charge.total ∧ 0 < settlement.ownerEarns.amount ∧
      0 ≤ settlement.platformEarns.amount ∧
      settlement.ownerEarns.amount + settlement.platformEarns.amount = charge.total.amount := by
  have hbounds := commissionAmount_bounds hpolicy (show 0 ≤ charge.itemCharge.amount by omega)
  refine ⟨_, settleHire_eq hpolicy charge (by omega) hfee htotal (hsafe.trans (by decide)), rfl, ?_, ?_, ?_⟩
  all_goals
    simp only
    omega

theorem hireCaptureEntries_ok {settlement : HireSettlement} (howner : 0 < settlement.ownerEarns.amount)
    (hplatform : 0 ≤ settlement.platformEarns.amount)
    (hsum : settlement.ownerEarns.amount + settlement.platformEarns.amount = settlement.renterPays.amount)
    (hsafe : settlement.renterPays.amount ≤ 177000000) (clearing payable revenue : AccountId) :
    ∃ entries, hireCaptureEntries settlement clearing payable revenue = .ok entries ∧
      2 ≤ entries.length ∧ (∀ e ∈ entries, 0 < e.amount.amount ∧ e.amount.amount ≤ 177000000) ∧
      Money.total (amountsOn .debit entries) = settlement.renterPays.amount ∧
      Money.total (amountsOn .credit entries) = settlement.renterPays.amount := by
  obtain ⟨entries, hentries, happortioned⟩ := hireCaptureEntries_apportioned (by omega) howner.le hplatform hsum
    (hsafe.trans (by decide)) clearing payable revenue
  refine ⟨entries, hentries, happortioned.two, fun e he => ?_, happortioned.debits, happortioned.credits⟩
  obtain ⟨-, hpos, hle⟩ := happortioned.positive e he
  exact ⟨hpos, hle.trans hsafe⟩

theorem isPresent_append {first second : String} (h : isPresent first = true) :
    isPresent (first ++ second) = true := by
  unfold isPresent at h ⊢
  rw [String.toList_append, List.any_append, h, Bool.true_or]

theorem isPresent_attemptKey (purpose : Purpose) (bookingId : String) (failedAttempts : Nat) :
    isPresent (attemptKey purpose bookingId failedAttempts) = true := by
  cases purpose <;> simp only [attemptKey, hireAttemptKey, securityHoldKey, String.append_assoc]
  · exact isPresent_append (by decide)
  · exact isPresent_append (by decide)

theorem isPresent_hireCaptureKey (bookingId : String) : isPresent (hireCaptureKey bookingId) = true :=
  isPresent_append (by decide)

theorem isPresent_identity {spec : AccountSpec} {identity : String}
    (h : accountIdentityOf spec = .ok identity) : isPresent identity = true := by
  have hkind : isPresent spec.kind.text = true := by cases spec.kind <;> decide
  unfold accountIdentityOf at h
  split at h
  · split at h
    · obtain ⟨-, h⟩ := Refusal.ite_error_eq_ok.mp h
      cases h
      simp only [String.append_assoc]
      exact isPresent_append hkind
    · cases h
  · split at h
    · cases h
    · cases h
      simp only [String.append_assoc]
      exact isPresent_append hkind

theorem captureDraft_fits {settlement : HireSettlement} {entries : List LedgerEntry} (intent : PaymentIntent)
    (hlength : 2 ≤ entries.length)
    (heach : ∀ e ∈ entries, 0 < e.amount.amount ∧ e.amount.amount ≤ 177000000)
    (hdebit : Money.total (amountsOn .debit entries) = settlement.renterPays.amount)
    (hcredit : Money.total (amountsOn .credit entries) = settlement.renterPays.amount)
    (hsafe : settlement.renterPays.amount ≤ 177000000) (attempt : PaymentAttempt) (now : Int) (id : Nat) :
    let draft := captureDraft intent attempt settlement.renterPays.currency now entries
    assertPostable draft = .ok () ∧ transactionFits { draft with id := id } = true := by
  refine ⟨assertPostable_eq_ok.mpr ⟨hlength, ?_, ?_, ?_, ?_⟩, ?_⟩
  · have hblank : isTrimmed 'h' = false := by decide
    simp [captureDraft, hireCaptureKey, isBlank, hblank]
  · intro e he
    exact ⟨rfl, (heach e he).1⟩
  · exact hdebit.trans hcredit.symm
  · refine hdebit.le.trans ?_
    simp only [Money.maxSafeInteger]
    omega
  · have hentries : entries.all (fun e => decide (0 < e.amount.amount) && int32 e.amount.amount) = true := by
      rw [List.all_eq_true]
      intro e he
      rw [Bool.and_eq_true, decide_eq_true_iff]
      exact ⟨(heach e he).1, int32_of_within (heach e he).1.le (heach e he).2⟩
    simp [transactionFits, captureDraft, isPresent_hireCaptureKey, hentries, hlength, hdebit, hcredit]

section

variable {w : Payments.Wiring} {booking : BookingRow} (hterms : TermsWithin booking)

include hterms

theorem bookingFits_of_terms : bookingFits booking = true := by
  have hitem := hterms.itemCharge
  have hfee := hterms.renterFee
  have htotal := hterms.total
  have hexcess : ∀ p : Int × ExcessBound → Bool, (∀ e, 0 ≤ e.1 → e.1 ≤ 1000000 → p e = true) →
      booking.damageExcess.all p = true := by
    intro p hp
    cases he : booking.damageExcess with
    | none => rfl
    | some e => exact hp e (hterms.excess e he).1 (hterms.excess e he).2
  simp only [bookingFits, rowAllowed, Bool.and_eq_true, decide_eq_true_eq]
  refine ⟨⟨⟨⟨⟨⟨⟨⟨hterms.period, by omega⟩, hfee.1⟩, htotal⟩, hexcess _ ?_⟩, ?_⟩, ?_⟩, ?_⟩, hexcess _ ?_⟩
  · intro e hlow _
    simpa using hlow
  · exact int32_of_within (by omega) (by omega)
  · exact int32_of_within (by omega) (by omega)
  · exact int32_of_within (by omega) (by omega)
  · intro e hlow hhigh
    exact int32_of_within hlow (by omega)

theorem hireIntent_fits (s : Payments.State) (ownerId : Id) (failedAttempts : Nat) :
    let opened := newIntent s ((Pay.instructionOf booking ownerId).toInstruction.propose w failedAttempts)
    intentFits opened = true ∧ intentAllowed w opened.toNewPaymentIntent = w.bookingExists booking.id := by
  have hitem := hterms.itemCharge
  have hfee := hterms.renterFee
  have htotal := hterms.total
  have hkey := isPresent_attemptKey .hireCharge booking.id failedAttempts
  have hpositive : 0 < booking.totalAmount := by omega
  have hcharge : 0 < booking.itemChargeAmount := by omega
  have hrange : booking.totalAmount ≤ 2147483647 := by omega
  have htotal32 := int32_of_within (n := booking.totalAmount) (by omega) (by omega)
  have hitem32 := int32_of_within (n := booking.itemChargeAmount) (by omega) (by omega)
  have hfee32 := int32_of_within (n := booking.renterFeeAmount) (by omega) (by omega)
  constructor
  · simp [intentFits, newIntent, Instruction.propose, HirePaymentInstruction.toInstruction, Pay.instructionOf,
      Pay.chargeOf, hkey, hpositive, hcharge, hfee.1, htotal.symm, htotal32, hitem32, hfee32]
  · simp [intentAllowed, newIntent, Instruction.propose, HirePaymentInstruction.toInstruction,
      Pay.instructionOf, Pay.chargeOf, hpositive, hcharge, hfee.1, htotal.symm, hrange]

theorem hold_fits (ownerId : Id) (s : Payments.State) (t : Payments.Pid) (hfree : (s.procs t).isFree = true) :
    let instruction := securityInstructionOf booking ownerId
    Payments.step w s (.holdDamageSecurity t instruction) = some (s.setProc t (.returned .notRequired)) ∨
      ∃ excess, Payments.step w s (.holdDamageSecurity t instruction) =
          some (s.setProc t (.keying (instruction.toInstruction excess))) ∧
        ∀ s failedAttempts,
          let opened := newIntent s ((instruction.toInstruction excess).propose w failedAttempts)
          intentFits opened ∧ intentAllowed w opened.toNewPaymentIntent = w.bookingExists booking.id ∧
          opened.division = none := by
  cases he : booking.damageExcess with
  | none =>
    left
    simp [Payments.step, hfree, securityInstructionOf, toAppliedExcess, he]
  | some e =>
    obtain ⟨hlow, hhigh⟩ := hterms.excess e he
    by_cases hzero : e.1 = 0
    · left
      simp [Payments.step, hfree, securityInstructionOf, toAppliedExcess, he, hzero]
    · right
      have hpositive : 0 < e.1 := by omega
      have hrange : e.1 ≤ 2147483647 := by omega
      have hint := int32_of_within hlow (by omega)
      refine ⟨⟨e.1, booking.currency⟩, ?_, fun s failedAttempts => ⟨?_, ?_, rfl⟩⟩
      · simp [Payments.step, hfree, securityInstructionOf, toAppliedExcess, he, hzero]
      · have hkey := isPresent_attemptKey .damageSecurity booking.id failedAttempts
        simp [intentFits, newIntent, Instruction.propose, DamageSecurityInstruction.toInstruction,
          securityInstructionOf, hkey, hpositive, hint]
      · simp [intentAllowed, newIntent, Instruction.propose, DamageSecurityInstruction.toInstruction,
          securityInstructionOf, hpositive, hrange]

theorem bookingRowsFit {policy : CategoryFeePolicy} (hpolicy : policy.Accepted)
    (hwired : w.policyOf booking.categoryVersionId = some policy) (hexact : w.percentageOf = exactPercentageOf) :
    BookingRowsFit w booking where
  row := bookingFits_of_terms hterms
  events := ⟨rfl, fun _ _ _ => rfl⟩
  hire ownerId := by
    have hitem := hterms.itemCharge
    have hfee := hterms.renterFee
    have htotal := hterms.total
    obtain ⟨settlement, hsettled, hpays, howner, hplatform, hsum⟩ :=
      settleHire_ok hpolicy (Pay.chargeOf booking) hitem.1 hfee.1 htotal
        (by simp only [Pay.chargeOf]; omega)
    have hsafe : settlement.renterPays.amount ≤ 177000000 := by
      rw [hpays]
      simp only [Pay.chargeOf]
      omega
    refine ⟨settlement, ?_, fun s failedAttempts => ?_⟩
    · simp only [Payments.settle, hwired, hexact, hsettled]
    · obtain ⟨hfits, hallowed⟩ := hireIntent_fits (w := w) hterms s ownerId failedAttempts
      refine ⟨hfits, hallowed, rfl, fun clearing payable revenue => ?_⟩
      obtain ⟨entries, hentries, hlength, heach, hdebit, hcredit⟩ :=
        hireCaptureEntries_ok howner hplatform (by rw [hpays]; exact hsum) hsafe clearing payable revenue
      exact ⟨entries, hentries, captureDraft_fits _ hlength heach hdebit hcredit hsafe⟩
  hold := hold_fits hterms

end

theorem columns_toAppliedExcess (currency : Currency) (columns : Option (Int × ExcessBound)) :
    damageExcessColumns (toAppliedExcess currency columns) = columns := by
  cases columns <;> rfl

theorem quoteFits_of_terms {quote : QuoteRow} {id renterId : Id} {listing : QuotableListing}
    {state : BookingState} {now : Instant} (hitems : quote.lineItems ≠ [])
    (hterms : TermsWithin (newBooking id quote listing renterId state now)) : quoteFits quote = true := by
  have hfits := bookingFits_of_terms hterms
  have hempty : quote.lineItems.isEmpty = false := List.isEmpty_eq_false_iff.mpr hitems
  simp only [bookingFits, rowAllowed, newBooking, columns_toAppliedExcess] at hfits
  simp only [quoteFits, quoteAllowed, hempty, Bool.not_false, Bool.and_true]
  exact hfits

theorem refuseBelowMinimumBooking_ok {policy : CategoryFeePolicy} (hpolicy : policy.Accepted) (total : Money) :
    ∃ refusal, refuseBelowMinimumBooking total policy = .ok refusal := by
  have hfloor := hpolicy.bookingFloor
  unfold maxPricingFloorMinorUnits at hfloor
  rw [refuseBelowMinimumBooking, Money.money, if_pos (by simp only [Money.maxSafeInteger]; omega)]
  simp only [Except.bind, Money.lessThan, if_true]
  exact ⟨_, rfl⟩

theorem appliedExcessOrNone_ok {band : Option DamageSecurityPolicy} (hband : ∀ b, band = some b → b.Accepted)
    {value : Money} (hvalue : replacementValueAccepted value) :
    ∃ excess, appliedExcessOrNone exactPercentageOf band value = .ok excess ∧
      ∀ e, excess = some e → 0 ≤ e.amount.amount ∧ e.amount.amount ≤ 1000000 := by
  cases band with
  | none => exact ⟨none, rfl, by simp⟩
  | some band =>
    obtain ⟨excess, hexcess, hlow, hhigh⟩ := appliedExcessFor_ok (hband band rfl) hvalue
    refine ⟨some excess, ?_, fun e he => ?_⟩
    · rw [appliedExcessOrNone, hexcess]
      rfl
    · cases he
      exact ⟨hlow, hhigh.trans (hband band rfl).recoveryCeiling.2⟩

theorem findQuotable_feePolicy {versionOf : Id → Option CategoryVersion} {c : Catalogue} {listingId : Id}
    {listing : QuotableListing} (h : c.findQuotable versionOf listingId = some listing) :
    (versionOf listing.currentCategoryVersionId).map (·.feePolicy) = some listing.currentFeePolicy := by
  unfold Catalogue.findQuotable at h
  obtain ⟨row, -, h⟩ := Option.bind_eq_some_iff.mp h
  obtain ⟨pinned, -, h⟩ := Option.bind_eq_some_iff.mp h
  obtain ⟨current, hcurrent, rfl⟩ := Option.map_eq_some_iff.mp h
  rw [hcurrent, Option.map_some]

/-- No accepted hire dies at a table's constraint: whatever the contract lets
an owner and an administrator set, every lawful hire is either refused for being
below the category's smallest booking, or priced so that every row it goes on to
write fits its table. -/
theorem hire_rows_fit (z : Zone) {versionOf : Id → Option CategoryVersion} {c : Catalogue} {listingId : Id}
    {listing : QuotableListing} (hlisting : c.findQuotable versionOf listingId = some listing) {daily : Money}
    (hrates : listing.rates.Accepted) (hdaily : listing.rates.daily = some daily)
    (hvalue : replacementValueAccepted listing.replacementValue)
    (hpolicy : listing.currentFeePolicy.Accepted)
    (hband : ∀ band, listing.currentDamageSecurity = some band → band.Accepted)
    (hcap : 1 ≤ listing.currentMaximumRentalDays ∧ listing.currentMaximumRentalDays ≤ maxMaximumRentalDays)
    (request : QuoteRequest) {period : Period} (hperiod : period.startAt < period.endAt) {days : Int}
    (hdays : z.rentalDayCount period.startAt period.endAt = .ok days)
    (hlength : days ≤ listing.currentMaximumRentalDays) {w : Payments.Wiring}
    (hpolicies : ∀ versionId, w.policyOf versionId = (versionOf versionId).map (·.feePolicy))
    (hexact : w.percentageOf = exactPercentageOf) :
    (∃ refusal, priceQuote exactPercentageOf z listing request period =
      .error (describeBelowMinimumBooking refusal)) ∨
    ∃ priced excess, priceQuote exactPercentageOf z listing request period = .ok (priced, excess) ∧
      RowsFit w listing period priced excess := by
  have hwired : w.policyOf listing.currentCategoryVersionId = some listing.currentFeePolicy :=
    (hpolicies _).trans (findQuotable_feePolicy hlisting)
  have hlow : 1 ≤ days := by
    unfold Zone.rentalDayCount at hdays
    obtain ⟨-, hdays⟩ := Refusal.ite_error_eq_ok.mp hdays
    cases hdays
    exact le_max_left _ _
  have hhigh : days ≤ 88 := by
    unfold maxMaximumRentalDays at hcap
    omega
  obtain ⟨priced, hpriced, hitems, hitem, hitem', hfee, hfee', htotal⟩ :=
    priceRental_ok hrates hdaily hpolicy hlow hhigh (weekdayOf request.startDate)
  obtain ⟨tooSmall, hsmall⟩ := refuseBelowMinimumBooking_ok hpolicy priced.total
  obtain ⟨excess, hexcess, hwithin⟩ := appliedExcessOrNone_ok hband hvalue
  have hquote : priceQuote exactPercentageOf z listing request period =
      tooSmall.elim (.ok (priced, excess)) (fun refusal => .error (describeBelowMinimumBooking refusal)) := by
    rw [priceQuote, hdays]
    simp only [Except.bind]
    rw [hpriced]
    simp only
    rw [hsmall, hexcess]
    cases tooSmall <;> rfl
  have hbooking : ∀ quoteId id renterId now now' state listing', TermsWithin (newBooking id
      (newQuote quoteId listing renterId period priced excess now) listing' renterId state now') := by
    intro quoteId id renterId now now' state listing'
    refine ⟨hperiod, ⟨hitem, hitem'⟩, ⟨hfee, hfee'⟩, htotal, fun e he => ?_⟩
    rw [newBooking, columns_toAppliedExcess] at he
    obtain ⟨applied, happlied, rfl⟩ := Option.map_eq_some_iff.mp he
    exact hwithin applied happlied
  rw [hquote]
  cases tooSmall with
  | some refusal => exact .inl ⟨refusal, rfl⟩
  | none =>
    refine .inr ⟨priced, excess, rfl, ?_, ?_, fun spec identity => isPresent_identity⟩
    · intro id renterId now
      exact quoteFits_of_terms hitems (hbooking id "" renterId now now requested listing)
    · intro quoteId id renterId now now' state listing'
      exact bookingRowsFit (hbooking quoteId id renterId now now' state listing') hpolicy hwired hexact

def drillVersions : Id → Option CategoryVersion := fun _ => some drillVersion

def drillPayments : Payments.Wiring where
  policyOf := fun versionId => (drillVersions versionId).map (·.feePolicy)
  percentageOf := exactPercentageOf
  bookingExists := fun id => id = "b1"
  providerName := "fake"

/-- Three days of the drill are priced, and every row fits. -/
theorem drill_rows_fit : ∃ listing priced excess,
    drillCatalogue.findQuotable drillVersions "drill" = some listing ∧
    priceQuote exactPercentageOf .utc listing ⟨100, 102, by decide⟩ (periodFromLocalDates .utc 100 102) =
      .ok (priced, excess) ∧
    RowsFit drillPayments listing (periodFromLocalDates .utc 100 102) priced excess := by
  let listing : QuotableListing := ⟨"drill", "owner", "Drill", "Tools", drillListing.rates,
    drillVersion.feePolicy, drillVersion.damageSecurity, drillListing.replacementValue, 28, 48, "v1"⟩
  have hlisting : drillCatalogue.findQuotable drillVersions "drill" = some listing := by decide +kernel
  have hrates : listing.rates.Accepted := by
    refine ⟨fun rate hrate => ?_, fun hnone => by cases hnone⟩
    obtain rfl | rfl : rate = ⟨1000, .gbp⟩ ∨ rate = ⟨5000, .gbp⟩ := by
      simpa [listing, drillListing] using hrate
    · exact ⟨by decide, by decide⟩
    · exact ⟨by decide, by decide⟩
  have hband : ∀ band, listing.currentDamageSecurity = some band → band.Accepted := by
    intro band hb
    cases hb
    exact ⟨by decide, by decide, by decide, rfl, by decide⟩
  let period := periodFromLocalDates .utc 100 102
  have hperiod : period.startAt < period.endAt := by decide
  have hdays : Zone.utc.rentalDayCount period.startAt period.endAt = .ok 3 := by decide +kernel
  obtain ⟨refusal, hrefused⟩ | ⟨priced, excess, hpriced, hfits⟩ :=
    hire_rows_fit .utc hlisting hrates rfl ⟨by decide, by decide⟩
      ⟨by decide, by decide, by decide, by decide, rfl, by decide⟩ hband (by decide)
      ⟨100, 102, by decide⟩ hperiod hdays (by decide) (w := drillPayments) (fun _ => rfl) rfl
  · have hok : (priceQuote exactPercentageOf .utc listing ⟨100, 102, by decide⟩
        (periodFromLocalDates .utc 100 102)).toOption.isSome := by decide +kernel
    rw [hrefused] at hok
    cases hok
  · exact ⟨listing, priced, excess, hlisting, hpriced, hfits⟩

end RentalMarket.Booking
