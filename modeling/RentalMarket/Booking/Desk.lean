import RentalMarket.Booking.Acceptance
import RentalMarket.Booking.Pay
import RentalMarket.Booking.Quotes

namespace RentalMarket.Booking.Desk

open RentalMarket.Core RentalMarket.Pricing BookingState

/-- What the two services are wired to. Versions are never rewritten, so a
version is a function of its id. -/
structure Wiring where
  zone : Zone
  percentageOf : PercentageOf
  versionOf : Id → Option CategoryVersion
  ownerOf : Id → Option Id
  bookingExists : Id → Bool
  providerName : String

/-- The payments service reads the same versions. -/
def Wiring.pay (w : Wiring) : Pay.Wiring where
  payments := ⟨fun id => (w.versionOf id).map (·.feePolicy), w.percentageOf, w.bookingExists, w.providerName⟩
  ownerOf := w.ownerOf

inductive Reply where
  | refused (sentence : String)
  | notFound
  /-- The store refused to write. -/
  | failed
  | quoted (quote : QuoteRow)
  | booking (row : BookingRow)
  deriving DecidableEq, Repr

/-- A call of `quote`, `request` or `accept` between two awaits. -/
inductive Call where
  | idle
  | quoting (listingId renterId : Id) (request : QuoteRequest)
  | looking (listing : QuotableListing) (renterId : Id) (request : QuoteRequest) (period : Period)
  | pricing (listing : QuotableListing) (renterId : Id) (request : QuoteRequest) (period : Period)
  | requesting (quoteId renterId : Id)
  | relisting (quote : QuoteRow) (renterId : Id)
  | reserving (quote : QuoteRow) (listing : QuotableListing) (renterId : Id)
  | creating (quote : QuoteRow) (listing : QuotableListing) (renterId : Id)
  | accepting (bookingId ownerId : Id)
  | clearing (booking : BookingRow) (ownerId : Id)
  | answering (booking : BookingRow) (ownerId : Id)
  | readingBack (bookingId userId : Id)
  | returned (reply : Reply)
  deriving DecidableEq, Repr

def Call.isFree : Call → Bool
  | .idle => true
  | .returned _ => true
  | _ => false

structure State where
  catalogue : Catalogue
  blocks : List AvailabilityBlock
  quotes : List QuoteRow
  pay : Pay.State
  desks : Pid → Call

namespace State

def start (catalogue : Catalogue) (blocks : List AvailabilityBlock) : State :=
  ⟨catalogue, blocks, [], ⟨.empty, .empty, fun _ => .idle⟩, fun _ => .idle⟩

def setDesk (s : State) (t : Pid) (c : Call) : State :=
  { s with desks := Function.update s.desks t c }

@[simp] theorem setDesk_self (s : State) (t : Pid) (c : Call) : (s.setDesk t c).desks t = c :=
  Function.update_self _ _ _

@[simp] theorem setDesk_other (s : State) {t t' : Pid} (h : t' ≠ t) (c : Call) :
    (s.setDesk t c).desks t' = s.desks t' := Function.update_of_ne h _ _

def withTables (s : State) (tables : Tables) : State := { s with pay := { s.pay with tables := tables } }

end State

/-- What the world decides for a step: the id of a new row, the clock. -/
structure Draw where
  id : Id
  now : Instant
  deriving DecidableEq, Repr

section

variable (w : Wiring)

/-- Run the next step of `t`. -/
def exec (s : State) (t : Pid) (d : Draw) : Option State :=
  match s.desks t with
  | .idle => none
  | .returned _ => none
  | .quoting listingId renterId request =>
    match s.catalogue.findQuotable w.versionOf listingId with
    | none => some (s.setDesk t (.returned .notFound))
    | some listing =>
      match examineQuote w.zone listing renterId request d.now with
      | .error e => some (s.setDesk t (.returned (.refused e)))
      | .ok period => some (s.setDesk t (.looking listing renterId request period))
  | .looking listing renterId request period =>
    match reasonUnavailable s.blocks s.pay.tables.bookings listing.id period with
    | some reason => some (s.setDesk t (.returned (.refused (describeUnavailable reason))))
    | none => some (s.setDesk t (.pricing listing renterId request period))
  | .pricing listing renterId request period =>
    match priceQuote w.percentageOf w.zone listing request period with
    | .error e => some (s.setDesk t (.returned (.refused e)))
    | .ok (priced, excess) =>
      let row := newQuote d.id listing renterId period priced excess d.now
      if quoteAllowed row && s.quotes.all (fun q => q.id ≠ row.id) then
        some ({ s with quotes := s.quotes ++ [row] }.setDesk t (.returned (.quoted row)))
      else some (s.setDesk t (.returned .failed))
  | .requesting quoteId renterId =>
    match findForRenter s.quotes quoteId renterId with
    | none => some (s.setDesk t (.returned .notFound))
    | some quote =>
      if quote.expiresAt ≤ d.now then some (s.setDesk t (.returned (.refused priceHasExpired)))
      else some (s.setDesk t (.relisting quote renterId))
  | .relisting quote renterId =>
    match examineRequest (s.catalogue.findQuotable w.versionOf quote.listingId) renterId with
    | .error e => some (s.setDesk t (.returned (.refused e)))
    | .ok listing => some (s.setDesk t (.reserving quote listing renterId))
  | .reserving quote listing renterId =>
    match reasonUnavailable s.blocks s.pay.tables.bookings quote.listingId quote.period with
    | some reason => some (s.setDesk t (.returned (.refused (describeUnavailable reason))))
    | none => some (s.setDesk t (.creating quote listing renterId))
  | .creating quote listing renterId =>
    match assertTransition draft requested with
    | .error _ => some (s.setDesk t (.returned .failed))
    | .ok state =>
      let row := newBooking d.id quote listing renterId state d.now
      match s.pay.tables.createWithEvent row with
      | some tables => some ((s.withTables tables).setDesk t (.readingBack row.id renterId))
      | none =>
        if s.pay.tables.bookings.any (fun r => r.quoteId = quote.id) then
          some (s.setDesk t (.returned (.refused alreadyRequested)))
        else some (s.setDesk t (.returned .failed))
  | .accepting bookingId ownerId =>
    match s.pay.tables.findForParty w.ownerOf bookingId ownerId with
    | none => some (s.setDesk t (.returned .notFound))
    | some booking =>
      if booking.state ≠ requested then
        some (s.setDesk t (.returned (.refused Acceptance.noLongerWaiting)))
      else if booking.requestExpiresAt ≤ d.now then
        some (s.setDesk t (.returned (.refused Acceptance.requestHasExpired)))
      else some (s.setDesk t (.clearing booking ownerId))
  | .clearing booking ownerId =>
    match reasonUnavailable s.blocks s.pay.tables.bookings booking.listingId booking.period with
    | some reason => some (s.setDesk t (.returned (.refused (describeUnavailableToOwner reason))))
    | none => some (s.setDesk t (.answering booking ownerId))
  | .answering booking ownerId =>
    match assertTransition requested accepted with
    | .error _ => some (s.setDesk t (.returned .failed))
    | .ok _ =>
      match s.pay.tables.accept w.ownerOf booking.id ownerId d.now with
      | some tables => some ((s.withTables tables).setDesk t (.readingBack booking.id ownerId))
      | none => some (s.setDesk t (.returned .failed))
  | .readingBack bookingId userId =>
    (s.pay.tables.findForParty w.ownerOf bookingId userId).map
      (fun row => s.setDesk t (.returned (.booking row)))

/-- An owner's edit, a category's new version, an owner's calendar; a call that
starts or goes on; or a step of a press of the pay button. -/
inductive Action where
  | edit (listingId : Id) (title : String) (rates : ListingRateCard) (replacementValue : Money)
      (quotable : Bool)
  | reconfigure (categoryId versionId : Id)
  | block (blocks : List AvailabilityBlock)
  | quote (t : Pid) (listingId renterId : Id) (request : QuoteRequest)
  | request (t : Pid) (quoteId renterId : Id)
  | accept (t : Pid) (bookingId ownerId : Id)
  | exec (t : Pid) (d : Draw)
  | pay (a : Pay.Action)
  deriving DecidableEq, Repr

def State.call (s : State) (t : Pid) (c : Call) : Option State :=
  if (s.desks t).isFree then some (s.setDesk t c) else none

def step (s : State) : Action → Option State
  | .edit listingId title rates replacementValue quotable =>
    some { s with catalogue := s.catalogue.edit listingId title rates replacementValue quotable }
  | .reconfigure categoryId versionId =>
    if (w.versionOf versionId).isSome then
      some { s with catalogue := s.catalogue.reconfigure categoryId versionId }
    else none
  | .block blocks => some { s with blocks := blocks }
  | .quote t listingId renterId request => s.call t (.quoting listingId renterId request)
  | .request t quoteId renterId => s.call t (.requesting quoteId renterId)
  | .accept t bookingId ownerId => s.call t (.accepting bookingId ownerId)
  | .exec t d => exec w s t d
  | .pay a => (Pay.step w.pay s.pay a).map (fun pay => { s with pay := pay })

end

end RentalMarket.Booking.Desk
