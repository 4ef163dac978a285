import RentalMarket.Booking.Tables
import RentalMarket.Payments.Charge

namespace RentalMarket.Booking.Pay

open RentalMarket.Core RentalMarket.Payments BookingState

def payableStates : List BookingState := [accepted, awaitingPayment, paymentFailed]

def paymentNotEnabled : String :=
  "Paying for bookings is not switched on yet, so nothing has been charged. Your booking is still held."

def noLongerThere : String :=
  "That item is no longer available to pay for. Nothing has been charged."

def changedWhilePaying : String :=
  "That booking changed while you were paying. Reload the page to see where it stands. Nothing has been charged twice."

def describeUnpayable (state : BookingState) : String :=
  if state = reserved then "That booking is already paid for. Nothing has been charged again."
  else if state = requested then
    "That request has not been accepted yet, so there is nothing to pay for."
  else if state = declined ∨ state = expired ∨ state = cancelled then
    "That booking is no longer live, so it cannot be paid for."
  else "That booking is past the point of paying for it. Reload the page to see where it stands."

structure HireChargeResult where
  status : AttemptStatus
  payerAction : Option String
  failureMessage : Option String
  deriving DecidableEq, Repr

/-- An attempt that has not been asked for reads as one in progress. -/
def chargeStatus : IntentStatus → AttemptStatus
  | .initiated => .processing
  | .pendingPayerAction => .pendingPayerAction
  | .processing => .processing
  | .succeeded => .succeeded
  | .failed => .failed

def hireChargeResult (intent : PaymentIntent) (payerAction : Option String) : HireChargeResult :=
  ⟨chargeStatus intent.status, payerAction, intent.failure.map (·.message)⟩

inductive PayOutcome where
  | refused (sentence : String)
  | threw (error : String)
  | notFound
  | paid (booking : BookingRow) (payment : HireChargeResult)
  deriving DecidableEq, Repr

/-- A press of the pay button between two steps. While it charges, its own call
of the payments service runs. -/
inductive Call where
  | idle
  | finding (bookingId renterId : Id)
  | owning (booking : BookingRow) (renterId : Id)
  | moving (booking : BookingRow) (renterId ownerId : Id)
  | charging (booking : BookingRow) (renterId : Id)
  | settling (booking : BookingRow) (renterId : Id) (result : HireChargeResult)
  | readingBack (booking : BookingRow) (renterId : Id) (result : HireChargeResult)
  | returned (outcome : PayOutcome)
  deriving DecidableEq, Repr

def Call.isFree : Call → Bool
  | .idle => true
  | .returned _ => true
  | _ => false

structure State where
  tables : Tables
  payments : Payments.State
  calls : Pid → Call

/-- Who owns a listing never changes. -/
structure Wiring where
  payments : Payments.Wiring
  ownerOf : Id → Option Id

def State.setCall (s : State) (t : Pid) (c : Call) : State :=
  { s with calls := Function.update s.calls t c }

@[simp] theorem setCall_self (s : State) (t : Pid) (c : Call) : (s.setCall t c).calls t = c :=
  Function.update_self _ _ _

@[simp] theorem setCall_other (s : State) {t t' : Pid} (h : t' ≠ t) (c : Call) :
    (s.setCall t c).calls t' = s.calls t' := Function.update_of_ne h _ _

def chargeOf (booking : BookingRow) : HireCharge :=
  ⟨⟨booking.itemChargeAmount, booking.currency⟩, ⟨booking.renterFeeAmount, booking.currency⟩,
    ⟨booking.totalAmount, booking.currency⟩⟩

def instructionOf (booking : BookingRow) (ownerId : Id) : HirePaymentInstruction :=
  ⟨booking.id, ownerId, chargeOf booking, booking.categoryVersionId⟩

def settledState : AttemptStatus → Option BookingState
  | .succeeded => some reserved
  | .failed => some paymentFailed
  | _ => none

section

variable (w : Wiring)

/-- `movePayable`: the tables once the booking awaits payment, or `none` if
somebody else has moved it. -/
def movePayable (r : Tables) (booking : BookingRow) (renterId : Id) : Option Tables :=
  if booking.state = awaitingPayment then some r
  else match assertTransition booking.state awaitingPayment with
    | .error _ => none
    | .ok _ => r.advance booking.id booking.state awaitingPayment (some renterId)

/-- `settle`: a lost race is silently fine. -/
def settle (r : Tables) (booking : BookingRow) (renterId : Id) (status : AttemptStatus) : Tables :=
  match settledState status with
  | none => r
  | some dst => (r.advance booking.id awaitingPayment dst (some renterId)).getD r

/-- Run the next step of `t`. -/
def exec (s : State) (t : Pid) (d : Draw) : Option State :=
  match s.calls t with
  | .idle => none
  | .returned _ => none
  | .finding bookingId renterId =>
    match s.tables.findForParty w.ownerOf bookingId renterId with
    | none => some (s.setCall t (.returned .notFound))
    | some booking =>
      if booking.renterId ≠ renterId then some (s.setCall t (.returned .notFound))
      else if booking.state ∉ payableStates then
        some (s.setCall t (.returned (.refused (describeUnpayable booking.state))))
      else some (s.setCall t (.owning booking renterId))
  | .owning booking renterId =>
    match w.ownerOf booking.listingId with
    | none => some (s.setCall t (.returned (.refused noLongerThere)))
    | some ownerId => some (s.setCall t (.moving booking renterId ownerId))
  | .moving booking renterId ownerId =>
    match movePayable s.tables booking renterId with
    | none => some (s.setCall t (.returned (.refused changedWhilePaying)))
    | some tables =>
      (Payments.step w.payments s.payments (.payForHire t (instructionOf booking ownerId))).map
        (fun payments => { s with tables := tables, payments := payments }.setCall t
          (.charging booking renterId))
  | .charging booking renterId =>
    match s.payments.procs t with
    | .returned (.attempted intent payerAction) =>
      some (s.setCall t (.settling booking renterId (hireChargeResult intent payerAction)))
    | .returned (.threw e) => some (s.setCall t (.returned (.threw e)))
    | _ => (Payments.step w.payments s.payments (.exec t d)).map
      (fun payments => { s with payments := payments })
  | .settling booking renterId result =>
    some ({ s with tables := settle s.tables booking renterId result.status }.setCall t
      (.readingBack booking renterId result))
  | .readingBack booking renterId result =>
    (s.tables.findForParty w.ownerOf booking.id renterId).map
      (fun row => s.setCall t (.returned (.paid row result)))

inductive Action where
  | pay (t : Pid) (bookingId renterId : Id) (paymentEnabled : Bool)
  | exec (t : Pid) (d : Draw)
  | progress (reference : Nat) (answer : Answer)
  deriving DecidableEq, Repr

def step (s : State) : Action → Option State
  | .pay t bookingId renterId paymentEnabled =>
    if (s.calls t).isFree then
      some (s.setCall t (if paymentEnabled then .finding bookingId renterId
        else .returned (.refused paymentNotEnabled)))
    else none
  | .exec t d => exec w s t d
  | .progress reference answer =>
    (Payments.step w.payments s.payments (.progress reference answer)).map
      (fun payments => { s with payments := payments })

end

end RentalMarket.Booking.Pay
