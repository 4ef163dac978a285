import RentalMarket.Booking.Pay
import RentalMarket.Payments.Calls

namespace RentalMarket.Booking.Collection

open RentalMarket.Core RentalMarket.Payments BookingState

def notAtCollection : String :=
  "That booking is not at its collection window, so there is nothing to secure yet. Nothing has been held."

def noLongerCollectable : String :=
  "That item is no longer available to collect. Nothing has been held."

inductive CollectionSecurityStatus where
  | notRequired
  | held
  | pendingPayerAction
  | failed
  deriving DecidableEq, Repr

structure CollectionSecurityResult where
  status : CollectionSecurityStatus
  payerAction : Option String
  failureMessage : Option String
  deriving DecidableEq, Repr

def notRequired : CollectionSecurityResult := ⟨.notRequired, none, none⟩

/-- What was done, told as how securing the handover turned out. Unfinished is
not failed. -/
def securityResult (intent : PaymentIntent) (payerAction : Option String) : CollectionSecurityResult :=
  match intent.status with
  | .succeeded => ⟨.held, none, none⟩
  | .failed => ⟨.failed, none, intent.failure.map (·.message)⟩
  | _ => ⟨.pendingPayerAction, payerAction, none⟩

inductive SecureOutcome where
  | refused (sentence : String)
  | threw (error : String)
  | notFound
  | secured (booking : BookingRow) (result : CollectionSecurityResult)
  deriving DecidableEq, Repr

/-- A call of `secureCollection` between two steps. While it holds, its own
call of the payments service runs. -/
inductive Call where
  | idle
  | finding (bookingId renterId : Id)
  | owning (booking : BookingRow)
  | holding (booking : BookingRow)
  | marking (booking : BookingRow) (result : CollectionSecurityResult)
  | returned (outcome : SecureOutcome)
  deriving DecidableEq, Repr

def Call.isFree : Call → Bool
  | .idle => true
  | .returned _ => true
  | _ => false

structure State where
  tables : Tables
  payments : Payments.State
  calls : Pid → Call

def State.setCall (s : State) (t : Pid) (c : Call) : State :=
  { s with calls := Function.update s.calls t c }

@[simp] theorem setCall_self (s : State) (t : Pid) (c : Call) : (s.setCall t c).calls t = c :=
  Function.update_self _ _ _

@[simp] theorem setCall_other (s : State) {t t' : Pid} (h : t' ≠ t) (c : Call) :
    (s.setCall t c).calls t' = s.calls t' := Function.update_of_ne h _ _

def appliedExcess (booking : BookingRow) : Option Money :=
  booking.damageExcess.map (fun e => ⟨e.1, booking.currency⟩)

def instructionOf (booking : BookingRow) (ownerId : Id) : DamageSecurityInstruction :=
  ⟨booking.id, ownerId, booking.categoryVersionId, appliedExcess booking⟩

/-- A lost race is silently fine. The move is one the machine has. -/
def markFailed (r : Tables) (booking : BookingRow) : Tables :=
  (r.advance booking.id readyForCollection securityFailed none).getD r

section

variable (w : Pay.Wiring)

/-- Run the next step of `t`. -/
def exec (s : State) (t : Pid) (d : Draw) : Option State :=
  match s.calls t with
  | .idle => none
  | .returned _ => none
  | .finding bookingId renterId =>
    match s.tables.findForParty w.ownerOf bookingId renterId with
    | none => some (s.setCall t (.returned .notFound))
    | some booking =>
      if booking.renterId ≠ renterId then some (s.setCall t (.returned .notFound))
      else if booking.state ≠ readyForCollection then
        some (s.setCall t (.returned (.refused notAtCollection)))
      else some (s.setCall t (.owning booking))
  | .owning booking =>
    match w.ownerOf booking.listingId with
    | none => some (s.setCall t (.returned (.refused noLongerCollectable)))
    | some ownerId =>
      (Payments.step w.payments s.payments (.holdDamageSecurity t (instructionOf booking ownerId))).map
        (fun payments => { s with payments := payments }.setCall t (.holding booking))
  | .holding booking =>
    match s.payments.procs t with
    | .returned .notRequired => some (s.setCall t (.returned (.secured booking notRequired)))
    | .returned (.attempted intent payerAction) =>
      let result := securityResult intent payerAction
      if result.status = .failed then some (s.setCall t (.marking booking result))
      else some (s.setCall t (.returned (.secured booking result)))
    | .returned (.threw e) => some (s.setCall t (.returned (.threw e)))
    | _ => (Payments.step w.payments s.payments (.exec t d)).map
      (fun payments => { s with payments := payments })
  | .marking booking result =>
    some ({ s with tables := markFailed s.tables booking }.setCall t
      (.returned (.secured booking result)))

/-- A call of `secureCollection` starts, takes its next step or dies with the
payment call it is in. Meanwhile others pay and refresh, requests come in, and
bookings are moved, save into the state that only this call moves one into. -/
inductive Action where
  | secure (t : Pid) (bookingId renterId : Id) (paymentEnabled : Bool)
  | exec (t : Pid) (d : Draw)
  | crash (t : Pid)
  | elsewhere (a : Payments.Action)
  | moved (bookingId : Id) (src dst : BookingState) (actorId : Option Id)
  | requested (booking : BookingRow)
  deriving DecidableEq, Repr

/-- The steps of the payments service that belong to no call of
`secureCollection`: nobody else asks for a hold. -/
def mayRunElsewhere (s : State) : Payments.Action → Bool
  | .payForHire t _ => (s.calls t).isFree
  | .holdDamageSecurity _ _ => false
  | .refresh t _ => (s.calls t).isFree
  | .exec t _ => (s.calls t).isFree
  | .crash t => (s.calls t).isFree
  | .progress _ _ => true

def step (s : State) : Action → Option State
  | .secure t bookingId renterId paymentEnabled =>
    if (s.calls t).isFree && (s.payments.procs t).isFree then
      some (s.setCall t (if paymentEnabled then .finding bookingId renterId
        else .returned (.refused Pay.paymentNotEnabled)))
    else none
  | .exec t d => exec w s t d
  | .crash t =>
    (Payments.step w.payments s.payments (.crash t)).map
      (fun payments => { s with payments := payments }.setCall t .idle)
  | .elsewhere a =>
    if mayRunElsewhere s a then
      (Payments.step w.payments s.payments a).map (fun payments => { s with payments := payments })
    else none
  | .moved bookingId src dst actorId =>
    if canTransition src dst = true ∧ dst ≠ securityFailed then
      (s.tables.advance bookingId src dst actorId).map (fun tables => { s with tables := tables })
    else none
  | .requested booking =>
    if booking.state = BookingState.requested then
      (s.tables.createWithEvent booking).map (fun tables => { s with tables := tables })
    else none

end

end RentalMarket.Booking.Collection
