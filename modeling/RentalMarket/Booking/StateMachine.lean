import Mathlib.Data.List.Basic

namespace RentalMarket.Booking

inductive BookingState where
  | draft
  | abandoned
  | requested
  | accepted
  | awaitingPayment
  | paymentFailed
  | reserved
  | readyForCollection
  | securityFailed
  | noShow
  | collected
  | returnDue
  | late
  | returnedPendingConfirmation
  | completed
  | reviewWindow
  | disputed
  | refunded
  | partiallyRefunded
  | declined
  | expired
  | cancelled
  | closed
  deriving DecidableEq, Repr

open BookingState

def transitions : BookingState → List BookingState
  | draft => [requested, abandoned]
  | abandoned => []
  | requested => [accepted, declined, expired, cancelled]
  | accepted => [awaitingPayment, reserved]
  | awaitingPayment => [reserved, paymentFailed, expired]
  | paymentFailed => [awaitingPayment, expired, cancelled]
  | reserved => [readyForCollection, cancelled, disputed]
  | readyForCollection => [collected, noShow, cancelled, securityFailed]
  | securityFailed => [readyForCollection, cancelled, disputed]
  | noShow => [cancelled, disputed, closed]
  | collected => [returnDue, returnedPendingConfirmation, disputed]
  | returnDue => [returnedPendingConfirmation, late]
  | late => [returnedPendingConfirmation, disputed]
  | returnedPendingConfirmation => [completed, disputed]
  | completed => [reviewWindow]
  | reviewWindow => [closed]
  | disputed => [completed, refunded, partiallyRefunded, closed]
  | refunded => [closed]
  | partiallyRefunded => [closed]
  | declined => [closed]
  | expired => [closed]
  | cancelled => [closed]
  | closed => []

def calendarOccupyingStates : List BookingState :=
  [accepted, awaitingPayment, paymentFailed, reserved, readyForCollection, securityFailed,
    collected, returnDue, late]

def occupiesCalendar (state : BookingState) : Bool := calendarOccupyingStates.contains state

def isTerminal (state : BookingState) : Bool := (transitions state).isEmpty

def canTransition (src dst : BookingState) : Bool := (transitions src).contains dst

/-- Take the move, or refuse it. The refusal carries both states, as
`InvalidBookingTransitionError` does. -/
def assertTransition (src dst : BookingState) : Except (BookingState × BookingState) BookingState :=
  if canTransition src dst then .ok dst else .error (src, dst)

theorem not_canTransition_of_isTerminal {src : BookingState} (h : isTerminal src = true)
    (dst : BookingState) : canTransition src dst = false := by
  rw [isTerminal, List.isEmpty_iff] at h
  simp [canTransition, h]

/-- Nothing moves back into `requested` except an unsubmitted draft, and
nothing moves into `draft` at all. -/
theorem src_eq_draft_of_canTransition_requested {src : BookingState}
    (h : canTransition src requested = true) : src = draft := by
  cases src <;> first | rfl | exact absurd h (by decide)

theorem canTransition_draft (src : BookingState) : canTransition src draft = false := by
  cases src <;> rfl

end RentalMarket.Booking
