import RentalMarket.Core.Money
import RentalMarket.Lib.Text

namespace RentalMarket.Payments

open RentalMarket.Core

inductive Purpose where
  | hireCharge
  | damageSecurity
  deriving DecidableEq, Repr

def Purpose.text : Purpose → String
  | hireCharge => "hire_charge"
  | damageSecurity => "damage_security"

inductive IntentStatus where
  | initiated
  | pendingPayerAction
  | processing
  | succeeded
  | failed
  deriving DecidableEq, Repr

namespace IntentStatus

def text : IntentStatus → String
  | initiated => "initiated"
  | pendingPayerAction => "pending_payer_action"
  | processing => "processing"
  | succeeded => "succeeded"
  | failed => "failed"

def isTerminal : IntentStatus → Bool
  | succeeded => true
  | failed => true
  | _ => false

end IntentStatus

/-- What a provider says of an attempt: the statuses of an intent, less the
one that means it has not been asked. -/
inductive AttemptStatus where
  | pendingPayerAction
  | processing
  | succeeded
  | failed
  deriving DecidableEq, Repr

namespace AttemptStatus

def toIntent : AttemptStatus → IntentStatus
  | pendingPayerAction => .pendingPayerAction
  | processing => .processing
  | succeeded => .succeeded
  | failed => .failed

def isTerminal (status : AttemptStatus) : Bool := status.toIntent.isTerminal

theorem toIntent_injective : Function.Injective toIntent := by
  intro a b h
  cases a <;> cases b <;> first | rfl | cases h

theorem exists_of_isTerminal {status : IntentStatus} (h : status.isTerminal = true) :
    ∃ a : AttemptStatus, a.isTerminal = true ∧ status = a.toIntent := by
  cases status with
  | succeeded => exact ⟨succeeded, rfl, rfl⟩
  | failed => exact ⟨failed, rfl, rfl⟩
  | _ => cases h

end AttemptStatus

inductive FailureReason where
  | declined
  | authenticationFailed
  | providerError
  deriving DecidableEq, Repr

structure PaymentFailure where
  reason : FailureReason
  message : String
  deriving DecidableEq, Repr

/-- The answer of a provider. Its references number its attempts. -/
structure PaymentAttempt where
  providerReference : Nat
  status : AttemptStatus
  payerAction : Option String
  failure : Option PaymentFailure
  occurredAt : Option Int
  authorisationExpiresAt : Option Int
  deriving DecidableEq, Repr

/-- An attempt as it is proposed. Only a hire charge divides into an item
charge and a renter fee. -/
structure NewPaymentIntent where
  bookingId : String
  purpose : Purpose
  attemptKey : String
  ownerId : String
  categoryVersionId : String
  division : Option (Money × Money)
  amount : Money
  provider : String
  deriving DecidableEq, Repr

/-- A row of `payment_intents`. Its id is its place in the table. -/
structure PaymentIntent extends NewPaymentIntent where
  id : Nat
  status : IntentStatus
  providerReference : Option Nat
  authorisationExpiresAt : Option Int
  failure : Option PaymentFailure
  deriving DecidableEq, Repr

inductive OutcomeDisposition where
  | apply
  | ignore (why : String)
  deriving DecidableEq, Repr

/-- Whether an arriving status applies to an attempt. A settled attempt is the
last word. -/
def dispositionOf (current : IntentStatus) (arriving : AttemptStatus) :
    Except String OutcomeDisposition :=
  if current = arriving.toIntent then .ok (.ignore ("already " ++ current.text))
  else if current.isTerminal then
    .error ("a payment attempt that has " ++ current.text ++ " cannot become " ++
      arriving.toIntent.text ++
      ": a settled attempt is the last word, and a retry is a new attempt")
  else .ok .apply

def dividesDifferently (proposed : NewPaymentIntent) (found : PaymentIntent) : Bool :=
  if proposed.purpose ≠ .hireCharge ∨ found.purpose ≠ .hireCharge then false
  else decide (found.division.map (fun d => (d.1.amount, d.2.amount)) ≠
    proposed.division.map (fun d => (d.1.amount, d.2.amount)))

def assertSameAttempt (proposed : NewPaymentIntent) (found : PaymentIntent) :
    Except String PaymentIntent :=
  if found.bookingId ≠ proposed.bookingId ∨ found.purpose ≠ proposed.purpose ∨
      found.ownerId ≠ proposed.ownerId ∨ found.categoryVersionId ≠ proposed.categoryVersionId ∨
      found.amount.amount ≠ proposed.amount.amount ∨
      found.amount.currency ≠ proposed.amount.currency ∨ dividesDifferently proposed found then
    .error ("attempt key " ++ proposed.attemptKey ++ " has already been used for a different payment")
  else .ok found

def hireAttemptKey (bookingId : String) (failedAttempts : Nat) : String :=
  "hire:" ++ bookingId ++ ":" ++ failedAttempts.repr

def securityHoldKey (bookingId : String) (failedAttempts : Nat) : String :=
  "security:" ++ bookingId ++ ":" ++ failedAttempts.repr

def hireCaptureKey (bookingId : String) : String := "hire-capture:" ++ bookingId

def attemptKey : Purpose → String → Nat → String
  | .hireCharge => hireAttemptKey
  | .damageSecurity => securityHoldKey

theorem attemptKey_inj {p p' : Purpose} {b b' : String} {n n' : Nat}
    (h : attemptKey p b n = attemptKey p' b' n') : p = p' ∧ b = b' ∧ n = n' := by
  have hchars := congrArg String.toList h
  have hcolon : ∀ m : Nat, ':' ∉ m.repr.toList := Text.not_mem_natRepr (by decide)
  have hcut : ∀ x y u v : List Char, ':' ∉ u → ':' ∉ v → x ++ ':' :: u = y ++ ':' :: v →
      x = y ∧ u = v := fun x y u v => Text.append_sep_injective
  cases p <;> cases p' <;>
    simp only [attemptKey, hireAttemptKey, securityHoldKey, String.toList_append,
      List.append_assoc] at hchars
  · have hsplit := hcut ("hire:".toList ++ b.toList) ("hire:".toList ++ b'.toList) n.repr.toList
      n'.repr.toList (hcolon n) (hcolon n') (by simpa using hchars)
    refine ⟨rfl, ?_, Nat.repr_inj.mp (String.toList_inj.mp hsplit.2)⟩
    exact String.toList_inj.mp (List.append_cancel_left hsplit.1)
  · simp at hchars
  · simp at hchars
  · have hsplit := hcut ("security:".toList ++ b.toList) ("security:".toList ++ b'.toList)
      n.repr.toList n'.repr.toList (hcolon n) (hcolon n') (by simpa using hchars)
    refine ⟨rfl, ?_, Nat.repr_inj.mp (String.toList_inj.mp hsplit.2)⟩
    exact String.toList_inj.mp (List.append_cancel_left hsplit.1)

theorem hireCaptureKey_inj {b b' : String} (h : hireCaptureKey b = hireCaptureKey b') : b = b' := by
  have hchars := congrArg String.toList h
  simp only [hireCaptureKey, String.toList_append] at hchars
  exact String.toList_inj.mp (List.append_cancel_left hchars)

end RentalMarket.Payments
