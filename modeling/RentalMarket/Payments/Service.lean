import RentalMarket.Payments.Intent
import RentalMarket.Payments.Settlement

namespace RentalMarket.Payments

open RentalMarket.Core RentalMarket.Pricing

abbrev Pid := Nat

/-- What the service is wired to. A category version is never rewritten, so
its policy is a function of its id. -/
structure Wiring where
  policyOf : String → Option CategoryFeePolicy
  percentageOf : PercentageOf
  bookingExists : String → Bool
  providerName : String

structure Answer where
  status : AttemptStatus
  payerAction : Option String
  failure : Option PaymentFailure
  occurredAt : Option Int
  authorisationExpiresAt : Option Int
  deriving DecidableEq, Repr

/-- An attempt at the provider: the request that opened it and what became of
it since. -/
structure ProviderAttempt extends Answer where
  key : String
  amount : Money
  deriving DecidableEq, Repr

def ProviderAttempt.read (a : ProviderAttempt) (reference : Nat) : PaymentAttempt :=
  ⟨reference, a.status, a.payerAction, a.failure, a.occurredAt, a.authorisationExpiresAt⟩

structure HirePaymentInstruction where
  bookingId : String
  ownerId : String
  charge : HireCharge
  categoryVersionId : String
  deriving DecidableEq, Repr

structure DamageSecurityInstruction where
  bookingId : String
  ownerId : String
  categoryVersionId : String
  excess : Option Money
  deriving DecidableEq, Repr

structure Instruction where
  bookingId : String
  purpose : Purpose
  ownerId : String
  categoryVersionId : String
  division : Option (Money × Money)
  amount : Money
  deriving DecidableEq, Repr

def HirePaymentInstruction.toInstruction (i : HirePaymentInstruction) : Instruction :=
  ⟨i.bookingId, .hireCharge, i.ownerId, i.categoryVersionId,
    some (i.charge.itemCharge, i.charge.renterFee), i.charge.total⟩

def DamageSecurityInstruction.toInstruction (i : DamageSecurityInstruction) (excess : Money) :
    Instruction :=
  ⟨i.bookingId, .damageSecurity, i.ownerId, i.categoryVersionId, none, excess⟩

inductive Result where
  | threw (error : String)
  | attempted (intent : PaymentIntent) (payerAction : Option String)
  | notRequired
  | refreshed (intent : Option PaymentIntent)
  deriving DecidableEq, Repr

/-- A call between two steps: what it does next and the locals it needs. -/
inductive Proc where
  | idle
  | settling (i : HirePaymentInstruction)
  | keying (i : Instruction)
  | finding (new : NewPaymentIntent)
  | creating (new : NewPaymentIntent)
  | refinding (new : NewPaymentIntent)
  | calling (intent : PaymentIntent) (amount : Money)
  | applying (intent : PaymentIntent) (attempt : PaymentAttempt)
  | capturing (intent : PaymentIntent) (attempt : PaymentAttempt)
  | clearing (intent : PaymentIntent) (attempt : PaymentAttempt) (settlement : HireSettlement)
  | payable (intent : PaymentIntent) (attempt : PaymentAttempt) (settlement : HireSettlement)
      (clearing : LedgerAccount)
  | revenue (intent : PaymentIntent) (attempt : PaymentAttempt) (settlement : HireSettlement)
      (clearing payable : LedgerAccount)
  | posting (intent : PaymentIntent) (attempt : PaymentAttempt) (draft : LedgerDraft)
  | inserting (intent : PaymentIntent) (attempt : PaymentAttempt) (draft : LedgerDraft)
  | reposting (intent : PaymentIntent) (attempt : PaymentAttempt) (draft : LedgerDraft)
  | recording (intent : PaymentIntent) (attempt : PaymentAttempt)
  | refreshing (intentId : Nat)
  | reading (intent : PaymentIntent) (reference : Nat)
  | returned (result : Result)
  deriving DecidableEq, Repr

structure State where
  intents : List PaymentIntent
  attempts : List ProviderAttempt
  ledger : Ledger
  procs : Pid → Proc

namespace State

def empty : State := ⟨[], [], .empty, fun _ => .idle⟩

def setProc (s : State) (t : Pid) (p : Proc) : State :=
  { s with procs := Function.update s.procs t p }

@[simp] theorem setProc_self (s : State) (t : Pid) (p : Proc) : (s.setProc t p).procs t = p :=
  Function.update_self _ _ _

@[simp] theorem setProc_other (s : State) {t t' : Pid} (h : t' ≠ t) (p : Proc) :
    (s.setProc t p).procs t' = s.procs t' := Function.update_of_ne h _ _

def findByKey (s : State) (key : String) : Option PaymentIntent :=
  s.intents.find? (fun r => r.attemptKey = key)

def rowsOf (s : State) (bookingId : String) (purpose : Purpose) : List PaymentIntent :=
  s.intents.filter (fun r => r.bookingId = bookingId ∧ r.purpose = purpose)

def failedCount (s : State) (bookingId : String) (purpose : Purpose) : Nat :=
  ((s.rowsOf bookingId purpose).filter (fun r => r.status = .failed)).length

end State

/-- The `CHECK` constraints of `payment_intents` on a new row, and the range of
its columns. -/
def intentAllowed (w : Wiring) (new : NewPaymentIntent) : Bool :=
  w.bookingExists new.bookingId && decide (0 < new.amount.amount ∧ new.amount.amount ≤ 2147483647) &&
  match new.purpose, new.division with
  | .hireCharge, some (itemCharge, renterFee) =>
    decide (0 < itemCharge.amount ∧ 0 ≤ renterFee.amount ∧
      itemCharge.amount + renterFee.amount = new.amount.amount)
  | .damageSecurity, none => true
  | _, _ => false

def newIntent (s : State) (new : NewPaymentIntent) : PaymentIntent :=
  { new with
    id := s.intents.length, status := .initiated, providerReference := none
    authorisationExpiresAt := none, failure := none }

/-- A row as `recordOutcome` leaves it. -/
def recorded (row : PaymentIntent) (attempt : PaymentAttempt) : PaymentIntent :=
  { row with
    status := attempt.status.toIntent
    providerReference := some attempt.providerReference
    authorisationExpiresAt := attempt.authorisationExpiresAt.or row.authorisationExpiresAt
    failure := attempt.failure.or row.failure }

/-- One success for a booking and a purpose, and no failure without a reason. -/
def outcomeAllowed (s : State) (row : PaymentIntent) : Bool :=
  (row.status ≠ .failed || row.failure.isSome) &&
  (row.status ≠ .succeeded || s.intents.all (fun r => r.id = row.id ∨ r.bookingId ≠ row.bookingId ∨
    r.purpose ≠ row.purpose ∨ r.status ≠ .succeeded))

/-- What the world decides for a step: the provider's answer to a new key, the
id of a new account, the clock. -/
structure Draw where
  answer : Answer
  accountId : AccountId
  now : Int
  deriving DecidableEq, Repr

section

variable (w : Wiring)

def Instruction.propose (i : Instruction) (failedAttempts : Nat) : NewPaymentIntent :=
  ⟨i.bookingId, i.purpose, attemptKey i.purpose i.bookingId failedAttempts, i.ownerId,
    i.categoryVersionId, i.division, i.amount, w.providerName⟩

def settle (bookingId categoryVersionId : String) (charge : HireCharge) :
    Except String HireSettlement :=
  match w.policyOf categoryVersionId with
  | none => .error ("booking " ++ bookingId ++ " pins category version " ++ categoryVersionId ++
      ", which cannot be found: refusing to settle against terms nobody agreed to")
  | some policy =>
    match settleHire w.percentageOf charge policy with
    | .error e => .error ("booking " ++ bookingId ++ " cannot be settled: " ++ e)
    | .ok settlement => .ok settlement

/-- The division an attempt stored, with its total. A hold has none. -/
def NewPaymentIntent.charge (r : NewPaymentIntent) : Option HireCharge :=
  r.division.map (fun d => ⟨d.1, d.2, r.amount⟩)

def captureDraft (intent : PaymentIntent) (attempt : PaymentAttempt) (currency : Currency) (now : Int)
    (entries : List LedgerEntry) : LedgerDraft where
  idempotencyKey := hireCaptureKey intent.bookingId
  kind := .hireChargeCaptured
  currency := currency
  bookingId := some intent.bookingId
  occurredAt := attempt.occurredAt.getD now
  entries := entries
  reversesTransactionId := none

/-- A begun attempt goes to the provider only if nobody has asked yet. -/
def begun (new : NewPaymentIntent) (row : PaymentIntent) : Proc :=
  match assertSameAttempt new row with
  | .error e => .returned (.threw e)
  | .ok intent =>
    if intent.status ≠ .initiated then .returned (.attempted intent none) else .calling intent new.amount

/-- The transaction a post ended with must be the one that was asked for. -/
def posted (intent : PaymentIntent) (attempt : PaymentAttempt) (draft : LedgerDraft)
    (t : PostedTransaction) : Proc :=
  match assertSameTransaction draft t with
  | .error e => .returned (.threw e)
  | .ok _ => .recording intent attempt

/-- Run the next step of `t`. -/
def exec (s : State) (t : Pid) (d : Draw) : Option State :=
  match s.procs t with
  | .idle => none
  | .returned _ => none
  | .settling i =>
    match settle w i.bookingId i.categoryVersionId i.charge with
    | .error e => some (s.setProc t (.returned (.threw e)))
    | .ok _ => some (s.setProc t (.keying i.toInstruction))
  | .keying i => some (s.setProc t (.finding (i.propose w (s.failedCount i.bookingId i.purpose))))
  | .finding new =>
    match s.findByKey new.attemptKey with
    | some row => some (s.setProc t (begun new row))
    | none => some (s.setProc t (.creating new))
  | .creating new =>
    if (s.findByKey new.attemptKey).isNone && intentAllowed w new then
      some ({ s with intents := s.intents ++ [newIntent s new] }.setProc t (begun new (newIntent s new)))
    else some (s.setProc t (.refinding new))
  | .refinding new =>
    match s.findByKey new.attemptKey with
    | some row => some (s.setProc t (begun new row))
    | none => some (s.setProc t (.returned (.threw
        ("the database refused a payment attempt against booking " ++ new.bookingId))))
  | .calling intent amount =>
    match s.attempts.findIdx? (fun a => a.key = intent.attemptKey) with
    | some reference =>
      (s.attempts[reference]?).map (fun a => s.setProc t (.applying intent (a.read reference)))
    | none =>
      let a : ProviderAttempt := { d.answer with key := intent.attemptKey, amount := amount }
      some ({ s with attempts := s.attempts ++ [a] }.setProc t
        (.applying intent (a.read s.attempts.length)))
  | .applying intent attempt =>
    match dispositionOf intent.status attempt.status with
    | .error e => some (s.setProc t (.returned (.threw e)))
    | .ok (.ignore _) => some (s.setProc t (.returned (.attempted intent attempt.payerAction)))
    | .ok .apply =>
      if attempt.status = .succeeded ∧ intent.purpose = .hireCharge then
        some (s.setProc t (.capturing intent attempt))
      else some (s.setProc t (.recording intent attempt))
  | .capturing intent attempt =>
    match intent.charge with
    | none => none
    | some charge =>
      match settle w intent.bookingId intent.categoryVersionId charge with
      | .error e => some (s.setProc t (.returned (.threw e)))
      | .ok settlement => some (s.setProc t (.clearing intent attempt settlement))
  | .clearing intent attempt settlement =>
    if s.ledger.accounts.all (fun a => a.id ≠ d.accountId) then
      match s.ledger.accountFor d.accountId ⟨.providerClearing, settlement.renterPays.currency, none⟩ with
      | (.error e, l) => some ({ s with ledger := l }.setProc t (.returned (.threw e)))
      | (.ok account, l) =>
        some ({ s with ledger := l }.setProc t (.payable intent attempt settlement account))
    else none
  | .payable intent attempt settlement clearing =>
    if s.ledger.accounts.all (fun a => a.id ≠ d.accountId) then
      match s.ledger.accountFor d.accountId
        ⟨.ownerPayable, settlement.renterPays.currency, some intent.ownerId⟩ with
      | (.error e, l) => some ({ s with ledger := l }.setProc t (.returned (.threw e)))
      | (.ok account, l) =>
        some ({ s with ledger := l }.setProc t (.revenue intent attempt settlement clearing account))
    else none
  | .revenue intent attempt settlement clearing payable =>
    if s.ledger.accounts.all (fun a => a.id ≠ d.accountId) then
      match s.ledger.accountFor d.accountId ⟨.platformRevenue, settlement.renterPays.currency, none⟩ with
      | (.error e, l) => some ({ s with ledger := l }.setProc t (.returned (.threw e)))
      | (.ok account, l) =>
        match hireCaptureEntries settlement clearing.id payable.id account.id with
        | .error e => some ({ s with ledger := l }.setProc t (.returned (.threw e)))
        | .ok entries =>
          let draft := captureDraft intent attempt settlement.renterPays.currency d.now entries
          match assertPostable draft with
          | .error e => some ({ s with ledger := l }.setProc t (.returned (.threw e)))
          | .ok _ => some ({ s with ledger := l }.setProc t (.posting intent attempt draft))
    else none
  | .posting intent attempt draft =>
    match s.ledger.findByIdempotencyKey draft.idempotencyKey with
    | some existing => some (s.setProc t (posted intent attempt draft existing))
    | none => some (s.setProc t (.inserting intent attempt draft))
  | .inserting intent attempt draft =>
    if s.ledger.accepts w.bookingExists draft then
      let row : PostedTransaction := { draft with id := s.ledger.transactions.length }
      some ({ s with ledger := { s.ledger with transactions := s.ledger.transactions ++ [row] } }.setProc
        t (posted intent attempt draft row))
    else some (s.setProc t (.reposting intent attempt draft))
  | .reposting intent attempt draft =>
    match s.ledger.findByIdempotencyKey draft.idempotencyKey with
    | some raced => some (s.setProc t (posted intent attempt draft raced))
    | none => some (s.setProc t (.returned (.threw Ledger.databaseRefused)))
  | .recording intent attempt =>
    match s.intents[intent.id]? with
    | none => none
    | some row =>
      if outcomeAllowed s (recorded row attempt) then
        some ({ s with intents := s.intents.set intent.id (recorded row attempt) }.setProc t
          (.returned (.attempted (recorded row attempt) attempt.payerAction)))
      else some (s.setProc t (.returned (.threw (s!"the database refused the outcome for payment attempt {intent.id}. " ++
        "The commonest cause is a second successful attempt against a booking that has already been captured, which §8.7.1 does not permit"))))
  | .refreshing intentId =>
    match s.intents[intentId]? with
    | none => some (s.setProc t (.returned (.refreshed none)))
    | some intent =>
      if intent.status.isTerminal then some (s.setProc t (.returned (.refreshed (some intent))))
      else match intent.providerReference with
        | none => some (s.setProc t (.returned (.refreshed (some intent))))
        | some reference => some (s.setProc t (.reading intent reference))
  | .reading intent reference =>
    (s.attempts[reference]?).map (fun a => s.setProc t (.applying intent (a.read reference)))

/-- A call starts, takes its next step or dies; or the provider moves an
attempt it has not settled. -/
inductive Action where
  | payForHire (t : Pid) (i : HirePaymentInstruction)
  | holdDamageSecurity (t : Pid) (i : DamageSecurityInstruction)
  | refresh (t : Pid) (intentId : Nat)
  | exec (t : Pid) (d : Draw)
  | crash (t : Pid)
  | progress (reference : Nat) (answer : Answer)
  deriving DecidableEq, Repr

def Proc.isFree : Proc → Bool
  | .idle => true
  | .returned _ => true
  | _ => false

def step (s : State) : Action → Option State
  | .payForHire t i => if (s.procs t).isFree then some (s.setProc t (.settling i)) else none
  | .holdDamageSecurity t i =>
    if (s.procs t).isFree then
      match i.excess with
      | none => some (s.setProc t (.returned .notRequired))
      | some excess =>
        if excess.amount = 0 then some (s.setProc t (.returned .notRequired))
        else some (s.setProc t (.keying (i.toInstruction excess)))
    else none
  | .refresh t intentId => if (s.procs t).isFree then some (s.setProc t (.refreshing intentId)) else none
  | .exec t d => exec w s t d
  | .crash t => some (s.setProc t .idle)
  | .progress reference answer =>
    match s.attempts[reference]? with
    | none => none
    | some a =>
      if a.status.isTerminal then none
      else some { s with attempts := s.attempts.set reference { answer with key := a.key, amount := a.amount } }

end

end RentalMarket.Payments
