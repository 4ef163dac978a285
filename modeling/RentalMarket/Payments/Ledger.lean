import RentalMarket.Core.Money
import RentalMarket.Lib.Text

namespace RentalMarket.Payments

open RentalMarket.Core

inductive LedgerDirection where
  | debit
  | credit
  deriving DecidableEq, Repr

namespace LedgerDirection

def text : LedgerDirection → String
  | debit => "debit"
  | credit => "credit"

def opposite : LedgerDirection → LedgerDirection
  | debit => credit
  | credit => debit

end LedgerDirection

inductive LedgerAccountKind where
  | providerClearing
  | ownerPayable
  | platformRevenue
  deriving DecidableEq, Repr

namespace LedgerAccountKind

def text : LedgerAccountKind → String
  | providerClearing => "provider_clearing"
  | ownerPayable => "owner_payable"
  | platformRevenue => "platform_revenue"

def normalSide : LedgerAccountKind → LedgerDirection
  | providerClearing => .debit
  | ownerPayable => .credit
  | platformRevenue => .credit

/-- Whether accounts of this kind belong to one person or to the platform. -/
def heldByUser : LedgerAccountKind → Bool
  | providerClearing => false
  | ownerPayable => true
  | platformRevenue => false

end LedgerAccountKind

inductive LedgerTransactionKind where
  | hireChargeCaptured
  | ownerPayout
  deriving DecidableEq, Repr

/-- The id of an account row. The column is a UUID, so its text has neither of
the separators a fingerprint is built with. -/
structure AccountId where
  text : String
  bar : '|' ∉ text.toList
  comma : ',' ∉ text.toList
  deriving DecidableEq, Repr

structure LedgerEntry where
  accountId : AccountId
  direction : LedgerDirection
  amount : Money
  deriving DecidableEq, Repr

structure LedgerDraft where
  idempotencyKey : String
  kind : LedgerTransactionKind
  currency : Currency
  bookingId : Option String
  occurredAt : Int
  entries : List LedgerEntry
  reversesTransactionId : Option Nat
  deriving DecidableEq, Repr

/-- A transaction that has been written. Its id is its place in the table. -/
structure PostedTransaction extends LedgerDraft where
  id : Nat
  deriving DecidableEq, Repr

structure AccountSpec where
  kind : LedgerAccountKind
  currency : Currency
  ownerId : Option String
  deriving DecidableEq, Repr

structure LedgerAccount where
  id : AccountId
  identity : String
  kind : LedgerAccountKind
  currency : Currency
  ownerId : Option String
  deriving DecidableEq, Repr

structure Ledger where
  accounts : List LedgerAccount
  transactions : List PostedTransaction
  deriving DecidableEq, Repr

def Ledger.empty : Ledger := ⟨[], []⟩

/-- What `trim` strips: the white space and line terminators of ECMAScript. -/
def isTrimmed (c : Char) : Bool :=
  decide (c.toNat ∈ [0x09, 0x0A, 0x0B, 0x0C, 0x0D, 0x20, 0xA0, 0x1680, 0x2028, 0x2029, 0x202F,
    0x205F, 0x3000, 0xFEFF]) || decide (0x2000 ≤ c.toNat ∧ c.toNat ≤ 0x200A)

/-- `text.trim() === ''` -/
def isBlank (text : String) : Bool := text.toList.all isTrimmed

def accountIdentityOf (spec : AccountSpec) : Except String String :=
  if spec.kind.heldByUser then
    match spec.ownerId with
    | some ownerId =>
      if isBlank ownerId then .error (spec.kind.text ++ " is held by one person and needs an owner")
      else .ok (spec.kind.text ++ ":" ++ ownerId ++ ":" ++ spec.currency.code)
    | none => .error (spec.kind.text ++ " is held by one person and needs an owner")
  else
    match spec.ownerId with
    | some _ =>
      .error (spec.kind.text ++ " is the platform's own and cannot be attributed to a person")
    | none => .ok (spec.kind.text ++ ":" ++ spec.currency.code)

def amountsOn (direction : LedgerDirection) (entries : List LedgerEntry) : List Money :=
  (entries.filter (fun e => e.direction = direction)).map (·.amount)

def totalsOf (draft : LedgerDraft) : Except String (Money × Money) :=
  (Money.sum (amountsOn .debit draft.entries) draft.currency).bind (fun debits =>
    (Money.sum (amountsOn .credit draft.entries) draft.currency).bind (fun credits =>
      .ok (debits, credits)))

def assertEntry (currency : Currency) (entry : LedgerEntry) : Except String Unit :=
  if entry.amount.currency ≠ currency then
    .error s!"entry currency {entry.amount.currency.code} does not match transaction currency {currency.code}"
  else if entry.amount.amount ≤ 0 then
    .error "a ledger entry amount must be positive: the direction carries the sign, not the amount"
  else .ok ()

/-- Refuse anything that is not a legal financial record. Amounts are whole
minor units here, so the check that they are is left out. -/
def assertPostable (draft : LedgerDraft) : Except String Unit :=
  if draft.entries.length < 2 then
    .error "a ledger transaction needs at least two entries: one entry can never balance"
  else if isBlank draft.idempotencyKey then
    .error "a ledger transaction needs an idempotency key"
  else (draft.entries.forM (assertEntry draft.currency)).bind (fun _ =>
    (totalsOf draft).bind (fun totals =>
      if totals.1.amount ≠ totals.2.amount then
        .error s!"a ledger transaction must balance: debits {totals.1.amount} != credits {totals.2.amount}"
      else .ok ()))

def reversalOf (posted : PostedTransaction) (idempotencyKey : String) (occurredAt : Int) :
    LedgerDraft where
  idempotencyKey := idempotencyKey
  kind := posted.kind
  currency := posted.currency
  bookingId := posted.bookingId
  occurredAt := occurredAt
  reversesTransactionId := some posted.id
  entries := posted.entries.map (fun e => { e with direction := e.direction.opposite })

def LedgerEntry.text (entry : LedgerEntry) : String :=
  "|".intercalate [entry.accountId.text, entry.direction.text, entry.amount.amount.repr,
    entry.amount.currency.code]

def fingerprintOf (entries : List LedgerEntry) : String :=
  ",".intercalate ((entries.map LedgerEntry.text).insertionSort (· ≤ ·))

def assertSameTransaction (draft : LedgerDraft) (posted : PostedTransaction) : Except String Unit :=
  if draft.kind ≠ posted.kind ∨ draft.currency ≠ posted.currency ∨
      draft.bookingId ≠ posted.bookingId ∨
      draft.reversesTransactionId ≠ posted.reversesTransactionId ∨
      fingerprintOf draft.entries ≠ fingerprintOf posted.entries then
    .error s!"idempotency key {draft.idempotencyKey} has already been used for a different transaction"
  else .ok ()

namespace Ledger

def findById (l : Ledger) (id : Nat) : Option PostedTransaction :=
  l.transactions.find? (fun t => t.id = id)

def findByIdempotencyKey (l : Ledger) (key : String) : Option PostedTransaction :=
  l.transactions.find? (fun t => t.idempotencyKey = key)

def entries (l : Ledger) : List LedgerEntry := l.transactions.flatMap (fun t => t.entries)

/-- Get or create: the account with the identity of `spec`, or a new row under
the id the database drew for it. -/
def accountFor (l : Ledger) (id : AccountId) (spec : AccountSpec) :
    Except String LedgerAccount × Ledger :=
  match accountIdentityOf spec with
  | .error e => (.error e, l)
  | .ok identity =>
    match l.accounts.find? (fun a => a.identity = identity) with
    | some account => (.ok account, l)
    | none =>
      let account : LedgerAccount := ⟨id, identity, spec.kind, spec.currency, spec.ownerId⟩
      (.ok account, { l with accounts := l.accounts ++ [account] })

/-- The constraints of the two tables on a new transaction and its entries:
the foreign keys, the unique key and the unique reversal, the entry checks and
the column's range, and the deferred balance trigger. -/
def accepts (bookingExists : String → Bool) (l : Ledger) (draft : LedgerDraft) : Bool :=
  (l.findByIdempotencyKey draft.idempotencyKey).isNone &&
  draft.bookingId.all bookingExists &&
  draft.reversesTransactionId.all (fun id => (l.findById id).isSome &&
    l.transactions.all (fun t => t.reversesTransactionId ≠ some id)) &&
  draft.entries.all (fun e => decide (0 < e.amount.amount) && decide (e.amount.amount ≤ 2147483647) &&
    l.accounts.any (fun a => a.id = e.accountId ∧ a.currency = draft.currency)) &&
  decide (2 ≤ draft.entries.length) &&
  decide (Money.total (amountsOn .debit draft.entries) = Money.total (amountsOn .credit draft.entries))

def alreadyReversed (id : Nat) : String :=
  s!"ledger transaction {id} has already been reversed"

def databaseRefused : String :=
  "the database refused this posting. The commonest cause is a transaction that does not balance, whose message Prisma discards — run assertPostable on the draft to see which side is short"

/-- `PrismaLedgerStore.post`. -/
def store (bookingExists : String → Bool) (l : Ledger) (draft : LedgerDraft) :
    Except String PostedTransaction × Ledger :=
  match l.findByIdempotencyKey draft.idempotencyKey with
  | some existing => (.ok existing, l)
  | none =>
    if l.accepts bookingExists draft then
      let posted : PostedTransaction := { draft with id := l.transactions.length }
      (.ok posted, { l with transactions := l.transactions ++ [posted] })
    else match draft.reversesTransactionId with
      | some id =>
        if l.transactions.any (fun t => t.reversesTransactionId = some id) then
          (.error (alreadyReversed id), l)
        else (.error databaseRefused, l)
      | none => (.error databaseRefused, l)

/-- `LedgerService.post`: the answer, and the tables it leaves. -/
def post (bookingExists : String → Bool) (l : Ledger) (draft : LedgerDraft) :
    Except String PostedTransaction × Ledger :=
  match assertPostable draft with
  | .error e => (.error e, l)
  | .ok _ =>
    match l.store bookingExists draft with
    | (.error e, l') => (.error e, l')
    | (.ok posted, l') =>
      match assertSameTransaction draft posted with
      | .error e => (.error e, l')
      | .ok _ => (.ok posted, l')

/-- `LedgerService.reverse`. -/
def reverse (bookingExists : String → Bool) (l : Ledger) (transactionId : Nat)
    (idempotencyKey : String) (occurredAt : Int) : Except String PostedTransaction × Ledger :=
  match l.findById transactionId with
  | none => (.error s!"cannot reverse {transactionId}: no such ledger transaction", l)
  | some original => l.post bookingExists (reversalOf original idempotencyKey occurredAt)

/-- `PrismaLedgerStore.balanceOf`: the two sides of one account, netted. -/
def accountBalance (l : Ledger) (account : LedgerAccount) : Except String Money :=
  let own := l.entries.filter (fun e => e.accountId = account.id)
  let totalOn := fun direction => Money.total (amountsOn direction own)
  Money.money (totalOn account.kind.normalSide - totalOn account.kind.normalSide.opposite)
    account.currency

end Ledger

inductive LedgerOp where
  | accountFor (id : AccountId) (spec : AccountSpec)
  | post (draft : LedgerDraft)
  | reverse (transactionId : Nat) (idempotencyKey : String) (occurredAt : Int)
  deriving DecidableEq, Repr

/-- One call, returning or throwing. The database never draws an id twice. -/
def ledgerStep (bookingExists : String → Bool) (l : Ledger) : LedgerOp → Option Ledger
  | .accountFor id spec =>
    if l.accounts.all (fun a => a.id ≠ id) then some (l.accountFor id spec).2 else none
  | .post draft => some (l.post bookingExists draft).2
  | .reverse transactionId idempotencyKey occurredAt =>
    some (l.reverse bookingExists transactionId idempotencyKey occurredAt).2

end RentalMarket.Payments
