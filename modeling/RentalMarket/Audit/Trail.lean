import RentalMarket.Core.Paging
import RentalMarket.Lib.BoundedRead
import Mathlib.Data.String.Basic

namespace RentalMarket.Audit

open RentalMarket.Core

abbrev Id := String

/-- A row of `audit_logs`, without its digests. -/
structure AuditRow where
  id : Id
  actorId : Option Id
  action : String
  targetType : String
  targetId : Id
  reason : Option String
  ipAddress : Option String
  clerkSessionId : Option String
  createdAt : Int
  deriving DecidableEq, Repr

structure RecordedEntry where
  id : Id
  action : String
  targetType : String
  reason : Option String
  ipAddress : Option String
  sessionId : Option String
  createdAt : Int
  deriving DecidableEq, Repr

structure DisclosedEntry where
  id : Id
  action : String
  targetType : String
  reason : Option String
  createdAt : Int
  byAnotherUser : Bool
  deriving DecidableEq, Repr

inductive ActivityActor where
  | subject
  | administrator
  | system
  deriving DecidableEq, Repr

structure ActivityRecord where
  id : Id
  action : String
  targetType : String
  reason : Option String
  ipAddress : Option String
  sessionId : Option String
  createdAt : Int
  actor : ActivityActor
  deriving DecidableEq, Repr

def AuditRow.toRecorded (row : AuditRow) : RecordedEntry :=
  ⟨row.id, row.action, row.targetType, row.reason, row.ipAddress, row.clerkSessionId, row.createdAt⟩

def AuditRow.toDisclosed (row : AuditRow) : DisclosedEntry :=
  ⟨row.id, row.action, row.targetType, row.reason, row.createdAt, row.actorId.isSome⟩

def asOwnAction (entry : RecordedEntry) : ActivityRecord :=
  ⟨entry.id, entry.action, entry.targetType, entry.reason, entry.ipAddress, entry.sessionId, entry.createdAt, .subject⟩

def asDisclosure (entry : DisclosedEntry) : ActivityRecord :=
  ⟨entry.id, entry.action, entry.targetType, entry.reason, none, none, entry.createdAt,
    if entry.byAnotherUser then .administrator else .system⟩

/-- `newestFirst`, as the key it sorts by. Ids are UUIDs, which `localeCompare` orders
as they are spelt. -/
def ActivityRecord.newestFirst (record : ActivityRecord) : ℤᵒᵈ ×ₗ Stringᵒᵈ :=
  toLex (OrderDual.toDual record.createdAt, OrderDual.toDual record.id)

/-- `orderBy: { createdAt: 'desc' }` -/
def AuditRow.createdAtDesc (row : AuditRow) : ℤᵒᵈ := OrderDual.toDual row.createdAt

/-- The trail, whose ids are its primary key. -/
structure AuditTrail where
  rows : List AuditRow
  ids : (rows.map (·.id)).Nodup

def madeBy (userId : Id) (row : AuditRow) : Bool := row.actorId = some userId

def madeAbout (userId : Id) (row : AuditRow) : Bool :=
  row.targetId = userId && (row.actorId = none || row.actorId ≠ some userId)

namespace AuditTrail

variable (t : AuditTrail)

def own (userId : Id) : List AuditRow := t.rows.filter (madeBy userId)

def disclosed (userId : Id) : List AuditRow := t.rows.filter (madeAbout userId)

def activity (userId : Id) : List ActivityRecord :=
  sortedBy ActivityRecord.newestFirst
    ((t.own userId).map (fun row => asOwnAction row.toRecorded) ++
      (t.disclosed userId).map (fun row => asDisclosure row.toDisclosed))

end AuditTrail

/-- A database that answers from the trail. It decides between rows of one instant, and
may decide otherwise in another query. -/
structure Database (t : AuditTrail) where
  findMany : (AuditRow → Bool) → Nat → List AuditRow
  reads : ∀ p limit, Reads AuditRow.createdAtDesc (t.rows.filter p) limit (findMany p limit)

def defaultActivityLimit : Nat := 50

def maxActivityLimit : Nat := 200

def exportedActivityLimit : Nat := 1000

/-- `bound` -/
def bound (limit : Option ℚ) : Nat := Paging.boundedLimit limit ⟨defaultActivityLimit, maxActivityLimit⟩

section

variable {t : AuditTrail} (db : Database t)

def listForActor (actorId : Id) (limit : Nat) : List RecordedEntry :=
  (db.findMany (madeBy actorId) limit).map AuditRow.toRecorded

def listForSubject (subjectId : Id) (limit : Nat) : List DisclosedEntry :=
  (db.findMany (madeAbout subjectId) limit).map AuditRow.toDisclosed

def activityFor (userId : Id) (limit : Nat) : List ActivityRecord :=
  sortedBy ActivityRecord.newestFirst
    ((listForActor db userId limit).map asOwnAction ++ (listForSubject db userId limit).map asDisclosure)

def listActivityFor (userId : Id) (limit : Option ℚ) : List ActivityRecord :=
  (activityFor db userId (bound limit)).take (bound limit)

def exportActivityFor (userId : Id) : Paging.Page ActivityRecord :=
  Paging.fitTo (activityFor db userId (Paging.probe exportedActivityLimit)) exportedActivityLimit

end

end RentalMarket.Audit
