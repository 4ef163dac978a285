import RentalMarket.Booking.Quotes
import RentalMarket.Lib.Keyed

namespace RentalMarket.Identity

open RentalMarket.Core RentalMarket.Booking

inductive UserRole where
  | user
  | admin
  deriving DecidableEq, Repr

def UserRole.text : UserRole → String
  | user => "USER"
  | admin => "ADMIN"

structure Suspension where
  instant : Instant
  byId : Id
  reason : String
  deriving DecidableEq, Repr

/-- A row of `users`. -/
structure MirroredUser where
  id : Id
  clerkUserId : String
  email : String
  role : UserRole
  deletedAt : Option Instant
  deletionRequestedAt : Option Instant
  suspension : Option Suspension
  deriving DecidableEq, Repr

def MirroredUser.usable (u : MirroredUser) : Bool :=
  decide (u.role = .admin) && u.deletedAt.isNone && u.suspension.isNone

/-- The address a deleted account's row keeps. -/
def tombstoneEmail (userId : Id) : String := "deleted+" ++ userId ++ "@deleted.invalid"

/-- Addresses are `citext`: they collide whatever their case. -/
def sameAddress (a b : String) : Bool :=
  decide (a.toList.map Char.toLower = b.toList.map Char.toLower)

abbrev Users := List MirroredUser

namespace Users

def findById (users : Users) (id : Id) : Option MirroredUser := users.find? (fun u => u.id = id)

def findByClerkUserId (users : Users) (clerkUserId : String) : Option MirroredUser :=
  users.find? (fun u => u.clerkUserId = clerkUserId)

def countAdministrators (users : Users) : Nat := (users.filter MirroredUser.usable).length

def emailTaken (users : Users) (id : Id) (email : String) : Bool :=
  users.any (fun u => decide (u.id ≠ id) && sameAddress u.email email)

/-- `UPDATE users WHERE id` -/
def update (users : Users) (id : Id) (change : MirroredUser → MirroredUser) : Users :=
  users.map (fun u => if u.id = id then change u else u)

def setEmail (users : Users) (id : Id) (email : String) : Users :=
  users.update id (fun u => { u with email := email })

def setRole (users : Users) (id : Id) (role : UserRole) : Users :=
  users.update id (fun u => { u with role := role })

def setSuspension (users : Users) (id : Id) (suspension : Option Suspension) : Users :=
  users.update id (fun u => { u with suspension := suspension })

def tombstone (users : Users) (id : Id) (now : Instant) : Users :=
  users.update id (fun u => { u with
    deletedAt := some now, deletionRequestedAt := some now, email := tombstoneEmail id })

/-- A new account. The role is the column's default. -/
def newUser (id : Id) (clerkUserId email : String) : MirroredUser :=
  ⟨id, clerkUserId, email, .user, none, none, none⟩

variable {users : Users} {id : Id} {change : MirroredUser → MirroredUser}

theorem findById_id {u : MirroredUser} (h : users.findById id = some u) : u.id = id := by
  simpa using List.find?_some h

theorem mem_of_findById {u : MirroredUser} (h : users.findById id = some u) : u ∈ users :=
  List.mem_of_find?_eq_some h

theorem mem_of_findByClerkUserId {clerkUserId : String} {u : MirroredUser}
    (h : users.findByClerkUserId clerkUserId = some u) : u ∈ users :=
  List.mem_of_find?_eq_some h

theorem mem_update {u : MirroredUser} (h : u ∈ users.update id change) :
    u ∈ users ∧ u.id ≠ id ∨ ∃ old ∈ users, old.id = id ∧ u = change old :=
  Keyed.mem_changed.mp h

theorem mem_update_self {u : MirroredUser} (h : u ∈ users) (hid : u.id = id) :
    change u ∈ users.update id change :=
  Keyed.mem_changed.mpr (.inr ⟨u, h, hid, rfl⟩)

theorem update_ids (hchange : ∀ u, (change u).id = u.id) :
    (users.update id change).map (·.id) = users.map (·.id) :=
  Keyed.keys_changed hchange

theorem findById_update (hchange : ∀ u, (change u).id = u.id) (k : Id) :
    (users.update id change).findById k =
      (users.findById k).map (fun u => if u.id = id then change u else u) :=
  Keyed.find?_changed hchange k

theorem findById_append {u new : MirroredUser} (h : users.findById id = some u) :
    Users.findById (users ++ [new]) id = some u := by
  rw [findById] at h ⊢
  rw [List.find?_append, h]
  rfl

end Users

def approvalWindowHours : Nat := 24

structure Decision where
  byId : Id
  reason : String
  instant : Instant
  deriving DecidableEq, Repr

/-- A row of `admin_approvals`, each of which proposes a change of a role. -/
structure AdminApproval where
  id : Id
  userId : Id
  role : UserRole
  proposedById : Id
  proposedReason : String
  expiresAt : Instant
  approved : Option Decision
  cancelled : Option Decision
  deriving DecidableEq, Repr

inductive ApprovalState where
  | pending
  | approved
  | cancelled
  | expired
  deriving DecidableEq, Repr

def ApprovalState.text : ApprovalState → String
  | pending => "pending"
  | approved => "approved"
  | cancelled => "cancelled"
  | expired => "expired"

/-- Where a proposal stands. A decision outlives the deadline. -/
def approvalState (approval : AdminApproval) (now : Instant) : ApprovalState :=
  if approval.approved.isSome then .approved
  else if approval.cancelled.isSome then .cancelled
  else if approval.expiresAt ≤ now then .expired
  else .pending

/-- The predicate of the conditional update that claims a row. -/
def claimable (approval : AdminApproval) (decision : Decision) : Bool :=
  approval.approved.isNone && approval.cancelled.isNone && decide (approval.expiresAt > decision.instant) &&
    decide (approval.proposedById ≠ decision.byId)

/-- The predicate of the one that withdraws it. -/
def cancellable (approval : AdminApproval) : Bool := approval.approved.isNone && approval.cancelled.isNone

def findApproval (approvals : List AdminApproval) (id : Id) : Option AdminApproval :=
  approvals.find? (fun a => a.id = id)

def updateApproval (approvals : List AdminApproval) (id : Id) (change : AdminApproval → AdminApproval) :
    List AdminApproval :=
  approvals.map (fun a => if a.id = id then change a else a)

section

variable {approvals : List AdminApproval} {id : Id} {change : AdminApproval → AdminApproval}

theorem findApproval_id {row : AdminApproval} (h : findApproval approvals id = some row) : row.id = id := by
  simpa using List.find?_some h

theorem mem_of_findApproval {row : AdminApproval} (h : findApproval approvals id = some row) :
    row ∈ approvals := List.mem_of_find?_eq_some h

theorem mem_updateApproval {row : AdminApproval} (h : row ∈ updateApproval approvals id change) :
    row ∈ approvals ∧ row.id ≠ id ∨ ∃ old ∈ approvals, old.id = id ∧ row = change old :=
  Keyed.mem_changed.mp h

theorem mem_updateApproval_of_ne {row : AdminApproval} (h : row ∈ approvals) (hid : row.id ≠ id) :
    row ∈ updateApproval approvals id change :=
  Keyed.mem_changed.mpr (.inl ⟨h, hid⟩)

theorem mem_updateApproval_self {row : AdminApproval} (h : row ∈ approvals) (hid : row.id = id) :
    change row ∈ updateApproval approvals id change :=
  Keyed.mem_changed.mpr (.inr ⟨row, h, hid, rfl⟩)

theorem updateApproval_ids (hchange : ∀ a, (change a).id = a.id) :
    (updateApproval approvals id change).map (·.id) = approvals.map (·.id) :=
  Keyed.keys_changed hchange

end

def noLongerPending : String := "the proposal is no longer pending"

def noSuchProposal : String := "no such proposal"

def alreadyDecided (state : ApprovalState) : String := "that proposal is already " ++ state.text

def ownProposal : String := "you proposed this, so somebody else has to approve it"

def accountGone : String := "that account no longer exists"

def noSuchAccount : String := "no such account"

def accountDeleted : String := "that account has been deleted"

def alreadyRole (role : UserRole) : String := "that account is already " ++ role.text

def lastAdministrator : String := "that is the last administrator — promote somebody else first"

def ownSuspension : String := "you cannot suspend yourself — you would not be able to undo it"

def alreadySuspended : String := "that account is already suspended"

def notSuspended : String := "that account is not suspended"

/-- `refuseIfLastAdministrator` asks for the count only of a target that is an
administrator and is not becoming one. -/
def removesAdministrator (target : MirroredUser) (becomingRole : Option UserRole) : Bool :=
  decide (becomingRole ≠ some .admin) && decide (target.role = .admin)

end RentalMarket.Identity
