import RentalMarket.Catalogue.Search
import RentalMarket.Catalogue.Statements
import RentalMarket.Lib.Decimal

namespace RentalMarket.Catalogue.Moderation

open RentalMarket.Core Script Runs

def moderationRequiresReason (state : ModerationState) : Bool := decide (state ≠ .approved)

structure ModerationRequest where
  listingId : Id
  state : ModerationState
  reason : Option String
  actorId : Id
  deriving DecidableEq, Repr

structure Decision where
  moderationReason : Option String
  moderatedById : Id
  moderatedAt : Int
  deriving DecidableEq, Repr

structure ModeratedListing where
  id : Id
  moderationState : ModerationState
  moderationReason : Option String
  deriving DecidableEq, Repr

structure Platform where
  catalogue : Tables
  decisions : Id → Option Decision
  audit : List AuditEntry

structure Wiring extends Catalogue.Wiring where
  digestDecision : ModerationState × Option String → String

def trimmedReason (r : ModerationRequest) : String := (r.reason.map trim).getD ""

/-- An empty reason is none. -/
def storedReason (reason : String) : Option String := if reason = "" then none else some reason

def reasonRequired : String := "A reason is required when a listing is taken out of public view"

inductive Answer where
  | reasonRequired (state : ModerationState)
  | notFound
  | moderated (after : ModeratedListing)
  | threw
  deriving DecidableEq, Repr

/-- A call of `moderate` between two statements. -/
inductive Deciding where
  | reading (r : ModerationRequest)
  | existing (r : ModerationRequest) (before : ModeratedListing)
  | writing (r : ModerationRequest) (before : ModeratedListing)
  | rereading (r : ModerationRequest) (before : ModeratedListing)
  | auditing (r : ModerationRequest) (before after : ModeratedListing)
  | returned (r : ModerationRequest) (answer : Answer)
  deriving DecidableEq, Repr

inductive Call where
  | owner (c : Catalogue.Call)
  | moderator (c : Deciding)
  deriving DecidableEq

inductive Request where
  | owner (r : Catalogue.Request)
  | moderate (r : ModerationRequest)
  deriving DecidableEq

structure Draw extends Catalogue.Draw where
  now : Int

namespace Platform

def findForModeration (p : Platform) (id : Id) : Option ModeratedListing :=
  (p.catalogue.listings.find? (fun l => l.id = id)).map (fun l =>
    ⟨l.id, l.moderationState, (p.decisions l.id).bind (·.moderationReason)⟩)

/-- `UPDATE listings WHERE id`. It touches no column an owner writes. -/
def decide (p : Platform) (r : ModerationRequest) (now : Int) : Platform :=
  { p with
    catalogue := { p.catalogue with
      listings := p.catalogue.listings.map (fun l =>
        if l.id = r.listingId then { l with moderationState := r.state } else l) }
    decisions := Function.update p.decisions r.listingId
      (some ⟨storedReason (trimmedReason r), r.actorId, now⟩) }

/-- `moderation_hidden_has_a_reason`: `btrim` leaves something of it. -/
def decisionAllowed (r : ModerationRequest) : Bool :=
  r.state = .approved || (storedReason (trimmedReason r)).any (fun reason => reason.toList.any (· ≠ ' '))

end Platform

def startDeciding (r : ModerationRequest) : Deciding :=
  if moderationRequiresReason r.state ∧ trimmedReason r = "" then .returned r (.reasonRequired r.state)
  else .reading r

def auditEntry (w : Wiring) (r : ModerationRequest) (before after : ModeratedListing) : AuditEntry where
  actorId := r.actorId
  action := "listing.moderated"
  targetId := after.id
  beforeHash := some (w.digestDecision (before.moderationState, before.moderationReason))
  afterHash := some (w.digestDecision (after.moderationState, after.moderationReason))
  reason := trimmedReason r

def nextDeciding (w : Wiring) (p : Platform) (d : Draw) : Deciding → Option (Platform × Deciding)
  | .reading r => some (p, match p.findForModeration r.listingId with
    | none => .returned r .notFound
    | some before => .existing r before)
  | .existing r before =>
    some (p, if p.catalogue.listings.any (fun l => l.id = r.listingId) then .writing r before
      else .returned r .notFound)
  | .writing r before =>
    some (if p.catalogue.listings.any (fun l => l.id = r.listingId) && Platform.decisionAllowed r then
        (p.decide r d.now, .rereading r before)
      else (p, .returned r .threw))
  | .rereading r before => some (p, match p.findForModeration r.listingId with
    | none => .returned r .notFound
    | some after => .auditing r before after)
  | .auditing r before after =>
    some ({ p with audit := p.audit ++ [auditEntry w r before after] }, .returned r (.moderated after))
  | .returned _ _ => none

/-- The request a call of `moderate` serves. -/
def Deciding.request : Deciding → ModerationRequest
  | reading r => r
  | existing r _ => r
  | writing r _ => r
  | rereading r _ => r
  | auditing r _ _ => r
  | returned r _ => r

def next (w : Wiring) (p : Platform) (d : Draw) : Call → Option (Platform × Call)
  | .owner c => (Catalogue.next w.toWiring p.catalogue d.toDraw c).map (fun r =>
      ({ p with catalogue := r.1 }, .owner r.2))
  | .moderator (.returned _ _) => none
  | .moderator c =>
    if d.fails then some (p, .moderator (.returned c.request .threw))
    else (nextDeciding w p d c).map (fun r => (r.1, .moderator r.2))

def start : Request → Call
  | .owner r => .owner (Catalogue.start r)
  | .moderate r => .moderator (startDeciding r)

def machine (w : Wiring) : Interleaving.Machine Platform Call Request Draw := ⟨start, next w⟩

abbrev State := Interleaving.State Platform Call

abbrev Action := Interleaving.Action Request Draw

end RentalMarket.Catalogue.Moderation
