import RentalMarket.Lib.Interleaving
import RentalMarket.Lib.Keyed

namespace RentalMarket.FeatureFlags

open Interleaving

abbrev Id := String

inductive FeatureFlagKey where
  | listingPublication
  | bookingPayment
  deriving DecidableEq, Repr

def FeatureFlagKey.text : FeatureFlagKey → String
  | listingPublication => "listing.publication"
  | bookingPayment => "booking.payment"

structure FeatureFlagDeclaration where
  key : FeatureFlagKey
  label : String
  gates : String
  defaultEnabled : Bool
  deriving DecidableEq, Repr

def featureFlagDeclaration : FeatureFlagKey → FeatureFlagDeclaration
  | .listingPublication =>
    ⟨.listingPublication, "Publishing listings",
      "Owners publishing a listing. Turning this off leaves existing published listings exactly as they are and refuses new publications — the emergency stop for when something is going live that should not be.",
      true⟩
  | .bookingPayment =>
    ⟨.bookingPayment, "Paying for bookings",
      "Renters paying for an accepted booking. It is OFF because there is no payment provider yet — slice 5.2e builds the Stripe adapter and needs a Stripe account. Turning it on before that adapter exists makes every payment attempt fail loudly rather than charging anybody. Nothing else in the product depends on it: a booking can still be requested, accepted, declined and expired with this off.",
      false⟩

def featureFlagKeys : List FeatureFlagKey := [.listingPublication, .bookingPayment]

def featureFlagKey (text : String) : Option FeatureFlagKey := featureFlagKeys.find? (fun key => key.text = text)

def isFeatureFlagKey (text : String) : Bool := (featureFlagKey text).isSome

def FeatureFlagKey.defaultEnabled (key : FeatureFlagKey) : Bool := (featureFlagDeclaration key).defaultEnabled

/-- A row of `feature_flag_overrides`. -/
structure FeatureFlagOverrideRecord where
  id : Id
  key : String
  enabled : Bool
  changedById : Id
  changedAt : Int
  deriving DecidableEq, Repr

structure Overrides where
  rows : List FeatureFlagOverrideRecord
  keys : (rows.map (·.key)).Nodup
  deriving DecidableEq

/-- What a flag is by these rows: overridden, or as it is declared. -/
def enabledIn (rows : List FeatureFlagOverrideRecord) (key : FeatureFlagKey) : Bool :=
  ((rows.find? (fun row => row.key = key.text)).map (·.enabled)).getD key.defaultEnabled

structure AdminFeatureFlag where
  key : FeatureFlagKey
  label : String
  gates : String
  enabled : Bool
  defaultEnabled : Bool
  override : Bool
  changedAt : Option Int
  changedById : Option Id
  deriving DecidableEq, Repr

/-- What `set` is asked to change, once its key is known to be declared. -/
structure Change where
  actorId : Id
  key : FeatureFlagKey
  enabled : Bool
  reason : String
  deriving DecidableEq, Repr

namespace Overrides

/-- `update: { enabled, changedById }` -/
def updated (c : Change) (now : Int) (row : FeatureFlagOverrideRecord) : FeatureFlagOverrideRecord :=
  { row with enabled := c.enabled, changedById := c.actorId, changedAt := now }

def upserted (rows : List FeatureFlagOverrideRecord) (c : Change) (id : Id) (now : Int) :
    List FeatureFlagOverrideRecord :=
  if rows.any (fun row => row.key = c.key.text) then
    rows.map (fun row => if row.key = c.key.text then updated c now row else row)
  else rows ++ [⟨id, c.key.text, c.enabled, c.actorId, now⟩]

theorem upserted_keys {rows : List FeatureFlagOverrideRecord} {c : Change} {id : Id} {now : Int}
    (h : (rows.map (·.key)).Nodup) : ((upserted rows c id now).map (·.key)).Nodup := by
  rw [upserted]
  split
  · have hkeys : (rows.map (fun row => if row.key = c.key.text then updated c now row else row)).map (·.key) =
        rows.map (·.key) := Keyed.keys_changed (fun _ => rfl)
    rw [hkeys]
    exact h
  · rename_i hnone
    apply Keyed.nodup_append h
    intro row hrow hkey
    exact hnone (List.any_eq_true.mpr ⟨row, hrow, decide_eq_true hkey⟩)

/-- `PrismaFeatureFlagStore.set` -/
def set (o : Overrides) (c : Change) (id : Id) (now : Int) : Overrides where
  rows := upserted o.rows c id now
  keys := upserted_keys o.keys

/-- The row that `set` returns. -/
def written (o : Overrides) (c : Change) (id : Id) (now : Int) : FeatureFlagOverrideRecord where
  id := ((o.rows.find? (fun old => old.key = c.key.text)).map (·.id)).getD id
  key := c.key.text
  enabled := c.enabled
  changedById := c.actorId
  changedAt := now

end Overrides

structure Cache where
  takenAt : Int
  overrides : List (String × Bool)
  deriving DecidableEq, Repr

def Cache.enabled (overrides : List (String × Bool)) (key : FeatureFlagKey) : Bool :=
  ((overrides.find? (fun e => e.1 = key.text)).map (·.2)).getD key.defaultEnabled

def snapshot (rows : List FeatureFlagOverrideRecord) : List (String × Bool) :=
  rows.map (fun row => (row.key, row.enabled))

structure AuditableFlag where
  key : FeatureFlagKey
  enabled : Bool
  override : Bool
  deriving DecidableEq, Repr

def auditable (flag : AdminFeatureFlag) : AuditableFlag := ⟨flag.key, flag.enabled, flag.override⟩

structure AuditEntry where
  actorId : Id
  action : String
  targetId : Id
  before : AuditableFlag
  after : AuditableFlag
  reason : String
  deriving DecidableEq, Repr

structure Service where
  cache : Option Cache
  overrides : Overrides
  audit : List AuditEntry
  deriving DecidableEq

def flagCacheTtlMs : Int := 10000

/-- The rows, less those of a key this build does not declare. -/
def readThrough (s : Service) : List FeatureFlagOverrideRecord :=
  s.overrides.rows.filter (fun row => isFeatureFlagKey row.key)

def adminFeatureFlag (rows : List FeatureFlagOverrideRecord) (key : FeatureFlagKey) : AdminFeatureFlag :=
  let declaration := featureFlagDeclaration key
  let override := rows.find? (fun row => row.key = key.text)
  { key := key
    label := declaration.label
    gates := declaration.gates
    enabled := (override.map (·.enabled)).getD declaration.defaultEnabled
    defaultEnabled := declaration.defaultEnabled
    override := override.isSome
    changedAt := override.map (·.changedAt)
    changedById := override.map (·.changedById) }

inductive Request where
  | isEnabled (key : FeatureFlagKey)
  | list
  | set (actorId : Id) (key : String) (enabled : Bool) (reason : String)
  deriving DecidableEq, Repr

/-- An answer of the service. A read that failed is answered with the declared
default, and logged. -/
inductive Answer where
  | enabled (key : FeatureFlagKey) (value : Bool)
  | failed (key : FeatureFlagKey) (value : Bool)
  | flags (flags : List AdminFeatureFlag)
  | changed (flag : Option AdminFeatureFlag)
  | threw
  deriving DecidableEq, Repr

inductive Call where
  | checking (key : FeatureFlagKey)
  | reading (key : FeatureFlagKey)
  | filling (key : FeatureFlagKey) (rows : List FeatureFlagOverrideRecord)
  | listing
  | settingBefore (c : Change)
  | writing (c : Change) (before : AdminFeatureFlag)
  | clearing (c : Change) (before : AdminFeatureFlag) (row : FeatureFlagOverrideRecord)
  | settingAfter (c : Change) (before : AdminFeatureFlag) (row : FeatureFlagOverrideRecord)
  | auditing (c : Change) (before after : AdminFeatureFlag) (row : FeatureFlagOverrideRecord)
  | returned (answer : Answer)
  deriving DecidableEq, Repr

structure Draw where
  now : Int
  id : Id
  fails : Bool

def start : Request → Call
  | .isEnabled key => .checking key
  | .list => .listing
  | .set actorId key enabled reason =>
    match featureFlagKey key with
    | none => .returned (.changed none)
    | some key => .settingBefore ⟨actorId, key, enabled, reason⟩

/-- The snapshot, while it is fresh enough. -/
def Service.fresh (s : Service) (now : Int) : Option (List (String × Bool)) :=
  s.cache.bind (fun cached => if now - cached.takenAt < flagCacheTtlMs then some cached.overrides else none)

def next (s : Service) (d : Draw) : Call → Option (Service × Call)
  | .checking key =>
    some (s, match s.fresh d.now with
      | some overrides => .returned (.enabled key (Cache.enabled overrides key))
      | none => .reading key)
  | .reading key =>
    some (s, if d.fails then .returned (.failed key key.defaultEnabled) else .filling key (readThrough s))
  | .filling key rows =>
    some ({ s with cache := some ⟨d.now, snapshot rows⟩ },
      .returned (.enabled key (Cache.enabled (snapshot rows) key)))
  | .listing =>
    some (s, .returned (if d.fails then .threw
      else .flags (featureFlagKeys.map (adminFeatureFlag (readThrough s)))))
  | .settingBefore c =>
    some (s, if d.fails then .returned .threw else .writing c (adminFeatureFlag (readThrough s) c.key))
  | .writing c before =>
    some (if d.fails then (s, .returned .threw)
      else ({ s with overrides := s.overrides.set c d.id d.now },
        .clearing c before (s.overrides.written c d.id d.now)))
  | .clearing c before row => some ({ s with cache := none }, .settingAfter c before row)
  | .settingAfter c before row =>
    some (s, if d.fails then .returned .threw
      else .auditing c before (adminFeatureFlag (readThrough s) c.key) row)
  | .auditing c before after row =>
    some (if d.fails then (s, .returned .threw)
      else ({ s with audit := s.audit ++ [⟨c.actorId, "feature_flag.changed", row.id, auditable before,
        auditable after, c.reason⟩] }, .returned (.changed (some after))))
  | .returned _ => none

def machine : Interleaving.Machine Service Call Request Draw := ⟨start, next⟩

abbrev State := Interleaving.State Service Call

abbrev Action := Interleaving.Action Request Draw

end RentalMarket.FeatureFlags
