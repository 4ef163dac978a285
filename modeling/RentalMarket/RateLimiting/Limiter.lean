import RentalMarket.Lib.FixedWindow
import RentalMarket.Lib.Interleaving

namespace RentalMarket.RateLimiting

open Interleaving FixedWindow

structure RateLimitPolicy where
  limit : Nat
  windowSeconds : Nat
  window_pos : 0 < windowSeconds
  deriving DecidableEq, Repr

structure RateLimitDecision where
  allowed : Bool
  limit : Nat
  remaining : Int
  resetInSeconds : Int
  deriving DecidableEq, Repr

/-- The key as it is stored. Which of its lifetimes this is and when it began are of
no command's concern. -/
structure Counter where
  count : Nat
  expiresAt : Option Nat
  lifetime : Nat
  since : Nat
  deriving DecidableEq, Repr

/-- The server, its clock counting this many ticks a second. -/
structure Redis where
  now : Nat
  stored : Option Counter
  lifetimes : Nat
  deriving DecidableEq, Repr

namespace Redis

/-- A key is gone from its expiry on. -/
def key (r : Redis) : Option Counter := r.stored.filter (fun c => c.expiresAt.all (fun t => decide (r.now < t)))

def after (r : Redis) (elapsed : Nat) : Redis := { r with now := r.now + elapsed }

/-- `INCR`: the counter it leaves, whose count is its reply. -/
def incremented (r : Redis) : Counter :=
  match r.key with
  | none => ⟨1, none, r.lifetimes + 1, r.now⟩
  | some c => { c with count := c.count + 1 }

def incr (r : Redis) : Redis :=
  { r with stored := some r.incremented, lifetimes := r.incremented.lifetime }

/-- `EXPIRE … NX` -/
def expireNx (r : Redis) (window : Nat) : Redis :=
  match r.key with
  | none => r
  | some c => if c.expiresAt = none then { r with stored := some { c with expiresAt := some (r.now + window) } } else r

/-- `TTL`, in whole seconds: -2 for a key that is gone and -1 for one without an
expiry. -/
def ttl (r : Redis) (ticks : Nat) : Int :=
  match r.key with
  | none => -2
  | some c =>
    match c.expiresAt with
    | none => -1
    | some t => ((t - r.now + ticks / 2) / ticks : Nat)

end Redis

structure Setting where
  policy : RateLimitPolicy
  ticks : Nat
  ticks_pos : 0 < ticks

def Setting.window (w : Setting) : Nat := w.policy.windowSeconds * w.ticks

/-- What `consume` makes of the two replies. -/
def decisionOf (policy : RateLimitPolicy) (count : Nat) (ttl : Int) : RateLimitDecision :=
  ⟨count ≤ policy.limit, policy.limit, max 0 ((policy.limit : Int) - count),
    if ttl > 0 then ttl else policy.windowSeconds⟩

def retryAfterSeconds (resetInSeconds : Int) : Int := max 1 resetInSeconds

/-- A call of `consume` before its next command. One that dies is not heard of again.
From its first command on it has used its caller's allowance. -/
inductive Call where
  | incrementing
  | expiring (use : Use)
  | reading (use : Use)
  | answered (use : Use) (decision : RateLimitDecision)
  deriving DecidableEq, Repr

def Call.use : Call → Option Use
  | .incrementing => none
  | .expiring use => some use
  | .reading use => some use
  | .answered use _ => some use

def Call.allowed : Call → Option Use
  | .answered use decision => if decision.allowed then some use else none
  | _ => none

/-- A command, this long after the last one of any call. -/
def next (w : Setting) (r : Redis) (elapsed : Nat) : Call → Option (Redis × Call)
  | .incrementing =>
    let r := r.after elapsed
    some (r.incr, .expiring ⟨r.incremented.lifetime, r.incremented.count, r.now⟩)
  | .expiring use => some ((r.after elapsed).expireNx w.window, .reading use)
  | .reading use =>
    some (r.after elapsed, .answered use (decisionOf w.policy use.count ((r.after elapsed).ttl w.ticks)))
  | .answered _ _ => none

def limiter (w : Setting) : Machine Redis Call Unit Nat := ⟨fun _ => .incrementing, next w⟩

def initial : State Redis Call := ⟨⟨0, none, 0⟩, []⟩

def allowed (s : State Redis Call) : List Use := s.calls.filterMap Call.allowed

end RentalMarket.RateLimiting
