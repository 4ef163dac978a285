import Mathlib
import RentalMarket.Lib.Inevitable

namespace RentalMarket.Runtime

open Runs

/-- What a `close()` comes to, and how long after it was called. -/
inductive Behaviour where
  | settles (after : Nat)
  | rejects (after : Nat)
  | throws
  | hangs
  deriving DecidableEq, Repr

structure Closable where
  name : String
  close : Behaviour
  timeoutMs : Option Nat
  deriving DecidableEq, Repr

structure ShutdownOptions where
  closables : List Closable
  timeoutMs : Nat
  closeTimeoutMs : Nat
  deriving DecidableEq, Repr

/-- What can be seen of a stop: what is logged, called and exited with. -/
inductive Event where
  | requested (signal : String)
  | called (name : String)
  | gaveUp (resource : String) (timeoutMs : Nat)
  | failed (resource : String)
  | timedOut (timeoutMs : Nat)
  | complete (signal : String)
  | exit (code : Nat)
  deriving DecidableEq, Repr

structure Request where
  signal : String
  time : Nat
  deriving DecidableEq, Repr

inductive Phase where
  | running
  | closing (request : Request) (closable : Closable) (since : Nat) (rest : List Closable)
  | ended
  deriving DecidableEq, Repr

structure State where
  clock : Nat
  phase : Phase
  trace : List Event
  deriving DecidableEq, Repr

def State.start : State := ⟨0, .running, []⟩

/-- Of what is due at one time, any may come first. -/
inductive Action where
  | signal (name : String)
  | tick
  | settle
  | giveUp
  | forceExit
  deriving DecidableEq, Repr

/-- When the promise is settled, if it ever is. -/
def Behaviour.due : Behaviour → Option Nat
  | .settles after => some after
  | .rejects after => some after
  | .throws => some 0
  | .hangs => none

namespace ShutdownOptions

variable (o : ShutdownOptions)

def bound (c : Closable) : Nat := c.timeoutMs.getD o.closeTimeoutMs

def advance (request : Request) (clock : Nat) (trace : List Event) : List Closable → State
  | [] => ⟨clock, .ended, trace ++ [.complete request.signal, .exit 0]⟩
  | c :: rest => ⟨clock, .closing request c clock rest, trace ++ [.called c.name]⟩

def settled (c : Closable) (since clock : Nat) : Bool := c.close.due.any (fun after => decide (since + after ≤ clock))

def settlement (c : Closable) : List Event :=
  match c.close with
  | .rejects _ | .throws => [.failed c.name]
  | .settles _ | .hangs => []

/-- Time passes while nothing is due. With the exit the process is over, and the timers and the
promises that were given up with it. -/
def step (s : State) : Action → Option State
  | .signal name =>
    match s.phase with
    | .running => some (advance ⟨name, s.clock⟩ s.clock (s.trace ++ [.requested name]) o.closables)
    | _ => some s
  | .tick =>
    match s.phase with
    | .running => some { s with clock := s.clock + 1 }
    | .closing request c since _ =>
      if settled c since s.clock ∨ since + o.bound c ≤ s.clock ∨ request.time + o.timeoutMs ≤ s.clock then none
      else some { s with clock := s.clock + 1 }
    | .ended => none
  | .settle =>
    match s.phase with
    | .closing request c since rest =>
      if settled c since s.clock then some (advance request s.clock (s.trace ++ settlement c) rest) else none
    | _ => none
  | .giveUp =>
    match s.phase with
    | .closing request c since rest =>
      if since + o.bound c ≤ s.clock then
        some (advance request s.clock (s.trace ++ [.gaveUp c.name (o.bound c)]) rest)
      else none
    | _ => none
  | .forceExit =>
    match s.phase with
    | .closing request _ _ _ =>
      if request.time + o.timeoutMs ≤ s.clock then some ⟨s.clock, .ended, s.trace ++ [.timedOut o.timeoutMs, .exit 1]⟩
      else none
    | _ => none

end ShutdownOptions

def callsOf (trace : List Event) : List String :=
  trace.filterMap fun e => match e with
    | .called name => some name
    | _ => none

def exitsOf (trace : List Event) : List Nat :=
  trace.filterMap fun e => match e with
    | .exit code => some code
    | _ => none

def ShutdownOptions.stepUnasked (o : ShutdownOptions) (s : State) : Action → Option State
  | .signal _ => none
  | a => o.step s a

/-- A stop that is no crash: the resources are closed once each and in order, nothing is called after the exit,
another signal changes nothing, and the exit comes, once and with 0, without the backstop. -/
structure Clean (o : ShutdownOptions) (s : State) : Prop where
  calls : callsOf s.trace <+: o.closables.map (·.name)
  exits : exitsOf s.trace = [] ∨
    ∃ before, s.trace = before ++ [.exit 0] ∧ exitsOf before = [] ∧ callsOf before = o.closables.map (·.name)
  backstop : ∀ timeoutMs, .timedOut timeoutMs ∉ s.trace
  again : s.phase ≠ .running → ∀ name, o.step s (.signal name) = some s
  stops : s.phase ≠ .running → Inevitable o.stepUnasked (fun t => exitsOf t.trace = [0]) s

def StopsCleanly (o : ShutdownOptions) : Prop := ∀ actions s, run o.step .start actions = some s → Clean o s

end RentalMarket.Runtime
