import RentalMarket.Runtime.Budget

namespace RentalMarket.Runtime

def shutdownTimeoutMs : Nat := 30000

def drainTimeoutMs : Nat := 25000

/-- What the worker closes. Health comes first, so that its signal goes stale as the stop begins. -/
def workerShutdown (health metrics schedule maintenance : Behaviour) : ShutdownOptions where
  closables := [⟨"health signal", health, none⟩, ⟨"metrics endpoint", metrics, none⟩, ⟨"schedule", schedule, none⟩,
    ⟨"maintenance worker", maintenance, none⟩]
  timeoutMs := shutdownTimeoutMs
  closeTimeoutMs := drainTimeoutMs

def drainOf (close : Behaviour) : Nat :=
  match close.due with
  | none => drainTimeoutMs
  | some after => min after drainTimeoutMs

section

variable (health metrics schedule maintenance : Behaviour)

theorem total_workerShutdown : (workerShutdown health metrics schedule maintenance).total
      (workerShutdown health metrics schedule maintenance).closables =
    drainOf health + drainOf metrics + drainOf schedule + drainOf maintenance := by
  have hwait (name : String) (close : Behaviour) :
      (workerShutdown health metrics schedule maintenance).wait ⟨name, close, none⟩ = drainOf close := rfl
  simp only [workerShutdown, ShutdownOptions.total_cons, ShutdownOptions.total_nil] at hwait ⊢
  simp only [hwait]
  omega

/-- The worker's stop is clean, whatever happens when, exactly if its four waits are shorter
together than the backstop. -/
theorem worker_stops_cleanly_iff : StopsCleanly (workerShutdown health metrics schedule maintenance) ↔
    drainOf health + drainOf metrics + drainOf schedule + drainOf maintenance < shutdownTimeoutMs := by
  rw [stopsCleanly_iff (List.cons_ne_nil _ _), total_workerShutdown]
  exact Iff.rfl

end

/-- Two resources that hang on one broker are a crash. -/
theorem two_hanging_crash : ¬StopsCleanly (workerShutdown (.settles 0) (.settles 0) .hangs .hangs) := by
  intro h
  exact absurd ((stopsCleanly_iff (List.cons_ne_nil _ _)).mp h) (by decide)

end RentalMarket.Runtime
