import ChainWatch.Fleet.Quorum

/-!
# Health passes

A health pass tries to bring back every endpoint that is flagged as down, all side by side. It fails
only when there were such endpoints and none of them came back.
-/

namespace ChainWatch

open Concurrency

structure HealthReport where
  unhealthy : Nat
  recovered : Nat
  failed : Nat
  deriving DecidableEq, Repr

/-- The failure of a health pass: the endpoints that were tried, in fleet order. -/
structure NoneRecovered where
  names : List String
  deriving DecidableEq, Repr

namespace NoneRecovered

def message (fault : NoneRecovered) : String :=
  s!"nodes are down, none recovered ({fault.names.length} attempted: " ++
    ", ".intercalate fault.names ++ ")"

end NoneRecovered

namespace HealthReport

/-- What a pass amounts to: for each endpoint that was tried, its name and whether it came back. -/
def ofAttempts (attempts : List (String × Bool)) : Except NoneRecovered HealthReport :=
  let failed := (attempts.filter fun a => !a.2).map (·.1)
  if attempts ≠ [] ∧ failed.length = attempts.length then .error ⟨failed⟩
  else .ok ⟨attempts.length, attempts.length - failed.length, failed.length⟩

end HealthReport

namespace Fleet

def attemptRecovery (e : Endpoint) : Job (String × Bool) := do
  let outcome ← e.recover.run
  return (e.name, outcome.isOk)

def recoverAll (fleet : Fleet) : Job (Except NoneRecovered HealthReport) := do
  let state ← Activity.memory (I := system)
  let down := fleet.endpoints.filter fun e => !state.isHealthy e.position
  let attempts ← Activity.joinAll (down.map attemptRecovery)
  return HealthReport.ofAttempts attempts

end Fleet

end ChainWatch
