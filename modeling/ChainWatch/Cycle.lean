import ChainWatch.Fleet.Health
import ChainWatch.Rule.Engine

/-!
# Cycles

A cycle announces itself, brings endpoints back that are down, evaluates the rules, hands what they
queued to the transaction queue and announces its end. Signals that are not delivered and transactions
that are not taken change nothing else.
-/

namespace ChainWatch

open Concurrency

namespace Cycle

/-- Send a signal; what becomes of it is ignored. -/
def emit (signal : Signal) : Job Unit := do
  let _ ← Activity.request (I := system) (.deliver signal)

/-- Open a cycle: the heartbeat, then a health pass, whose failure is a signal of its own. The value is
the time at which the cycle started. -/
def start (fleet : Fleet) : Job Nat := do
  let started ← Activity.clock (I := system)
  emit (.heartbeat .start)
  match ← fleet.recoverAll with
  | .ok _ => return started
  | .error fault =>
    emit (.criticalFailure fault.message)
    return started

def finish (started : Nat) : Job Unit := do
  let now ← Activity.clock (I := system)
  emit (.cycleCompleted (now - started))
  emit (.heartbeat .finish)

/-- Offer transactions to the queue, one after the other, and say for each whether it was taken. -/
def submit : List OutboundTransaction → Job (List Bool)
  | [] => return []
  | tx :: rest => do
    let outcome ← Activity.request (I := system) (.enqueue tx)
    let others ← submit rest
    return outcome.isOk :: others

def run (fleet : Fleet) (engine : RuleEngine) : Job CycleReport := do
  let started ← start fleet
  let report ← engine.evaluateAndCollect.2
  let _ ← submit report.transactions
  finish started
  return report

end Cycle

end ChainWatch
