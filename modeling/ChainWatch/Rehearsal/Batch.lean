import ChainWatch.Concurrency.Run
import ChainWatch.Rule.Batch

/-!
# Timed batches

A batch of tasks that only take time and then succeed or fail, run on a virtual clock. It shows when
each task ran and how many were in flight at once.
-/

namespace ChainWatch.Rehearsal

open Concurrency

structure TimedTask (α : Type) where
  span : Nat
  result : Except Unit α

structure Gauge where
  inFlight : Nat
  peak : Nat
  /-- The numbers of the tasks, in the order in which they started. -/
  begun : List Nat
  /-- For every task that ended, its number, its start and its end. -/
  spans : List (Nat × Nat × Nat)
  deriving DecidableEq, Repr

namespace Gauge

def enter (number : Nat) (g : Gauge) : Gauge :=
  { g with
    inFlight := g.inFlight + 1
    peak := max g.peak (g.inFlight + 1)
    begun := g.begun ++ [number] }

def leave (number started ended : Nat) (g : Gauge) : Gauge :=
  { g with inFlight := g.inFlight - 1, spans := g.spans ++ [(number, started, ended)] }

def span? (g : Gauge) (number : Nat) : Option (Nat × Nat) :=
  (g.spans.find? (·.1 == number)).map (·.2)

end Gauge

def gauge : Interface := ⟨Gauge, Empty, fun _ => Empty⟩

def silence : Handler gauge Unit := ⟨fun r => Empty.elim r, fun r => Empty.elim r⟩

namespace TimedTask

variable {α : Type}

def closing (number started : Nat) (task : TimedTask α) : Activity gauge (Except Unit α) := do
  let ended ← Activity.clock (I := gauge)
  Activity.modify (I := gauge) (Gauge.leave number started ended)
  return task.result

/-- Run a task and note its times down under a number. -/
def activity (number : Nat) (task : TimedTask α) : Activity gauge (Except Unit α) := do
  Activity.modify (I := gauge) (Gauge.enter number)
  let started ← Activity.clock (I := gauge)
  Activity.sleep (I := gauge) task.span
  task.closing number started

def activities (first : Nat) : List (TimedTask α) → List (Activity gauge (Except Unit α))
  | [] => []
  | task :: rest => task.activity first :: activities (first + 1) rest

def runBatch (limit : Nat) (tasks : List (TimedTask α)) :
    Ending gauge Unit (Option (BatchOutcome α)) :=
  (Batch.run? limit (activities 0 tasks)).run silence 0 ⟨⟨0, 0, [], []⟩, ()⟩

end TimedTask

end ChainWatch.Rehearsal
