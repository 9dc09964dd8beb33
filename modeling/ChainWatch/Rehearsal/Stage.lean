import ChainWatch.Concurrency.Run
import ChainWatch.Rehearsal.Node
import ChainWatch.Transaction.Queue

/-!
# Rehearsals

The outside of a program that runs without a network: scripted nodes, a queue file, and signals that
are noted down. There is no explorer.
-/

namespace ChainWatch.Rehearsal

open Concurrency

structure Stage where
  nodes : List Node
  /-- The signals that were sent, delivered or not. -/
  signals : List Signal
  signalsFail : Bool
  queue : QueueFile

namespace Stage

/-- Let the node at a place do something; without such a node there is a value that stands in. -/
def atNode {α : Type} (stage : Stage) (position : Nat) (absent : α) (act : Node → α × Node) :
    α × Stage :=
  match stage.nodes[position]? with
  | none => (absent, stage)
  | some node =>
    let (value, node) := act node
    (value, { stage with nodes := stage.nodes.set position node })

def cleared (stage : Stage) : Stage :=
  { stage with nodes := stage.nodes.map Node.cleared, signals := [] }

def settle (stage : Stage) (request : Request) : Settlement request.Answer × Stage :=
  match request with
  | .chain position r =>
    let ((span, answer), stage) := stage.atNode position (0, .error .exchange) fun node =>
      let (span, answer, node) := node.decide r
      ((span, answer), node)
    (.later span answer, stage)
  | .container position r =>
    let (answer, stage) := stage.atNode position (.error .unavailable) (·.manage r)
    (.now answer, stage)
  | .explore _ => (.now .unreachable, stage)
  | .deliver _ => (.now (if stage.signalsFail then .error .exchange else .ok ()), stage)
  | .enqueue tx =>
    let (answer, queue) := stage.queue.accept tx
    (.now answer, { stage with queue })

def submit (stage : Stage) : Request → Nat × Stage
  | .chain position r => stage.atNode position 0 (·.submit r)
  | .deliver signal => (0, { stage with signals := stage.signals ++ [signal] })
  | _ => (0, stage)

def handler : Handler system Stage where
  submit request stage := stage.submit request
  settle request stage := stage.settle request

end Stage

end ChainWatch.Rehearsal
