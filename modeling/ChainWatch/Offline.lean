import ChainWatch.Concurrency.Poll
import ChainWatch.Http.Heartbeat
import ChainWatch.Node.Docker
import ChainWatch.Node.JsonRpc
import ChainWatch.Transaction.Queue

/-!
# Without a network

The outside of a program that reaches no server. Commands of the container engine may still run, and
the queue still takes transactions.
-/

namespace ChainWatch

open Concurrency

/-- What a program without a network leaves behind. -/
structure Offline where
  commands : List (List String)
  queued : List OutboundTransaction

namespace Offline

def empty : Offline := ⟨[], []⟩

/-- Settle a request. What a command brings is given; a command that cannot run leaves no trace. -/
def settle (command : List String → Option CommandOutcome) (o : Offline) (request : Request) :
    Settlement request.Answer × Offline :=
  match request with
  | .chain _ r => (.now (JsonRpc.read r .unreachable), o)
  | .container _ r =>
    let arguments := Docker.arguments r
    let outcome := if Docker.areArguments arguments then command arguments else none
    let commands := if outcome.isSome then o.commands ++ [arguments] else o.commands
    (.now (Docker.read "docker" r outcome), { o with commands })
  | .explore _ => (.now .unreachable, o)
  | .deliver _ => (.now (Signal.delivery .unreachable), o)
  | .enqueue tx => (.now (.ok ()), { o with queued := o.queued ++ [tx] })

def handler (command : List String → Option CommandOutcome) : Handler system Offline where
  submit _ o := (0, o)
  settle request o := o.settle command request

end Offline

end ChainWatch
