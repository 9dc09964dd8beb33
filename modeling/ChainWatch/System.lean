import ChainWatch.Abi.Table
import ChainWatch.Concurrency.Activity
import ChainWatch.Fleet.Fault
import ChainWatch.Http.Reply
import ChainWatch.PortBinding
import ChainWatch.Signal
import ChainWatch.Transaction

/-!
# The system under watch

What the parts of the program share, and what they ask of the outside: nodes, the engine that runs the
nodes' containers, a block explorer, a health-check service and the queue of transactions. A `Job` is
an activity over these.
-/

namespace ChainWatch

open Concurrency

inductive ChainRequest where
  | blockNumber
  /-- The answer of a call that changes nothing. -/
  | call (target : Address) (data : Bytes)
  | storage (address : Address) (slot : Word)
  | reset (source : String)
  deriving DecidableEq, Repr

abbrev ChainRequest.Value : ChainRequest → Type
  | .blockNumber => Nat
  | .call _ _ => Bytes
  | .storage _ _ => Word
  | .reset _ => Unit

structure Container where
  name : String
  image : String
  ports : List PortBinding
  args : List String
  deriving DecidableEq, Repr

inductive ContainerRequest where
  | presence (name : String)
  /-- Whether the container has exactly these bindings. -/
  | portsMatch (name : String) (ports : List PortBinding)
  | stop (name : String)
  | start (container : Container)
  deriving DecidableEq, Repr

/-- Why the container engine did not do what was asked: with its reason, or because it is not there. -/
inductive ContainerFault where
  | failed (reason : String)
  | unavailable
  deriving DecidableEq, Repr

abbrev ContainerRequest.Value : ContainerRequest → Type
  | .presence _ => Bool
  | .portsMatch _ _ => Bool
  | .stop _ => Unit
  | .start _ => Unit

/-- Why a signal was not delivered: refused with a status, or the exchange failed. -/
inductive SignalFault where
  | refused (status : Nat)
  | exchange
  deriving DecidableEq, Repr

inductive QueueFault where
  | notWritable
  deriving DecidableEq, Repr

/-- Everything that is asked of the outside. Nodes and their containers are named by the node's place
in the fleet. -/
inductive Request where
  | chain (position : Nat) (request : ChainRequest)
  | container (position : Nat) (request : ContainerRequest)
  | explore (url : String)
  | deliver (signal : Signal)
  | enqueue (transaction : OutboundTransaction)
  deriving DecidableEq, Repr

abbrev Request.Answer : Request → Type
  | .chain _ request => Except NodeFault request.Value
  | .container _ request => Except ContainerFault request.Value
  | .explore _ => Http.Outcome
  | .deliver _ => Except SignalFault Unit
  | .enqueue _ => Except QueueFault Unit

inductive StartStage where
  | idle
  | running
  | complete
  deriving DecidableEq, Repr

structure State where
  /-- The nodes that are flagged as down; all others count as healthy. -/
  down : List Nat
  /-- The chain source that managed nodes shall follow; empty for the one they came with. -/
  forkUrl : String
  start : StartStage
  abis : AbiTable
  deriving DecidableEq, Repr

namespace State

def initial (forkUrl : String) (abis : AbiTable) : State :=
  ⟨[], forkUrl, .idle, abis⟩

def isHealthy (s : State) (position : Nat) : Bool :=
  !s.down.contains position

def mark (position : Nat) (healthy : Bool) (s : State) : State :=
  let others := s.down.filter (· != position)
  { s with down := if healthy then others else position :: others }

@[simp] theorem isHealthy_mark (s : State) (p q : Nat) (healthy : Bool) :
    (s.mark p healthy).isHealthy q = if q = p then healthy else s.isHealthy q := by
  by_cases h : q = p <;> cases healthy <;> simp [isHealthy, mark, h]

@[simp] theorem forkUrl_mark (s : State) (p : Nat) (healthy : Bool) :
    (s.mark p healthy).forkUrl = s.forkUrl := rfl

@[simp] theorem start_mark (s : State) (p : Nat) (healthy : Bool) :
    (s.mark p healthy).start = s.start := rfl

@[simp] theorem abis_mark (s : State) (p : Nat) (healthy : Bool) :
    (s.mark p healthy).abis = s.abis := rfl

end State

abbrev system : Interface where
  Memory := State
  Request := Request
  Answer := Request.Answer

abbrev Job (α : Type) : Type 1 := Activity system α

end ChainWatch
