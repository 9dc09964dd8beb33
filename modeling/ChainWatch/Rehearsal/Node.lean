import ChainWatch.Proxy
import ChainWatch.System

/-!
# Scripted nodes

A node that answers by a script, for running the program without a network. Every request is noted
down when it is sent and decided when its delay is over.
-/

namespace ChainWatch.Rehearsal

/-- The answer to the calls that an entry covers. Open parts cover everything. -/
structure CallEntry where
  target : Option Address
  data : Option Bytes
  /-- How long this answer is held back, in milliseconds. -/
  delay : Nat
  answer : Except NodeFault Bytes

def CallEntry.covers (entry : CallEntry) (target : Address) (data : Bytes) : Bool :=
  (match entry.target with
    | none => true
    | some a => a == target) &&
  match entry.data with
  | none => true
  | some d => d == data

structure SlotEntry where
  address : Option Address
  slot : Word
  answer : Except NodeFault Word

def SlotEntry.covers (entry : SlotEntry) (address : Address) (slot : Word) : Bool :=
  entry.slot == slot &&
  match entry.address with
  | none => true
  | some a => a == address

/-- How long requests travel, in milliseconds. -/
structure Delays where
  block : Nat
  call : Nat
  storage : Nat
  reset : Nat

/-- The requests to the container engine that fail, and why. -/
structure EngineFaults where
  presence : Option String
  ports : Option String
  stop : Option String
  start : Option String

structure Node where
  height : Nat
  /-- Whether all reads are refused. -/
  down : Bool
  /-- How many reads of the height fail before one succeeds. -/
  deaf : Nat
  calls : List CallEntry
  slots : List SlotEntry
  resetFault : Option NodeFault
  delays : Delays
  /-- Whether the container exists, and whether its bindings are the wanted ones. -/
  present : Bool
  portsMatch : Bool
  engineFaults : EngineFaults
  /-- What was asked of the node, the latest first. -/
  asked : List ChainRequest
  managed : List ContainerRequest

namespace Node

/-- A node at the beginning of its chain, without a container. -/
def fresh : Node :=
  ⟨0, false, 0, [], [], none, ⟨0, 0, 0, 0⟩, false, false, ⟨none, none, none, none⟩, [], []⟩

def cleared (node : Node) : Node :=
  { node with asked := [], managed := [] }

def delay (node : Node) : ChainRequest → Nat
  | .blockNumber => node.delays.block
  | .call _ _ => node.delays.call
  | .storage _ _ => node.delays.storage
  | .reset _ => node.delays.reset

def submit (node : Node) (request : ChainRequest) : Nat × Node :=
  (node.delay request, { node with asked := request :: node.asked })

def refusal : NodeFault := .transport "connection refused"

def decide (node : Node) (request : ChainRequest) : Nat × Except NodeFault request.Value × Node :=
  match request with
  | .blockNumber =>
    if node.deaf > 0 then
      (0, .error (.transport "not listening yet"), { node with deaf := node.deaf - 1 })
    else (0, if node.down then .error refusal else .ok node.height, node)
  | .call target data =>
    if node.down then (0, .error refusal, node)
    else
      match node.calls.find? (·.covers target data) with
      | none => (0, .error (.rpc 3 "execution reverted"), node)
      | some entry => (entry.delay, entry.answer, node)
  | .storage address slot =>
    if node.down then (0, .error refusal, node)
    else
      match node.slots.find? (·.covers address slot) with
      | none => (0, .ok 0, node)
      | some entry => (0, entry.answer, node)
  | .reset _ =>
    match node.resetFault with
    | none => (0, .ok (), node)
    | some fault => (0, .error fault, node)

def engineFault? (node : Node) : ContainerRequest → Option String
  | .presence _ => node.engineFaults.presence
  | .portsMatch _ _ => node.engineFaults.ports
  | .stop _ => node.engineFaults.stop
  | .start _ => node.engineFaults.start

def obey (node : Node) (request : ContainerRequest) : request.Value × Node :=
  match request with
  | .presence _ => (node.present, node)
  | .portsMatch _ _ => (node.portsMatch, node)
  | .stop _ => ((), { node with present := false })
  | .start _ => ((), { node with present := true, portsMatch := true })

def manage (node : Node) (request : ContainerRequest) :
    Except ContainerFault request.Value × Node :=
  let node := { node with managed := request :: node.managed }
  match node.engineFault? request with
  | some reason => (.error (.failed reason), node)
  | none =>
    let (value, node) := node.obey request
    (.ok value, node)

end Node

end ChainWatch.Rehearsal
