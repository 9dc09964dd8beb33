import ChainWatch.Abi.Contract
import ChainWatch.Proxy
import ChainWatch.System

/-!
# Endpoints

An endpoint is one node of the fleet, with a health flag that its own answers set. A managed endpoint
runs in a container that is created, stopped and pointed at another chain source; for an unmanaged one
these do nothing, and recovery means to wait and ask again. An endpoint hides no fault from its caller.
-/

namespace ChainWatch

open Concurrency

/-- How long to wait for a node; times are milliseconds. -/
structure EndpointSettings where
  readinessAttempts : Nat
  readinessInterval : Nat
  recoveryBackoff : Nat
  deriving DecidableEq, Repr

inductive NodeRole where
  | unmanaged
  | managed (container : Container)
  deriving DecidableEq, Repr

namespace NodeRole

def isManaged : NodeRole → Bool
  | unmanaged => false
  | managed _ => true

def name : NodeRole → String
  | unmanaged => "unmanaged"
  | managed _ => "managed"

end NodeRole

structure Endpoint where
  position : Nat
  name : String
  role : NodeRole
  settings : EndpointSettings
  deriving DecidableEq, Repr

abbrev NodeJob (α : Type) : Type 1 := ExceptT NodeFault Job α

namespace Endpoint

def mark (e : Endpoint) (healthy : Bool) : Job Unit :=
  Activity.modify (I := system) (State.mark e.position healthy)

/-- Ask the node something and let the health flag follow its answer. -/
def ask (e : Endpoint) (request : ChainRequest) : NodeJob request.Value :=
  ExceptT.mk do
    let answer ← Activity.request (I := system) (.chain e.position request)
    e.mark answer.isOk
    return answer

def blockNumber (e : Endpoint) : NodeJob Nat :=
  e.ask .blockNumber

/-- Call a view and decode what it answers. Without a fitting overload, or with inputs of other types,
nothing is sent and the health flag stays; an answer that cannot be decoded still counts as an answer. -/
def callView (e : Endpoint) (address : Address) (contract : Abi.Contract) (method : String)
    (inputs : List Abi.Value) : NodeJob (List Abi.Value) :=
  match contract.overload? method inputs.length with
  | none => throw (.noOverload method inputs.length)
  | some function =>
    match function.encodeCall? inputs with
    | none => throw (.badInputs method)
    | some data => do
      let answer ← e.ask (.call address data)
      match function.decodeAnswer? answer with
      | none => throw (.badOutputs method)
      | some outputs => return outputs

def implementationWord (e : Endpoint) (address : Address) (slot : ImplementationSlot) :
    NodeJob Word :=
  e.ask (.storage address slot.key)

/-- Both slots, read side by side. -/
def proxyInfo (e : Endpoint) (address : Address) : NodeJob ProxyInfo := do
  let (eip1967, legacy) ← ExceptT.mk <|
    Activity.tryBoth (e.implementationWord address .eip1967) (e.implementationWord address .legacy)
  return .ofSlots eip1967 legacy

def lifecycle : ContainerFault → NodeFault
  | .failed reason => .lifecycle reason
  | .unavailable => .lifecycle "container engine unavailable"

/-- Ask the container engine something. The health flag stays. -/
def engine (e : Endpoint) (request : ContainerRequest) : NodeJob request.Value :=
  ExceptT.mk do
    let answer ← Activity.request (I := system) (.container e.position request)
    return answer.mapError lifecycle

/-- Bring the container up, unless it runs with the right bindings. One with other bindings is
replaced. -/
def ensureContainer (e : Endpoint) (c : Container) : NodeJob Unit := do
  if ← e.engine (.presence c.name) then
    if ← e.engine (.portsMatch c.name c.ports) then
      return
    e.engine (.stop c.name)
  e.engine (.start c)

/-- Ask for the height until it is answered, so many times at most. -/
def answersWithin (e : Endpoint) : Nat → Job Bool
  | 0 => return false
  | attempts + 1 => do
    match ← e.blockNumber with
    | .ok _ => return true
    | .error _ =>
      if attempts = 0 then return false
      Activity.sleep e.settings.readinessInterval
      e.answersWithin attempts

/-- Wait until the endpoint answers. At least one attempt is made. -/
def awaitReady (e : Endpoint) : NodeJob Unit := do
  let attempts := max 1 e.settings.readinessAttempts
  unless ← e.answersWithin attempts do
    throw (.notReady attempts)

def start (e : Endpoint) : NodeJob Unit :=
  match e.role with
  | .unmanaged => return
  | .managed c => do
    tryCatch (e.ensureContainer c) fun fault => do
      e.mark false
      throw fault
    e.awaitReady

def stop (e : Endpoint) : NodeJob Unit :=
  match e.role with
  | .unmanaged => return
  | .managed c => do
    e.engine (.stop c.name)
    e.mark false

/-- Let the node follow another chain source, and wait until it answers again. -/
def reset (e : Endpoint) (source : String) : NodeJob Unit :=
  match e.role with
  | .unmanaged => return
  | .managed _ => do
    ExceptT.mk <| Activity.request (I := system) (.chain e.position (.reset source))
    e.awaitReady

/-- Bring an endpoint back that is flagged as down: a managed one is restarted, an unmanaged one is
asked once after a while. -/
def recover (e : Endpoint) : NodeJob Unit := do
  let state ← Activity.memory (I := system)
  if state.isHealthy e.position then
    return
  match e.role with
  | .managed _ =>
    e.stop
    e.start
  | .unmanaged =>
    Activity.sleep (I := system) e.settings.recoveryBackoff
    let _ ← e.blockNumber
  e.mark true

def text (e : Endpoint) (healthy : Bool) : String :=
  "NodeEndpoint \x7b name: " ++ Text.quoted e.name ++ ", role: " ++ Text.quoted e.role.name ++
    ", healthy: " ++ toString healthy ++ " \x7d"

end Endpoint

end ChainWatch
