import ChainWatch.Fleet.Quorum
import ChainWatch.Rule.Entry

/-!
# Configurations

The settings of a watch: its nodes in fleet order, how long to wait for them, where managed nodes fork
from, when cycles run and where their transactions go, where interfaces come from, and the rules. What
is not set has a default.
-/

namespace ChainWatch

inductive NodeKind where
  | managed
  | unmanaged
  deriving DecidableEq, Repr

namespace NodeKind

def name : NodeKind → String
  | managed => "managed"
  | unmanaged => "unmanaged"

def ofName? : String → Option NodeKind
  | "managed" => some managed
  | "unmanaged" => some unmanaged
  | _ => none

end NodeKind

/-- A node's container as it is configured. Without a name it takes the node's. -/
structure ContainerEntry where
  image : String
  name : Option String
  ports : List PortBinding
  args : List String
  deriving DecidableEq, Repr

structure NodeEntry where
  name : String
  rpcUrl : String
  kind : NodeKind
  container : Option ContainerEntry
  /-- The method by which the node is told to follow another chain source. -/
  resetMethod : String
  deriving DecidableEq, Repr

/-- How long to wait for nodes, as configured; times are milliseconds. -/
structure EndpointTuning where
  readinessAttempts : Nat
  readinessInterval : Nat
  recoveryBackoff : Nat
  deriving DecidableEq, Repr

structure CycleEntry where
  /-- Seconds from the start of a cycle to that of the next. -/
  interval : Nat
  /-- Where signals go; empty to keep them. -/
  heartbeatUrl : String
  queuePath : String
  /-- How many checks of a sweep run at a time, unless the rule says otherwise. -/
  fanOut : Nat
  deriving DecidableEq, Repr

structure AbiEntry where
  /-- A block explorer; empty for none. -/
  explorerUrl : String
  explorerKey : String
  inline : List (String × String)
  deriving DecidableEq, Repr

structure LoggingEntry where
  level : String
  json : Bool
  deriving DecidableEq, Repr

structure Config where
  nodes : List NodeEntry
  endpoint : EndpointTuning
  /-- The chain source that managed nodes fork from; empty to leave them as they start. -/
  forkUrl : String
  cycle : CycleEntry
  abi : AbiEntry
  rules : List RuleEntry
  logging : LoggingEntry

inductive ConfigFault where
  | unreadable
  | malformed
  | missingVariable (name : String)
  | noNodes
  | noFanOut
  | noContainer (node : String)
  deriving DecidableEq, Repr

namespace ConfigFault

def message? : ConfigFault → Option String
  | unreadable => none
  | malformed => none
  | missingVariable name => some s!"missing required env var: {name}"
  | noNodes => some "invalid config: at least one node is required"
  | noFanOut => some "invalid config: cycle.fan_out_concurrency must be at least 1"
  | noContainer node =>
    some s!"invalid config: node {node} is managed but has no [container] section"

end ConfigFault

namespace NodeEntry

def defaultResetMethod : String := "anvil_reset"

/-- The container of a managed node; the inner value is none when it is not configured. -/
def role? (node : NodeEntry) : Option NodeRole :=
  match node.kind, node.container with
  | .unmanaged, _ => some .unmanaged
  | .managed, none => none
  | .managed, some c => some (.managed ⟨c.name.getD node.name, c.image, c.ports, c.args⟩)

end NodeEntry

namespace EndpointTuning

def default : EndpointTuning := ⟨8, 3000, 10000⟩

/-- The settings to wait by. At least one attempt is made. -/
def settings (tuning : EndpointTuning) : EndpointSettings :=
  ⟨max 1 tuning.readinessAttempts, tuning.readinessInterval, tuning.recoveryBackoff⟩

end EndpointTuning

namespace CycleEntry

def default : CycleEntry := ⟨60, "", "sentinel-queue.jsonl", 8⟩

end CycleEntry

namespace AbiEntry

def default : AbiEntry := ⟨"", "", []⟩

end AbiEntry

namespace LoggingEntry

def default : LoggingEntry := ⟨"info", false⟩

end LoggingEntry

namespace Config

def ofNodes (nodes : List NodeEntry) : Config :=
  ⟨nodes, .default, "", .default, .default, [], .default⟩

/-- Whether a configuration can be worked with: there are nodes, sweeps may check something, and every
managed node has a container. -/
def validate (config : Config) : Except ConfigFault Unit :=
  if config.nodes.isEmpty then .error .noNodes
  else if config.cycle.fanOut = 0 then .error .noFanOut
  else
    match config.nodes.find? fun node => node.role?.isNone with
    | some node => .error (.noContainer node.name)
    | none => .ok ()

end Config

end ChainWatch
