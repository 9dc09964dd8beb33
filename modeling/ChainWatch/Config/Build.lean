import ChainWatch.Abi.Source
import ChainWatch.Config.Basic
import ChainWatch.Node.JsonRpc

/-!
# From configurations to fleets

Every node of a configuration becomes an endpoint, in the same order. Each needs an address, and a
managed one a container.
-/

namespace ChainWatch

inductive BuildFault where
  | badUrl (node : String)
  | noContainer (node : String)
  | fleet (fault : FleetFault)
  deriving DecidableEq, Repr

namespace BuildFault

def message? : BuildFault → Option String
  | badUrl _ => none
  | noContainer node => some s!"node {node} is managed but has no container config"
  | fleet fault => some fault.message

end BuildFault

namespace NodeEntry

def build (node : NodeEntry) : Except BuildFault (String × NodeRole) :=
  if (JsonRpc.url? node.rpcUrl).isNone then .error (.badUrl node.name)
  else
    match node.role? with
    | none => .error (.noContainer node.name)
    | some role => .ok (node.name, role)

end NodeEntry

namespace Config

/-- The fleet of a configuration. The first node that cannot be built is the reason if there is none. -/
def buildFleet (config : Config) : Except BuildFault Fleet :=
  match config.nodes.mapM NodeEntry.build with
  | .error fault => .error fault
  | .ok nodes => (Fleet.ofNodes config.endpoint.settings nodes).mapError .fleet

def explorer (config : Config) : Explorer :=
  .ofUrl config.abi.explorerUrl config.abi.explorerKey

def inlineAbis (config : Config) : Except AbiFault AbiTable :=
  AbiTable.ofInline config.abi.inline

end Config

end ChainWatch
