import ChainWatch.Address

/-!
# Faults of nodes and fleets

What goes wrong at one node, and what goes wrong when a whole fleet was asked. Some causes carry words
from elsewhere (a codec, a connection); those words are not kept.
-/

namespace ChainWatch

inductive NodeFault where
  | transport (reason : String)
  /-- The connection failed, or its reply could not be read. -/
  | exchange
  | rpc (code : Int) (message : String)
  | notReady (attempts : Nat)
  | lifecycle (reason : String)
  /-- The interface has no function of that name and number of inputs. -/
  | noOverload (method : String) (arity : Nat)
  | badInputs (method : String)
  | badOutputs (method : String)
  deriving DecidableEq, Repr

namespace NodeFault

/-- The fault in words, as far as the words are ours. -/
def message? : NodeFault → Option String
  | transport reason => some s!"transport error: {reason}"
  | exchange => none
  | rpc code message => some s!"rpc error {code}: {message}"
  | notReady attempts => some s!"not ready after maximum attempts ({attempts})"
  | lifecycle reason => some s!"lifecycle error: {reason}"
  | noOverload method arity =>
    some s!"abi error: no function {method} taking {arity} parameters"
  | badInputs method => some s!"abi error: {method}"
  | badOutputs method => some s!"abi error: {method} output"

end NodeFault

/-- Why a fleet could not answer: it has no node, or none of its nodes answered. -/
inductive FleetFault where
  | empty
  | blockNumber
  | viewCall (address : Address) (method : String)
  | proxyInfo (address : Address)
  deriving DecidableEq, Repr

namespace FleetFault

def message : FleetFault → String
  | empty => "fleet must contain at least one endpoint"
  | blockNumber => "all nodes failed to retrieve block number"
  | viewCall address method => s!"all nodes failed to call {method} on {address.checksum}"
  | proxyInfo address => s!"all nodes failed to retrieve proxy info for {address.checksum}"

end FleetFault

end ChainWatch
