import ChainWatch.Abi.Source
import ChainWatch.Fleet.Quorum
import ChainWatch.Rule.Entry

/-!
# Rules

A rule reads state through the fleet and queues transactions in its outbox. What a contract's functions
are is looked up by the contract's address, or for a proxy by the address of its logic.
-/

namespace ChainWatch

open Concurrency

inductive RuleStatus where
  /-- Something was examined, whether or not it led to transactions. -/
  | completed
  | noCandidates
  deriving DecidableEq, Repr

inductive RuleFault where
  | fleet (fault : FleetFault)
  | abi (fault : AbiFault)
  | notNumber (output : Option Abi.Value)
  | notList (output : Option Abi.Value)
  | notNumberItem (item : Abi.Value)
  /-- The interface has no function of that name that takes at most one input. -/
  | noAction (method : String)
  /-- The action takes an input of another type. -/
  | badAction (method : String)
  | allChecksFailed (count : Nat)
  | stated (reason : String)
  | panicked
  deriving Repr

namespace RuleFault

def message? : RuleFault → Option String
  | fleet fault => some fault.message
  | abi fault => fault.message?
  | notNumber output => some s!"expected uint output, got {Abi.Value.optionText output}"
  | notList output => some s!"expected uint256[] output, got {Abi.Value.optionText output}"
  | notNumberItem item => some s!"expected uint list item, got {item.text}"
  | noAction method => some s!"no callable {method} in abi"
  | badAction _ => none
  | allChecksFailed count => some s!"all {count} candidate checks failed"
  | stated reason => some reason
  | panicked => some "rule panicked during evaluation"

end RuleFault

abbrev RuleJob (α : Type) : Type 1 := ExceptT RuleFault Job α

structure Rule where
  owner : RuleMeta
  /-- Evaluate the rule with its outbox. What was queued is kept also when the evaluation fails. -/
  evaluate : Outbox → Job (Outbox × Except RuleFault RuleStatus)

structure RuleContext where
  fleet : Fleet
  explorer : Explorer

namespace RuleContext

def callView (context : RuleContext) (address : Address) (contract : Abi.Contract)
    (method : String) (inputs : List Abi.Value) : RuleJob (List Abi.Value) :=
  (context.fleet.callView address contract method inputs).adapt .fleet

/-- The interface that describes calls to an address. -/
def loadContract (context : RuleContext) (address : Address) : RuleJob Abi.Contract := do
  let info ← (context.fleet.proxyInfo address).adapt .fleet
  let text ← (context.explorer.lookup (info.source address)).adapt .abi
  match Abi.Contract.parse? text with
  | some contract => return contract
  | none => throw (.abi .unreadable)

end RuleContext

namespace Abi

def Value.firstNumber (outputs : List Value) : Except RuleFault Word :=
  match outputs.head? with
  | some (.uint word _) => .ok word
  | output => .error (.notNumber output)

def Value.itemNumber : Value → Except RuleFault Word
  | .uint word _ => .ok word
  | item => .error (.notNumberItem item)

def Value.firstNumbers (outputs : List Value) : Except RuleFault (List Word) :=
  match outputs.head? with
  | some (.array items) => items.mapM itemNumber
  | output => .error (.notList output)

/-- The data that calls an action: with the observed value if the action takes an input, without any
otherwise. -/
def Contract.encodeAction (contract : Contract) (method : String) (value : Word) :
    Except RuleFault Bytes :=
  match contract.action? method with
  | none => .error (.noAction method)
  | some function =>
    let inputs := if function.inputs.isEmpty then [] else [Value.uint value 256]
    match function.encodeCall? inputs with
    | none => .error (.badAction method)
    | some data => .ok data

end Abi

end ChainWatch
