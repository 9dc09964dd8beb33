import ChainWatch.Rule.Basic
import ChainWatch.Rule.Spec

/-!
# Threshold rules

A threshold rule reads one number and queues one transaction when the number has crossed a threshold.
-/

namespace ChainWatch

namespace ThresholdSpec

def actor (spec : ThresholdSpec) : Address :=
  spec.target.getD spec.contract

def context (spec : ThresholdSpec) (label : String) (value : Word) : String :=
  s!"{label}: {spec.method}={value.decimal} {spec.direction.name} {spec.threshold.decimal}"

/-- What identifies the decision: the rule and what it observed. -/
def decision (spec : ThresholdSpec) (label : String) (value : Word) : List String :=
  [label, spec.contract.checksum, spec.method, value.decimal]

def act (spec : ThresholdSpec) (value : Word) (data : Bytes) (box : Outbox) : Outbox :=
  let label := box.owner.label
  box.push (spec.context label value) (dedupKey (spec.decision label value))
    (.call spec.actor data)

/-- The transaction data for a value, if the value has crossed the threshold. -/
def observe (spec : ThresholdSpec) (context : RuleContext) : RuleJob (Option (Word × Bytes)) := do
  let contract ← context.loadContract spec.contract
  let outputs ← context.callView spec.contract contract spec.method []
  let value ← ExceptT.mk (pure (Abi.Value.firstNumber outputs))
  if !spec.direction.crossed value spec.threshold then
    return none
  let target ←
    if spec.actor = spec.contract then pure contract else context.loadContract spec.actor
  let data ← ExceptT.mk (pure (target.encodeAction spec.action value))
  return some (value, data)

def rule (spec : ThresholdSpec) (owner : RuleMeta) (context : RuleContext) : Rule where
  owner
  evaluate box := do
    match ← (spec.observe context).run with
    | .error fault => return (box, .error fault)
    | .ok none => return (box, .ok .completed)
    | .ok (some (value, data)) => return (spec.act value data box, .ok .completed)

end ThresholdSpec

end ChainWatch
