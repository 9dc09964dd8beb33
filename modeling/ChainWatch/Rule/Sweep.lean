import ChainWatch.Rule.Basic
import ChainWatch.Rule.Batch
import ChainWatch.Rule.Spec

/-!
# Sweep rules

A sweep rule lists candidates, checks each of them, so many at a time, and queues one transaction for
each that passes. Checks may fail one by one; only if all of them fail the rule fails.
-/

namespace ChainWatch

namespace SweepSpec

def actor (spec : SweepSpec) : Address :=
  spec.target.getD spec.contract

def context (spec : SweepSpec) (label : String) (id : Word) : String :=
  s!"{label}: {spec.action} id {id.decimal}"

/-- What identifies the decision: the rule and the candidate. -/
def decision (spec : SweepSpec) (label : String) (id : Word) : List String :=
  [label, spec.contract.checksum, id.decimal]

/-- Check a candidate: it passes or does not, or the check fails. -/
def check (spec : SweepSpec) (context : RuleContext) (contract : Abi.Contract) (id : Word) :
    RuleJob (Word × Bool) := do
  let outputs ← context.callView spec.contract contract spec.checkMethod [.uint id 256]
  match outputs.head? with
  | some (.bool passed) => return (id, passed)
  | output =>
    throw (.stated s!"{spec.checkMethod} returned {Abi.Value.optionText output} for id {id.decimal}")

def passing (outcome : BatchOutcome (Word × Bool)) : List Word :=
  (outcome.succeeded.filter (·.2)).map (·.1)

/-- Queue one transaction per candidate. A candidate whose call cannot be encoded ends the rule; what
was queued before stays in the outbox. -/
def act (spec : SweepSpec) (target : Abi.Contract) :
    List Word → Outbox → Outbox × Except RuleFault RuleStatus
  | [], box => (box, .ok .completed)
  | id :: rest, box =>
    match target.encodeAction spec.action id with
    | .error fault => (box, .error fault)
    | .ok data =>
      let label := box.owner.label
      act spec target rest <|
        box.push (spec.context label id) (dedupKey (spec.decision label id)) (.call spec.actor data)

/-- The candidates that pass and the interface to call the action by; none if there are no candidates. -/
def observe (spec : SweepSpec) (limit : Nat) (context : RuleContext) :
    RuleJob (Option (List Word × Abi.Contract)) := do
  let contract ← context.loadContract spec.contract
  let outputs ← context.callView spec.contract contract spec.listMethod []
  let ids ← ExceptT.mk (pure (Abi.Value.firstNumbers outputs))
  if ids.isEmpty then
    return none
  let checks := ids.map fun id => (spec.check context contract id).run
  match ← ExceptT.lift (Batch.run? limit checks) with
  | none => throw .panicked
  | some outcome =>
    if outcome.allFailed then
      throw (.allChecksFailed outcome.failed)
    let target ←
      if spec.actor = spec.contract then pure contract else context.loadContract spec.actor
    return some (passing outcome, target)

def rule (spec : SweepSpec) (owner : RuleMeta) (limit : Nat) (context : RuleContext) : Rule where
  owner
  evaluate box := do
    match ← (spec.observe limit context).run with
    | .error fault => return (box, .error fault)
    | .ok none => return (box, .ok .noCandidates)
    | .ok (some (ids, target)) => return spec.act target ids box

end SweepSpec

end ChainWatch
