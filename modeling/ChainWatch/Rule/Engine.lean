import ChainWatch.Rule.Sweep
import ChainWatch.Rule.Threshold

/-!
# Evaluating rules

A factory builds rules from their entries. The rules of a cycle are evaluated side by side; what the
successful ones queued is collected in rule order, and a rule that fails contributes nothing.
-/

namespace ChainWatch

open Concurrency

inductive FactoryFault where
  | unknownKind (kind label : String)
  | invalidParams (label : String)
  deriving DecidableEq, Repr

namespace FactoryFault

def message? : FactoryFault → Option String
  | unknownKind kind label => some s!"unknown rule kind {Text.quoted kind} for rule {label}"
  | invalidParams _ => none

end FactoryFault

abbrev RuleFactory := RuleEntry → Except FactoryFault Rule

/-- The factory of the kinds there are. Sweeps that set no limit of their own take the default. -/
def RuleFactory.standard (context : RuleContext) (defaultLimit : Nat) : RuleFactory := fun entry =>
  match RuleKind.ofName? entry.kind with
  | none => .error (.unknownKind entry.kind entry.label)
  | some .viewThreshold =>
    match ThresholdSpec.ofJson? entry.params with
    | none => .error (.invalidParams entry.label)
    | some spec => .ok (spec.rule entry.stamp context)
  | some .positionSweep =>
    match SweepSpec.ofJson? entry.params with
    | none => .error (.invalidParams entry.label)
    | some spec =>
      .ok (spec.rule entry.stamp (Batch.limit (spec.concurrency.getD defaultLimit)) context)

/-- The rules that can be built, in the order of their entries. -/
def RuleFactory.load (factory : RuleFactory) (entries : List RuleEntry) : List Rule :=
  entries.filterMap fun entry => (factory entry).toOption

structure CycleReport where
  succeeded : Nat
  failed : Nat
  /-- How many of the successful rules had nothing to examine. -/
  idle : Nat
  transactions : List OutboundTransaction
  deriving DecidableEq, Repr

namespace CycleReport

def empty : CycleReport := ⟨0, 0, 0, []⟩

/-- Add a rule's outcome. The outbox of a failed rule is dropped. -/
def add (report : CycleReport) : Outbox × Except RuleFault RuleStatus → CycleReport
  | (box, .ok status) =>
    { report with
      succeeded := report.succeeded + 1
      idle := if status = .noCandidates then report.idle + 1 else report.idle
      transactions := (box.drainInto report.transactions).2.2 }
  | (_, .error _) => { report with failed := report.failed + 1 }

def ofOutcomes (outcomes : List (Outbox × Except RuleFault RuleStatus)) : CycleReport :=
  outcomes.foldl add empty

end CycleReport

/-- Evaluate rules side by side, each with an outbox of its own. -/
def Rule.evaluateAll (rules : List Rule) : Job CycleReport := do
  let outcomes ← Activity.joinAll (rules.map fun rule => rule.evaluate (.empty rule.owner))
  return CycleReport.ofOutcomes outcomes

/-- A factory, and the rules that were built for the next evaluation. -/
structure RuleEngine where
  factory : RuleFactory
  rules : List Rule

namespace RuleEngine

def new (factory : RuleFactory) : RuleEngine := ⟨factory, []⟩

def loaded (engine : RuleEngine) : Nat := engine.rules.length

/-- Replace the loaded rules by those that can be built. -/
def load (engine : RuleEngine) (entries : List RuleEntry) : RuleEngine :=
  { engine with rules := engine.factory.load entries }

/-- Take the loaded rules out of the engine, and evaluate them. -/
def evaluateAndCollect (engine : RuleEngine) : RuleEngine × Job CycleReport :=
  ({ engine with rules := [] }, Rule.evaluateAll engine.rules)

end RuleEngine

end ChainWatch
