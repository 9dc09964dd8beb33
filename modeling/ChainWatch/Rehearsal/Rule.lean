import ChainWatch.Rule.Engine

/-!
# Scripted rules

Rules that read nothing: they wait, queue so many transactions to nobody and end as they are told.
-/

namespace ChainWatch.Rehearsal

open Concurrency

inductive RuleEnding where
  | push
  | idle
  | fail
  | panic
  deriving DecidableEq, Repr

namespace RuleEnding

def ofKind? : String → Option RuleEnding
  | "scripted_push" => some push
  | "scripted_idle" => some idle
  | "scripted_fail" => some fail
  | "scripted_panic" => some panic
  | _ => none

def result : RuleEnding → Except RuleFault RuleStatus
  | push => .ok .completed
  | idle => .ok .noCandidates
  | fail => .error (.stated "rule failed")
  | panic => .error .panicked

end RuleEnding

def fill (count : Nat) (box : Outbox) : Outbox :=
  let label := box.owner.label
  (List.range count).foldl
    (fun box i =>
      box.push s!"{label} #{i}" s!"{label}-{i}" { CallRequest.empty with recipient := some Address.zero })
    box

def rule (owner : RuleMeta) (delay count : Nat) (ending : RuleEnding) : Rule where
  owner
  evaluate box := do
    Activity.sleep (I := system) delay
    return (fill count box, ending.result)

/-- A factory that builds scripted rules where the entry asks for them. -/
def factory (standard : RuleFactory) : RuleFactory := fun entry =>
  match RuleEnding.ofKind? entry.kind with
  | none => standard entry
  | some ending =>
    let number (name : String) : Nat :=
      match entry.params with
      | .object members => ((Json.find? members name).bind Json.asUInt64).getD 0
      | _ => 0
    .ok (rule entry.stamp (number "delay_ms") (number "count") ending)

end ChainWatch.Rehearsal
