import ChainWatch.Json.Decode
import ChainWatch.Transaction.Outbox

/-!
# Rule entries

A rule as it is configured: of which kind, under which label, how its transactions are stamped, and
parameters that only its kind understands.
-/

namespace ChainWatch

open Json

structure RuleEntry where
  kind : String
  label : String
  urgency : Urgency
  executor : String
  ttlSeconds : UInt64
  params : Json

inductive RuleKind where
  /-- Read one number and act when it crosses a threshold. -/
  | viewThreshold
  /-- List candidates, check each and act on those that pass. -/
  | positionSweep
  deriving DecidableEq, Repr

namespace RuleKind

def ofName? : String → Option RuleKind
  | "view_threshold" => some viewThreshold
  | "position_sweep" => some positionSweep
  | _ => none

end RuleKind

namespace RuleEntry

/-- The lifetime of a transaction when the entry names none, in seconds. -/
def defaultTtl : UInt64 := 300

def fieldNames : List String :=
  ["kind", "label", "urgency", "executor", "ttl_seconds", "params"]

def decode (style : RecordStyle) (value : Json) : Option RuleEntry := do
  match ← fields? style fieldNames value with
  | [kind, label, urgency, executor, ttlSeconds, params] =>
    some {
      kind := ← required asString kind
      label := ← required asString label
      urgency := ← defaulted .medium (asChoice style Urgency.ofName?) urgency
      executor := ← defaulted "" asString executor
      ttlSeconds := ← defaulted defaultTtl (fun v => (asUInt64 v).map UInt64.ofNat) ttlSeconds
      params := (params.getD .null).canonical }
  | _ => none

def ofJson? : Decoder RuleEntry := decode .exact

def stamp (entry : RuleEntry) : RuleMeta :=
  ⟨entry.label, entry.urgency, entry.executor, entry.ttlSeconds⟩

end RuleEntry

end ChainWatch
