import ChainWatch.Text.Blank

/-!
# Signals

What the outside is told about a cycle: that it starts and ends, how long it took, and that the whole
fleet is down. A health-check service takes them as requests to addresses under one base.
-/

namespace ChainWatch

inductive CycleStage where
  | start
  | finish
  deriving DecidableEq, Repr

inductive Signal where
  | heartbeat (stage : CycleStage)
  | criticalFailure (reason : String)
  | cycleCompleted (elapsed : Nat)
  deriving DecidableEq, Repr

namespace CycleStage

def name : CycleStage → String
  | start => "start"
  | finish => "end"

end CycleStage

namespace Signal

/-- The signal in words; times are milliseconds. -/
def text : Signal → String
  | heartbeat stage => s!"Heartbeat({stage.name})"
  | criticalFailure reason => s!"CriticalFailure({reason})"
  | cycleCompleted elapsed => s!"CycleCompleted({elapsed}ms)"

/-- Where a signal goes, and what is posted there; without a body it is fetched. -/
structure Route where
  url : String
  body : Option String
  deriving DecidableEq, Repr

def base (url : String) : String :=
  String.ofList (Text.trimEnd (· == '/') url.toList)

/-- The request that delivers a signal to the service under a base without a slash at its end. A
completed cycle is not reported. -/
def route (base : String) : Signal → Option Route
  | heartbeat .start => some ⟨base ++ "/start", none⟩
  | heartbeat .finish => some ⟨base, none⟩
  | criticalFailure reason => some ⟨base ++ "/fail", some reason⟩
  | cycleCompleted _ => none

end Signal

end ChainWatch
