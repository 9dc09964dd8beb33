import ChainWatch.Rule.Entry
import ChainWatch.Word.Text

/-!
# What a rule watches for

The parameters of the two kinds of rules. A threshold is given as an integer of 64 bits or as text; of
the text only the digits count, and a text without digits denotes zero.
-/

namespace ChainWatch

open Json

/-- On which side of the threshold a reading triggers. -/
inductive Direction where
  | above
  | below
  deriving DecidableEq, Repr

namespace Direction

def name : Direction → String
  | above => "above"
  | below => "below"

def ofName? : String → Option Direction
  | "above" => some above
  | "below" => some below
  | _ => none

/-- A reading on the threshold itself does not trigger. -/
def crossed (direction : Direction) (value threshold : Word) : Bool :=
  match direction with
  | above => threshold.toNat < value.toNat
  | below => value.toNat < threshold.toNat

end Direction

structure ThresholdSpec where
  contract : Address
  /-- A view without arguments that answers a number. -/
  method : String
  threshold : Word
  direction : Direction
  /-- The contract to call when triggered; `contract` itself when open. -/
  target : Option Address
  action : String
  deriving DecidableEq, Repr

namespace ThresholdSpec

def threshold? : Decoder Word
  | .string text => Word.ofText? (Text.trim text.toList)
  | value => (asUInt64 value).map (BitVec.ofNat 256)

def fieldNames : List String :=
  ["contract", "method", "threshold", "direction", "target", "action"]

def ofJson? (value : Json) : Option ThresholdSpec := do
  match ← fields? .exact fieldNames value with
  | [contract, method, threshold, direction, target, action] =>
    some {
      contract := ← required Address.ofJson? contract
      method := ← required asString method
      threshold := ← required threshold? threshold
      direction := ← defaulted .above (asChoice .exact Direction.ofName?) direction
      target := ← defaulted none (nullable Address.ofJson?) target
      action := ← required asString action }
  | _ => none

end ThresholdSpec

structure SweepSpec where
  contract : Address
  /-- A view without arguments that answers the candidates' numbers. -/
  listMethod : String
  /-- A view that takes a candidate and answers whether it passes. -/
  checkMethod : String
  /-- The function to call once per passing candidate. -/
  action : String
  /-- The contract to call it on; `contract` itself when open. -/
  target : Option Address
  /-- How many checks may run at a time. -/
  concurrency : Option Nat
  deriving DecidableEq, Repr

namespace SweepSpec

def fieldNames : List String :=
  ["contract", "list_method", "check_method", "action", "target", "concurrency"]

def ofJson? (value : Json) : Option SweepSpec := do
  match ← fields? .exact fieldNames value with
  | [contract, listMethod, checkMethod, action, target, concurrency] =>
    some {
      contract := ← required Address.ofJson? contract
      listMethod := ← required asString listMethod
      checkMethod := ← required asString checkMethod
      action := ← required asString action
      target := ← defaulted none (nullable Address.ofJson?) target
      concurrency := ← defaulted none (nullable asUInt64) concurrency }
  | _ => none

end SweepSpec

end ChainWatch
