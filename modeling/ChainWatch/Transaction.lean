import ChainWatch.Address

/-!
# Outbound transactions

A rule that decides to act describes the transaction it wants sent. Signing and sending are done
elsewhere; the key lets the receiver recognise a decision it has seen before.
-/

namespace ChainWatch

/-- How pressing a transaction is, in rising order. -/
inductive Urgency where
  | low
  | medium
  | high
  | critical
  deriving DecidableEq, Repr

namespace Urgency

instance : Inhabited Urgency := ⟨medium⟩

def name : Urgency → String
  | low => "low"
  | medium => "medium"
  | high => "high"
  | critical => "critical"

def ofName? : String → Option Urgency
  | "low" => some low
  | "medium" => some medium
  | "high" => some high
  | "critical" => some critical
  | _ => none

def rank : Urgency → Nat
  | low => 0
  | medium => 1
  | high => 2
  | critical => 3

instance : Ord Urgency := ⟨fun a b => compare a.rank b.rank⟩

@[simp] theorem ofName?_name (u : Urgency) : ofName? u.name = some u := by
  cases u <;> rfl

end Urgency

/-- What a transaction shall do. Parts left open are filled in by whoever sends it. -/
structure CallRequest where
  sender : Option Address
  recipient : Option Address
  gas : Option UInt64
  value : Option Word
  input : Option Bytes
  data : Option Bytes
  nonce : Option UInt64
  chainId : Option UInt64
  deriving DecidableEq, Repr

namespace CallRequest

def empty : CallRequest := ⟨none, none, none, none, none, none, none, none⟩

def call (recipient : Address) (input : Bytes) : CallRequest :=
  { empty with recipient := some recipient, input := some input }

end CallRequest

structure OutboundTransaction where
  urgency : Urgency
  executor : String
  /-- The decision in words. -/
  context : String
  dedupKey : String
  ttlSeconds : UInt64
  request : CallRequest
  deriving DecidableEq, Repr

/-- The text that stands for a decision: its parts with a unit separator between them. -/
def decisionText (parts : List String) : String :=
  String.intercalate "\x1f" parts

def dedupKey (parts : List String) : String :=
  (Keccak.digest (Bytes.ofString (decisionText parts))).toHex

end ChainWatch
