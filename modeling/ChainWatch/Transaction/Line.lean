import ChainWatch.Transaction
import ChainWatch.Json.Decode
import ChainWatch.Json.Parser
import ChainWatch.Json.Printer
import ChainWatch.Word.Text

/-!
# Transactions as JSON

A transaction is written as one line of compact JSON. Numbers are hexadecimal quantities without
leading zeros, bytes hexadecimal text; parts left open are not written.
-/

namespace ChainWatch

open Json

/-- A member that is written only when it is given. -/
def openMember {α : Type} (name : String) (encode : α → Json) : Option α → List (String × Json)
  | none => []
  | some value => [(name, encode value)]

namespace CallRequest

def toJson (r : CallRequest) : Json :=
  let hex (a : Address) : Json := .string a.toHex
  let bytes (b : Bytes) : Json := .string b.toHex
  let count (n : UInt64) : Json := .string (Word.quantity n.toNat)
  .object <|
    openMember "from" hex r.sender ++ openMember "to" hex r.recipient ++ openMember "gas" count r.gas ++
    openMember "value" (fun w : Word => .string (Word.quantity w.toNat)) r.value ++
    openMember "input" bytes r.input ++ openMember "data" bytes r.data ++
    openMember "nonce" count r.nonce ++ openMember "chainId" count r.chainId

def openField? {α : Type} (members : List (String × Json)) (name : String) (decode : Decoder α) :
    Option (Option α) :=
  (member? members name).bind (defaulted none (nullable decode))

def ofJson? : Json → Option CallRequest
  | .object members => do
    let count : Decoder UInt64 := fun j => (Word.ofQuantityBelow? UInt64.size j).map UInt64.ofNat
    let value : Decoder Word := fun j => (Word.ofQuantityBelow? Word.size j).map (BitVec.ofNat 256)
    some {
      sender := ← openField? members "from" Address.ofJson?
      recipient := ← openField? members "to" Address.ofJson?
      gas := ← openField? members "gas" count
      value := ← openField? members "value" value
      input := ← openField? members "input" Bytes.ofJson?
      data := ← openField? members "data" Bytes.ofJson?
      nonce := ← openField? members "nonce" count
      chainId := ← openField? members "chainId" count }
  | _ => none

end CallRequest

namespace OutboundTransaction

def toJson (tx : OutboundTransaction) : Json :=
  .object [
    ("urgency", .string tx.urgency.name),
    ("executor", .string tx.executor),
    ("context", .string tx.context),
    ("dedup_key", .string tx.dedupKey),
    ("ttl_seconds", .ofNat tx.ttlSeconds.toNat),
    ("raw_transaction", tx.request.toJson)]

def fieldNames : List String :=
  ["urgency", "executor", "context", "dedup_key", "ttl_seconds", "raw_transaction"]

def ofJson? (value : Json) : Option OutboundTransaction := do
  match ← fields? .exact fieldNames value with
  | [urgency, executor, context, dedupKey, ttlSeconds, request] =>
    some {
      urgency := ← required (asChoice .exact Urgency.ofName?) urgency
      executor := ← required asString executor
      context := ← required asString context
      dedupKey := ← required asString dedupKey
      ttlSeconds := UInt64.ofNat (← required asUInt64 ttlSeconds)
      request := ← required CallRequest.ofJson? request }
  | _ => none

def line (tx : OutboundTransaction) : List Char :=
  tx.toJson.render

def ofLine? (line : String) : Option OutboundTransaction :=
  (Json.parse? line).bind ofJson?

end OutboundTransaction

end ChainWatch
