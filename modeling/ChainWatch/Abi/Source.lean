import ChainWatch.Json.Decode
import ChainWatch.Json.Parser
import ChainWatch.System
import ChainWatch.Text.Utf8

/-!
# Where interfaces come from

Interfaces that are not in the table are fetched from a block explorer and kept. Without an explorer the
table is all there is. Only texts that are interfaces enter the table.
-/

namespace ChainWatch

open Concurrency

/-- A block explorer. An empty base address means that there is none. -/
structure Explorer where
  base : String
  key : String
  deriving DecidableEq, Repr

namespace Explorer

def absent : Explorer := ⟨"", ""⟩

/-- The explorer at an address, from which slashes at the end are taken off. -/
def ofUrl (url key : String) : Explorer :=
  ⟨String.ofList (Text.trimEnd (· == '/') url.toList), key⟩

def url (explorer : Explorer) (a : Address) : String :=
  explorer.base ++ "?module=contract&action=getabi&address=" ++ a.checksum ++
    if explorer.key = "" then "" else "&apikey=" ++ explorer.key

open Json in
/-- The three texts of an explorer's answer: its status, a message and the result. -/
def envelope? (value : Json) : Option (String × String × String) := do
  match ← fields? .exact ["status", "message", "result"] value with
  | [status, message, result] =>
    some (← defaulted "" asString status, ← defaulted "" asString message,
      ← defaulted "" asString result)
  | _ => none

def readBody (a : Address) (body : Bytes) : Except AbiFault String :=
  match (Json.parse? (Text.ofUtf8 body)).bind envelope? with
  | none => .error .unreadable
  | some (status, message, result) =>
    if status ≠ "1" then .error (.rejected a (if result = "" then message else result))
    else if (Abi.Contract.parse? result).isSome then .ok result
    else .error .unreadable

def read (a : Address) : Http.Outcome → Except AbiFault String
  | .unreachable => .error .exchange
  | .replied reply => if reply.isSuccess then readBody a reply.body else .error (.status reply.status)

/-- The interface of a contract, from the table or from the explorer. -/
def lookup (explorer : Explorer) (a : Address) : ExceptT AbiFault Job String := do
  let state ← Activity.memory (I := system)
  match state.abis.find? a with
  | some text => return text
  | none =>
    if explorer.base = "" then throw (.notFound a)
    let outcome ← Activity.request (I := system) (.explore (explorer.url a))
    match read a outcome with
    | .error fault => throw fault
    | .ok text => do
      Activity.modify (I := system) fun state => { state with abis := state.abis.insert a text }
      return text

end Explorer

end ChainWatch
