import ChainWatch.Http.Status
import ChainWatch.Http.Url
import ChainWatch.Json.Decode
import ChainWatch.Json.Parser
import ChainWatch.System
import ChainWatch.Text.Utf8
import ChainWatch.Word.Text

/-!
# Nodes over JSON-RPC

How a request to a node is put as a method with parameters, and what the reply says. A refusal of the
node is told apart from an exchange that failed. Numbers are hexadecimal quantities.
-/

namespace ChainWatch

open Json

namespace ChainRequest

/-- The method that the request calls. The one for a reset depends on the node's software. -/
def method (resetMethod : String) : ChainRequest → String
  | blockNumber => "eth_blockNumber"
  | call _ _ => "eth_call"
  | storage _ _ => "eth_getStorageAt"
  | reset _ => resetMethod

/-- The parameters; null when there are none. -/
def params : ChainRequest → Json
  | blockNumber => .null
  | call target data =>
    .array [.object [("to", .string target.toHex), ("input", .string (Bytes.toHex data))],
      .string "pending"]
  | storage address slot =>
    .array [.string address.toHex, .string (Word.quantity slot.toNat), .string "latest"]
  | reset source =>
    .array [.object [("forking", .object [("jsonRpcUrl", .string source)])]]

end ChainRequest

namespace JsonRpc

/-- A refusal: its code and its message, which may be missing. -/
def refusal? (value : Json) : Option NodeFault := do
  match ← fields? .exact ["code", "message"] value with
  | [code, message] =>
    match ← code with
    | .number (.integer code) =>
      if isSigned code then some (.rpc code (← defaulted "" asString message)) else none
    | _ => none
  | _ => none

def readBody (body : Bytes) : Except NodeFault Json :=
  match Json.parse? (Text.ofUtf8 body) with
  | some (.object members) =>
    match member? members "result", member? members "error" with
    | some (some result), some none => .ok result
    | some none, some (some error) => .error ((refusal? error).getD .exchange)
    | _, _ => .error .exchange
  | _ => .error .exchange

def value? (request : ChainRequest) (result : Json) : Option request.Value :=
  match request with
  | .blockNumber => Word.ofQuantityBelow? UInt64.size result
  | .call _ _ => Bytes.ofJson? result
  | .storage _ _ => (Word.ofQuantityBelow? Word.size result).map (BitVec.ofNat 256)
  | .reset _ => some ()

/-- The refusal in the reply to a reset, if there is one; its result does not matter. -/
def resetRefusal? (body : Bytes) : Option (Option NodeFault) := do
  let value ← Json.parse? (Text.ofUtf8 body)
  match ← fields? .exact ["error"] value with
  | [error] => defaulted none (nullable refusal?) error
  | _ => none

def readReset : Http.Outcome → Except NodeFault Unit
  | .unreachable => .error (.transport "reset request failed")
  | .replied reply =>
    if !reply.isSuccess then
      .error (.transport s!"reset returned status {Http.statusText reply.status}")
    else
      match resetRefusal? reply.body with
      | none => .error (.transport "reset reply unreadable")
      | some none => .ok ()
      | some (some fault) => .error fault

def read (request : ChainRequest) (outcome : Http.Outcome) : Except NodeFault request.Value :=
  match request with
  | .reset _ => readReset outcome
  | .blockNumber => readAnswer .blockNumber outcome
  | .call target data => readAnswer (.call target data) outcome
  | .storage address slot => readAnswer (.storage address slot) outcome
where
  readAnswer (request : ChainRequest) : Http.Outcome → Except NodeFault request.Value
    | .unreachable => .error .exchange
    | .replied reply =>
      if !reply.isSuccess then .error .exchange
      else
        match readBody reply.body with
        | .error fault => .error fault
        | .ok result =>
          match value? request result with
          | some value => .ok value
          | none => .error .exchange

/-- Whether a text is the address of a machine and a number behind a colon, without a scheme. -/
def isSocket (text : List Char) : Bool :=
  match text.reverse.span Char.isDigit with
  | (digits, ':' :: front) =>
    let host := front.reverse
    let fits := match Text.decimal? digits.reverse with
      | some n => n < 65536
      | none => false
    let bracketed := match host with
      | '[' :: inner => inner.getLast? = some ']' && Http.Url.isV6 inner.dropLast
      | _ => false
    fits && (Http.Url.isDottedQuad host || bracketed)
  | _ => false

/-- The address of a node. The scheme may be left out before `localhost` and before a number. -/
def url? (text : String) : Option Http.Url :=
  let chars := text.toList
  if "localhost:".toList.isPrefixOf chars || isSocket chars then Http.Url.ofText? ("http://" ++ text)
  else Http.Url.ofText? text

end JsonRpc

end ChainWatch
