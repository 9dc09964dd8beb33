import ChainWatch.Config.Basic
import ChainWatch.Toml.Parser

/-!
# Configurations as TOML

The tables and keys of a configuration file. Unknown keys are ignored; of the known ones only the nodes
must be given.
-/

namespace ChainWatch

open Json

def given? (names : List String) (value : Json) : Option (List (Option Json)) :=
  fields? .tolerant names value

namespace ContainerEntry

def portNumber? (value : Json) : Option PortNumber :=
  (asNatBelow 65536 value).map UInt16.ofNat

def binding? (value : Json) : Option PortBinding := do
  match ← given? ["host", "container"] value with
  | [host, container] => some ⟨← required portNumber? host, ← required portNumber? container⟩
  | _ => none

def ofJson? (value : Json) : Option ContainerEntry := do
  match ← given? ["image", "name", "ports", "args"] value with
  | [image, name, ports, args] =>
    some {
      image := ← required asString image
      name := ← defaulted none (nullable asString) name
      ports := ← defaulted [] (asList binding?) ports
      args := ← defaulted [] (asList asString) args }
  | _ => none

end ContainerEntry

namespace NodeEntry

def ofJson? (value : Json) : Option NodeEntry := do
  match ← given? ["name", "rpc_url", "role", "container", "reset_method"] value with
  | [name, rpcUrl, role, container, resetMethod] =>
    some {
      name := ← required asString name
      rpcUrl := ← required asString rpcUrl
      kind := ← defaulted .unmanaged (asChoice .tolerant NodeKind.ofName?) role
      container := ← defaulted none (nullable ContainerEntry.ofJson?) container
      resetMethod := ← defaulted defaultResetMethod asString resetMethod }
  | _ => none

end NodeEntry

namespace EndpointTuning

def ofJson? (value : Json) : Option EndpointTuning := do
  match ← given? ["readiness_attempts", "readiness_interval_ms", "recovery_backoff_ms"] value with
  | [attempts, interval, backoff] =>
    some {
      readinessAttempts := ← defaulted default.readinessAttempts (asNatBelow UInt32.size) attempts
      readinessInterval := ← defaulted default.readinessInterval asUInt64 interval
      recoveryBackoff := ← defaulted default.recoveryBackoff asUInt64 backoff }
  | _ => none

end EndpointTuning

namespace CycleEntry

def ofJson? (value : Json) : Option CycleEntry := do
  match ← given? ["interval_secs", "heartbeat_url", "queue_path", "fan_out_concurrency"] value with
  | [interval, heartbeatUrl, queuePath, fanOut] =>
    some {
      interval := ← defaulted default.interval asUInt64 interval
      heartbeatUrl := ← defaulted default.heartbeatUrl asString heartbeatUrl
      queuePath := ← defaulted default.queuePath asString queuePath
      fanOut := ← defaulted default.fanOut asUInt64 fanOut }
  | _ => none

end CycleEntry

namespace AbiEntry

def asTexts : Decoder (List (String × String))
  | .object members => members.mapM fun (name, value) => (asString value).map fun text => (name, text)
  | _ => none

def ofJson? (value : Json) : Option AbiEntry := do
  match ← given? ["explorer_url", "explorer_api_key", "inline"] value with
  | [explorerUrl, explorerKey, inline] =>
    some {
      explorerUrl := ← defaulted "" asString explorerUrl
      explorerKey := ← defaulted "" asString explorerKey
      inline := ← defaulted [] asTexts inline }
  | _ => none

end AbiEntry

namespace LoggingEntry

def ofJson? (value : Json) : Option LoggingEntry := do
  match ← given? ["level", "json"] value with
  | [level, json] =>
    some {
      level := ← defaulted default.level asString level
      json := ← defaulted default.json asBool json }
  | _ => none

end LoggingEntry

namespace Config

def forkUrl? (value : Json) : Option String := do
  match ← given? ["fork_url"] value with
  | [forkUrl] => defaulted "" asString forkUrl
  | _ => none

def ofJson? (value : Json) : Option Config := do
  match ← given? ["nodes", "endpoint", "upstream", "cycle", "abi", "rules", "logging"] value with
  | [nodes, endpoint, fork, cycle, abi, rules, logging] =>
    some {
      nodes := ← required (asList NodeEntry.ofJson?) nodes
      endpoint := ← defaulted .default EndpointTuning.ofJson? endpoint
      forkUrl := ← defaulted "" forkUrl? fork
      cycle := ← defaulted .default CycleEntry.ofJson? cycle
      abi := ← defaulted .default AbiEntry.ofJson? abi
      rules := ← defaulted [] (asList (RuleEntry.decode .tolerant)) rules
      logging := ← defaulted .default LoggingEntry.ofJson? logging }
  | _ => none

/-- The configuration that a text describes, valid or not. -/
def parse? (text : String) : Option Config :=
  (Toml.parse? text).bind ofJson?

end Config

end ChainWatch
