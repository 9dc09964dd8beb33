import ChainWatch.Config.Decode
import ChainWatch.Text.Utf8

/-!
# Loading configurations

A configuration comes from a file, or without a file from the environment alone. Secrets in the
environment take the place of what the file says. Only valid configurations are loaded; one that cannot
be loaded anew leaves the one before in force.
-/

namespace ChainWatch

open Concurrency

/-- The variables of an environment, each once. -/
abbrev Environment := List (String × String)

inductive ConfigFile where
  | missing
  /-- Something is there that cannot be read. -/
  | unreadable
  | holding (content : Bytes)
  deriving DecidableEq, Repr

namespace Environment

def find? (env : Environment) (name : String) : Option String :=
  (List.find? (·.1 == name) env).map (·.2)

def fileName : String := "SENTINEL_CONFIG"

def urlsName : String := "SENTINEL_RPC_URLS"

def keyName : String := "SENTINEL_EXPLORER_API_KEY"

def heartbeatName : String := "SENTINEL_HEARTBEAT_URL"

def configPath (env : Environment) : String :=
  (env.find? fileName).getD "sentinel.toml"

end Environment

namespace Config

/-- Let the secrets of the environment take the place of what was configured. -/
def overlay (env : Environment) (config : Config) : Config :=
  { config with
    abi := { config.abi with
      explorerKey := (env.find? Environment.keyName).getD config.abi.explorerKey }
    cycle := { config.cycle with
      heartbeatUrl := (env.find? Environment.heartbeatName).getD config.cycle.heartbeatUrl } }

/-- A configuration under its environment, if it is valid then. -/
def finish (env : Environment) (config : Config) : Except ConfigFault Config :=
  match (config.overlay env).validate with
  | .ok _ => .ok (config.overlay env)
  | .error fault => .error fault

def load (env : Environment) : ConfigFile → Except ConfigFault Config
  | .missing => .error .unreadable
  | .unreadable => .error .unreadable
  | .holding content =>
    match Text.ofUtf8? content with
    | none => .error .unreadable
    | some text =>
      match parse? text with
      | none => .error .malformed
      | some config => config.finish env

/-- The addresses in a list with commas: the pieces that are not blank, without blanks around them. -/
def addresses (list : String) : List String :=
  ((Text.pieces ',' list.toList).map Text.trim).filter (· ≠ []) |>.map String.ofList

/-- Unmanaged nodes at some addresses, numbered from `first`. -/
def nodesAt : Nat → List String → List NodeEntry
  | _, [] => []
  | first, url :: rest =>
    ⟨s!"rpc-{first}", url, .unmanaged, none, NodeEntry.defaultResetMethod⟩ :: nodesAt (first + 1) rest

/-- The configuration of an environment alone: its addresses, and defaults for all else. -/
def ofEnvironment (env : Environment) : Except ConfigFault Config :=
  match env.find? Environment.urlsName with
  | none => .error (.missingVariable Environment.urlsName)
  | some list => (ofNodes (nodesAt 1 (addresses list))).finish env

/-- The configuration of the program: from the file if there is one, else from the environment. -/
def locate (env : Environment) : ConfigFile → Except ConfigFault Config
  | .missing => ofEnvironment env
  | file => load env file

/-- Read the file anew. What cannot be loaded leaves the current configuration in force; another chain
source, if there is one, is passed on to the fleet. -/
def reload (fleet : Fleet) (env : Environment) (current : Config) (file : ConfigFile) :
    Job Config :=
  match load env file with
  | .error _ => return current
  | .ok fresh => do
    if fresh.forkUrl != current.forkUrl && fresh.forkUrl != "" then
      fleet.repoint fresh.forkUrl
    return fresh

end Config

end ChainWatch
