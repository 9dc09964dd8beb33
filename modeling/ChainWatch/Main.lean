import ChainWatch.Concurrency.Run
import ChainWatch.Config.EnvFile
import ChainWatch.Offline
import ChainWatch.Watch

/-!
# The command line

`main` reads the environment and the files, starts a watch, and takes a turn of it at every interval.
This build reaches no network and runs no commands: its nodes count as silent.
-/

namespace ChainWatch.CommandLine

open Concurrency

def environment : IO Environment := do
  let names := [Environment.fileName, Environment.urlsName, Environment.keyName,
    Environment.heartbeatName]
  names.filterMapM fun name => do
    return (← IO.getEnv name).map fun value => (name, value)

/-- The environment with the variables of the file `.env`, if there is one. -/
def extendedEnvironment : IO Environment := do
  let env ← environment
  try
    return EnvFile.load env (← IO.FS.readFile ".env")
  catch _ =>
    return env

def configFile (path : String) : IO ConfigFile := do
  try
    return .holding (← IO.FS.readBinFile path).toList
  catch
    | .noFileOrDirectory .. => return .missing
    | _ => return .unreadable

/-- Append a transaction to the queue; a queue that cannot be opened goes without. -/
def enqueue (path : String) (tx : OutboundTransaction) : IO Unit := do
  try
    let queue ← IO.FS.Handle.mk path .append
    queue.putStr (String.ofList (tx.line ++ ['\n']))
  catch _ =>
    return

/-- Take a turn, queue its transactions, wait for the rest of the interval, and go on. -/
partial def turns (watch : Watch) (env : Environment) (config : Config) (state : State) : IO Unit := do
  let file ← configFile env.configPath
  let ending := (watch.turn env file config).run (Offline.handler fun _ => none) 0 ⟨state, .empty⟩
  ending.world.outside.queued.forM (enqueue watch.config.cycle.queuePath)
  let interval := 1000 * max 1 watch.config.cycle.interval
  IO.sleep (UInt32.ofNat (min 0xFFFFFFFF (max ending.time interval)))
  turns watch env (ending.value?.getD config) ending.world.memory

/-- Run the program; the value is its exit code. -/
def run : IO UInt32 := do
  let env ← extendedEnvironment
  match Watch.start env (← configFile env.configPath) with
  | .error fault =>
    IO.eprintln ("Error: " ++ fault.message?.getD "the configuration cannot be used")
    return 1
  | .ok watch =>
    turns watch env watch.config watch.initial
    return 0

end ChainWatch.CommandLine

def main : IO UInt32 :=
  ChainWatch.CommandLine.run
