import ChainWatch.Config.Build
import ChainWatch.Config.Load
import ChainWatch.Cycle

/-!
# The watch as a whole

What the program sets up before its first cycle, and what it does in each: read the configuration anew,
then run a cycle with its rules.
-/

namespace ChainWatch

namespace Config

def engineIn (config : Config) (context : RuleContext) : RuleEngine :=
  (RuleEngine.new (.standard context config.cycle.fanOut)).load config.rules

def runCycle (config : Config) (context : RuleContext) : Job CycleReport :=
  Cycle.run context.fleet (config.engineIn context)

end Config

inductive StartFault where
  | config (fault : ConfigFault)
  | build (fault : BuildFault)
  | abi (fault : AbiFault)
  deriving DecidableEq, Repr

namespace StartFault

def message? : StartFault → Option String
  | config fault => fault.message?
  | build fault => fault.message?
  | abi fault => fault.message?

end StartFault

/-- A program that has started: its configuration, and what its rules work with. -/
structure Watch where
  config : Config
  context : RuleContext
  initial : State

namespace Watch

def start (env : Environment) (file : ConfigFile) : Except StartFault Watch := do
  let config ← (Config.locate env file).mapError .config
  let fleet ← config.buildFleet.mapError .build
  let abis ← config.inlineAbis.mapError .abi
  return ⟨config, ⟨fleet, config.explorer⟩, .initial config.forkUrl abis⟩

/-- One turn of the program: the configuration in force afterwards. -/
def turn (watch : Watch) (env : Environment) (file : ConfigFile) (current : Config) : Job Config := do
  let config ← Config.reload watch.context.fleet env current file
  let _ ← config.runCycle watch.context
  return config

end Watch

end ChainWatch
