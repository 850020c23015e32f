import SessionPool.Config.Target
import SessionPool.Stress

/-!
# Command lines

A command line names a command and says which daemon is meant. Settings are written as
`--name=value`, or the value is an argument of its own; the settings of the target may stand on
either side of the command, those of the load only after it.
-/

namespace SessionPool

/-- What the tool is to do. -/
inductive Command where
  | probe
  | stress (load : Stress.Load)
  deriving DecidableEq, Repr

/-- A command line: how much to tell, which daemon is meant, and what to do. -/
structure CommandLine where
  verbosity : UInt8 := 0
  target : Target := {}
  command : Command
  deriving DecidableEq, Repr

/-- An option that takes a value. -/
inductive Setting where
  | config
  | host
  | port
  | domainId
  | connectTimeoutMs
  | workers
  | rounds
  deriving DecidableEq, Repr

/-- The command that a word stands for, before anything is known of its load. -/
inductive Verb where
  | probe
  | stress
  deriving DecidableEq, Repr

namespace Verb

def word : Verb → String
  | probe => "probe"
  | stress => "stress"

def all : List Verb := [probe, stress]

/-- The verb that is written in a given way. -/
def ofWord? (word : String) : Option Verb := all.find? (·.word == word)

end Verb

namespace Setting

/-- The name of a setting, without the hyphens. -/
def name : Setting → String
  | config => "config"
  | host => "host"
  | port => "port"
  | domainId => "domain-id"
  | connectTimeoutMs => "connect-timeout-ms"
  | workers => "workers"
  | rounds => "rounds"

/-- The letter that may stand for the name. -/
def letter? : Setting → Option Char
  | workers => some 'w'
  | rounds => some 'r'
  | _ => none

/-- The settings of a target. -/
def ofTarget : List Setting := [config, host, port, domainId, connectTimeoutMs]

/-- The settings of a load. -/
def ofLoad : List Setting := [workers, rounds]

/-- A setting and its value as one argument. -/
def argument (s : Setting) (value : String) : String := s!"--{s.name}={value}"

end Setting

/-- The settings of a target that are given, with their values. -/
def Target.settings (t : Target) : List (Setting × String) :=
  (t.config.map fun v => (.config, v)).toList ++
  (t.host.map fun v => (.host, v)).toList ++
  (t.port.map fun v => (.port, toString v)).toList ++
  (t.domainId.map fun v => (.domainId, toString v)).toList ++
  (t.connectTimeoutMs.map fun v => (.connectTimeoutMs, toString v)).toList

/-- Both settings of a load, with their values. -/
def Stress.Load.settings (l : Stress.Load) : List (Setting × String) :=
  [(.workers, toString l.workers), (.rounds, toString l.rounds)]

namespace Command

def verb : Command → Verb
  | probe => .probe
  | stress _ => .stress

/-- The settings of a command. -/
def settings : Command → List (Setting × String)
  | probe => []
  | stress load => load.settings

end Command

namespace CommandLine

/-- The arguments for some settings. -/
def writeSettings (settings : List (Setting × String)) : List String :=
  settings.map fun (s, value) => s.argument value

/-- The arguments that stand for a command line, everything but the verbosity after the command. -/
def arguments (c : CommandLine) : List String :=
  List.replicate c.verbosity.toNat "-v" ++ c.command.verb.word ::
    writeSettings (c.target.settings ++ c.command.settings)

end CommandLine

end SessionPool
