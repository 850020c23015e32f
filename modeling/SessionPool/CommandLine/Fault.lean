/-!
# Command lines that are not carried out

Either something is wrong with the arguments, or they ask for the help or the version instead of a
command.
-/

namespace SessionPool.CommandLine

/-- Why a command line is not carried out. -/
inductive Fault where
  /-- The help is wanted. -/
  | help
  /-- The version is wanted. -/
  | version
  /-- Nothing is given at all. -/
  | noArguments
  /-- Options are given, but no command. -/
  | noCommand
  /-- A word stands where a command is wanted, and is none. -/
  | unknownCommand
  /-- An option or a word that is not known at its place. -/
  | unknownArgument
  /-- A setting without a value, or with an empty one where there has to be something. -/
  | noValue
  /-- A value that is not a number in the range of its setting. -/
  | badValue
  /-- A value for an option that takes none. -/
  | excessValue
  /-- A setting is given twice on one side of the command. -/
  | repeated
  deriving DecidableEq, Repr

namespace Fault

/-- Whether this is what the caller wanted, and no mistake. -/
def isRequest : Fault → Bool
  | help | version => true
  | _ => false

/-- What the tool exits with. -/
def exitCode (f : Fault) : UInt8 := if f.isRequest then 0 else 2

def message : Fault → String
  | help => "Usage: hpi-pool [OPTIONS] probe | stress [-w WORKERS] [-r ROUNDS]"
  | version => "hpi-pool 1.0.0"
  | noArguments => "nothing to do; try --help"
  | noCommand => "a command is missing"
  | unknownCommand => "no such command"
  | unknownArgument => "unexpected argument"
  | noValue => "an option needs a value"
  | badValue => "a value is not a number in range"
  | excessValue => "an option takes no value"
  | repeated => "an option is given more than once"

end Fault

end SessionPool.CommandLine
