import SessionPool.Tcp.Loopback
import SessionPool.Tool

/-!
# The command line program

Hands the arguments, the environment and the configuration file to the tool, and prints what comes
of it. The machine has a network on which nobody listens.
-/

namespace SessionPool.Main

/-- The obstacle with a number of the operating system, which may come negated. -/
def obstacle (details : String) (code : UInt32) : Files.Fault :=
  let number := if code < 0x80000000 then code else 0 - code
  match number.toNat with
  | 2 => .notFound
  | 20 => .notDirectory
  | 21 => .isDirectory
  | 36 => .nameTooLong
  | _ => .other details number

/-- What kept a file from being read. -/
def fault : IO.Error → Files.Fault
  | .noFileOrDirectory _ code details => obstacle details code
  | .permissionDenied _ code details => obstacle details code
  | .inappropriateType _ code details => obstacle details code
  | .invalidArgument _ code details => obstacle details code
  | e => .other (toString e) 0

/-- The content of a file. -/
def readFile (path : String) : IO (Except Files.Fault (List UInt8)) := do
  try
    return .ok (← IO.FS.readBinFile path).toList
  catch e =>
    return .error (fault e)

/-- The only file that the tool may look at: the configuration that the arguments name. -/
def files (arguments : List String) : IO Files.Tree := do
  match CommandLine.ofArguments arguments with
  | .ok { target := { config := some path, .. }, .. } =>
    let content ← readFile path
    return fun _ => content
  | _ => return fun _ => .error .notFound

/-- The variables that the tool may look at. -/
def environment : IO Environment := do
  let found ← [Config.hostVariable, Config.portVariable].mapM fun name => do
    return (← IO.getEnv name).map fun value => (name, Text.encode value.toList)
  return found.filterMap id

end SessionPool.Main

open SessionPool

/-- Runs the tool. It exits with 0 after a report, a help text or the version, with 2 when the
arguments make no sense, and with 1 after any other error. -/
def main (arguments : List String) : IO UInt32 := do
  let files ← Main.files arguments
  let environment ← Main.environment
  match (Tool.run [] files environment arguments ({} : Tcp.Loopback)).1 with
  | .ok text =>
    IO.println text
    return 0
  | .error (.usage fault) =>
    if fault.isRequest then IO.println fault.message
    else IO.eprintln s!"error: {fault.message}"
    return fault.exitCode.toUInt32
  | .error (.configuration failure) =>
    IO.eprintln s!"error: {failure.message}"
    return 1
  | .error (.session e) =>
    IO.eprintln s!"error: {e.message}"
    return 1
