import SessionPool.Allocator
import SessionPool.CommandLine.Reader
import SessionPool.Probe
import SessionPool.Tcp.Marshal

/-!
# The operator's tool

The tool reads a command line, finds out which daemon is meant, does what it is told over TCP, and
reports. It uses one session and leaves nothing open behind.
-/

namespace SessionPool.Tool

/-- Why there is no report. -/
inductive Refusal where
  /-- The command line is not carried out. -/
  | usage (fault : CommandLine.Fault)
  /-- There is no usable configuration. -/
  | configuration (failure : Failure)
  /-- The session failed. -/
  | session (error : Error)
  deriving DecidableEq, Repr

variable {ω ε : Type} [Tcp.Network ω ε]

/-- The address of the peer of a marshal, which is taken to be the one that was contacted. -/
def peer? (m : Tcp.Marshal) : Option String :=
  m.stream.map fun stream => s!"{stream.peer.host}:{stream.peer.port}"

/-- A session for a configuration, with the next id of an allocator. -/
def session (ids : Allocator) (c : Config) : Session Tcp.Factory Tcp.Marshal where
  localId := ids.next.1
  domain := c.domain
  factory := c.marshalFactory

/-- What a command reports. -/
def report (schedule : Stress.Schedule) (command : Command) (s : Session Tcp.Factory Tcp.Marshal)
    (w : ω) : Except Error Json.Value × ω :=
  match command with
  | .probe =>
    let (found, _, w) := Probe.run peer? s w
    (found.map (·.toJson), w)
  | .stress load =>
    let (found, _, w) := Stress.run schedule load s w
    (found.map (·.toJson), w)

/-- Carries out a command line in a fresh process, whose first session has id 1. The answer is the
text of the report. -/
def run (schedule : Stress.Schedule) (files : Files.Tree) (env : Environment)
    (arguments : List String) (w : ω) : Except Refusal String × ω :=
  match CommandLine.ofArguments arguments with
  | .error fault => (.error (.usage fault), w)
  | .ok line =>
    match line.target.resolve files env with
    | .error failure => (.error (.configuration failure), w)
    | .ok c =>
      match report schedule line.command (session {} c) w with
      | (.error e, w) => (.error (.session e), w)
      | (.ok v, w) => (.ok v.toPretty, w)

end SessionPool.Tool
