import SessionPool.Domain

/-!
# Client configurations

Which daemon to talk to and how to connect to it. A configuration is read from a JSON text in
which everything but the members of `keepalive` and the host of a given domain may be left out.
-/

namespace SessionPool

open Json

/-- Probes on an idle connection: the idle time before the first one, the time between two, and
how many may stay without an answer. -/
structure Keepalive where
  timeSecs : UInt64
  intervalSecs : UInt64
  probes : UInt32
  deriving DecidableEq, Repr, Inhabited

/-- A client configuration. Without an I/O timeout reads and writes may take forever. -/
structure Config where
  domain : Domain := {}
  connectTimeoutMs : UInt64 := 5000
  ioTimeoutMs : Option UInt64 := none
  nodelay : Bool := true
  keepalive : Option Keepalive := none
  deriving DecidableEq, Repr, Inhabited

namespace Keepalive

/-- The probes as a JSON object. -/
def toJson (k : Keepalive) : Value :=
  .object [
    ("timeSecs", .natural k.timeSecs.toNat),
    ("intervalSecs", .natural k.intervalSecs.toNat),
    ("probes", .natural k.probes.toNat)]

/-- The members of a keepalive setting, all of which have to be given. -/
def record : Record Keepalive where
  name := "struct KeepaliveConfig"
  absent := ⟨0, 0, 0⟩
  members := [
    ⟨"timeSecs", true, Reader.uint64.map fun timeSecs k => { k with timeSecs }⟩,
    ⟨"intervalSecs", true, Reader.uint64.map fun intervalSecs k => { k with intervalSecs }⟩,
    ⟨"probes", true, Reader.uint32.map fun probes k => { k with probes }⟩]

/-- The setting that a JSON text stands for. -/
def parse (text : String) : Except Json.Error Keepalive := record.reader.parse text

end Keepalive

namespace Config

/-- A configuration as a JSON object. What is not set is not written. -/
def toJson (c : Config) : Value :=
  .object ([
    ("domain", c.domain.toJson),
    ("connectTimeoutMs", .natural c.connectTimeoutMs.toNat)] ++
    Value.optionalMember "ioTimeoutMs" (fun ms => .natural ms.toNat) c.ioTimeoutMs ++
    [("nodelay", .boolean c.nodelay)] ++
    Value.optionalMember "keepalive" Keepalive.toJson c.keepalive)

/-- The members of a configuration. None has to be given. -/
def record : Record Config where
  name := "struct ClientConfig"
  absent := {}
  members := [
    ⟨"domain", false, Domain.record.reader.map fun domain c => { c with domain }⟩,
    ⟨"connectTimeoutMs", false,
      Reader.uint64.map fun connectTimeoutMs c => { c with connectTimeoutMs }⟩,
    ⟨"ioTimeoutMs", false,
      Reader.uint64.optional.map fun ioTimeoutMs c => { c with ioTimeoutMs }⟩,
    ⟨"nodelay", false, Reader.boolean.map fun nodelay c => { c with nodelay }⟩,
    ⟨"keepalive", false,
      Keepalive.record.reader.optional.map fun keepalive c => { c with keepalive }⟩]

/-- The configuration that a JSON text stands for, usable or not. -/
def parse (text : String) : Except Json.Error Config := record.reader.parse text

end Config

end SessionPool
