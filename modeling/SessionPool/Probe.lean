import SessionPool.Json.Value
import SessionPool.Session

/-!
# Probing a daemon

A probe acquires one marshal, gives it back at once and closes the session. It tells whether there
was a marshal, and to whom it was connected.
-/

namespace SessionPool.Probe

open Json

/-- What a probe found. -/
structure Report where
  localId : UInt64
  host : String
  port : UInt16
  remoteDomainId : UInt32
  connected : Bool
  peer : Option String := none
  deriving DecidableEq, Repr

/-- A report as a JSON object. The peer is left out when it is not known. -/
def Report.toJson (r : Report) : Value :=
  .object ([
    ("localId", .natural r.localId.toNat),
    ("host", .text r.host),
    ("port", .natural r.port.toNat),
    ("remoteDomainId", .natural r.remoteDomainId.toNat),
    ("connected", .boolean r.connected)] ++
    Value.optionalMember "peer" .text r.peer)

variable {φ μ ω : Type} [Marshal μ ω] [Source φ μ ω]

/-- The report on a session. -/
def report (s : Session φ μ) (connected : Bool) (peer : Option String) : Report where
  localId := s.localId
  host := s.domain.host
  port := s.domain.port
  remoteDomainId := s.domain.remoteDomainId
  connected
  peer

/-- Probes the daemon of a session; `peer?` tells to whom a marshal is connected. Whatever is
found, the session is closed in the end. -/
def run (peer? : μ → Option String) (s : Session φ μ) (w : ω) :
    Except Error Report × Session φ μ × ω :=
  match s.acquire w with
  | (none, s, w) =>
    let (_, s, w) := s.close w
    (.ok (report s false none), s, w)
  | (some m, s, w) =>
    let (released, s, w) := s.release m w
    let (_, s, w) := s.close w
    (released.map fun _ => report s true (peer? m), s, w)

end SessionPool.Probe
