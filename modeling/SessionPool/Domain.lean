import SessionPool.Json.Record
import SessionPool.Json.Value
import SessionPool.Text.Inspection

/-!
# Domains

A domain is the endpoint that a session talks to: the host and the port of a daemon, and the
number under which the daemon knows the domain.
-/

namespace SessionPool

open Json Text

/-- Where a daemon listens, and which of its domains is meant. -/
structure Domain where
  host : String := "localhost"
  port : UInt16 := 4743
  remoteDomainId : UInt32 := 0
  deriving DecidableEq, Repr, Inhabited

namespace Domain

/-- A domain for people to read. -/
def display (d : Domain) : String :=
  s!"{d.host}:{d.port} (domain {d.remoteDomainId})"

/-- A domain field by field. -/
def inspect (d : Domain) : Inspection :=
  .record "Domain" [
    ("host", .text d.host),
    ("port", .natural d.port.toNat),
    ("remote_domain_id", .natural d.remoteDomainId.toNat)]

/-- A domain as a JSON object. -/
def toJson (d : Domain) : Value :=
  .object [
    ("host", .text d.host),
    ("port", .natural d.port.toNat),
    ("remoteDomainId", .natural d.remoteDomainId.toNat)]

/-- The members of a domain. Only the host has to be given. -/
def record : Record Domain where
  name := "struct Domain"
  absent := { host := "" }
  members := [
    ⟨"host", true, Reader.text.map fun host d => { d with host }⟩,
    ⟨"port", false, Reader.uint16.map fun port d => { d with port }⟩,
    ⟨"remoteDomainId", false, Reader.uint32.map fun remoteDomainId d => { d with remoteDomainId }⟩]

/-- The domain that a JSON text stands for. -/
def parse (text : String) : Except Json.Error Domain := record.reader.parse text

end Domain

end SessionPool
