import SessionPool.Config
import SessionPool.Proofs.Json.Alike

/-!
# What a text gives of a configuration

A text may leave out most members of a configuration. Here they are read into a record in which what
is left out stays open, so it can be told apart from what is given as the default:

    Config.parse text = (Config.Given.parse text).map Config.Given.filled.

The two readers take the same texts, since their records have the same members.
-/

namespace SessionPool

open Json

/-! ### Settings that may be open -/

/-- What a text gives of a domain. The host is never left out. -/
structure Domain.Given where
  host : String
  port : Option UInt16 := none
  remoteDomainId : Option UInt32 := none
  deriving DecidableEq, Repr

/-- What a text gives of a configuration. A timeout or probes may be given as none. -/
structure Config.Given where
  domain : Option Domain.Given := none
  connectTimeoutMs : Option UInt64 := none
  ioTimeoutMs : Option (Option UInt64) := none
  nodelay : Option Bool := none
  keepalive : Option (Option Keepalive) := none
  deriving DecidableEq, Repr

namespace Domain.Given

/-- The domain with the defaults for what is open. -/
def filled (g : Given) : Domain where
  host := g.host
  port := g.port.getD ({} : Domain).port
  remoteDomainId := g.remoteDomainId.getD ({} : Domain).remoteDomainId

/-- The members of a domain, each of which closes a setting. -/
def record : Record Given where
  name := "struct Domain"
  absent := { host := "" }
  members := [
    ⟨"host", true, Reader.text.map fun host g => { g with host }⟩,
    ⟨"port", false, Reader.uint16.map fun port g => { g with port := some port }⟩,
    ⟨"remoteDomainId", false, Reader.uint32.map fun id g => { g with remoteDomainId := some id }⟩]

theorem alike_record : Domain.record.Alike (fun d g => d = filled g) record where
  name := rfl
  absent := rfl
  members := by
    refine .cons (.same ?host) (.cons (.same ?port) (.cons (.same ?id) .nil))
    case host => rintro host _ g rfl; rfl
    case port => rintro port _ g rfl; rfl
    case id => rintro id _ g rfl; rfl

end Domain.Given

namespace Config.Given

/-- The configuration with the defaults for what is open. -/
def filled (g : Given) : Config where
  domain := (g.domain.map Domain.Given.filled).getD ({} : Config).domain
  connectTimeoutMs := g.connectTimeoutMs.getD ({} : Config).connectTimeoutMs
  ioTimeoutMs := g.ioTimeoutMs.getD ({} : Config).ioTimeoutMs
  nodelay := g.nodelay.getD ({} : Config).nodelay
  keepalive := g.keepalive.getD ({} : Config).keepalive

/-- The members of a configuration, each of which closes a setting. -/
def record : Record Given where
  name := "struct ClientConfig"
  absent := {}
  members := [
    ⟨"domain", false, Domain.Given.record.reader.map fun d g => { g with domain := some d }⟩,
    ⟨"connectTimeoutMs", false,
      Reader.uint64.map fun ms g => { g with connectTimeoutMs := some ms }⟩,
    ⟨"ioTimeoutMs", false,
      Reader.uint64.optional.map fun ms g => { g with ioTimeoutMs := some ms }⟩,
    ⟨"nodelay", false, Reader.boolean.map fun nodelay g => { g with nodelay := some nodelay }⟩,
    ⟨"keepalive", false,
      Keepalive.record.reader.optional.map fun k g => { g with keepalive := some k }⟩]

/-- What a JSON text gives. -/
def parse (text : String) : Except Json.Error Given := record.reader.parse text

theorem alike_record : Config.record.Alike (fun c g => c = filled g) record where
  name := rfl
  absent := rfl
  members := by
    refine .cons (.intro Domain.Given.alike_record.reader ?domain) (.cons (.same ?connect)
      (.cons (.same ?io) (.cons (.same ?nodelay) (.cons (.same ?keepalive) .nil))))
    case domain => rintro _ d rfl _ g rfl; rfl
    case connect => rintro ms _ g rfl; rfl
    case io => rintro ms _ g rfl; rfl
    case nodelay => rintro nodelay _ g rfl; rfl
    case keepalive => rintro k _ g rfl; rfl

/-- A configuration is read by filling up what its text gives. -/
theorem parse_filled (text : String) : Config.parse text = (parse text).map filled :=
  alike_record.reader.parse text

/-! ### Single settings -/

def host? (g : Given) : Option String := g.domain.map (·.host)

def port? (g : Given) : Option UInt16 := g.domain.bind (·.port)

def remoteDomainId? (g : Given) : Option UInt32 := g.domain.bind (·.remoteDomainId)

end Config.Given

end SessionPool
