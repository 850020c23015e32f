import SessionPool.Config
import SessionPool.Error
import SessionPool.Text.Blank

/-!
# Usable configurations

A configuration is usable when its host is not blank and none of its amounts is zero. Parsing alone
does not see to this; everything that hands out a configuration from outside checks it at the end.
-/

namespace SessionPool.Config

open Text

/-- Refuses an unusable configuration; the first fault in the order of the members decides. -/
def check (c : Config) : Except Error Unit :=
  if allBlank c.domain.host then .error (.invalidConfig .emptyHost)
  else if c.domain.port = 0 then .error (.invalidConfig .zeroPort)
  else if c.connectTimeoutMs = 0 then .error (.invalidConfig .zeroConnectTimeout)
  else if c.ioTimeoutMs = some 0 then .error (.invalidConfig .zeroIoTimeout)
  else if c.keepalive.any fun k => k.timeSecs = 0 || k.intervalSecs = 0 || k.probes = 0 then
    .error (.invalidConfig .zeroKeepalive)
  else .ok ()

/-- The configuration itself, if it is usable. -/
def checked (c : Config) : Except Error Config := do
  c.check
  return c

/-- The usable configuration that a JSON text stands for. -/
def ofJson (text : String) : Except Error Config :=
  match parse text with
  | .error e => .error (.json e)
  | .ok c => c.checked

end SessionPool.Config
