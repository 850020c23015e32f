import SessionPool.Text.Numeral
import SessionPool.Text.Quoted

/-!
# What makes a configuration unusable
-/

namespace SessionPool.Config

open Text

/-- The environment variable that overrides the host. -/
def hostVariable : String := "OPENHPI_DAEMON_HOST"

/-- The environment variable that overrides the port. -/
def portVariable : String := "OPENHPI_DAEMON_PORT"

/-- Why a configuration is unusable. -/
inductive Fault where
  | emptyHost
  | zeroPort
  | zeroConnectTimeout
  | zeroIoTimeout
  | zeroKeepalive
  /-- The port override, as it was given, is no port number. -/
  | unreadablePort (value : String) (fault : NumeralFault)
  deriving DecidableEq, Repr

def Fault.message : Fault → String
  | .emptyHost => "daemon host is empty"
  | .zeroPort => "daemon port must be non-zero"
  | .zeroConnectTimeout => "connectTimeoutMs must be non-zero"
  | .zeroIoTimeout => "ioTimeoutMs must be non-zero; omit it to disable the timeout"
  | .zeroKeepalive => "keepalive timeSecs, intervalSecs and probes must be non-zero"
  | .unreadablePort value fault => s!"{portVariable}={quoted value}: {fault.message}"

end SessionPool.Config
