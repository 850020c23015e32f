import SessionPool.Config

/-!
# Options of TCP connections

Which options a connection is opened with. They follow from a configuration amount for amount.
-/

namespace SessionPool.Tcp

/-- A span of time, in milliseconds. -/
structure Duration where
  millis : Nat
  deriving DecidableEq, Repr

namespace Duration

def ofMillis (n : Nat) : Duration := ⟨n⟩

def ofSecs (n : Nat) : Duration := ⟨1000 * n⟩

/-- The whole seconds of a span. -/
def secs (d : Duration) : Nat := d.millis / 1000

end Duration

/-- Probes on an idle connection. -/
structure Probing where
  time : Duration
  interval : Duration
  retries : UInt32
  deriving DecidableEq, Repr

/-- What a connection is opened with. Without an I/O timeout it may block forever. -/
structure Options where
  connectTimeout : Duration := .ofSecs 5
  ioTimeout : Option Duration := none
  nodelay : Bool := true
  probing : Option Probing := none
  deriving DecidableEq, Repr

end SessionPool.Tcp

namespace SessionPool

/-- The probes that a keepalive setting asks for. -/
def Keepalive.probing (k : Keepalive) : Tcp.Probing :=
  ⟨.ofSecs k.timeSecs.toNat, .ofSecs k.intervalSecs.toNat, k.probes⟩

/-- The options that a configuration asks for. -/
def Config.tcpOptions (c : Config) : Tcp.Options where
  connectTimeout := .ofMillis c.connectTimeoutMs.toNat
  ioTimeout := c.ioTimeoutMs.map fun ms => .ofMillis ms.toNat
  nodelay := c.nodelay
  probing := c.keepalive.map Keepalive.probing

end SessionPool
