import SessionPool.Mock.Daemon
import SessionPool.Tcp.Loopback

/-!
# What a script does besides calling the library

A script changes the world outside, and it does to the marshals it holds what an exchange would do.
Both depend on the kind of marshal: here they are for mock marshals and for marshals over TCP.
-/

namespace SessionPool.Script

/-- Changes that a script makes to the world outside. -/
class World (ω : Type) (χ : outParam Type) where
  change : χ → ω → ω

/-- What the holder of a marshal does to it besides opening, resetting and closing. -/
class Holder (μ : Type) (α : outParam Type) where
  act : α → μ → μ

/-- Changes to a fleet of mock daemons. -/
inductive FleetChange where
  | start (d : Mock.Daemon)
  | setAccepting (place : Nat) (on : Bool)
  deriving DecidableEq, Repr

instance : World Mock.Fleet FleetChange where
  change
    | .start d, w => (w.start d).2
    | .setAccepting place on, w => w.setAccepting place on

/-- Changes to the listeners of a machine. -/
inductive LoopbackChange where
  | start (l : Tcp.Listener)
  | setListening (place : Nat) (on : Bool)
  deriving DecidableEq, Repr

instance : World Tcp.Loopback LoopbackChange where
  change
    | .start l, w => (w.start l).2
    | .setListening place on, w => w.setListening place on

/-- What an exchange does to a mock marshal. -/
inductive MockAct where
  | markDirty
  deriving DecidableEq, Repr

instance : Holder Mock.Marshal MockAct where
  act
    | .markDirty, m => m.markDirty

/-- What an exchange does to a marshal over TCP. -/
inductive TcpAct where
  | write (bytes : List UInt8)
  | takeMessageIds (count : Nat)
  deriving DecidableEq, Repr

instance : Holder Tcp.Marshal TcpAct where
  act
    | .write bytes, m => m.write bytes
    | .takeMessageIds count, m => (m.nextMessageIds count).2

end SessionPool.Script
