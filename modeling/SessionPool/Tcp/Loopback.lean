import SessionPool.Tcp.Marshal

/-!
# The network of one machine

The only address is the machine's own. A connection is made when somebody listens on the port and
the machine reaches itself at all. Options are then accepted when the operating system takes them.
-/

namespace SessionPool.Tcp

/-- Somebody who listens, or does not for the time being, and the connections made so far. -/
structure Listener where
  listening : Bool := true
  accepted : Nat := 0
  deriving DecidableEq, Repr, Inhabited

/-- The network of one machine. The listeners have successive ports from `firstPort` on. -/
structure Loopback where
  reachable : Bool := true
  listeners : List Listener := []
  deriving DecidableEq, Repr, Inhabited

namespace Loopback

/-- Why a machine does not connect to itself. -/
inductive Refusal where
  /-- The host is another one. -/
  | unresolved
  /-- The time allowed for connecting is no time at all. -/
  | noTime
  /-- The machine does not reach itself. -/
  | unreachable
  /-- Nobody listens at the address. -/
  | refused
  /-- An option was not accepted. -/
  | badOption
  deriving DecidableEq, Repr

/-- The address by which a machine knows itself. -/
def host : String := "127.0.0.1"

/-- The port of the first listener: the first one that no service has reserved. -/
def firstPort : Nat := 49152

/-- The port of the listener at a place. -/
def port (place : Nat) : UInt16 := (firstPort + place).toUInt16

/-- The place of the listener with a given port. -/
def place? (w : Loopback) (a : Address) : Option Nat :=
  (List.range w.listeners.length).find? fun place => a = ⟨host, port place⟩

/-- A further listener, and its place. -/
def start (w : Loopback) (l : Listener) : Nat × Loopback :=
  (w.listeners.length, { w with listeners := w.listeners ++ [l] })

def modify (w : Loopback) (place : Nat) (f : Listener → Listener) : Loopback :=
  { w with listeners := w.listeners.modify place f }

/-- Tells a listener whether to listen. -/
def setListening (w : Loopback) (place : Nat) (on : Bool) : Loopback :=
  w.modify place fun l => { l with listening := on }

def listener (w : Loopback) (place : Nat) : Listener := w.listeners.getD place {}

/-- What one option comes to. -/
def verdict (accepted : Bool) : Except Refusal Unit :=
  if accepted then .ok () else .error .badOption

/-- Probes that the operating system takes: times from 1 to 32767 seconds, and 1 to 127 of them. -/
def takesProbing (p : Probing) : Bool :=
  1 ≤ p.time.secs && p.time.secs ≤ 32767 && 1 ≤ p.interval.secs && p.interval.secs ≤ 32767 &&
    1 ≤ p.retries && p.retries ≤ 127

/-- What the options come to on a connection that was made. No timeout may be zero. -/
def answer (o : Options) : Answer Refusal where
  readTimeout := verdict (o.ioTimeout != some ⟨0⟩)
  writeTimeout := verdict (o.ioTimeout != some ⟨0⟩)
  keepalive := verdict (o.probing.all takesProbing)

/-- Contacts an address. A connection counts as accepted whatever becomes of its options. -/
def contact (a : Address) (o : Options) (w : Loopback) : Answer Refusal × Loopback :=
  if o.connectTimeout = ⟨0⟩ then ({ connect := .error .noTime }, w)
  else if !w.reachable then ({ connect := .error .unreachable }, w)
  else
    match w.place? a with
    | none => ({ connect := .error .refused }, w)
    | some place =>
      if (w.listener place).listening then
        (answer o, w.modify place fun l => { l with accepted := l.accepted + 1 })
      else ({ connect := .error .refused }, w)

end Loopback

-- A listener goes on counting a connection as made when the connection has ended.
instance : Network Loopback Loopback.Refusal where
  resolve host port w :=
    (if host = Loopback.host then .ok [⟨host, port⟩] else .error .unresolved, w)
  contact := Loopback.contact
  shutdown _ w := w

/-- A listener together with the options of the marshals that are made for it. -/
structure Loopback.Daemon where
  place : Nat
  options : Options := {}
  deriving DecidableEq, Repr

instance : Source Loopback.Daemon Marshal Loopback where
  create d w := ({ options := d.options }, w)

end SessionPool.Tcp
