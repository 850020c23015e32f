import SessionPool.Marshal
import SessionPool.Tcp.Network

/-!
# Marshals over TCP

A marshal over TCP has at most one connection, a scratch buffer for the exchange in progress, and a
counter for the ids of its messages. A reset starts the buffer and the counter over and leaves the
connection alone.
-/

namespace SessionPool.Tcp

/-- A marshal over TCP. It is open while it has a stream. -/
structure Marshal where
  options : Options
  stream : Option Stream := none
  scratch : List UInt8 := []
  nextId : UInt32 := 0
  deriving DecidableEq, Repr

/-- A factory of such marshals, all with the same options. -/
structure Factory where
  options : Options := {}
  deriving DecidableEq, Repr

namespace Marshal

def isOpen (m : Marshal) : Bool := m.stream.isSome

/-- Appends to the scratch buffer. -/
def write (m : Marshal) (bytes : List UInt8) : Marshal := { m with scratch := m.scratch ++ bytes }

/-- The id for the next message; after the greatest one comes 0. -/
def nextMessageId (m : Marshal) : UInt32 × Marshal :=
  (m.nextId, { m with nextId := m.nextId + 1 })

/-- The ids for the next `n` messages. -/
def nextMessageIds : Nat → Marshal → List UInt32 × Marshal
  | 0, m => ([], m)
  | n + 1, m =>
    let (id, m) := m.nextMessageId
    let (ids, m) := nextMessageIds n m
    (id :: ids, m)

variable {ω ε : Type} [Network ω ε]

/-- Connects. A failure takes away the stream that the marshal had before. -/
def dial (m : Marshal) (host : String) (port : UInt16) (w : ω) : Bool × Marshal × ω :=
  match connect m.options host port w with
  | (.ok stream, w) => (true, { m with stream := some stream }, w)
  | (.error _, w) => (false, { m with stream := none }, w)

def reset (m : Marshal) (w : ω) : Marshal × ω := ({ m with scratch := [], nextId := 0 }, w)

/-- Ends the connection, if there is one, and drops the stream and the scratch buffer. The counter
stays. -/
def close (m : Marshal) (w : ω) : Marshal × ω :=
  ({ m with stream := none, scratch := [] }, m.stream.elim w fun s => Network.shutdown s w)

end Marshal

instance {ω ε : Type} [Network ω ε] : SessionPool.Marshal Marshal ω where
  dial := Marshal.dial
  reset := Marshal.reset
  close := Marshal.close

instance {ω ε : Type} [Network ω ε] : Source Factory Marshal ω where
  create f w := ({ options := f.options }, w)

end SessionPool.Tcp

namespace SessionPool

/-- The factory of marshals with the options that a configuration asks for. -/
def Config.marshalFactory (c : Config) : Tcp.Factory := ⟨c.tcpOptions⟩

end SessionPool
